import Nmsg.Dnsqr.Table

/-!
# A queue of queries

What the table of outstanding queries is for: queries wait in the order they came. A response
takes the earliest query it is equal to, and expired queries leave at the front.
-/

namespace Nmsg

/-- Queries in order of arrival, under the settings of the table. -/
structure DnsqrQueue where
  entries : List DnsQR
  stop : Bool
  maxValues : Nat
  queryTimeout : Nat
  now : Timespec

namespace DnsqrQueue

def empty (maxValues queryTimeout : Nat) : DnsqrQueue where
  entries := []
  stop := false
  maxValues := maxValues
  queryTimeout := queryTimeout
  now := ⟨0, 0⟩

/-- The query at the front of the queue has to leave it. -/
def Expires (q : DnsqrQueue) (head : DnsQR) : Prop :=
  q.entries.length > q.maxValues ∨ q.stop = true ∨
    q.now.sec - head.queryTimeSec.headD 0 > q.queryTimeout

instance (q : DnsqrQueue) (head : DnsQR) : Decidable (q.Expires head) :=
  inferInstanceAs (Decidable (_ ∨ _ ∨ _))

/-- A query that leaves unanswered carries the time it waited. -/
def timedOut (now : Timespec) (d : DnsQR) : DnsQR :=
  { d with
    timeout := some (elapsed now ⟨d.queryTimeSec.headD 0, d.queryTimeNsec.headD 0⟩) }

def insertQuery (q : DnsqrQueue) (d : DnsQR) : DnsqrQueue :=
  { q with entries := q.entries ++ [d] }

def retrieve (q : DnsqrQueue) (response : DnsQR) (rcode : UInt16) : Option DnsQR × DnsqrQueue :=
  (q.entries.find? fun d => dnsqrEq response d rcode,
    { q with entries := q.entries.eraseP fun d => dnsqrEq response d rcode })

def trim (q : DnsqrQueue) : Option DnsQR × DnsqrQueue :=
  match q.entries with
  | [] => (none, q)
  | head :: rest =>
      if q.Expires head then (some (timedOut q.now head), { q with entries := rest })
      else (none, q)

def step (q : DnsqrQueue) : TableOp → Except Abort (Option DnsQR × DnsqrQueue)
  | .insertQuery d => .ok (none, q.insertQuery d)
  | .retrieve response rcode => .ok (q.retrieve response rcode)
  | .trim => .ok q.trim
  | .setNow now => .ok (none, { q with now := now })
  | .setStop stop => .ok (none, { q with stop := stop })

end DnsqrQueue

/-! ### The queue a table stands for -/

/-- The record a list node leads to. -/
def DnsqrTable.entryAt (t : DnsqrTable) (le : Nat) : Option DnsQR :=
  (t.table (t.he le)).map (·.dnsqr)

def DnsqrTable.toQueue (t : DnsqrTable) : DnsqrQueue where
  entries := t.list.filterMap t.entryAt
  stop := t.stop
  maxValues := t.maxValues
  queryTimeout := t.queryTimeout
  now := t.now

/-- The table and its list describe the same entries. -/
structure DnsqrTable.Consistent (hash : DnsqrKey → UInt32) (t : DnsqrTable) : Prop where
  /-- No entry is in two slots. -/
  oneSlot : ∀ p q e f, t.table p = some e → t.table q = some f → e.le = f.le → p = q
  /-- No empty slot lies between an entry and its natural slot. -/
  reachable : ∀ p < t.numSlots, ∀ e, t.table p = some e → ∀ q < t.numSlots,
    LinearProbe.dist t.numSlots (naturalSlot hash t.numSlots e.dnsqr) q <
      LinearProbe.dist t.numSlots (naturalSlot hash t.numSlots e.dnsqr) p → t.table q ≠ none
  /-- The list node of an entry points back to its slot. -/
  pointsBack : ∀ p e, t.table p = some e → p < t.numSlots ∧ e.le ∈ t.list ∧ t.he e.le = p
  /-- Every list node leads to the entry it belongs to. -/
  listed : ∀ le ∈ t.list, ∃ e, t.table (t.he le) = some e ∧ e.le = le
  /-- `count` is the number of entries. -/
  counted : t.count = ((List.range t.numSlots).filterMap t.table).length

/-- What the code relies on when it makes the call: addresses that can be hashed, and a query that
carries the time it was seen. -/
def TableOp.WellFormed : TableOp → Prop
  | .insertQuery d => d.Hashable ∧ d.queryTimeSec ≠ [] ∧ d.queryTimeNsec ≠ []
  | .retrieve d _ => d.Hashable
  | _ => True

instance : (op : TableOp) → Decidable op.WellFormed
  | .insertQuery d => inferInstanceAs (Decidable (d.Hashable ∧ _ ∧ _))
  | .retrieve d _ => inferInstanceAs (Decidable d.Hashable)
  | .trim => .isTrue trivial
  | .setNow _ => .isTrue trivial
  | .setStop _ => .isTrue trivial

/-- The table has an empty slot when it is inserted into or searched. -/
def TableOp.HasRoom (t : DnsqrTable) : TableOp → Prop
  | .insertQuery _ | .retrieve _ _ => ∃ s < t.numSlots, t.table s = none
  | _ => True

end Nmsg

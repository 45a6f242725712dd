import Nmsg.Dnsqr.Record
import Nmsg.Lib.LinearProbe

/-!
# The table of outstanding queries

Queries wait in a hash table with linear probing for their responses. A list in order of arrival
runs through them, and each of its nodes holds a pointer to the slot of its entry, which is
corrected whenever a deletion moves the entry to another slot.
-/

namespace Nmsg

/-- `hash_entry_t`: a stored record and its list node. -/
structure HashEntry where
  dnsqr : DnsQR
  hashable : dnsqr.Hashable
  le : Nat
deriving DecidableEq

/-- The part of `dnsqr_ctx_t` that the table operations use. List nodes are numbered in order of
allocation; `he` is the slot a node points to. -/
structure DnsqrTable where
  table : Nat → Option HashEntry
  list : List Nat
  he : Nat → Nat
  fresh : Nat
  stop : Bool
  numSlots : Nat
  maxValues : Nat
  queryTimeout : Nat
  count : Nat
  now : Timespec

def DnsqrTable.empty (numSlots maxValues queryTimeout : Nat) : DnsqrTable where
  table := fun _ => none
  list := []
  he := fun _ => 0
  fresh := 0
  stop := false
  numSlots := numSlots
  maxValues := maxValues
  queryTimeout := queryTimeout
  count := 0
  now := ⟨0, 0⟩

section Operations

variable (hash : DnsqrKey → UInt32)

/-- The natural slot of a record. -/
def naturalSlot (numSlots : Nat) (d : DnsQR) : Nat := (hash (dnsqrKey d)).toNat % numSlots

def dnsqrInsertQuery (t : DnsqrTable) (dnsqr : DnsQR) : Except Abort DnsqrTable :=
  match dnsqrHash hash dnsqr with
  | .error e => .error e
  | .ok ⟨h, hashable⟩ =>
      if t.numSlots = 0 then .error .divideByZero
      else
        let slot := h.toNat % t.numSlots
        match LinearProbe.probe t.numSlots (fun s => (t.table s).isNone)
            (LinearProbe.before t.numSlots slot) t.numSlots slot with
        | none => .error .assertion
        | some slot =>
            .ok { t with
              count := t.count + 1
              table := Function.update t.table slot (some ⟨dnsqr, hashable, t.fresh⟩)
              he := Function.update t.he t.fresh slot
              list := t.list ++ [t.fresh]
              fresh := t.fresh + 1 }

/-- Enough steps for the deletion walk of a table of `numSlots` slots. -/
def removeFuel (numSlots : Nat) : Nat := numSlots * numSlots * numSlots + numSlots

def dnsqrRemove (t : DnsqrTable) (slot : Nat) : Except Abort DnsqrTable :=
  match t.table slot with
  | none => .error .assertion
  | some e =>
      match LinearProbe.shift t.numSlots (fun f => naturalSlot hash t.numSlots f.dnsqr)
          (fun he f i => Function.update he f.le i) (removeFuel t.numSlots)
          (Function.update t.table slot none) t.he slot slot with
      | none => .error .divergence
      | some (table, he) =>
          .ok { t with
            table := table
            he := he
            count := t.count - 1
            list := t.list.erase e.le }

/-- The time from `ts` to `now`, with the nanoseconds borrowed from the seconds. -/
def elapsed (now ts : Timespec) : Timespec :=
  if now.nsec - ts.nsec < 0 then
    ⟨now.sec - ts.sec - 1, now.nsec - ts.nsec + nsecPerSec⟩
  else ⟨now.sec - ts.sec, now.nsec - ts.nsec⟩

def dnsqrTrim (t : DnsqrTable) : Except Abort (Option DnsQR × DnsqrTable) :=
  match t.list with
  | [] => .ok (none, t)
  | le :: _ =>
      match t.table (t.he le) with
      | none => .error .assertion
      | some e =>
          match e.dnsqr.queryTimeSec, e.dnsqr.queryTimeNsec with
          | sec :: _, nsec :: _ =>
              if t.count > t.maxValues ∨ t.stop = true ∨ t.now.sec - sec > t.queryTimeout then
                match dnsqrRemove hash t (t.he le) with
                | .error err => .error err
                | .ok t' =>
                    .ok (some { e.dnsqr with timeout := some (elapsed t.now ⟨sec, nsec⟩) }, t')
              else .ok (none, t)
          | _, _ => .error .assertion

/-- The slots where a search for `dnsqr` ends. -/
def emptyOrEqual (t : DnsqrTable) (dnsqr : DnsQR) (rcode : UInt16) (slot : Nat) : Bool :=
  match t.table slot with
  | none => true
  | some e => dnsqrEq dnsqr e.dnsqr rcode

def dnsqrRetrieve (t : DnsqrTable) (dnsqr : DnsQR) (rcode : UInt16) :
    Except Abort (Option DnsQR × DnsqrTable) :=
  match dnsqrHash hash dnsqr with
  | .error e => .error e
  | .ok ⟨h, _⟩ =>
      if t.numSlots = 0 then .error .divideByZero
      else
        let slot := h.toNat % t.numSlots
        match LinearProbe.probe t.numSlots (emptyOrEqual t dnsqr rcode)
            (LinearProbe.before t.numSlots slot) t.numSlots slot with
        | none => .error .assertion
        | some slot =>
            match t.table slot with
            | none => .ok (none, t)
            | some e =>
                match dnsqrRemove hash t slot with
                | .error err => .error err
                | .ok t' => .ok (some e.dnsqr, t')

/-! ### Sequences of operations -/

/-- Calls on the table, and the two settings the rest of the module changes between them. -/
inductive TableOp where
  | insertQuery (dnsqr : DnsQR)
  | retrieve (dnsqr : DnsQR) (rcode : UInt16)
  | trim
  | setNow (now : Timespec)
  | setStop (stop : Bool)
deriving DecidableEq

def tableStep (t : DnsqrTable) : TableOp → Except Abort (Option DnsQR × DnsqrTable)
  | .insertQuery d => (dnsqrInsertQuery hash t d).map fun t' => (none, t')
  | .retrieve d rcode => dnsqrRetrieve hash t d rcode
  | .trim => dnsqrTrim hash t
  | .setNow now => .ok (none, { t with now := now })
  | .setStop stop => .ok (none, { t with stop := stop })

end Operations

end Nmsg

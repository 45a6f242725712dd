import Nmsg.Ipreasm.Base
import Nmsg.Lib.LinkedList

/-!
# The links of the store

The store as it lies in memory: an entry is in two doubly linked lists, a chain of the table and the
time list, whose pointers are patched when it is put in and when it is removed.
-/

namespace Nmsg

open LinkedList

/-- `struct reasm_ip` with the pointers of its entries. -/
structure LinkedReasmIp (F : Type) where
  entry : Nat → ReasmIpEntry F
  fresh : Nat
  /-- `prev` and `next` -/
  chain : Links Nat
  /-- `time_prev` and `time_next` -/
  time : Links Nat
  table : Nat → Option Nat
  timeFirst : Option Nat
  timeLast : Option Nat
  waiting : Nat
  maxWaiting : Nat
  timedOut : Nat
  droppedFrags : Nat
  timeout : Int

namespace LinkedReasmIp

variable {F : Type}

/-- `reasm_ip_new` -/
def new : LinkedReasmIp F where
  entry := fun _ => .init (.ipv4 [] [] 0 0) 0 0
  fresh := 0
  chain := ⟨fun _ => none, fun _ => none⟩
  time := ⟨fun _ => none, fun _ => none⟩
  table := fun _ => none
  timeFirst := none
  timeLast := none
  waiting := 0
  maxWaiting := 0
  timedOut := 0
  droppedFrags := 0
  timeout := 0

/-- `reasm_ip_set_timeout` -/
def setTimeout (reasm : LinkedReasmIp F) (timeout : Int) : Bool × LinkedReasmIp F :=
  if reasm.timeFirst ≠ none then (false, reasm) else (true, { reasm with timeout := timeout })

/-- `remove_entry` -/
def removeEntry (reasm : LinkedReasmIp F) (entry : Nat) : LinkedReasmIp F :=
  let hash := (reasm.entry entry).hash
  { reasm with
    table := Function.update reasm.table hash (reasm.chain.firstWithout entry (reasm.table hash))
    chain := reasm.chain.unlink entry
    timeFirst := reasm.time.firstWithout entry reasm.timeFirst
    timeLast := reasm.time.lastWithout entry reasm.timeLast
    time := reasm.time.unlink entry
    waiting := reasm.waiting - 1 }

/-- `process_timeouts`; each round of the loop takes `fuel`. -/
def processTimeouts : Nat → LinkedReasmIp F → Int → Except Abort (LinkedReasmIp F)
  | 0, _, _ => .error .divergence
  | fuel + 1, reasm, now =>
      match reasm.timeFirst with
      | none => .ok reasm
      | some entry =>
          if (reasm.entry entry).timeout < now then
            processTimeouts fuel { reasm.removeEntry entry with timedOut := reasm.timedOut + 1 } now
          else .ok reasm

/-- The chain of a hash value is searched for the entry of a datagram. -/
def findEntry (reasm : LinkedReasmIp F) (id : ReasmId) (hash : Nat) : Except Abort (Option Nat) :=
  match reasm.chain.find (fun entry => (reasm.entry entry).id = id) reasm.waiting
      (reasm.table hash) with
  | none => .error .divergence
  | some entry => .ok entry

def setEntry (reasm : LinkedReasmIp F) (entry : Nat) (e : ReasmIpEntry F) : LinkedReasmIp F :=
  { reasm with entry := Function.update reasm.entry entry e }

/-- A new entry is put at the front of its chain and at the end of the time list. -/
def newEntry (reasm : LinkedReasmIp F) (id : ReasmId) (hash : Nat) (timestamp : Int) :
    LinkedReasmIp F :=
  { setEntry reasm reasm.fresh (.init id hash (timestamp + reasm.timeout)) with
    fresh := reasm.fresh + 1
    chain := reasm.chain.pushFront reasm.fresh (reasm.table hash)
    table := Function.update reasm.table hash (some reasm.fresh)
    time := reasm.time.pushBack reasm.fresh reasm.timeLast
    timeFirst :=
      match reasm.timeLast with
      | some _ => reasm.timeFirst
      | none => some reasm.fresh
    timeLast := some reasm.fresh
    waiting := reasm.waiting + 1
    maxWaiting := max reasm.maxWaiting (reasm.waiting + 1) }

/-- The entry of a datagram, a new one when there is none. -/
def getEntry (reasm : LinkedReasmIp F) (id : ReasmId) (timestamp : Int) :
    Except Abort (Nat × LinkedReasmIp F) := do
  let hash := (reasmHash id).toNat % reasmIpHashSize
  match ← reasm.findEntry id hash with
  | some entry => return (entry, reasm)
  | none => return (reasm.fresh, reasm.newEntry id hash timestamp)

variable [ReasmFrag F]

/-- A fragment is put into an entry: the entry, when that completes it. -/
def putFragment (reasm : LinkedReasmIp F) (entry : Nat) (frag : F) (lastFrag : Bool) :
    Option (ReasmIpEntry F) × LinkedReasmIp F :=
  if (reasm.entry entry).state ≠ .active then
    (none, { reasm with droppedFrags := reasm.droppedFrags + 1 })
  else
    match reasmAddFragment (reasm.entry entry) frag lastFrag with
    | (false, e) =>
        (none, { reasm.setEntry entry { e with state := .invalid } with
          droppedFrags := reasm.droppedFrags + e.fragCount + 1 })
    | (true, e) =>
        let reasm := reasm.setEntry entry e
        if reasmIsComplete e then (some e, reasm.removeEntry entry) else (none, reasm)

/-- What `reasm_ip_next` does with a packet it recognizes as a fragment. -/
def reasmIpFragment (reasm : LinkedReasmIp F) (frag : F) (id : ReasmId) (lastFrag : Bool)
    (timestamp : Int) : Except Abort (Option (ReasmIpEntry F) × LinkedReasmIp F) := do
  let (entry, reasm) ← reasm.getEntry id timestamp
  return reasm.putFragment entry frag lastFrag

/-- `reasm_ip_next`: whether the packet is a fragment, and the entry it completes. -/
def reasmIpNext (reasm : LinkedReasmIp BaseFrag) (packet : Bytes) (len : Nat)
    (timestamp : Timespec) :
    Except Abort ((Bool × Option (ReasmIpEntry BaseFrag)) × LinkedReasmIp BaseFrag) := do
  let reasm ← processTimeouts (reasm.waiting + 1) reasm timestamp.sec
  match ← reasmParsePacket packet len timestamp with
  | none => return ((false, none), reasm)
  | some p =>
      let (entry, reasm) ← reasm.reasmIpFragment p.frag p.id p.lastFrag timestamp.sec
      return ((true, entry), reasm)

end LinkedReasmIp

end Nmsg

import Nmsg.Net
import Mathlib.Logic.Function.Basic

/-!
# The store of incomplete datagrams

Two copies of the reassembly code share the store: a hash table of entries, one for each datagram
with a fragment received and not complete, and a list of the entries in the order in which they
time out. The copies differ in what they keep of a fragment, in how they parse it and in how they
put a datagram together, so the store is stated for any kind of fragment.
-/

namespace Nmsg

/-- `REASM_IP_HASH_SIZE` -/
def reasmIpHashSize : Nat := 1021

/-- `union reasm_id` together with the protocol that says which member it holds. -/
inductive ReasmId where
  | ipv4 (ipSrc ipDst : Bytes) (ipId : Nat) (ipProto : UInt8)
  | ipv6 (ipSrc ipDst : Bytes) (ipId : Nat)
deriving DecidableEq, Repr

/-- The addresses taken in turns, as both hash functions begin. -/
def reasmAddrHash (ipSrc ipDst : Bytes) : UInt32 :=
  (ipSrc.zip ipDst).foldl
    (fun hash b => 37 * (37 * hash + b.1.toUInt32) + b.2.toUInt32) 0

/-- `reasm_ipv4_hash` and `reasm_ipv6_hash` -/
def reasmHash : ReasmId → UInt32
  | .ipv4 ipSrc ipDst ipId ipProto =>
      47 * (59 * reasmAddrHash ipSrc ipDst + UInt32.ofNat ipId) + ipProto.toUInt32
  | .ipv6 ipSrc ipDst ipId => 59 * reasmAddrHash ipSrc ipDst + UInt32.ofNat ipId

inductive EntryState where
  | active
  | invalid
deriving DecidableEq, Repr

/-- What both copies keep of a fragment, a `reasm_frag_entry`. -/
class ReasmFrag (F : Type) where
  /-- payload length of this fragment -/
  len : F → Nat
  /-- offset of this fragment into the payload of the reassembled packet -/
  offset : F → Nat
  /-- offset to the data pointer where payload starts -/
  dataOffset : F → Nat
  data : F → Bytes

/-- `struct reasm_ip_entry`. The fragments are those behind the list head. -/
structure ReasmIpEntry (F : Type) where
  id : ReasmId
  len : Nat
  holes : Nat
  fragCount : Nat
  hash : Nat
  timeout : Int
  state : EntryState
  frags : List F
deriving DecidableEq, Repr

/-- `struct reasm_ip`. Entries are numbered in order of allocation; the chains of the table and
the time list hold their numbers. -/
structure ReasmIp (F : Type) where
  entry : Nat → ReasmIpEntry F
  fresh : Nat
  table : Nat → List Nat
  time : List Nat
  waiting : Nat
  maxWaiting : Nat
  timedOut : Nat
  droppedFrags : Nat
  timeout : Int

section Store

variable {F : Type}

/-- The entry a fragment of a new datagram is put into. -/
def ReasmIpEntry.init (id : ReasmId) (hash : Nat) (timeout : Int) : ReasmIpEntry F where
  id := id
  len := 0
  holes := 1
  fragCount := 0
  hash := hash
  timeout := timeout
  state := .active
  frags := []

/-- `reasm_ip_new` -/
def reasmIpNew : ReasmIp F where
  entry := fun _ => .init (.ipv4 [] [] 0 0) 0 0
  fresh := 0
  table := fun _ => []
  time := []
  waiting := 0
  maxWaiting := 0
  timedOut := 0
  droppedFrags := 0
  timeout := 0

/-- `reasm_ip_set_timeout` -/
def reasmIpSetTimeout (reasm : ReasmIp F) (timeout : Int) : Bool × ReasmIp F :=
  if reasm.time ≠ [] then (false, reasm) else (true, { reasm with timeout := timeout })

/-- `remove_entry`: an entry leaves its chain and the time list. -/
def removeEntry (reasm : ReasmIp F) (entry : Nat) : ReasmIp F :=
  let hash := (reasm.entry entry).hash
  { reasm with
    table := Function.update reasm.table hash ((reasm.table hash).erase entry)
    time := reasm.time.erase entry
    waiting := reasm.waiting - 1 }

/-- `process_timeouts`: the entries at the front of the time list that have expired are removed. -/
def processTimeouts (reasm : ReasmIp F) (now : Int) : ReasmIp F :=
  (reasm.time.takeWhile fun entry => (reasm.entry entry).timeout < now).foldl
    (fun reasm entry =>
      { removeEntry reasm entry with timedOut := reasm.timedOut + 1 }) reasm

/-- The chain of a hash value is searched for the entry of a datagram. -/
def findEntry (reasm : ReasmIp F) (id : ReasmId) (hash : Nat) : Option Nat :=
  (reasm.table hash).find? fun entry => (reasm.entry entry).id = id

/-- An entry is written to. -/
def setEntry (reasm : ReasmIp F) (entry : Nat) (e : ReasmIpEntry F) : ReasmIp F :=
  { reasm with entry := Function.update reasm.entry entry e }

@[simp]
theorem setEntry_self (reasm : ReasmIp F) (entry : Nat) (e : ReasmIpEntry F) :
    (setEntry reasm entry e).entry entry = e := by
  simp only [setEntry, Function.update_self]

theorem setEntry_of_ne (reasm : ReasmIp F) {entry k : Nat} (e : ReasmIpEntry F) (h : k ≠ entry) :
    (setEntry reasm entry e).entry k = reasm.entry k := by
  simp only [setEntry, Function.update_of_ne h]

/-- A new entry is put at the front of its chain and at the end of the time list. -/
def newEntry (reasm : ReasmIp F) (id : ReasmId) (hash : Nat) (timestamp : Int) : ReasmIp F :=
  { setEntry reasm reasm.fresh (.init id hash (timestamp + reasm.timeout)) with
    fresh := reasm.fresh + 1
    table := Function.update reasm.table hash (reasm.fresh :: reasm.table hash)
    time := reasm.time ++ [reasm.fresh]
    waiting := reasm.waiting + 1
    maxWaiting := max reasm.maxWaiting (reasm.waiting + 1) }

variable [ReasmFrag F]

open ReasmFrag

/-- The end of the fragment in front, or of the list head when there is none. -/
def fragsEnd (frags : List F) : Nat :=
  match frags.getLast? with
  | none => 0
  | some cur => toUnsigned (offset cur + len cur)

/-- The fragments in front of the place of `frag`, and those behind it. -/
def fragsBefore (frags : List F) (frag : F) : List F :=
  frags.takeWhile fun cur => offset cur ≤ offset frag

def fragsAfter (frags : List F) (frag : F) : List F :=
  frags.dropWhile fun cur => offset cur ≤ offset frag

/-- The overlap checks of `reasm_add_fragment`: whether the fragment fits to its left and to its
right, when it overlaps with neither neighbour. -/
def fragPlace (frags : List F) (frag : F) (lastFrag : Bool) : Option (Bool × Bool) :=
  let left := fragsEnd (fragsBefore frags frag)
  let right := toUnsigned (offset frag + len frag)
  if left > offset frag then none
  else
    match fragsAfter frags frag with
    | [] => some (left = offset frag, lastFrag)
    | next :: _ =>
        -- next extends past end of packet
        if lastFrag then none
        else if right > offset next then none
        else some (left = offset frag, right = offset next)

/-- The last part of `reasm_add_fragment`: insert the fragment and count the holes, in an
`unsigned`. A fragment of no length is not kept, but as the last it can close a hole. -/
def insertFrag (entry : ReasmIpEntry F) (frag : F) (lastFrag fitLeft fitRight : Bool) :
    ReasmIpEntry F :=
  if len frag ≠ 0 then
    { entry with
      frags := fragsBefore entry.frags frag ++ frag :: fragsAfter entry.frags frag
      holes :=
        if fitLeft && fitRight then subUnsigned entry.holes 1
        else if !fitLeft && !fitRight then toUnsigned (entry.holes + 1)
        else entry.holes
      fragCount := entry.fragCount + 1 }
  else if lastFrag && fitLeft then { entry with holes := subUnsigned entry.holes 1 }
  else entry

/-- The last fragment says how long the packet is. -/
def withPacketLen (entry : ReasmIpEntry F) (frag : F) (lastFrag : Bool) : ReasmIpEntry F :=
  if lastFrag then { entry with len := toUnsigned (offset frag + len frag) } else entry

/-- `reasm_add_fragment`: insert a fragment where it belongs, or reject it. -/
def reasmAddFragment (entry : ReasmIpEntry F) (frag : F) (lastFrag : Bool) :
    Bool × ReasmIpEntry F :=
  if !lastFrag && len frag % 8 ≠ 0 then (false, entry)
  else if entry.len ≠ 0 ∧ toUnsigned (len frag + offset frag) > entry.len then
    -- fragment extends past end of packet
    (false, entry)
  else if lastFrag && entry.len ≠ 0 then (false, entry)
  else
    let entry := withPacketLen entry frag lastFrag
    match fragPlace entry.frags frag lastFrag with
    | none => (false, entry)
    | some (fitLeft, fitRight) => (true, insertFrag entry frag lastFrag fitLeft fitRight)

/-- `reasm_is_complete` -/
def reasmIsComplete (entry : ReasmIpEntry F) : Bool := entry.holes = 0

/-- The entry of a datagram, a new one when there is none. -/
def getEntry (reasm : ReasmIp F) (id : ReasmId) (timestamp : Int) : Nat × ReasmIp F :=
  let hash := (reasmHash id).toNat % reasmIpHashSize
  match findEntry reasm id hash with
  | some entry => (entry, reasm)
  | none => (reasm.fresh, newEntry reasm id hash timestamp)

/-- A fragment is put into an entry: the entry, when that completes it. -/
def putFragment (reasm : ReasmIp F) (entry : Nat) (frag : F) (lastFrag : Bool) :
    Option (ReasmIpEntry F) × ReasmIp F :=
  if (reasm.entry entry).state ≠ .active then
    (none, { reasm with droppedFrags := reasm.droppedFrags + 1 })
  else
    match reasmAddFragment (reasm.entry entry) frag lastFrag with
    | (false, e) =>
        (none, { setEntry reasm entry { e with state := .invalid } with
          droppedFrags := reasm.droppedFrags + e.fragCount + 1 })
    | (true, e) =>
        let reasm := setEntry reasm entry e
        if reasmIsComplete e then (some e, removeEntry reasm entry) else (none, reasm)

/-- What both copies of `reasm_ip_next` do with a packet they recognize as a fragment. -/
def reasmIpFragment (reasm : ReasmIp F) (frag : F) (id : ReasmId) (lastFrag : Bool)
    (timestamp : Int) : Option (ReasmIpEntry F) × ReasmIp F :=
  let (entry, reasm) := getEntry reasm id timestamp
  putFragment reasm entry frag lastFrag

/-! ### Putting a datagram together -/

/-- The payload of each fragment is copied to its place behind the header. -/
def joinFragments (buf : Bytes) (offset0 : Nat) : List F → Except Abort Bytes
  | [] => .ok buf
  | frag :: rest => do
      let src ← copyAt (data frag) (dataOffset frag) (len frag)
      let buf ← writeAt buf (offset0 + offset frag) src
      joinFragments buf offset0 rest

end Store

/-- The sum of the 16-bit words of a header of `n` words, carries folded in. -/
def headerSum (buf : Bytes) : Nat → Nat → Except Abort Nat
  | 0, _ => .ok 0
  | n + 1, i => do
      let cur ← loadNet16 buf i
      let sum ← headerSum buf n (i + 2)
      return cur + sum

/-- Carries out of 16 bits are added back in until there are none. -/
def foldCarries : Nat → Nat → Nat
  | 0, sum => sum
  | fuel + 1, sum => if sum / 65536 ≠ 0 then foldCarries fuel (sum % 65536 + sum / 65536) else sum

/-- The header of an IPv4 datagram put together: its length, no fragment fields, a new checksum. -/
def finishIpv4 (buf : Bytes) (totalLen : Nat) : Except Abort Bytes := do
  let first ← octetAt buf 0
  let buf ← writeAt buf 2 (Octets.beBytes 2 totalLen)
  let buf ← writeAt buf 6 [0, 0]
  let buf ← writeAt buf 10 [0, 0]
  let sum ← headerSum buf (2 * ipHl first) 0
  writeAt buf 10 (Octets.beBytes 2 (65535 - foldCarries sum sum))

/-- The payload length of an IPv6 datagram put together. -/
def finishIpv6 (buf : Bytes) (totalLen : Nat) : Except Abort Bytes :=
  writeAt buf 4 (Octets.beBytes 2 (subUnsigned totalLen 40))

/-- Octets in front of the payload of a datagram put together: the Fragment header of IPv6 is left
out. -/
def headerLen (id : ReasmId) (dataOffset : Nat) : Nat :=
  match id with
  | .ipv4 .. => dataOffset
  | .ipv6 .. => subUnsigned dataOffset 8

/-- The header of a datagram put together, by its protocol. -/
def finishHeader (id : ReasmId) (buf : Bytes) (totalLen : Nat) : Except Abort Bytes :=
  match id with
  | .ipv4 .. => finishIpv4 buf totalLen
  | .ipv6 .. => finishIpv6 buf totalLen

/-! ### Parsing, as far as the copies agree -/

/-- What both copies read of an IPv4 fragment. -/
structure Ipv4Fragment where
  len : Nat
  offset : Nat
  dataOffset : Nat
  data : Bytes
  lastFrag : Bool
  id : ReasmId

/-- The IPv4 case of both copies of `reasm_parse_packet`. -/
def parseIpv4Fragment (packet : Bytes) (len : Nat) : Except Abort (Option Ipv4Fragment) := do
  let offset ← loadNet16 packet 6
  let ipLen ← loadNet16 packet 2
  if len ≥ ipLen ∧ (ipMf offset ∨ ipOffmask offset ≠ 0) then
    let first ← octetAt packet 0
    let data ← copyAt packet 0 ipLen
    let ipSrc ← copyAt packet 12 4
    let ipDst ← copyAt packet 16 4
    let ipId ← loadNet16 packet 4
    let ipProto ← octetAt packet 9
    return some {
      len := subUnsigned ipLen (4 * ipHl first)
      offset := ipOffmask offset * 8
      dataOffset := 4 * ipHl first
      data := data
      lastFrag := !ipMf offset
      id := .ipv4 ipSrc ipDst ipId ipProto }
  else return none

/-- Headers the reassembly looks behind for a Fragment header. -/
def isSkippable (nxt : UInt8) : Bool :=
  nxt = ipprotoHopopts || nxt = ipprotoRouting || nxt = ipprotoDstopts

/-- The walk of both copies of `frag_from_ipv6` over the headers in front of a Fragment header:
where the Fragment header is and where the octet is that announces it. The walk takes at most a
step for each octet of the packet. -/
def fragHeader (packet : Bytes) (totalLen : Nat) :
    Nat → UInt8 → Nat → Nat → Except Abort (Option (Nat × Nat))
  | 0, _, _, _ => .error .divergence
  | fuel + 1, nxt, lastNxt, offset =>
      if isSkippable nxt then
        if offset + 2 > totalLen then .ok none
        else do
          let length ← octetAt packet (offset + 1)
          let exthdrLen := 8 + 8 * length.toNat
          if offset + exthdrLen > totalLen then return none
          else
            let nxt ← octetAt packet offset
            fragHeader packet totalLen fuel nxt offset (offset + exthdrLen)
      else if nxt = ipprotoFragment then .ok (some (offset, lastNxt))
      else .ok none

end Nmsg

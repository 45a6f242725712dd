import Nmsg.Input.Frag

/-!
# Sequence sources

Containers are numbered by their senders. For each sender an input keeps the number it expects
next, in a list with the sender heard last in front, and counts the numbers that are left out.
-/

namespace Nmsg

/-- Where a source sends from, as far as it is compared. -/
inductive SeqsrcOrigin where
  | unspec
  | inet (port : BitVec 16) (ip4 : BitVec 32)
  | inet6 (port : BitVec 16) (ip6 : BitVec 128)
  | other (family : UInt16)
deriving DecidableEq

/-- `struct nmsg_seqsrc_key` -/
structure SeqsrcKey where
  sequenceId : UInt64
  origin : SeqsrcOrigin
deriving DecidableEq

/-- `struct nmsg_seqsrc` -/
structure Seqsrc where
  key : SeqsrcKey
  sequence : UInt32
  sequenceId : UInt64
  count : Nat
  countDropped : Nat
  last : Int
  init : Bool
deriving DecidableEq

/-- The origin of a new source; family zero is `AF_UNSPEC`. -/
def originOf : SockaddrStorage → SeqsrcOrigin
  | .inet port addr _ => .inet port addr
  | .inet6 port addr _ => .inet6 port addr
  | .other family _ => if family = 0 then .unspec else .other family

/-- The comparison of `_input_seqsrc_get`. A source of unspecified origin takes every sender with
its sequence id. -/
def Seqsrc.sends (src : Seqsrc) (sequenceId : UInt64) (addrSs : SockaddrStorage) : Bool :=
  sequenceId == src.key.sequenceId &&
    match addrSs, src.key.origin with
    | .inet port addr _, .inet port' ip4 => port == port' && addr == ip4
    | .inet6 port addr _, .inet6 port' ip6 => port == port' && addr == ip6
    | _, .unspec => true
    | _, _ => false

/-- The walk through the list: the source that sends, the sources passed before it that are not
too old, and the sources behind it. -/
def seqsrcScan (now : Timespec) (sequenceId : UInt64) (addrSs : SockaddrStorage) :
    List Seqsrc → Option Seqsrc × List Seqsrc × List Seqsrc
  | [] => (none, [], [])
  | src :: rest =>
      if src.sends sequenceId addrSs then (some src, [], rest)
      else
        let (found, passed, behind) := seqsrcScan now sequenceId addrSs rest
        if src.last < now.sec - seqsrcGcInterval then (found, passed, behind)
        else (found, src :: passed, behind)

/-- A source that has not sent yet. -/
def newSeqsrc (sequenceId : UInt64) (addrSs : SockaddrStorage) : Seqsrc where
  key := ⟨sequenceId, originOf addrSs⟩
  sequence := 0
  sequenceId := 0
  count := 0
  countDropped := 0
  last := 0
  init := true

/-- `_input_seqsrc_get` for a socket: the source, and the list without it. A source that was found
moves to the front of the list and a new one to the end; `seqsrcPut` puts it there after it has
been updated. -/
def inputSeqsrcGet (arrival : Arrival) (seqsrcs : List Seqsrc) (nmsg : ProtoNmsg) :
    Seqsrc × (Seqsrc → List Seqsrc) :=
  let sequenceId := nmsg.sequenceId.getD 0
  let (found, passed, behind) := seqsrcScan arrival.now sequenceId arrival.addrSs seqsrcs
  match found with
  | some src =>
      ({ src with last := arrival.now.sec }, fun src => src :: (passed ++ behind))
  | none =>
      ({ newSeqsrc sequenceId arrival.addrSs with last := arrival.now.sec },
        fun src => passed ++ [src])

/-- `reset_seqsrc` -/
def resetSeqsrc (src : Seqsrc) : Seqsrc := { src with sequence := 0, count := 0, countDropped := 0 }

/-- `_input_seqsrc_update`: the number of containers dropped, and the source. -/
def inputSeqsrcUpdate (src : Seqsrc) (nmsg : ProtoNmsg) : Nat × Seqsrc :=
  match nmsg.sequence, nmsg.sequenceId with
  | some sequence, some sequenceId =>
      let src :=
        if src.sequenceId ≠ sequenceId then
          let src := { src with sequenceId := sequenceId }
          if src.init = false then { resetSeqsrc src with init := true } else src
        else src
      let src := { src with count := src.count + 1 }
      -- the difference as a number below 2^32, from 64-bit arithmetic
      let delta := (Int.tmod ((sequence.toNat : Int) - src.sequence.toNat) 4294967296)
      let delta := if delta < 0 then delta + 4294967296 else delta
      let (drop, src) :=
        if src.sequence = sequence then (0, src)
        else if src.init = true then (0, src)
        else if delta > 1048576 then (0, resetSeqsrc src)
        else (delta.toNat, { src with countDropped := src.countDropped + delta.toNat })
      (drop, { src with init := false, sequence := sequence + 1 })
  | _, _ => (0, src)

end Nmsg

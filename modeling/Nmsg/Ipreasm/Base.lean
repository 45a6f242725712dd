import Nmsg.Ipreasm.Store

/-!
# Reassembly in the base module

This copy keeps every fragment as it was captured, with its time. The octet that announced the
Fragment header is corrected in the datagram put together, not in the fragments.
-/

namespace Nmsg

/-- `struct reasm_frag_entry` of `base/ipreasm.h` -/
structure BaseFrag where
  ts : Timespec
  len : Nat
  offset : Nat
  dataOffset : Nat
  lastNxt : Nat
  ip6fNxt : UInt8
  data : Bytes
deriving DecidableEq, Repr

instance : ReasmFrag BaseFrag where
  len := BaseFrag.len
  offset := BaseFrag.offset
  dataOffset := BaseFrag.dataOffset
  data := BaseFrag.data

/-- A fragment with the datagram it belongs to. -/
structure ParsedFrag (F : Type) where
  frag : F
  id : ReasmId
  lastFrag : Bool

/-- `frag_from_ipv6`: the fragment, `ip_id` and `last_frag`. -/
def baseFragFromIpv6 (packet : Bytes) (ts : Timespec) :
    Except Abort (Option (BaseFrag × Nat × Bool)) := do
  let nxt ← octetAt packet 6
  let plen ← loadNet16 packet 4
  -- `total_len` is a `uint16_t`
  let totalLen := (plen + 40) % 65536
  match ← fragHeader packet totalLen (totalLen + 1) nxt 6 ip6hdrLen with
  | none => return none
  | some (offset, lastNxt) =>
      if offset + 8 > totalLen then return none
      else
        let ip6fNxt ← octetAt packet offset
        let offlg ← loadNet16 packet (offset + 2)
        let ident ← loadNet32 packet (offset + 4)
        let data ← copyAt packet 0 totalLen
        return some ({
          ts := ts
          len := totalLen - (offset + 8)
          offset := ip6fOff offlg
          dataOffset := offset + 8
          lastNxt := lastNxt
          ip6fNxt := ip6fNxt
          data := data }, ident, !ip6fMoreFrag offlg)

/-- `reasm_parse_packet` -/
def reasmParsePacket (packet : Bytes) (len : Nat) (ts : Timespec) :
    Except Abort (Option (ParsedFrag BaseFrag)) := do
  let first ← octetAt packet 0
  if ipV first = 4 then
    match ← parseIpv4Fragment packet len with
    | none => return none
    | some f =>
        return some {
          frag := {
            ts := ts
            len := f.len
            offset := f.offset
            dataOffset := f.dataOffset
            lastNxt := 0
            ip6fNxt := 0
            data := f.data }
          id := f.id
          lastFrag := f.lastFrag }
  else if ipV first = 6 then
    let plen ← loadNet16 packet 4
    if len ≥ plen + 40 then
      match ← baseFragFromIpv6 packet ts with
      | none => return none
      | some (frag, ident, lastFrag) =>
          let ipSrc ← copyAt packet 8 16
          let ipDst ← copyAt packet 24 16
          return some { frag := frag, id := .ipv6 ipSrc ipDst ident, lastFrag := lastFrag }
    else return none
  else return none

/-- `reasm_ip_next`: whether the packet is a fragment, and the entry it completes. -/
def reasmIpNext (reasm : ReasmIp BaseFrag) (packet : Bytes) (len : Nat) (timestamp : Timespec) :
    Except Abort ((Bool × Option (ReasmIpEntry BaseFrag)) × ReasmIp BaseFrag) := do
  let reasm := processTimeouts reasm timestamp.sec
  match ← reasmParsePacket packet len timestamp with
  | none => return ((false, none), reasm)
  | some p =>
      let (entry, reasm) := reasmIpFragment reasm p.frag p.id p.lastFrag timestamp.sec
      return ((true, entry), reasm)

/-- The octet that announced the Fragment header announces what followed it. -/
def restoreNxt (id : ReasmId) (first : BaseFrag) (buf : Bytes) : Except Abort Bytes :=
  match id with
  | .ipv4 .. => .ok buf
  | .ipv6 .. => writeAt buf first.lastNxt [first.ip6fNxt]

/-- `reasm_assemble`, with a new buffer of `outputLen` octets: the datagram, or nothing when the
buffer is too small. -/
def reasmAssemble (entry : ReasmIpEntry BaseFrag) (outputLen : Nat) : Except Abort Bytes :=
  match entry.frags with
  | [] => .error .nullPointer
  | first :: _ =>
      let offset0 := headerLen entry.id first.dataOffset
      let totalLen := toUnsigned (entry.len + offset0)
      if totalLen > outputLen then .ok []
      else do
        let header ← copyAt first.data 0 offset0
        let buf ← writeAt (List.replicate outputLen 0) 0 header
        let buf ← restoreNxt entry.id first buf
        let buf ← joinFragments buf offset0 entry.frags
        let buf ← finishHeader entry.id buf totalLen
        return buf.take totalLen

end Nmsg

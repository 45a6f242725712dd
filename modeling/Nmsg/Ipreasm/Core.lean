import Nmsg.Ipreasm.Base

/-!
# Reassembly in the library

This copy is told where the Fragment header is, corrects the octet that announced it in the copy
it keeps of each fragment, and returns the datagram put together.
-/

namespace Nmsg

/-- `struct reasm_frag_entry` of `nmsg/ipreasm.c` -/
structure CoreFrag where
  len : Nat
  offset : Nat
  dataOffset : Nat
  data : Bytes
deriving DecidableEq, Repr

instance : ReasmFrag CoreFrag where
  len := CoreFrag.len
  offset := CoreFrag.offset
  dataOffset := CoreFrag.dataOffset
  data := CoreFrag.data

/-- Where the Fragment header is and where the octet that announces it: a caller that gives the
offset skips the walk, and `last_nxt` is not moved. -/
def coreFragHeader (packet : Bytes) (totalLen fragHdrOffset : Nat) (nxt : UInt8) :
    Except Abort (Option (Nat × Nat)) :=
  if fragHdrOffset ≠ 0 then .ok (some (fragHdrOffset, 6))
  else fragHeader packet totalLen (totalLen + 1) nxt 6 ip6hdrLen

/-- `frag_from_ipv6`: the fragment, `ip_id` and `last_frag`. -/
def coreFragFromIpv6 (packet : Bytes) (fragHdrOffset : Nat) :
    Except Abort (Option (CoreFrag × Nat × Bool)) := do
  let nxt ← octetAt packet 6
  let plen ← loadNet16 packet 4
  let totalLen := 40 + plen
  match ← coreFragHeader packet totalLen fragHdrOffset nxt with
  | none => return none
  | some (offset, lastNxt) =>
      if offset + 8 > totalLen then return none
      else
        let data ← copyAt packet 0 totalLen
        let ip6fNxt ← octetAt packet offset
        let data ← writeAt data lastNxt [ip6fNxt]
        let offlg ← loadNet16 packet (offset + 2)
        let ident ← loadNet32 packet (offset + 4)
        return some ({
          len := totalLen - (offset + 8)
          offset := ip6fOff offlg
          dataOffset := offset + 8
          data := data }, ident, !ip6fMoreFrag offlg)

/-- `parse_packet` -/
def coreParsePacket (packet : Bytes) (len fragHdrOffset : Nat) :
    Except Abort (Option (ParsedFrag CoreFrag)) := do
  let first ← octetAt packet 0
  if ipV first = 4 then
    match ← parseIpv4Fragment packet len with
    | none => return none
    | some f =>
        return some {
          frag := {
            len := f.len
            offset := f.offset
            dataOffset := f.dataOffset
            data := f.data }
          id := f.id
          lastFrag := f.lastFrag }
  else if ipV first = 6 then
    let plen ← loadNet16 packet 4
    if len ≥ plen + 40 then
      match ← coreFragFromIpv6 packet fragHdrOffset with
      | none => return none
      | some (frag, ident, lastFrag) =>
          let ipSrc ← copyAt packet 8 16
          let ipDst ← copyAt packet 24 16
          return some { frag := frag, id := .ipv6 ipSrc ipDst ident, lastFrag := lastFrag }
    else return none
  else return none

/-- `assemble`: the datagram, or nothing when the buffer is too small. -/
def coreAssemble (entry : ReasmIpEntry CoreFrag) (outputLen : Nat) : Except Abort Bytes :=
  match entry.frags with
  | [] => .error .nullPointer
  | first :: _ =>
      let offset0 := headerLen entry.id first.dataOffset
      let totalLen := toUnsigned (entry.len + offset0)
      if totalLen > outputLen then .ok []
      else do
        let header ← copyAt first.data 0 offset0
        let buf ← writeAt (List.replicate outputLen 0) 0 header
        let buf ← joinFragments buf offset0 entry.frags
        let buf ← finishHeader entry.id buf totalLen
        return buf.take totalLen

/-- `_nmsg_ipreasm_next`: whether the packet is a fragment, and the octets left in `out_packet`,
none when `*output_len` is zero. -/
def coreIpNext (reasm : ReasmIp CoreFrag) (packet : Bytes) (len fragHdrOffset timestamp : Nat)
    (outputLen : Nat) : Except Abort ((Bool × Bytes) × ReasmIp CoreFrag) := do
  let reasm := processTimeouts reasm timestamp
  match ← coreParsePacket packet len fragHdrOffset with
  | none => return ((false, []), reasm)
  | some p =>
      match reasmIpFragment reasm p.frag p.id p.lastFrag timestamp with
      | (none, reasm) => return ((true, []), reasm)
      | (some entry, reasm) =>
          let out ← coreAssemble entry outputLen
          return ((true, out), reasm)

end Nmsg

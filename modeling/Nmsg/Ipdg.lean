import Nmsg.Ipreasm.Core

/-!
# Datagrams in captured packets

A packet is parsed from the data link header on. The result says where the network header, the
transport header and the payload are, and how many octets there are from each of them on.
-/

namespace Nmsg

/-- `proto_network` -/
inductive ProtoNetwork where
  | inet
  | inet6
deriving DecidableEq, Repr

/-- Data link types of libpcap, those the parser knows and any other. -/
inductive Datalink where
  | en10mb
  | raw
  | linuxSll
  | other
deriving DecidableEq, Repr

/-- `struct nmsg_ipdg`. The pointers are offsets into the packet. -/
structure Ipdg where
  protoNetwork : ProtoNetwork
  protoTransport : UInt8
  lenNetwork : Nat
  lenTransport : Nat
  lenPayload : Nat
  network : Nat
  transport : Option Nat
  payload : Nat
deriving DecidableEq, Repr

/-- The data link header: the type of the packet behind it, where it starts, and the octets left
there. -/
def datalinkHeader (datalink : Datalink) (pkt : Bytes) (len : Nat) :
    Except Abort (Option (Nat × Nat × Nat)) :=
  match datalink with
  | .en10mb =>
      if len < etherHdrLen then .ok none
      else do
        let etype ← loadNet16 pkt 12
        if etype = ethertypeVlan then
          if len - etherHdrLen < 4 then return none
          else
            let etype ← loadNet16 pkt 16
            return some (etype, 18, len - 18)
        else return some (etype, etherHdrLen, len - etherHdrLen)
  | .raw =>
      if len < iphdrLen then .ok none
      else do
        let first ← octetAt pkt 0
        if ipV first = 4 then return some (ethertypeIp, 0, len)
        else if ipV first = 6 then return some (ethertypeIpv6, 0, len)
        else return none
  | .linuxSll =>
      if len < 16 then .ok none
      else do
        let etype ← loadNet16 pkt etherHdrLen
        return some (etype, 16, len - 16)
  | .other => .ok (some (0, 0, len))

/-! ### Network headers -/

/-- A network header: what follows it, where, and with how many octets left. -/
structure NetworkHeader where
  protoNetwork : ProtoNetwork
  protoTransport : UInt8
  next : Nat
  len : Nat
  isFragment : Bool
  isInitialFragment : Bool
  fragHdrOffset : Nat
deriving DecidableEq, Repr

/-- The IPv4 case of both parsers. Nothing keeps the header length below the octets there are. -/
def ipv4Header (pkt : Bytes) (network len : Nat) : Except Abort NetworkHeader := do
  let first ← octetAt pkt network
  let ipOff ← loadNet16 pkt (network + 6)
  let ipP ← octetAt pkt (network + 9)
  return {
    protoNetwork := .inet
    protoTransport := ipP
    next := network + 4 * ipHl first
    len := subSize len (4 * ipHl first)
    isFragment := ipOffmask ipOff ≠ 0 || ipMf ipOff
    isInitialFragment := ipOffmask ipOff = 0
    fragHdrOffset := 0 }

/-- Headers the parsers look behind. -/
def isExthdr (nexthdr : UInt8) : Bool :=
  nexthdr = ipprotoRouting || nexthdr = ipprotoHopopts || nexthdr = ipprotoFragment ||
    nexthdr = ipprotoDstopts || nexthdr = ipprotoAh || nexthdr = ipprotoEsp

/-- `ext_hdr_len`: the length octet goes through `ntohs` before it is used. -/
def exthdrLen (host : ByteOrder) (length : UInt8) : Nat :=
  8 * (ntohs host length.toNat + 1) % 65536

/-- State of the walk over the headers behind an IPv6 header. -/
structure ExthdrWalk where
  nexthdr : UInt8
  thusfar : Nat
  payloadLen : Nat
  isFragment : Bool
  isInitialFragment : Bool
  fragHdrOffset : Nat
deriving DecidableEq, Repr

/-- A header is passed, unless the payload ends before it does. -/
def passExthdr (host : ByteOrder) (pkt : Bytes) (network : Nat) (w : ExthdrWalk) :
    Except Abort (Option ExthdrWalk) := do
  let nexthdr ← octetAt pkt (network + w.thusfar)
  let length ← octetAt pkt (network + w.thusfar + 1)
  let extHdrLen := exthdrLen host length
  if extHdrLen > w.payloadLen then return none
  else
    return some { w with
      nexthdr := nexthdr
      thusfar := w.thusfar + extHdrLen
      payloadLen := w.payloadLen - extHdrLen }

/-- The walk of `nmsg_ipdg_parse_pcap_raw`: a Fragment header is passed, and is the last. -/
def exthdrsRaw (host : ByteOrder) (pkt : Bytes) (network len : Nat) :
    Nat → ExthdrWalk → Except Abort (Option ExthdrWalk)
  | 0, _ => .error .divergence
  | fuel + 1, w =>
      if isExthdr w.nexthdr then
        if w.thusfar + 2 > len then .ok none
        else if w.nexthdr = ipprotoFragment then do
          let offlg ← loadNet16 pkt (network + w.thusfar + 2)
          passExthdr host pkt network
            { w with isFragment := true, isInitialFragment := ip6fOff offlg = 0 }
        else do
          match ← passExthdr host pkt network w with
          | none => return none
          | some w => exthdrsRaw host pkt network len fuel w
      else .ok (some w)

/-- The walk of `_nmsg_ipdg_parse_reasm`: it stops in front of a Fragment header. -/
def exthdrsReasm (host : ByteOrder) (pkt : Bytes) (network len : Nat) :
    Nat → ExthdrWalk → Except Abort (Option ExthdrWalk)
  | 0, _ => .error .divergence
  | fuel + 1, w =>
      if isExthdr w.nexthdr then
        if w.thusfar + 2 > len then .ok none
        else if w.nexthdr = ipprotoFragment then
          .ok (some { w with isFragment := true, fragHdrOffset := w.thusfar })
        else do
          match ← passExthdr host pkt network w with
          | none => return none
          | some w => exthdrsReasm host pkt network len fuel w
      else .ok (some w)

/-- The IPv6 case of both parsers, with the walk of each. -/
def ipv6Header (walk : Nat → ExthdrWalk → Except Abort (Option ExthdrWalk)) (pkt : Bytes)
    (network len : Nat) : Except Abort (Option NetworkHeader) :=
  if len < ip6hdrLen then .ok none
  else do
    let first ← octetAt pkt network
    if ipV first ≠ 6 then return none
    else
      let nexthdr ← octetAt pkt (network + 6)
      let payloadLen ← loadNet16 pkt (network + 4)
      match ← walk (payloadLen + 1) {
          nexthdr := nexthdr
          thusfar := ip6hdrLen
          payloadLen := payloadLen
          isFragment := false
          isInitialFragment := false
          fragHdrOffset := 0 } with
      | none => return none
      | some w =>
          if w.thusfar + w.payloadLen > len ∨ w.payloadLen = 0 then return none
          else
            return some {
              protoNetwork := .inet6
              protoTransport := w.nexthdr
              next := network + w.thusfar
              len := len - w.thusfar
              isFragment := w.isFragment
              isInitialFragment := w.isInitialFragment
              fragHdrOffset := w.fragHdrOffset }

/-- The network header of a packet of type `etype`. -/
def networkHeader (walk : Nat → ExthdrWalk → Except Abort (Option ExthdrWalk)) (etype : Nat)
    (pkt : Bytes) (network len : Nat) : Except Abort (Option NetworkHeader) :=
  if etype = ethertypeIp then some <$> ipv4Header pkt network len
  else if etype = ethertypeIpv6 then ipv6Header walk pkt network len
  else .ok none

/-! ### Transport headers -/

/-- The UDP case of both parsers: where the payload is and its length, at most the octets left. -/
def udpPayload (pkt : Bytes) (transport len : Nat) : Except Abort (Option (Nat × Nat)) :=
  if len < udphdrLen then .ok none
  else do
    let uhUlen ← loadNet16 pkt (transport + 4)
    let tpPayloadLen := if uhUlen ≥ 8 then uhUlen - 8 else uhUlen
    let left := len - udphdrLen
    return some (transport + udphdrLen,
      if tpPayloadLen > left then toUnsigned left else tpPayloadLen)

/-- The TCP case of `nmsg_ipdg_parse_pcap_raw`. -/
def tcpPayload (pkt : Bytes) (lenNetwork transport len : Nat) :
    Except Abort (Option (Nat × Nat)) :=
  if len < tcphdrLen then .ok none
  else do
    let thOff ← octetAt pkt (transport + 12)
    let hdr := 4 * (thOff.toNat / 16)
    let tpPayloadLen := subUnsigned lenNetwork hdr
    let left := subSize len hdr
    return some (transport + hdr,
      if tpPayloadLen > left then toUnsigned left else tpPayloadLen)

/-- The ICMP case of `nmsg_ipdg_parse_pcap_raw`. -/
def icmpPayload (transport len : Nat) : Option (Nat × Nat) :=
  if len < icmphdrLen then none
  else some (transport + icmphdrLen, toUnsigned (len - icmphdrLen))

def transportPayloadRaw (pkt : Bytes) (proto : UInt8) (lenNetwork transport len : Nat) :
    Except Abort (Option (Nat × Nat)) :=
  if proto = ipprotoUdp then udpPayload pkt transport len
  else if proto = ipprotoTcp then tcpPayload pkt lenNetwork transport len
  else if proto = ipprotoIcmp then .ok (icmpPayload transport len)
  else .ok none

/-- A datagram with its transport header in the packet. -/
def withTransport (h : NetworkHeader) (network lenNetwork : Nat) :
    Option (Nat × Nat) → Option Ipdg
  | none => none
  | some (payload, lenPayload) =>
      some {
        protoNetwork := h.protoNetwork
        protoTransport := h.protoTransport
        lenNetwork := toUnsigned lenNetwork
        lenTransport := toUnsigned h.len
        lenPayload := lenPayload
        network := network
        transport := some h.next
        payload := payload }

/-! ### The parsers -/

/-- `nmsg_ipdg_parse_pcap_raw`; nothing for `nmsg_res_again`. -/
def nmsgIpdgParsePcapRaw (host : ByteOrder) (datalink : Datalink) (pkt : Bytes) (len : Nat) :
    Except Abort (Option Ipdg) := do
  match ← datalinkHeader datalink pkt len with
  | none => return none
  | some (etype, network, lenNetwork) =>
      match ← networkHeader (exthdrsRaw host pkt network lenNetwork) etype pkt network
          lenNetwork with
      | none => return none
      | some h =>
          if h.isFragment && !h.isInitialFragment then
            return some {
              protoNetwork := h.protoNetwork
              protoTransport := h.protoTransport
              lenNetwork := toUnsigned lenNetwork
              lenTransport := 0
              lenPayload := toUnsigned h.len
              network := network
              transport := none
              payload := h.next }
          else
            let payload ← transportPayloadRaw pkt h.protoTransport (toUnsigned lenNetwork)
              h.next h.len
            return withTransport h network lenNetwork payload

/-- `nmsg_ipdg_parse`, which discards fragments. -/
def nmsgIpdgParse (host : ByteOrder) (etype len : Nat) (pkt : Bytes) :
    Except Abort (Option Ipdg) := do
  match ← networkHeader (exthdrsReasm host pkt 0 len) etype pkt 0 len with
  | none => return none
  | some h =>
      if h.isFragment then return none
      else if h.protoTransport = ipprotoUdp then
        let payload ← udpPayload pkt h.next h.len
        return withTransport h 0 len payload
      else return none

/-- The call of the reassembly in `_nmsg_ipdg_parse_reasm`: the octets left in `new_pkt`, none when
not all fragments have been received. -/
def reassembleFragment (reasm : ReasmIp CoreFrag) (pkt : Bytes) (len : Nat) (h : NetworkHeader)
    (newLen timestamp : Nat) : Except Abort (Bytes × ReasmIp CoreFrag) := do
  let ((rres, newPkt), reasm) ←
    coreIpNext reasm pkt (toUnsigned len) h.fragHdrOffset timestamp newLen
  return (if rres then newPkt else [], reasm)

/-- `_nmsg_ipdg_parse_reasm` with a store for fragments: the datagram, the octets of `new_pkt` when
it was put together from fragments, and the store. -/
def nmsgIpdgParseReasm (host : ByteOrder) (etype len : Nat) (pkt : Bytes)
    (reasm : ReasmIp CoreFrag) (newLen timestamp : Nat) :
    Except Abort (Option (Ipdg × Option Bytes) × ReasmIp CoreFrag) := do
  match ← networkHeader (exthdrsReasm host pkt 0 len) etype pkt 0 len with
  | none => return (none, reasm)
  | some h =>
      if h.isFragment then
        let (newPkt, reasm) ← reassembleFragment reasm pkt len h newLen timestamp
        if newPkt = [] then return (none, reasm)
        else
          let dg ← nmsgIpdgParse host etype newPkt.length newPkt
          return (dg.map fun dg => (dg, some newPkt), reasm)
      else if h.protoTransport = ipprotoUdp then
        let payload ← udpPayload pkt h.next h.len
        return ((withTransport h 0 len payload).map fun dg => (dg, none), reasm)
      else return (none, reasm)

end Nmsg

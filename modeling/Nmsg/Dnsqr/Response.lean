import Nmsg.Dnsqr.Capture

/-!
# The response of a message

The UDP payload of a response is read from the packets that its message holds: from a single packet
at once, from several packets after they have been put together anew.
-/

namespace Nmsg

/-- The `protocol` of an entry. -/
def ReasmId.protoNetwork : ReasmId → ProtoNetwork
  | .ipv4 .. => .inet
  | .ipv6 .. => .inet6

/-- The type of the packets of a protocol. -/
def ProtoNetwork.etype : ProtoNetwork → Nat
  | .inet => ethertypeIp
  | .inet6 => ethertypeIpv6

/-- The loop of `dnsqr_get_response` over the response packets: the entry with all of them, or
nothing when a packet is no fragment or does not fit. Of the identity of the datagram the source
sets the protocol only, which is all that is looked at. -/
def rereadFragments (entry : ReasmIpEntry BaseFrag) :
    List Bytes → List Int → List Int → Except Abort (Option (ReasmIpEntry BaseFrag))
  | [], _, _ => .ok (some entry)
  | pkt :: pkts, sec :: secs, nsec :: nsecs => do
      match ← reasmParsePacket pkt (toUnsigned pkt.length) ⟨sec, nsec⟩ with
      | none => return none
      | some p =>
          match reasmAddFragment { entry with id := p.id } p.frag p.lastFrag with
          | (false, _) => return none
          | (true, entry) => rereadFragments entry pkts secs nsecs
  | _ :: _, _, _ => .error .outOfBounds

section Response

variable (host : ByteOrder)

/-- The UDP payload that `nmsg_ipdg_parse` finds in a packet. -/
def ipdgPayload (etype : Nat) (pkt : Bytes) : Except Abort (Res × Option Bytes) := do
  match ← nmsgIpdgParse host etype pkt.length pkt with
  | none => return (.failure, none)
  | some dg =>
      let payload ← copyAt pkt dg.payload dg.lenPayload
      return (.success, some payload)

/-- The case of `dnsqr_get_response` for a response that is fragmented. -/
def fragmentedResponse (dnsqr : DnsQR) : Except Abort (Res × Option Bytes) := do
  match ← rereadFragments (.init (.ipv4 [] [] 0 0) 0 0) dnsqr.responsePacket
      dnsqr.responseTimeSec dnsqr.responseTimeNsec with
  | none => return (.memfail, none)
  | some entry =>
      if reasmIsComplete entry then
        let pkt ← reasmAssemble entry ipszMax
        if pkt = [] then return (.failure, none)
        else ipdgPayload host entry.id.protoNetwork.etype pkt
      else return (.failure, none)

/-- `dnsqr_get_response`: the result and the octets it points to. A field of type `bytes` that is
empty has no data. -/
def dnsqrGetResponse (dnsqr : DnsQR) (valIdx : Nat) : Except Abort (Res × Option Bytes) :=
  if valIdx ≠ 0 ∨ dnsqr.responseIp = [] then .ok (.failure, none)
  else
    match dnsqr.responsePacket with
    | [] => .ok (.failure, none)
    | [pkt] =>
        if dnsqr.responseIp.length = 4 then ipdgPayload host ethertypeIp pkt
        else if dnsqr.responseIp.length = 16 then ipdgPayload host ethertypeIpv6 pkt
        else .ok (.failure, none)
    | _ => fragmentedResponse host dnsqr

end Response

end Nmsg

import Nmsg.Dnsqr.Filter
import Nmsg.Dnsqr.Message

/-!
# From a packet to a record

A datagram is read into a record by its protocols. Only port numbers of DNS are accepted. The
direction of a UDP message is that of its DNS header.
-/

namespace Nmsg

section Packet

variable (wdns : Wdns) (host : ByteOrder) (pkt : Bytes) (dg : Ipdg)

/-- `do_packet_dns`: the record with the identifier and the question, and the flags. -/
def doPacketDns (dnsqr : DnsQR) : Except Abort (Option (DnsQR × Nat)) :=
  if dg.lenPayload < 12 then .ok none
  else do
    let id ← loadNet16 pkt dg.payload
    let flags ← loadNet16 pkt (dg.payload + 2)
    let qdcount ← loadNet16 pkt (dg.payload + 4)
    let dnsqr := { dnsqr with id := UInt32.ofNat id }
    let p := dg.payload + 12
    let len := dg.lenPayload - 12
    if qdcount = 1 ∧ len > 0 then
      let rest ← copyAt pkt p len
      let qnameLen := wdns.skipName rest
      if subSize len qnameLen < 4 then return none
      else
        let qname ← copyAt pkt p qnameLen
        let qtype ← loadNet16 pkt (p + qnameLen)
        let qclass ← loadNet16 pkt (p + qnameLen + 2)
        return some ({ dnsqr with
          qname := some qname
          qtype := some (UInt32.ofNat qtype)
          qclass := some (UInt32.ofNat qclass) }, flags)
    else return some (dnsqr, flags)

def isDnsPort (port : Nat) : Bool := port = 53 || port = 5353

/-- The source and the destination port of a transport header. -/
def loadPorts (pkt : Bytes) (transport : Nat) : Except Abort (Nat × Nat) := do
  let srcPort ← loadNet16 pkt transport
  let dstPort ← loadNet16 pkt (transport + 2)
  return (srcPort, dstPort)

/-- `do_packet_udp` -/
def doPacketUdp (dnsqr : DnsQR) : Except Abort (Option (DnsQR × Nat)) :=
  match dg.transport with
  | none => .ok none
  | some transport => do
      let (srcPort, dstPort) ← loadPorts pkt transport
      if !(isDnsPort srcPort || isDnsPort dstPort) then return none
      else
        match ← doPacketDns wdns pkt dg dnsqr with
        | none => return none
        | some (dnsqr, flags) =>
            if dnsFlagQr flags = false then
              return some ({ dnsqr with
                queryPort := UInt32.ofNat srcPort
                responsePort := UInt32.ofNat dstPort }, flags)
            else
              return some ({ dnsqr with
                queryPort := UInt32.ofNat dstPort
                responsePort := UInt32.ofNat srcPort }, flags)

/-- `do_packet_tcp`: the whole packet goes into the record. -/
def doPacketTcp (dnsqr : DnsQR) : Except Abort (Option DnsQR) :=
  match dg.transport with
  | none => .ok none
  | some transport => do
      let (srcPort, dstPort) ← loadPorts pkt transport
      if srcPort = 53 ∨ dstPort = 53 then
        let tcp ← copyAt pkt dg.network dg.lenNetwork
        return some { dnsqr with tcp := some tcp, type := .tcp }
      else return none

/-- `do_packet_icmp`: a packet that quotes one of DNS goes into the record, whole. -/
def doPacketIcmp (dnsqr : DnsQR) : Except Abort (Option DnsQR) := do
  let quoted := pkt.drop dg.payload
  match ← nmsgIpdgParsePcapRaw host .raw quoted dg.lenPayload with
  | none => return none
  | some icmpDg =>
      match icmpDg.transport with
      | none => return none
      | some transport =>
          if icmpDg.protoTransport = ipprotoUdp ∨ icmpDg.protoTransport = ipprotoTcp then
            let (srcPort, dstPort) ← loadPorts quoted transport
            let accepted :=
              if icmpDg.protoTransport = ipprotoUdp then isDnsPort srcPort || isDnsPort dstPort
              else srcPort = 53 || dstPort = 53
            if accepted then
              let icmp ← copyAt pkt dg.network dg.lenNetwork
              return some { dnsqr with icmp := some icmp, type := .icmp }
            else return none
          else return none

/-- The addresses of a UDP record, of `len` octets each, from an IP header that has the source
address at `src` and the destination address at `dst`. -/
def withAddresses (src dst len : Nat) (dnsqr : DnsQR) (flags : Nat) : Except Abort DnsQR := do
  let ipSrc ← copyAt pkt (dg.network + src) len
  let ipDst ← copyAt pkt (dg.network + dst) len
  if dnsFlagQr flags = false then return { dnsqr with queryIp := ipSrc, responseIp := ipDst }
  else return { dnsqr with queryIp := ipDst, responseIp := ipSrc }

/-- The switch of `do_packet_v4` and `do_packet_v6` over the transport protocol, with where the
addresses of the IP header are. No flags are set for TCP and ICMP. -/
def doPacketIp (src dst len : Nat) (dnsqr : DnsQR) : Except Abort (Option (DnsQR × Nat)) :=
  if dg.protoTransport = ipprotoUdp then do
    match ← doPacketUdp wdns pkt dg dnsqr with
    | none => return none
    | some (dnsqr, flags) =>
        let dnsqr ← withAddresses pkt dg src dst len dnsqr flags
        return some (dnsqr, flags)
  else if dg.protoTransport = ipprotoTcp then do
    let dnsqr ← doPacketTcp pkt dg dnsqr
    return dnsqr.map fun dnsqr => (dnsqr, 0)
  else if dg.protoTransport = ipprotoIcmp then do
    let dnsqr ← doPacketIcmp host pkt dg dnsqr
    return dnsqr.map fun dnsqr => (dnsqr, 0)
  else .ok none

/-- `do_packet_v4` -/
def doPacketV4 (dnsqr : DnsQR) : Except Abort (Option (DnsQR × Nat)) :=
  doPacketIp wdns host pkt dg 12 16 4 dnsqr

/-- `do_packet_v6` -/
def doPacketV6 (dnsqr : DnsQR) : Except Abort (Option (DnsQR × Nat)) :=
  doPacketIp wdns host pkt dg 8 24 16 dnsqr

end Packet

/-! ### The packets of a record -/

/-- `dnsqr_append_query_packet` -/
def dnsqrAppendQueryPacket (dnsqr : DnsQR) (pkt : Bytes) (ts : Timespec) : DnsQR :=
  { dnsqr with
    queryPacket := dnsqr.queryPacket ++ [pkt]
    queryTimeSec := dnsqr.queryTimeSec ++ [ts.sec]
    queryTimeNsec := dnsqr.queryTimeNsec ++ [ts.nsec] }

/-- `dnsqr_append_response_packet` -/
def dnsqrAppendResponsePacket (dnsqr : DnsQR) (pkt : Bytes) (ts : Timespec) : DnsQR :=
  { dnsqr with
    responsePacket := dnsqr.responsePacket ++ [pkt]
    responseTimeSec := dnsqr.responseTimeSec ++ [ts.sec]
    responseTimeNsec := dnsqr.responseTimeNsec ++ [ts.nsec] }

/-- `dnsqr_append_frag`: the fragments of a datagram, each as it was captured. -/
def dnsqrAppendFrag (append : DnsQR → Bytes → Timespec → DnsQR) (dnsqr : DnsQR) :
    List BaseFrag → Except Abort DnsQR
  | [] => .ok dnsqr
  | frag :: rest => do
      let pkt ← copyAt frag.data 0 (toUnsigned (frag.len + frag.dataOffset))
      dnsqrAppendFrag append (append dnsqr pkt frag.ts) rest

/-- `dnsqr_merge`: the response takes over the query packets, and the question when it has none of
its own. -/
def dnsqrMerge (d1 d2 : DnsQR) : Except Abort DnsQR :=
  if d2.queryPacket = [] ∧ d2.queryTimeSec = [] ∧ d2.queryTimeNsec = [] then
    .ok { d2 with
      queryPacket := d1.queryPacket
      queryTimeSec := d1.queryTimeSec
      queryTimeNsec := d1.queryTimeNsec
      qname := d2.qname.or d1.qname
      qtype := d2.qtype.or d1.qtype
      qclass := d2.qclass.or d1.qclass }
  else .error .assertion

end Nmsg

import Nmsg.Ipdg
import Nmsg.Dnsqr.Record

/-!
# From a record to a message

The UDP checksum of a response is verified before the record becomes a message, and on request the
address of the resolver is zeroed.
-/

namespace Nmsg

/-! ### The UDP checksum -/

/-- The sum of the 16-bit words of `data`, the last octet padded when there is an odd one. -/
def wordSum : Bytes → Nat
  | [] => 0
  | [b] => b.toNat * 256
  | b :: c :: rest => b.toNat * 256 + c.toNat + wordSum rest

/-- The `upper_len` of an IPv6 pseudo header, as it lies in memory: a 32-bit number of the host
that holds the UDP length as it lies in the packet. -/
def upperLen (host : ByteOrder) (ulen : Bytes) : Bytes :=
  match host with
  | .little => ulen ++ [0, 0]
  | .big => [0, 0] ++ ulen

/-- What one stored packet contributes to the checksum: the pseudo header when it is the initial
fragment, and the sum of its payload; or the result when that ends the computation. -/
def checksumPacket (host : ByteOrder) (pkt : Bytes) :
    Except Abort (UdpChecksum ⊕ Option Bytes × Nat) := do
  match ← nmsgIpdgParsePcapRaw host .raw pkt pkt.length with
  | none => return .inl .error
  | some dg =>
      if dg.protoTransport ≠ ipprotoUdp then return .inl .error
      else
        match dg.transport with
        | none =>
            let data ← copyAt pkt dg.payload dg.lenPayload
            return .inr (none, wordSum data)
        | some transport =>
            if dg.lenTransport < udphdrLen then return .inl .error
            else
              let uhSum ← loadNet16 pkt (transport + 6)
              if uhSum = 0 then return .inl .absent
              else
                let pseudo ← pseudoHeader dg transport
                let data ← copyAt pkt dg.payload dg.lenPayload
                return .inr (some pseudo, wordSum data)
where
  /-- `udp_pseudo_ipv4` or `udp_pseudo_ipv6` -/
  pseudoHeader (dg : Ipdg) (transport : Nat) : Except Abort Bytes := do
    let ports ← copyAt pkt transport 4
    let ulen ← copyAt pkt (transport + 4) 2
    let sum ← copyAt pkt (transport + 6) 2
    match dg.protoNetwork with
    | .inet =>
        let addresses ← copyAt pkt 12 8
        let proto ← octetAt pkt 9
        return addresses ++ [0, proto] ++ ulen ++ ports ++ ulen ++ sum
    | .inet6 =>
        let addresses ← copyAt pkt (dg.network + 8) 32
        return addresses ++ upperLen host ulen ++ [0, 0, 0, ipprotoUdp] ++ ports ++ ulen ++ sum

/-- The loop of `dnsqr_checksum_verify` over the stored packets. -/
def checksumLoop (host : ByteOrder) :
    List Bytes → Option Bytes → Nat → Except Abort UdpChecksum
  | [], none, _ => .ok .error
  | [], some pseudo, sum =>
      let sum := toUnsigned (sum + wordSum pseudo)
      .ok (if 65535 - foldCarries sum sum = 0 then .correct else .incorrect)
  | pkt :: rest, pseudo, sum => do
      match ← checksumPacket host pkt with
      | .inl result => return result
      | .inr (pseudo', n) => checksumLoop host rest (pseudo'.or pseudo) (toUnsigned (sum + n))

/-- `dnsqr_checksum_verify` -/
def dnsqrChecksumVerify (host : ByteOrder) (dnsqr : DnsQR) : Except Abort UdpChecksum :=
  if dnsqr.resolverAddressZeroed = some true then .ok .error
  else checksumLoop host dnsqr.responsePacket none 0

/-! ### Zeroing the address of the resolver -/

/-- The address of a stored packet is zeroed, at `at4` of an IPv4 header or at `at6` of an IPv6
header. -/
def zeroAddress (at4 at6 : Nat) (pkt : Bytes) : Except Abort Bytes := do
  let first ← octetAt pkt 0
  if ipV first = 4 then
    if pkt.length ≥ iphdrLen then writeAt pkt at4 (List.replicate 4 0) else return pkt
  else if ipV first = 6 then
    if pkt.length ≥ ip6hdrLen then writeAt pkt at6 (List.replicate 16 0) else return pkt
  else return pkt

/-- `dnsqr_zero_resolver_address`: the source address of the query packets, the destination address
of the response packets, and the field. -/
def dnsqrZeroResolverAddress (dnsqr : DnsQR) : Except Abort DnsQR := do
  let queryPacket ← dnsqr.queryPacket.mapM (zeroAddress 12 8)
  let responsePacket ← dnsqr.responsePacket.mapM (zeroAddress 16 24)
  return { dnsqr with
    resolverAddressZeroed := some true
    queryIp := List.replicate dnsqr.queryIp.length 0
    queryPacket := queryPacket
    responsePacket := responsePacket }

/-! ### The message -/

/-- A message of the module: the record that is packed into its payload, and its time. Without a
time it has that of its making. -/
structure DnsqrMessage where
  dnsqr : DnsQR
  time : Option Timespec
deriving DecidableEq, Repr

/-- The time of a message, that of the query or else of the response. -/
def dnsqrTime (dnsqr : DnsQR) : Except Abort (Option Timespec) :=
  match dnsqr.queryTimeSec, dnsqr.responseTimeSec with
  | sec :: _, _ =>
      match dnsqr.queryTimeNsec with
      | nsec :: _ => .ok (some ⟨sec, nsec⟩)
      | [] => .error .outOfBounds
  | [], sec :: _ =>
      match dnsqr.responseTimeNsec with
      | nsec :: _ => .ok (some ⟨sec, nsec⟩)
      | [] => .error .outOfBounds
  | [], [] => .ok none

/-- The first step of `dnsqr_to_message`: a record with responses gets the result of the checksum. -/
def withUdpChecksum (host : ByteOrder) (dnsqr : DnsQR) : Except Abort DnsQR :=
  if dnsqr.responsePacket ≠ [] then do
    let sum ← dnsqrChecksumVerify host dnsqr
    return { dnsqr with udpChecksum := some sum }
  else .ok dnsqr

/-- The second step: the address is zeroed when that is configured. -/
def withZeroedAddress (zeroResolverAddress : Bool) (dnsqr : DnsQR) : Except Abort DnsQR :=
  if zeroResolverAddress then dnsqrZeroResolverAddress dnsqr else .ok dnsqr

/-- `dnsqr_to_message` -/
def dnsqrToMessage (host : ByteOrder) (zeroResolverAddress : Bool) (dnsqr : DnsQR) :
    Except Abort DnsqrMessage := do
  let dnsqr ← withUdpChecksum host dnsqr
  let dnsqr ← withZeroedAddress zeroResolverAddress dnsqr
  let time ← dnsqrTime dnsqr
  return { dnsqr := dnsqr, time := time }

end Nmsg

import Nmsg.Ipreasm.Split
import Nmsg.Dnsqr.Message

/-!
# UDP datagrams in packets

A UDP datagram and the IP packets that carry it, in one packet or cut into fragments. The verdict
on its checksum is said of the whole datagram, as the standards say it.
-/

namespace Nmsg

/-! ### The datagram -/

inductive IpAddresses where
  | ipv4 (src dst : Bytes) (src_len : src.length = 4) (dst_len : dst.length = 4)
  | ipv6 (src dst : Bytes) (src_len : src.length = 16) (dst_len : dst.length = 16)

structure UdpDatagram where
  addresses : IpAddresses
  srcPort : Nat
  dstPort : Nat
  checksum : Nat
  payload : Bytes
  srcPort_lt : srcPort < 65536
  dstPort_lt : dstPort < 65536
  checksum_lt : checksum < 65536
  length_lt : 8 + payload.length < 65536

namespace UdpDatagram

variable (d : UdpDatagram)

/-- The length of a datagram is that of its header and its payload. -/
def length : Nat := 8 + d.payload.length

def header : Bytes :=
  Octets.beBytes 2 d.srcPort ++ Octets.beBytes 2 d.dstPort ++ Octets.beBytes 2 d.length ++
    Octets.beBytes 2 d.checksum

def segment : Bytes := d.header ++ d.payload

/-- The pseudo header in front of the datagram, as far as the checksum goes. -/
def pseudoHeader : Bytes :=
  match d.addresses with
  | .ipv4 src dst _ _ => src ++ dst ++ [0, ipprotoUdp] ++ Octets.beBytes 2 d.length
  | .ipv6 src dst _ _ => src ++ dst ++ Octets.beBytes 4 d.length ++ [0, 0, 0, ipprotoUdp]

/-- What the checksum says: nothing when it is zero, or whether the words add up to all ones. -/
def verdict : UdpChecksum :=
  if d.checksum = 0 then .absent
  else if OnesSum.sum (d.pseudoHeader ++ d.segment) = 65535 then .correct
  else .incorrect

end UdpDatagram

/-! ### The packets -/

/-- An IPv6 packet without extension headers. -/
structure Ipv6Packet where
  first : UInt8
  flow : Bytes
  nxt : UInt8
  hopLimit : UInt8
  src : Bytes
  dst : Bytes
  payload : Bytes
  version : ipV first = 6
  flow_len : flow.length = 3
  src_len : src.length = 16
  dst_len : dst.length = 16
  payload_lt : payload.length < 65536

def Ipv6Packet.header (p : Ipv6Packet) : Bytes :=
  [p.first] ++ p.flow ++ Octets.beBytes 2 p.payload.length ++ [p.nxt, p.hopLimit] ++ p.src ++ p.dst

/-- A packet: of IPv4, of IPv6, or of IPv6 with a Fragment header whose reserved octet is zero. -/
inductive IpPacket where
  | ipv4 (p : Ipv4Packet)
  | ipv6 (p : Ipv6Packet)
  | ipv6Fragment (p : Ipv6Fragment) (direct : p.exts = []) (reserved : p.reserved = 0)

namespace IpPacket

def addresses : IpPacket → IpAddresses
  | ipv4 p => .ipv4 p.src p.dst p.src_len p.dst_len
  | ipv6 p => .ipv6 p.src p.dst p.src_len p.dst_len
  | ipv6Fragment p _ _ => .ipv6 p.src p.dst p.src_len p.dst_len

def proto : IpPacket → UInt8
  | ipv4 p => p.proto
  | ipv6 p => p.nxt
  | ipv6Fragment p _ _ => p.nxt

/-- The octets in front of the payload. -/
def header : IpPacket → Bytes
  | ipv4 p => p.header p.total p.off p.sum
  | ipv6 p => p.header
  | ipv6Fragment p _ _ => p.unfragmentable p.plen ipprotoFragment ++ p.fragmentHeader

def part : IpPacket → DatagramPart
  | ipv4 p => ⟨ipOffmask p.off * 8, ipMf p.off, p.payload⟩
  | ipv6 p => ⟨0, false, p.payload⟩
  | ipv6Fragment p _ _ => ⟨ip6fOff p.offlg, ip6fMoreFrag p.offlg, p.payload⟩

def octets (p : IpPacket) : Bytes := p.header ++ p.part.octets

end IpPacket

/-- The packets carry the datagram, its parts in any order. A packet that carries it whole may be
followed by padding. Captured lengths are numbers of 32 bits. -/
structure UdpDatagram.CarriedBy (d : UdpDatagram) (pkts : List IpPacket) (padding : Bytes) : Prop where
  addresses : ∀ p ∈ pkts, p.addresses = d.addresses
  proto : ∀ p ∈ pkts, p.proto = ipprotoUdp
  parts : ∃ parts : List Bytes, parts.flatten = d.segment ∧ AllowedParts parts ∧
    (pkts.map IpPacket.part).Perm (cut 0 parts)
  whole : padding = [] ∨ pkts.length = 1
  captured : ∀ p ∈ pkts, p.octets.length + padding.length < 4294967296

end Nmsg

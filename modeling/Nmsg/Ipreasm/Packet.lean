import Nmsg.Ipdg

/-!
# Well-formed packets

An IPv4 packet and an IPv6 packet with a Fragment header, as values that carry the lengths their
headers announce. `octets` lays them out on the wire.
-/

namespace Nmsg

/-- An IPv4 packet. -/
structure Ipv4Packet where
  first : UInt8
  tos : UInt8
  ident : Nat
  off : Nat
  ttl : UInt8
  proto : UInt8
  sum : Nat
  src : Bytes
  dst : Bytes
  options : Bytes
  payload : Bytes
  version : ipV first = 4
  hl : 4 * ipHl first = 20 + options.length
  ident_lt : ident < 65536
  off_lt : off < 65536
  src_len : src.length = 4
  dst_len : dst.length = 4
  total_lt : 20 + options.length + payload.length < 65536

namespace Ipv4Packet

variable (p : Ipv4Packet)

def total : Nat := 20 + p.options.length + p.payload.length

/-- The header in front of the payload, with the length and the fragment fields given. -/
def header (total off sum : Nat) : Bytes :=
  [p.first, p.tos] ++ Octets.beBytes 2 total ++ Octets.beBytes 2 p.ident ++
    Octets.beBytes 2 off ++ [p.ttl, p.proto] ++ Octets.beBytes 2 sum ++ p.src ++ p.dst ++ p.options

def octets : Bytes := p.header p.total p.off p.sum ++ p.payload

/-- The datagram the packet is a fragment of. -/
def id : ReasmId := .ipv4 p.src p.dst p.ident p.proto

def IsFragment : Prop := ipMf p.off = true ∨ ipOffmask p.off ≠ 0

@[simp]
theorem length_header (total off sum : Nat) :
    (p.header total off sum).length = 20 + p.options.length := by
  simp only [header, List.length_append, Octets.length_beBytes, p.src_len, p.dst_len,
    List.length_cons, List.length_nil]

@[simp]
theorem length_octets : p.octets.length = p.total := by
  rw [octets, List.length_append, length_header, total]

end Ipv4Packet

/-- A header in front of the Fragment header: its type, its length octet, and what follows these in
it. -/
structure ExtHeader where
  proto : UInt8
  length : UInt8
  body : Bytes
  skippable : isSkippable proto = true
  size : body.length = 6 + 8 * length.toNat

/-- The type of the first of a chain of headers that `last` ends. -/
def firstProto (last : UInt8) : List ExtHeader → UInt8
  | [] => last
  | h :: _ => h.proto

@[simp]
theorem firstProto_nil (last : UInt8) : firstProto last [] = last := rfl

@[simp]
theorem firstProto_cons (last : UInt8) (h : ExtHeader) (rest : List ExtHeader) :
    firstProto last (h :: rest) = h.proto := rfl

/-- A chain of headers; each names the type of the next. -/
def extOctets (last : UInt8) : List ExtHeader → Bytes
  | [] => []
  | h :: rest => firstProto last rest :: h.length :: h.body ++ extOctets last rest

/-- Octets of a chain of headers. -/
def extLen (exts : List ExtHeader) : Nat := (exts.map fun h => 8 + 8 * h.length.toNat).sum

theorem extLen_cons (h : ExtHeader) (rest : List ExtHeader) :
    extLen (h :: rest) = 8 + 8 * h.length.toNat + extLen rest := rfl

theorem length_le_extLen (exts : List ExtHeader) : exts.length ≤ extLen exts := by
  induction exts with
  | nil => exact Nat.zero_le _
  | cons h rest ih =>
      rw [List.length_cons, extLen_cons]
      omega

@[simp]
theorem length_extOctets (last : UInt8) (exts : List ExtHeader) :
    (extOctets last exts).length = extLen exts := by
  induction exts with
  | nil => rfl
  | cons h rest ih =>
      simp only [extOctets, List.length_cons, List.length_append, ih, h.size, extLen_cons]
      omega

/-- An IPv6 packet with a Fragment header behind a chain of headers that reassembly looks behind. -/
structure Ipv6Fragment where
  first : UInt8
  flow : Bytes
  hopLimit : UInt8
  src : Bytes
  dst : Bytes
  exts : List ExtHeader
  nxt : UInt8
  reserved : UInt8
  offlg : Nat
  ident : Nat
  payload : Bytes
  version : ipV first = 6
  flow_len : flow.length = 3
  src_len : src.length = 16
  dst_len : dst.length = 16
  offlg_lt : offlg < 65536
  ident_lt : ident < 4294967296
  plen_lt : extLen exts + 8 + payload.length < 65536

namespace Ipv6Fragment

variable (p : Ipv6Fragment)

def plen : Nat := extLen p.exts + 8 + p.payload.length

/-- The headers up to the Fragment header, with the payload length given and the type of what comes
behind the last of them. -/
def unfragmentable (plen : Nat) (last : UInt8) : Bytes :=
  [p.first] ++ p.flow ++ Octets.beBytes 2 plen ++ [firstProto last p.exts, p.hopLimit] ++ p.src ++
    p.dst ++ extOctets last p.exts

def fragmentHeader : Bytes :=
  [p.nxt, p.reserved] ++ Octets.beBytes 2 p.offlg ++ Octets.beBytes 4 p.ident

def octets : Bytes := p.unfragmentable p.plen ipprotoFragment ++ p.fragmentHeader ++ p.payload

/-- The datagram the packet is a fragment of. -/
def id : ReasmId := .ipv6 p.src p.dst p.ident

@[simp]
theorem length_unfragmentable (plen : Nat) (last : UInt8) :
    (p.unfragmentable plen last).length = 40 + extLen p.exts := by
  simp only [unfragmentable, List.length_append, Octets.length_beBytes, p.flow_len, p.src_len,
    p.dst_len, length_extOctets, List.length_cons, List.length_nil]

@[simp]
theorem length_fragmentHeader : p.fragmentHeader.length = 8 := by
  simp only [fragmentHeader, List.length_append, Octets.length_beBytes, List.length_cons,
    List.length_nil]

@[simp]
theorem length_octets : p.octets.length = 40 + p.plen := by
  simp only [octets, List.length_append, length_unfragmentable, length_fragmentHeader, plen]
  omega

end Ipv6Fragment

/-- A fragment as it is captured: octets may follow the packet. Captured lengths are numbers of 32
bits. -/
inductive FragPacket where
  | ipv4 (p : Ipv4Packet) (fragment : p.IsFragment) (padding : Bytes)
      (captured : p.total + padding.length < 4294967296)
  | ipv6 (p : Ipv6Fragment) (padding : Bytes)
      (captured : 40 + p.plen + padding.length < 4294967296)

namespace FragPacket

def octets : FragPacket → Bytes
  | .ipv4 p _ padding _ => p.octets ++ padding
  | .ipv6 p padding _ => p.octets ++ padding

/-- The type the link layer gives of the packet. -/
def etype : FragPacket → Nat
  | .ipv4 .. => ethertypeIp
  | .ipv6 .. => ethertypeIpv6

/-- The datagram the packet is a fragment of. -/
def id : FragPacket → ReasmId
  | .ipv4 p .. => p.id
  | .ipv6 p .. => p.id

/-- No fragment comes behind this one in the datagram. -/
def lastFrag : FragPacket → Bool
  | .ipv4 p .. => !ipMf p.off
  | .ipv6 p .. => !ip6fMoreFrag p.offlg

end FragPacket

/-- A fragment with the time it is captured at. -/
structure FragFrame where
  packet : FragPacket
  sec : Nat
  nsec : Int

/-- A fragment goes through the reassembly of the base module: the datagram it completes, no octets
when there is none. -/
def baseReassembly (outputLen : Nat) (reasm : ReasmIp BaseFrag) (f : FragFrame) :
    Except Abort (Bytes × ReasmIp BaseFrag) := do
  let pkt := f.packet.octets
  let ((_, entry), reasm) ← reasmIpNext reasm pkt (toUnsigned pkt.length) ⟨f.sec, f.nsec⟩
  match entry with
  | none => return ([], reasm)
  | some entry =>
      let out ← reasmAssemble entry outputLen
      return (out, reasm)

/-- A fragment goes through the parser of the library, which calls the other reassembly. -/
def coreReassembly (host : ByteOrder) (outputLen : Nat) (reasm : ReasmIp CoreFrag) (f : FragFrame) :
    Except Abort (Bytes × ReasmIp CoreFrag) := do
  let pkt := f.packet.octets
  match ← networkHeader (exthdrsReasm host pkt 0 pkt.length) f.packet.etype pkt 0 pkt.length with
  | none => return ([], reasm)
  | some h =>
      if h.isFragment then reassembleFragment reasm pkt pkt.length h outputLen f.sec
      else return ([], reasm)

end Nmsg

import Nmsg.Lib.OnesSum
import Nmsg.Ipreasm.Packet

/-!
# Datagrams and their fragments

A datagram before it is fragmented, what it is to split it, and what it is to have it back.
-/

namespace Nmsg

/-- A part of a payload: where it starts, whether more follows, and its octets. -/
structure DatagramPart where
  offset : Nat
  more : Bool
  octets : Bytes

/-- A payload cut into parts. -/
def cut : Nat → List Bytes → List DatagramPart
  | _, [] => []
  | offset, b :: rest => ⟨offset, !rest.isEmpty, b⟩ :: cut (offset + b.length) rest

theorem map_octets_cut (parts : List Bytes) :
    ∀ offset, (cut offset parts).map DatagramPart.octets = parts := by
  induction parts with
  | nil => exact fun _ => rfl
  | cons b rest ih =>
      intro offset
      rw [cut, List.map_cons, ih]

theorem octets_mem_of_mem_cut {parts : List Bytes} {offset : Nat} {q : DatagramPart}
    (hq : q ∈ cut offset parts) : q.octets ∈ parts := by
  have := List.mem_map_of_mem (f := DatagramPart.octets) hq
  rwa [map_octets_cut] at this

theorem offset_of_mem_cut {parts : List Bytes} :
    ∀ {offset : Nat} {q : DatagramPart}, q ∈ cut offset parts → offset ≤ q.offset := by
  induction parts with
  | nil =>
      intro offset q hq
      cases hq
  | cons b rest ih =>
      intro offset q hq
      rcases List.mem_cons.mp hq with rfl | hq
      · exact Nat.le_refl _
      · exact Nat.le_trans (Nat.le_add_right _ _) (ih hq)

/-- Where the parts end, and which of them is the last. -/
theorem end_of_mem_cut {parts : List Bytes} (hne : ∀ b ∈ parts, b ≠ []) :
    ∀ {offset : Nat} {q : DatagramPart}, q ∈ cut offset parts →
      (q.more = false ↔ q.offset + q.octets.length = offset + parts.flatten.length) := by
  induction parts with
  | nil =>
      intro offset q hq
      cases hq
  | cons b rest ih =>
      intro offset q hq
      rw [List.forall_mem_cons] at hne
      rw [List.flatten_cons, List.length_append]
      rcases List.mem_cons.mp hq with rfl | hq
      · cases rest with
        | nil => simp
        | cons b' rest =>
            have hpos := List.length_pos_iff.mpr (hne.2 b' (List.mem_cons_self ..))
            refine iff_of_false (by simp) ?_
            rw [List.flatten_cons, List.length_append]
            dsimp only
            omega
      · rw [ih hne.2 hq, Nat.add_assoc]

/-- All parts but the last are multiples of eight octets, when they are in a list. -/
theorem eight_of_mem_cut {parts : List Bytes} (height : ∀ b ∈ parts.dropLast, b.length % 8 = 0) :
    ∀ {offset : Nat} {q : DatagramPart}, q ∈ cut offset parts → q.more = true →
      q.octets.length % 8 = 0 := by
  induction parts with
  | nil =>
      intro offset q hq
      cases hq
  | cons b rest ih =>
      intro offset q hq hmore
      cases rest with
      | nil =>
          rw [List.mem_singleton.mp hq] at hmore
          cases hmore
      | cons b' rest =>
          rw [List.dropLast_cons_cons, List.forall_mem_cons] at height
          rcases List.mem_cons.mp hq with rfl | hq
          · exact height.1
          · exact ih height.2 hq hmore

/-- The parts of a payload that a fragmentation allows: none is empty, and all but the last are
multiples of eight octets. -/
structure AllowedParts (parts : List Bytes) : Prop where
  nonempty : ∀ b ∈ parts, b ≠ []
  eight : ∀ b ∈ parts.dropLast, b.length % 8 = 0

/-! ### Datagrams -/

/-- An IPv6 datagram; `exts` are the headers in front of the place of a Fragment header, and `nxt`
is the type of what comes behind it. -/
structure Ipv6Datagram where
  first : UInt8
  flow : Bytes
  hopLimit : UInt8
  src : Bytes
  dst : Bytes
  exts : List ExtHeader
  nxt : UInt8
  payload : Bytes
  version : ipV first = 6
  flow_len : flow.length = 3
  src_len : src.length = 16
  dst_len : dst.length = 16
  plen_lt : extLen exts + payload.length < 65536

def Ipv6Datagram.octets (d : Ipv6Datagram) : Bytes :=
  [d.first] ++ d.flow ++ Octets.beBytes 2 (extLen d.exts + d.payload.length) ++
    [firstProto d.nxt d.exts, d.hopLimit] ++ d.src ++ d.dst ++ extOctets d.nxt d.exts ++ d.payload

/-- A datagram. One of IPv6 is identified by a number its fragments are given. -/
inductive IpDatagram where
  | ipv4 (d : Ipv4Packet)
  | ipv6 (d : Ipv6Datagram) (ident : Nat)

namespace IpDatagram

def id : IpDatagram → ReasmId
  | ipv4 d => d.id
  | ipv6 d ident => .ipv6 d.src d.dst ident

def payload : IpDatagram → Bytes
  | ipv4 d => d.payload
  | ipv6 d _ => d.payload

/-- Octets of the datagram. -/
def length : IpDatagram → Nat
  | ipv4 d => d.total
  | ipv6 d _ => 40 + (extLen d.exts + d.payload.length)

/-- The datagram is had back: one of IPv4 with its fragment fields cleared and a header checksum that
verifies, one of IPv6 as it was. -/
def Restored (out : Bytes) : IpDatagram → Prop
  | ipv4 d => ∃ sum, OnesSum.sum (d.header d.total 0 sum) = 65535 ∧
      out = d.header d.total 0 sum ++ d.payload
  | ipv6 d _ => out = d.octets

/-- The fragment has the header of the datagram. What its identification says is not repeated. -/
def HeadedAs : IpDatagram → FragPacket → Prop
  | ipv4 d, .ipv4 p .. =>
      p.first = d.first ∧ p.tos = d.tos ∧ p.ttl = d.ttl ∧ p.options = d.options
  | ipv6 d _, .ipv6 p .. =>
      p.first = d.first ∧ p.flow = d.flow ∧ p.hopLimit = d.hopLimit ∧ p.exts = d.exts ∧
        p.nxt = d.nxt
  | _, _ => False

end IpDatagram

def FragPacket.part : FragPacket → DatagramPart
  | .ipv4 p .. => ⟨ipOffmask p.off * 8, ipMf p.off, p.payload⟩
  | .ipv6 p .. => ⟨ip6fOff p.offlg, ip6fMoreFrag p.offlg, p.payload⟩

/-- The packets are the fragments of the datagram, in order. The first has its header; the others
may have other options and other fields that routers change. -/
structure IpDatagram.SplitInto (d : IpDatagram) (frags : List FragPacket) : Prop where
  id : ∀ f ∈ frags, f.id = d.id
  headed : ∀ f ∈ frags.head?, d.HeadedAs f
  parts : ∃ parts : List Bytes, parts.flatten = d.payload ∧ AllowedParts parts ∧ parts ≠ [] ∧
    frags.map FragPacket.part = cut 0 parts

/-- A fragment that is captured at a time. -/
structure TimedFrag where
  packet : FragPacket
  timestamp : Timespec

end Nmsg

import Nmsg.Ipreasm.Packet

/-!
# Parsing well-formed fragments

What the parsers of both copies of the reassembly, and the parser that calls one of them, read in a
well-formed fragment.
-/

namespace Nmsg

/-! ### IPv4 -/

namespace Ipv4Packet

variable (p : Ipv4Packet) (padding : Bytes)

theorem octetAt_first : octetAt (p.octets ++ padding) 0 = .ok p.first := by
  apply octetAt_eq []
  · simp only [octets, header, List.nil_append, List.cons_append]
    rfl
  · rfl

theorem loadNet16_total : loadNet16 (p.octets ++ padding) 2 = .ok p.total := by
  have hlt : p.total < 256 ^ 2 := p.total_lt
  rw [loadNet16_eq ([p.first, p.tos]) (b := Octets.beBytes 2 p.total)]
  · rw [Octets.beNat_beBytes_of_lt hlt]
  · simp only [octets, header, List.append_assoc]
    rfl
  · rfl
  · simp

theorem loadNet16_off : loadNet16 (p.octets ++ padding) 6 = .ok p.off := by
  have hlt : p.off < 256 ^ 2 := p.off_lt
  rw [loadNet16_eq
    ([p.first, p.tos] ++ Octets.beBytes 2 p.total ++ Octets.beBytes 2 p.ident)
    (b := Octets.beBytes 2 p.off)]
  · rw [Octets.beNat_beBytes_of_lt hlt]
  · simp only [octets, header, List.append_assoc]
    rfl
  · simp
  · simp

theorem loadNet16_ident : loadNet16 (p.octets ++ padding) 4 = .ok p.ident := by
  have hlt : p.ident < 256 ^ 2 := p.ident_lt
  rw [loadNet16_eq ([p.first, p.tos] ++ Octets.beBytes 2 p.total)
    (b := Octets.beBytes 2 p.ident)]
  · rw [Octets.beNat_beBytes_of_lt hlt]
  · simp only [octets, header, List.append_assoc]
    rfl
  · simp
  · simp

theorem octetAt_proto : octetAt (p.octets ++ padding) 9 = .ok p.proto := by
  apply octetAt_eq ([p.first, p.tos] ++ Octets.beBytes 2 p.total ++
    Octets.beBytes 2 p.ident ++ Octets.beBytes 2 p.off ++ [p.ttl])
  · simp only [octets, header, List.append_assoc, List.cons_append, List.nil_append]
    rfl
  · simp

theorem copyAt_src : copyAt (p.octets ++ padding) 12 4 = .ok p.src := by
  apply copyAt_eq ([p.first, p.tos] ++ Octets.beBytes 2 p.total ++
    Octets.beBytes 2 p.ident ++ Octets.beBytes 2 p.off ++ [p.ttl, p.proto] ++
    Octets.beBytes 2 p.sum)
  · simp only [octets, header, List.append_assoc]
    rfl
  · simp
  · exact p.src_len.symm

theorem copyAt_dst : copyAt (p.octets ++ padding) 16 4 = .ok p.dst := by
  apply copyAt_eq ([p.first, p.tos] ++ Octets.beBytes 2 p.total ++
    Octets.beBytes 2 p.ident ++ Octets.beBytes 2 p.off ++ [p.ttl, p.proto] ++
    Octets.beBytes 2 p.sum ++ p.src)
  · simp only [octets, header, List.append_assoc]
    rfl
  · simp [p.src_len]
  · exact p.dst_len.symm

theorem copyAt_all : copyAt (p.octets ++ padding) 0 p.total = .ok p.octets := by
  apply copyAt_eq []
  · rw [List.nil_append]
  · rfl
  · rw [length_octets]

/-- What both copies of the reassembly read in an IPv4 fragment. -/
theorem parse_octets (hfragment : p.IsFragment) {len : Nat} (hlen : p.total ≤ len) :
    parseIpv4Fragment (p.octets ++ padding) len = .ok (some {
      len := p.payload.length
      offset := ipOffmask p.off * 8
      dataOffset := 20 + p.options.length
      data := p.octets
      lastFrag := !ipMf p.off
      id := p.id }) := by
  have htotal := p.total_lt
  have hpayload : subUnsigned p.total (20 + p.options.length) = p.payload.length := by
    rw [subUnsigned_of_le (by rw [total]; omega) (by rw [total]; omega), total]
    omega
  have hcond : len ≥ p.total ∧ (ipMf p.off = true ∨ ipOffmask p.off ≠ 0) := ⟨hlen, hfragment⟩
  simp only [parseIpv4Fragment, loadNet16_off, loadNet16_total, octetAt_first, copyAt_all,
    copyAt_src, copyAt_dst, loadNet16_ident, octetAt_proto, bind, Except.bind, if_pos hcond,
    p.hl, hpayload, pure, Except.pure, id]

end Ipv4Packet

/-! ### IPv6 -/

/-- Where the octet is that announces what is behind a chain of headers. -/
def announcedAt (lastNxt offset : Nat) : List ExtHeader → Nat
  | [] => lastNxt
  | h :: rest => announcedAt offset (offset + (8 + 8 * h.length.toNat)) rest

theorem not_isSkippable_fragment : isSkippable ipprotoFragment = false := rfl

/-- The walk over a chain of headers ends at the Fragment header behind it. -/
theorem fragHeader_exts (rest : Bytes) (totalLen : Nat) (exts : List ExtHeader) :
    ∀ (fuel : Nat) (pre : Bytes) (lastNxt : Nat), exts.length < fuel →
      pre.length + extLen exts ≤ totalLen →
      fragHeader (pre ++ extOctets ipprotoFragment exts ++ rest) totalLen fuel
          (firstProto ipprotoFragment exts) lastNxt pre.length =
        .ok (some (pre.length + extLen exts, announcedAt lastNxt pre.length exts)) := by
  induction exts with
  | nil =>
      intro fuel pre lastNxt hfuel _
      obtain ⟨fuel, rfl⟩ := Nat.exists_eq_succ_of_ne_zero (Nat.ne_of_gt hfuel)
      rw [fragHeader]
      simp only [firstProto_nil, not_isSkippable_fragment, Bool.false_eq_true, if_false, if_true,
        extLen, List.map_nil, List.sum_nil, Nat.add_zero, announcedAt]
  | cons h exts ih =>
      intro fuel pre lastNxt hfuel htotal
      obtain ⟨fuel, rfl⟩ := Nat.exists_eq_succ_of_ne_zero (Nat.ne_of_gt (Nat.lt_of_le_of_lt
        (Nat.zero_le _) hfuel))
      have hlen := extLen_cons h exts
      have hlength : octetAt (pre ++ extOctets ipprotoFragment (h :: exts) ++ rest)
          (pre.length + 1) = .ok h.length := by
        apply octetAt_eq (pre ++ [firstProto ipprotoFragment exts])
        · simp only [extOctets, List.append_assoc, List.cons_append, List.nil_append]
          rfl
        · simp
      have hnxt : octetAt (pre ++ extOctets ipprotoFragment (h :: exts) ++ rest) pre.length =
          .ok (firstProto ipprotoFragment exts) := by
        apply octetAt_eq pre
        · simp only [extOctets, List.append_assoc, List.cons_append]
          rfl
        · rfl
      have hpre : (pre ++ (firstProto ipprotoFragment exts :: h.length :: h.body)).length =
          pre.length + (8 + 8 * h.length.toNat) := by
        simp only [List.length_append, List.length_cons, h.size]
        omega
      have hpacket : pre ++ extOctets ipprotoFragment (h :: exts) ++ rest =
          pre ++ (firstProto ipprotoFragment exts :: h.length :: h.body) ++
            extOctets ipprotoFragment exts ++ rest := by
        simp only [extOctets, List.append_assoc, List.cons_append]
      have hrest := ih fuel (pre ++ (firstProto ipprotoFragment exts :: h.length :: h.body))
        pre.length (by rw [List.length_cons] at hfuel; omega) (by omega)
      rw [← hpacket, hpre] at hrest
      rw [fragHeader]
      simp only [firstProto_cons, h.skippable, if_true, hlength, hnxt, bind, Except.bind]
      rw [if_neg (by omega), if_neg (by omega), hrest, announcedAt, hlen]
      simp only [Except.ok.injEq, Option.some.injEq, Prod.mk.injEq, and_true]
      omega

namespace Ipv6Fragment

variable (p : Ipv6Fragment) (padding : Bytes)

theorem octetAt_first : octetAt (p.octets ++ padding) 0 = .ok p.first := by
  apply octetAt_eq []
  · simp only [octets, unfragmentable, List.nil_append, List.cons_append]
    rfl
  · rfl

theorem octetAt_nxt :
    octetAt (p.octets ++ padding) 6 = .ok (firstProto ipprotoFragment p.exts) := by
  apply octetAt_eq ([p.first] ++ p.flow ++ Octets.beBytes 2 p.plen)
  · simp only [octets, unfragmentable, List.append_assoc, List.cons_append, List.nil_append]
    rfl
  · simp [p.flow_len]

theorem loadNet16_plen : loadNet16 (p.octets ++ padding) 4 = .ok p.plen := by
  have hlt : p.plen < 256 ^ 2 := p.plen_lt
  rw [loadNet16_eq ([p.first] ++ p.flow) (b := Octets.beBytes 2 p.plen)]
  · rw [Octets.beNat_beBytes_of_lt hlt]
  · simp only [octets, unfragmentable, List.append_assoc]
    rfl
  · simp [p.flow_len]
  · simp

theorem copyAt_src : copyAt (p.octets ++ padding) 8 16 = .ok p.src := by
  apply copyAt_eq ([p.first] ++ p.flow ++ Octets.beBytes 2 p.plen ++
    [firstProto ipprotoFragment p.exts, p.hopLimit])
  · simp only [octets, unfragmentable, List.append_assoc]
    rfl
  · simp [p.flow_len]
  · exact p.src_len.symm

theorem copyAt_dst : copyAt (p.octets ++ padding) 24 16 = .ok p.dst := by
  apply copyAt_eq ([p.first] ++ p.flow ++ Octets.beBytes 2 p.plen ++
    [firstProto ipprotoFragment p.exts, p.hopLimit] ++ p.src)
  · simp only [octets, unfragmentable, List.append_assoc]
    rfl
  · simp [p.flow_len, p.src_len]
  · exact p.dst_len.symm

theorem copyAt_all : copyAt (p.octets ++ padding) 0 (p.plen + 40) = .ok p.octets := by
  apply copyAt_eq []
  · rw [List.nil_append]
  · rfl
  · rw [length_octets, Nat.add_comm]

/-- The Fragment header and what it holds. -/
theorem octetAt_fragNxt : octetAt (p.octets ++ padding) (40 + extLen p.exts) = .ok p.nxt := by
  apply octetAt_eq (p.unfragmentable p.plen ipprotoFragment)
  · simp only [octets, fragmentHeader, List.append_assoc, List.cons_append, List.nil_append]
    rfl
  · rw [length_unfragmentable]

theorem loadNet16_offlg :
    loadNet16 (p.octets ++ padding) (40 + extLen p.exts + 2) = .ok p.offlg := by
  have hlt : p.offlg < 256 ^ 2 := p.offlg_lt
  rw [loadNet16_eq (p.unfragmentable p.plen ipprotoFragment ++ [p.nxt, p.reserved])
    (b := Octets.beBytes 2 p.offlg)]
  · rw [Octets.beNat_beBytes_of_lt hlt]
  · simp only [octets, fragmentHeader, List.append_assoc]
    rfl
  · simp
  · simp

theorem loadNet32_ident :
    loadNet32 (p.octets ++ padding) (40 + extLen p.exts + 4) = .ok p.ident := by
  have hlt : p.ident < 256 ^ 4 := p.ident_lt
  rw [loadNet32_eq
    (p.unfragmentable p.plen ipprotoFragment ++ [p.nxt, p.reserved] ++
      Octets.beBytes 2 p.offlg)
    (b := Octets.beBytes 4 p.ident)]
  · rw [Octets.beNat_beBytes_of_lt hlt]
  · simp only [octets, fragmentHeader, List.append_assoc]
    rfl
  · simp
  · simp

theorem fragHeader_octets (totalLen : Nat) (htotal : 40 + extLen p.exts ≤ totalLen) :
    fragHeader (p.octets ++ padding) totalLen (totalLen + 1) (firstProto ipprotoFragment p.exts) 6
        ip6hdrLen =
      .ok (some (40 + extLen p.exts, announcedAt 6 40 p.exts)) := by
  have hlength := length_le_extLen p.exts
  have hwalk := fragHeader_exts (p.fragmentHeader ++ p.payload ++ padding) totalLen p.exts
    (totalLen + 1)
    ([p.first] ++ p.flow ++ Octets.beBytes 2 p.plen ++
      [firstProto ipprotoFragment p.exts, p.hopLimit] ++ p.src ++ p.dst) 6 (by omega)
  have hpre : ([p.first] ++ p.flow ++ Octets.beBytes 2 p.plen ++
      [firstProto ipprotoFragment p.exts, p.hopLimit] ++ p.src ++ p.dst).length = 40 := by
    simp [p.flow_len, p.src_len, p.dst_len]
  have hpacket : p.octets ++ padding =
      [p.first] ++ p.flow ++ Octets.beBytes 2 p.plen ++
        [firstProto ipprotoFragment p.exts, p.hopLimit] ++ p.src ++ p.dst ++
        extOctets ipprotoFragment p.exts ++ (p.fragmentHeader ++ p.payload ++ padding) := by
    simp only [octets, unfragmentable, List.append_assoc]
  rw [hpre] at hwalk
  rw [hpacket, ip6hdrLen]
  exact hwalk htotal

end Ipv6Fragment

/-! ### The fragments kept -/

def Ipv4Packet.baseFrag (p : Ipv4Packet) (ts : Timespec) : BaseFrag where
  ts := ts
  len := p.payload.length
  offset := ipOffmask p.off * 8
  dataOffset := 20 + p.options.length
  lastNxt := 0
  ip6fNxt := 0
  data := p.octets

def Ipv6Fragment.baseFrag (p : Ipv6Fragment) (ts : Timespec) : BaseFrag where
  ts := ts
  len := p.payload.length
  offset := ip6fOff p.offlg
  dataOffset := 48 + extLen p.exts
  lastNxt := announcedAt 6 40 p.exts
  ip6fNxt := p.nxt
  data := p.octets

namespace FragPacket

/-- What the base module keeps of a fragment. -/
def baseFrag (ts : Timespec) : FragPacket → BaseFrag
  | .ipv4 p .. => p.baseFrag ts
  | .ipv6 p .. => p.baseFrag ts

/-- The length of an IPv6 packet fits the 16 bits the base module has for it. -/
def Fits : FragPacket → Prop
  | .ipv4 .. => True
  | .ipv6 p .. => 40 + p.plen < 65536

theorem length_octets_lt (f : FragPacket) : f.octets.length < 4294967296 := by
  cases f with
  | ipv4 p fragment padding captured =>
      rw [octets, List.length_append, Ipv4Packet.length_octets]
      exact captured
  | ipv6 p padding captured =>
      rw [octets, List.length_append, Ipv6Fragment.length_octets]
      exact captured

/-- **The base module reads a well-formed fragment as what it is.** -/
theorem reasmParsePacket_octets (f : FragPacket) (hfits : f.Fits) (ts : Timespec) :
    reasmParsePacket f.octets f.octets.length ts =
      .ok (some { frag := f.baseFrag ts, id := f.id, lastFrag := f.lastFrag }) := by
  cases f with
  | ipv4 p fragment padding captured =>
      have hlen : p.total ≤ (p.octets ++ padding).length := by
        rw [List.length_append, Ipv4Packet.length_octets]
        exact Nat.le_add_right _ _
      simp only [octets, reasmParsePacket, p.octetAt_first, p.version, if_true, bind, Except.bind,
        p.parse_octets padding fragment hlen]
      rfl
  | ipv6 p padding captured =>
      have hplen : 40 + p.plen < 65536 := hfits
      have hexts : 40 + extLen p.exts + 8 + p.payload.length = 40 + p.plen := by
        rw [Ipv6Fragment.plen]
        omega
      have hlen : (p.octets ++ padding).length ≥ p.plen + 40 := by
        rw [List.length_append, Ipv6Fragment.length_octets]
        omega
      have hmod : (p.plen + 40) % 65536 = p.plen + 40 := Nat.mod_eq_of_lt (by omega)
      have hheader := p.fragHeader_octets padding (p.plen + 40) (by omega)
      have hoffset : 40 + extLen p.exts + 8 = 48 + extLen p.exts := by omega
      have hshort : ¬ 48 + extLen p.exts > p.plen + 40 := by omega
      have hpayload : p.plen + 40 - (48 + extLen p.exts) = p.payload.length := by omega
      have hparse : baseFragFromIpv6 (p.octets ++ padding) ts =
          .ok (some (p.baseFrag ts, p.ident, !ip6fMoreFrag p.offlg)) := by
        simp only [baseFragFromIpv6, p.octetAt_nxt, p.loadNet16_plen, bind, Except.bind, hmod,
          hheader, hoffset, if_neg hshort, p.octetAt_fragNxt, p.loadNet16_offlg, p.loadNet32_ident,
          p.copyAt_all, pure, Except.pure, hpayload, Ipv6Fragment.baseFrag]
      have hsix : ¬ (6 = 4) := by decide
      simp only [octets, reasmParsePacket, p.octetAt_first, p.version, if_neg hsix, if_true, bind,
        Except.bind, p.loadNet16_plen, if_pos hlen, hparse, p.copyAt_src, p.copyAt_dst]
      rfl

end FragPacket

end Nmsg

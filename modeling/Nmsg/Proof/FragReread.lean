import Nmsg.Dnsqr.Response
import Nmsg.Proof.ReasmSafety

/-!
# Fragments that are read again

A stored fragment is a packet, and what is read of that packet is the fragment. The address of the
resolver and the checksum of a header do not matter to it.
-/

namespace Nmsg

open Memory

/-! ### What does not matter -/

/-- The places in a packet of a response that are zeroed with the address of the resolver, and those
of the checksum of the header. -/
def Hidden : ProtoNetwork → Nat → Prop
  | .inet, i => 10 ≤ i ∧ i < 12 ∨ 16 ≤ i ∧ i < 20
  | .inet6, i => 24 ≤ i ∧ i < 40

/-- The fragment was read from a packet. -/
def ParsedFrom (id : ReasmId) (frag : BaseFrag) (lastFrag : Bool) : Prop :=
  ∃ packet len ts, len ≤ packet.length ∧
    reasmParsePacket packet len ts = .ok (some ⟨frag, id, lastFrag⟩)

/-- The header of the fragment is whole, and ends in front of its payload. -/
def BaseFrag.Sound (frag : BaseFrag) : Prop :=
  20 ≤ frag.dataOffset ∧ frag.dataOffset ≤ frag.data.length

/-- What is read of the packet `pkt` is the fragment, up to its time and its addresses. -/
def Reread (id : ReasmId) (frag : BaseFrag) (lastFrag : Bool) (pkt : Bytes) (ts : Timespec) : Prop :=
  ∃ id', id'.protoNetwork = id.protoNetwork ∧
    reasmParsePacket pkt (toUnsigned pkt.length) ts =
      .ok (some ⟨{ frag with ts := ts, data := pkt }, id', lastFrag⟩)

section Octets

variable {packet data pkt : Bytes} {n k : Nat} {S : Nat → Prop}

/-- What is alike with a part of a packet has the octets of the packet there. -/
theorem getElem?_of_part (hdata : data = packet.take n) (h : EqOff S data pkt) (hk : k < n)
    (hS : ¬ S k) : pkt[k]? = packet[k]? := by
  rw [h.getElem? k hS, hdata, List.getElem?_take_of_lt hk]

theorem copyAt_eq_take (h : copyAt packet 0 n = .ok data) :
    data = packet.take n ∧ n ≤ packet.length := by
  obtain ⟨hle, hdata⟩ := read_eq_some.mp (copyAt_eq_ok.mp h)
  rw [List.drop_zero] at hdata
  exact ⟨hdata, by omega⟩

end Octets

/-! ### The walk to the Fragment header -/

/-- The walk reads the octets in front of the end only. -/
theorem fragHeader_congr {packet pkt : Bytes} {totalLen : Nat}
    (h : ∀ k, 40 ≤ k → k < totalLen → pkt[k]? = packet[k]?) :
    ∀ (fuel : Nat) (nxt : UInt8) (lastNxt offset : Nat), 40 ≤ offset →
      fragHeader pkt totalLen fuel nxt lastNxt offset =
        fragHeader packet totalLen fuel nxt lastNxt offset := by
  intro fuel
  induction fuel with
  | zero => exact fun _ _ _ _ => rfl
  | succ fuel ih =>
      intro nxt lastNxt offset hstart
      rw [fragHeader, fragHeader]
      split
      · split
        · rfl
        · next hroom =>
            rw [octetAt_congr (h _ (by omega) (by omega)),
              octetAt_congr (h offset hstart (by omega))]
            refine bind_congr fun length => ?_
            dsimp only
            split
            · rfl
            · exact bind_congr fun nxt => ih _ _ _ (by omega)
      · rfl

/-- The walk goes on behind where it starts. -/
theorem fragHeader_start {packet : Bytes} {totalLen : Nat} {o l : Nat} :
    ∀ (fuel : Nat) (nxt : UInt8) (lastNxt offset : Nat),
      fragHeader packet totalLen fuel nxt lastNxt offset = .ok (some (o, l)) → offset ≤ o := by
  intro fuel
  induction fuel with
  | zero => exact fun _ _ _ h => by cases h
  | succ fuel ih =>
      intro nxt lastNxt offset h
      rw [fragHeader] at h
      split at h
      · split at h
        · cases h
        · obtain ⟨length, -, h⟩ := Outcome.bind_eq_ok.mp h
          dsimp only at h
          split at h
          · cases h
          · obtain ⟨nxt', -, h⟩ := Outcome.bind_eq_ok.mp h
            have := ih _ _ _ h
            omega
      · split at h
        · cases h
          exact Nat.le_refl _
        · cases h

/-! ### Packets -/

section Parse

variable {packet pkt : Bytes} {len : Nat} {ts : Timespec} {frag : BaseFrag} {id : ReasmId}
  {lastFrag : Bool}

/-- What is read of an IPv4 fragment is read of its stored packet. -/
theorem parseIpv4Fragment_reread {f : Ipv4Fragment} {first : UInt8}
    (h : parseIpv4Fragment packet len = .ok (some f)) (hfirst : octetAt packet 0 = .ok first)
    (hsound : 20 ≤ f.dataOffset ∧ f.dataOffset ≤ f.data.length)
    (hpkt : EqOff (Hidden .inet) f.data pkt) :
    f.id.protoNetwork = .inet ∧ octetAt pkt 0 = .ok first ∧
      ∃ id', id'.protoNetwork = .inet ∧ parseIpv4Fragment pkt (toUnsigned pkt.length) =
        .ok (some { f with data := pkt, id := id' }) := by
  obtain ⟨off, ipLen, first', data, src, dst, ident, proto, hoff, hipLen, hfragment, hfirst', hdata,
    -, hident, hproto, rfl⟩ := parseIpv4Fragment_ok h
  rw [hfirst] at hfirst'
  cases hfirst'
  dsimp only at hsound hpkt ⊢
  obtain ⟨htake, hle⟩ := copyAt_eq_take hdata
  have hdlen : data.length = ipLen := by
    rw [htake, List.length_take, Nat.min_eq_left hle]
  have hlen : pkt.length = ipLen := hpkt.length.trans hdlen
  have hlt := loadNet16_lt hipLen
  have hsame : ∀ k < 16, ¬ (10 ≤ k ∧ k < 12) → pkt[k]? = packet[k]? := by
    intro k hk hsum
    apply getElem?_of_part htake hpkt (by omega)
    rintro (hin | hin) <;> omega
  obtain ⟨src', hsrc'⟩ : ∃ src', copyAt pkt 12 4 = .ok src' := copyAt_of_le (by omega)
  obtain ⟨dst', hdst'⟩ : ∃ dst', copyAt pkt 16 4 = .ok dst' := copyAt_of_le (by omega)
  have hfirst' : octetAt pkt 0 = .ok first :=
    (octetAt_congr (hsame 0 (by omega) (by omega))).trans hfirst
  have hoff' : loadNet16 pkt 6 = .ok off :=
    (loadNet16_congr fun k _ hk => hsame k (by omega) (by omega)).trans hoff
  have hipLen' : loadNet16 pkt 2 = .ok ipLen :=
    (loadNet16_congr fun k _ hk => hsame k (by omega) (by omega)).trans hipLen
  have hident' : loadNet16 pkt 4 = .ok ident :=
    (loadNet16_congr fun k _ hk => hsame k (by omega) (by omega)).trans hident
  have hproto' : octetAt pkt 9 = .ok proto :=
    (octetAt_congr (hsame 9 (by omega) (by omega))).trans hproto
  have hcopy : copyAt pkt 0 ipLen = .ok pkt := by
    simp only [copyAt, read_of_le (show 0 + ipLen ≤ pkt.length by omega), List.drop_zero,
      List.take_of_length_le (Nat.le_of_eq hlen)]
  have hunsigned : toUnsigned pkt.length = ipLen := by
    rw [hlen]
    exact Nat.mod_eq_of_lt (by omega)
  refine ⟨rfl, hfirst', .ipv4 src' dst' ident proto, rfl, ?_⟩
  simp only [parseIpv4Fragment, hoff', hipLen', hunsigned, hfirst', hcopy, hsrc', hdst', hident',
    hproto', bind, Except.bind, pure, Except.pure]
  exact if_pos ⟨Nat.le_refl _, hfragment⟩

/-- What is read of an IPv6 fragment is read of its stored packet. -/
theorem baseFragFromIpv6_reread {ident plen : Nat}
    (h : baseFragFromIpv6 packet ts = .ok (some (frag, ident, lastFrag)))
    (hplen : loadNet16 packet 4 = .ok plen) (hpkt : EqOff (Hidden .inet6) frag.data pkt)
    (ts' : Timespec) :
    pkt.length = plen + 40 ∧ plen + 40 < 65536 ∧ (∀ k < 24, pkt[k]? = packet[k]?) ∧
      baseFragFromIpv6 pkt ts' =
        .ok (some ({ frag with ts := ts', data := pkt }, ident, lastFrag)) := by
  obtain ⟨nxt, plen', offset, lastNxt, ip6fNxt, offlg, data, hnxt, hplen', hheader, hfits, hip6fNxt,
    hofflg, hident, hdata, rfl, rfl⟩ := baseFragFromIpv6_ok h
  rw [hplen] at hplen'
  cases hplen'
  dsimp only at hpkt ⊢
  have hstart : 40 ≤ offset := fragHeader_start _ _ _ _ hheader
  have hplt := loadNet16_lt hplen
  -- a length that does not fit 16 bits leaves no room for the Fragment header
  have htotal : (plen + 40) % 65536 = plen + 40 := by omega
  rw [htotal] at hheader hfits hdata ⊢
  obtain ⟨htake, hle⟩ := copyAt_eq_take hdata
  have hdlen : data.length = plen + 40 := by
    rw [htake, List.length_take, Nat.min_eq_left hle]
  have hlen : pkt.length = plen + 40 := hpkt.length.trans hdlen
  have hsame : ∀ k < plen + 40, ¬ (24 ≤ k ∧ k < 40) → pkt[k]? = packet[k]? :=
    fun k hk hS => getElem?_of_part htake hpkt hk hS
  have hnxt' : octetAt pkt 6 = .ok nxt :=
    (octetAt_congr (hsame 6 (by omega) (by omega))).trans hnxt
  have hplen' : loadNet16 pkt 4 = .ok plen :=
    (loadNet16_congr fun k _ hk => hsame k (by omega) (by omega)).trans hplen
  have hheader' : fragHeader pkt (plen + 40) (plen + 40 + 1) nxt 6 ip6hdrLen =
      .ok (some (offset, lastNxt)) :=
    (fragHeader_congr (fun k hk hkt => hsame k hkt (by omega)) _ _ _ _
      (Nat.le_refl 40)).trans hheader
  have hip6fNxt' : octetAt pkt offset = .ok ip6fNxt :=
    (octetAt_congr (hsame _ (by omega) (by omega))).trans hip6fNxt
  have hofflg' : loadNet16 pkt (offset + 2) = .ok offlg :=
    (loadNet16_congr fun k _ hk => hsame k (by omega) (by omega)).trans hofflg
  have hident' : loadNet32 pkt (offset + 4) = .ok ident :=
    (loadNet32_congr fun k _ hk => hsame k (by omega) (by omega)).trans hident
  have hcopy : copyAt pkt 0 (plen + 40) = .ok pkt := by
    simp only [copyAt, read_of_le (show 0 + (plen + 40) ≤ pkt.length by omega),
      List.drop_zero, List.take_of_length_le (Nat.le_of_eq hlen)]
  refine ⟨hlen, by omega, fun k hk => hsame k (by omega) (by omega), ?_⟩
  simp only [baseFragFromIpv6, hnxt', hplen', htotal, hheader', if_neg (Nat.not_lt.mpr hfits),
    hip6fNxt', hofflg', hident', hcopy, bind, Except.bind, pure, Except.pure]

/-- **A stored packet is read as the fragment it is of.** -/
theorem ParsedFrom.reread (h : ParsedFrom id frag lastFrag) (hsound : frag.Sound)
    (hpkt : EqOff (Hidden id.protoNetwork) frag.data pkt) (ts : Timespec) :
    Reread id frag lastFrag pkt ts := by
  obtain ⟨packet, len, ts₀, -, h⟩ := h
  obtain ⟨first, hfirst, ⟨hv, f, hf, hp⟩ |
    ⟨hv, plen, frag', ident, last, src, dst, hplen, hf, -, hp⟩⟩ := reasmParsePacket_ok h
  · cases hp
    have hid : f.id.protoNetwork = .inet := by
      obtain ⟨_, _, _, _, _, _, _, _, -, -, -, -, -, -, -, -, rfl⟩ := parseIpv4Fragment_ok hf
      rfl
    rw [hid] at hpkt
    obtain ⟨-, hfirst', id', hid', hparse⟩ := parseIpv4Fragment_reread hf hfirst hsound hpkt
    refine ⟨id', hid'.trans hid.symm, ?_⟩
    simp only [reasmParsePacket, hfirst', if_pos hv, hparse, bind, Except.bind, pure, Except.pure]
  · cases hp
    have hnot : ¬ ipV first = 4 := by omega
    obtain ⟨hlen, hlt, hsame, hparse⟩ := baseFragFromIpv6_reread hf hplen hpkt ts
    have hfirst' : octetAt pkt 0 = .ok first := (octetAt_congr (hsame 0 (by omega))).trans hfirst
    have hplen' : loadNet16 pkt 4 = .ok plen :=
      (loadNet16_congr fun k _ hk => hsame k (by omega)).trans hplen
    have hunsigned : toUnsigned pkt.length = plen + 40 := by
      rw [hlen]
      exact Nat.mod_eq_of_lt (by omega)
    obtain ⟨src', hsrc'⟩ : ∃ src', copyAt pkt 8 16 = .ok src' := copyAt_of_le (by omega)
    obtain ⟨dst', hdst'⟩ : ∃ dst', copyAt pkt 24 16 = .ok dst' := copyAt_of_le (by omega)
    refine ⟨.ipv6 src' dst' ident, rfl, ?_⟩
    simp only [reasmParsePacket, hfirst', if_neg hnot, if_pos hv, hplen', hunsigned, ge_iff_le,
      Nat.le_refl, if_true, hparse, hsrc', hdst', bind, Except.bind, pure, Except.pure]

end Parse

end Nmsg

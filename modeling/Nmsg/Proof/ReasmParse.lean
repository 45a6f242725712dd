import Nmsg.Ipreasm.Base
import Nmsg.Proof.PacketBounds

/-!
# Parsing any packet

A packet that is not shorter than its fixed header is parsed without a read outside it. What a
fragment keeps of its packet ends with the packet, unless the header of an IPv4 packet says that it
is longer than the packet.
-/

namespace Nmsg

/-- The packet is not shorter than the fixed header of its version. -/
structure HasFixedHeader (packet : Bytes) : Prop where
  first : packet ≠ []
  ipv4 : ∀ first, octetAt packet 0 = .ok first → ipV first = 4 → iphdrLen ≤ packet.length
  ipv6 : ∀ first, octetAt packet 0 = .ok first → ipV first = 6 → ip6hdrLen ≤ packet.length

/-- The header of an IPv4 fragment is not longer than the packet, and an IPv6 fragment that is first
and last has octets. -/
structure SoundPacket (packet : Bytes) : Prop where
  ipv4 : ∀ first ipLen off, octetAt packet 0 = .ok first → ipV first = 4 →
    loadNet16 packet 2 = .ok ipLen → ipLen ≤ packet.length →
    loadNet16 packet 6 = .ok off → (ipMf off ∨ ipOffmask off ≠ 0) → 4 * ipHl first ≤ ipLen
  ipv6 : ∀ first nxt plen offset lastNxt offlg, octetAt packet 0 = .ok first → ipV first = 6 →
    octetAt packet 6 = .ok nxt → loadNet16 packet 4 = .ok plen →
    fragHeader packet ((plen + 40) % 65536) ((plen + 40) % 65536 + 1) nxt 6 ip6hdrLen =
      .ok (some (offset, lastNxt)) →
    offset + 8 = (plen + 40) % 65536 → loadNet16 packet (offset + 2) = .ok offlg →
    ip6fOff offlg = 0 → ip6fMoreFrag offlg = true

/-- What a fragment keeps of its packet. -/
structure KeptFrag (id : ReasmId) (frag : BaseFrag) : Prop where
  payload : frag.dataOffset + frag.len = frag.data.length
  size : frag.data.length < 65536
  place : frag.offset < 65536
  ipv4 : ∀ ipSrc ipDst ipId ipProto, id = .ipv4 ipSrc ipDst ipId ipProto →
    ∀ first, frag.data.head? = some first → frag.dataOffset = 4 * ipHl first
  ipv6 : ∀ ipSrc ipDst ipId, id = .ipv6 ipSrc ipDst ipId →
    48 ≤ frag.dataOffset ∧ frag.lastNxt + 8 < frag.dataOffset

/-- A fragment that is first and last has octets. -/
def ParsedFrag.NotEmpty (p : ParsedFrag BaseFrag) : Prop :=
  p.frag.len = 0 → p.frag.offset = 0 → p.lastFrag = false

/-- The program does not fail. -/
def NoFault : Abort → Prop := fun _ => False

section Parse

variable {packet : Bytes} {i n : Nat}

theorem octetAt_within (h : i < packet.length) :
    Outcome NoFault (fun b => octetAt packet i = .ok b) (octetAt packet i) := by
  obtain ⟨b, hb⟩ := octetAt_ok h
  rw [hb]
  exact rfl

theorem loadNet16_lt (h : loadNet16 packet i = .ok n) : n < 65536 :=
  (loadNet16_outcome packet i).of_ok h

theorem loadNet16_within (h : i + 2 ≤ packet.length) :
    Outcome NoFault (fun n => loadNet16 packet i = .ok n ∧ n < 65536) (loadNet16 packet i) := by
  obtain ⟨n, hn⟩ := loadNet16_ok h
  rw [hn]
  exact ⟨rfl, loadNet16_lt hn⟩

theorem loadNet32_within (h : i + 4 ≤ packet.length) :
    Outcome NoFault (fun _ => True) (loadNet32 packet i) := by
  simp only [loadNet32, Memory.read_of_le h]
  trivial

theorem copyAt_within (h : i + n ≤ packet.length) :
    Outcome NoFault (fun b => b = (packet.drop i).take n) (copyAt packet i n) := by
  simp only [copyAt, Memory.read_of_le h]
  exact rfl

/-- The walk over the headers in front of the Fragment header stays in the packet. -/
theorem fragHeader_within (totalLen : Nat) (htotal : totalLen ≤ packet.length) :
    ∀ (fuel : Nat) (nxt : UInt8) (lastNxt offset : Nat), 0 < fuel → totalLen < fuel + offset →
      40 ≤ offset → lastNxt < offset →
      Outcome NoFault (fun r => ∀ o l, r = some (o, l) → 40 ≤ o ∧ l < o)
        (fragHeader packet totalLen fuel nxt lastNxt offset) := by
  intro fuel
  induction fuel with
  | zero =>
      intro nxt lastNxt offset hpos
      exact absurd hpos (Nat.lt_irrefl 0)
  | succ fuel ih =>
      intro nxt lastNxt offset _ hfuel hstart hlast
      rw [fragHeader]
      split
      case isFalse =>
        split
        · rintro o l ⟨⟩
          exact ⟨hstart, hlast⟩
        · rintro o l ⟨⟩
      case isTrue =>
        split
        case isTrue => rintro o l ⟨⟩
        case isFalse =>
          refine (octetAt_within (by omega)).bind fun length _ => ?_
          dsimp only
          split
          case isTrue => rintro o l ⟨⟩
          case isFalse =>
            refine (octetAt_within (by omega)).bind fun nxt _ => ?_
            exact ih _ _ _ (by omega) (by omega) (by omega) (by omega)

theorem octetAt_zero {first : UInt8} (h : packet.head? = some first) :
    octetAt packet 0 = .ok first := by
  rw [octetAt_eq_ok, ← List.head?_eq_getElem?, h]

theorem head?_of_take {first : UInt8} (h : (packet.take n).head? = some first) :
    packet.head? = some first := by
  cases packet with
  | nil => simp at h
  | cons b rest =>
      cases n with
      | zero => cases h
      | succ n => exact h

/-- What is read of an IPv4 fragment, with the fields it is read from. -/
theorem parseIpv4Fragment_within (h : iphdrLen ≤ packet.length) {len : Nat}
    (hlen : len ≤ packet.length) :
    Outcome NoFault (fun r => ∀ f, r = some f → ∃ off ipLen first src dst ident proto,
        loadNet16 packet 6 = .ok off ∧ loadNet16 packet 2 = .ok ipLen ∧ ipLen ≤ packet.length ∧
        octetAt packet 0 = .ok first ∧ (ipMf off ∨ ipOffmask off ≠ 0) ∧ ipLen < 65536 ∧
        f = ⟨subUnsigned ipLen (4 * ipHl first), ipOffmask off * 8, 4 * ipHl first,
          packet.take ipLen, !ipMf off, .ipv4 src dst ident proto⟩)
      (parseIpv4Fragment packet len) := by
  have hsize : 20 ≤ packet.length := h
  unfold parseIpv4Fragment
  refine (loadNet16_within (by omega)).bind fun off hoff => ?_
  refine (loadNet16_within (by omega)).bind fun ipLen hipLen => ?_
  split
  case isFalse => rintro f ⟨⟩
  case isTrue hfragment =>
    refine (octetAt_within (by omega)).bind fun first hfirst => ?_
    refine (copyAt_within (by omega)).bind fun data hdata => ?_
    refine (copyAt_within (by omega)).bind fun src _ => ?_
    refine (copyAt_within (by omega)).bind fun dst _ => ?_
    refine (loadNet16_within (by omega)).bind fun ident _ => ?_
    refine (octetAt_within (by omega)).bind fun proto _ => ?_
    rintro f ⟨⟩
    have hsize := hfragment.1
    exact ⟨off, ipLen, first, src, dst, ident, proto, hoff.1, hipLen.1, by omega, hfirst,
      hfragment.2, hipLen.2, by rw [hdata, List.drop_zero]⟩

/-- What is read of an IPv6 fragment. -/
theorem baseFragFromIpv6_within {plen : Nat} (hplen : loadNet16 packet 4 = .ok plen)
    (hsize : plen + 40 ≤ packet.length) (ts : Timespec) :
    Outcome NoFault (fun r => ∀ frag ident lastFrag, r = some (frag, ident, lastFrag) →
        ∃ nxt offset lastNxt offlg, octetAt packet 6 = .ok nxt ∧
          fragHeader packet ((plen + 40) % 65536) ((plen + 40) % 65536 + 1) nxt 6 ip6hdrLen =
            .ok (some (offset, lastNxt)) ∧
          40 ≤ offset ∧ lastNxt < offset ∧ offset + 8 ≤ (plen + 40) % 65536 ∧
          loadNet16 packet (offset + 2) = .ok offlg ∧ offlg < 65536 ∧
          frag.len = (plen + 40) % 65536 - (offset + 8) ∧ frag.offset = ip6fOff offlg ∧
          frag.dataOffset = offset + 8 ∧ frag.lastNxt = lastNxt ∧
          frag.data = packet.take ((plen + 40) % 65536) ∧ lastFrag = !ip6fMoreFrag offlg)
      (baseFragFromIpv6 packet ts) := by
  unfold baseFragFromIpv6
  refine (octetAt_within (by omega)).bind fun nxt hnxt => ?_
  rw [hplen]
  change Outcome _ _ (fragHeader packet ((plen + 40) % 65536) ((plen + 40) % 65536 + 1) nxt 6
    ip6hdrLen >>= _)
  have hle : (plen + 40) % 65536 ≤ packet.length := by omega
  have hwalk := fragHeader_within ((plen + 40) % 65536) hle ((plen + 40) % 65536 + 1) nxt 6
    ip6hdrLen (by omega) (by omega) (by decide) (by decide)
  cases hheader : fragHeader packet ((plen + 40) % 65536) ((plen + 40) % 65536 + 1) nxt 6
      ip6hdrLen with
  | error e => exact hwalk.of_error hheader
  | ok header =>
      match header with
      | none => rintro frag ident lastFrag ⟨⟩
      | some (offset, lastNxt) =>
          obtain ⟨hstart, hlast⟩ := hwalk.of_ok hheader offset lastNxt rfl
          change Outcome _ _ (if _ then _ else _)
          split
          case isTrue => rintro frag ident lastFrag ⟨⟩
          case isFalse hfits =>
            refine (octetAt_within (by omega)).bind fun ip6fNxt _ => ?_
            refine (loadNet16_within (by omega)).bind fun offlg hofflg => ?_
            refine (loadNet32_within (by omega)).bind fun ident _ => ?_
            refine (copyAt_within (by omega)).bind fun data hdata => ?_
            rintro frag ident lastFrag ⟨⟩
            exact ⟨nxt, offset, lastNxt, offlg, hnxt, hheader, hstart, hlast, by omega, hofflg.1,
              hofflg.2, rfl, rfl, rfl, rfl, by rw [hdata, List.drop_zero], rfl⟩

/-- A packet is parsed without a read outside it. A fragment whose header is not longer than what is
kept of the packet is kept whole, and one of a sound packet is. -/
theorem reasmParsePacket_kept (h : HasFixedHeader packet) {len : Nat} (hcount : len ≤ packet.length)
    (ts : Timespec) :
    Outcome NoFault
      (fun r => ∀ p, r = some p → p.frag.offset < 65536 ∧
        (p.frag.dataOffset ≤ p.frag.data.length → KeptFrag p.id p.frag) ∧
          (SoundPacket packet → p.frag.dataOffset ≤ p.frag.data.length ∧ p.NotEmpty))
      (reasmParsePacket packet len ts) := by
  unfold reasmParsePacket
  refine (octetAt_within (List.length_pos_iff.mpr h.first)).bind fun first hfirst => ?_
  split
  case isTrue hv =>
    refine (parseIpv4Fragment_within (h.ipv4 first hfirst hv) hcount).bind fun f hf => ?_
    cases f with
    | none => rintro p ⟨⟩
    | some f =>
        obtain ⟨off, ipLen, first', src, dst, ident, proto, hoff, hipLen, hsize, hfirst', hfragment,
          hlt, rfl⟩ := hf f rfl
        rintro p ⟨⟩
        rw [hfirst] at hfirst'
        cases hfirst'
        have hlen : (packet.take ipLen).length = ipLen := by rw [List.length_take, min_eq_left hsize]
        have hplace : ipOffmask off * 8 < 65536 := by
          change off % 0x2000 * 8 < 65536
          omega
        refine ⟨hplace, fun hfits => ?_, fun hsound => ⟨?_, ?_⟩⟩
        · dsimp only at hfits ⊢
          rw [hlen] at hfits
          refine ⟨?_, by rwa [hlen], hplace, ?_, nofun⟩
          · rw [hlen]
            dsimp only
            rw [subUnsigned_of_le hfits (by omega)]
            omega
          · intro _ _ _ _ _ first' hhead
            rw [octetAt_zero (head?_of_take hhead)] at hfirst
            cases hfirst
            rfl
        · dsimp only
          rw [hlen]
          exact hsound.ipv4 first ipLen off hfirst hv hipLen hsize hoff hfragment
        · intro _ hoffset
          have hzero : ipOffmask off = 0 := by
            dsimp only at hoffset
            omega
          rcases hfragment with hmf | hne
          · exact congrArg not hmf
          · exact absurd hzero hne
  case isFalse =>
    split
    case isFalse => rintro p ⟨⟩
    case isTrue hv =>
      have hheader : 40 ≤ packet.length := h.ipv6 first hfirst hv
      refine (loadNet16_within (by omega)).bind fun plen hplen => ?_
      split
      case isFalse => rintro p ⟨⟩
      case isTrue hsize =>
        refine (baseFragFromIpv6_within hplen.1 (Nat.le_trans hsize hcount) ts).bind fun f hf => ?_
        match f with
        | none => rintro p ⟨⟩
        | some (frag, ident, lastFrag) =>
            refine (copyAt_within (by omega)).bind fun src _ => ?_
            refine (copyAt_within (by omega)).bind fun dst _ => ?_
            rintro p ⟨⟩
            obtain ⟨nxt, offset, lastNxt, offlg, hnxt, hwalk, hstart, hlast, hfits, hofflg, hlt, hl,
              hoff, hdata, hannounced, hcopy, hmore⟩ := hf frag ident lastFrag rfl
            have hlen : frag.data.length = (plen + 40) % 65536 := by
              rw [hcopy, List.length_take]
              omega
            have hplace : frag.offset < 65536 := by
              rw [hoff, ip6fOff]
              omega
            have hkept : KeptFrag (.ipv6 src dst ident) frag :=
              ⟨by omega, by omega, hplace, nofun, fun _ _ _ _ => ⟨by omega, by omega⟩⟩
            refine ⟨hplace, fun _ => hkept, fun hsound => ⟨?_, fun hempty hzero => ?_⟩⟩
            · dsimp only
              omega
            · dsimp only at hempty hzero ⊢
              rw [hmore, hsound.ipv6 first nxt plen offset lastNxt offlg hfirst hv hnxt hplen.1 hwalk
                (by omega) hofflg (hoff ▸ hzero)]
              rfl

/-- **A packet is parsed.** No read is outside it, and what a fragment of a sound packet keeps of it
ends with it. -/
theorem reasmParsePacket_within (h : HasFixedHeader packet) (ts : Timespec) :
    Outcome NoFault
      (fun r => ∀ p, r = some p → SoundPacket packet → KeptFrag p.id p.frag ∧ p.NotEmpty)
      (reasmParsePacket packet packet.length ts) := by
  refine (reasmParsePacket_kept h (Nat.le_refl _) ts).imp fun r hr p hp hsound => ?_
  obtain ⟨-, hkept, hpacket⟩ := hr p hp
  exact ⟨hkept (hpacket hsound).1, (hpacket hsound).2⟩

/-- What it takes to be read as an IPv4 fragment. -/
theorem parseIpv4Fragment_ok {len : Nat} {f : Ipv4Fragment}
    (h : parseIpv4Fragment packet len = .ok (some f)) :
    ∃ off ipLen first data src dst ident proto,
      loadNet16 packet 6 = .ok off ∧ loadNet16 packet 2 = .ok ipLen ∧
      (ipMf off ∨ ipOffmask off ≠ 0) ∧ octetAt packet 0 = .ok first ∧
      copyAt packet 0 ipLen = .ok data ∧ copyAt packet 16 4 = .ok dst ∧
      loadNet16 packet 4 = .ok ident ∧ octetAt packet 9 = .ok proto ∧
      f = ⟨subUnsigned ipLen (4 * ipHl first), ipOffmask off * 8, 4 * ipHl first, data, !ipMf off,
        .ipv4 src dst ident proto⟩ := by
  unfold parseIpv4Fragment at h
  obtain ⟨off, hoff, h⟩ := Outcome.bind_eq_ok.mp h
  obtain ⟨ipLen, hipLen, h⟩ := Outcome.bind_eq_ok.mp h
  split at h
  case isFalse => cases h
  case isTrue hfragment =>
    obtain ⟨first, hfirst, h⟩ := Outcome.bind_eq_ok.mp h
    obtain ⟨data, hdata, h⟩ := Outcome.bind_eq_ok.mp h
    obtain ⟨src, -, h⟩ := Outcome.bind_eq_ok.mp h
    obtain ⟨dst, hdst, h⟩ := Outcome.bind_eq_ok.mp h
    obtain ⟨ident, hident, h⟩ := Outcome.bind_eq_ok.mp h
    obtain ⟨proto, hproto, h⟩ := Outcome.bind_eq_ok.mp h
    cases h
    exact ⟨off, ipLen, first, data, src, dst, ident, proto, hoff, hipLen, hfragment.2, hfirst, hdata,
      hdst, hident, hproto, rfl⟩

/-- What it takes to be read as an IPv6 fragment. -/
theorem baseFragFromIpv6_ok {ts : Timespec} {frag : BaseFrag} {ident : Nat} {lastFrag : Bool}
    (h : baseFragFromIpv6 packet ts = .ok (some (frag, ident, lastFrag))) :
    ∃ nxt plen offset lastNxt ip6fNxt offlg data,
      octetAt packet 6 = .ok nxt ∧ loadNet16 packet 4 = .ok plen ∧
      fragHeader packet ((plen + 40) % 65536) ((plen + 40) % 65536 + 1) nxt 6 ip6hdrLen =
        .ok (some (offset, lastNxt)) ∧
      offset + 8 ≤ (plen + 40) % 65536 ∧ octetAt packet offset = .ok ip6fNxt ∧
      loadNet16 packet (offset + 2) = .ok offlg ∧ loadNet32 packet (offset + 4) = .ok ident ∧
      copyAt packet 0 ((plen + 40) % 65536) = .ok data ∧ lastFrag = !ip6fMoreFrag offlg ∧
      frag = ⟨ts, (plen + 40) % 65536 - (offset + 8), ip6fOff offlg, offset + 8, lastNxt, ip6fNxt,
        data⟩ := by
  unfold baseFragFromIpv6 at h
  obtain ⟨nxt, hnxt, h⟩ := Outcome.bind_eq_ok.mp h
  obtain ⟨plen, hplen, h⟩ := Outcome.bind_eq_ok.mp h
  dsimp only at h
  obtain ⟨header, hheader, h⟩ := Outcome.bind_eq_ok.mp h
  match header with
  | none => cases h
  | some (offset, lastNxt) =>
      dsimp only at h
      split at h
      case isTrue => cases h
      case isFalse hfits =>
        obtain ⟨ip6fNxt, hip6fNxt, h⟩ := Outcome.bind_eq_ok.mp h
        obtain ⟨offlg, hofflg, h⟩ := Outcome.bind_eq_ok.mp h
        obtain ⟨ident', hident, h⟩ := Outcome.bind_eq_ok.mp h
        obtain ⟨data, hdata, h⟩ := Outcome.bind_eq_ok.mp h
        cases h
        exact ⟨nxt, plen, offset, lastNxt, ip6fNxt, offlg, data, hnxt, hplen, hheader,
          Nat.le_of_not_lt hfits, hip6fNxt, hofflg, hident, hdata, rfl, rfl⟩

/-- A packet that is read as a fragment is of IPv4 or of IPv6. -/
theorem reasmParsePacket_ok {len : Nat} {ts : Timespec} {p : ParsedFrag BaseFrag}
    (h : reasmParsePacket packet len ts = .ok (some p)) :
    ∃ first, octetAt packet 0 = .ok first ∧
      ((ipV first = 4 ∧ ∃ f, parseIpv4Fragment packet len = .ok (some f) ∧
          p = ⟨⟨ts, f.len, f.offset, f.dataOffset, 0, 0, f.data⟩, f.id, f.lastFrag⟩) ∨
        (ipV first = 6 ∧ ∃ plen frag ident lastFrag src dst, loadNet16 packet 4 = .ok plen ∧
          baseFragFromIpv6 packet ts = .ok (some (frag, ident, lastFrag)) ∧
          copyAt packet 24 16 = .ok dst ∧ p = ⟨frag, .ipv6 src dst ident, lastFrag⟩)) := by
  unfold reasmParsePacket at h
  obtain ⟨first, hfirst, h⟩ := Outcome.bind_eq_ok.mp h
  refine ⟨first, hfirst, ?_⟩
  split at h
  case isTrue hv =>
    obtain ⟨f, hf, h⟩ := Outcome.bind_eq_ok.mp h
    cases f with
    | none => cases h
    | some f =>
        cases h
        exact Or.inl ⟨hv, f, hf, rfl⟩
  case isFalse =>
    split at h
    case isFalse => cases h
    case isTrue hv =>
      obtain ⟨plen, hplen, h⟩ := Outcome.bind_eq_ok.mp h
      split at h
      case isFalse => cases h
      case isTrue =>
        obtain ⟨f, hf, h⟩ := Outcome.bind_eq_ok.mp h
        match f with
        | none => cases h
        | some (frag, ident, last) =>
            obtain ⟨src, -, h⟩ := Outcome.bind_eq_ok.mp h
            obtain ⟨dst, hdst, h⟩ := Outcome.bind_eq_ok.mp h
            cases h
            exact Or.inr ⟨hv, plen, frag, ident, last, src, dst, hplen, hf, hdst, rfl⟩

/-- A packet that is read as a fragment has its fixed header. -/
theorem hasFixedHeader_of_parse {len : Nat} {ts : Timespec} {p : ParsedFrag BaseFrag}
    (h : reasmParsePacket packet len ts = .ok (some p)) : HasFixedHeader packet := by
  obtain ⟨first, hfirst, h⟩ := reasmParsePacket_ok h
  have hne : packet ≠ [] := List.ne_nil_of_length_pos (octetAt_lt hfirst)
  rcases h with ⟨hfour, f, hf, -⟩ | ⟨hsix, -, -, -, -, -, dst, -, -, hdst, -⟩
  · obtain ⟨_, _, _, _, _, _, _, _, -, -, -, -, -, hdst, -⟩ := parseIpv4Fragment_ok hf
    refine ⟨hne, fun _ _ _ => copyAt_le hdst, fun first' hfirst' hsix => ?_⟩
    rw [hfirst] at hfirst'
    cases hfirst'
    omega
  · refine ⟨hne, fun first' hfirst' hfour => ?_, fun _ _ _ => copyAt_le hdst⟩
    rw [hfirst] at hfirst'
    cases hfirst'
    omega

end Parse

end Nmsg

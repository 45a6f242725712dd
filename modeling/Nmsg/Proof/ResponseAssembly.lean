import Nmsg.Proof.ResponseFrags

/-!
# The datagram of a received message

The fragments of a received message are put together in a buffer of 65536 octets. The header that
goes in front is the one of the first fragment, whatever datagram that one says it is of, and the
protocol is the one of the last packet.
-/

namespace Nmsg

open ReasmFrag Tiling

/-! ### Joining fragments -/

section Join

variable {buf out : Bytes} {offset0 : Nat}

/-- **Fragments are joined** just when each lies in its packet and has its place in the buffer. -/
theorem joinFragments_ok_iff {frags : List BaseFrag} : ∀ {buf : Bytes},
    (∃ out, joinFragments buf offset0 frags = .ok out) ↔
      ∀ f ∈ frags, f.dataOffset + f.len ≤ f.data.length ∧ offset0 + fragEnd f ≤ buf.length := by
  induction frags with
  | nil =>
      intro buf
      refine ⟨?_, fun _ => ⟨buf, rfl⟩⟩
      rintro - f ⟨⟩
  | cons f rest ih =>
      intro buf
      have hend : fragEnd f = f.offset + f.len := rfl
      rw [List.forall_mem_cons, joinFragments]
      constructor
      · rintro ⟨out, h⟩
        obtain ⟨src, hsrc, h⟩ := Outcome.bind_eq_ok.mp h
        obtain ⟨buf', hbuf', h⟩ := Outcome.bind_eq_ok.mp h
        obtain ⟨hlen, hroom⟩ := length_of_writeAt hbuf'
        have hsize : src.length = f.len := (copyAt_outcome _ _ _).of_ok hsrc
        have hplace : offset0 + f.offset + src.length ≤ buf.length := hroom
        refine ⟨⟨copyAt_le hsrc, by omega⟩, ?_⟩
        rw [← hlen]
        exact ih.mp ⟨out, h⟩
      · rintro ⟨⟨hwithin, hroom⟩, hrest⟩
        obtain ⟨src, hsrc⟩ := copyAt_of_le hwithin
        have hsize : src.length = f.len := (copyAt_outcome _ _ _).of_ok hsrc
        obtain ⟨buf', hbuf', hwrite⟩ := (writeAt_within
          (show offset0 + f.offset + src.length ≤ buf.length by omega)).returns
        rw [← Memory.length_of_write hwrite] at hrest
        obtain ⟨out, hout⟩ := ih.mpr hrest
        exact ⟨out, Outcome.bind_eq_ok.mpr ⟨src, hsrc, Outcome.bind_eq_ok.mpr ⟨buf', hbuf', hout⟩⟩⟩

/-- Without a header the first octet put out is the first of a packet, or is not written. -/
theorem joinFragments_headless {first : BaseFrag} {rest : List BaseFrag} {top : Nat}
    (hapart : Apart offset fragEnd 0 (first :: rest) top) (hzero : first.dataOffset = 0)
    (h : joinFragments buf 0 (first :: rest) = .ok out) :
    out[0]? = first.data[0]? ∨ out[0]? = buf[0]? := by
  obtain ⟨-, hlt, hrest⟩ := hapart
  rw [joinFragments] at h
  obtain ⟨src, hsrc, h⟩ := Outcome.bind_eq_ok.mp h
  obtain ⟨buf', hbuf', h⟩ := Outcome.bind_eq_ok.mp h
  have hkeep : out[0]? = buf'[0]? := joinFragments_front h fun f hf => by
    have hle : fragEnd first ≤ f.offset := (hrest.mem hf).1
    omega
  have hcopy : copyAt first.data 0 first.len = .ok src := by
    rw [← hzero]
    exact hsrc
  have hplace : writeAt buf first.offset src = .ok buf' := by
    rw [← Nat.zero_add first.offset]
    exact hbuf'
  rw [hkeep]
  by_cases hstart : first.offset = 0
  · rw [hstart] at hplace
    have hend : fragEnd first = first.offset + first.len := rfl
    have hsize : src.length = first.len := (copyAt_outcome _ _ _).of_ok hcopy
    refine Or.inl ?_
    rw [Memory.getElem?_of_write (writeAt_eq_ok.mp hplace), if_pos (by omega),
      (copyAt_eq_take hcopy).1, List.getElem?_take_of_lt (by omega)]
  · exact Or.inr (getElem?_of_writeAt hplace (Or.inl (Nat.pos_of_ne_zero hstart)))

end Join

/-! ### Putting the datagram together -/

/-- The header of an IPv4 datagram can be read again. That of an IPv4 packet is never longer than the
datagram; the first octets of an IPv6 packet say what they happen to. -/
structure FirstHeaderFits (first : BaseFrag) (total : Nat) : Prop where
  fixed : 10 ≤ total
  ipv6 : first.isIpv6 = true → octetAt first.data 9 = .ok ipprotoUdp →
    ∀ octet, octetAt first.data 0 = .ok octet → 4 * ipHl octet ≤ total

/-- The datagram of an entry is put together in the buffer and read again within it. -/
structure AssemblyFits (e : ReasmIpEntry BaseFrag) (first : BaseFrag) : Prop where
  within : FragsWithin e
  placed : ∀ f ∈ e.frags, headerLen e.id first.dataOffset + fragEnd f ≤ ipszMax
  total : assembledLen e ≤ ipszMax
  ipv4 : e.id.protoNetwork = .inet → FirstHeaderFits first (assembledLen e)
  ipv6 : e.id.protoNetwork = .inet6 → first.isIpv6 = true

section Assembly

variable {host : ByteOrder} {e : ReasmIpEntry BaseFrag} {first : BaseFrag} {rest : List BaseFrag}
  {buf out b : Bytes} {total : Nat}

/-- The fragment fields of an IPv4 datagram are cleared. -/
theorem finishIpv4_whole (h : finishIpv4 buf total = .ok out) : loadNet16 out 6 = .ok 0 := by
  unfold finishIpv4 at h
  obtain ⟨octet, -, h⟩ := Outcome.bind_eq_ok.mp h
  obtain ⟨b₁, -, h⟩ := Outcome.bind_eq_ok.mp h
  obtain ⟨b₂, h₂, h⟩ := Outcome.bind_eq_ok.mp h
  obtain ⟨b₃, h₃, h⟩ := Outcome.bind_eq_ok.mp h
  obtain ⟨sum, -, h⟩ := Outcome.bind_eq_ok.mp h
  refine loadNet16_eq_ok.mpr ⟨[0, 0], ?_, rfl⟩
  rw [Memory.read_of_write_ne (writeAt_eq_ok.mp h) (Or.inl (by omega)),
    Memory.read_of_write_ne (writeAt_eq_ok.mp h₃) (Or.inl (by omega))]
  exact Memory.read_of_write (writeAt_eq_ok.mp h₂)

theorem TakenEntry.ipv6_first (h : TakenEntry e) (hfrags : e.frags = first :: rest)
    (hsix : first.isIpv6 = true) : 48 ≤ first.dataOffset ∧ first.lastNxt + 8 < first.dataOffset := by
  obtain ⟨id, hkept, hiff⟩ := h.frags first (hfrags ▸ List.mem_cons_self ..)
  have hid := hiff.mp hsix
  cases id with
  | ipv4 => cases hid
  | ipv6 src dst ident => exact hkept.ipv6 _ _ _ rfl

theorem TakenEntry.ipv4_first (h : TakenEntry e) (hfrags : e.frags = first :: rest)
    (hfour : first.isIpv6 = false) {octet : UInt8} (hoctet : first.data[0]? = some octet) :
    first.dataOffset = 4 * ipHl octet := by
  obtain ⟨id, hkept, hiff⟩ := h.frags first (hfrags ▸ List.mem_cons_self ..)
  cases id with
  | ipv4 src dst ident proto =>
      exact hkept.ipv4 _ _ _ _ rfl octet (by rw [List.head?_eq_getElem?, hoctet])
  | ipv6 =>
      rw [hiff.mpr rfl] at hfour
      cases hfour

/-- The header put in front of the payloads of IPv4 is as long as its first octet says. -/
theorem TakenEntry.header_octet (h : TakenEntry e) (hfrags : e.frags = first :: rest)
    (hid : e.id.protoNetwork = .inet) (hfour : first.isIpv6 = false)
    (hfill : fillPacket e first total (List.replicate ipszMax 0) = .ok b) {octet : UInt8}
    (hoctet : b[0]? = some octet) : 4 * ipHl octet = first.dataOffset := by
  by_cases hpos : 0 < first.dataOffset
  · rw [fillPacket_header hid hfill hpos (Or.inl (by decide))] at hoctet
    exact (h.ipv4_first hfrags hfour hoctet).symm
  · have hzero : first.dataOffset = 0 := Nat.eq_zero_of_not_pos hpos
    obtain ⟨header, b₁, b₂, hheader, h₁, h₂, hfinish⟩ := fillPacket_inet hid hfill
    rw [finishIpv4_keeps hfinish (Or.inl (by decide))] at hoctet
    rw [hzero] at hheader h₂
    rw [hfrags] at h₂
    have happart := h.apart
    rw [hfrags] at happart
    rcases joinFragments_headless happart hzero h₂ with hfirst | hbuf
    · rw [hfirst] at hoctet
      exact (h.ipv4_first hfrags hfour hoctet).symm
    · -- nothing has been written there
      have hlen : header.length = 0 := (copyAt_outcome _ _ _).of_ok hheader
      rw [hbuf, getElem?_of_writeAt h₁ (Or.inr (by omega))] at hoctet
      cases hoctet
      rw [hzero]
      decide

/-- **Reading again.** The header of an IPv4 datagram that has been put together is read within the
datagram just when it fits. -/
theorem ipv4Readable_assembled (h : TakenEntry e) (hfrags : e.frags = first :: rest)
    (hid : e.id.protoNetwork = .inet) (hle : assembledLen e ≤ ipszMax)
    (hfill : fillPacket e first (assembledLen e) (List.replicate ipszMax 0) = .ok b) :
    Ipv4Readable (b.take (assembledLen e)) ↔ FirstHeaderFits first (assembledLen e) := by
  have htotal := assembledLen_eq hfrags
  rw [headerLen_inet hid] at htotal
  have hblen : b.length = ipszMax := by
    rw [(fillPacket_length hfill).1, List.length_replicate]
  have hlen : (b.take (assembledLen e)).length = assembledLen e := by
    rw [List.length_take, Nat.min_eq_left (by omega)]
  generalize assembledLen e = total at *
  cases hversion : first.isIpv6 with
  | true =>
      obtain ⟨hstart, -⟩ := h.ipv6_first hfrags hversion
      have hoctet : ∀ k < 10, k < 2 ∨ 8 ≤ k → octetAt (b.take total) k = octetAt first.data k := by
        intro k hk hplain
        apply octetAt_congr
        rw [List.getElem?_take_of_lt (by omega),
          fillPacket_header hid hfill (by omega) (by omega)]
      have hwhole : loadNet16 (b.take total) 6 = .ok 0 := by
        obtain ⟨n, hn⟩ := loadNet16_ok (show 6 + 2 ≤ (b.take total).length by omega)
        have hsame := loadNet16_extends (b.take total) (b.drop total) 6 n hn
        obtain ⟨_, _, _, -, -, -, hfinish⟩ := fillPacket_inet hid hfill
        rw [List.take_append_drop, finishIpv4_whole hfinish] at hsame
        rw [hn, ← hsame]
      constructor
      · rintro ⟨hfixed, hheader⟩
        refine ⟨hlen ▸ hfixed, fun _ hudp octet hfirst => hlen ▸ ?_⟩
        exact hheader octet 0 ((hoctet 0 (by decide) (by decide)).trans hfirst) hwhole
          ((hoctet 9 (by decide) (by decide)).trans hudp) rfl rfl
      · rintro ⟨hfixed, hsix⟩
        refine ⟨by omega, fun octet ipOff hfirst _ hudp _ _ => ?_⟩
        rw [hlen]
        exact hsix hversion ((hoctet 9 (by decide) (by decide)).symm.trans hudp) octet
          ((hoctet 0 (by decide) (by decide)).symm.trans hfirst)
  | false =>
      constructor
      · rintro ⟨hfixed, -⟩
        refine ⟨hlen ▸ hfixed, fun hsix => ?_⟩
        rw [hversion] at hsix
        cases hsix
      · rintro ⟨hfixed, -⟩
        refine ⟨by omega, fun octet ipOff hfirst _ _ _ _ => ?_⟩
        have hget := octetAt_eq_ok.mp hfirst
        rw [List.getElem?_take_of_lt (by omega)] at hget
        have := h.header_octet hfrags hid hversion hfill hget
        omega

theorem TakenEntry.first_len (h : TakenEntry e) (hfrags : e.frags = first :: rest) :
    first.dataOffset ≤ first.data.length ∧ first.data.length < 65536 := by
  obtain ⟨id, hkept, -⟩ := h.frags first (hfrags ▸ List.mem_cons_self ..)
  have hpayload := hkept.payload
  exact ⟨by omega, hkept.size⟩

theorem TakenEntry.headerLen_bounds (h : TakenEntry e) (hfrags : e.frags = first :: rest)
    (hversion : e.id.protoNetwork = .inet6 → first.isIpv6 = true) :
    headerLen e.id first.dataOffset ≤ first.dataOffset ∧
      (e.id.protoNetwork = .inet6 → 40 ≤ headerLen e.id first.dataOffset) := by
  generalize e.id = id at *
  cases id with
  | ipv4 => exact ⟨Nat.le_refl _, by rintro ⟨⟩⟩
  | ipv6 src dst ident =>
      obtain ⟨hstart, -⟩ := h.ipv6_first hfrags (hversion rfl)
      obtain ⟨hle, hsize⟩ := h.first_len hfrags
      have hlen : headerLen (.ipv6 src dst ident) first.dataOffset = first.dataOffset - 8 :=
        subUnsigned_of_le (by omega) (by omega)
      rw [hlen]
      exact ⟨Nat.sub_le _ _, fun _ => by omega⟩

theorem TakenEntry.assembledLen_lt (h : TakenEntry e) (hfrags : e.frags = first :: rest)
    (hversion : e.id.protoNetwork = .inet6 → first.isIpv6 = true) : assembledLen e < 4294967296 := by
  obtain ⟨hle, hsize⟩ := h.first_len hfrags
  have hheader := (h.headerLen_bounds hfrags hversion).1
  have hlen := h.len
  rw [assembledLen_eq hfrags]
  omega

theorem restoreNxt_ok {id : ReasmId} (h : id.protoNetwork = .inet6 → first.lastNxt < buf.length) :
    ∃ b, restoreNxt id first buf = .ok b := by
  cases id with
  | ipv4 => exact ⟨buf, rfl⟩
  | ipv6 =>
      have hroom : first.lastNxt + [first.ip6fNxt].length ≤ buf.length := h rfl
      obtain ⟨b, hb, -⟩ := (writeAt_within hroom).returns
      exact ⟨b, hb⟩

theorem finishHeader_ok (id : ReasmId) (total : Nat) (h : 60 ≤ buf.length) :
    ∃ b, finishHeader id buf total = .ok b := by
  cases id with
  | ipv4 =>
      have hroom : 12 ≤ buf.length := by omega
      obtain ⟨b, hb, -⟩ : ∃ b, finishIpv4 buf total = .ok b ∧ _ :=
        (finishIpv4_within hroom fun octet _ => (ipHl_le octet).trans h).returns
      exact ⟨b, hb⟩
  | ipv6 =>
      have hroom : 4 + (Octets.beBytes 2 (subUnsigned total 40)).length ≤ buf.length := by
        rw [Octets.length_beBytes]
        omega
      obtain ⟨b, hb, -⟩ := (writeAt_within hroom).returns
      exact ⟨b, hb⟩

/-- **The buffer is filled** just when every fragment lies in its packet and has its place. -/
theorem fillPacket_ok_iff (htaken : FragsWithin e → TakenEntry e) (hfrags : e.frags = first :: rest)
    (hversion : e.id.protoNetwork = .inet6 → first.isIpv6 = true) :
    (∃ b, fillPacket e first total (List.replicate ipszMax 0) = .ok b) ↔
      FragsWithin e ∧ ∀ f ∈ e.frags, headerLen e.id first.dataOffset + fragEnd f ≤ ipszMax := by
  have hmax : ipszMax = 65536 := rfl
  constructor
  · rintro ⟨b, h⟩
    unfold fillPacket at h
    obtain ⟨header, -, h⟩ := Outcome.bind_eq_ok.mp h
    obtain ⟨b₁, h₁, h⟩ := Outcome.bind_eq_ok.mp h
    obtain ⟨b₂, h₂, h⟩ := Outcome.bind_eq_ok.mp h
    obtain ⟨b₃, h₃, -⟩ := Outcome.bind_eq_ok.mp h
    have hjoin := joinFragments_ok_iff.mp ⟨b₃, h₃⟩
    have hlen : b₂.length = ipszMax := by
      rw [(restoreNxt_outcome e.id first b₁).of_ok h₂, (length_of_writeAt h₁).1,
        List.length_replicate]
    rw [hlen] at hjoin
    exact ⟨fun f hf => (hjoin f hf).1, fun f hf => (hjoin f hf).2⟩
  · rintro ⟨hwithin, hplaced⟩
    have h := htaken hwithin
    obtain ⟨hle, hsize⟩ := h.first_len hfrags
    have hheader := (h.headerLen_bounds hfrags hversion).1
    obtain ⟨header, hcopy⟩ := copyAt_of_le
      (show 0 + headerLen e.id first.dataOffset ≤ first.data.length by omega)
    have hhlen : header.length = headerLen e.id first.dataOffset :=
      (copyAt_outcome _ _ _).of_ok hcopy
    have hroom : 0 + header.length ≤ (List.replicate ipszMax (0 : UInt8)).length := by
      rw [List.length_replicate]
      omega
    obtain ⟨b₁, h₁, -⟩ := (writeAt_within hroom).returns
    have hlen₁ : b₁.length = ipszMax := by
      rw [(length_of_writeAt h₁).1, List.length_replicate]
    obtain ⟨b₂, h₂⟩ : ∃ b, restoreNxt e.id first b₁ = .ok b := restoreNxt_ok fun hid => by
      have := (h.ipv6_first hfrags (hversion hid)).2
      omega
    have hlen₂ : b₂.length = ipszMax := ((restoreNxt_outcome e.id first b₁).of_ok h₂).trans hlen₁
    obtain ⟨b₃, h₃⟩ := joinFragments_ok_iff.mpr fun f hf =>
      ⟨hwithin f hf, (hplaced f hf).trans (Nat.le_of_eq hlen₂.symm)⟩
    have hlen₃ : b₃.length = ipszMax := ((joinFragments_outcome _ _ _).of_ok h₃).trans hlen₂
    obtain ⟨b, hb⟩ := finishHeader_ok e.id total (show 60 ≤ b₃.length by omega)
    refine ⟨b, Outcome.bind_eq_ok.mpr ⟨header, hcopy, Outcome.bind_eq_ok.mpr ⟨b₁, h₁, ?_⟩⟩⟩
    exact Outcome.bind_eq_ok.mpr ⟨b₂, h₂, Outcome.bind_eq_ok.mpr ⟨b₃, h₃, hb⟩⟩

/-- A datagram is put together from the buffer. -/
theorem fillPacket_of_assemble (hfrags : e.frags = first :: rest) {n : Nat}
    (h : reasmAssemble e n = .ok out) (hne : out ≠ []) :
    ∃ total b, fillPacket e first total (List.replicate n 0) = .ok b := by
  unfold reasmAssemble at h
  rw [hfrags] at h
  dsimp only at h
  split at h
  · cases h
    exact absurd rfl hne
  · obtain ⟨header, hheader, h⟩ := Outcome.bind_eq_ok.mp h
    obtain ⟨b₁, h₁, h⟩ := Outcome.bind_eq_ok.mp h
    obtain ⟨b₂, h₂, h⟩ := Outcome.bind_eq_ok.mp h
    obtain ⟨b₃, h₃, h⟩ := Outcome.bind_eq_ok.mp h
    obtain ⟨b, hb, -⟩ := Outcome.bind_eq_ok.mp h
    rw [← hfrags] at h₃
    refine ⟨toUnsigned (e.len + headerLen e.id first.dataOffset), b,
      Outcome.bind_eq_ok.mpr ⟨header, hheader, Outcome.bind_eq_ok.mpr ⟨b₁, h₁, ?_⟩⟩⟩
    exact Outcome.bind_eq_ok.mpr ⟨b₂, h₂, Outcome.bind_eq_ok.mpr ⟨b₃, h₃, hb⟩⟩

theorem assembleResponse_eq_ok (hfrags : e.frags = first :: rest) (hne : out ≠ []) :
    assembleResponse e = .ok out ↔
      reasmAssemble e ipszMax = .ok out ∧ (e.id.protoNetwork = .inet6 → first.isIpv6 = true) := by
  unfold assembleResponse
  rw [Outcome.bind_eq_ok, hfrags]
  cases e.id with
  | ipv4 =>
      constructor
      · rintro ⟨pkt, hasm, ⟨⟩⟩
        exact ⟨hasm, by rintro ⟨⟩⟩
      · rintro ⟨hasm, -⟩
        exact ⟨out, hasm, rfl⟩
  | ipv6 =>
      constructor
      · rintro ⟨pkt, hasm, h⟩
        dsimp only at h
        split at h
        · cases h
        · next hread =>
            cases h
            exact ⟨hasm, fun _ => Bool.eq_true_of_not_eq_false fun hnot => hread ⟨hne, hnot⟩⟩
      · rintro ⟨hasm, hversion⟩
        refine ⟨out, hasm, if_neg ?_⟩
        rw [hversion rfl]
        exact fun hnot => absurd hnot.2 (by decide)

/-- **The datagram** is put together and read again within its octets just when it fits. -/
theorem assembleResponse_read_iff (htaken : FragsWithin e → TakenEntry e) :
    (∃ pkt answer, assembleResponse e = .ok pkt ∧ pkt ≠ [] ∧
        ipdgPayload host e.id.protoNetwork.etype pkt = .ok answer) ↔
      ∃ first, e.frags.head? = some first ∧ AssemblyFits e first := by
  have hmax : ipszMax = 65536 := rfl
  cases hfrags : e.frags with
  | nil =>
      refine ⟨?_, by rintro ⟨first, ⟨⟩, -⟩⟩
      rintro ⟨pkt, answer, hok, -⟩
      obtain ⟨_, hasm, -⟩ := Outcome.bind_eq_ok.mp hok
      rw [reasmAssemble, hfrags] at hasm
      cases hasm
  | cons first rest =>
      rw [List.head?_cons]
      constructor
      · rintro ⟨pkt, answer, hok, hne, hread⟩
        obtain ⟨hasm, hversion⟩ := (assembleResponse_eq_ok hfrags hne).mp hok
        obtain ⟨total, b, hfilled⟩ := fillPacket_of_assemble hfrags hasm hne
        obtain ⟨hwithin, hplaced⟩ := (fillPacket_ok_iff htaken hfrags hversion).mp ⟨b, hfilled⟩
        have h := htaken hwithin
        rw [reasmAssemble_eq hfrags (h.assembledLen_lt hfrags hversion)] at hasm
        split at hasm
        · cases hasm
          exact absurd rfl hne
        next hsize =>
        have hle := Nat.le_of_not_lt hsize
        refine ⟨first, rfl, hwithin, hplaced, hle, fun hid => ?_, hversion⟩
        cases hfill : fillPacket e first (assembledLen e) (List.replicate ipszMax 0) with
        | error err =>
            rw [hfill] at hasm
            cases hasm
        | ok b =>
            rw [hfill] at hasm
            cases hasm
            rw [hid] at hread
            exact (ipv4Readable_assembled h hfrags hid hle hfill).mp
              (ipdgPayload_ipv4_iff.mp ⟨answer, hread⟩)
      · rintro ⟨_, ⟨⟩, hfits⟩
        have h := htaken hfits.within
        have hheader := (h.headerLen_bounds hfrags hfits.ipv6).2
        obtain ⟨b, hfill⟩ : ∃ b, fillPacket e first (assembledLen e) (List.replicate ipszMax 0) =
            .ok b :=
          (fillPacket_ok_iff htaken hfrags hfits.ipv6).mpr ⟨hfits.within, hfits.placed⟩
        have hasm : reasmAssemble e ipszMax = .ok (b.take (assembledLen e)) := by
          rw [reasmAssemble_eq hfrags (h.assembledLen_lt hfrags hfits.ipv6),
            if_neg (Nat.not_lt.mpr hfits.total), hfill]
          rfl
        have hlen : (b.take (assembledLen e)).length = assembledLen e := by
          rw [List.length_take, (fillPacket_length hfill).1, List.length_replicate,
            Nat.min_eq_left hfits.total]
        have hread : 0 < assembledLen e ∧ ∃ answer,
            ipdgPayload host e.id.protoNetwork.etype (b.take (assembledLen e)) = .ok answer := by
          cases hid : e.id.protoNetwork with
          | inet =>
              have hfixed := (hfits.ipv4 hid).fixed
              exact ⟨by omega, ipdgPayload_ipv4_iff.mpr
                ((ipv4Readable_assembled h hfrags hid hfits.total hfill).mpr (hfits.ipv4 hid))⟩
          | inet6 =>
              have hstart := hheader hid
              have htotal := assembledLen_eq hfrags
              exact ⟨by omega, ipdgPayload_ipv6 host _⟩
        have hne : b.take (assembledLen e) ≠ [] :=
          List.ne_nil_of_length_pos (hread.1.trans_eq hlen.symm)
        obtain ⟨-, answer, hanswer⟩ := hread
        exact ⟨_, answer, (assembleResponse_eq_ok hfrags hne).mpr ⟨hasm, hfits.ipv6⟩, hne, hanswer⟩

end Assembly

end Nmsg

import Nmsg.Proof.ContainerSize
import Nmsg.Wire

/-!
# Containers decode to what was added

A serialized container is read back as the payloads that were added to it, each with a CRC that
matches, exactly when the length field can hold its length and it is not one of the containers
without a payload for which too little is allocated.
-/

namespace Nmsg

open Octets WireFormat

variable (pb : ProtobufC) (z : Zlib) (crc32c : Bytes → UInt32)

/-- What reading a serialized container gives: the payloads, and with them a CRC each, that
matches. `past` is whatever lies behind the container in memory. -/
def Decodes (c : Container) (payloads : List NmsgPayload) (doZlib : Bool) (sequence : UInt32)
    (sequenceId : UInt64) : Prop :=
  ∃ out c', containerSerialize pb z crc32c c true doZlib sequence sequenceId = .ok (out, c') ∧
    ∀ past,
      containerDeserialize pb z out.buf out.bufLen past =
          .ok (.success, payloads.map messageFromPayload) ∧
        ∃ nmsg,
          inputNmsgUnpackContainer2 pb z (out.buf.drop hdrlszV2) past
            (if doZlib then flagZlib else 0) = (.success, some nmsg) ∧
          nmsg.payloads = payloads ∧ nmsg.payloadCrcs.length = payloads.length ∧
          ∀ idx np, nmsg.payloads[idx]? = some np →
            payloadCrcMatches crc32c nmsg idx np = true

/-- Packed payloads with their CRCs, and the sequence fields. -/
def serializedSize (payloads : List NmsgPayload) (doSequence : Bool) (sequence : UInt32)
    (sequenceId : UInt64) : Nat :=
  (payloads.map fun np =>
      payloadFieldSize np + crcFieldSize (htonl (crc32c (np.payload.getD [])))).sum +
    (if doSequence then
      (1 + varintSize sequence.toNat) + (1 + varintSize sequenceId.toNat)
    else 0)

/-- The containers that are read back. One without payloads has room allocated for the header
only. A longer one has to keep its length below 2^32, where the length of a compressed one counts
as the room allocated for it. -/
structure ContainerFits (payloads : List NmsgPayload) (doSequence doZlib : Bool)
    (sequence : UInt32) (sequenceId : UInt64) : Prop where
  room : payloads = [] → doSequence = false ∧ doZlib = false
  length :
    if doZlib then 2 * (hdrlszV2 + estimates doSequence payloads) < 2 ^ 32
    else serializedSize crc32c payloads doSequence sequence sequenceId < 2 ^ 32

/-! ### The header -/

variable {pb z crc32c}

@[simp]
theorem length_headerSerialize (flags : UInt8) (len : Nat) :
    (headerSerialize flags len).length = hdrlszV2 := by
  simp [headerSerialize, magic, hdrlszV2]

theorem inputNmsgDeserializeHeader_headerSerialize (flags : UInt8) (len : Nat) (rest : Bytes)
    (bufLen : Nat) (h : hdrlszV2 ≤ bufLen) :
    inputNmsgDeserializeHeader (headerSerialize flags len ++ rest) bufLen =
      .ok (.ok (flags, len % 2 ^ 32)) := by
  have hflags := flags.toNat_lt
  have hten : hdrlszV2 ≤ (headerSerialize flags len ++ rest).length := by simp
  have hmagic : (headerSerialize flags len ++ rest).take 4 = magic := by
    rw [headerSerialize, List.append_assoc, List.append_assoc]
    exact take_append_of_length rfl
  have hversion : ((headerSerialize flags len ++ rest).drop 4).take 2 =
      beBytes 2 (version + flags.toNat * 256) := by
    rw [headerSerialize, List.append_assoc, List.append_assoc,
      drop_append_of_length (n := 4) (by rfl), take_append_of_length (length_beBytes _ _)]
  have hlen : ((headerSerialize flags len ++ rest).drop 6).take 4 = beBytes 4 len := by
    rw [headerSerialize, List.append_assoc, drop_append_of_length (by simp [magic]),
      take_append_of_length (length_beBytes _ _)]
  have hnumber : beNat (beBytes 2 (version + flags.toNat * 256)) = 2 + flags.toNat * 256 := by
    rw [beNat_beBytes_of_lt (by simp only [version]; omega), version]
  have hmod : (2 + flags.toNat * 256) % 256 = 2 := by omega
  have hdiv : (2 + flags.toNat * 256) / 256 = flags.toNat := by omega
  simp only [hdrlszV2] at h hten
  simp only [inputNmsgDeserializeHeader, lenhdrszV2, hdrsz, hdrlszV2, hmagic, hversion, hlen,
    hnumber, hmod, hdiv, ne_eq, not_true_eq_false, if_false]
  rw [if_neg (by omega), if_neg (by omega), if_neg (by omega), if_neg (by omega),
    UInt8.ofNat_toNat, beNat_beBytes]
  rfl

/-! ### The packed container -/

/-- The container of a list of payloads, ready to be serialized. -/
structure Filled (c : Container) (payloads : List NmsgPayload) (doSequence : Bool) : Prop where
  nmsg : c.nmsg = ⟨payloads, [], none, none⟩
  estsz : c.estsz = hdrlszV2 + estimates doSequence payloads
  doSequence : c.doSequence = doSequence
  small : ∀ np ∈ payloads, np.size < 2 ^ 21

theorem containerInit_eq {bufsz : Nat} {c : Container} (h : containerInit bufsz = some c) :
    wbufszMin ≤ bufsz ∧ c = ⟨⟨[], [], none, none⟩, bufsz, hdrlszV2, false⟩ := by
  unfold containerInit at h
  split at h
  · cases h
  · rename_i hlt
    rw [Option.some.injEq] at h
    exact ⟨by omega, h.symm⟩

theorem filled_of_addAll {bufsz : Nat} {c₀ c : Container} {doSequence : Bool}
    {adds : List Addition} {results : List Res} (hinit : containerInit bufsz = some c₀)
    (hadd : containerAddAll (containerSetSequence c₀ doSequence) adds = .ok (results, c))
    (hsmall : ∀ np ∈ acceptedPayloads adds results, np.size < 2 ^ 21) :
    Filled c (acceptedPayloads adds results) doSequence := by
  obtain ⟨-, rfl⟩ := containerInit_eq hinit
  obtain ⟨hnmsg, hestsz, -, hseq⟩ := containerAddAll_spec hadd
  exact ⟨by simpa [containerSetSequence] using hnmsg, hestsz, hseq, hsmall⟩

section Filled

variable {c : Container} {payloads : List NmsgPayload} {doSequence doZlib : Bool}
  {sequence : UInt32} {sequenceId : UInt64}

@[simp]
theorem containerPrepare_estsz (c : Container) :
    (containerPrepare crc32c c sequence sequenceId).estsz = c.estsz := rfl

theorem containerPrepare_nmsg (hnmsg : c.nmsg = ⟨payloads, [], none, none⟩)
    (hseq : c.doSequence = doSequence) :
    (containerPrepare crc32c c sequence sequenceId).nmsg =
      ⟨payloads, payloads.map fun np => htonl (crc32c (np.payload.getD [])),
        if doSequence then some sequence else none,
        if doSequence then some sequenceId else none⟩ := by
  cases doSequence <;> simp [containerPrepare, payloadCalcCrcs, hnmsg, hseq]

theorem Filled.prepared (h : Filled c payloads doSequence) :
    (containerPrepare crc32c c sequence sequenceId).nmsg =
      ⟨payloads, payloads.map fun np => htonl (crc32c (np.payload.getD [])),
        if doSequence then some sequence else none,
        if doSequence then some sequenceId else none⟩ :=
  containerPrepare_nmsg h.nmsg h.doSequence

theorem sum_payloadFields (crc32c : Bytes → UInt32) (nps : List NmsgPayload) :
    (nps.map payloadFieldSize).sum +
        ((nps.map fun np => htonl (crc32c (np.payload.getD []))).map crcFieldSize).sum =
      (nps.map fun np =>
        payloadFieldSize np + crcFieldSize (htonl (crc32c (np.payload.getD [])))).sum := by
  induction nps with
  | nil => rfl
  | cons np nps ih =>
      simp only [List.map_cons, List.sum_cons, ← ih]
      omega

theorem containerPrepare_packedSize (hnmsg : c.nmsg = ⟨payloads, [], none, none⟩)
    (hseq : c.doSequence = doSequence) :
    nmsgPackedSize (containerPrepare crc32c c sequence sequenceId).nmsg =
      serializedSize crc32c payloads doSequence sequence sequenceId := by
  rw [containerPrepare_nmsg hnmsg hseq, nmsgPackedSize, serializedSize]
  simp only [sum_payloadFields]
  cases doSequence <;> simp [sequenceSize, optionalSize, optionalSize64]

theorem Filled.packedSize (h : Filled c payloads doSequence) :
    nmsgPackedSize (containerPrepare crc32c c sequence sequenceId).nmsg =
      serializedSize crc32c payloads doSequence sequence sequenceId :=
  containerPrepare_packedSize h.nmsg h.doSequence

/-- Whatever the sequence fields, the payloads leave room for them. -/
theorem serializedSize_le (crc32c : Bytes → UInt32) (doSequence : Bool) (sequence : UInt32)
    (sequenceId : UInt64) (hsmall : ∀ np ∈ payloads, np.size < 2 ^ 21) (hne : payloads ≠ []) :
    serializedSize crc32c payloads doSequence sequence sequenceId ≤
      estimates doSequence payloads := by
  have hseq := varintSize_uint32 sequence
  have hid := varintSize_uint64 sequenceId
  obtain ⟨np, nps, rfl⟩ := List.exists_cons_of_ne_nil hne
  have hrest : ∀ nps : List NmsgPayload, (∀ np ∈ nps, np.size < 2 ^ 21) →
      (nps.map fun np =>
        payloadFieldSize np + crcFieldSize (htonl (crc32c (np.payload.getD [])))).sum ≤
          estimates doSequence nps := by
    intro nps hnps
    induction nps with
    | nil => simp [estimates]
    | cons np nps ih =>
        have hhead := payloadFieldSize_le_estimate (hnps np (by simp)) doSequence
          (htonl (crc32c (np.payload.getD [])))
        have htail := ih fun np hnp => hnps np (by simp [hnp])
        simp only [estimates, List.map_cons, List.sum_cons] at htail ⊢
        omega
  have hhead := payloadFieldSize_le_estimate (hsmall np (by simp)) doSequence
    (htonl (crc32c (np.payload.getD [])))
  have htail := hrest nps fun np hnp => hsmall np (by simp [hnp])
  simp only [serializedSize, estimates, List.map_cons, List.sum_cons] at htail ⊢
  cases doSequence <;> simp only [if_true, Bool.false_eq_true, if_false] at hhead htail ⊢ <;> omega

theorem fifteen_le_serializedSize (crc32c : Bytes → UInt32) (doSequence : Bool)
    (sequence : UInt32) (sequenceId : UInt64) (hne : payloads ≠ []) :
    15 ≤ serializedSize crc32c payloads doSequence sequence sequenceId := by
  obtain ⟨np, nps, rfl⟩ := List.exists_cons_of_ne_nil hne
  have hvid := varintSize_pos np.vid.toNat
  have hmsgtype := varintSize_pos np.msgtype.toNat
  have hsec : 0 < int64Size np.timeSec := varintSize_pos _
  have hlen := varintSize_pos (payloadPackedSize np)
  have hcrc := varintSize_pos (htonl (crc32c (np.payload.getD []))).toNat
  simp only [serializedSize, List.map_cons, List.sum_cons, payloadFieldSize, crcFieldSize]
  have hsize : 11 ≤ payloadPackedSize np := by
    unfold payloadPackedSize
    omega
  omega

/-! ### Serializing and reading back -/

theorem Filled.unpack (crc32c : Bytes → UInt32) (sequence : UInt32) (sequenceId : UInt64)
    (hpb : pb.Lawful) (h : Filled c payloads doSequence) :
    ∃ nmsg, pb.unpackNmsg (pb.packNmsg (containerPrepare crc32c c sequence sequenceId).nmsg) =
        some nmsg ∧ nmsg.payloads = payloads ∧ nmsg.payloadCrcs.length = payloads.length ∧
      ∀ idx np, nmsg.payloads[idx]? = some np → payloadCrcMatches crc32c nmsg idx np = true := by
  refine ⟨_, hpb.unpackNmsg_packNmsg _, ?_⟩
  rw [h.prepared]
  refine ⟨rfl, by simp, ?_⟩
  intro idx np hnp
  simp [payloadCrcMatches, hnp]

/-- What a packed container becomes that has room for itself, compressed or not. -/
theorem containerSerialize_eq (hz : z.Lawful) {c : Container} {packed : Bytes}
    (doHeader doZlib : Bool) (sequence : UInt32) (sequenceId : UInt64)
    (hpacked : pb.packNmsg (containerPrepare crc32c c sequence sequenceId).nmsg = packed)
    (hroom : (if doHeader then hdrlszV2 else 0) + packed.length ≤ c.estsz)
    (hgrow : doZlib = true → 2 * c.estsz < 2 ^ 32 ∧
      (if doHeader then hdrlszV2 else 0) + 4 + compressBound packed.length ≤ 2 * c.estsz) :
    ∃ body, body = (if doZlib then deflated z packed else packed) ∧
      containerSerialize pb z crc32c c doHeader doZlib sequence sequenceId =
        .ok (⟨(if doHeader then headerSerialize (if doZlib then flagZlib else 0) body.length
          else []) ++ body, (if doHeader then hdrlszV2 else 0) + body.length⟩,
          containerPrepare crc32c c sequence sequenceId) ∧
      (doZlib = true → packed.length < 2 ^ 32 ∧ body.length < 2 ^ 32) := by
  refine ⟨_, rfl, ?_⟩
  cases doZlib with
  | false =>
      simp only [containerSerialize, hpacked, Bool.false_eq_true, if_false, false_implies, and_true]
      rw [if_neg (by omega)]
  | true =>
      obtain ⟨htotal, hbound⟩ := hgrow rfl
      have hlt : packed.length < 2 ^ 32 := by omega
      have hdeflate := nmsgZbufDeflate_eq hz hlt htotal (by omega)
      have hsize : (deflated z packed).length ≤ 4 + compressBound packed.length := by
        rw [deflated, List.length_append, length_beBytes]
        exact Nat.add_le_add_left (hz.length_deflate_le _ hlt) 4
      refine ⟨?_, fun _ => ⟨hlt, by rw [if_pos rfl]; omega⟩⟩
      simp only [containerSerialize, hpacked, if_true, containerPrepare_estsz, hdeflate]
      rw [if_neg (by omega), if_neg (by omega)]

/-- Reading back a header and a body that unpacks, from any buffer that holds just these. -/
theorem decodes_of_unpack (flags : UInt8) (body : Bytes) (c' : Container)
    (hflags : flags = if doZlib then flagZlib else 0)
    (hserialize : containerSerialize pb z crc32c c true doZlib sequence sequenceId =
      .ok (⟨headerSerialize flags body.length ++ body, hdrlszV2 + body.length⟩, c'))
    (hlt : body.length < 2 ^ 32)
    (hunpack : ∀ past, ∃ nmsg, inputNmsgUnpackContainer2 pb z body past flags =
        (.success, some nmsg) ∧ nmsg.payloads = payloads ∧
      nmsg.payloadCrcs.length = payloads.length ∧
      ∀ idx np, nmsg.payloads[idx]? = some np → payloadCrcMatches crc32c nmsg idx np = true) :
    Decodes pb z crc32c c payloads doZlib sequence sequenceId := by
  refine ⟨_, c', hserialize, ?_⟩
  intro past
  obtain ⟨nmsg, hok, hpayloads, hcrcs, hmatch⟩ := hunpack past
  have hbody : (headerSerialize flags body.length ++ body).drop hdrlszV2 = body :=
    drop_append_of_length (length_headerSerialize _ _)
  have hheader := inputNmsgDeserializeHeader_headerSerialize flags body.length body
    (hdrlszV2 + body.length) (by omega)
  rw [Nat.mod_eq_of_lt hlt] at hheader
  refine ⟨?_, nmsg, by rw [hbody, ← hflags, hok], hpayloads, hcrcs, hmatch⟩
  simp only [containerDeserialize, hheader]
  rw [if_neg (by omega), if_neg (by simp), hbody, List.take_length, hok]
  simp only [hpayloads]

theorem Filled.decodes (hpb : pb.Lawful) (hz : z.Lawful) (h : Filled c payloads doSequence)
    (hfits : ContainerFits crc32c payloads doSequence doZlib sequence sequenceId) :
    Decodes pb z crc32c c payloads doZlib sequence sequenceId := by
  have hlength := hpb.length_packNmsg (containerPrepare crc32c c sequence sequenceId).nmsg
  rw [h.packedSize] at hlength
  obtain ⟨nmsg, hnmsg, hrest⟩ :=
    h.unpack crc32c sequence sequenceId hpb
  have hestsz := h.estsz
  simp only [hdrlszV2] at hestsz
  have hroom : (if true then hdrlszV2 else 0) +
      (pb.packNmsg (containerPrepare crc32c c sequence sequenceId).nmsg).length ≤ c.estsz := by
    rw [if_pos rfl, hlength, hdrlszV2]
    by_cases hne : payloads = []
    · obtain ⟨hseq, -⟩ := hfits.room hne
      simp [hne, hseq, serializedSize, hestsz]
    · have := serializedSize_le crc32c doSequence sequence sequenceId h.small hne
      omega
  cases doZlib with
  | false =>
      obtain ⟨body, hbody, hserialize, -⟩ := containerSerialize_eq hz true false sequence
        sequenceId rfl hroom (by simp)
      refine decodes_of_unpack 0 body (containerPrepare crc32c c sequence sequenceId) (by rfl)
        hserialize ?_ ?_
      · rw [hbody, if_neg (by simp), hlength]
        simpa using hfits.length
      · intro past
        rw [hbody]
        exact ⟨nmsg, by simp [inputNmsgUnpackContainer2, hnmsg], hrest⟩
  | true =>
      have hne : payloads ≠ [] := fun hnil => by simpa using (hfits.room hnil).2
      have hmin := fifteen_le_serializedSize crc32c doSequence sequence sequenceId hne
      have htotal : 2 * c.estsz < 2 ^ 32 := by
        have := hfits.length
        rw [if_pos rfl] at this
        rwa [h.estsz]
      obtain ⟨body, hbody, hserialize, hlt⟩ := containerSerialize_eq hz true true sequence
        sequenceId rfl hroom (fun _ => ⟨htotal, by
          simp only [if_true, compressBound, hdrlszV2] at hroom ⊢
          omega⟩)
      obtain ⟨hpacked, hlong⟩ := hlt rfl
      rw [if_pos rfl] at hbody
      refine decodes_of_unpack flagZlib body (containerPrepare crc32c c sequence sequenceId)
        (by rfl) hserialize hlong ?_
      intro past
      refine ⟨nmsg, ?_, hrest⟩
      simp only [inputNmsgUnpackContainer2]
      rw [if_neg (by decide), if_pos (by decide), hbody,
        nmsgZbufInflate_deflated hz past hpacked (by rwa [← hbody])]
      simp only [hnmsg]

/-! ### Containers that are not read back -/

/-- The length field holds the length modulo 2^32. -/
theorem containerDeserialize_long (pb : ProtobufC) (z : Zlib) (flags : UInt8) (body past : Bytes)
    {len : Nat} (h : 2 ^ 32 ≤ len) :
    containerDeserialize pb z (headerSerialize flags len ++ body) (hdrlszV2 + len) past =
      .ok (.failure, []) := by
  have hheader := inputNmsgDeserializeHeader_headerSerialize flags len body
    (hdrlszV2 + len) (by omega)
  have hne : len % 2 ^ 32 ≠ hdrlszV2 + len - hdrlszV2 := by
    have := Nat.mod_lt len (show 0 < 2 ^ 32 by decide)
    omega
  simp only [containerDeserialize, hheader]
  rw [if_pos (Or.inr hne)]

theorem nmsgZbufDeflate_ok {buf : Bytes} {zLen : Nat} {out : Bytes × Nat}
    (h : nmsgZbufDeflate z buf zLen = .ok out) :
    out.1.length = 4 + (z.deflate (buf.take (buf.length % 2 ^ 32))).length ∧
      zLen - zLen % 2 ^ 32 ≤ out.2 := by
  simp only [nmsgZbufDeflate] at h
  split at h
  · cases h
  · rw [Except.ok.injEq] at h
    subst h
    refine ⟨by simp, ?_⟩
    simp only
    omega

theorem Filled.fits (hpb : pb.Lawful) (hz : z.Lawful) (h : Filled c payloads doSequence)
    (hdecodes : Decodes pb z crc32c c payloads doZlib sequence sequenceId) :
    ContainerFits crc32c payloads doSequence doZlib sequence sequenceId := by
  obtain ⟨out, c', hserialize, hread⟩ := hdecodes
  have hlength := hpb.length_packNmsg (containerPrepare crc32c c sequence sequenceId).nmsg
  rw [h.packedSize] at hlength
  have hestsz := h.estsz
  simp only [hdrlszV2] at hestsz
  cases doZlib with
  | false =>
      simp only [containerSerialize, Bool.false_eq_true, if_false, if_true] at hserialize
      split at hserialize
      · cases hserialize
      rename_i hroom
      simp only [Except.ok.injEq, Prod.mk.injEq] at hserialize
      obtain ⟨rfl, -⟩ := hserialize
      rw [hlength, hdrlszV2] at hroom
      constructor
      · rintro rfl
        refine ⟨?_, rfl⟩
        by_contra hseq
        rw [Bool.not_eq_false] at hseq
        have hone := varintSize_pos sequence.toNat
        rw [hestsz, hseq] at hroom
        simp only [estimates, serializedSize, List.map_nil, List.sum_nil, if_true] at hroom
        omega
      · simp only [Bool.false_eq_true, if_false]
        by_contra hlong
        have hlt : 2 ^ 32 ≤
            (pb.packNmsg (containerPrepare crc32c c sequence sequenceId).nmsg).length := by omega
        have hfail := containerDeserialize_long pb z 0
          (pb.packNmsg (containerPrepare crc32c c sequence sequenceId).nmsg) [] hlt
        have hok := (hread []).1
        rw [hfail] at hok
        cases hok
  | true =>
      simp only [containerSerialize, if_true, containerPrepare_estsz] at hserialize
      split at hserialize
      · cases hserialize
      rename_i hpacked
      split at hserialize
      · cases hserialize
      rename_i body len hdeflate
      split at hserialize
      · cases hserialize
      rename_i hroom
      simp only [Except.ok.injEq, Prod.mk.injEq] at hserialize
      obtain ⟨rfl, -⟩ := hserialize
      obtain ⟨hbody, hlen⟩ := nmsgZbufDeflate_ok hdeflate
      simp only at hbody hlen
      constructor
      · rintro rfl
        exfalso
        have hsix := hz.lt_length_deflate ((pb.packNmsg (containerPrepare crc32c c sequence
          sequenceId).nmsg).take ((pb.packNmsg (containerPrepare crc32c c sequence
            sequenceId).nmsg).length % 2 ^ 32))
        rw [hestsz, hbody, hdrlszV2] at hroom
        simp only [estimates, List.map_nil, List.sum_nil] at hroom
        omega
      · simp only [if_true]
        by_contra hlong
        have hlt : 2 ^ 32 ≤ len := by rw [hdrlszV2] at hlong; omega
        have hfail := containerDeserialize_long pb z flagZlib body [] hlt
        have hok := (hread []).1
        rw [hfail] at hok
        cases hok

end Filled

/-- **Container round trip.** A container filled by `nmsg_container_add` is read back as the
payloads it took exactly when it fits; the payloads that are read back can be serialized again,
in any container they fit in. -/
theorem container_decodes_iff_fits (hpb : pb.Lawful) (hz : z.Lawful) {bufsz : Nat}
    {c₀ c : Container} {doSequence doZlib : Bool} {adds : List Addition} {results : List Res}
    {sequence : UInt32} {sequenceId : UInt64} (hinit : containerInit bufsz = some c₀)
    (hadd : containerAddAll (containerSetSequence c₀ doSequence) adds = .ok (results, c))
    (hsmall : ∀ np ∈ acceptedPayloads adds results, np.size < 2 ^ 21) :
    (Decodes pb z crc32c c (acceptedPayloads adds results) doZlib sequence sequenceId ∧
        ∀ (bufsz' : Nat) (c₀' c' : Container) (doSequence' doZlib' : Bool) (adds' : List Addition)
          (results' : List Res) (sequence' : UInt32) (sequenceId' : UInt64),
          containerInit bufsz' = some c₀' →
          (∀ add ∈ adds', ∃ np ∈ acceptedPayloads adds results, add.msg = messageFromPayload np) →
          containerAddAll (containerSetSequence c₀' doSequence') adds' = .ok (results', c') →
          ContainerFits crc32c (acceptedPayloads adds' results') doSequence' doZlib' sequence'
            sequenceId' →
          Decodes pb z crc32c c' (acceptedPayloads adds' results') doZlib' sequence' sequenceId') ↔
      ContainerFits crc32c (acceptedPayloads adds results) doSequence doZlib sequence
        sequenceId := by
  have hfilled := filled_of_addAll hinit hadd hsmall
  constructor
  · rintro ⟨hdecodes, -⟩
    exact hfilled.fits hpb hz hdecodes
  · intro hfits
    refine ⟨hfilled.decodes hpb hz hfits, ?_⟩
    intro bufsz' c₀' c' doSequence' doZlib' adds' results' sequence' sequenceId' hinit' hfrom hadd'
      hfits'
    refine (filled_of_addAll hinit' hadd' ?_).decodes hpb hz hfits'
    intro np hnp
    obtain ⟨⟨add, res⟩, hmem, htaken⟩ := List.mem_filterMap.mp hnp
    obtain ⟨np', hnp', hmsg⟩ := hfrom add (List.of_mem_zip hmem).1
    simp only [hmsg, messageFromPayload, messageSerialize] at htaken
    split at htaken
    · cases htaken
    · rw [Option.some.injEq] at htaken
      exact htaken ▸ hsmall np' hnp'

/-- A payload of three octets. -/
def samplePayload : NmsgPayload where
  vid := 1
  msgtype := 1
  timeSec := 1
  timeNsec := 0
  payload := some [1, 2, 3]
  source := none
  operator := none
  group := none

/-- The container of `samplePayload` with sequence tracking. -/
def sampleContainer : Container where
  nmsg := ⟨[samplePayload], [], none, none⟩
  bufsz := 512
  estsz := 52
  doSequence := true

theorem container_decodes_iff_fits_sample :
    (Decodes wire storedZlib (fun _ => 7) sampleContainer [samplePayload] false 5 6 ∧
        ∀ (bufsz' : Nat) (c₀' c' : Container) (doSequence' doZlib' : Bool) (adds' : List Addition)
          (results' : List Res) (sequence' : UInt32) (sequenceId' : UInt64),
          containerInit bufsz' = some c₀' →
          (∀ add ∈ adds', ∃ np ∈ [samplePayload], add.msg = messageFromPayload np) →
          containerAddAll (containerSetSequence c₀' doSequence') adds' = .ok (results', c') →
          ContainerFits (fun _ => 7) (acceptedPayloads adds' results') doSequence' doZlib' sequence'
            sequenceId' →
          Decodes wire storedZlib (fun _ => 7) c' (acceptedPayloads adds' results') doZlib' sequence'
            sequenceId') ↔
      ContainerFits (fun _ => 7) [samplePayload] true false 5 6 := by
  have hinit : containerInit 512 = some ⟨⟨[], [], none, none⟩, 512, hdrlszV2, false⟩ := rfl
  have hadd : containerAddAll (containerSetSequence ⟨⟨[], [], none, none⟩, 512, hdrlszV2, false⟩
      true) [⟨⟨0, 0⟩, messageFromPayload samplePayload⟩] = .ok ([.success], sampleContainer) := rfl
  exact container_decodes_iff_fits wire_lawful storedZlib_lawful hinit hadd (by decide)

/-- **An empty container overflows.** With sequence tracking it takes more than the ten octets
allocated for it. -/
theorem container_empty_overflows :
    containerInit 512 = some ⟨⟨[], [], none, none⟩, 512, 10, false⟩ ∧
      containerAddAll (containerSetSequence ⟨⟨[], [], none, none⟩, 512, 10, false⟩ true) [] =
        .ok ([], ⟨⟨[], [], none, none⟩, 512, 10, true⟩) ∧
      containerSerialize wire storedZlib (fun _ => 7) ⟨⟨[], [], none, none⟩, 512, 10, true⟩ true
        false 5 6 = .error .outOfBounds ∧
      ¬ Decodes wire storedZlib (fun _ => 7) ⟨⟨[], [], none, none⟩, 512, 10, true⟩ [] false 5 6 := by
  have hoverflow : containerSerialize wire storedZlib (fun _ => 7)
      ⟨⟨[], [], none, none⟩, 512, 10, true⟩ true false 5 6 = .error .outOfBounds := rfl
  refine ⟨rfl, rfl, hoverflow, ?_⟩
  rintro ⟨out, c', hserialize, -⟩
  rw [hoverflow] at hserialize
  cases hserialize

end Nmsg

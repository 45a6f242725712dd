import Nmsg.Proof.ContainerRoundTrip

/-!
# How far serializing writes

The size of a container is estimated with at most three octets for the length of a payload and at
most four for that of its field. The octets these lengths take beyond that have to fit in what the
estimate has to spare: ten octets, which are the header's if there is one, what the CRC fields leave
of their six octets, and the sequence fields, counted with every payload.
-/

namespace Nmsg

open Octets WireFormat

variable {pb : ProtobufC} {z : Zlib} {crc32c : Bytes → UInt32}

/-- Octets that the lengths of a payload and of its field take beyond those counted for them. -/
def shortfall (np : NmsgPayload) : Nat :=
  (varintSize np.size - 3) + (varintSize (payloadPackedSize np) - 4)

/-- Octets counted for the CRC field of a payload that it does not take. -/
def spare (crc32c : Bytes → UInt32) (np : NmsgPayload) : Nat :=
  5 - varintSize (htonl (crc32c (np.payload.getD []))).toNat

/-- Octets of the sequence fields. -/
def sequenceFieldsSize (doSequence : Bool) (sequence : UInt32) (sequenceId : UInt64) : Nat :=
  if doSequence then (1 + varintSize sequence.toNat) + (1 + varintSize sequenceId.toNat) else 0

/-- The containers that are serialized within their buffers. -/
structure SerializeFits (pb : ProtobufC) (z : Zlib) (crc32c : Bytes → UInt32)
    (payloads : List NmsgPayload) (doSequence doHeader doZlib : Bool) (sequence : UInt32)
    (sequenceId : UInt64) : Prop where
  room : (if doHeader = true ∧ doZlib = false then hdrlszV2 else 0) + (payloads.map shortfall).sum +
      sequenceFieldsSize doSequence sequence sequenceId ≤
    hdrlszV2 + (payloads.map (spare crc32c)).sum + (if doSequence then 18 * payloads.length else 0)
  deflated : payloads = [] → doZlib = true → doHeader = false ∧
    (z.deflate (pb.packNmsg ⟨[], [], if doSequence then some sequence else none,
      if doSequence then some sequenceId else none⟩)).length ≤ 16

/-! ### The estimate of a payload -/

section Estimate

variable {np : NmsgPayload}

/-- The digits the code counts are those of the varint, up to the fourth. -/
theorem counted_digits (n : Nat) :
    1 + (if n ≥ 2 ^ 7 then 1 else 0) + (if n ≥ 2 ^ 14 then 1 else 0) +
      (if n ≥ 2 ^ 21 then 1 else 0) = min (varintSize n) 4 := by
  have hpos := varintSize_pos n
  have hlt : ∀ k, n < 128 ^ (k + 1) → varintSize n ≤ k + 1 := fun k h => varintSize_le h
  have hge : ∀ k, 128 ^ k ≤ n → k + 1 ≤ varintSize n := fun k h => le_varintSize h
  have h1 := hlt 0
  have h2 := hlt 1
  have h3 := hlt 2
  have g1 := hge 1
  have g2 := hge 2
  have g3 := hge 3
  simp only [Nat.reduceAdd, Nat.reducePow] at h1 h2 h3 g1 g2 g3
  split <;> split <;> split <;> omega

theorem payloadPackedSize_eq (np : NmsgPayload) :
    payloadPackedSize np = payloadSize np + (varintSize np.size - 3) := by
  have hdigits := counted_digits np.size
  have hthree : ¬ np.size ≥ 2 ^ 21 → varintSize np.size ≤ 3 := by
    intro h
    rw [if_neg h] at hdigits
    split at hdigits <;> split at hdigits <;> omega
  have hfour : np.size ≥ 2 ^ 21 → 4 ≤ varintSize np.size := fun h =>
    le_varintSize (k := 3) (by simpa using h)
  have hzero : varintSize 0 = 1 := rfl
  unfold payloadSize payloadPackedSize
  unfold NmsgPayload.size at hdigits hthree hfour ⊢
  cases hpayload : np.payload with
  | none =>
      simp [optionalBytesSize, hzero]
  | some b =>
      simp only [hpayload, Option.getD_some] at hdigits hthree hfour
      simp only [optionalBytesSize, Option.map_some, Option.getD_some, List.length_nil, hzero]
      by_cases hlarge : b.length ≥ 2 ^ 21
      · rw [if_pos hlarge] at hdigits
        have := hfour hlarge
        omega
      · rw [if_neg hlarge] at hdigits
        have := hthree hlarge
        omega

/-- What a payload takes, and what was counted for it. -/
theorem payload_balance (crc32c : Bytes → UInt32) (np : NmsgPayload) :
    payloadFieldSize np + crcFieldSize (htonl (crc32c (np.payload.getD []))) + spare crc32c np =
      estimate false (payloadSize np) + shortfall np := by
  have hpacked := payloadPackedSize_eq np
  have hdigits := counted_digits (payloadSize np)
  have hcrc := varintSize_uint32 (htonl (crc32c (np.payload.getD [])))
  have hsize : np.size ≤ payloadSize np := by
    unfold payloadSize NmsgPayload.size
    simp only
    omega
  have hsame : varintSize np.size ≤ 3 → payloadPackedSize np = payloadSize np := by omega
  have hlarge : 3 < varintSize np.size → 4 ≤ varintSize (payloadSize np) ∧
      4 ≤ varintSize (payloadPackedSize np) := by
    intro h
    have hge : 128 ^ 3 ≤ np.size := by
      by_contra hlt
      exact absurd (varintSize_le (k := 2) (Nat.lt_of_not_le hlt)) (by omega)
    exact ⟨le_varintSize (k := 3) (by omega), le_varintSize (k := 3) (by omega)⟩
  simp only [payloadFieldSize, crcFieldSize, spare, shortfall, estimate, Bool.false_eq_true,
    if_false]
  by_cases h : varintSize np.size ≤ 3
  · rw [hsame h]
    omega
  · have := hlarge (by omega)
    omega

end Estimate

/-! ### The estimate of a container -/

section Container

variable {payloads : List NmsgPayload} {c : Container} {doSequence doHeader doZlib : Bool}
  {sequence : UInt32} {sequenceId : UInt64}

theorem payloads_balance (crc32c : Bytes → UInt32) (payloads : List NmsgPayload) :
    (payloads.map fun np =>
        payloadFieldSize np + crcFieldSize (htonl (crc32c (np.payload.getD [])))).sum +
        (payloads.map (spare crc32c)).sum =
      estimates false payloads + (payloads.map shortfall).sum := by
  unfold estimates
  induction payloads with
  | nil => simp
  | cons np payloads ih =>
      have hhead := payload_balance crc32c np
      simp only [List.map_cons, List.sum_cons]
      omega

theorem estimates_sequence (doSequence : Bool) (payloads : List NmsgPayload) :
    estimates doSequence payloads =
      estimates false payloads + (if doSequence then 18 * payloads.length else 0) := by
  unfold estimates
  induction payloads with
  | nil => simp
  | cons np payloads ih =>
      have hhead : estimate doSequence (payloadSize np) =
          estimate false (payloadSize np) + if doSequence then 18 else 0 := by
        cases doSequence <;> simp [estimate]
      rw [List.map_cons, List.sum_cons, List.map_cons, List.sum_cons, ih, hhead, List.length_cons]
      cases doSequence <;> simp only [Bool.false_eq_true, if_false, if_true] <;> omega

/-- The size of a packed container, and what was estimated for it. -/
theorem serialized_balance (crc32c : Bytes → UInt32) (payloads : List NmsgPayload)
    (doSequence : Bool) (sequence : UInt32) (sequenceId : UInt64) :
    serializedSize crc32c payloads doSequence sequence sequenceId +
        (payloads.map (spare crc32c)).sum +
        (if doSequence then 18 * payloads.length else 0) =
      estimates doSequence payloads + (payloads.map shortfall).sum +
        sequenceFieldsSize doSequence sequence sequenceId := by
  have hpayloads := payloads_balance crc32c payloads
  rw [serializedSize, estimates_sequence, sequenceFieldsSize]
  omega

theorem estimates_ge (hne : payloads ≠ []) (doSequence : Bool) :
    19 ≤ estimates doSequence payloads := by
  obtain ⟨np, nps, rfl⟩ := List.exists_cons_of_ne_nil hne
  have hvid := varintSize_pos np.vid.toNat
  have hmsgtype := varintSize_pos np.msgtype.toNat
  have hsec : 0 < int64Size np.timeSec := varintSize_pos _
  have hsize : 11 ≤ payloadSize np := by
    unfold payloadSize payloadPackedSize
    simp only
    omega
  simp only [estimates, List.map_cons, List.sum_cons, estimate]
  omega

theorem serializedSize_nil_lt (crc32c : Bytes → UInt32) (doSequence : Bool) (sequence : UInt32)
    (sequenceId : UInt64) : serializedSize crc32c [] doSequence sequence sequenceId < 18 := by
  have hseq := varintSize_uint32 sequence
  have hid := varintSize_uint64 sequenceId
  rw [serializedSize, List.map_nil, List.sum_nil]
  cases doSequence with
  | false => simp
  | true =>
      simp only [if_true]
      omega

/-- **Serializing stays within its buffers** exactly when the container fits. -/
theorem serialize_within_iff (hpb : pb.Lawful) (hz : z.Lawful) {bufsz : Nat} {c₀ : Container}
    {adds : List Addition} {results : List Res} (hinit : containerInit bufsz = some c₀)
    (hadd : containerAddAll (containerSetSequence c₀ doSequence) adds = .ok (results, c))
    (doHeader doZlib : Bool) (sequence : UInt32) (sequenceId : UInt64) :
    (serializeExtent pb z crc32c c doHeader doZlib sequence sequenceId).Within c.estsz doZlib ↔
      SerializeFits pb z crc32c (acceptedPayloads adds results) doSequence doHeader doZlib sequence
        sequenceId := by
  obtain ⟨-, rfl⟩ := containerInit_eq hinit
  obtain ⟨hnmsg, hestsz, -, hseq⟩ := containerAddAll_spec hadd
  generalize acceptedPayloads adds results = payloads at hnmsg hestsz
  have hnmsg' : c.nmsg = ⟨payloads, [], none, none⟩ := by simpa [containerSetSequence] using hnmsg
  have hseq' : c.doSequence = doSequence := hseq
  have hestsz' : c.estsz = 10 + estimates doSequence payloads := hestsz
  have hlength : (pb.packNmsg (containerPrepare crc32c c sequence sequenceId).nmsg).length =
      serializedSize crc32c payloads doSequence sequence sequenceId := by
    rw [hpb.length_packNmsg, containerPrepare_packedSize hnmsg' hseq']
  have hbalance := serialized_balance crc32c payloads doSequence sequence sequenceId
  cases doZlib with
  | false =>
      constructor
      · rintro ⟨-, hbuf⟩
        refine ⟨?_, fun _ hzlib => by cases hzlib⟩
        simp only [serializeExtent, Bool.false_eq_true, if_false, hlength] at hbuf
        simp only [and_true, hdrlszV2] at hbuf ⊢
        omega
      · rintro ⟨hroom, -⟩
        refine ⟨Nat.zero_le _, ?_⟩
        simp only [and_true, hdrlszV2] at hroom
        simp only [serializeExtent, Bool.false_eq_true, if_false, hlength, hdrlszV2]
        omega
  | true =>
      have hroom : serializedSize crc32c payloads doSequence sequence sequenceId ≤ c.estsz ↔
          (if doHeader = true ∧ true = false then hdrlszV2 else 0) +
            (payloads.map shortfall).sum + sequenceFieldsSize doSequence sequence sequenceId ≤
          hdrlszV2 + (payloads.map (spare crc32c)).sum +
            (if doSequence then 18 * payloads.length else 0) := by
        rw [if_neg (by simp), hdrlszV2]
        omega
      have hextent : serializeExtent pb z crc32c c doHeader true sequence sequenceId =
          ⟨serializedSize crc32c payloads doSequence sequence sequenceId,
            (if doHeader then hdrlszV2 else 0) + (4 + min (2 * c.estsz % 2 ^ 32)
              (z.deflate ((pb.packNmsg (containerPrepare crc32c c sequence sequenceId).nmsg).take
                (serializedSize crc32c payloads doSequence sequence sequenceId % 2 ^ 32))).length)⟩ := by
        rw [← hlength]
        rfl
      rw [hextent]
      by_cases hne : payloads = []
      · have hpacked : (pb.packNmsg (containerPrepare crc32c c sequence sequenceId).nmsg).take
            (serializedSize crc32c payloads doSequence sequence sequenceId % 2 ^ 32) =
            pb.packNmsg ⟨[], [], if doSequence then some sequence else none,
              if doSequence then some sequenceId else none⟩ := by
          have hsmall := serializedSize_nil_lt crc32c doSequence sequence sequenceId
          rw [← hne] at hsmall
          rw [Nat.mod_eq_of_lt (by omega), ← hlength, List.take_length,
            containerPrepare_nmsg hnmsg' hseq', hne, List.map_nil]
        have hmin := hz.lt_length_deflate (pb.packNmsg ⟨[], [],
          if doSequence then some sequence else none, if doSequence then some sequenceId else none⟩)
        have hten : c.estsz = 10 := by rw [hestsz', hne]; rfl
        rw [hpacked, hten]
        rw [hten] at hroom
        constructor
        · rintro ⟨hzbTmp, hbuf⟩
          refine ⟨hroom.mp hzbTmp, fun _ _ => ?_⟩
          simp only [if_true, hdrlszV2] at hbuf
          cases doHeader with
          | false =>
              simp only [Bool.false_eq_true, if_false] at hbuf
              exact ⟨rfl, by omega⟩
          | true =>
              simp only [if_true] at hbuf
              omega
        · rintro ⟨hfits, hdeflated⟩
          obtain ⟨rfl, hle⟩ := hdeflated hne rfl
          refine ⟨hroom.mpr hfits, ?_⟩
          simp only [Bool.false_eq_true, if_false, if_true]
          omega
      · have hmin := estimates_ge hne doSequence
        constructor
        · rintro ⟨hzbTmp, -⟩
          exact ⟨hroom.mp hzbTmp, fun hnil => absurd hnil hne⟩
        · rintro ⟨hfits, -⟩
          have hzbTmp := hroom.mpr hfits
          refine ⟨hzbTmp, ?_⟩
          obtain ⟨input, hinput⟩ : ∃ input,
              (pb.packNmsg (containerPrepare crc32c c sequence sequenceId).nmsg).take
                (serializedSize crc32c payloads doSequence sequence sequenceId % 2 ^ 32) = input :=
            ⟨_, rfl⟩
          have hinputlen : input.length =
              serializedSize crc32c payloads doSequence sequence sequenceId % 2 ^ 32 := by
            rw [← hinput, List.length_take, hlength]
            exact Nat.min_eq_left (Nat.mod_le _ _)
          have hbound := hz.length_deflate_le input (by omega)
          rw [compressBound] at hbound
          rw [hinput]
          simp only [if_true]
          cases doHeader <;> simp only [Bool.false_eq_true, if_false, if_true, hdrlszV2] <;> omega

/-- Containers of payloads below two mebibytes fit. -/
theorem serializeFits_of_small (hsmall : ∀ np ∈ payloads, np.size < 2 ^ 21) (hne : payloads ≠ [])
    (doSequence doHeader doZlib : Bool) (sequence : UInt32) (sequenceId : UInt64) :
    SerializeFits pb z crc32c payloads doSequence doHeader doZlib sequence sequenceId := by
  have hle := serializedSize_le crc32c doSequence sequence sequenceId hsmall hne
  have hbalance := serialized_balance crc32c payloads doSequence sequence sequenceId
  refine ⟨?_, fun hnil => absurd hnil hne⟩
  have hhdr : (if doHeader = true ∧ doZlib = false then hdrlszV2 else 0) ≤ hdrlszV2 := by
    split
    · exact le_rfl
    · exact Nat.zero_le _
  omega

/-- A container that is serialized was written within its buffers, as far as the extent says. -/
theorem within_of_serialize_ok {out : Serialized} {c' : Container}
    (h : containerSerialize pb z crc32c c doHeader doZlib sequence sequenceId = .ok (out, c')) :
    (serializeExtent pb z crc32c c doHeader doZlib sequence sequenceId).Within c.estsz doZlib ∧
      out.buf.length =
        (serializeExtent pb z crc32c c doHeader doZlib sequence sequenceId).buf := by
  have hheader : ∀ flags len, (if doHeader then headerSerialize flags len else []).length =
      if doHeader then hdrlszV2 else 0 := by
    intro flags len
    cases doHeader <;> simp
  cases doZlib with
  | false =>
      simp only [containerSerialize, Bool.false_eq_true, if_false] at h
      have hroom : ¬ (if doHeader then hdrlszV2 else 0) +
          (pb.packNmsg (containerPrepare crc32c c sequence sequenceId).nmsg).length > c.estsz := by
        intro hover
        rw [if_pos hover] at h
        cases h
      rw [if_neg hroom] at h
      simp only [Except.ok.injEq, Prod.mk.injEq] at h
      obtain ⟨rfl, -⟩ := h
      simp only [serializeExtent, Bool.false_eq_true, if_false, List.length_append, hheader]
      refine ⟨⟨Nat.zero_le _, ?_⟩, trivial⟩
      simp only [Bool.false_eq_true, if_false]
      omega
  | true =>
      simp only [containerSerialize, if_true, containerPrepare_estsz] at h
      split at h
      · cases h
      rename_i hpacked
      simp only [nmsgZbufDeflate] at h
      by_cases havail : 2 * c.estsz % 2 ^ 32 < (z.deflate
          ((pb.packNmsg (containerPrepare crc32c c sequence sequenceId).nmsg).take
            ((pb.packNmsg (containerPrepare crc32c c sequence sequenceId).nmsg).length %
              2 ^ 32))).length
      · simp only [if_pos havail] at h
        cases h
      · simp only [if_neg havail] at h
        have hroom : ¬ (if doHeader then hdrlszV2 else 0) + (4 + (z.deflate
            ((pb.packNmsg (containerPrepare crc32c c sequence sequenceId).nmsg).take
              ((pb.packNmsg (containerPrepare crc32c c sequence sequenceId).nmsg).length %
                2 ^ 32))).length) > 2 * c.estsz := by
          intro hover
          rw [if_pos (by rwa [List.length_append, length_beBytes])] at h
          cases h
        rw [if_neg (by rwa [List.length_append, length_beBytes])] at h
        simp only [Except.ok.injEq, Prod.mk.injEq] at h
        obtain ⟨rfl, -⟩ := h
        have hmin := Nat.min_eq_right (Nat.not_lt.mp havail)
        simp only [serializeExtent, if_true, List.length_append, hheader, length_beBytes, hmin]
        refine ⟨⟨Nat.not_lt.mp hpacked, ?_⟩, trivial⟩
        simp only [if_true]
        omega

end Container

theorem serialize_within_iff_sample :
    (serializeExtent wire storedZlib (fun _ => 7) sampleContainer true true 5 6).Within 52 true ↔
      SerializeFits wire storedZlib (fun _ => 7) [samplePayload] true true true 5 6 := by
  have hinit : containerInit 512 = some ⟨⟨[], [], none, none⟩, 512, hdrlszV2, false⟩ := rfl
  have hadd : containerAddAll (containerSetSequence ⟨⟨[], [], none, none⟩, 512, hdrlszV2, false⟩
      true) [⟨⟨0, 0⟩, messageFromPayload samplePayload⟩] = .ok ([.success], sampleContainer) := rfl
  exact serialize_within_iff wire_lawful storedZlib_lawful hinit hadd true true 5 6

/-- **The sequence fields of an empty container** are written behind the ten octets allocated. -/
theorem empty_container_writes_beyond :
    containerInit 512 = some ⟨⟨[], [], none, none⟩, 512, 10, false⟩ ∧
      containerAddAll (containerSetSequence ⟨⟨[], [], none, none⟩, 512, 10, false⟩ true) [] =
        .ok ([], ⟨⟨[], [], none, none⟩, 512, 10, true⟩) ∧
      ¬ (serializeExtent wire storedZlib (fun _ => 7) ⟨⟨[], [], none, none⟩, 512, 10, true⟩ true
        false 5 6).Within 10 false := by
  refine ⟨rfl, rfl, ?_⟩
  rintro ⟨-, hbuf⟩
  revert hbuf
  decide

end Nmsg

import Mathlib.Algebra.Order.BigOperators.Group.List
import Nmsg.Proof.OutputFrag
import Nmsg.Stream

/-!
# Writing batches

A call on an output writes the batches its payload completes, each whole or in fragments, and keeps
the payloads that wait in the container. A payload is cut up only when it is alone in its container,
and then the room allocated is enough whatever its length.
-/

namespace Nmsg

open Octets WireFormat

variable {pb : ProtobufC} {z : Zlib} {crc32c : Bytes → UInt32}

/-! ### Sizes -/

section Sizes

variable {np : NmsgPayload} {nps : List NmsgPayload}

theorem size_le_payloadSize (np : NmsgPayload) : np.size ≤ payloadSize np := by
  unfold payloadSize NmsgPayload.size
  simp only
  omega

theorem payloadSize_le_estimate (np : NmsgPayload) :
    payloadSize np ≤ estimate false (payloadSize np) := by
  unfold estimate
  omega

theorem estimate_le (n : Nat) : estimate false n ≤ n + 11 := by
  unfold estimate
  simp only [Bool.false_eq_true, if_false]
  split <;> split <;> split <;> omega

@[simp]
theorem estimatedSize_nil : estimatedSize [] = hdrlszV2 := rfl

theorem estimatedSize_concat (nps : List NmsgPayload) (np : NmsgPayload) :
    estimatedSize (nps ++ [np]) = estimatedSize nps + estimate false (payloadSize np) := by
  simp [estimatedSize, estimates, Nat.add_assoc]

theorem estimatedSize_singleton (np : NmsgPayload) :
    estimatedSize [np] = hdrlszV2 + estimate false (payloadSize np) := by
  simp [estimatedSize, estimates]

theorem payloadSize_lt_estimatedSize (h : np ∈ nps) : payloadSize np < estimatedSize nps := by
  have hmem : estimate false (payloadSize np) ≤ estimates false nps :=
    List.le_sum_of_mem (List.mem_map.mpr ⟨np, h, rfl⟩)
  have hle := payloadSize_le_estimate np
  simp only [estimatedSize, hdrlszV2]
  omega

theorem estimatedSize_eq_hdrlszV2_iff : estimatedSize nps = hdrlszV2 ↔ nps = [] := by
  constructor
  · intro h
    by_contra hne
    obtain ⟨np, rest, rfl⟩ := List.exists_cons_of_ne_nil hne
    have hlt : 0 < estimate false (payloadSize np) := by
      unfold estimate
      omega
    simp only [estimatedSize, estimates, List.map_cons, List.sum_cons] at h
    omega
  · rintro rfl
    rfl

theorem serializedSize_false (nps : List NmsgPayload) :
    serializedSize crc32c nps false 0 0 =
      (nps.map fun np =>
        payloadFieldSize np + crcFieldSize (htonl (crc32c (np.payload.getD [])))).sum := by
  rw [serializedSize, if_neg Bool.false_ne_true, Nat.add_zero]

theorem length_packedPayloads (hpb : pb.Lawful) (nps : List NmsgPayload) :
    (packedPayloads pb crc32c nps).length = serializedSize crc32c nps false 0 0 := by
  rw [packedPayloads, hpb.length_packNmsg, serializedSize_false, ← sum_payloadFields]
  rfl

theorem size_le_serializedSize (h : np ∈ nps) :
    np.size ≤ serializedSize crc32c nps false 0 0 := by
  have hmem : payloadFieldSize np + crcFieldSize (htonl (crc32c (np.payload.getD []))) ≤
      serializedSize crc32c nps false 0 0 := by
    rw [serializedSize_false]
    exact List.le_sum_of_mem (List.mem_map.mpr ⟨np, h, rfl⟩)
  have hbytes : np.size ≤ optionalBytesSize np.payload := by
    unfold NmsgPayload.size
    cases np.payload with
    | none => simp
    | some b =>
        simp only [Option.getD_some, optionalBytesSize]
        omega
  have hpacked : optionalBytesSize np.payload ≤ payloadPackedSize np := by
    unfold payloadPackedSize
    omega
  simp only [payloadFieldSize] at hmem
  omega

theorem varintSize_le_of_le_add {k m n : Nat} (hn : n < 128 ^ (k + 1)) (hm : m ≤ n + 127) :
    varintSize m ≤ k + 2 := by
  apply varintSize_le
  have hone : 1 ≤ 128 ^ (k + 1) := Nat.one_le_two_pow.trans (Nat.pow_le_pow_left (by decide) _)
  rw [Nat.pow_succ 128 (k + 1)]
  omega

/-- The lengths that have too few digits in the estimate of a large payload fit in the ten octets
estimated for the header, which is not there when it is cut up. -/
theorem serializedSize_singleton_le {k : Nat} (hk : k ≤ 7) (h : np.size < 128 ^ (k + 1)) :
    serializedSize crc32c [np] false 0 0 ≤ estimatedSize [np] := by
  by_cases hsmall : np.size < 2 ^ 21
  · have hall : ∀ np' ∈ [np], np'.size < 2 ^ 21 := fun _ hmem => by
      rwa [List.mem_singleton.mp hmem]
    have hle := serializedSize_le crc32c false 0 0 hall (by simp)
    rw [estimatedSize]
    omega
  · have hvid := varintSize_uint32 np.vid
    have hmsgtype := varintSize_uint32 np.msgtype
    have hsec : int64Size np.timeSec ≤ 10 := varintSize_uint64 _
    have hsource := optionalSize_le np.source
    have hoperator := optionalSize_le np.operator
    have hgroup := optionalSize_le np.group
    have hcrc := crcFieldSize_le (htonl (crc32c (np.payload.getD [])))
    obtain ⟨b, hb⟩ : ∃ b, np.payload = some b := by
      cases hpayload : np.payload with
      | none => simp [NmsgPayload.size, hpayload] at hsmall
      | some b => exact ⟨b, rfl⟩
    have hsize : np.size = b.length := by rw [NmsgPayload.size, hb, Option.getD_some]
    have hlen : varintSize b.length ≤ k + 1 := varintSize_le (hsize ▸ h)
    have hzero : varintSize 0 = 1 := rfl
    have hpacked : payloadPackedSize np ≤ payloadSize np + 5 := by
      unfold payloadSize payloadPackedSize
      simp only [hb, optionalBytesSize, Option.map_some, Option.getD_some, List.length_nil, hzero]
      rw [if_pos (by omega), if_pos (by omega)]
      omega
    have hfield : varintSize (payloadPackedSize np) ≤ k + 2 := by
      apply varintSize_le_of_le_add h
      unfold payloadPackedSize
      simp only [hb, optionalBytesSize]
      omega
    have hlarge := size_le_payloadSize np
    have hestimate : estimate false (payloadSize np) = payloadSize np + 11 := by
      simp only [estimate, Bool.false_eq_true, if_false]
      rw [if_pos (by omega), if_pos (by omega), if_pos (by omega)]
    rw [estimatedSize_singleton, hestimate, serializedSize_false, List.map_cons, List.map_nil,
      List.sum_cons, List.sum_nil, payloadFieldSize, hdrlszV2]
    omega

end Sizes

/-! ### Adding a payload -/

section Add

variable {nps : List NmsgPayload} {np : NmsgPayload} {bufsz : Nat} {msg : Message}

/-- The container of payloads that wait. -/
def waitingContainer (bufsz : Nat) (nps : List NmsgPayload) : Container where
  nmsg := ⟨nps, [], none, none⟩
  bufsz := bufsz
  estsz := estimatedSize nps
  doSequence := false

/-- Changing the payload of a serialized message leaves it serialized. -/
theorem messageSerialize_override (now now' : WallTime) (msg : Message) (np' : NmsgPayload) :
    messageSerialize now' { messageSerialize now msg with np := some np' } =
      { messageSerialize now msg with np := some np' } := by
  unfold messageSerialize
  cases hmessage : msg.message with
  | none => simp only [hmessage]
  | some message =>
      by_cases hcond : msg.updated = true ∨ msg.np = none
      · simp [hcond]
      · have hdone : ¬ (msg.updated = true ∨ some np' = none) := by
          rintro (hupdated | hnone)
          · exact hcond (Or.inl hupdated)
          · cases hnone
        simp only [if_neg hcond, hmessage, if_neg hdone]

theorem containerAdd_waiting (bufsz : Nat) (nps : List NmsgPayload) (now : WallTime)
    (hmsg : messageSerialize now msg = msg)
    (hnp : msg.np = some np) :
    containerAdd now (waitingContainer bufsz nps) msg =
      if nps ≠ [] ∧ bufsz ≤ estimatedSize nps + payloadSize np + 32 then
        .ok (.containerFull, waitingContainer bufsz nps, msg)
      else
        .ok (if bufsz < estimatedSize (nps ++ [np]) then .containerOverfull else .success,
          waitingContainer bufsz (nps ++ [np]), { msg with np := none }) := by
  have hfull : (estimatedSize nps ≠ hdrlszV2 ∧ estimatedSize nps + payloadSize np + 32 ≥ bufsz) ↔
      nps ≠ [] ∧ bufsz ≤ estimatedSize nps + payloadSize np + 32 := by
    rw [ne_eq, estimatedSize_eq_hdrlszV2_iff]
  simp only [containerAdd, hmsg, hnp, waitingContainer, hfull]
  by_cases h : nps ≠ [] ∧ bufsz ≤ estimatedSize nps + payloadSize np + 32
  · rw [if_pos h, if_pos h]
  · rw [if_neg h, if_neg h]
    simp only [← estimatedSize_concat]
    by_cases hover : bufsz < estimatedSize (nps ++ [np])
    · rw [if_pos hover, if_pos hover]
    · rw [if_neg hover, if_neg hover]

/-- A payload that makes a container overfull is alone in it. -/
theorem eq_nil_of_overfull (hfull : ¬ (nps ≠ [] ∧ bufsz ≤ estimatedSize nps + payloadSize np + 32))
    (hover : bufsz < estimatedSize (nps ++ [np])) : nps = [] := by
  by_contra hne
  have hestimate := estimate_le (payloadSize np)
  rw [estimatedSize_concat] at hover
  exact hfull ⟨hne, by omega⟩

end Add

/-! ### Serializing -/

section Serialize

variable {s : StreamOutput} {nps : List NmsgPayload} {np : NmsgPayload}

/-- The payloads that wait, with room for them in the container. -/
structure Waiting (s : StreamOutput) (nps : List NmsgPayload) : Prop where
  c : s.c = waitingContainer s.bufsz nps
  doSequence : s.doSequence = false
  doFilter : s.doFilter = false
  room : nps ≠ [] → estimatedSize nps ≤ s.bufsz

theorem Waiting.next (h : Waiting s nps) (octets : Bytes) : Waiting (s.next octets) [] := by
  refine ⟨?_, h.doSequence, h.doFilter, fun hne => absurd rfl hne⟩
  simp only [StreamOutput.next, h.doSequence]
  rfl

theorem containerPrepare_waiting (bufsz : Nat) (sequence : UInt32) (sequenceId : UInt64) :
    pb.packNmsg (containerPrepare crc32c (waitingContainer bufsz nps) sequence sequenceId).nmsg =
      packedPayloads pb crc32c nps := by
  simp [containerPrepare, waitingContainer, packedPayloads]

theorem loaded_payloadCalcCrcs (hne : nps ≠ []) :
    Loaded crc32c (payloadCalcCrcs crc32c ⟨nps, [], none, none⟩) nps := by
  refine ⟨rfl, hne, ?_⟩
  intro idx np hnp
  simp [payloadCrcMatches, payloadCalcCrcs, hnp]

/-- A serialized container with room for itself carries its payloads. -/
theorem serialize_waiting (crc32c : Bytes → UInt32) (hpb : pb.Lawful) (hz : z.Lawful)
    (bufsz : Nat) (nps : List NmsgPayload) (doHeader doZlib : Bool)
    (sequence : UInt32) (sequenceId : UInt64)
    (hroom : (if doHeader then hdrlszV2 else 0) + serializedSize crc32c nps false 0 0 ≤
      estimatedSize nps)
    (hgrow : doZlib = true → 2 * estimatedSize nps < 2 ^ 32 ∧
      (if doHeader then hdrlszV2 else 0) + 4 + compressBound (serializedSize crc32c nps false 0 0) ≤
        2 * estimatedSize nps) :
    ∃ body c', body = containerBody pb z crc32c doZlib nps ∧
      containerSerialize pb z crc32c (waitingContainer bufsz nps) doHeader doZlib sequence
          sequenceId =
        .ok (⟨(if doHeader then headerSerialize (if doZlib then flagZlib else 0) body.length
          else []) ++ body, (if doHeader then hdrlszV2 else 0) + body.length⟩, c') ∧
      Carries pb z doZlib body (payloadCalcCrcs crc32c ⟨nps, [], none, none⟩) := by
  have hlength : (packedPayloads pb crc32c nps).length = serializedSize crc32c nps false 0 0 :=
    length_packedPayloads hpb nps
  have hunpack : pb.unpackNmsg (packedPayloads pb crc32c nps) =
      some (payloadCalcCrcs crc32c ⟨nps, [], none, none⟩) := hpb.unpackNmsg_packNmsg _
  have hpacked : pb.packNmsg (containerPrepare crc32c (waitingContainer bufsz nps) sequence
      sequenceId).nmsg = packedPayloads pb crc32c nps :=
    containerPrepare_waiting bufsz sequence sequenceId
  obtain ⟨body, hbody, hserialize, hlt⟩ := containerSerialize_eq hz doHeader doZlib sequence
    sequenceId hpacked (by rw [hlength]; exact hroom) (by rw [hlength]; exact hgrow)
  refine ⟨body, _, hbody, hserialize, ?_⟩
  cases doZlib with
  | false => simpa [Carries, hbody] using hunpack
  | true =>
      obtain ⟨hpacked, hlong⟩ := hlt rfl
      simp only [Carries, if_true]
      exact ⟨_, by rw [hbody, if_pos rfl], hpacked, hlong, hunpack⟩

theorem size_lt_of_mem (hle : estimatedSize nps ≤ wbufszMax) (hmem : np ∈ nps) :
    np.size < 2 ^ 21 := by
  have hsize := size_le_payloadSize np
  have hlt := payloadSize_lt_estimatedSize hmem
  simp only [wbufszMax] at hle
  omega

/-- **A container is written whole.** -/
theorem outputNmsgWriteContainer_waiting (hpb : pb.Lawful) (hz : z.Lawful)
    (hc : s.c = waitingContainer s.bufsz nps) (hne : nps ≠ []) (hroom : estimatedSize nps ≤ s.bufsz)
    (hfits : s.config.doZlib = true →
      (containerBody pb z crc32c s.config.doZlib nps).length ≤ wbufszMax) :
    ∃ cs, Emission pb z crc32c nps cs ∧ outputNmsgWriteContainer pb z crc32c s =
      .ok (.success, s.next (cs.flatMap FileContainer.encode)) := by
  have hmax := Nat.le_trans hroom s.bufsz_le
  have hsmall : ∀ np ∈ nps, np.size < 2 ^ 21 := fun np hmem => size_lt_of_mem hmax hmem
  have hpacked := serializedSize_le crc32c false 0 0 hsmall hne
  have hmin := fifteen_le_serializedSize crc32c false 0 0 hne
  have hestimated : estimatedSize nps = hdrlszV2 + estimates false nps := rfl
  have hten : hdrlszV2 = 10 := rfl
  have hmebibyte : wbufszMax = 1048576 := rfl
  obtain ⟨body, c', hbody, hserialize, hcarries⟩ := serialize_waiting crc32c hpb hz s.bufsz nps
    true s.config.doZlib s.sequence s.sequenceId (by rw [if_pos rfl]; omega)
    (fun _ => ⟨by omega, by rw [if_pos rfl, compressBound]; omega⟩)
  refine ⟨[.v2 (if s.config.doZlib then flagZlib else 0) body], ?_, ?_⟩
  · refine .whole ?_ ?_ ?_ (loaded_payloadCalcCrcs hne)
    · cases s.config.doZlib <;> decide
    · rw [hbody]
      cases hzlib : s.config.doZlib with
      | false =>
          rw [containerBody, if_neg Bool.false_ne_true, length_packedPayloads hpb]
          omega
      | true => exact hzlib ▸ hfits hzlib
    · cases hzlib : s.config.doZlib <;> rw [hzlib] at hcarries
      · simpa [flagZlib] using hcarries
      · simpa [flagZlib] using hcarries
  · simp only [outputNmsgWriteContainer, hc, hserialize, if_true]
    rw [if_neg (by simp)]
    simp [FileContainer.encode, FileContainer.header, FileContainer.body, List.take_of_length_le]

end Serialize

/-! ### Fragments -/

section Fragments

variable {s : StreamOutput} {nps : List NmsgPayload} {np : NmsgPayload} {id : UInt32}
  {body : Bytes}

/-- A container of an output as it is cut up. -/
def cutContainer (crc32c : Bytes → UInt32) (s : StreamOutput) (id : UInt32) (body : Bytes)
    (nps : List NmsgPayload) : FragmentedContainer where
  id := id
  crc := some (htonl (crc32c body))
  addrSs := .other 0 []
  flags := s.fragFlags
  pieces := Chunks.chunks (s.bufsz - 32) body
  nmsg := payloadCalcCrcs crc32c ⟨nps, [], none, none⟩

theorem fragment_cutContainer (huneven : body.length % (s.bufsz - 32) ≠ 0) {k : Nat}
    (hk : k < pieceCount s.bufsz body) :
    (cutContainer crc32c s id body nps).fragment k =
      pieceFragment s.bufsz (fragHead crc32c s.bufsz id body) body k := by
  have hpos : 0 < s.bufsz - 32 := by
    have hmin := s.le_bufsz
    simp only [wbufszMin] at hmin
    omega
  have hpiece := Chunks.getD_chunks hpos ((lt_pieceCount_iff s.le_bufsz).mp hk)
  have hlast : (Chunks.chunks (s.bufsz - 32) body).length - 1 = body.length / (s.bufsz - 32) := by
    rw [Chunks.length_chunks, Chunks.length_chunks_of_mod_ne_zero hpos huneven, Nat.add_sub_cancel]
  simp only [FragmentedContainer.fragment, FragmentedContainer.last, cutContainer, pieceFragment,
    fragHead, hpiece, hlast]

theorem cutContainer_flags (s : StreamOutput) :
    s.fragFlags &&& flagFragment ≠ 0 ∧
      (s.fragFlags &&& flagZlib ≠ 0 ↔ s.config.doZlib = true) := by
  unfold StreamOutput.fragFlags
  cases s.config.doZlib <;> decide

/-- The fragments of a container are those of an emission. -/
theorem emission_fragments (hpb : pb.Lawful) (hne : nps ≠ [])
    (hcarries : Carries pb z s.config.doZlib body (payloadCalcCrcs crc32c ⟨nps, [], none, none⟩))
    (huneven : body.length % (s.bufsz - 32) ≠ 0) (hfew : pieceCount s.bufsz body < 2 ^ 31)
    (id : UInt32) :
    ∃ cs, Emission pb z crc32c nps cs ∧
      cs.flatMap FileContainer.encode =
        (sentFragments crc32c s.bufsz id body).flatMap (encodeFragment pb s.fragFlags) := by
  have hmin := s.le_bufsz
  have hmax := s.bufsz_le
  have hpos : 0 < s.bufsz - 32 := by
    simp only [wbufszMin] at hmin
    omega
  have hcount : (cutContainer crc32c s id body nps).pieces.length = pieceCount s.bufsz body :=
    Chunks.length_chunks
  have huneven' := pieceCount_of_uneven hmin huneven
  obtain ⟨hfragment, hzlib⟩ := cutContainer_flags s
  refine ⟨(List.range (cutContainer crc32c s id body nps).pieces.length).map
    ((cutContainer crc32c s id body nps).inFile pb), .fragments ?_ (by omega) rfl ?_
      (loaded_payloadCalcCrcs hne), ?_⟩
  · refine ⟨?_, Chunks.nil_notMem_chunks hpos, by omega, hfragment, ?_⟩
    · apply List.ne_nil_of_length_pos
      rw [hcount, huneven']
      exact Nat.succ_pos _
    · have hflag : (cutContainer crc32c s id body nps).zlib = s.config.doZlib := by
        rw [FragmentedContainer.zlib, Bool.eq_iff_iff, decide_eq_true_eq]
        exact hzlib
      have hflatten : (cutContainer crc32c s id body nps).pieces.flatten = body :=
        Chunks.flatten_chunks hpos body
      rw [hflag, hflatten]
      exact hcarries
  · intro k hk
    rw [hcount] at hk
    rw [fragment_cutContainer huneven hk]
    have hpiece := length_pieceFragment_le s.bufsz (fragHead crc32c s.bufsz id body) body k
    have hlen := length_packFragment_le hpb hmax hpiece
    simp only [wbufszMin] at hmin
    omega
  · rw [hcount, sentFragments, List.flatMap_map, List.flatMap_map]
    apply List.flatMap_congr
    intro k hk
    rw [FragmentedContainer.inFile, fragment_cutContainer huneven (List.mem_range.mp hk)]
    rfl

/-- **A container is written in fragments.** -/
theorem outputFragWrite_waiting (hpb : pb.Lawful) (hz : z.Lawful)
    (hc : s.c = waitingContainer s.bufsz [np]) (hover : s.bufsz < estimatedSize [np])
    (hfits : (⟨[np], true⟩ : Batch).Fits pb z crc32c s.bufsz s.config.doZlib) (id : UInt32) :
    ∃ cs, Emission pb z crc32c [np] cs ∧ outputFragWrite pb z crc32c s id =
      .ok (.success, s.next (cs.flatMap FileContainer.encode)) := by
  have hmin := s.le_bufsz
  have hmax := s.bufsz_le
  simp only [wbufszMin] at hmin
  simp only [wbufszMax] at hmax
  have hcounted : if s.config.doZlib then 2 * estimatedSize [np] < 2 ^ 32
      else (containerBody pb z crc32c s.config.doZlib [np]).length / (s.bufsz - 32) + 1 < 2 ^ 31 :=
    hfits.counted rfl
  have hsize : np.size < 128 ^ (7 + 1) := by
    cases hzlib : s.config.doZlib with
    | false =>
        rw [hzlib, if_neg Bool.false_ne_true, containerBody, if_neg Bool.false_ne_true,
          length_packedPayloads hpb] at hcounted
        have hle : np.size ≤ serializedSize crc32c [np] false 0 0 :=
          size_le_serializedSize (List.mem_singleton_self np)
        have hlt := (Nat.div_lt_iff_lt_mul (by omega)).mp (Nat.lt_sub_of_add_lt hcounted)
        have hbound := Nat.mul_le_mul_left (2 ^ 31 - 1) (show s.bufsz - 32 ≤ 1048576 by omega)
        exact Nat.lt_of_le_of_lt hle (Nat.lt_of_lt_of_le hlt (Nat.le_trans hbound (by decide)))
    | true =>
        rw [hzlib, if_pos rfl] at hcounted
        have hle := size_le_payloadSize np
        have hlt := payloadSize_lt_estimatedSize (List.mem_singleton_self np)
        exact Nat.lt_of_lt_of_le (show np.size < 2 ^ 32 by omega) (by decide)
  have hroom : serializedSize crc32c [np] false 0 0 ≤ estimatedSize [np] :=
    serializedSize_singleton_le le_rfl hsize
  clear hsize
  obtain ⟨body, c', hbody, hserialize, hcarries⟩ := serialize_waiting crc32c hpb hz s.bufsz [np]
    false s.config.doZlib s.sequence s.sequenceId
    (by rw [if_neg Bool.false_ne_true, Nat.zero_add]; exact hroom)
    (fun hzlib => by
      rw [hzlib, if_pos rfl] at hcounted
      refine ⟨hcounted, ?_⟩
      rw [if_neg Bool.false_ne_true, compressBound]
      omega)
  have hlong := hfits.long rfl
  have huneven := hfits.uneven rfl
  rw [← hbody] at hlong huneven
  have hreaches : ReachesLoop pb z crc32c s body := by
    refine ⟨_, c', by rw [hc]; exact hserialize, ?_, ?_, hlong⟩
    · simp
    · simp [List.take_of_length_le]
  have hfew : pieceCount s.bufsz body < 2 ^ 31 := by
    rw [pieceCount_of_uneven s.le_bufsz huneven]
    cases hzlib : s.config.doZlib with
    | false =>
        rw [hzlib, if_neg Bool.false_ne_true] at hcounted
        rwa [hbody, hzlib]
    | true =>
        rw [hzlib] at hcarries
        simp only [Carries, if_true] at hcarries
        obtain ⟨packed, -, -, hlen, -⟩ := hcarries
        have hdiv := Nat.div_le_div_left (show 480 ≤ s.bufsz - 32 by omega) (show 0 < 480 by omega)
          (a := body.length)
        omega
  obtain ⟨cs, hemission, hoctets⟩ :=
    emission_fragments hpb (List.cons_ne_nil np []) hcarries huneven hfew id
  exact ⟨cs, hemission, by rw [hoctets]; exact outputFragWrite_fragments hpb hreaches hfew id⟩

end Fragments

/-! ### Calls -/

section Calls

variable {s s' t : StreamOutput} {nps waiting : List NmsgPayload} {np : NmsgPayload}
  {cs : List FileContainer} {bs bs' : List Batch}

/-- These batches were written between two states of an output. -/
def Writes (pb : ProtobufC) (z : Zlib) (crc32c : Bytes → UInt32) (s s' : StreamOutput)
    (bs : List Batch) : Prop :=
  s'.bufsz = s.bufsz ∧ s'.config = s.config ∧
    ∃ es : Emissions, (∀ e ∈ es, Emission pb z crc32c e.1 e.2) ∧
      es.map Prod.fst = bs.map Batch.payloads ∧
      s'.written = s.written ++ (es.flatMap Prod.snd).flatMap FileContainer.encode

theorem writes_nil (s : StreamOutput) (c : Container) : Writes pb z crc32c s { s with c := c } [] := by
  refine ⟨rfl, rfl, [], fun _ he => (List.not_mem_nil he).elim, rfl, ?_⟩
  simp

theorem writes_next (s : StreamOutput) (fragmented : Bool) (h : Emission pb z crc32c nps cs) :
    Writes pb z crc32c s (s.next (cs.flatMap FileContainer.encode)) [⟨nps, fragmented⟩] := by
  refine ⟨rfl, rfl, [(nps, cs)], ?_, rfl, ?_⟩
  · intro e he
    rw [List.mem_singleton.mp he]
    exact h
  · simp [StreamOutput.next]

theorem Writes.trans (h : Writes pb z crc32c s s' bs) (h' : Writes pb z crc32c s' t bs') :
    Writes pb z crc32c s t (bs ++ bs') := by
  obtain ⟨hbufsz, hconfig, es, hes, hpayloads, hwritten⟩ := h
  obtain ⟨hbufsz', hconfig', es', hes', hpayloads', hwritten'⟩ := h'
  refine ⟨hbufsz'.trans hbufsz, hconfig'.trans hconfig, es ++ es', ?_, ?_, ?_⟩
  · intro e he
    rcases List.mem_append.mp he with he | he
    · exact hes e he
    · exact hes' e he
  · rw [List.map_append, List.map_append, hpayloads, hpayloads']
  · rw [hwritten', hwritten, List.flatMap_append, List.flatMap_append, List.append_assoc]

/-- A payload that a container was not too full for, with the container as it is then. -/
theorem join_spec (hpb : pb.Lawful) (hz : z.Lawful) (hw : Waiting s waiting) (np : NmsgPayload)
    (hfull : ¬ (waiting ≠ [] ∧ s.bufsz ≤ estimatedSize waiting + payloadSize np + 32))
    (buffered : Bool) (id : UInt32)
    (hfits : ∀ b ∈ (joinBatch s.bufsz buffered waiting np).1,
      b.Fits pb z crc32c s.bufsz s.config.doZlib) :
    ∃ s', (if s.bufsz < estimatedSize (waiting ++ [np]) then
          outputFragWrite pb z crc32c { s with c := waitingContainer s.bufsz (waiting ++ [np]) } id
        else if buffered = false then
          outputNmsgWriteContainer pb z crc32c
            { s with c := waitingContainer s.bufsz (waiting ++ [np]) }
        else .ok (.success, { s with c := waitingContainer s.bufsz (waiting ++ [np]) })) =
        .ok (.success, s') ∧
      Writes pb z crc32c s s' (joinBatch s.bufsz buffered waiting np).1 ∧
      Waiting s' (joinBatch s.bufsz buffered waiting np).2 := by
  have hadded : ∀ room : waiting ++ [np] ≠ [] → estimatedSize (waiting ++ [np]) ≤ s.bufsz,
      Waiting { s with c := waitingContainer s.bufsz (waiting ++ [np]) } (waiting ++ [np]) :=
    fun room => ⟨rfl, hw.doSequence, hw.doFilter, room⟩
  have hnext : ∀ octets, Waiting
      (StreamOutput.next { s with c := waitingContainer s.bufsz (waiting ++ [np]) } octets) [] := by
    intro octets
    refine ⟨?_, hw.doSequence, hw.doFilter, fun hne => absurd rfl hne⟩
    simp only [StreamOutput.next, hw.doSequence]
    rfl
  by_cases hover : s.bufsz < estimatedSize (waiting ++ [np])
  · obtain rfl := eq_nil_of_overfull hfull hover
    simp only [joinBatch, if_pos hover] at hfits ⊢
    obtain ⟨cs, hemission, hok⟩ := outputFragWrite_waiting
      (s := { s with c := waitingContainer s.bufsz ([] ++ [np]) }) hpb hz rfl hover
      (hfits _ (List.mem_singleton_self _)) id
    exact ⟨_, hok, writes_next _ true hemission, hnext _⟩
  · simp only [joinBatch, if_neg hover] at hfits ⊢
    cases buffered with
    | true =>
        refine ⟨_, rfl, writes_nil s _, hadded fun _ => ?_⟩
        omega
    | false =>
        simp only [Bool.false_eq_true, if_false] at hfits ⊢
        obtain ⟨cs, hemission, hok⟩ := outputNmsgWriteContainer_waiting
          (s := { s with c := waitingContainer s.bufsz (waiting ++ [np]) }) hpb hz rfl
          (by simp) (by simp only; omega) ((hfits _ (List.mem_singleton_self _)).whole rfl)
        exact ⟨_, hok, writes_next _ false hemission, hnext _⟩

theorem outputNmsgWrite_spec (hpb : pb.Lawful) (hz : z.Lawful) (hw : Waiting s waiting)
    {now : WallTime} {id : UInt32} {msg : Message} (hnp : (messageSerialize now msg).np = some np)
    (hfits : ∀ b ∈ (batchStep s.bufsz s.config waiting (.write now id msg)).1,
      b.Fits pb z crc32c s.bufsz s.config.doZlib) :
    ∃ s', outputNmsgWrite pb z crc32c s now id (messageSerialize now msg) = .ok (.success, s') ∧
      Writes pb z crc32c s s' (batchStep s.bufsz s.config waiting (.write now id msg)).1 ∧
      Waiting s' (batchStep s.bufsz s.config waiting (.write now id msg)).2 := by
  have hpayload : OutputOp.payload s.config (.write now id msg) = some (s.config.override np) := by
    simp [OutputOp.payload, hnp]
  have hmsg := messageSerialize_override now now msg (s.config.override np)
  have hadd := fun bufsz nps => containerAdd_waiting bufsz nps now hmsg rfl
  simp only [batchStep, hpayload] at hfits ⊢
  simp only [outputNmsgWrite, hnp, hw.c, hadd]
  by_cases hfull : waiting ≠ [] ∧
      s.bufsz ≤ estimatedSize waiting + payloadSize (s.config.override np) + 32
  · simp only [if_pos hfull] at hfits ⊢
    obtain ⟨cs, hemission, hok⟩ := outputNmsgWriteContainer_waiting
      (s := { s with c := waitingContainer s.bufsz waiting }) hpb hz rfl hfull.1
      (hw.room hfull.1) ((hfits _ List.mem_cons_self).whole rfl)
    have hw' : Waiting (StreamOutput.next { s with c := waitingContainer s.bufsz waiting }
        (cs.flatMap FileContainer.encode)) [] := by
      rw [← hw.c]
      exact hw.next _
    have hwrites' : Writes pb z crc32c s (StreamOutput.next
        { s with c := waitingContainer s.bufsz waiting } (cs.flatMap FileContainer.encode))
        [⟨waiting, false⟩] := writes_next _ false hemission
    obtain ⟨s₁, hs₁⟩ : ∃ s₁, StreamOutput.next { s with c := waitingContainer s.bufsz waiting }
        (cs.flatMap FileContainer.encode) = s₁ := ⟨_, rfl⟩
    rw [hs₁] at hok hw' hwrites'
    have hbufsz := hwrites'.1
    have hconfig := hwrites'.2.1
    obtain ⟨s', hjoin, hwrites, hwaiting⟩ := join_spec hpb hz hw' (s.config.override np) (by simp)
      true id (by
        rw [hbufsz, hconfig]
        exact fun b hb => hfits b (List.mem_cons_of_mem _ hb))
    rw [hbufsz] at hwrites hwaiting
    refine ⟨s', ?_, hwrites'.trans hwrites, hwaiting⟩
    rw [hok]
    simp only [ne_eq, not_true_eq_false, if_false, hw'.c, hadd, false_and]
    by_cases hover : s₁.bufsz < estimatedSize ([] ++ [s.config.override np])
    · rw [if_pos hover] at hjoin ⊢
      exact hjoin
    · rw [if_neg hover] at hjoin ⊢
      exact hjoin
  · simp only [if_neg hfull] at hfits ⊢
    obtain ⟨s', hjoin, hwrites, hwaiting⟩ := join_spec hpb hz hw (s.config.override np) hfull
      s.config.buffered id hfits
    refine ⟨s', ?_, hwrites, hwaiting⟩
    by_cases hover : s.bufsz < estimatedSize (waiting ++ [s.config.override np])
    · rw [if_pos hover] at hjoin ⊢
      exact hjoin
    · rw [if_neg hover] at hjoin ⊢
      exact hjoin

/-- **One call.** It succeeds, writes the batches it completes and keeps the payloads that wait. -/
theorem outputStep_spec (hpb : pb.Lawful) (hz : z.Lawful) (hw : Waiting s waiting) {op : OutputOp}
    (hready : op.Ready)
    (hfits : ∀ b ∈ (batchStep s.bufsz s.config waiting op).1,
      b.Fits pb z crc32c s.bufsz s.config.doZlib) :
    ∃ s', outputStep pb z crc32c s op = .ok (.success, s') ∧
      Writes pb z crc32c s s' (batchStep s.bufsz s.config waiting op).1 ∧
      Waiting s' (batchStep s.bufsz s.config waiting op).2 := by
  cases op with
  | write now id msg =>
      obtain ⟨np, hnp⟩ := Option.ne_none_iff_exists'.mp hready
      obtain ⟨s', hok, hspec⟩ := outputNmsgWrite_spec hpb hz hw hnp hfits
      refine ⟨s', ?_, hspec⟩
      simp only [outputStep, nmsgOutputWrite, hnp, hw.doFilter]
      simpa using hok
  | flush =>
      have hpayloads : s.c.nmsg.payloads = waiting := by rw [hw.c]; rfl
      simp only [batchStep, OutputOp.payload, outputStep, nmsgOutputFlush, hpayloads] at hfits ⊢
      by_cases hne : waiting = []
      · simp only [hne, if_true, ne_eq, not_true_eq_false, if_false]
        exact ⟨s, rfl, writes_nil s s.c, hne ▸ hw⟩
      · simp only [if_neg hne] at hfits ⊢
        obtain ⟨cs, hemission, hok⟩ := outputNmsgWriteContainer_waiting hpb hz hw.c hne
          (hw.room hne) ((hfits _ (List.mem_singleton_self _)).whole rfl)
        exact ⟨_, by simpa [hne] using hok, writes_next s false hemission, hw.next _⟩

theorem waiting_openFile (bufsz : Nat) (config : OutputConfig) :
    Waiting (StreamOutput.openFile bufsz config) [] :=
  ⟨rfl, rfl, rfl, fun hne => absurd rfl hne⟩

/-- By induction on the calls. -/
theorem run_writes (hpb : pb.Lawful) (hz : z.Lawful) (hw : Waiting s waiting) {ops : List OutputOp}
    (hready : ∀ op ∈ ops, op.Ready)
    (hfits : ∀ b ∈ batches s.bufsz s.config waiting ops,
      b.Fits pb z crc32c s.bufsz s.config.doZlib) :
    ∃ results s', StepRun.run (outputStep pb z crc32c) s ops = .ok (results, s') ∧
      (∀ res ∈ results, res = .success) ∧
      Writes pb z crc32c s s' (batches s.bufsz s.config waiting ops) := by
  induction ops generalizing s waiting with
  | nil => exact ⟨[], s, rfl, fun _ h => (List.not_mem_nil h).elim, writes_nil s s.c⟩
  | cons op ops ih =>
      rw [batches] at hfits
      obtain ⟨s₁, hok, hwrites, hw₁⟩ := outputStep_spec hpb hz hw (hready op (by simp))
        fun b hb => hfits b (List.mem_append_left _ hb)
      have hbufsz := hwrites.1
      have hconfig := hwrites.2.1
      obtain ⟨results, s', hrun, hresults, hrest⟩ := ih hw₁
        (fun op' hop => hready op' (by simp [hop]))
        (by rw [hbufsz, hconfig]; exact fun b hb => hfits b (List.mem_append_right _ hb))
      refine ⟨.success :: results, s', StepRun.run_cons_eq_ok.mpr ⟨_, _, _, hok, hrun, rfl⟩, ?_, ?_⟩
      · intro res hres
        rcases List.mem_cons.mp hres with rfl | hres
        · rfl
        · exact hresults res hres
      · rw [hbufsz, hconfig] at hrest
        exact hwrites.trans hrest

end Calls

/-! ### Batches keep every payload -/

section Keep

variable {bufsz : Nat} {config : OutputConfig} {waiting : List NmsgPayload}

theorem joinBatch_payloads (bufsz : Nat) (buffered : Bool) (waiting : List NmsgPayload)
    (np : NmsgPayload) :
    (joinBatch bufsz buffered waiting np).1.flatMap Batch.payloads ++
      (joinBatch bufsz buffered waiting np).2 = waiting ++ [np] := by
  unfold joinBatch
  split
  · simp
  · split <;> simp

theorem batchStep_payloads (bufsz : Nat) (config : OutputConfig) (waiting : List NmsgPayload)
    (op : OutputOp) :
    (batchStep bufsz config waiting op).1.flatMap Batch.payloads ++
      (batchStep bufsz config waiting op).2 = waiting ++ (op.payload config).toList := by
  unfold batchStep
  cases op.payload config with
  | none =>
      by_cases hne : waiting = []
      · simp [hne]
      · simp [hne]
  | some np =>
      by_cases hfull : waiting ≠ [] ∧ bufsz ≤ estimatedSize waiting + payloadSize np + 32
      · simp only [if_pos hfull, List.flatMap_cons, List.append_assoc, joinBatch_payloads]
        simp
      · simp only [if_neg hfull, joinBatch_payloads]
        simp

theorem batchStep_flush_waiting (bufsz : Nat) (config : OutputConfig)
    (waiting : List NmsgPayload) : (batchStep bufsz config waiting .flush).2 = [] := rfl

/-- Batches that end with a flush hold every payload once and in order. -/
theorem batches_payloads (bufsz : Nat) (config : OutputConfig) (waiting : List NmsgPayload)
    (ops : List OutputOp) :
    (batches bufsz config waiting (ops ++ [.flush])).flatMap Batch.payloads =
      waiting ++ ops.filterMap (OutputOp.payload config) := by
  induction ops generalizing waiting with
  | nil =>
      have hstep := batchStep_payloads bufsz config waiting .flush
      rw [batchStep_flush_waiting] at hstep
      simpa [batches, OutputOp.payload] using hstep
  | cons op ops ih =>
      rw [List.cons_append, batches, List.flatMap_append, ih, ← List.append_assoc,
        batchStep_payloads, List.filterMap_cons]
      cases op.payload config with
      | none => simp
      | some np => simp

end Keep

end Nmsg

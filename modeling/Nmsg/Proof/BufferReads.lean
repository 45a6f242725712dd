import Nmsg.Input.Null
import Nmsg.Proof.UnpackResult

/-!
# What the buffer decoders read

The header is read when four octets of it are there, though it has ten. The length of a compressed
container is read in front of the stream, and `inflate` is then given as many octets as the
container has, from behind those four on.
-/

namespace Nmsg

open Octets

/-- How far `_input_nmsg_deserialize_header` reads into the memory from `buf` on. -/
def headerReach (mem : Bytes) (bufLen : Nat) : Nat :=
  if bufLen < lenhdrszV2 then 0
  else if mem.take 4 ≠ magic then 4
  else if beNat ((mem.drop 4).take 2) % 256 ≠ 2 then hdrsz
  else hdrlszV2

/-- How far `nmsg_zbuf_inflate` reads, or lets `inflate` read, into `zLen` octets at `z_buf`. -/
def inflateReach (zLen : Nat) (uBufOk : Bool) : Nat :=
  if uBufOk = false then 4 else 4 + zLen % 2 ^ 32

/-- How far a body of `len` octets is read that is no fragment. -/
def bodyReach (flags : UInt8) (len : Nat) (uBufOk : Bool) : Nat :=
  if flags &&& flagZlib ≠ 0 then inflateReach len uBufOk else len

/-- What both decoders read of the memory from `buf` on: the header, and the body of a container
that is whole. -/
def decoderReads {R : Type*} (header : Nat → R) (body : UInt8 → Nat → R) (mem : Bytes)
    (bufLen : Nat) : R :=
  match inputNmsgDeserializeHeader mem bufLen with
  | .ok (.ok (flags, msgsize)) =>
      if bufLen < hdrlszV2 ∨ msgsize ≠ bufLen - hdrlszV2 then header (headerReach mem bufLen)
      else body flags msgsize
  | _ => header (headerReach mem bufLen)

/-- How far `nmsg_container_deserialize` reads. -/
def containerDeserializeReach (mem : Bytes) (bufLen : Nat) (uBufOk : Bool) : Nat :=
  decoderReads id (fun flags msgsize =>
    if flags &&& flagFragment ≠ 0 then hdrlszV2 else hdrlszV2 + bodyReach flags msgsize uBufOk)
    mem bufLen

/-- The octets allocated for those put together from fragments. -/
def paddedLen (len : Nat) : Nat := if len % 1024 ≠ 0 then len + (1024 - len % 1024) else len

/-- How far `nmsg_input_read_null` reads into the memory from `buf` on, and for a container it puts
together from fragments, how far it reads into its octets and how many are allocated for them. -/
structure NullReads where
  buf : Nat
  payload : Nat
  allocated : Nat
deriving DecidableEq

section Null

variable (pb : ProtobufC) {z : Zlib}

/-- What `nmsg_input_read_null` reads. -/
def nmsgInputReadNullReads (s : NullInput z) (env : CallEnv) (now : Timespec) (mem : Bytes)
    (bufLen : Nat) : NullReads :=
  decoderReads (⟨·, 0, 0⟩) (fun flags msgsize =>
    if flags &&& flagFragment ≠ 0 then
      let body := (mem.drop hdrlszV2).take msgsize
      let call : UnpackCall := ⟨env, ⟨flags, now, .other 0 []⟩, body⟩
      match (pb.unpackFragment body).bind (call.completed s.decoder) with
      | none => ⟨hdrlszV2 + msgsize, 0, 0⟩
      | some octets =>
          ⟨hdrlszV2 + msgsize, bodyReach flags octets.length env.uBufOk, paddedLen octets.length⟩
    else ⟨hdrlszV2 + bodyReach flags msgsize env.uBufOk, 0, 0⟩)
    mem bufLen

end Null

/-! ### Headers -/

/-- The buffer ends within a header that is read to its end. -/
def CutHeader (buf : Bytes) : Prop :=
  lenhdrszV2 ≤ buf.length ∧ buf.length < hdrlszV2 ∧ buf.take 4 = magic ∧
    (buf.length < hdrsz ∨ beNat ((buf.drop 4).take 2) % 256 = 2)

/-- The buffer is a container as its header describes it, with these flags. -/
def WholeContainer (buf : Bytes) (flags : UInt8) : Prop :=
  hdrlszV2 ≤ buf.length ∧
    inputNmsgDeserializeHeader buf buf.length = .ok (.ok (flags, buf.length - hdrlszV2))

section Header

variable {buf past : Bytes}

theorem take_append_past {n : Nat} (h : n ≤ buf.length) (past : Bytes) :
    (buf ++ past).take n = buf.take n := List.take_append_of_le_length h

theorem drop_take_append_past {k n : Nat} (h : k + n ≤ buf.length) (past : Bytes) :
    ((buf ++ past).drop k).take n = (buf.drop k).take n := by
  rw [List.drop_append_of_le_length (by omega),
    List.take_append_of_le_length (by rw [List.length_drop]; omega)]

/-- The header is read within the buffer exactly when it is not cut. -/
theorem headerReach_le_iff (buf past : Bytes) :
    headerReach (buf ++ past) buf.length ≤ buf.length ↔ ¬ CutHeader buf := by
  have hlen : lenhdrszV2 = 4 := rfl
  have hsz : hdrsz = 6 := rfl
  have hlsz : hdrlszV2 = 10 := rfl
  unfold headerReach CutHeader
  by_cases hshort : buf.length < lenhdrszV2
  · rw [if_pos hshort]
    exact ⟨fun _ h => by omega, fun _ => Nat.zero_le _⟩
  rw [if_neg hshort, take_append_past (by omega)]
  by_cases hmagic : buf.take 4 ≠ magic
  · rw [if_pos hmagic]
    exact ⟨fun _ h => hmagic h.2.2.1, fun _ => by omega⟩
  rw [if_neg hmagic]
  rw [ne_eq, not_not] at hmagic
  by_cases hversion : buf.length < hdrsz
  · have hreach : ∀ p : Prop, ∀ [Decidable p], hdrsz ≤ if p then hdrsz else hdrlszV2 := by
      intro p _
      split <;> omega
    constructor
    · intro h
      exact absurd (Nat.le_trans (hreach _) h) (by omega)
    · intro h
      exact absurd ⟨by omega, by omega, hmagic, Or.inl hversion⟩ h
  · rw [drop_take_append_past (by omega)]
    by_cases htwo : beNat ((buf.drop 4).take 2) % 256 ≠ 2
    · rw [if_pos htwo]
      exact ⟨fun _ h => htwo (h.2.2.2.resolve_left hversion), fun _ => by omega⟩
    · rw [if_neg htwo]
      rw [ne_eq, not_not] at htwo
      constructor
      · intro h hcut
        omega
      · intro h
        by_contra hlong
        exact h ⟨by omega, by omega, hmagic, Or.inr htwo⟩

/-- A header that is not cut is read the same whatever lies behind the buffer. -/
theorem inputNmsgDeserializeHeader_append (h : ¬ CutHeader buf) (past : Bytes) :
    inputNmsgDeserializeHeader (buf ++ past) buf.length =
      inputNmsgDeserializeHeader buf buf.length := by
  have hlen : lenhdrszV2 = 4 := rfl
  have hsz : hdrsz = 6 := rfl
  have hlsz : hdrlszV2 = 10 := rfl
  unfold inputNmsgDeserializeHeader CutHeader at *
  by_cases hshort : buf.length < lenhdrszV2
  · rw [if_pos hshort, if_pos hshort]
  have hfour : ¬ buf.length < 4 := by omega
  rw [if_neg hshort, if_neg hshort, List.length_append,
    if_neg (fun hlt => hfour (Nat.lt_of_le_of_lt (Nat.le_add_right _ _) hlt)), if_neg hfour,
    take_append_past (by omega)]
  by_cases hmagic : buf.take 4 ≠ magic
  · rw [if_pos hmagic, if_pos hmagic]
  rw [if_neg hmagic, if_neg hmagic]
  rw [ne_eq, not_not] at hmagic
  have hlong : hdrsz ≤ buf.length := by
    by_contra hcut
    exact h ⟨by omega, by omega, hmagic, Or.inl (by omega)⟩
  rw [if_neg (show ¬ buf.length + past.length < hdrsz by omega),
    if_neg (show ¬ buf.length < hdrsz by omega), drop_take_append_past (by omega)]
  simp only
  by_cases htwo : beNat ((buf.drop 4).take 2) % 256 ≠ 2
  · rw [if_pos htwo, if_pos htwo]
  rw [if_neg htwo, if_neg htwo]
  rw [ne_eq, not_not] at htwo
  have hwhole : hdrlszV2 ≤ buf.length := by
    by_contra hcut
    exact h ⟨by omega, by omega, hmagic, Or.inr htwo⟩
  rw [if_neg (show ¬ buf.length + past.length < hdrlszV2 by omega),
    if_neg (show ¬ buf.length < hdrlszV2 by omega), drop_take_append_past (by omega)]

/-- Where nothing lies behind the buffer, reading a cut header is the fault of the model. -/
theorem inputNmsgDeserializeHeader_error_iff (buf : Bytes) :
    inputNmsgDeserializeHeader buf buf.length = .error .outOfBounds ↔ CutHeader buf := by
  have hlen : lenhdrszV2 = 4 := rfl
  have hsz : hdrsz = 6 := rfl
  have hlsz : hdrlszV2 = 10 := rfl
  unfold inputNmsgDeserializeHeader CutHeader
  by_cases hshort : buf.length < lenhdrszV2
  · rw [if_pos hshort]
    exact ⟨nofun, fun h => by omega⟩
  rw [if_neg hshort, if_neg (show ¬ buf.length < 4 by omega)]
  by_cases hmagic : buf.take 4 ≠ magic
  · rw [if_pos hmagic]
    exact ⟨nofun, fun h => absurd h.2.2.1 hmagic⟩
  rw [if_neg hmagic]
  rw [ne_eq, not_not] at hmagic
  by_cases hversion : buf.length < hdrsz
  · rw [if_pos hversion]
    exact ⟨fun _ => ⟨by omega, by omega, hmagic, Or.inl hversion⟩, fun _ => rfl⟩
  rw [if_neg hversion]
  simp only
  by_cases htwo : beNat ((buf.drop 4).take 2) % 256 ≠ 2
  · rw [if_pos htwo]
    exact ⟨nofun, fun h => absurd (h.2.2.2.resolve_left hversion) htwo⟩
  rw [if_neg htwo]
  rw [ne_eq, not_not] at htwo
  by_cases hcut : buf.length < hdrlszV2
  · rw [if_pos hcut]
    exact ⟨fun _ => ⟨by omega, hcut, hmagic, Or.inr htwo⟩, fun _ => rfl⟩
  · rw [if_neg hcut]
    exact ⟨nofun, fun h => absurd h.2.1 hcut⟩

theorem deserializeHeader_lt {mem : Bytes} {bufLen msgsize : Nat} {flags : UInt8}
    (h : inputNmsgDeserializeHeader mem bufLen = .ok (.ok (flags, msgsize))) :
    msgsize < 2 ^ 32 := by
  have hlt : ∀ b : Bytes, b.length ≤ 4 → beNat b < 2 ^ 32 := by
    intro b hb
    exact Nat.lt_of_lt_of_le (beNat_lt b) (Nat.pow_le_pow_right (by decide) hb)
  unfold inputNmsgDeserializeHeader at h
  split at h
  · cases h
  split at h
  · cases h
  split at h
  · cases h
  split at h
  · cases h
  simp only at h
  split at h
  · cases h
  split at h
  · cases h
  simp only [Except.ok.injEq, Prod.mk.injEq] at h
  rw [← h.2]
  exact hlt _ (by rw [List.length_take]; exact Nat.min_le_left _ _)

end Header

/-! ### Bodies -/

/-- A compressed body is read past its end: its length behind too few octets, or the stream. -/
def ReadsPastBody (flags : UInt8) (len : Nat) (uBufOk : Bool) : Prop :=
  flags &&& flagZlib ≠ 0 ∧ (uBufOk = true ∨ len < 4)

/-- The octets behind those put together do not cover what is read of a compressed container. -/
def ReadsPastPayload (flags : UInt8) (len : Nat) (uBufOk : Bool) : Prop :=
  flags &&& flagZlib ≠ 0 ∧ uBufOk = true ∧ paddedLen len < 4 + len % 2 ^ 32

section Body

variable {len : Nat} (flags : UInt8) (uBufOk : Bool)

theorem bodyReach_le_iff (hlen : len < 2 ^ 32) :
    bodyReach flags len uBufOk ≤ len ↔ ¬ ReadsPastBody flags len uBufOk := by
  unfold bodyReach ReadsPastBody inflateReach
  by_cases hzlib : flags &&& flagZlib ≠ 0
  · rw [if_pos hzlib, Nat.mod_eq_of_lt hlen]
    cases uBufOk with
    | true => exact ⟨fun h => absurd h (by simp), fun h => absurd ⟨hzlib, Or.inl rfl⟩ h⟩
    | false =>
        rw [if_pos rfl]
        constructor
        · rintro h ⟨-, habsurd | hshort⟩
          · cases habsurd
          · omega
        · intro h
          by_contra hshort
          exact h ⟨hzlib, Or.inr (by omega)⟩
  · rw [if_neg hzlib]
    exact ⟨fun _ h => hzlib h.1, fun _ => le_rfl⟩

theorem le_paddedLen (len : Nat) : len ≤ paddedLen len := by
  unfold paddedLen
  split <;> omega

theorem four_le_paddedLen (h : 0 < len) : 4 ≤ paddedLen len := by
  unfold paddedLen
  split <;> omega

theorem bodyReach_le_paddedLen_iff (hlen : 0 < len) :
    bodyReach flags len uBufOk ≤ paddedLen len ↔ ¬ ReadsPastPayload flags len uBufOk := by
  unfold bodyReach ReadsPastPayload inflateReach
  by_cases hzlib : flags &&& flagZlib ≠ 0
  · rw [if_pos hzlib]
    cases uBufOk with
    | true =>
        rw [if_neg (by decide)]
        exact ⟨fun h hpast => absurd h (Nat.not_le.mpr hpast.2.2),
          fun h => Nat.le_of_not_lt fun hlt => h ⟨hzlib, rfl, hlt⟩⟩
    | false =>
        rw [if_pos rfl]
        exact ⟨fun _ h => Bool.false_ne_true h.2.1, fun _ => four_le_paddedLen hlen⟩
  · rw [if_neg hzlib]
    exact ⟨fun _ h => hzlib h.1, fun _ => le_paddedLen len⟩

/-- No fragment is empty, and neither is what they are put together to. -/
theorem length_completed_pos {z : Zlib} {call : UnpackCall} {d : Decoder z} {nfrag : NmsgFragment}
    {octets : Bytes} (h : call.completed d nfrag = some octets) : 0 < octets.length := by
  unfold UnpackCall.completed at h
  split at h
  · cases h
  rename_i fent hnode
  simp only at h
  split at h
  · rename_i hfrags
    obtain ⟨-, -, hslots, hempty, -⟩ := hfrags
    rw [← Option.some.inj h]
    generalize fent.frags.set nfrag.current.toNat nfrag.fragment = frags at hslots hempty
    cases frags with
    | nil => exact absurd hslots (Nat.not_lt_zero _)
    | cons first rest =>
        have hfirst : first ≠ [] := fun heq => hempty (heq ▸ List.mem_cons_self ..)
        rw [List.flatten_cons, List.length_append]
        exact Nat.lt_of_lt_of_le (List.length_pos_iff.mpr hfirst) (Nat.le_add_right _ _)
  · cases h

end Body

/-! ### Decoders -/

/-- Everything read lies in the `bufLen` octets of the caller, or in what was allocated. -/
structure NullReads.Within (bufLen : Nat) (reads : NullReads) : Prop where
  buf : reads.buf ≤ bufLen
  payload : reads.payload ≤ reads.allocated

section Decoders

variable (buf past : Bytes) (uBufOk : Bool)

/-- Of a decoder that reads on behind a header that is not cut only the body can go wrong. -/
theorem decoderReads_iff {R : Type*} (within : R → Prop) (header : Nat → R)
    (hwithin : ∀ n, within (header n) ↔ n ≤ buf.length) (body : UInt8 → Nat → R) :
    within (decoderReads header body (buf ++ past) buf.length) ↔
      ¬ CutHeader buf ∧
        ∀ flags, WholeContainer buf flags → within (body flags (buf.length - hdrlszV2)) := by
  by_cases hcut : CutHeader buf
  · have hreach := mt (headerReach_le_iff buf past).mp (not_not.mpr hcut)
    refine ⟨fun h => absurd ?_ hreach, fun h => absurd hcut h.1⟩
    rw [decoderReads] at h
    split at h
    · rw [if_pos (Or.inl hcut.2.1)] at h
      exact (hwithin _).mp h
    · exact (hwithin _).mp h
  have hreach := (hwithin _).mpr ((headerReach_le_iff buf past).mpr hcut)
  rw [decoderReads, inputNmsgDeserializeHeader_append hcut]
  cases hheader : inputNmsgDeserializeHeader buf buf.length with
  | error e =>
      exact ⟨fun _ => ⟨hcut, fun flags h => by cases hheader.symm.trans h.2⟩, fun _ => hreach⟩
  | ok header =>
      cases header with
      | error res =>
          exact ⟨fun _ => ⟨hcut, fun flags h => by cases hheader.symm.trans h.2⟩, fun _ => hreach⟩
      | ok out =>
          obtain ⟨flags, msgsize⟩ := out
          have hflags : ∀ flags', WholeContainer buf flags' →
              flags' = flags ∧ msgsize = buf.length - hdrlszV2 ∧ hdrlszV2 ≤ buf.length := by
            intro flags' hwhole
            have heq := hheader.symm.trans hwhole.2
            simp only [Except.ok.injEq, Prod.mk.injEq] at heq
            exact ⟨heq.1.symm, heq.2, hwhole.1⟩
          simp only
          by_cases hsize : buf.length < hdrlszV2 ∨ msgsize ≠ buf.length - hdrlszV2
          · rw [if_pos hsize]
            refine ⟨fun _ => ⟨hcut, fun flags' hwhole => ?_⟩, fun _ => hreach⟩
            obtain ⟨-, hmsgsize, hlong⟩ := hflags flags' hwhole
            rcases hsize with hshort | hne
            · omega
            · exact absurd hmsgsize hne
          rw [if_neg hsize]
          have hmsgsize : buf.length - hdrlszV2 = msgsize := by omega
          rw [hmsgsize]
          constructor
          · intro h
            refine ⟨hcut, fun flags' hwhole => ?_⟩
            rwa [(hflags flags' hwhole).1]
          · rintro ⟨-, h⟩
            exact h flags ⟨by omega, by rw [hheader, hmsgsize]⟩

theorem WholeContainer.lt {buf : Bytes} {flags : UInt8} (h : WholeContainer buf flags) :
    buf.length = hdrlszV2 + (buf.length - hdrlszV2) ∧ buf.length - hdrlszV2 < 2 ^ 32 := by
  have hlong := h.1
  exact ⟨by omega, deserializeHeader_lt h.2⟩

/-- **`nmsg_container_deserialize`** stays within the buffer unless the header is cut or the
container is compressed. -/
theorem containerDeserializeReach_le_iff :
    containerDeserializeReach (buf ++ past) buf.length uBufOk ≤ buf.length ↔
      ¬ CutHeader buf ∧ ∀ flags, WholeContainer buf flags → flags &&& flagFragment = 0 →
        ¬ ReadsPastBody flags (buf.length - hdrlszV2) uBufOk := by
  rw [containerDeserializeReach,
    decoderReads_iff buf past (· ≤ buf.length) id (fun _ => Iff.rfl)]
  refine and_congr_right fun _ => forall₂_congr fun flags hwhole => ?_
  obtain ⟨hlen, hlt⟩ := hwhole.lt
  have hbody := bodyReach_le_iff flags uBufOk hlt
  by_cases hfragment : flags &&& flagFragment ≠ 0
  · rw [if_pos hfragment]
    exact ⟨fun _ h => absurd h hfragment, fun _ => by omega⟩
  · rw [if_neg hfragment, ← hbody]
    exact ⟨fun h _ => by omega, fun h => by have := h (not_not.mp hfragment); omega⟩

/-- A call that stays within the buffer goes well, and its result is that of the buffer alone. -/
theorem containerDeserialize_of_within (pb : ProtobufC) (z : Zlib) (past' : Bytes)
    (h : containerDeserializeReach (buf ++ past) buf.length true ≤ buf.length) :
    containerDeserialize pb z buf buf.length past ≠ .error .outOfBounds ∧
      containerDeserialize pb z buf buf.length past =
        containerDeserialize pb z buf buf.length past' := by
  obtain ⟨hcut, hwhole⟩ := (containerDeserializeReach_le_iff buf past true).mp h
  simp only [containerDeserialize]
  cases hheader : inputNmsgDeserializeHeader buf buf.length with
  | error e =>
      refine ⟨fun heq => hcut ?_, rfl⟩
      rw [← inputNmsgDeserializeHeader_error_iff, hheader]
      exact congrArg Except.error (Except.error.inj heq)
  | ok header =>
      cases header with
      | error res => exact ⟨by rintro ⟨⟩, rfl⟩
      | ok out =>
          obtain ⟨flags, msgsize⟩ := out
          simp only
          by_cases hsize : buf.length < hdrlszV2 ∨ msgsize ≠ buf.length - hdrlszV2
          · rw [if_pos hsize, if_pos hsize]
            exact ⟨by rintro ⟨⟩, rfl⟩
          rw [if_neg hsize, if_neg (Nat.lt_irrefl _), if_neg hsize, if_neg (Nat.lt_irrefl _)]
          constructor
          · split <;> rintro ⟨⟩
          have hmsgsize : msgsize = buf.length - hdrlszV2 := by omega
          have hunpack : ∀ body, inputNmsgUnpackContainer2 pb z body past flags =
              inputNmsgUnpackContainer2 pb z body past' flags := by
            intro body
            by_cases hfragment : flags &&& flagFragment ≠ 0
            · rw [inputNmsgUnpackContainer2, inputNmsgUnpackContainer2, if_pos hfragment,
                if_pos hfragment]
            have hplain : ¬ flags &&& flagZlib ≠ 0 := fun hzlib =>
              hwhole flags ⟨by omega, by rw [hheader, hmsgsize]⟩ (not_not.mp hfragment)
                ⟨hzlib, Or.inl rfl⟩
            rw [inputNmsgUnpackContainer2, inputNmsgUnpackContainer2, if_neg hfragment,
              if_neg hfragment, if_neg hplain, if_neg hplain]
          rw [hunpack]

/-- **`nmsg_input_read_null`** has the same two faults, and takes fragments, which it may complete to
a compressed container that is short of octets behind it. -/
theorem nmsgInputReadNullReads_within_iff (pb : ProtobufC) {z : Zlib} (s : NullInput z)
    (env : CallEnv) (now : Timespec) :
    (nmsgInputReadNullReads pb s env now (buf ++ past) buf.length).Within buf.length ↔
      ¬ CutHeader buf ∧ ∀ flags, WholeContainer buf flags →
        if flags &&& flagFragment = 0 then
          ¬ ReadsPastBody flags (buf.length - hdrlszV2) env.uBufOk
        else
          ∀ octets, (pb.unpackFragment (buf.drop hdrlszV2)).bind
              (UnpackCall.completed ⟨env, ⟨flags, now, .other 0 []⟩, buf.drop hdrlszV2⟩ s.decoder) =
                some octets →
            ¬ ReadsPastPayload flags octets.length env.uBufOk := by
  have hheader : ∀ n, NullReads.Within buf.length ⟨n, 0, 0⟩ ↔ n ≤ buf.length :=
    fun n => ⟨fun h => h.buf, fun h => ⟨h, le_rfl⟩⟩
  rw [nmsgInputReadNullReads, decoderReads_iff buf past _ _ hheader]
  refine and_congr_right fun _ => forall₂_congr fun flags hwhole => ?_
  obtain ⟨hlen, hlt⟩ := hwhole.lt
  have hbody : ((buf ++ past).drop hdrlszV2).take (buf.length - hdrlszV2) = buf.drop hdrlszV2 := by
    rw [drop_take_append_past (by omega),
      List.take_of_length_le (by rw [List.length_drop])]
  by_cases hfragment : flags &&& flagFragment = 0
  · rw [if_neg (not_not.mpr hfragment), if_pos hfragment, hheader,
      ← bodyReach_le_iff flags env.uBufOk hlt]
    omega
  · rw [if_pos hfragment, if_neg hfragment, hbody]
    simp only
    cases hcompleted : (pb.unpackFragment (buf.drop hdrlszV2)).bind
        (UnpackCall.completed ⟨env, ⟨flags, now, .other 0 []⟩, buf.drop hdrlszV2⟩ s.decoder) with
    | none =>
        simp only
        rw [hheader]
        exact ⟨fun _ octets h => (Option.some_ne_none octets h.symm).elim,
          fun _ => Nat.le_of_eq hlen.symm⟩
    | some octets =>
        obtain ⟨nfrag, -, hnfrag⟩ := Option.bind_eq_some_iff.mp hcompleted
        have hpayload := bodyReach_le_paddedLen_iff flags env.uBufOk (length_completed_pos hnfrag)
        constructor
        · intro h octets' heq
          rw [← Option.some.inj heq]
          exact hpayload.mp h.payload
        · intro h
          exact ⟨Nat.le_of_eq hlen.symm, hpayload.mpr (h octets rfl)⟩

/-- **What the buffer decoders read** lies in the buffer, or in memory of theirs, exactly when the
buffer does not end within a header whose magic and version are right, and no compressed container
is read from it or put together from fragments without octets behind it. -/
theorem decoders_read_within_iff (pb : ProtobufC) {z : Zlib} (s : NullInput z) (env : CallEnv)
    (now : Timespec) :
    (containerDeserializeReach (buf ++ past) buf.length uBufOk ≤ buf.length ↔
      ¬ CutHeader buf ∧ ∀ flags, WholeContainer buf flags → flags &&& flagFragment = 0 →
        ¬ ReadsPastBody flags (buf.length - hdrlszV2) uBufOk) ∧
    ((nmsgInputReadNullReads pb s env now (buf ++ past) buf.length).Within buf.length ↔
      ¬ CutHeader buf ∧ ∀ flags, WholeContainer buf flags →
        if flags &&& flagFragment = 0 then
          ¬ ReadsPastBody flags (buf.length - hdrlszV2) env.uBufOk
        else
          ∀ octets, (pb.unpackFragment (buf.drop hdrlszV2)).bind
              (UnpackCall.completed ⟨env, ⟨flags, now, .other 0 []⟩, buf.drop hdrlszV2⟩ s.decoder) =
                some octets →
            ¬ ReadsPastPayload flags octets.length env.uBufOk) :=
  ⟨containerDeserializeReach_le_iff buf past uBufOk,
    nmsgInputReadNullReads_within_iff buf past pb s env now⟩

/-- **Four octets of a header** are enough for ten to be read. -/
theorem decoders_read_past_end :
    containerDeserializeReach (magic ++ [0, 2, 0, 0, 0, 0]) magic.length true = magic.length + 6 ∧
      ¬ (∀ (buf past : Bytes) (uBufOk : Bool),
        containerDeserializeReach (buf ++ past) buf.length uBufOk ≤ buf.length) ∧
      ¬ (∀ (s : NullInput storedZlib) (env : CallEnv) (now : Timespec) (buf past : Bytes),
        (nmsgInputReadNullReads wire s env now (buf ++ past) buf.length).Within buf.length) := by
  refine ⟨by decide, ?_, ?_⟩
  · intro h
    exact absurd (h magic [0, 2, 0, 0, 0, 0] true) (by decide)
  · intro h
    have hwithin := h (NullInput.open storedZlib ⟨false, 0, 0, 0, 0, 0⟩) ⟨[], true, true, true, true⟩
      ⟨0, 0⟩ magic [0, 2, 0, 0, 0, 0]
    exact absurd hwithin.buf (by decide)

end Decoders

end Nmsg

import Nmsg.Proof.Serialized

/-!
# Sets that fail

A call that sets a field marks the message as updated, and makes a slot for the value, before it
looks at the value. When the value is then refused, the mark and the slot stay. They show in the
next payload, unless that would have been the encoding of the same message anyway.
-/

namespace Nmsg

variable {field : MsgmodField} {vals vals' : List FieldValue} {valIdx len : Nat} {data : Bytes}

/-! ### What is refused -/

/-- There is no slot with the index, and none is made. -/
def MsgmodField.IndexRefused (field : MsgmodField) (count valIdx : Nat) : Prop :=
  (if field.label = .repeated then count else 0) < valIdx

/-- The length is not one of an address. -/
def MsgmodField.LengthRefused (field : MsgmodField) (len : Nat) : Prop :=
  field.type = .ip ∧ len ≠ 4 ∧ len ≠ 16

/-- A slot is made for the value. -/
def MsgmodField.OpensSlot (field : MsgmodField) (count valIdx : Nat) : Prop :=
  valIdx = count ∧ (field.label = .repeated ∨ field.label = .optional ∧ count = 0)

instance (field : MsgmodField) (count valIdx : Nat) : Decidable (field.IndexRefused count valIdx) :=
  inferInstanceAs (Decidable (_ < _))

instance (field : MsgmodField) (len : Nat) : Decidable (field.LengthRefused len) :=
  inferInstanceAs (Decidable (_ ∧ _))

instance (field : MsgmodField) (count valIdx : Nat) : Decidable (field.OpensSlot count valIdx) :=
  inferInstanceAs (Decidable (_ ∧ _))

theorem makeRoom_eq (field : MsgmodField) (vals : List FieldValue) (valIdx : Nat) :
    makeRoom field vals valIdx =
      if field.IndexRefused vals.length valIdx then none
      else some (if field.OpensSlot vals.length valIdx then vals ++ [field.type.zero] else vals) := by
  split_ifs with hindex hopens <;>
    simp only [MsgmodField.IndexRefused, MsgmodField.OpensSlot] at * <;> unfold makeRoom
  · cases hlabel : field.label with
    | repeated =>
        simp only [hlabel, if_true] at hindex
        simp only [if_neg hindex.not_gt, if_neg hindex.ne']
    | optional =>
        simp only [hlabel, reduceCtorEq, if_false] at hindex
        simp only [if_pos hindex]
    | required =>
        simp only [hlabel, reduceCtorEq, if_false] at hindex
        simp only [if_pos hindex]
  · obtain ⟨rfl, hlabel | ⟨hlabel, hcount⟩⟩ := hopens
    · simp [hlabel]
    · obtain rfl := List.eq_nil_of_length_eq_zero hcount
      simp [hlabel]
  · cases hlabel : field.label with
    | repeated =>
        simp only [hlabel, if_true, not_lt, true_or, and_true] at hindex hopens
        simp only [if_pos (lt_of_le_of_ne hindex hopens)]
    | optional =>
        simp only [hlabel, reduceCtorEq, if_false, false_or, true_and] at hindex hopens
        simp only [if_neg hindex]
        rw [if_neg]
        rintro rfl
        exact hopens ⟨Nat.eq_zero_of_not_pos hindex, rfl⟩
    | required =>
        simp only [hlabel, reduceCtorEq, if_false] at hindex
        simp only [if_neg hindex]

theorem loadValue_eq_none_iff :
    loadValue field.type data len = .ok none ↔ field.LengthRefused len := by
  unfold MsgmodField.LengthRefused
  cases field.type <;> simp only [loadValue] <;> split_ifs <;> simp_all

/-- A set that fails keeps the values, with the slot that was made for the new one. -/
theorem setFieldValue_failure_iff :
    setFieldValue field vals valIdx data len = .ok (.failure, vals') ↔
      (field.IndexRefused vals.length valIdx ∧ vals' = vals) ∨
        ¬ field.IndexRefused vals.length valIdx ∧ field.LengthRefused len ∧
          vals' = if field.OpensSlot vals.length valIdx then vals ++ [field.type.zero] else vals := by
  unfold setFieldValue
  rw [makeRoom_eq]
  by_cases hindex : field.IndexRefused vals.length valIdx
  · simp [hindex, eq_comm]
  · simp only [hindex, if_false, false_and, not_false_eq_true, true_and, false_or]
    rw [show field.LengthRefused len ↔ loadValue field.type data len = .ok none from
      loadValue_eq_none_iff.symm]
    cases hload : loadValue field.type data len with
    | error e => simp
    | ok loaded => cases loaded <;> simp [eq_comm]

theorem setFieldValue_length {res : Res}
    (h : setFieldValue field vals valIdx data len = .ok (res, vals')) :
    vals.length ≤ vals'.length := by
  have hroom : ∀ room, makeRoom field vals valIdx = some room → vals.length ≤ room.length := by
    intro room hroom
    rw [makeRoom_eq] at hroom
    split_ifs at hroom <;> simp only [Option.some.injEq] at hroom <;> simp [← hroom]
  unfold setFieldValue at h
  cases hmake : makeRoom field vals valIdx with
  | none =>
      simp only [hmake, Except.ok.injEq, Prod.mk.injEq] at h
      exact h.2 ▸ le_rfl
  | some room =>
      simp only [hmake] at h
      cases hload : loadValue field.type data len with
      | error e => simp [hload] at h
      | ok loaded =>
          cases loaded <;> simp only [hload, Except.ok.injEq, Prod.mk.injEq] at h <;>
            rw [← h.2] <;> simpa using hroom room hmake

namespace FieldObject

variable {lookup : UInt32 → UInt32 → Option Msgmod}
  {get : MsgmodField → FieldMessage → Nat → Option FieldValue} {msg msg' : FieldObject}
  {mod : Msgmod} {m m' : FieldMessage} {fieldIdx : Nat} {now : WallTime}

/-! ### The message of an object -/

/-- The message is in memory, or it is what the payload decodes to. -/
def Carries (msg : FieldObject) (mod : Msgmod) (m : FieldMessage) : Prop :=
  msg.mod = some mod ∧ (msg.message = some m ∨ msg.message = none ∧
    ∃ np payload, msg.np = some np ∧ np.payload = some payload ∧ mod.unpack payload = some m)

theorem Carries.deserialize (h : msg.Carries mod m) :
    msg.deserialize = (.success, { msg with message := some m }) := by
  obtain ⟨hmod, hmessage | ⟨hmessage, np, payload, hnp, hpayload, hunpack⟩⟩ := h
  · rw [deserialize_of_message hmessage, ← hmessage]
  · simp only [FieldObject.deserialize, hmessage, hnp, hmod, hpayload, hunpack, ne_eq,
      not_true_eq_false, if_false]

theorem Carries.holds (hwell : msg.WellTyped) (h : msg.Carries mod m) : mod.Holds m := by
  obtain ⟨hmod, hmessage | ⟨-, np, payload, -, -, hunpack⟩⟩ := h
  · obtain ⟨mod', hmod', hholds⟩ := hwell.holds m hmessage
    rwa [Option.some.inj (hmod.symm.trans hmod')]
  · exact (hwell.lawful mod hmod).unpack_holds payload m hunpack

/-- An object without a message cannot be deserialized, and stays as it is. -/
theorem WellTyped.deserialize_of_not_carries (hwell : msg.WellTyped)
    (h : ¬ ∃ mod m, msg.Carries mod m) :
    msg.deserialize.1 ≠ .success ∧ msg.deserialize.2 = msg := by
  rcases msg.deserialize_cases with ⟨heq, hmessage⟩ | ⟨mod, np, payload, m, hmod, hnp, hpayload,
    hunpack, heq⟩
  · refine ⟨fun hsuccess => h ?_, heq⟩
    obtain ⟨m, hm⟩ := hmessage hsuccess
    obtain ⟨mod, hmod, -⟩ := hwell.holds m hm
    exact ⟨mod, m, hmod, Or.inl hm⟩
  · cases hmessage : msg.message with
    | none =>
        exact absurd ⟨mod, m, hmod, Or.inr ⟨hmessage, np, payload, hnp, hpayload, hunpack⟩⟩ h
    | some m₀ => exact absurd ⟨mod, m₀, hmod, Or.inl hmessage⟩ h

/-- The object has a message with the field, and the field is one that a caller can set. -/
structure Settable (msg : FieldObject) (fieldIdx : Nat) (mod : Msgmod) (field : MsgmodField)
    (m : FieldMessage) : Prop where
  carries : msg.Carries mod m
  field_eq : mod.fields[fieldIdx]? = some field
  hasGet : field.hasGet = false
  hidden : field.hidden = false

theorem Settable.setFieldByIdx_eq (h : msg.Settable fieldIdx mod field m) (valIdx : Nat)
    (data : Bytes) (len : Nat) :
    msg.setFieldByIdx fieldIdx valIdx data len =
      (setFieldValue field (m.getD fieldIdx []) valIdx data len).map fun (res, vals) =>
        (res, { msg with message := some (m.set fieldIdx vals), updated := true }) := by
  have hfield : (msg.mod.bind fun mod => mod.fields[fieldIdx]?) = some field := by
    rw [h.carries.1]
    exact h.field_eq
  unfold setFieldByIdx
  rw [hfield]
  simp only [h.hasGet, h.hidden, h.carries.deserialize, Bool.false_eq_true, or_self, if_false,
    ne_eq, not_true_eq_false, Option.getD_some]
  cases setFieldValue field (m.getD fieldIdx []) valIdx data len <;> rfl

/-- Otherwise the call changes nothing. -/
theorem WellTyped.setFieldByIdx_of_not_settable (hwell : msg.WellTyped)
    (h : ¬ ∃ mod field m, msg.Settable fieldIdx mod field m) {res : Res}
    (hset : msg.setFieldByIdx fieldIdx valIdx data len = .ok (res, msg')) : msg' = msg := by
  unfold setFieldByIdx at hset
  cases hfield : msg.mod.bind fun mod => mod.fields[fieldIdx]? with
  | none =>
      rw [hfield] at hset
      cases hset
      rfl
  | some field =>
      obtain ⟨mod, hmod, hfield'⟩ := Option.bind_eq_some_iff.mp hfield
      rw [hfield] at hset
      dsimp only at hset
      split_ifs at hset with hclosed hdeserialize
      · cases hset
        rfl
      · obtain ⟨-, heq⟩ := hwell.deserialize_of_not_carries fun ⟨mod', m, hcarries⟩ =>
          hdeserialize (by rw [hcarries.deserialize])
        rw [Except.ok.injEq] at hset
        rw [← heq, hset]
      · obtain ⟨hhasGet, hhidden⟩ := not_or.mp hclosed
        rw [Bool.not_eq_true] at hhasGet hhidden
        by_cases hcarries : ∃ mod m, msg.Carries mod m
        · obtain ⟨mod', m, hcarries⟩ := hcarries
          obtain rfl := Option.some.inj (hmod.symm.trans hcarries.1)
          exact absurd ⟨mod, field, m, hcarries, hfield', hhasGet, hhidden⟩ h
        · exact absurd (hwell.deserialize_of_not_carries hcarries).1 hdeserialize

/-! ### The next payload -/

/-- The payload that the next serialization leaves. -/
def nextPayload (now : WallTime) (msg : FieldObject) : Option Bytes :=
  (msg.serialize now).np.bind NmsgPayload.payload

theorem nextPayload_of_updated (hmod : msg.mod = some mod) (hmessage : msg.message = some m)
    (hupdated : msg.updated = true ∨ msg.np = none) :
    msg.nextPayload now = some (mod.pack m) := by
  rw [nextPayload, serialize, hmessage, hmod]
  dsimp only
  rw [if_pos hupdated]
  rfl

theorem nextPayload_of_not_updated
    (h : ¬ (msg.message ≠ none ∧ (msg.updated = true ∨ msg.np = none))) :
    msg.nextPayload now = msg.np.bind NmsgPayload.payload := by
  rw [nextPayload, serialize]
  split
  next m mod hmessage _ =>
    rw [if_neg fun hupdated => h ⟨by rw [hmessage]; exact Option.some_ne_none m, hupdated⟩]
  · rfl

/-- The next payload is the encoding of the message, because it is going to be packed or because it
was. -/
theorem Carries.nextPayload_eq_iff (h : msg.Carries mod m) :
    msg.nextPayload now = some (mod.pack m) ↔
      (msg.message ≠ none ∧ (msg.updated = true ∨ msg.np = none)) ∨
        msg.np.bind NmsgPayload.payload = some (mod.pack m) := by
  by_cases hupdated : msg.message ≠ none ∧ (msg.updated = true ∨ msg.np = none)
  · obtain ⟨hmessage, hflag⟩ := hupdated
    have hm := h.2.resolve_right fun hnone => hmessage hnone.1
    exact iff_of_true (nextPayload_of_updated h.1 hm hflag) (Or.inl ⟨hmessage, hflag⟩)
  · rw [nextPayload_of_not_updated hupdated]
    exact ⟨Or.inr, fun hor => hor.resolve_left hupdated⟩

/-! ### Values are not taken away -/

/-- No field has more values in the one message than in the other. -/
def NoMore (m m' : FieldMessage) : Prop :=
  ∀ f, (m.getD f []).length ≤ (m'.getD f []).length

/-- The payload of an object decodes to a message with no more values than the one in memory. -/
structure Grown (msg : FieldObject) : Prop where
  wellTyped : msg.WellTyped
  kept : ∀ mod m np payload, msg.mod = some mod → msg.message = some m → msg.np = some np →
    np.payload = some payload → ∃ m₀, mod.unpack payload = some m₀ ∧ NoMore m₀ m

/-- An object as it can come to be used: made from a payload or empty, and after any calls on it. -/
inductive Reached (lookup : UInt32 → UInt32 → Option Msgmod)
    (get : MsgmodField → FieldMessage → Nat → Option FieldValue) : FieldObject → Prop where
  | made {msg : FieldObject} (h : Made lookup msg) : Reached lookup get msg
  | call {msg msg' : FieldObject} {c : MessageCall} {r : MessageAnswer} (h : Reached lookup get msg)
      (hcall : msg.call get c = .ok (r, msg')) : Reached lookup get msg'
  | getFieldByIdx {msg : FieldObject} (h : Reached lookup get msg) (fieldIdx valIdx : Nat) :
      Reached lookup get (msg.getFieldByIdx get fieldIdx valIdx).2
  | setFieldByIdx {msg msg' : FieldObject} {fieldIdx valIdx len : Nat} {data : Bytes} {res : Res}
      (h : Reached lookup get msg)
      (hset : msg.setFieldByIdx fieldIdx valIdx data len = .ok (res, msg')) : Reached lookup get msg'
  | update {msg : FieldObject} (h : Reached lookup get msg) : Reached lookup get msg.update
  | compactPayload {msg : FieldObject} (h : Reached lookup get msg) :
      Reached lookup get msg.compactPayload
  | dup {msg msg' : FieldObject} (h : Reached lookup get msg) (hdup : msg.dup = some msg') :
      Reached lookup get msg'

theorem noMore_refl (m : FieldMessage) : NoMore m m :=
  fun _ => le_rfl

/-- The values of one field replaced by no fewer. -/
theorem noMore_set (hvals : (m.getD fieldIdx []).length ≤ vals.length) :
    NoMore m (m.set fieldIdx vals) := by
  intro f
  by_cases hf : f = fieldIdx
  · subst hf
    by_cases hlt : f < m.length
    · simpa [List.getD_eq_getElem?_getD, List.getElem?_set, hlt] using hvals
    · simp [List.getD_eq_getElem?_getD, List.getElem?_eq_none (not_lt.mp hlt)]
  · simp [List.getD_eq_getElem?_getD, Ne.symm hf]

theorem NoMore.trans {m₁ m₂ m₃ : FieldMessage} (h : NoMore m₁ m₂) (h' : NoMore m₂ m₃) :
    NoMore m₁ m₃ :=
  fun f => (h f).trans (h' f)

/-- A slot that is opened is one more. -/
theorem not_noMore_set (hfieldIdx : fieldIdx < m.length) (v : FieldValue) :
    ¬ NoMore (m.set fieldIdx (m.getD fieldIdx [] ++ [v])) m := by
  intro h
  have hcount := h fieldIdx
  simp [List.getD_eq_getElem?_getD, hfieldIdx] at hcount

theorem Grown.deserialize (h : msg.Grown) : msg.deserialize.2.Grown := by
  refine ⟨h.wellTyped.deserialize, ?_⟩
  rcases msg.deserialize_cases with ⟨heq, -⟩ | ⟨mod, np, payload, m, hmod, hnp, hpayload, hunpack,
    heq⟩
  · rw [heq]
    exact h.kept
  · rw [heq]
    intro mod' m' np' payload' hmod' hm' hnp' hpayload'
    obtain rfl := Option.some.inj (hmod.symm.trans hmod')
    obtain rfl := Option.some.inj (hnp.symm.trans hnp')
    obtain rfl := Option.some.inj (hpayload.symm.trans hpayload')
    obtain rfl := Option.some.inj hm'
    exact ⟨m, hunpack, noMore_refl m⟩

/-- A message with no fewer values in place of the one that the object has. -/
theorem Grown.replace (h : msg.Grown) (hcarries : msg.Carries mod m) (hholds : mod.Holds m')
    (hmore : NoMore m m') (updated : Bool) :
    Grown { msg with message := some m', updated := updated } := by
  have hgrown : Grown { msg with message := some m } := by
    have hdeserialize := h.deserialize
    rwa [hcarries.deserialize] at hdeserialize
  refine ⟨⟨h.wellTyped.lawful, fun m'' hm'' => ⟨mod, hcarries.1, Option.some.inj hm'' ▸ hholds⟩⟩, ?_⟩
  intro mod' m'' np payload hmod' hm'' hnp hpayload
  obtain ⟨m₀, hunpack, hno⟩ := hgrown.kept mod' m np payload hmod' rfl hnp hpayload
  exact ⟨m₀, hunpack, hno.trans (Option.some.inj hm'' ▸ hmore)⟩

theorem Grown.setFieldByIdx (h : msg.Grown) {res : Res}
    (hset : msg.setFieldByIdx fieldIdx valIdx data len = .ok (res, msg')) : msg'.Grown := by
  by_cases hsettable : ∃ mod field m, msg.Settable fieldIdx mod field m
  · obtain ⟨mod, field, m, hsettable⟩ := hsettable
    rw [hsettable.setFieldByIdx_eq] at hset
    cases hvals : setFieldValue field (m.getD fieldIdx []) valIdx data len with
    | error e =>
        rw [hvals] at hset
        cases hset
    | ok out =>
        rw [hvals] at hset
        cases hset
        have hholds := hsettable.carries.holds h.wellTyped
        apply h.replace hsettable.carries
        · exact hholds.set hsettable.field_eq
            (setFieldValue_holds (hholds.getD hsettable.field_eq) hvals)
        · exact noMore_set (setFieldValue_length hvals)
  · rwa [h.wellTyped.setFieldByIdx_of_not_settable hsettable hset]

variable (get) in
theorem getFieldByIdx_object (msg : FieldObject) (fieldIdx valIdx : Nat) :
    (msg.getFieldByIdx get fieldIdx valIdx).2 = msg ∨
      (msg.getFieldByIdx get fieldIdx valIdx).2 = msg.deserialize.2 := by
  unfold getFieldByIdx
  split
  · exact Or.inl rfl
  split
  · exact Or.inl rfl
  split
  · exact Or.inr rfl
  · dsimp only
    split <;> exact Or.inr rfl

theorem Grown.serialize (h : msg.Grown) (now : WallTime) : (msg.serialize now).Grown := by
  refine ⟨h.wellTyped.serialize now, ?_⟩
  rcases serialize_cases now msg with heq | ⟨mod, m, np, hmod, hmessage, hpayload, heq⟩
  · rw [heq]
    exact h.kept
  · rw [heq]
    intro mod' m' np' payload hmod' hm' hnp' hpayload'
    obtain rfl := Option.some.inj (hmod.symm.trans hmod')
    obtain rfl := Option.some.inj (hmessage.symm.trans hm')
    obtain rfl := Option.some.inj hnp'
    obtain rfl := Option.some.inj (hpayload.symm.trans hpayload')
    obtain ⟨mod', hmod', hholds⟩ := h.wellTyped.holds m hmessage
    obtain rfl := Option.some.inj (hmod.symm.trans hmod')
    exact ⟨m, (h.wellTyped.lawful mod hmod).unpack_pack m hholds, noMore_refl m⟩

theorem Grown.call (h : msg.Grown) {c : MessageCall} {r : MessageAnswer}
    (hcall : msg.call get c = .ok (r, msg')) : msg'.Grown := by
  cases c with
  | getField name valIdx =>
      have hobject := getField_object get msg name valIdx
      rw [FieldObject.call, Except.ok.injEq, Prod.mk.injEq] at hcall
      rw [← hcall.2]
      rcases hobject with heq | heq <;> rw [heq]
      · exact h
      · exact h.deserialize
  | setField name valIdx data len =>
      rw [FieldObject.call] at hcall
      unfold setField at hcall
      split at hcall
      · cases hcall
        exact h
      next fieldIdx _ =>
        cases hset : msg.setFieldByIdx fieldIdx valIdx data len with
        | error e => rw [hset] at hcall; cases hcall
        | ok out =>
            rw [hset] at hcall
            cases hcall
            exact h.setFieldByIdx hset
  | serialize now =>
      cases hcall
      exact h.serialize now
  | write now c =>
      cases hadd : msg.containerAdd now c with
      | error e => rw [FieldObject.call, hadd] at hcall; cases hcall
      | ok out =>
          rw [FieldObject.call, hadd] at hcall
          cases hcall
          have hserialize := h.serialize now
          rcases containerAdd_object hadd with heq | heq <;> rw [heq]
          · exact hserialize
          · exact ⟨⟨hserialize.wellTyped.lawful, hserialize.wellTyped.holds⟩, by rintro _ _ _ _ _ _ ⟨⟩⟩

theorem Grown.dup (h : msg.Grown) (hdup : msg.dup = some msg') : msg'.Grown := by
  unfold FieldObject.dup at hdup
  split at hdup
  next m mod hmessage hmod =>
    obtain ⟨mod', hmod', hholds⟩ := h.wellTyped.holds m hmessage
    obtain rfl := Option.some.inj (hmod.symm.trans hmod')
    rw [(h.wellTyped.lawful mod hmod).unpack_pack m hholds] at hdup
    obtain rfl := Option.some.inj hdup
    obtain ⟨-, hkept⟩ := h.replace ⟨hmod, Or.inl hmessage⟩ hholds (noMore_refl m) false
    refine ⟨⟨fun mod' hmod' => h.wellTyped.lawful mod' (hmod.trans hmod'),
      fun m' hm' => ⟨mod, rfl, Option.some.inj hm' ▸ hholds⟩⟩, ?_⟩
    rwa [hmod] at hkept
  · obtain rfl := Option.some.inj hdup
    exact ⟨⟨h.wellTyped.lawful, nofun⟩, fun _ _ _ _ _ => nofun⟩

theorem Made.grown (hlookup : ∀ vid msgtype mod, lookup vid msgtype = some mod → mod.Lawful)
    (h : Made lookup msg) : msg.Grown := by
  refine ⟨h.wellTyped hlookup, ?_⟩
  cases h with
  | fromPayload np => exact fun _ _ _ _ _ => nofun
  | init mod hmod now =>
      rintro _ _ np payload - - ⟨⟩ hpayload
      cases hpayload

theorem Reached.grown (hlookup : ∀ vid msgtype mod, lookup vid msgtype = some mod → mod.Lawful)
    (h : Reached lookup get msg) : msg.Grown := by
  induction h with
  | made h => exact h.grown hlookup
  | call _ hcall ih => exact ih.call hcall
  | getFieldByIdx _ fieldIdx valIdx ih =>
      rcases getFieldByIdx_object get _ fieldIdx valIdx with heq | heq <;> rw [heq]
      · exact ih
      · exact ih.deserialize
  | setFieldByIdx _ hset ih => exact ih.setFieldByIdx hset
  | update _ ih => exact ⟨⟨ih.wellTyped.lawful, ih.wellTyped.holds⟩, ih.kept⟩
  | compactPayload _ ih => exact ⟨⟨ih.wellTyped.lawful, nofun⟩, fun _ _ _ _ _ => nofun⟩
  | dup _ hdup ih => exact ih.dup hdup

/-- The next payload is not one with more values than the message has. -/
theorem Grown.nextPayload_ne (h : msg.Grown) (hcarries : msg.Carries mod m)
    (hholds : mod.Holds m') (hmore : ¬ NoMore m' m) : msg.nextPayload now ≠ some (mod.pack m') := by
  intro hnext
  have hlawful := h.wellTyped.lawful mod hcarries.1
  have hunpack' := hlawful.unpack_pack m' hholds
  by_cases hupdated : msg.message ≠ none ∧ (msg.updated = true ∨ msg.np = none)
  · have hm := hcarries.2.resolve_right fun hnone => hupdated.1 hnone.1
    rw [nextPayload_of_updated hcarries.1 hm hupdated.2, Option.some.injEq] at hnext
    have hunpack := hlawful.unpack_pack m (hcarries.holds h.wellTyped)
    rw [hnext, hunpack'] at hunpack
    exact hmore (Option.some.inj hunpack ▸ noMore_refl m)
  · rw [nextPayload_of_not_updated hupdated] at hnext
    obtain ⟨np, hnp, hpayload⟩ := Option.bind_eq_some_iff.mp hnext
    have hkept : ∃ m₀, mod.unpack (mod.pack m') = some m₀ ∧ NoMore m₀ m := by
      rcases hcarries.2 with hm | ⟨-, np', payload, hnp', hpayload', hunpack⟩
      · exact h.kept mod m np _ hcarries.1 hm hnp hpayload
      · obtain rfl := Option.some.inj (hnp.symm.trans hnp')
        obtain rfl := Option.some.inj (hpayload.symm.trans hpayload')
        exact ⟨m, hunpack, noMore_refl m⟩
    obtain ⟨m₀, hm₀, hno⟩ := hkept
    rw [hunpack', Option.some.injEq] at hm₀
    exact hmore (hm₀ ▸ hno)

/-! ### When a failed set keeps everything -/

/-- After a call that fails, every field reads as before it, and the next payload is the one that it
would have been. -/
def KeptOnFailure (get : MsgmodField → FieldMessage → Nat → Option FieldValue) (msg : FieldObject)
    (fieldIdx valIdx : Nat) (data : Bytes) (len : Nat) : Prop :=
  ∀ msg', msg.setFieldByIdx fieldIdx valIdx data len = .ok (.failure, msg') →
    (∀ f i, (msg'.getFieldByIdx get f i).1 = (msg.getFieldByIdx get f i).1) ∧
      ∀ now, msg'.nextPayload now = msg.nextPayload now

/-- Where the value is refused, no slot has been made for it, and the next payload is in any case the
encoding of the message. -/
def RefusedInTime (msg : FieldObject) (fieldIdx valIdx len : Nat) : Prop :=
  ∀ mod field m, msg.Settable fieldIdx mod field m →
    field.IndexRefused (m.getD fieldIdx []).length valIdx ∨ field.LengthRefused len →
      ¬ field.OpensSlot (m.getD fieldIdx []).length valIdx ∧
        ((msg.message ≠ none ∧ (msg.updated = true ∨ msg.np = none)) ∨
          msg.np.bind NmsgPayload.payload = some (mod.pack m))

theorem not_opensSlot_of_indexRefused {count : Nat} (h : field.IndexRefused count valIdx) :
    ¬ field.OpensSlot count valIdx := by
  unfold MsgmodField.IndexRefused at h
  rintro ⟨rfl, hlabel | ⟨-, rfl⟩⟩
  · rw [if_pos hlabel] at h
    exact lt_irrefl _ h
  · rw [ite_self] at h
    exact lt_irrefl _ h

/-- What a refusal leaves of the object. -/
theorem Settable.setFieldByIdx_failure_iff (h : msg.Settable fieldIdx mod field m) :
    msg.setFieldByIdx fieldIdx valIdx data len = .ok (.failure, msg') ↔
      (field.IndexRefused (m.getD fieldIdx []).length valIdx ∨ field.LengthRefused len) ∧
        msg' = { msg with
          message := some (m.set fieldIdx
            (if field.OpensSlot (m.getD fieldIdx []).length valIdx then
              m.getD fieldIdx [] ++ [field.type.zero] else m.getD fieldIdx []))
          updated := true } := by
  rw [h.setFieldByIdx_eq]
  set vals := m.getD fieldIdx [] with hvals
  have hmap : ((setFieldValue field vals valIdx data len).map fun (res, vals) =>
        (res, { msg with message := some (m.set fieldIdx vals), updated := true })) =
        .ok (.failure, msg') ↔
      ∃ vals', setFieldValue field vals valIdx data len = .ok (.failure, vals') ∧
        msg' = { msg with message := some (m.set fieldIdx vals'), updated := true } := by
    cases setFieldValue field vals valIdx data len with
    | error e => simp [Except.map]
    | ok out => simp [Except.map, Prod.ext_iff, eq_comm]
  rw [hmap]
  simp only [setFieldValue_failure_iff]
  constructor
  · rintro ⟨vals', ⟨hindex, rfl⟩ | ⟨-, hlength, rfl⟩, rfl⟩
    · rw [if_neg (not_opensSlot_of_indexRefused hindex)]
      exact ⟨Or.inl hindex, rfl⟩
    · exact ⟨Or.inr hlength, rfl⟩
  · rintro ⟨hrefused, rfl⟩
    by_cases hindex : field.IndexRefused vals.length valIdx
    · rw [if_neg (not_opensSlot_of_indexRefused hindex)]
      exact ⟨vals, Or.inl ⟨hindex, rfl⟩, rfl⟩
    · exact ⟨_, Or.inr ⟨hindex, hrefused.resolve_left hindex, rfl⟩, rfl⟩

/-- An object marked as updated, with the message that it has in memory, reads as before. -/
theorem Carries.getFieldByIdx_updated (h : msg.Carries mod m) (f i : Nat) :
    (FieldObject.getFieldByIdx get { msg with message := some m, updated := true } f i).1 =
      (msg.getFieldByIdx get f i).1 := by
  refine (getFieldByIdx_congr ?_ ?_ ?_ f i).symm
  · rfl
  · rw [h.deserialize, deserialize_of_message rfl]
  · rw [h.deserialize, deserialize_of_message rfl]

theorem Carries.nextPayload_updated (h : msg.Carries mod m) (now : WallTime) (m' : FieldMessage) :
    nextPayload now { msg with message := some m', updated := true } = some (mod.pack m') :=
  nextPayload_of_updated h.1 rfl (Or.inl rfl)

theorem set_getD (m : FieldMessage) (fieldIdx : Nat) : m.set fieldIdx (m.getD fieldIdx []) = m := by
  by_cases hlt : fieldIdx < m.length
  · rw [List.getD_eq_getElem?_getD, List.getElem?_eq_getElem hlt, Option.getD_some,
      List.set_getElem_self]
  · exact List.set_eq_of_length_le (not_lt.mp hlt)

/-- A module whose messages may have one address. -/
def addressModule : Msgmod where
  vid := 1
  msgtype := 1
  fields := [⟨.ip, [0x61], .optional, false, false, false, []⟩]
  pack
    | [[.data b]] => 10 :: b
    | _ => []
  unpack
    | [] => some [[]]
    | 10 :: b => some [[.data b]]
    | _ => none

theorem addressModule_holds_iff {m : FieldMessage} :
    addressModule.Holds m ↔ m = [[]] ∨ ∃ b, m = [[.data b]] := by
  constructor
  · intro h
    obtain ⟨vals, rest, hvals, hrest, rfl⟩ := List.forall₂_cons_left_iff.mp h
    rw [List.forall₂_nil_left_iff] at hrest
    subst hrest
    rcases vals with _ | ⟨v, _ | _⟩
    · exact Or.inl rfl
    · have htype := hvals.ofType v (List.mem_singleton_self v)
      cases v with
      | data b => exact Or.inr ⟨b, rfl⟩
      | word | dword => simp [FieldValue.OfType] at htype
    · have hcount := hvals.count
      simp [FieldLabel.Allows] at hcount
  · rintro (rfl | ⟨b, rfl⟩)
    · exact List.Forall₂.cons ⟨Nat.zero_le 1, by rintro _ ⟨⟩⟩ List.Forall₂.nil
    · refine List.Forall₂.cons ⟨Nat.le_refl 1, fun val hval => ?_⟩ List.Forall₂.nil
      rw [List.mem_singleton.mp hval]
      simp [FieldValue.OfType]

theorem addressModule_lawful : addressModule.Lawful where
  unpack_pack := by
    intro m hm
    obtain rfl | ⟨b, rfl⟩ := addressModule_holds_iff.mp hm <;> rfl
  unpack_holds := by
    intro b m h
    apply addressModule_holds_iff.mpr
    unfold addressModule at h
    dsimp only at h
    split at h
    · exact Or.inl (Option.some.inj h).symm
    · exact Or.inr ⟨_, (Option.some.inj h).symm⟩
    · cases h

/-- An empty message that is to be packed. -/
def addressless : FieldObject :=
  (init addressModule ⟨0, 0⟩).update

theorem reached_addressless :
    Reached (fun _ _ => some addressModule) (fun _ _ _ => none) addressless :=
  (Reached.made (.init addressModule addressModule_lawful ⟨0, 0⟩)).update

end FieldObject

end Nmsg

import Nmsg.Msgmod.Access
import Nmsg.Proof.Mirror

/-!
# What is serialized

A message in memory, once it is there, stays, and it can always be had back: its object has the flag,
or no payload, or a payload that decodes to it. Serializing packs it in the first two cases.
-/

namespace Nmsg

open StepRun

namespace FieldObject

variable {lookup : UInt32 → UInt32 → Option Msgmod}
  {get : MsgmodField → FieldMessage → Nat → Option FieldValue} {msg msg' : FieldObject}

/-! ### What a call does -/

/-- What is known of an object whatever calls there were. -/
structure WellTyped (msg : FieldObject) : Prop where
  lawful : ∀ mod, msg.mod = some mod → mod.Lawful
  holds : ∀ m, msg.message = some m → ∃ mod, msg.mod = some mod ∧ mod.Holds m

theorem deserialize_of_message {m : FieldMessage} (h : msg.message = some m) :
    msg.deserialize = (.success, msg) := by
  rw [deserialize, if_pos (by rw [h]; exact Option.some_ne_none m)]

/-- Deserializing leaves the object as it is, or finds the message in its payload. -/
theorem deserialize_cases (msg : FieldObject) :
    msg.deserialize.2 = msg ∧ (msg.deserialize.1 = .success → ∃ m, msg.message = some m) ∨
      ∃ mod np payload m, msg.mod = some mod ∧ msg.np = some np ∧ np.payload = some payload ∧
        mod.unpack payload = some m ∧ msg.deserialize = (.success, { msg with message := some m }) := by
  cases hmessage : msg.message with
  | some m =>
      rw [deserialize_of_message hmessage]
      exact Or.inl ⟨rfl, fun _ => ⟨m, rfl⟩⟩
  | none =>
      rw [deserialize, if_neg (not_not.mpr hmessage)]
      cases hnp : msg.np with
      | none => exact Or.inl ⟨rfl, nofun⟩
      | some np =>
          cases hmod : msg.mod with
          | none => exact Or.inl ⟨rfl, nofun⟩
          | some mod =>
              dsimp only
              cases hpayload : np.payload with
              | none => exact Or.inl ⟨rfl, nofun⟩
              | some payload =>
                  dsimp only
                  cases hunpack : mod.unpack payload with
                  | none => exact Or.inl ⟨rfl, nofun⟩
                  | some m => exact Or.inr ⟨mod, np, payload, m, rfl, rfl, hpayload, hunpack, rfl⟩

theorem WellTyped.deserialize (h : msg.WellTyped) : msg.deserialize.2.WellTyped := by
  rcases msg.deserialize_cases with ⟨heq, -⟩ | ⟨mod, np, payload, m, hmod, -, -, hunpack, heq⟩
  · rwa [heq]
  · rw [heq]
    refine ⟨h.lawful, fun m' hm' => ⟨mod, hmod, ?_⟩⟩
    obtain rfl := Option.some.inj hm'
    exact (h.lawful mod hmod).unpack_holds payload _ hunpack

variable (get) in
/-- Reading a field at most deserializes. -/
theorem getField_object (msg : FieldObject) (name : Bytes) (valIdx : Nat) :
    (msg.getField get name valIdx).2 = msg ∨
      (msg.getField get name valIdx).2 = msg.deserialize.2 := by
  unfold getField
  split
  · exact Or.inl rfl
  · unfold getFieldByIdx
    split
    · exact Or.inl rfl
    · split
      · exact Or.inl rfl
      split
      · exact Or.inr rfl
      · dsimp only
        split <;> exact Or.inr rfl

/-- Setting a field fails, and the object is at most deserialized, or it leaves a message of the
module and the flag. -/
theorem WellTyped.setFieldByIdx_cases (h : msg.WellTyped) {fieldIdx valIdx len : Nat} {data : Bytes}
    {res : Res} (hset : msg.setFieldByIdx fieldIdx valIdx data len = .ok (res, msg')) :
    res ≠ .success ∧ (msg' = msg ∨ msg' = msg.deserialize.2) ∨
      ∃ mod m, msg.mod = some mod ∧ mod.Holds m ∧
        msg' = { msg with message := some m, updated := true } := by
  unfold setFieldByIdx at hset
  cases hfield : msg.mod.bind fun mod => mod.fields[fieldIdx]? with
  | none =>
      rw [hfield] at hset
      cases hset
      exact Or.inl ⟨nofun, Or.inl rfl⟩
  | some field =>
      simp only [hfield] at hset
      split_ifs at hset with hhidden hdeserialize
      · cases hset
        exact Or.inl ⟨nofun, Or.inl rfl⟩
      · rw [Except.ok.injEq] at hset
        rw [hset] at hdeserialize ⊢
        exact Or.inl ⟨hdeserialize, Or.inr rfl⟩
      · obtain ⟨m, hm⟩ := Option.ne_none_iff_exists'.mp
          (message_of_deserialize (not_not.mp hdeserialize))
        obtain ⟨mod, hmod, hholds⟩ := h.deserialize.holds m hm
        have hsame : msg.deserialize.2 = { msg with message := some m } := by
          rcases msg.deserialize_cases with ⟨heq, -⟩ | ⟨_, _, _, _, -, -, -, -, heq⟩
          · rw [heq] at hm ⊢
            rw [← hm]
          · rw [heq] at hm ⊢
            rw [← hm]
        have hmod' : msg.mod = some mod := by
          rw [hsame] at hmod
          exact hmod
        have hfield' : mod.fields[fieldIdx]? = some field := by
          rw [hmod'] at hfield
          exact hfield
        simp only [hm, Option.getD_some] at hset
        cases hvals : setFieldValue field (m.getD fieldIdx []) valIdx data len with
        | error e =>
            rw [hvals] at hset
            cases hset
        | ok out =>
            obtain ⟨res', vals⟩ := out
            simp only [hvals, Except.ok.injEq, Prod.mk.injEq] at hset
            refine Or.inr ⟨mod, m.set fieldIdx vals, hmod', hholds.set hfield'
              (setFieldValue_holds (hholds.getD hfield') hvals), ?_⟩
            rw [← hset.2, hsame]

theorem WellTyped.setField_cases (h : msg.WellTyped) {name : Bytes} {valIdx len : Nat} {data : Bytes}
    {res : Res} (hset : msg.setField name valIdx data len = .ok (res, msg')) :
    res ≠ .success ∧ (msg' = msg ∨ msg' = msg.deserialize.2) ∨
      ∃ mod m, msg.mod = some mod ∧ mod.Holds m ∧
        msg' = { msg with message := some m, updated := true } := by
  unfold setField at hset
  split at hset
  · cases hset
    exact Or.inl ⟨nofun, Or.inl rfl⟩
  next fieldIdx _ => exact h.setFieldByIdx_cases hset

theorem serialize_cases (now : WallTime) (msg : FieldObject) :
    msg.serialize now = msg ∨ ∃ mod m np, msg.mod = some mod ∧ msg.message = some m ∧
      np.payload = some (mod.pack m) ∧
      msg.serialize now = { msg with np := some np, updated := false } := by
  unfold serialize
  split
  next m mod hmessage hmod =>
    split
    · exact Or.inr ⟨mod, m, _, hmod, hmessage, rfl, rfl⟩
    · exact Or.inl rfl
  · exact Or.inl rfl

/-- A write serializes, and takes the payload or leaves it. -/
theorem containerAdd_object {now : WallTime} {c c' : Container} {res : Res}
    (h : msg.containerAdd now c = .ok (res, c', msg')) :
    msg' = msg.serialize now ∨ msg' = { msg.serialize now with np := none } := by
  have hsame : ∀ np updated, { msg with np := np, updated := updated } =
      { msg.serialize now with np := np, updated := updated } := by
    intro np updated
    rcases serialize_cases now msg with heq | ⟨_, _, _, -, -, -, heq⟩ <;> rw [heq]
  unfold containerAdd Nmsg.containerAdd at h
  rw [← toMessage_serialize] at h
  dsimp only at h
  cases hnp : (msg.serialize now).toMessage.np with
  | none =>
      rw [hnp] at h
      cases h
  | some np =>
      rw [hnp] at h
      dsimp only at h
      split_ifs at h
      · cases h
        left
        rw [hsame]
        rfl
      all_goals
        cases h
        right
        rw [hsame]
        rfl

/-- Everything that a call can do to an object. -/
theorem WellTyped.call_cases (h : msg.WellTyped) {c : MessageCall} {r : MessageAnswer}
    (hcall : msg.call get c = .ok (r, msg')) :
    msg' = msg ∨ msg' = msg.deserialize.2 ∨
      (∃ mod m, msg.mod = some mod ∧ mod.Holds m ∧
        msg' = { msg with message := some m, updated := true }) ∨
      (∃ now, msg' = msg.serialize now) ∨ ∃ now, msg' = { msg.serialize now with np := none } := by
  cases c with
  | getField name valIdx =>
      have hobject := getField_object get msg name valIdx
      rw [FieldObject.call, Except.ok.injEq, Prod.mk.injEq] at hcall
      rw [← hcall.2]
      rcases hobject with heq | heq
      · exact Or.inl heq
      · exact Or.inr (Or.inl heq)
  | setField name valIdx data len =>
      cases hset : msg.setField name valIdx data len with
      | error e => rw [FieldObject.call, hset] at hcall; cases hcall
      | ok out =>
          obtain ⟨res, next⟩ := out
          rw [FieldObject.call, hset] at hcall
          cases hcall
          rcases h.setField_cases hset with ⟨-, heq | heq⟩ | hset
          · exact Or.inl heq
          · exact Or.inr (Or.inl heq)
          · exact Or.inr (Or.inr (Or.inl hset))
  | serialize now =>
      cases hcall
      exact Or.inr (Or.inr (Or.inr (Or.inl ⟨now, rfl⟩)))
  | write now c =>
      cases hadd : msg.containerAdd now c with
      | error e => rw [FieldObject.call, hadd] at hcall; cases hcall
      | ok out =>
          obtain ⟨res, c', next⟩ := out
          rw [FieldObject.call, hadd] at hcall
          cases hcall
          rcases containerAdd_object hadd with heq | heq
          · exact Or.inr (Or.inr (Or.inr (Or.inl ⟨now, heq⟩)))
          · exact Or.inr (Or.inr (Or.inr (Or.inr ⟨now, heq⟩)))

/-! ### What is kept -/

/-- The message in memory can be had back. -/
structure Backed (msg : FieldObject) (mod : Msgmod) (m : FieldMessage) : Prop where
  mod_eq : msg.mod = some mod
  message_eq : msg.message = some m
  lawful : mod.Lawful
  holds : mod.Holds m
  current : msg.updated = true ∨ msg.np = none ∨
    ∃ np payload, msg.np = some np ∧ np.payload = some payload ∧ mod.unpack payload = some m

theorem WellTyped.serialize (h : msg.WellTyped) (now : WallTime) :
    (msg.serialize now).WellTyped := by
  rcases serialize_cases now msg with heq | ⟨mod, m, np, -, -, -, heq⟩
  · rwa [heq]
  · rw [heq]
    exact ⟨h.lawful, h.holds⟩

theorem WellTyped.call (h : msg.WellTyped) {c : MessageCall} {r : MessageAnswer}
    (hcall : msg.call get c = .ok (r, msg')) : msg'.WellTyped := by
  rcases h.call_cases hcall with
    rfl | rfl | ⟨mod, m, hmod, hholds, rfl⟩ | ⟨now, rfl⟩ | ⟨now, rfl⟩
  · exact h
  · exact h.deserialize
  · refine ⟨h.lawful, fun m' hm' => ⟨mod, hmod, ?_⟩⟩
    exact Option.some.inj hm' ▸ hholds
  · exact h.serialize now
  · exact ⟨(h.serialize now).lawful, (h.serialize now).holds⟩

section Backed

variable {mod : Msgmod} {m : FieldMessage}

theorem Backed.wellTyped (h : msg.Backed mod m) : msg.WellTyped where
  lawful := by
    intro mod' hmod'
    exact Option.some.inj (h.mod_eq.symm.trans hmod') ▸ h.lawful
  holds := by
    intro m' hm'
    exact ⟨mod, h.mod_eq, Option.some.inj (h.message_eq.symm.trans hm') ▸ h.holds⟩

/-- Serializing leaves a payload that decodes to the message in memory. -/
theorem Backed.serialize (h : msg.Backed mod m) (now : WallTime) :
    (msg.serialize now).Backed mod m ∧ ∃ np payload, (msg.serialize now).np = some np ∧
      np.payload = some payload ∧ mod.unpack payload = some m := by
  by_cases hcond : msg.updated = true ∨ msg.np = none
  · have heq : ∃ np, np.payload = some (mod.pack m) ∧
        msg.serialize now = { msg with np := some np, updated := false } := by
      rw [FieldObject.serialize, h.message_eq, h.mod_eq]
      dsimp only
      rw [if_pos hcond]
      exact ⟨_, rfl, rfl⟩
    obtain ⟨np, hpayload, heq⟩ := heq
    have hunpack := h.lawful.unpack_pack m h.holds
    rw [heq]
    exact ⟨⟨h.mod_eq, h.message_eq, h.lawful, h.holds, Or.inr (Or.inr ⟨np, _, rfl, hpayload,
      hunpack⟩)⟩, np, _, rfl, hpayload, hunpack⟩
  · have heq : msg.serialize now = msg := by
      rw [FieldObject.serialize, h.message_eq, h.mod_eq]
      dsimp only
      rw [if_neg hcond]
    obtain ⟨hflag, hnp⟩ := not_or.mp hcond
    rw [heq]
    exact ⟨h, (h.current.resolve_left hflag).resolve_left hnp⟩

/-- A message that is in memory and can be had back stays so. -/
theorem Backed.call (h : msg.Backed mod m) {c : MessageCall} {r : MessageAnswer}
    (hcall : msg.call get c = .ok (r, msg')) : ∃ m', msg'.Backed mod m' := by
  rcases h.wellTyped.call_cases hcall with
    rfl | rfl | ⟨mod', m', hmod', hholds, rfl⟩ | ⟨now, rfl⟩ | ⟨now, rfl⟩
  · exact ⟨m, h⟩
  · rw [deserialize_of_message h.message_eq]
    exact ⟨m, h⟩
  · obtain rfl := Option.some.inj (h.mod_eq.symm.trans hmod')
    exact ⟨m', h.mod_eq, rfl, h.lawful, hholds, Or.inl rfl⟩
  · exact ⟨m, (h.serialize now).1⟩
  · have hserialize := (h.serialize now).1
    exact ⟨m, hserialize.mod_eq, hserialize.message_eq, h.lawful, h.holds, Or.inr (Or.inl rfl)⟩

end Backed

/-! ### Runs -/

/-- An object as it is made. -/
inductive Made (lookup : UInt32 → UInt32 → Option Msgmod) : FieldObject → Prop where
  | fromPayload (np : NmsgPayload) : Made lookup (fromPayload lookup np)
  | init (mod : Msgmod) (hmod : mod.Lawful) (now : WallTime) : Made lookup (init mod now)

/-- The message was decoded from a payload, or there was a call that set one of its fields. -/
inductive Touched (lookup : UInt32 → UInt32 → Option Msgmod)
    (get : MsgmodField → FieldMessage → Nat → Option FieldValue) (msg : FieldObject) : Prop where
  | decoded (np : NmsgPayload) (h : (fromPayload lookup np).deserialize = (.success, msg))
  | set {made before : FieldObject} (hmade : Made lookup made) {calls : List MessageCall}
      {answers : List MessageAnswer} (hrun : run (call get) made calls = .ok (answers, before))
      {name : Bytes} {valIdx len : Nat} {data : Bytes}
      (hset : before.setField name valIdx data len = .ok (.success, msg))

theorem Made.wellTyped (hlookup : ∀ vid msgtype mod, lookup vid msgtype = some mod → mod.Lawful)
    (h : Made lookup msg) : msg.WellTyped := by
  cases h with
  | fromPayload np => exact ⟨fun mod h => hlookup np.vid np.msgtype mod h, nofun⟩
  | init mod hmod now =>
      refine ⟨fun mod' h => Option.some.inj h ▸ hmod, fun m h => ⟨mod, rfl, ?_⟩⟩
      exact Option.some.inj h ▸ mod.zero_holds

theorem Touched.backed (hlookup : ∀ vid msgtype mod, lookup vid msgtype = some mod → mod.Lawful)
    (h : Touched lookup get msg) : ∃ mod m, msg.Backed mod m := by
  cases h with
  | decoded np h =>
      have hmade : Made lookup (FieldObject.fromPayload lookup np) := .fromPayload np
      have hmade := hmade.wellTyped hlookup
      rcases deserialize_cases (FieldObject.fromPayload lookup np) with
        ⟨-, hmessage⟩ | ⟨mod, np', payload, m, hmod, hnp, hpayload, hunpack, heq⟩
      · obtain ⟨m, hm⟩ := hmessage (by rw [h])
        cases hm
      · rw [h] at heq
        obtain ⟨-, rfl⟩ := Prod.mk.inj heq
        have hlawful := hmade.lawful mod hmod
        exact ⟨mod, m, hmod, rfl, hlawful, hlawful.unpack_holds _ _ hunpack,
          Or.inr (Or.inr ⟨np', payload, hnp, hpayload, hunpack⟩)⟩
  | set hmade hrun hset =>
      have hbefore := run_invariant (fun _ _ _ _ h hcall => WellTyped.call h hcall)
        (hmade.wellTyped hlookup) hrun
      rcases hbefore.setField_cases hset with ⟨hres, -⟩ | ⟨mod, m, hmod, hholds, rfl⟩
      · exact absurd rfl hres
      · exact ⟨mod, m, hmod, rfl, hbefore.lawful mod hmod, hholds, Or.inl rfl⟩

/-- The payload is there and decodes to the message in memory, and an object made from it reports the
same of every field. -/
def Synchronized (get : MsgmodField → FieldMessage → Nat → Option FieldValue)
    (msg : FieldObject) : Prop :=
  ∃ mod np payload m, msg.mod = some mod ∧ msg.np = some np ∧ np.payload = some payload ∧
    mod.unpack payload = some m ∧ msg.message = some m ∧
    ∀ name valIdx, (msg.getField get name valIdx).1 =
      ((fromPayload (fun _ _ => some mod) np).getField get name valIdx).1

/-- What is reported of a field is what is in the message. -/
theorem getFieldByIdx_congr {other : FieldObject} (hmod : other.mod = msg.mod)
    (hres : other.deserialize.1 = msg.deserialize.1)
    (hmessage : other.deserialize.2.message = msg.deserialize.2.message) (fieldIdx valIdx : Nat) :
    (msg.getFieldByIdx get fieldIdx valIdx).1 = (other.getFieldByIdx get fieldIdx valIdx).1 := by
  unfold getFieldByIdx
  rw [hmod]
  split
  · rfl
  split
  · rfl
  rw [hres]
  split
  · rfl
  · dsimp only
    rw [hmessage]
    split <;> rfl

theorem getField_congr {other : FieldObject} (hmod : other.mod = msg.mod)
    (hres : other.deserialize.1 = msg.deserialize.1)
    (hmessage : other.deserialize.2.message = msg.deserialize.2.message) (name : Bytes)
    (valIdx : Nat) :
    (msg.getField get name valIdx).1 = (other.getField get name valIdx).1 := by
  unfold getField
  rw [hmod]
  split
  · rfl
  next fieldIdx _ => exact getFieldByIdx_congr hmod hres hmessage fieldIdx valIdx

/-- A write takes the payload of a message, and then its number is set to seven. -/
def sampleCalls : List MessageCall :=
  [.write ⟨1, 0⟩ ⟨⟨[], [], none, none⟩, 1024, hdrlszV2, false⟩,
    .setField [0x6e] 0 [7, 0, 0, 0] 4]

end FieldObject

end Nmsg

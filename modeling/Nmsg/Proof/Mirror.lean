import Mathlib.Data.List.Forall2
import Nmsg.Io
import Nmsg.Msgmod.Message
import Nmsg.Wire

/-!
# Mirrored messages

A copy of a message keeps both of its representations but not the flag that tells which one is
current, so that a copy is serialized from the payload octets.
-/

namespace Nmsg

variable {lookup : UInt32 → UInt32 → Option Msgmod} {msg msg' : FieldObject}

/-! ### Messages of inputs -/

/-- What is known of every message that an input hands over. -/
structure FieldObject.Sound (msg : FieldObject) : Prop where
  np : msg.np ≠ none
  lawful : ∀ mod, msg.mod = some mod → mod.Lawful
  holds : ∀ m, msg.message = some m → ∃ mod, msg.mod = some mod ∧ mod.Holds m
  updated : msg.updated = true → msg.message ≠ none

section Fields

variable {field : MsgmodField} {vals vals' : List FieldValue} {valIdx len : Nat} {data : Bytes}

theorem loadValue_ofType {type : FieldType} {val : FieldValue}
    (h : loadValue type data len = .ok (some val)) : val.OfType type := by
  cases type <;> simp only [loadValue] at h <;> split_ifs at h <;>
    simp only [Except.ok.injEq, Option.some.injEq, reduceCtorEq] at h <;> subst h <;>
    simp [FieldValue.OfType]

theorem makeRoom_holds (hvals : field.Holds vals) (h : makeRoom field vals valIdx = some vals') :
    field.Holds vals' := by
  obtain ⟨hcount, htype⟩ := hvals
  have hzero : ∀ val ∈ [field.type.zero], val.OfType field.type := by
    intro val hval
    rw [List.mem_singleton.mp hval]
    exact FieldType.zero_ofType _
  unfold makeRoom at h
  cases hlabel : field.label with
  | repeated =>
      simp only [hlabel] at h
      split_ifs at h
      · exact Option.some.inj h ▸ ⟨hcount, htype⟩
      · rw [← Option.some.inj h]
        refine ⟨by rw [hlabel]; trivial, fun val hval => ?_⟩
        rcases List.mem_append.mp hval with hval | hval
        · exact htype val hval
        · exact hzero val hval
  | optional =>
      simp only [hlabel] at h
      split_ifs at h
      · rw [← Option.some.inj h]
        exact ⟨by rw [hlabel]; exact Nat.le_refl 1, hzero⟩
      · exact Option.some.inj h ▸ ⟨hcount, htype⟩
  | required =>
      simp only [hlabel] at h
      split_ifs at h
      exact Option.some.inj h ▸ ⟨hcount, htype⟩

theorem setFieldValue_holds {res : Res} (hvals : field.Holds vals)
    (h : setFieldValue field vals valIdx data len = .ok (res, vals')) : field.Holds vals' := by
  unfold setFieldValue at h
  cases hroom : makeRoom field vals valIdx with
  | none =>
      simp only [hroom, Except.ok.injEq, Prod.mk.injEq] at h
      exact h.2 ▸ hvals
  | some room =>
      have hholds := makeRoom_holds hvals hroom
      simp only [hroom] at h
      cases hload : loadValue field.type data len with
      | error e => simp [hload] at h
      | ok loaded =>
          cases loaded with
          | none =>
              simp only [hload, Except.ok.injEq, Prod.mk.injEq] at h
              exact h.2 ▸ hholds
          | some val =>
              simp only [hload, Except.ok.injEq, Prod.mk.injEq] at h
              rw [← h.2]
              refine ⟨by rw [List.length_set]; exact hholds.count, fun v hv => ?_⟩
              rcases List.mem_or_eq_of_mem_set hv with hv | rfl
              · exact hholds.ofType v hv
              · exact loadValue_ofType hload

end Fields

section Sound

theorem FieldObject.sound_fromPayload
    (hlookup : ∀ vid msgtype mod, lookup vid msgtype = some mod → mod.Lawful) (np : NmsgPayload) :
    (FieldObject.fromPayload lookup np).Sound where
  np := Option.some_ne_none np
  lawful := fun mod h => hlookup np.vid np.msgtype mod h
  holds := fun _ h => nomatch h
  updated := fun h => nomatch h

theorem FieldObject.sound_init {mod : Msgmod} (hmod : mod.Lawful) (now : WallTime) :
    (FieldObject.init mod now).Sound where
  np := Option.some_ne_none _
  lawful := fun _ h => Option.some.inj h ▸ hmod
  holds := fun _ h => ⟨mod, rfl, Option.some.inj h ▸ mod.zero_holds⟩
  updated := fun h => nomatch h

/-- Deserializing changes the message in memory only. -/
theorem FieldObject.Sound.deserialize (h : msg.Sound) :
    msg.deserialize.2.Sound ∧ msg.deserialize.2.mod = msg.mod := by
  unfold FieldObject.deserialize
  by_cases hmessage : msg.message ≠ none
  · rw [if_pos hmessage]
    exact ⟨h, rfl⟩
  rw [if_neg hmessage]
  cases hnp : msg.np with
  | none => exact ⟨h, rfl⟩
  | some np =>
      cases hmod : msg.mod with
      | none => exact ⟨h, hmod⟩
      | some mod =>
          simp only
          cases np.payload with
          | none => exact ⟨h, hmod⟩
          | some payload =>
              simp only
              cases hunpack : mod.unpack payload with
              | none => exact ⟨h, hmod⟩
              | some m =>
                  have hlawful := h.lawful mod hmod
                  refine ⟨⟨Option.some_ne_none np, ?_, ?_, fun _ => Option.some_ne_none m⟩, rfl⟩
                  · rintro _ ⟨⟩
                    exact hlawful
                  · rintro _ ⟨⟩
                    exact ⟨mod, rfl, hlawful.unpack_holds payload m hunpack⟩

theorem FieldObject.message_of_deserialize (h : msg.deserialize.1 = .success) :
    msg.deserialize.2.message ≠ none := by
  unfold FieldObject.deserialize at h ⊢
  by_cases hmessage : msg.message ≠ none
  · rwa [if_pos hmessage]
  rw [if_neg hmessage] at h ⊢
  split at h
  · rename_i np mod hnp hmod
    cases hpayload : np.payload with
    | none => simp [hpayload] at h
    | some payload =>
        simp only [hpayload] at h ⊢
        cases hunpack : mod.unpack payload with
        | none => simp [hunpack] at h
        | some m => exact Option.some_ne_none m
  · cases h

/-- Setting the values of one field keeps a message of the module. -/
theorem Msgmod.Holds.set {mod : Msgmod} {m : FieldMessage} {vals : List FieldValue} {i : Nat}
    {field : MsgmodField} (h : mod.Holds m) (hfield : mod.fields[i]? = some field)
    (hvals : field.Holds vals) : mod.Holds (m.set i vals) := by
  unfold Msgmod.Holds at h ⊢
  rw [List.forall₂_iff_get] at h ⊢
  obtain ⟨hlen, hall⟩ := h
  refine ⟨by rw [List.length_set, hlen], fun j hj hj' => ?_⟩
  rw [List.length_set] at hj'
  simp only [List.get_eq_getElem]
  rw [List.getElem_set]
  split_ifs with hij
  · subst hij
    obtain ⟨_, hget⟩ := List.getElem?_eq_some_iff.mp hfield
    exact hget ▸ hvals
  · exact hall j hj hj'

theorem Msgmod.Holds.getD {mod : Msgmod} {m : FieldMessage} {i : Nat} {field : MsgmodField}
    (h : mod.Holds m) (hfield : mod.fields[i]? = some field) : field.Holds (m.getD i []) := by
  obtain ⟨hlen, hall⟩ := List.forall₂_iff_get.mp h
  obtain ⟨hi, hget⟩ := List.getElem?_eq_some_iff.mp hfield
  have hi' : i < m.length := hlen ▸ hi
  rw [List.getD_eq_getElem?_getD, List.getElem?_eq_getElem hi', ← hget]
  exact hall i hi hi'

theorem FieldObject.Sound.setFieldByIdx (h : msg.Sound) {fieldIdx valIdx len : Nat} {data : Bytes}
    {res : Res} (hset : msg.setFieldByIdx fieldIdx valIdx data len = .ok (res, msg')) :
    msg'.Sound := by
  unfold FieldObject.setFieldByIdx at hset
  cases hfield : msg.mod.bind fun mod => mod.fields[fieldIdx]? with
  | none =>
      simp only [hfield, Except.ok.injEq, Prod.mk.injEq] at hset
      exact hset.2 ▸ h
  | some field =>
      simp only [hfield] at hset
      obtain ⟨hsound, hmod⟩ := h.deserialize
      split_ifs at hset with hhidden hdeserialize
      · exact (Prod.mk.inj (Except.ok.inj hset)).2 ▸ h
      · rw [Except.ok.injEq] at hset
        rwa [hset] at hsound
      · obtain ⟨m, hm⟩ := Option.ne_none_iff_exists'.mp
          (FieldObject.message_of_deserialize (not_not.mp hdeserialize))
        obtain ⟨mod, hmod', hholds⟩ := hsound.holds m hm
        have hfield' : mod.fields[fieldIdx]? = some field := by
          rw [← hmod, hmod'] at hfield
          exact hfield
        simp only [hm, Option.getD_some] at hset
        cases hvals : setFieldValue field (m.getD fieldIdx []) valIdx data len with
        | error e =>
            rw [hvals] at hset
            cases hset
        | ok out =>
            obtain ⟨res', vals⟩ := out
            simp only [hvals, Except.ok.injEq, Prod.mk.injEq] at hset
            rw [← hset.2]
            refine ⟨hsound.np, hsound.lawful, fun m' hm' => ?_, fun _ => Option.some_ne_none _⟩
            obtain rfl := Option.some.inj hm'
            exact ⟨mod, hmod', hholds.set hfield'
              (setFieldValue_holds (hholds.getD hfield') hvals)⟩

/-- Every message that an input hands over is sound. -/
theorem FieldObject.Produced.sound
    (hlookup : ∀ vid msgtype mod, lookup vid msgtype = some mod → mod.Lawful)
    (h : FieldObject.Produced lookup msg) : msg.Sound := by
  induction h with
  | fromPayload np => exact FieldObject.sound_fromPayload hlookup np
  | init mod hmod now => exact FieldObject.sound_init hmod now
  | setField _ hset ih =>
      unfold FieldObject.setField at hset
      split at hset
      · exact (Prod.mk.inj (Except.ok.inj hset)).2 ▸ ih
      · exact ih.setFieldByIdx hset

end Sound

/-! ### Copies -/

/-- A sound message can be copied, and only the flag is lost. -/
theorem FieldObject.Sound.dup (h : msg.Sound) :
    msg.dup = some { msg with updated := false } := by
  obtain ⟨mod, message, np, updated⟩ := msg
  cases message with
  | none => rfl
  | some m =>
      obtain ⟨mod', hmod, hholds⟩ := h.holds m rfl
      obtain rfl : mod = some mod' := hmod
      simp only [FieldObject.dup, (h.lawful mod' rfl).unpack_pack m hholds]

/-- These messages carry the same octets, with the same ids, time, source, operator and group. -/
def SameData (a b : FieldObject) : Prop :=
  ∃ np np', a.np = some np ∧ b.np = some np' ∧ np.payload.getD [] = np'.payload.getD [] ∧
    { np with payload := none } = { np' with payload := none }

/-- If the message was updated, its payload holds the octets that it packs to. -/
def FieldObject.Current (msg : FieldObject) : Prop :=
  msg.updated = true → ∀ mod m np, msg.mod = some mod → msg.message = some m → msg.np = some np →
    mod.pack m = np.payload.getD []

theorem sameData_dup_iff (h : msg.Sound) (now : WallTime) :
    SameData (FieldObject.serialize now { msg with updated := false }) (msg.serialize now) ↔
      msg.Current := by
  obtain ⟨mod, message, np, updated⟩ := msg
  obtain ⟨np, rfl⟩ := Option.ne_none_iff_exists'.mp h.np
  have hself : SameData ⟨mod, message, some np, false⟩ ⟨mod, message, some np, false⟩ :=
    ⟨np, np, rfl, rfl, rfl, rfl⟩
  have hdup : FieldObject.serialize now ⟨mod, message, some np, false⟩ =
      ⟨mod, message, some np, false⟩ := by
    cases message <;> cases mod <;> simp [FieldObject.serialize]
  rw [hdup]
  cases updated with
  | false =>
      rw [hdup]
      exact iff_of_true hself (by rintro ⟨⟩)
  | true =>
      obtain ⟨m, rfl⟩ := Option.ne_none_iff_exists'.mp (h.updated rfl)
      obtain ⟨mod', hmod, -⟩ := h.holds m rfl
      obtain rfl : mod = some mod' := hmod
      simp only [FieldObject.serialize, true_or, if_true, Option.getD_some]
      constructor
      · rintro ⟨_, _, ⟨⟩, ⟨⟩, hpayload, -⟩ _
        rintro _ _ _ ⟨⟩ ⟨⟩ ⟨⟩
        exact hpayload.symm
      · intro hcurrent
        exact ⟨np, _, rfl, rfl, (hcurrent rfl mod' m np rfl rfl rfl).symm, rfl⟩

/-! ### Writing to every output -/

/-- Copying through a pointer, which is null if there is no copy. -/
def dupPointer (msg : Option FieldObject) : Option FieldObject := msg.bind FieldObject.dup

/-- Whatever outputs a mirrored write reaches, each serializes from its copy what the message itself
serializes to. -/
def MirrorsAlike (msg : FieldObject) : Prop :=
  ∀ (now : WallTime) (io : Io) (round : IoRound (Option FieldObject)) (s s' : IoThr) (res : Res)
    (actions : List (IoAction (Option FieldObject))),
    ioWriteMirrored io dupPointer round s (some msg) = .ok (res, actions, s') →
    ∀ j pointer, .wrote j pointer ∈ actions →
      ∃ copy, pointer = some copy ∧ SameData (copy.serialize now) (msg.serialize now)

section Writes

variable {M : Type*} {io : Io} {dup : M → M} {round : IoRound M} {m copy : M} {s s' : IoThr}
  {res : Res} {actions : List (IoAction M)} {j : Nat}

theorem ioWrite_actions (h : ioWrite io round s j m = .ok (res, actions, s')) :
    actions = [] ∨ actions = [.wrote j m] := by
  unfold ioWrite at h
  split at h
  · cases h
  · split_ifs at h
    all_goals cases h
    · exact Or.inl rfl
    · exact Or.inl rfl
    · exact Or.inr rfl

/-- A mirrored write hands a copy to every output it reaches. -/
theorem writeEach_wrote {js : List Nat} (h : writeEach io dup round m js s = .ok (res, actions, s'))
    (hmem : .wrote j copy ∈ actions) : copy = dup m := by
  induction js generalizing s s' res actions with
  | nil =>
      simp only [writeEach, Except.ok.injEq, Prod.mk.injEq] at h
      rw [← h.2.1] at hmem
      cases hmem
  | cons i js ih =>
      rw [writeEach] at h
      cases hwrite : ioWrite io round s i (dup m) with
      | error e => simp [hwrite] at h
      | ok out =>
          obtain ⟨res', first, t⟩ := out
          have hfirst : .wrote j copy ∈ first → copy = dup m := by
            intro hmem
            rcases ioWrite_actions hwrite with rfl | rfl
            · cases hmem
            · rw [List.mem_singleton] at hmem
              cases hmem
              rfl
          simp only [hwrite] at h
          split_ifs at h
          · cases h
            exact hfirst hmem
          · cases hrest : writeEach io dup round m js t with
            | error e => simp [hrest, Except.map] at h
            | ok rest =>
                obtain ⟨res'', actions', t'⟩ := rest
                simp only [hrest, Except.map, Except.ok.injEq, Prod.mk.injEq] at h
                rw [← h.2.1] at hmem
                rcases List.mem_append.mp hmem with hmem | hmem
                · exact hfirst hmem
                · exact ih hrest hmem

end Writes

/-- A round in which every output takes what is written to it. -/
def acceptingRound (M : Type*) : IoRound M := ⟨0, .success, none, fun _ => .success, fun _ _ => true⟩

/-- A mirrored write to one output. -/
theorem ioWriteMirrored_one {M : Type*} (dup : M → M) (m : M) :
    ∃ s, ioWriteMirrored ⟨0, 0, .mirror, false⟩ dup (acceptingRound M) (IoThr.start 1) m =
      .ok (.success, [.wrote 0 (dup m)], s) :=
  ⟨_, rfl⟩

theorem mirrorsAlike_iff (h : msg.Sound) : MirrorsAlike msg ↔ msg.Current := by
  have hdup : dupPointer (some msg) = some { msg with updated := false } := h.dup
  constructor
  · intro hmirrors
    obtain ⟨s, hwrite⟩ := ioWriteMirrored_one dupPointer (some msg)
    obtain ⟨copy, hcopy, hsame⟩ :=
      hmirrors ⟨0, 0⟩ _ _ _ _ _ _ hwrite 0 _ (List.mem_singleton.mpr rfl)
    rw [hdup] at hcopy
    obtain rfl := Option.some.inj hcopy
    exact (sameData_dup_iff h ⟨0, 0⟩).mp hsame
  · intro hcurrent now io round s s' res actions hwrite j pointer hmem
    rw [writeEach_wrote hwrite hmem, hdup]
    exact ⟨_, rfl, (sameData_dup_iff h now).mpr hcurrent⟩

/-! ### The result -/

open WireFormat in
/-- A module whose messages have one number. -/
def countModule : Msgmod where
  vid := 1
  msgtype := 1
  fields := [⟨.uint32, [0x6e], .required, false, false, false, []⟩]
  pack
    | [[.word v]] => encode [.varint 1 v.toNat]
    | _ => []
  unpack b := do
    let fields ← decode b
    let n ← findVarint 1 fields
    some [[.word (.ofNat n)]]

theorem countModule_holds_iff {m : FieldMessage} :
    countModule.Holds m ↔ ∃ v, m = [[.word v]] := by
  constructor
  · intro h
    obtain ⟨vals, rest, hvals, hrest, rfl⟩ := List.forall₂_cons_left_iff.mp h
    rw [List.forall₂_nil_left_iff] at hrest
    obtain ⟨val, rfl⟩ := List.length_eq_one_iff.mp hvals.count
    have htype := hvals.ofType val (by simp)
    cases val with
    | word v => exact ⟨v, by rw [hrest]⟩
    | dword v => simp [FieldValue.OfType] at htype
    | data b => simp [FieldValue.OfType] at htype
  · rintro ⟨v, rfl⟩
    refine List.Forall₂.cons ⟨rfl, ?_⟩ List.Forall₂.nil
    intro val hval
    rw [List.mem_singleton.mp hval]
    simp [FieldValue.OfType]

theorem countModule_lawful : countModule.Lawful where
  unpack_pack := by
    intro m hm
    obtain ⟨v, rfl⟩ := countModule_holds_iff.mp hm
    have hdecode : WireFormat.decode (WireFormat.encode [.varint 1 v.toNat]) =
        some [.varint 1 v.toNat] := by
      apply WireFormat.decode_encode
      simp [WireFormat.Field.Fits]
    simp [countModule, hdecode, WireFormat.findVarint]
  unpack_holds := by
    intro b m h
    simp only [countModule, Option.bind_eq_bind, Option.bind_eq_some_iff, Option.some.injEq] at h
    obtain ⟨_, _, n, _, rfl⟩ := h
    exact countModule_holds_iff.mpr ⟨_, rfl⟩

/-- A message of the module whose number was set to five. -/
def countedMessage : FieldObject where
  mod := some countModule
  message := some [[.word 5]]
  np := some (messageInitPayload ⟨0, 0⟩ (countModule.message [[.word 0]]))
  updated := true

theorem countedMessage_produced : FieldObject.Produced (fun _ _ => none) countedMessage := by
  have hset : (FieldObject.init countModule ⟨0, 0⟩).setField [0x6e] 0 [5, 0, 0, 0] 4 =
      .ok (.success, countedMessage) := rfl
  exact .setField (.init countModule countModule_lawful ⟨0, 0⟩) hset

end Nmsg

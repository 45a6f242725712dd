import Nmsg.Proof.PresTotal

/-!
# Records

The closure is kept from record to record, and with it the buffers of the multi-line strings. A
closure that has read records and a fresh one are alike as long as every multi-line string that is
closed has a line of its own in its buffer.
-/

namespace Nmsg

open StepRun

variable {libc : Libc} {mod : PresModule} {clos clos' fresh fresh' used : MsgmodClos} {n : Nat}
  {pres : Bytes} {value : Option Bytes} {res : Res}

/-! ### Steps again -/

theorem LoadStep.loadField_eq (h : LoadStep libc mod clos n value res clos') :
    loadField libc mod clos n value = .ok (res, clos') := by
  cases h with
  | rejected placed single hconvert =>
      obtain ⟨hfield, hm, rfl⟩ := placed
      simp only [loadField, hfield, hm, presToPayloadLoad, if_neg single, hconvert]
  | stored placed single hconvert =>
      obtain ⟨hfield, hm, rfl⟩ := placed
      simp only [loadField, hfield, hm, presToPayloadLoad, if_neg single, hconvert]
  | opened placed multi keyval =>
      obtain ⟨hfield, hm, rfl⟩ := placed
      simp only [loadField, hfield, hm, presToPayloadLoad, if_pos multi, loadMlstring, keyval]
      rfl
  | closed placed multi multiline descr stop =>
      obtain ⟨hfield, hm, rfl⟩ := placed
      simp only [loadField, hfield, hm, presToPayloadLoad, if_pos multi, loadMlstring, multiline,
        descr, if_pos stop]
      rfl
  | appended placed multi multiline descr text happend =>
      obtain ⟨hfield, hm, rfl⟩ := placed
      simp only [loadField, hfield, hm, presToPayloadLoad, if_pos multi, loadMlstring, multiline,
        descr, if_neg text, happend]
      rfl

/-- What a line can do is what the parser does. -/
theorem presToPayload_eq_ok_iff :
    presToPayload libc mod clos pres = .ok (res, clos') ↔
      PresStep libc mod (clos.start mod) pres res clos' := by
  refine ⟨presToPayload_step, ?_⟩
  intro h
  unfold presToPayload
  dsimp only
  cases h with
  | ready keyval blank => rw [keyval, if_pos blank]
  | unsplit keyval line hsplit => rw [keyval, if_neg line, hsplit]
  | line keyval line hsplit step => rw [keyval, if_neg line, hsplit]; exact step.loadField_eq
  | text multiline field step => rw [multiline, field]; exact step.loadField_eq

/-! ### Buffers that are alike -/

namespace Strbuf

/-- Both buffers have the same text, and its end if the first one was written at all. -/
structure Alike (fresh used : Strbuf) : Prop where
  freshValid : fresh.Valid
  usedValid : used.Valid
  text : used.text = fresh.text
  ended : fresh.data ≠ none → fresh.Terminated ∧ used.Terminated

theorem Alike.pos_eq {fresh used : Strbuf} (h : Alike fresh used) : used.pos = fresh.pos := by
  rw [← h.usedValid.length_text, ← h.freshValid.length_text, h.text]

theorem Alike.append {fresh used fresh' : Strbuf} (h : Alike fresh used) {text : Bytes}
    (happend : fresh.append text = .ok fresh') :
    ∃ used', used.append text = .ok used' ∧ Alike fresh' used' ∧ fresh'.data ≠ none ∧
      fresh.pos ≤ fresh'.pos := by
  obtain ⟨a, data, hok, hvalid, hpos, htext, hdata, hended⟩ := h.freshValid.append text
  obtain ⟨b, data', hok', hvalid', -, htext', hdata', hended'⟩ := h.usedValid.append text
  obtain rfl := Except.ok.inj (happend.symm.trans hok)
  refine ⟨b, hok', ⟨hvalid, hvalid', ?_, fun _ => ⟨⟨data, hdata, hended⟩, data', hdata', hended'⟩⟩,
    ?_, ?_⟩
  · rw [htext, htext', h.text]
  · rw [hdata]
    exact nofun
  · rw [hpos]
    exact Nat.le_add_right _ _

end Strbuf

/-- The octets of a text and of its end are the same in both buffers. -/
theorem readSlot_alike {a b : Strbuf} (h : a.Alike b) {slot : Slot} {more : Nat} (hmore : more ≤ 1)
    (hslot : ∀ len, slot = .strbuf len → a.data ≠ none ∧ len ≤ a.pos) :
    readSlot b more slot = readSlot a more slot := by
  cases slot with
  | value | null => rfl
  | strbuf len =>
      obtain ⟨hdata, hlen⟩ := hslot len rfl
      obtain ⟨⟨data, hdata, hend⟩, data', hdata', hend'⟩ := h.ended hdata
      rw [h.pos_eq, h.text, ← hend] at hend'
      have hlength : ∀ {d : Bytes}, d.take (a.pos + 1) = data.take (a.pos + 1) →
          len + more ≤ d.length := by
        intro d hd
        have hd' := congrArg List.length (hd.trans hend)
        rw [List.length_take, List.length_append, h.freshValid.length_text, List.length_singleton] at hd'
        omega
      have htake : data'.take (len + more) = data.take (len + more) := by
        have := congrArg (List.take (len + more)) hend'
        rwa [List.take_take, List.take_take, Nat.min_eq_left (by omega)] at this
      simp only [readSlot, hdata, hdata', Option.getD_some, Memory.read, Nat.zero_add,
        List.drop_zero, if_pos (hlength hend'), if_pos (hlength rfl), htake]

/-! ### Closures that are alike -/

/-- The slots that point to a buffer point to one that was written, and not behind its text. -/
def SlotsHeld (fields : List PresField) (strbufs : Nat → Strbuf) (m : List (List Slot)) : Prop :=
  ∀ n len, .strbuf len ∈ m.getD n [] → ∀ field id, fields[n]? = some field →
    field.descrId = some id → (strbufs (id - 1)).data ≠ none ∧ len ≤ (strbufs (id - 1)).pos

theorem SlotsHeld.set {fields : List PresField} {strbufs : Nat → Strbuf} {m : List (List Slot)}
    (h : SlotsHeld fields strbufs m) {slots : List Slot}
    (hslots : ∀ len, .strbuf len ∈ slots → .strbuf len ∈ m.getD n [] ∨
      ∀ field id, fields[n]? = some field → field.descrId = some id →
        (strbufs (id - 1)).data ≠ none ∧ len ≤ (strbufs (id - 1)).pos) :
    SlotsHeld fields strbufs (m.set n slots) := by
  intro k len hmem field id hfield hid
  rw [getD_set_slots] at hmem
  split at hmem
  next hk =>
    obtain rfl := hk.1
    rcases hslots len hmem with hold | hnew
    · exact h n len hold field id hfield hid
    · exact hnew field id hfield hid
  next => exact h k len hmem field id hfield hid

theorem zeroSlot_ne_strbuf (type : FieldType) (len : Nat) : type.zeroSlot ≠ .strbuf len := by
  cases type <;> exact nofun

theorem mem_makePlace {field : PresField} {slots : List Slot} {len : Nat}
    (h : .strbuf len ∈ makePlace field slots) : .strbuf len ∈ slots := by
  unfold makePlace at h
  split at h
  · rcases List.mem_append.mp h with h | h
    · exact h
    · exact absurd (List.mem_singleton.mp h).symm (zeroSlot_ne_strbuf _ _)
  · exact h

/-- A fresh closure and one that has been used. -/
structure MsgmodClos.Alike (mod : PresModule) (fresh used : MsgmodClos) : Prop where
  message : used.nmsgPbuf = fresh.nmsgPbuf
  estsz : used.estsz = fresh.estsz
  mode : used.mode = fresh.mode
  field : fresh.mode = .multiline → used.field = fresh.field
  strbufs : ∀ id, (fresh.strbufs id).Alike (used.strbufs id)
  slots : ∀ m, fresh.nmsgPbuf = some m → SlotsHeld mod.fields fresh.strbufs m

theorem MsgmodClos.Alike.start (h : fresh.Alike mod used) :
    (fresh.start mod).Alike mod (used.start mod) := by
  cases hm : fresh.nmsgPbuf with
  | some m => rwa [start_of_some hm, start_of_some (h.message.trans hm)]
  | none =>
      rw [start_of_none hm, start_of_none (h.message.trans hm)]
      refine ⟨rfl, h.estsz, rfl, nofun, h.strbufs, ?_⟩
      rintro m ⟨⟩ n len hmem
      rw [PresModule.zeroSlots, List.getD_eq_getElem?_getD, List.getElem?_map] at hmem
      cases hfield : mod.fields[n]? with
      | none => rw [hfield] at hmem; cases hmem
      | some field =>
          rw [hfield, Option.map_some, Option.getD_some] at hmem
          split at hmem
          · exact absurd (List.mem_singleton.mp hmem).symm (zeroSlot_ne_strbuf _ _)
          · cases hmem

/-- The line closes a multi-line string that has no line in its buffer. -/
def ClosesEmpty (mod : PresModule) (clos : MsgmodClos) (pres : Bytes) : Prop :=
  clos.mode = .multiline ∧ pres.take 2 = [46, 10] ∧ ∃ n field id, clos.field = some n ∧
    mod.fields[n]? = some field ∧ field.descrId = some id ∧ (clos.strbufs (id - 1)).data = none

theorem FieldPlace.alike {field : PresField} {m : List (List Slot)} {slots : List Slot}
    (h : FieldPlace mod fresh n field m slots) (halike : fresh.Alike mod used) :
    FieldPlace mod used n field m slots :=
  ⟨h.field_eq, halike.message.trans h.message_eq, h.slots_eq⟩

theorem mem_storeSlot_value {field : PresField} {m : List (List Slot)} {v : FieldValue} {len : Nat}
    (h : .strbuf len ∈ storeSlot field (makePlace field (m.getD n [])) (.value v)) :
    .strbuf len ∈ m.getD n [] := by
  rcases mem_storeSlot h with h | h
  · exact mem_makePlace h
  · cases h

/-- **Loading.** What a fresh closure does with a value the other one does too. -/
theorem LoadStep.alike (h : LoadStep libc mod fresh n value res fresh')
    (halike : fresh.Alike mod used) (hfield : fresh.mode = .multiline → fresh.field = some n)
    (hfilled : ∀ text, value = some text → ¬ ClosesEmpty mod fresh text) :
    ∃ used', LoadStep libc mod used n value res used' ∧ fresh'.Alike mod used' := by
  cases h with
  | rejected placed single hconvert =>
      refine ⟨_, .rejected (placed.alike halike) single hconvert,
        ⟨rfl, halike.estsz, halike.mode, halike.field, halike.strbufs, ?_⟩⟩
      rintro m' ⟨⟩
      apply (halike.slots _ placed.message_eq).set
      intro len hmem
      exact Or.inl (mem_makePlace (placed.slots_eq ▸ hmem))
  | stored placed single hconvert =>
      refine ⟨_, .stored (placed.alike halike) single hconvert,
        ⟨rfl, congrArg (· + _) halike.estsz, halike.mode, halike.field, halike.strbufs, ?_⟩⟩
      rintro m' ⟨⟩
      apply (halike.slots _ placed.message_eq).set
      intro len hmem
      exact Or.inl (mem_storeSlot_value (placed.slots_eq ▸ hmem))
  | opened placed multi keyval =>
      refine ⟨_, .opened (placed.alike halike) multi (halike.mode.trans keyval),
        ⟨rfl, halike.estsz, rfl, fun _ => rfl, halike.strbufs, ?_⟩⟩
      rintro m' ⟨⟩
      apply (halike.slots _ placed.message_eq).set
      intro len hmem
      exact Or.inl (mem_makePlace (placed.slots_eq ▸ hmem))
  | @closed field m slots text id placed multi multiline descr stop =>
      have hbuf := halike.strbufs (id - 1)
      have hdata : (fresh.strbufs (id - 1)).data ≠ none := fun hnone =>
        hfilled text rfl ⟨multiline, stop, n, field, id, hfield multiline, placed.field_eq, descr,
          hnone⟩
      have hdata' : (used.strbufs (id - 1)).data ≠ none := by
        obtain ⟨-, data, hused, -⟩ := hbuf.ended hdata
        rw [hused]
        exact nofun
      have hstep := @LoadStep.closed libc _ _ _ _ _ _ _ _ (placed.alike halike) multi
        (halike.mode.trans multiline) descr stop
      rw [if_neg hdata'] at hstep
      rw [if_neg hdata]
      have hlen : (used.strbufs (id - 1)).len = (fresh.strbufs (id - 1)).len := hbuf.pos_eq
      refine ⟨_, hstep, ⟨?_, halike.estsz, rfl, nofun, halike.strbufs, ?_⟩⟩
      · dsimp only
        rw [hlen]
      · rintro m' ⟨⟩
        apply (halike.slots _ placed.message_eq).set
        intro len hmem
        rcases mem_storeSlot hmem with hmem | hmem
        · exact Or.inl (mem_makePlace (placed.slots_eq ▸ hmem))
        · right
          intro field' id' hfield' hid'
          obtain rfl := Option.some.inj (placed.field_eq.symm.trans hfield')
          obtain rfl := Option.some.inj (descr.symm.trans hid')
          cases hmem
          exact ⟨hdata, le_refl _⟩
  | @appended field m slots text id sb placed multi multiline descr htext happend =>
      obtain ⟨sb', happend', hbuf, hdata, hle⟩ := (halike.strbufs (id - 1)).append happend
      refine ⟨_, .appended (placed.alike halike) multi (halike.mode.trans multiline) descr htext
        happend', ⟨rfl, congrArg (· + _) halike.estsz, halike.mode, halike.field, ?_, ?_⟩⟩
      · intro id'
        dsimp only
        rw [Function.update_apply, Function.update_apply]
        split
        · exact hbuf
        · exact halike.strbufs id'
      · rintro m' ⟨⟩
        have hslots : SlotsHeld mod.fields (Function.update fresh.strbufs (id - 1) sb) m := by
          intro k len hmem field' id' hfield' hid'
          have hold := halike.slots _ placed.message_eq k len hmem field' id' hfield' hid'
          rw [Function.update_apply]
          split
          next hid =>
            rw [hid] at hold
            exact ⟨hdata, hold.2.trans hle⟩
          next => exact hold
        apply hslots.set
        intro len hmem
        exact Or.inl (mem_makePlace (placed.slots_eq ▸ hmem))

/-- **Lines.** What a fresh closure does with a line the other one does too. -/
theorem PresStep.alike (h : PresStep libc mod fresh pres res fresh')
    (halike : fresh.Alike mod used) (hfilled : ¬ ClosesEmpty mod fresh pres) :
    ∃ used', PresStep libc mod used pres res used' ∧ fresh'.Alike mod used' := by
  cases h with
  | ready keyval blank => exact ⟨used, .ready (halike.mode.trans keyval) blank, halike⟩
  | unsplit keyval line hsplit =>
      exact ⟨used, .unsplit (halike.mode.trans keyval) line hsplit, halike⟩
  | line keyval line hsplit step =>
      have hkeyval : fresh.mode ≠ .multiline := by
        rw [keyval]
        exact nofun
      obtain ⟨used', hstep, halike'⟩ := step.alike halike (fun h => absurd h hkeyval)
        fun _ _ h => hkeyval h.1
      exact ⟨used', .line (halike.mode.trans keyval) line hsplit hstep, halike'⟩
  | text multiline field step =>
      have hfilled' : ∀ text, some pres = some text → ¬ ClosesEmpty mod fresh text := by
        rintro text ⟨⟩
        exact hfilled
      obtain ⟨used', hstep, halike'⟩ := step.alike halike (fun _ => field) hfilled'
      exact ⟨used', .text (halike.mode.trans multiline) ((halike.field multiline).trans field) hstep,
        halike'⟩

/-! ### Between records -/

/-- A value of the field is there when the message is packed. -/
def Present (field : PresField) (slots : List Slot) : Prop :=
  onePresent field slots = true ∨ (field.label = .repeated ∧ slots ≠ [])

theorem Present.makePlace {field : PresField} {slots : List Slot} (h : Present field slots) :
    Present field (makePlace field slots) := by
  unfold Nmsg.makePlace
  split
  next hrepeated => exact Or.inr ⟨hrepeated, List.concat_ne_nil _ _⟩
  next => exact h

/-- A value that is stored is there. -/
theorem present_storeSlot (field : PresField) (slots : List Slot) (slot : Slot) :
    Present field (storeSlot field (makePlace field slots) slot) := by
  rw [storeSlot_makePlace, Present, onePresent]
  cases hlabel : field.label with
  | required => exact Or.inl rfl
  | optional => exact Or.inl rfl
  | repeated => exact Or.inr ⟨rfl, List.concat_ne_nil _ _⟩

/-- The buffer with this index belongs to a multi-line string of the message, or to the one that is
open. -/
def Owner (mod : PresModule) (clos : MsgmodClos) (m : List (List Slot)) (k : Nat) : Prop :=
  ∃ n field id, mod.fields[n]? = some field ∧ field.type = .mlstring ∧ field.descrId = some id ∧
    k = id - 1 ∧ (Present field (m.getD n []) ∨ (clos.mode = .multiline ∧ clos.field = some n))

/-- A buffer with text belongs to the message. Between records there is none. -/
structure MsgmodClos.Owned (mod : PresModule) (clos : MsgmodClos) : Prop where
  idle : clos.nmsgPbuf = none → clos.estsz = 0 ∧ ∀ k, (clos.strbufs k).pos = 0
  owner : ∀ m, clos.nmsgPbuf = some m → ∀ k, (clos.strbufs k).pos ≠ 0 → Owner mod clos m k

theorem MsgmodClos.Owned.start (h : clos.Owned mod) : (clos.start mod).Owned mod := by
  cases hm : clos.nmsgPbuf with
  | some m => rwa [start_of_some hm]
  | none =>
      rw [start_of_none hm]
      exact ⟨nofun, fun _ _ k hk => absurd ((h.idle hm).2 k) hk⟩

/-- The owners of a message in which one field has got other slots. -/
theorem Owner.set {m : List (List Slot)} {k : Nat} {field : PresField} {slots : List Slot}
    (h : Owner mod clos m k) (hfield : mod.fields[n]? = some field) (hlt : n < m.length)
    (hslots : Present field (m.getD n []) ∨ (clos.mode = .multiline ∧ clos.field = some n) →
      Present field slots ∨ (clos'.mode = .multiline ∧ clos'.field = some n))
    (hothers : ∀ n', n' ≠ n → clos.mode = .multiline → clos.field = some n' →
      clos'.mode = .multiline ∧ clos'.field = some n') : Owner mod clos' (m.set n slots) k := by
  obtain ⟨n', field', id, hfield', hmulti, hid, rfl, howner⟩ := h
  refine ⟨n', field', id, hfield', hmulti, hid, rfl, ?_⟩
  rw [getD_set_slots]
  by_cases hn : n = n'
  · subst hn
    obtain rfl := Option.some.inj (hfield.symm.trans hfield')
    rw [if_pos ⟨rfl, hlt⟩]
    exact hslots howner
  · rw [if_neg fun h => hn h.1]
    rcases howner with howner | ⟨hmode, hopen⟩
    · exact Or.inl howner
    · exact Or.inr (hothers n' (Ne.symm hn) hmode hopen)

theorem LoadStep.owned (h : LoadStep libc mod clos n value res clos') (howned : clos.Owned mod)
    (hsound : clos.Sound mod) (hopen : clos.mode = .multiline → clos.field = some n) :
    clos'.Owned mod := by
  have hlt : ∀ {m field slots}, FieldPlace mod clos n field m slots → n < m.length := by
    intro m field slots placed
    rw [hsound.length m placed.message_eq]
    exact (List.getElem?_eq_some_iff.mp placed.field_eq).1
  have hkeep : ∀ {field : PresField} {slots : List Slot} {clos₂ : MsgmodClos},
      clos₂.mode = clos.mode → clos₂.field = clos.field →
      (Present field slots ∨ (clos.mode = .multiline ∧ clos.field = some n) →
        Present field (makePlace field slots) ∨
          (clos₂.mode = .multiline ∧ clos₂.field = some n)) ∧
      ∀ n', n' ≠ n → clos.mode = .multiline → clos.field = some n' →
        clos₂.mode = .multiline ∧ clos₂.field = some n' := by
    intro field slots clos₂ hmode hfield
    rw [hmode, hfield]
    exact ⟨fun h => h.imp_left Present.makePlace, fun n' _ h h' => ⟨h, h'⟩⟩
  cases h with
  | rejected placed single hconvert =>
      refine ⟨nofun, ?_⟩
      rintro m' ⟨⟩ k hk
      rw [placed.slots_eq]
      obtain ⟨hslots, hothers⟩ := hkeep rfl rfl
      exact (howned.owner _ placed.message_eq k hk).set placed.field_eq (hlt placed) hslots hothers
  | stored placed single hconvert =>
      refine ⟨nofun, ?_⟩
      rintro m' ⟨⟩ k hk
      rw [placed.slots_eq]
      exact (howned.owner _ placed.message_eq k hk).set placed.field_eq (hlt placed)
        (fun _ => Or.inl (present_storeSlot _ _ _)) fun n' _ h h' => ⟨h, h'⟩
  | opened placed multi keyval =>
      refine ⟨nofun, ?_⟩
      rintro m' ⟨⟩ k hk
      rw [placed.slots_eq]
      have hmode : clos.mode ≠ .multiline := by
        rw [keyval]
        exact nofun
      exact (howned.owner _ placed.message_eq k hk).set placed.field_eq (hlt placed)
        (fun _ => Or.inr ⟨rfl, rfl⟩) fun n' _ h _ => absurd h hmode
  | closed placed multi multiline descr stop =>
      refine ⟨nofun, ?_⟩
      rintro m' ⟨⟩ k hk
      rw [placed.slots_eq]
      have hothers : ∀ n', n' ≠ n → clos.field ≠ some n' := by
        intro n' hne hn'
        exact hne (Option.some.inj (hn'.symm.trans (hopen multiline)))
      exact (howned.owner _ placed.message_eq k hk).set placed.field_eq (hlt placed)
        (fun _ => Or.inl (present_storeSlot _ _ _)) fun n' hne _ h => absurd h (hothers n' hne)
  | @appended field m slots text id sb placed multi multiline descr htext happend =>
      refine ⟨nofun, ?_⟩
      rintro m' ⟨⟩ k hk
      rw [placed.slots_eq]
      dsimp only at hk
      rw [Function.update_apply] at hk
      obtain ⟨hslots, hothers⟩ := hkeep rfl rfl
      by_cases hid : k = id - 1
      · have howner : Owner mod clos m k := ⟨n, field, id, placed.field_eq, multi, descr, hid,
          Or.inr ⟨multiline, hopen multiline⟩⟩
        exact howner.set placed.field_eq (hlt placed) hslots hothers
      · rw [if_neg hid] at hk
        exact (howned.owner _ placed.message_eq k hk).set placed.field_eq (hlt placed) hslots hothers

theorem PresStep.owned (h : PresStep libc mod clos pres res clos') (howned : clos.Owned mod)
    (hsound : clos.Sound mod) : clos'.Owned mod := by
  cases h with
  | ready | unsplit => exact howned
  | line keyval line hsplit step =>
      apply step.owned howned hsound
      rw [keyval]
      exact nofun
  | text multiline field step => exact step.owned howned hsound fun _ => field

/-- A buffer with text is emptied with the message it belongs to. -/
theorem deallocate_idle {fields : List PresField} : ∀ {m : List (List Slot)}
    {strbufs strbufs' : Nat → Strbuf}, m.length = fields.length →
      (∀ k, (strbufs k).pos ≠ 0 → ∃ (n : Nat) (field : PresField) (id : Nat), fields[n]? = some field ∧
        field.type = .mlstring ∧ field.descrId = some id ∧ k = id - 1 ∧
          Present field (m.getD n [])) →
      deallocate strbufs fields m = .ok strbufs' → ∀ k, (strbufs' k).pos = 0 := by
  induction fields with
  | nil =>
      intro m strbufs strbufs' hlength howner h k
      obtain rfl := List.eq_nil_of_length_eq_zero hlength
      cases h
      by_contra hk
      obtain ⟨n, field, id, hfield, -⟩ := howner k hk
      cases hfield
  | cons field fields ih =>
      intro m strbufs strbufs' hlength howner h
      cases m with
      | nil => cases hlength
      | cons slots m =>
          -- What is owed to the other fields, for the buffers that still have text.
          have htail : ∀ {strbufs₂ : Nat → Strbuf}, (∀ k, (strbufs₂ k).pos ≠ 0 →
              (strbufs k).pos ≠ 0 ∧ ∀ id, field.descrId = some id → k = id - 1 →
                field.type = .mlstring → ¬ Present field slots) →
              deallocate strbufs₂ fields m = .ok strbufs' → ∀ k, (strbufs' k).pos = 0 := by
            intro strbufs₂ hfirst h
            refine ih (Nat.succ.inj hlength) ?_ h
            intro k hk
            obtain ⟨hk, hnot⟩ := hfirst k hk
            obtain ⟨n, field', id, hfield', hmulti, hid, rfl, hpresent⟩ := howner k hk
            cases n with
            | zero =>
                cases hfield'
                exact absurd hpresent (hnot id hid rfl hmulti)
            | succ n => exact ⟨n, field', id, hfield', hmulti, hid, rfl, hpresent⟩
          rw [deallocate] at h
          cases hdescr : field.descrId with
          | none =>
              rw [hdescr] at h
              refine htail ?_ h
              intro k hk
              refine ⟨hk, ?_⟩
              intro id hid
              rw [hdescr] at hid
              cases hid
          | some id =>
              rw [hdescr] at h
              dsimp only at h
              by_cases hmulti : field.type = .mlstring
              · rw [if_pos hmulti] at h
                by_cases hone : onePresent field slots
                · rw [if_pos hone] at h
                  refine htail ?_ h
                  intro k hk
                  rw [Function.update_apply] at hk
                  split at hk
                  · exact absurd rfl hk
                  next hne =>
                    refine ⟨hk, ?_⟩
                    intro id' hid' hk'
                    obtain rfl := Option.some.inj (hdescr.symm.trans hid')
                    exact absurd hk' hne
                · rw [if_neg hone] at h
                  by_cases hrepeated : field.label = .repeated ∧ slots.length ≥ 1
                  · rw [if_pos hrepeated] at h
                    cases h
                  · rw [if_neg hrepeated] at h
                    refine htail ?_ h
                    intro k hk
                    refine ⟨hk, ?_⟩
                    rintro id' - - - (hpresent | ⟨hlabel, hslots⟩)
                    · exact hone hpresent
                    · exact hrepeated ⟨hlabel, List.length_pos_iff.mpr hslots⟩
              · rw [if_neg hmulti] at h
                exact htail (fun k hk => ⟨hk, fun _ _ _ h => absurd h hmulti⟩) h

theorem presRead_owned {answer : Res × Option Bytes}
    (h : presRead libc mod clos pres = .ok (answer, clos')) (hsound : clos.Sound mod)
    (howned : clos.Owned mod) : clos'.Owned mod := by
  rcases presRead_eq_ok.mp h with ⟨res, hpres, -, -⟩ | ⟨next, payload, hpres, hfinalize, -⟩
  · exact (presToPayload_step hpres).owned howned.start hsound.start
  · obtain ⟨hkeyval, -, rfl⟩ := (presToPayload_step hpres).of_ready
    obtain ⟨slots, m, strbufs, hslots, -, -, -, hstrbufs, rfl⟩ :=
      presToPayloadFinalize_eq_ok.mp hfinalize
    refine ⟨fun _ => ⟨rfl, ?_⟩, nofun⟩
    refine deallocate_idle (hsound.start.length slots hslots) ?_ hstrbufs
    intro k hk
    obtain ⟨n, field, id, hfield, hmulti, hid, hk', howner⟩ :=
      howned.start.owner slots hslots k hk
    refine ⟨n, field, id, hfield, hmulti, hid, hk', howner.resolve_right ?_⟩
    rintro ⟨hmode, -⟩
    rw [hkeyval] at hmode
    cases hmode

theorem presRun_owned {lines : List Bytes} {out : List (Res × Option Bytes)}
    (hrun : run (presRead libc mod) .init lines = .ok (out, clos)) : clos.Owned mod := by
  have hinit : MsgmodClos.init.Sound mod ∧ MsgmodClos.init.Owned mod :=
    ⟨MsgmodClos.init_sound mod, fun _ => ⟨rfl, fun _ => rfl⟩, nofun⟩
  have hstep : ∀ clos pres answer clos', clos.Sound mod ∧ clos.Owned mod →
      presRead libc mod clos pres = .ok (answer, clos') → clos'.Sound mod ∧ clos'.Owned mod :=
    fun _ _ _ _ h hstep => ⟨presRead_sound hstep h.1, presRead_owned hstep h.1 h.2⟩
  exact (run_invariant hstep hinit hrun).2

/-- Between records a closure that has been used is like a fresh one. -/
theorem init_alike {lines : List Bytes} {out : List (Res × Option Bytes)}
    (hrun : run (presRead libc mod) .init lines = .ok (out, used)) (hidle : used.nmsgPbuf = none) :
    MsgmodClos.init.Alike mod used := by
  have hsound := presRun_sound hrun
  obtain ⟨hestsz, hpos⟩ := (presRun_owned hrun).idle hidle
  refine ⟨hidle, hestsz, ?_, nofun, ?_, nofun⟩
  · cases hmode : used.mode with
    | keyval => rfl
    | multiline => exact absurd hidle (hsound.multiline hmode).1
  · intro id
    refine ⟨Strbuf.init_valid, hsound.strbufs id, ?_, fun h => absurd rfl h⟩
    apply List.eq_nil_of_length_eq_zero
    rw [(hsound.strbufs id).length_text, hpos id]

/-! ### Finalizing -/

theorem readFields_alike {a b : MsgmodClos} (hstrbufs : ∀ id, (a.strbufs id).Alike (b.strbufs id))
    {fields : List PresField} : ∀ {m : List (List Slot)}, SlotsHeld fields a.strbufs m →
      readFields b fields m = readFields a fields m := by
  induction fields with
  | nil => exact fun _ => rfl
  | cons field fields ih =>
      intro m hheld
      cases m with
      | nil => rfl
      | cons slots m =>
          have hfield : readField b field slots = readField a field slots := by
            unfold readField
            cases hid : field.descrId with
            | none => rfl
            | some id =>
                dsimp only
                have hmore : terminator field slots ≤ 1 := by
                  unfold terminator
                  split <;> omega
                apply mapM_congr_left
                intro slot hslot
                apply readSlot_alike (hstrbufs (id - 1)) hmore
                rintro len rfl
                exact hheld 0 len hslot field id rfl hid
          have hrest := ih (m := m) fun n len hmem field' id hfield' hid =>
            hheld (n + 1) len hmem field' id hfield' hid
          rw [readFields, readFields, hfield, hrest]

/-- Which messages can be given back does not depend on the buffers. -/
theorem deallocate_agree {fields : List PresField} : ∀ {m : List (List Slot)}
    (strbufs strbufs' : Nat → Strbuf),
    Agree (fun _ _ => True) (deallocate strbufs fields m) (deallocate strbufs' fields m) := by
  induction fields with
  | nil => exact fun _ _ => trivial
  | cons field fields ih =>
      intro m strbufs strbufs'
      cases m with
      | nil => trivial
      | cons slots m =>
          rw [deallocate, deallocate]
          cases field.descrId with
          | none => exact ih strbufs strbufs'
          | some id =>
              dsimp only
              split_ifs
              · exact ih _ _
              · rfl
              · exact ih _ _
              · exact ih _ _

theorem presToPayloadFinalize_agree (h : fresh.Alike mod used) :
    Agree (fun a b => a.1 = b.1) (presToPayloadFinalize mod used)
      (presToPayloadFinalize mod fresh) := by
  unfold presToPayloadFinalize
  rw [h.message]
  cases hm : fresh.nmsgPbuf with
  | none => rfl
  | some slots =>
      have hallocated : used.allocated = fresh.allocated := by
        rw [MsgmodClos.allocated, MsgmodClos.allocated, h.estsz]
      dsimp only
      rw [readFields_alike h.strbufs (h.slots slots hm), hallocated]
      refine Agree.bind (Agree.refl fun _ _ => rfl) ?_
      rintro m _ rfl
      by_cases hlong : (mod.pack m).length > fresh.allocated
      · rw [if_pos hlong, if_pos hlong]
        rfl
      · rw [if_neg hlong, if_neg hlong]
        exact (deallocate_agree _ _).bind fun _ _ _ => rfl

/-! ### Runs -/

theorem ClosesEmpty.start (h : ClosesEmpty mod (clos.start mod) pres) : ClosesEmpty mod clos pres := by
  cases hm : clos.nmsgPbuf with
  | some m => rwa [MsgmodClos.start_of_some hm] at h
  | none =>
      rw [MsgmodClos.start_of_none hm] at h
      cases h.1

/-- A fresh closure and one that has been used answer the lines of a record alike. -/
theorem run_alike {lines : List Bytes} : ∀ {fresh used next : MsgmodClos}
    {rs : List (Res × Option Bytes)}, fresh.Alike mod used →
      Along (presRead libc mod) (fun clos pres => ¬ ClosesEmpty mod clos pres) fresh lines →
      run (presRead libc mod) fresh lines = .ok (rs, next) → (∀ answer ∈ rs, answer.2 = none) →
      ∃ next', run (presRead libc mod) used lines = .ok (rs, next') ∧ next.Alike mod next' := by
  induction lines with
  | nil =>
      intro fresh used next rs halike halong hrun hopen
      cases hrun
      exact ⟨used, rfl, halike⟩
  | cons line lines ih =>
      intro fresh used next rs halike halong hrun hopen
      obtain ⟨answer, mid, rs, hstep, hrest, rfl⟩ := run_cons_eq_ok.mp hrun
      rcases presRead_eq_ok.mp hstep with ⟨res, hpres, hready, rfl⟩ | ⟨_, payload, _, _, rfl⟩
      · obtain ⟨mid', hpres', halike'⟩ := (presToPayload_step hpres).alike halike.start
          fun h => halong.1 h.start
        have hstep' := presRead_eq_ok.mpr (Or.inl ⟨res, presToPayload_eq_ok_iff.mpr hpres', hready,
          rfl⟩)
        obtain ⟨next', hrun', hlast⟩ := ih halike' (halong.2 _ _ hstep) hrest
          fun answer h => hopen answer (List.mem_cons_of_mem _ h)
        exact ⟨next', run_cons_eq_ok.mpr ⟨_, _, _, hstep', hrun', rfl⟩, hlast⟩
      · cases hopen _ (List.mem_cons_self ..)

/-- The blank line is answered alike too. -/
theorem presRead_blank (halike : fresh.Alike mod used) (hsound : fresh.Sound mod) :
    Agree (fun a b => a.1 = b.1) (presRead libc mod used [10]) (presRead libc mod fresh [10]) := by
  have hstart := halike.start
  have hfilled : ¬ ClosesEmpty mod (fresh.start mod) [10] := fun h => absurd h.2.1 (by decide)
  have hreadable : Readable mod fresh [10] := fun _ => ⟨List.cons_ne_nil _ _, Or.inl rfl⟩
  obtain ⟨⟨res, next⟩, hpres⟩ : ∃ answer, presToPayload libc mod fresh [10] = .ok answer :=
    (presToPayload_ok_iff hsound.start).mpr hreadable
  obtain ⟨next', hstep', halike'⟩ := (presToPayload_step hpres).alike hstart hfilled
  unfold presRead
  rw [hpres, presToPayload_eq_ok_iff.mpr hstep']
  simp only [bind, Except.bind]
  by_cases hready : res = .pbufReady
  · rw [if_pos hready, if_pos hready]
    refine (presToPayloadFinalize_agree halike').bind ?_
    rintro ⟨payload, -⟩ ⟨payload', -⟩ rfl
    rfl
  · rw [if_neg hready, if_neg hready]
    rfl

/-- A value of octets, as the first field of a message. -/
def packOne : FieldMessage → Bytes
  | [[.data b]] => 10 :: .ofNat b.length :: b
  | _ => []

end Nmsg

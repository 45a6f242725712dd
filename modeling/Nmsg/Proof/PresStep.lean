import Nmsg.Lib.Outcome
import Nmsg.Lib.StepRun
import Nmsg.Msgmod.Pres

/-!
# What a line can do

Each line of presentation text ends a message, is rejected, or goes into a field. What a line can do
to the closure is said here once, and with it what is kept in every closure that lines lead to.
-/

namespace Nmsg

open StepRun

variable {libc : Libc} {mod : PresModule} {clos clos' : MsgmodClos} {n : Nat} {pres : Bytes}
  {value : Option Bytes} {res : Res}

/-- A module of one field, named `n`. -/
def oneField (type : FieldType) (label : FieldLabel) (pack : FieldMessage → Bytes) : PresModule where
  fields := [{
    type := type, name := [110], label := label, hidden := false, noprint := false, hasGet := false,
    enumValues := [], descrId := some 1, hasPrint := false }]
  pack := pack
  unpack := fun _ => none

/-- A C library that knows no address and no number with a fraction. -/
def plainLibc : Libc where
  inetPton4 := fun _ => none
  inetPton6 := fun _ => none
  inetNtop4 := fun _ => []
  inetNtop6 := fun _ => []
  strtod := fun _ => none
  formatDouble := fun _ => []

/-! ### Steps -/

/-- The field has a message to load its value into, with a place for it. -/
structure FieldPlace (mod : PresModule) (clos : MsgmodClos) (n : Nat) (field : PresField)
    (m : List (List Slot)) (slots : List Slot) : Prop where
  field_eq : mod.fields[n]? = some field
  message_eq : clos.nmsgPbuf = some m
  slots_eq : slots = makePlace field (m.getD n [])

/-- What loading a value can do. -/
inductive LoadStep (libc : Libc) (mod : PresModule) (clos : MsgmodClos) (n : Nat) :
    Option Bytes → Res → MsgmodClos → Prop where
  | rejected {field : PresField} {m : List (List Slot)} {slots : List Slot} {value : Bytes}
      (placed : FieldPlace mod clos n field m slots) (single : field.type ≠ .mlstring)
      (hconvert : convertValue libc field (placeOf field slots) value = .ok none) :
      LoadStep libc mod clos n (some value) .parseError
        { clos with nmsgPbuf := some (m.set n slots) }
  | stored {field : PresField} {m : List (List Slot)} {slots : List Slot} {value : Bytes}
      {v : FieldValue} {size : Nat}
      (placed : FieldPlace mod clos n field m slots) (single : field.type ≠ .mlstring)
      (hconvert : convertValue libc field (placeOf field slots) value = .ok (some (v, size))) :
      LoadStep libc mod clos n (some value) .success
        { clos with
          nmsgPbuf := some (m.set n (storeSlot field slots (.value v)))
          estsz := clos.estsz + size }
  | opened {field : PresField} {m : List (List Slot)} {slots : List Slot} {value : Option Bytes}
      (placed : FieldPlace mod clos n field m slots) (multi : field.type = .mlstring)
      (keyval : clos.mode = .keyval) :
      LoadStep libc mod clos n value .success
        { clos with nmsgPbuf := some (m.set n slots), field := some n, mode := .multiline }
  | closed {field : PresField} {m : List (List Slot)} {slots : List Slot} {value : Bytes} {id : Nat}
      (placed : FieldPlace mod clos n field m slots) (multi : field.type = .mlstring)
      (multiline : clos.mode = .multiline) (descr : field.descrId = some id)
      (stop : value.take 2 = [46, 10]) :
      LoadStep libc mod clos n (some value) .success
        { clos with
          nmsgPbuf := some (m.set n (storeSlot field slots
            (if (clos.strbufs (id - 1)).data = none then .null
              else .strbuf (clos.strbufs (id - 1)).len)))
          mode := .keyval }
  | appended {field : PresField} {m : List (List Slot)} {slots : List Slot} {value : Bytes}
      {id : Nat} {sb : Strbuf}
      (placed : FieldPlace mod clos n field m slots) (multi : field.type = .mlstring)
      (multiline : clos.mode = .multiline) (descr : field.descrId = some id)
      (text : value.take 2 ≠ [46, 10]) (happend : (clos.strbufs (id - 1)).append value = .ok sb) :
      LoadStep libc mod clos n (some value) .success
        { clos with
          nmsgPbuf := some (m.set n slots)
          estsz := clos.estsz + value.length
          strbufs := Function.update clos.strbufs (id - 1) sb }

theorem loadField_step (h : loadField libc mod clos n value = .ok (res, clos')) :
    LoadStep libc mod clos n value res clos' := by
  unfold loadField at h
  split at h
  swap
  · cases h
  next field m hfield hmessage =>
  have placed : FieldPlace mod clos n field m (makePlace field (m.getD n [])) := ⟨hfield, hmessage, rfl⟩
  dsimp only at h
  by_cases hmulti : field.type = .mlstring
  · simp only [presToPayloadLoad, if_pos hmulti] at h
    cases hmode : clos.mode with
    | keyval =>
        simp only [loadMlstring, hmode] at h
        cases h
        have hstep := @LoadStep.opened libc _ _ _ _ _ _ value placed hmulti hmode
        exact hstep
    | multiline =>
        cases value with
        | none => simp only [loadMlstring, hmode] at h; cases h
        | some value =>
            cases hid : field.descrId with
            | none => simp only [loadMlstring, hmode, hid] at h; cases h
            | some id =>
                simp only [loadMlstring, hmode, hid] at h
                by_cases hstop : value.take 2 = [46, 10]
                · rw [if_pos hstop] at h
                  cases h
                  exact .closed placed hmulti hmode hid hstop
                · rw [if_neg hstop] at h
                  cases happend : (clos.strbufs (id - 1)).append value with
                  | error e => rw [happend] at h; cases h
                  | ok sb =>
                      rw [happend] at h
                      cases h
                      have hstep :=
                        @LoadStep.appended libc _ _ _ _ _ _ _ _ _ placed hmulti hmode hid hstop happend
                      rw [hmode] at hstep
                      exact hstep
  · simp only [presToPayloadLoad, if_neg hmulti] at h
    cases value with
    | none => cases h
    | some value =>
        dsimp only at h
        cases hconvert : convertValue libc field (placeOf field (makePlace field (m.getD n [])))
            value with
        | error e => rw [hconvert] at h; cases h
        | ok out =>
            rw [hconvert] at h
            cases out with
            | none =>
                cases h
                exact .rejected placed hmulti hconvert
            | some out =>
                cases h
                exact .stored placed hmulti hconvert

theorem storeSlot_makePlace {field : PresField} (slots : List Slot) (slot : Slot) :
    storeSlot field (makePlace field slots) slot =
      (if field.label = .repeated then slots else []) ++ [slot] := by
  unfold storeSlot makePlace
  by_cases hrepeated : field.label = .repeated
  · simp only [if_pos hrepeated, List.length_append, List.length_singleton, Nat.add_sub_cancel]
    rw [List.set_append_right _ _ (le_refl _), Nat.sub_self]
    rfl
  · simp only [if_neg hrepeated, List.nil_append]

/-- A value of a line is converted, and is stored where it can be. -/
theorem loadField_single {field : PresField} {value : Bytes}
    {m : List (List Slot)} (hfield : mod.fields[n]? = some field)
    (hm : clos.nmsgPbuf = some m) (single : field.type ≠ .mlstring) :
    loadField libc mod clos n (some value) =
      match convertValue libc field (placeOf field (makePlace field (m.getD n []))) value with
      | .error e => .error e
      | .ok none =>
          .ok (.parseError, { clos with
            nmsgPbuf := some (m.set n (makePlace field (m.getD n []))) })
      | .ok (some (v, size)) =>
          .ok (.success, { clos with
            nmsgPbuf := some (m.set n
              ((if field.label = .repeated then m.getD n [] else []) ++ [.value v]))
            estsz := clos.estsz + size }) := by
  simp only [loadField, hfield, hm, presToPayloadLoad, if_neg single, storeSlot_makePlace]
  cases convertValue libc field (placeOf field (makePlace field (m.getD n []))) value with
  | error e => rfl
  | ok out => cases out <;> rfl

/-- What a line can do. -/
inductive PresStep (libc : Libc) (mod : PresModule) (clos : MsgmodClos) (pres : Bytes) :
    Res → MsgmodClos → Prop where
  | ready (keyval : clos.mode = .keyval) (blank : pres.head? = some 10) :
      PresStep libc mod clos pres .pbufReady clos
  | unsplit (keyval : clos.mode = .keyval) (line : pres.head? ≠ some 10)
      (hsplit : splitLine mod.fields pres = .ok none) :
      PresStep libc mod clos pres .parseError clos
  | line {n : Nat} {value : Option Bytes} {res : Res} {clos' : MsgmodClos}
      (keyval : clos.mode = .keyval) (line : pres.head? ≠ some 10)
      (hsplit : splitLine mod.fields pres = .ok (some (n, value)))
      (step : LoadStep libc mod clos n value res clos') : PresStep libc mod clos pres res clos'
  | text {n : Nat} {res : Res} {clos' : MsgmodClos} (multiline : clos.mode = .multiline)
      (field : clos.field = some n) (step : LoadStep libc mod clos n (some pres) res clos') :
      PresStep libc mod clos pres res clos'

theorem presToPayload_step (h : presToPayload libc mod clos pres = .ok (res, clos')) :
    PresStep libc mod (clos.start mod) pres res clos' := by
  unfold presToPayload at h
  dsimp only at h
  cases hmode : (clos.start mod).mode with
  | keyval =>
      simp only [hmode] at h
      by_cases hblank : pres.head? = some 10
      · rw [if_pos hblank] at h
        cases h
        exact .ready hmode hblank
      · rw [if_neg hblank] at h
        cases hsplit : splitLine mod.fields pres with
        | error e => rw [hsplit] at h; cases h
        | ok out =>
            rw [hsplit] at h
            cases out with
            | none =>
                cases h
                exact .unsplit hmode hblank hsplit
            | some out =>
                obtain ⟨n, value⟩ := out
                exact .line hmode hblank hsplit (loadField_step h)
  | multiline =>
      simp only [hmode] at h
      cases hfield : (clos.start mod).field with
      | none => rw [hfield] at h; cases h
      | some n =>
          rw [hfield] at h
          exact .text hmode hfield (loadField_step h)

/-! ### What is kept -/

/-- A field of 16 bits. -/
def FieldType.Short (type : FieldType) : Prop := type = .uint16 ∨ type = .int16

/-- A number that is stored in the low half of a slot of zeros. -/
def Slot.Low (s : Slot) : Prop := ∃ w : UInt32, s = .value (.word w) ∧ w.toNat < 65536

/-- What is known of every closure that lines lead to. -/
structure MsgmodClos.Sound (mod : PresModule) (clos : MsgmodClos) : Prop where
  length : ∀ m, clos.nmsgPbuf = some m → m.length = mod.fields.length
  low : ∀ m, clos.nmsgPbuf = some m → ∀ (n : Nat) (field : PresField), mod.fields[n]? = some field →
    field.type.Short → ∀ s ∈ m.getD n [], s.Low
  multiline : clos.mode = .multiline → clos.nmsgPbuf ≠ none ∧
    ∃ n field, clos.field = some n ∧ mod.fields[n]? = some field ∧ field.type = .mlstring ∧
      field.descrId ≠ none
  strbufs : ∀ id, (clos.strbufs id).Valid

theorem MsgmodClos.init_sound (mod : PresModule) : MsgmodClos.init.Sound mod :=
  ⟨nofun, nofun, nofun, fun _ => Strbuf.init_valid⟩

theorem zeroSlot_low {type : FieldType} (h : type.Short) : type.zeroSlot.Low := by
  rcases h with rfl | rfl <;> exact ⟨0, rfl, by decide⟩

theorem MsgmodClos.start_of_some {m : List (List Slot)} (h : clos.nmsgPbuf = some m) :
    clos.start mod = clos := by
  rw [start, h]

theorem MsgmodClos.start_of_none (h : clos.nmsgPbuf = none) :
    clos.start mod = { clos with nmsgPbuf := some mod.zeroSlots, mode := .keyval } := by
  rw [start, h]

@[simp]
theorem MsgmodClos.start_start (clos : MsgmodClos) (mod : PresModule) :
    (clos.start mod).start mod = clos.start mod := by
  cases h : clos.nmsgPbuf with
  | none => rw [start_of_none h, start_of_some rfl]
  | some m => rw [start_of_some h, start_of_some h]

theorem MsgmodClos.start_ne_none (clos : MsgmodClos) (mod : PresModule) :
    ∃ m, (clos.start mod).nmsgPbuf = some m := by
  cases h : clos.nmsgPbuf with
  | none => exact ⟨mod.zeroSlots, by rw [start_of_none h]⟩
  | some m => exact ⟨m, by rw [start_of_some h, h]⟩

theorem MsgmodClos.Sound.start (h : clos.Sound mod) : (clos.start mod).Sound mod := by
  cases hpbuf : clos.nmsgPbuf with
  | some m => rwa [start_of_some hpbuf]
  | none =>
      rw [start_of_none hpbuf]
      refine ⟨?_, ?_, nofun, h.strbufs⟩
      · rintro m ⟨⟩
        exact List.length_map _
      · rintro m ⟨⟩ n field hfield hshort s hs
        rw [PresModule.zeroSlots, List.getD_eq_getElem?_getD, List.getElem?_map, hfield] at hs
        dsimp only [Option.map_some, Option.getD_some] at hs
        split at hs
        · rw [List.mem_singleton.mp hs]
          exact zeroSlot_low hshort
        · cases hs

theorem store16_low {old : Slot} (hold : old.Low) (k : Nat) :
    ∃ w : UInt32, store16 old k = .word w ∧ w.toNat = k % 65536 := by
  obtain ⟨w, rfl, hw⟩ := hold
  refine ⟨_, rfl, ?_⟩
  rw [Nat.div_eq_of_lt hw, UInt32.toNat_ofNat']
  omega

/-- What a short field stores fits its 16 bits. -/
theorem convertValue_low {field : PresField} {old : Slot} {value : Bytes} {v : FieldValue}
    {size : Nat} (hshort : field.type.Short) (hold : old.Low)
    (h : convertValue libc field old value = .ok (some (v, size))) : (Slot.value v).Low := by
  have hstore : ∀ k, (Slot.value (store16 old k)).Low := by
    intro k
    obtain ⟨w, hw, hlow⟩ := store16_low hold k
    exact ⟨w, by rw [hw], by omega⟩
  unfold convertValue at h
  rcases hshort with htype | htype
  · simp only [htype, Except.ok.injEq, Option.bind_eq_some_iff] at h
    obtain ⟨k, -, hk⟩ := h
    split at hk
    · cases hk
    · cases hk
      exact hstore k
  · simp only [htype, Except.ok.injEq, Option.bind_eq_some_iff] at h
    obtain ⟨k, -, hk⟩ := h
    split at hk
    · cases hk
    · cases hk
      exact hstore _

section Place

variable {field : PresField} {m : List (List Slot)} {slots : List Slot}

theorem FieldPlace.low (h : FieldPlace mod clos n field m slots) (hsound : clos.Sound mod)
    (hshort : field.type.Short) : ∀ s ∈ slots, s.Low := by
  have hlow := hsound.low m h.message_eq n field h.field_eq hshort
  rw [h.slots_eq]
  intro s hs
  unfold makePlace at hs
  split at hs
  · rcases List.mem_append.mp hs with hs | hs
    · exact hlow s hs
    · rw [List.mem_singleton.mp hs]
      exact zeroSlot_low hshort
  · exact hlow s hs

theorem placeOf_low (hlow : ∀ s ∈ slots, s.Low) (hshort : field.type.Short) :
    (placeOf field slots).Low := by
  unfold placeOf
  cases hlast : slots.getLast? with
  | none => rw [List.getLastD_eq_getLast?, hlast]; exact zeroSlot_low hshort
  | some s =>
      rw [List.getLastD_eq_getLast?, hlast]
      exact hlow s (List.mem_of_getLast? hlast)

theorem mem_storeSlot {slot s : Slot} (h : s ∈ storeSlot field slots slot) : s ∈ slots ∨ s = slot := by
  unfold storeSlot at h
  split at h
  · exact List.mem_or_eq_of_mem_set h
  · exact Or.inr (List.mem_singleton.mp h)

/-- Other fields are left alone. -/
theorem getD_set_slots (m : List (List Slot)) (n k : Nat) (slots : List Slot) :
    (m.set n slots).getD k [] = if n = k ∧ n < m.length then slots else m.getD k [] := by
  rw [List.getD_eq_getElem?_getD, List.getD_eq_getElem?_getD, List.getElem?_set]
  by_cases hnk : n = k
  · subst hnk
    by_cases hlt : n < m.length
    · simp [hlt]
    · simp [hlt]
  · simp [hnk]

/-- A message in which one field has got slots of its kind. -/
theorem FieldPlace.low_set (h : FieldPlace mod clos n field m slots) (hsound : clos.Sound mod)
    {slots' : List Slot} (hslots : field.type.Short → ∀ s ∈ slots', s.Low) {k : Nat}
    {field' : PresField} (hfield' : mod.fields[k]? = some field') (hshort : field'.type.Short) :
    ∀ s ∈ (m.set n slots').getD k [], s.Low := by
  rw [getD_set_slots]
  split
  next hk =>
    obtain rfl := hk.1
    obtain rfl := Option.some.inj (h.field_eq.symm.trans hfield')
    exact hslots hshort
  next => exact hsound.low m h.message_eq k field' hfield' hshort

end Place

theorem LoadStep.sound (h : LoadStep libc mod clos n value res clos') (hsound : clos.Sound mod)
    (hdescr : ∀ field, mod.fields[n]? = some field → field.descrId ≠ none) : clos'.Sound mod := by
  have hlength : ∀ {m : List (List Slot)} {slots : List Slot}, clos.nmsgPbuf = some m →
      ∀ m', some (m.set n slots) = some m' → m'.length = mod.fields.length := by
    rintro m slots hm m' ⟨⟩
    rw [List.length_set]
    exact hsound.length m hm
  cases h with
  | rejected placed single hconvert =>
      refine ⟨hlength placed.message_eq, ?_, ?_, hsound.strbufs⟩
      · rintro m' ⟨⟩ k field' hfield' hshort
        exact placed.low_set hsound (placed.low hsound) hfield' hshort
      · exact fun hmode => ⟨nofun, (hsound.multiline hmode).2⟩
  | stored placed single hconvert =>
      refine ⟨hlength placed.message_eq, ?_, ?_, hsound.strbufs⟩
      · rintro m' ⟨⟩ k field' hfield' hshort
        apply placed.low_set hsound _ hfield' hshort
        intro hshort s hs
        have hlow := placed.low hsound hshort
        rcases mem_storeSlot hs with hs | rfl
        · exact hlow s hs
        · exact convertValue_low hshort (placeOf_low hlow hshort) hconvert
      · exact fun hmode => ⟨nofun, (hsound.multiline hmode).2⟩
  | opened placed multi keyval =>
      refine ⟨hlength placed.message_eq, ?_, ?_, hsound.strbufs⟩
      · rintro m' ⟨⟩ k field' hfield' hshort
        exact placed.low_set hsound (placed.low hsound) hfield' hshort
      · exact fun _ => ⟨nofun, n, _, rfl, placed.field_eq, multi, hdescr _ placed.field_eq⟩
  | closed placed multi multiline descr stop =>
      refine ⟨hlength placed.message_eq, ?_, nofun, hsound.strbufs⟩
      rintro m' ⟨⟩ k field' hfield' hshort
      apply placed.low_set hsound _ hfield' hshort
      intro hshort
      rcases hshort with htype | htype <;> rw [htype] at multi <;> cases multi
  | appended placed multi multiline descr text happend =>
      refine ⟨hlength placed.message_eq, ?_, ?_, ?_⟩
      · rintro m' ⟨⟩ k field' hfield' hshort
        exact placed.low_set hsound (placed.low hsound) hfield' hshort
      · exact fun hmode => ⟨nofun, (hsound.multiline hmode).2⟩
      · intro id'
        dsimp only
        rw [Function.update_apply]
        split
        · obtain ⟨sb', data, hok, hvalid, -⟩ := (hsound.strbufs _).append _
          rw [happend] at hok
          exact Except.ok.inj hok ▸ hvalid
        · exact hsound.strbufs id'

/-- The field that a line goes into has a descriptor. -/
theorem splitLine_field {fields : List PresField}
    (h : splitLine fields pres = .ok (some (n, value))) :
    ∃ field, fields[n]? = some field ∧ field.descrId ≠ none ∧
      (value = none ↔ field.type = .mlstring) := by
  unfold splitLine at h
  obtain ⟨line, -, h⟩ := Outcome.bind_eq_ok.mp h
  obtain ⟨found, -, h⟩ := Outcome.bind_eq_ok.mp h
  cases found with
  | none => cases h
  | some found =>
      obtain ⟨name, rest⟩ := found
      dsimp only at h
      cases hfield : fields[lookupKey fields name]? with
      | none => rw [hfield] at h; cases h
      | some field =>
          rw [hfield] at h
          dsimp only at h
          by_cases hdescr : field.descrId = none
          · rw [if_pos hdescr] at h
            cases h
          rw [if_neg hdescr] at h
          by_cases hmulti : field.type = .mlstring
          · rw [if_pos hmulti] at h
            cases h
            exact ⟨field, hfield, hdescr, iff_of_true rfl hmulti⟩
          · rw [if_neg hmulti] at h
            obtain ⟨found, -, h⟩ := Outcome.bind_eq_ok.mp h
            cases found with
            | none => cases h
            | some found =>
                cases h
                exact ⟨field, hfield, hdescr, iff_of_false nofun hmulti⟩

theorem PresStep.sound (h : PresStep libc mod clos pres res clos') (hsound : clos.Sound mod) :
    clos'.Sound mod := by
  cases h with
  | ready | unsplit => exact hsound
  | line keyval line hsplit step =>
      apply step.sound hsound
      intro field hfield
      obtain ⟨field', hfield', hdescr, -⟩ := splitLine_field hsplit
      rwa [Option.some.inj (hfield.symm.trans hfield')]
  | text multiline field step =>
      apply step.sound hsound
      intro field' hfield'
      obtain ⟨-, n', field'', hn', hfield'', -, hdescr⟩ := hsound.multiline multiline
      obtain rfl := Option.some.inj (field.symm.trans hn')
      rwa [Option.some.inj (hfield'.symm.trans hfield'')]

theorem presToPayload_sound (h : presToPayload libc mod clos pres = .ok (res, clos'))
    (hsound : clos.Sound mod) : clos'.Sound mod :=
  (presToPayload_step h).sound hsound.start

theorem deallocate_valid {fields : List PresField} : ∀ {m : List (List Slot)}
    {strbufs strbufs' : Nat → Strbuf}, (∀ id, (strbufs id).Valid) →
      deallocate strbufs fields m = .ok strbufs' → ∀ id, (strbufs' id).Valid := by
  induction fields with
  | nil =>
      intro m strbufs strbufs' hvalid h
      rw [deallocate] at h
      · cases h
        exact hvalid
      · exact nofun
  | cons field fields ih =>
      intro m strbufs strbufs' hvalid h
      cases m with
      | nil =>
          cases h
          exact hvalid
      | cons slots m =>
          rw [deallocate] at h
          split at h
          · exact ih hvalid h
          split at h
          · split at h
            · refine ih ?_ h
              intro id
              rw [Function.update_apply]
              split
              · exact Strbuf.reset_valid _
              · exact hvalid id
            · split at h
              · cases h
              · exact ih hvalid h
          · exact ih hvalid h

/-- What `_nmsg_msgmod_pres_to_payload_finalize` leaves. -/
theorem presToPayloadFinalize_eq_ok {payload : Bytes} :
    presToPayloadFinalize mod clos = .ok (payload, clos') ↔
      ∃ slots m strbufs, clos.nmsgPbuf = some slots ∧ readFields clos mod.fields slots = .ok m ∧
        payload = mod.pack m ∧ (mod.pack m).length ≤ clos.allocated ∧
        deallocate clos.strbufs mod.fields slots = .ok strbufs ∧
        clos' = { clos with nmsgPbuf := none, estsz := 0, strbufs := strbufs } := by
  unfold presToPayloadFinalize
  cases hslots : clos.nmsgPbuf with
  | none => exact iff_of_false nofun (by rintro ⟨_, _, _, ⟨⟩, _⟩)
  | some slots =>
      constructor
      · intro h
        obtain ⟨m, hm, h⟩ := Outcome.bind_eq_ok.mp h
        dsimp only at h
        by_cases hlong : (mod.pack m).length > clos.allocated
        · rw [if_pos hlong] at h
          cases h
        rw [if_neg hlong] at h
        obtain ⟨strbufs, hstrbufs, h⟩ := Outcome.bind_eq_ok.mp h
        cases h
        exact ⟨slots, m, strbufs, rfl, hm, rfl, Nat.le_of_not_lt hlong, hstrbufs, rfl⟩
      · rintro ⟨_, m, strbufs, ⟨⟩, hm, rfl, hfits, hstrbufs, rfl⟩
        simp only [hm, hstrbufs, bind, Except.bind, if_neg (Nat.not_lt.mpr hfits)]
        rfl

theorem LoadStep.res_eq (h : LoadStep libc mod clos n value res clos') :
    res = .parseError ∨ res = .success := by
  cases h with
  | rejected => exact Or.inl rfl
  | stored | opened | closed | appended => exact Or.inr rfl

/-- Only a blank line ends a message. -/
theorem PresStep.of_ready (h : PresStep libc mod clos pres .pbufReady clos') :
    clos.mode = .keyval ∧ pres.head? = some 10 ∧ clos' = clos := by
  cases h with
  | ready keyval blank => exact ⟨keyval, blank, rfl⟩
  | line keyval line hsplit step => rcases step.res_eq with h | h <;> cases h
  | text multiline field step => rcases step.res_eq with h | h <;> cases h

/-- A line as `_input_pres_read` takes it. -/
theorem presRead_eq_ok {answer : Res × Option Bytes} :
    presRead libc mod clos pres = .ok (answer, clos') ↔
      (∃ res, presToPayload libc mod clos pres = .ok (res, clos') ∧ res ≠ .pbufReady ∧
        answer = (res, none)) ∨
      ∃ next payload, presToPayload libc mod clos pres = .ok (.pbufReady, next) ∧
        presToPayloadFinalize mod next = .ok (payload, clos') ∧
        answer = (.success, some payload) := by
  unfold presRead
  rw [Outcome.bind_eq_ok]
  constructor
  · rintro ⟨⟨res, next⟩, hpres, h⟩
    dsimp only at h
    by_cases hready : res = .pbufReady
    · rw [if_pos hready] at h
      obtain ⟨⟨payload, last⟩, hfinalize, h⟩ := Outcome.bind_eq_ok.mp h
      cases h
      exact Or.inr ⟨next, payload, hready ▸ hpres, hfinalize, rfl⟩
    · rw [if_neg hready] at h
      cases h
      exact Or.inl ⟨res, hpres, hready, rfl⟩
  · rintro (⟨res, hpres, hready, rfl⟩ | ⟨next, payload, hpres, hfinalize, rfl⟩)
    · refine ⟨_, hpres, ?_⟩
      dsimp only
      rw [if_neg hready]
      rfl
    · refine ⟨_, hpres, ?_⟩
      dsimp only
      rw [if_pos rfl, hfinalize]
      rfl

theorem presRead_sound {answer : Res × Option Bytes}
    (h : presRead libc mod clos pres = .ok (answer, clos')) (hsound : clos.Sound mod) :
    clos'.Sound mod := by
  rcases presRead_eq_ok.mp h with ⟨res, hpres, -, -⟩ | ⟨next, payload, hpres, hfinalize, -⟩
  · exact presToPayload_sound hpres hsound
  · have hnext := presToPayload_sound hpres hsound
    obtain ⟨hkeyval, -, rfl⟩ := (presToPayload_step hpres).of_ready
    obtain ⟨slots, m, strbufs, -, -, -, -, hstrbufs, rfl⟩ := presToPayloadFinalize_eq_ok.mp hfinalize
    refine ⟨nofun, nofun, ?_, deallocate_valid hnext.strbufs hstrbufs⟩
    intro hmode
    rw [hkeyval] at hmode
    cases hmode

/-- Lines lead from the first closure to sound ones only. -/
theorem presRun_sound {lines : List Bytes} {out : List (Res × Option Bytes)}
    (hrun : run (presRead libc mod) .init lines = .ok (out, clos)) : clos.Sound mod := by
  apply run_invariant _ (MsgmodClos.init_sound mod) hrun
  exact fun _ _ _ _ hsound hstep => presRead_sound hstep hsound

end Nmsg

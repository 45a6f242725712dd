import Nmsg.Proof.PresStep

/-!
# Lines that are read at all

The copy of a line has a zero octet in place of its newline, and none where there is no newline.
Which lines are read inside their copies is settled here, with the fields that have no conversion.
-/

namespace Nmsg

open StepRun

variable {libc : Libc} {mod : PresModule} {clos clos' : MsgmodClos} {pres : Bytes}

/-- The copy of a line. -/
def lineCopy (pres : Bytes) : Bytes :=
  if pres.getLast? = some 10 then pres.dropLast ++ [0] else pres

/-- The tokens of a line stop in its copy, as far as they are needed, and the field that is looked up
is there and has a conversion, as far as there is a value. -/
def LineReadable (fields : List PresField) (mem : Bytes) : Prop :=
  Text.Stops 58 mem ∧ ∀ name rest, Text.strtok 58 mem = some (some (name, rest)) →
    ∃ field, fields[lookupKey fields name]? = some field ∧
      (field.descrId = none ∨ field.type = .mlstring ∨
        Text.Stops 32 rest ∧ (field.type = .bool ∨ field.type = .bytes →
          Text.strtok 32 rest = some none))

/-- The line is read inside of its copy, and by a field that can take it. The lines of a multi-line
string are. -/
def Readable (mod : PresModule) (clos : MsgmodClos) (pres : Bytes) : Prop :=
  (clos.start mod).mode = .keyval → pres ≠ [] ∧
    (pres.head? = some 10 ∨ LineReadable mod.fields (lineCopy pres))

theorem copyLine_eq (hpres : pres ≠ []) : copyLine pres = .ok (lineCopy pres) := by
  rw [copyLine, lineCopy, List.getLast?_eq_some_getLast hpres]
  simp only [Option.some.injEq]

/-- Only a type without a conversion has none for a value. -/
theorem convertValue_ok {field : PresField} {old : Slot} {value : Bytes}
    (single : field.type ≠ .mlstring) (hbool : field.type ≠ .bool) (hbytes : field.type ≠ .bytes) :
    ∃ out, convertValue libc field old value = .ok out := by
  unfold convertValue
  cases htype : field.type with
  | bool => exact absurd htype hbool
  | bytes => exact absurd htype hbytes
  | mlstring => exact absurd htype single
  | ip => dsimp only; split <;> exact ⟨_, rfl⟩
  | enum | string | uint16 | uint32 | uint64 | int16 | int32 | int64 | double => exact ⟨_, rfl⟩

theorem loadField_opens {field : PresField} {n : Nat} {value : Option Bytes}
    {m : List (List Slot)} (hfield : mod.fields[n]? = some field) (hm : clos.nmsgPbuf = some m)
    (hmulti : field.type = .mlstring) (hmode : clos.mode = .keyval) :
    ∃ answer, loadField libc mod clos n value = .ok answer := by
  simp only [loadField, hfield, hm, presToPayloadLoad, if_pos hmulti, loadMlstring, hmode]
  exact ⟨_, rfl⟩

/-- A line of a multi-line string always finds its field and its buffer. -/
theorem loadField_text (hsound : clos.Sound mod) (hmode : clos.mode = .multiline) {n : Nat}
    (hn : clos.field = some n) : ∃ answer, loadField libc mod clos n (some pres) = .ok answer := by
  obtain ⟨hpbuf, n', field, hn', hfield, hmulti, hdescr⟩ := hsound.multiline hmode
  obtain rfl := Option.some.inj (hn.symm.trans hn')
  obtain ⟨m, hm⟩ := Option.ne_none_iff_exists'.mp hpbuf
  obtain ⟨id, hid⟩ := Option.ne_none_iff_exists'.mp hdescr
  obtain ⟨sb, -, happend, -⟩ := (hsound.strbufs (id - 1)).append pres
  simp only [loadField, hfield, hm, presToPayloadLoad, if_pos hmulti, loadMlstring, hmode, hid]
  by_cases hstop : pres.take 2 = [46, 10]
  · rw [if_pos hstop]
    exact ⟨_, rfl⟩
  · rw [if_neg hstop, happend]
    exact ⟨_, rfl⟩

theorem loadField_value_ok_iff {field : PresField} {n : Nat} {value : Bytes} {m : List (List Slot)}
    (hfield : mod.fields[n]? = some field) (hm : clos.nmsgPbuf = some m)
    (single : field.type ≠ .mlstring) :
    (∃ answer, loadField libc mod clos n (some value) = .ok answer) ↔
      field.type ≠ .bool ∧ field.type ≠ .bytes := by
  simp only [loadField, hfield, hm, presToPayloadLoad, if_neg single]
  constructor
  · rintro ⟨answer, h⟩
    constructor
    · intro hbool
      simp only [convertValue, hbool] at h
      cases h
    · intro hbytes
      simp only [convertValue, hbytes] at h
      cases h
  · rintro ⟨hbool, hbytes⟩
    obtain ⟨out, hout⟩ : ∃ out,
        convertValue libc field (placeOf field (makePlace field (m.getD n []))) value = .ok out :=
      convertValue_ok single hbool hbytes
    rw [hout]
    cases out <;> exact ⟨_, rfl⟩

/-- What comes of a line whose key is split off. -/
def splitValue (fields : List PresField) (n : Nat) (rest : Bytes) :
    Except Abort (Option (Nat × Option Bytes)) :=
  match fields[n]? with
  | none => .error .nullPointer
  | some field =>
      if field.descrId = none then .ok none
      else if field.type = .mlstring then .ok (some (n, none))
      else
        match Text.strtok 32 rest with
        | none => .error .outOfBounds
        | some none => .ok none
        | some (some (value, _)) => .ok (some (n, some value))

/-- What comes of a line between values, once it is split. -/
def splitLoad (libc : Libc) (mod : PresModule) (clos : MsgmodClos) (pres : Bytes) :
    Except Abort (Res × MsgmodClos) :=
  match splitLine mod.fields pres with
  | .error e => .error e
  | .ok none => .ok (.parseError, clos)
  | .ok (some (n, value)) => loadField libc mod clos n value

theorem splitLoad_ok_iff {m : List (List Slot)} (hm : clos.nmsgPbuf = some m)
    (hmode : clos.mode = .keyval) (hpres : pres ≠ []) :
    (∃ answer, splitLoad libc mod clos pres = .ok answer) ↔
      LineReadable mod.fields (lineCopy pres) := by
  unfold LineReadable
  rw [← Text.strtok_ne_none_iff]
  cases hname : Text.strtok 58 (lineCopy pres) with
  | none =>
      have hsplit : splitLine mod.fields pres = .error .outOfBounds := by
        simp only [splitLine, copyLine_eq hpres, nextToken, hname, bind, Except.bind]
      rw [splitLoad, hsplit]
      exact iff_of_false (by rintro ⟨_, ⟨⟩⟩) fun h => h.1 rfl
  | some found =>
      cases found with
      | none =>
          have hsplit : splitLine mod.fields pres = .ok none := by
            simp only [splitLine, copyLine_eq hpres, nextToken, hname, bind, Except.bind, pure,
              Except.pure]
          rw [splitLoad, hsplit]
          exact iff_of_true ⟨_, rfl⟩ ⟨by rintro ⟨⟩, by rintro _ _ ⟨⟩⟩
      | some found =>
          obtain ⟨name, rest⟩ := found
          have hsplit : splitLine mod.fields pres =
              splitValue mod.fields (lookupKey mod.fields name) rest := by
            simp only [splitLine, copyLine_eq hpres, nextToken, hname, bind, Except.bind, pure,
              Except.pure, splitValue]
            cases mod.fields[lookupKey mod.fields name]? with
            | none => rfl
            | some field =>
                dsimp only
                congr 2
                cases Text.strtok 32 rest with
                | none => rfl
                | some found => cases found <;> rfl
          simp only [ne_eq, reduceCtorEq, not_false_eq_true, Option.some.injEq, Prod.mk.injEq,
            true_and, and_imp, forall_apply_eq_imp_iff, forall_eq']
          unfold splitValue at hsplit
          cases hfield : mod.fields[lookupKey mod.fields name]? with
          | none =>
              rw [hfield] at hsplit
              rw [splitLoad, hsplit]
              exact iff_of_false (by rintro ⟨_, ⟨⟩⟩) (by rintro ⟨_, ⟨⟩, _⟩)
          | some field =>
              rw [hfield] at hsplit
              dsimp only at hsplit
              simp only [Option.some.injEq, exists_eq_left']
              by_cases hdescr : field.descrId = none
              · rw [if_pos hdescr] at hsplit
                rw [splitLoad, hsplit]
                exact iff_of_true ⟨_, rfl⟩ (Or.inl hdescr)
              by_cases hmulti : field.type = .mlstring
              · rw [if_neg hdescr, if_pos hmulti] at hsplit
                rw [splitLoad, hsplit]
                exact iff_of_true (loadField_opens hfield hm hmulti hmode) (Or.inr (Or.inl hmulti))
              rw [if_neg hdescr, if_neg hmulti] at hsplit
              rw [or_iff_right hdescr, or_iff_right hmulti, ← Text.strtok_ne_none_iff]
              cases hvalue : Text.strtok 32 rest with
              | none =>
                  rw [hvalue] at hsplit
                  rw [splitLoad, hsplit]
                  exact iff_of_false (by rintro ⟨_, ⟨⟩⟩) fun h => h.1 rfl
              | some found =>
                  rw [hvalue] at hsplit
                  cases found with
                  | none =>
                      rw [splitLoad, hsplit]
                      exact iff_of_true ⟨_, rfl⟩ ⟨by rintro ⟨⟩, fun _ => rfl⟩
                  | some found =>
                      rw [splitLoad, hsplit]
                      dsimp only
                      rw [loadField_value_ok_iff hfield hm hmulti]
                      simp [not_or]

/-- The parser returns from a line exactly if it can read it. -/
theorem presToPayload_ok_iff (hsound : (clos.start mod).Sound mod) :
    (∃ answer, presToPayload libc mod clos pres = .ok answer) ↔ Readable mod clos pres := by
  obtain ⟨m, hm⟩ := clos.start_ne_none mod
  unfold Readable
  cases hmode : (clos.start mod).mode with
  | multiline =>
      obtain ⟨-, n, -, hn, -⟩ := hsound.multiline hmode
      simp only [presToPayload, hmode, hn]
      exact iff_of_true (loadField_text hsound hmode hn) nofun
  | keyval =>
      have hpres : presToPayload libc mod clos pres =
          if pres.head? = some 10 then .ok (.pbufReady, clos.start mod)
          else splitLoad libc mod (clos.start mod) pres := by
        simp only [presToPayload, hmode]
        rfl
      rw [hpres, forall_prop_of_true rfl]
      by_cases hblank : pres.head? = some 10
      · rw [if_pos hblank]
        refine iff_of_true ⟨_, rfl⟩ ⟨?_, Or.inl hblank⟩
        rintro rfl
        cases hblank
      rw [if_neg hblank, or_iff_right hblank]
      by_cases hempty : pres = []
      · subst hempty
        exact iff_of_false (by rintro ⟨_, ⟨⟩⟩) fun h => h.1 rfl
      · rw [splitLoad_ok_iff hm hmode hempty]
        exact (and_iff_right hempty).symm

end Nmsg

import Nmsg.Proof.PresGrammar

/-!
# Rejected lines

A line that is rejected leaves the message as it was, unless it is the line of a repeated field with
a value that its type has no use for: there is a place for the value by then. Where no line is of
this kind the rejected lines might as well be missing.
-/

namespace Nmsg

open StepRun

variable {libc : Libc} {mod : PresModule} {clos clos' : MsgmodClos} {pres : Bytes}

/-- The fields, the mode and the buffers are the same. -/
structure SameMessage (clos clos' : MsgmodClos) : Prop where
  message : clos'.nmsgPbuf = clos.nmsgPbuf
  mode : clos'.mode = clos.mode
  strbufs : clos'.strbufs = clos.strbufs

/-- If the line is rejected then it changes nothing. -/
def RejectionSafe (libc : Libc) (mod : PresModule) (clos : MsgmodClos) (pres : Bytes) : Prop :=
  ∀ res clos', presToPayload libc mod clos pres = .ok (res, clos') → res ≠ .success →
    res ≠ .pbufReady → SameMessage (clos.start mod) clos'

/-- The line of a repeated field, with a value that is refused. -/
def MalformedElement (libc : Libc) (mod : PresModule) (clos : MsgmodClos) (pres : Bytes) : Prop :=
  (clos.start mod).mode = .keyval ∧ pres.head? ≠ some 10 ∧ ∃ n field value,
    splitLine mod.fields pres = .ok (some (n, some value)) ∧ mod.fields[n]? = some field ∧
      field.label = .repeated ∧ field.Refuses libc value

/-- A place is made for a repeated field only. -/
theorem set_makePlace {m : List (List Slot)} {n : Nat} {field : PresField} (hn : n < m.length)
    (hlabel : field.label ≠ .repeated) : m.set n (makePlace field (m.getD n [])) = m := by
  rw [makePlace, if_neg hlabel, List.getD_eq_getElem?_getD, List.getElem?_eq_getElem hn,
    Option.getD_some, List.set_getElem_self]

theorem set_makePlace_ne {m : List (List Slot)} {n : Nat} {field : PresField} (hn : n < m.length)
    (hlabel : field.label = .repeated) : m.set n (makePlace field (m.getD n [])) ≠ m := by
  intro h
  have hslots := congrArg (fun m => (m.getD n []).length) h
  rw [getD_set_slots, if_pos ⟨rfl, hn⟩, makePlace, if_pos hlabel] at hslots
  rw [List.length_append, List.length_singleton] at hslots
  omega

theorem LoadStep.unchanged {n : Nat} {value : Bytes} {res : Res}
    (h : LoadStep libc mod clos n (some value) res clos') (hsound : clos.Sound mod)
    (hreject : res ≠ .success)
    (hlabel : ∀ field, mod.fields[n]? = some field → field.Refuses libc value →
      field.label ≠ .repeated) : clos' = clos := by
  cases h with
  | rejected placed single hconvert =>
      obtain ⟨hfield, hm, rfl⟩ := placed
      have hn : n < mod.fields.length := (List.getElem?_eq_some_iff.mp hfield).1
      rw [← hsound.length _ hm] at hn
      rw [set_makePlace hn (hlabel _ hfield ((convertValue_eq_none_iff single).mp hconvert)), ← hm]
  | stored | opened | closed | appended => exact absurd rfl hreject

/-- What a rejected line leaves, if it is not that of a repeated field. -/
theorem PresStep.unchanged {res : Res} (h : PresStep libc mod (clos.start mod) pres res clos')
    (hsound : (clos.start mod).Sound mod) (hreject : res ≠ .success) (hready : res ≠ .pbufReady)
    (hwell : ¬ MalformedElement libc mod clos pres) : clos' = clos.start mod := by
  cases h with
  | ready => exact absurd rfl hready
  | unsplit => rfl
  | @line n value res clos' keyval line hsplit step =>
      cases value with
      | none =>
          cases step with
          | opened => exact absurd rfl hreject
      | some value =>
          apply step.unchanged hsound hreject
          intro field hfield hrefuses hlabel
          exact hwell ⟨keyval, line, n, field, value, hsplit, hfield, hlabel, hrefuses⟩
  | @text n res clos' multiline field step =>
      obtain ⟨-, n', field', hn', hfield', hmulti, -⟩ := hsound.multiline multiline
      obtain rfl := Option.some.inj (field.symm.trans hn')
      apply step.unchanged hsound hreject
      intro field'' hfield'' hrefuses
      rw [Option.some.inj (hfield''.symm.trans hfield'), PresField.Refuses, hmulti] at hrefuses
      exact hrefuses.elim

theorem rejectionSafe_iff (hsound : (clos.start mod).Sound mod) :
    RejectionSafe libc mod clos pres ↔ ¬ MalformedElement libc mod clos pres := by
  constructor
  · rintro h ⟨keyval, line, n, field, value, hsplit, hfield, hlabel, hrefuses⟩
    obtain ⟨m, hm⟩ := clos.start_ne_none mod
    have single : field.type ≠ .mlstring := by
      intro hmulti
      rw [PresField.Refuses, hmulti] at hrefuses
      exact hrefuses
    have hpres : presToPayload libc mod clos pres = .ok (.parseError, { clos.start mod with
        nmsgPbuf := some (m.set n (makePlace field (m.getD n []))) }) := by
      simp only [presToPayload, keyval, if_neg line, hsplit]
      rw [loadField_single hfield hm single, (convertValue_eq_none_iff single).mpr hrefuses]
      simp only [keyval]
    have hn : n < m.length := by
      rw [hsound.length m hm]
      exact (List.getElem?_eq_some_iff.mp hfield).1
    have hsame := (h _ _ hpres (by rintro ⟨⟩) (by rintro ⟨⟩)).message
    rw [hm] at hsame
    exact set_makePlace_ne hn hlabel (Option.some.inj hsame)
  · intro hwell res clos' hpres hreject hready
    rw [(presToPayload_step hpres).unchanged hsound hreject hready hwell]
    exact ⟨rfl, rfl, rfl⟩

/-! ### Runs -/

/-- The lines that are accepted, with their answers. -/
def acceptedLines (lines : List Bytes) (out : List (Res × Option Bytes)) :
    List (Bytes × (Res × Option Bytes)) :=
  (lines.zip out).filter fun line => line.2.1 = .success

/-- A line finds what it needs in the message that is started. -/
theorem presToPayload_congr {clos₁ clos₂ : MsgmodClos} (h : clos₁.start mod = clos₂.start mod) :
    presToPayload libc mod clos₁ pres = presToPayload libc mod clos₂ pres := by
  unfold presToPayload
  rw [h]

theorem presRead_congr {clos₁ clos₂ : MsgmodClos} (h : clos₁.start mod = clos₂.start mod) :
    presRead libc mod clos₁ pres = presRead libc mod clos₂ pres := by
  unfold presRead
  rw [presToPayload_congr h]

/-- The rejected lines of a run might as well be missing. -/
theorem run_acceptedLines {lines : List Bytes} {out : List (Res × Option Bytes)} :
    ∀ {clos₁ clos₂ clos' : MsgmodClos}, clos₁.start mod = clos₂.start mod →
      clos₁.Sound mod →
      Along (presRead libc mod) (fun clos pres => ¬ MalformedElement libc mod clos pres) clos₁ lines →
      run (presRead libc mod) clos₁ lines = .ok (out, clos') →
      ∃ last, run (presRead libc mod) clos₂ ((acceptedLines lines out).map Prod.fst) =
        .ok ((acceptedLines lines out).map Prod.snd, last) ∧ last.start mod = clos'.start mod := by
  induction lines generalizing out with
  | nil =>
      intro clos₁ clos₂ clos' hsame hsound halong hrun
      cases hrun
      exact ⟨clos₂, rfl, hsame.symm⟩
  | cons line lines ih =>
      intro clos₁ clos₂ clos' hsame hsound halong hrun
      obtain ⟨answer, next, out, hstep, hrest, rfl⟩ := run_cons_eq_ok.mp hrun
      have halong' := halong.2 answer next hstep
      by_cases haccept : answer.1 = .success
      · have hstep' := hstep
        rw [presRead_congr hsame] at hstep'
        obtain ⟨last, hlast, hend⟩ := ih rfl (presRead_sound hstep hsound) halong' hrest
        refine ⟨last, ?_, hend⟩
        have hfilter : acceptedLines (line :: lines) (answer :: out) =
            (line, answer) :: acceptedLines lines out := by
          simp [acceptedLines, haccept]
        rw [hfilter, List.map_cons, List.map_cons]
        exact run_cons_eq_ok.mpr ⟨_, _, _, hstep', hlast, rfl⟩
      · have hfilter : acceptedLines (line :: lines) (answer :: out) = acceptedLines lines out := by
          simp [acceptedLines, haccept]
        rw [hfilter]
        rcases presRead_eq_ok.mp hstep with ⟨res, hpres, hready, rfl⟩ | ⟨_, _, _, _, rfl⟩
        · have hnext := (presToPayload_step hpres).unchanged hsound.start haccept hready halong.1
          subst hnext
          exact ih ((clos₁.start_start mod).trans hsame) hsound.start halong' hrest
        · exact absurd rfl haccept

/-- **Rejected lines.** In every closure that lines lead to, a rejected line changes nothing unless it
gives a repeated field a value that is refused. In a run without such lines the accepted lines alone
lead to the same message, and to the same payloads. -/
theorem rejected_lines_unchanged {lines : List Bytes} {out : List (Res × Option Bytes)}
    (hrun : run (presRead libc mod) .init lines = .ok (out, clos)) :
    (∀ pres, RejectionSafe libc mod clos pres ↔ ¬ MalformedElement libc mod clos pres) ∧
      (Along (presRead libc mod) (fun clos pres => ¬ MalformedElement libc mod clos pres) .init lines →
        ∃ last, run (presRead libc mod) .init ((acceptedLines lines out).map Prod.fst) =
          .ok ((acceptedLines lines out).map Prod.snd, last) ∧
          last.start mod = clos.start mod) :=
  ⟨fun _ => rejectionSafe_iff (presRun_sound hrun).start,
    fun halong => run_acceptedLines rfl (MsgmodClos.init_sound mod) halong hrun⟩

/-- A run with a value that is refused, of a field that is not repeated. -/
theorem rejected_lines_unchanged_sample :
    RejectionSafe plainLibc (oneField .uint16 .optional fun _ => [])
        (MsgmodClos.init.start (oneField .uint16 .optional fun _ => [])) (keyLine [110] 1 [121]) ↔
      ¬ MalformedElement plainLibc (oneField .uint16 .optional fun _ => [])
        (MsgmodClos.init.start (oneField .uint16 .optional fun _ => [])) (keyLine [110] 1 [121]) := by
  have hrun : run (presRead plainLibc (oneField .uint16 .optional fun _ => [])) .init
      [keyLine [110] 1 [120]] = .ok ([(.parseError, none)], MsgmodClos.init.start
        (oneField .uint16 .optional fun _ => [])) := rfl
  exact (rejected_lines_unchanged hrun).1 _

/-- A value that is refused leaves a zero behind in a repeated field. -/
theorem refused_element_kept :
    ¬ RejectionSafe plainLibc (oneField .uint16 .repeated fun _ => []) .init
      (keyLine [110] 1 [120]) := by
  intro h
  have hpres : presToPayload plainLibc (oneField .uint16 .repeated fun _ => []) .init
      (keyLine [110] 1 [120]) = .ok (.parseError, { MsgmodClos.init with
        nmsgPbuf := some [[.value (.word 0)]] }) := by
    rfl
  have hsame := (h _ _ hpres nofun nofun).message
  exact absurd hsame (by decide)

end Nmsg

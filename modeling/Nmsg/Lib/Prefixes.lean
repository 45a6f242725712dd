import Mathlib.Data.List.Basic

/-!
# What holds of each entry after those before it

A condition on the entries of a list, each of which may look at the entries before it. It is built
up from the left, entry by entry.
-/

namespace Prefixes

variable {α : Type*} {P Q : List α → α → Prop} {l l' : List α} {a : α}

/-- Every entry meets `P` after the entries before it. -/
def EachAfter (P : List α → α → Prop) (l : List α) : Prop :=
  ∀ before a after, l = before ++ a :: after → P before a

@[simp]
theorem eachAfter_nil : EachAfter P [] := by
  intro before a after h
  simp at h

theorem eachAfter_append :
    EachAfter P (l ++ l') ↔ EachAfter P l ∧ EachAfter (fun before => P (l ++ before)) l' := by
  constructor
  · intro h
    constructor
    · rintro before a after rfl
      exact h before a (after ++ l') (by simp)
    · rintro before a after rfl
      exact h (l ++ before) a after (by simp)
  · rintro ⟨hfirst, hsecond⟩ before a after heq
    rcases List.append_eq_append_iff.mp heq with ⟨mid, hbefore, hl'⟩ | ⟨mid, hl, htail⟩
    · subst hbefore
      exact hsecond mid a after hl'
    · cases mid with
      | nil =>
          rw [List.append_nil] at hl
          subst hl
          have hhead : P (l ++ []) a := hsecond [] a after htail.symm
          rwa [List.append_nil] at hhead
      | cons b mid =>
          rw [List.cons_append, List.cons.injEq] at htail
          obtain ⟨rfl, -⟩ := htail
          exact hfirst before a mid hl

@[simp]
theorem eachAfter_singleton : EachAfter P [a] ↔ P [] a := by
  constructor
  · intro h
    exact h [] a [] rfl
  · intro h before b after heq
    cases before with
    | nil =>
        simp only [List.nil_append, List.cons.injEq] at heq
        exact heq.1 ▸ h
    | cons c before => simp at heq

theorem eachAfter_cons :
    EachAfter P (a :: l) ↔ P [] a ∧ EachAfter (fun before => P (a :: before)) l := by
  have h : EachAfter P ([a] ++ l) ↔ _ := eachAfter_append
  rwa [eachAfter_singleton] at h

/-- One more entry. -/
theorem eachAfter_concat : EachAfter P (l ++ [a]) ↔ EachAfter P l ∧ P l a := by
  rw [eachAfter_append]
  simp

theorem EachAfter.mono (h : EachAfter P l) (himp : ∀ before a, P before a → Q before a) :
    EachAfter Q l :=
  fun before a after heq => himp before a (h before a after heq)

end Prefixes

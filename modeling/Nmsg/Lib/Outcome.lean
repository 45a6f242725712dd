import Mathlib.Logic.Basic

/-!
# Postconditions of programs that may fail

`Outcome E Q x` says of a program in `Except` that it returns a value with `Q` or fails with an
error in `E`. The rules follow the program: one for each way to put a program together. `Extends x y`
says of two programs that the second returns what the first returns.
-/

/-- The program returns a value with `Q` or fails with an error in `E`. -/
def Outcome {ε α : Type*} (E : ε → Prop) (Q : α → Prop) : Except ε α → Prop
  | .ok a => Q a
  | .error e => E e

namespace Outcome

universe u v

variable {ε : Type u} {α β : Type v} {E : ε → Prop} {Q : α → Prop} {R : β → Prop}

@[simp]
theorem ok_iff {a : α} : Outcome E Q (.ok a) ↔ Q a := Iff.rfl

@[simp]
theorem error_iff {e : ε} : Outcome E Q (.error e) ↔ E e := Iff.rfl

@[simp]
theorem pure_iff {a : α} : Outcome E Q (pure a) ↔ Q a := Iff.rfl

/-- **Sequencing rule.** -/
theorem bind {x : Except ε α} {f : α → Except ε β} (hx : Outcome E Q x)
    (hf : ∀ a, Q a → Outcome E R (f a)) : Outcome E R (x >>= f) := by
  cases x with
  | error e => exact hx
  | ok a => exact hf a hx

/-- **Consequence rule.** -/
theorem mono {E' : ε → Prop} {Q' : α → Prop} {x : Except ε α} (hx : Outcome E Q x)
    (herror : ∀ e, E e → E' e) (hok : ∀ a, Q a → Q' a) : Outcome E' Q' x := by
  cases x with
  | error e => exact herror e hx
  | ok a => exact hok a hx

theorem imp {Q' : α → Prop} {x : Except ε α} (hx : Outcome E Q x)
    (hok : ∀ a, Q a → Q' a) : Outcome E Q' x :=
  hx.mono (fun _ he => he) hok

theorem map {x : Except ε α} {f : α → β} (hx : Outcome E (fun a => R (f a)) x) :
    Outcome E R (f <$> x) := by
  cases x with
  | error e => exact hx
  | ok a => exact hx

theorem and {Q' : α → Prop} {x : Except ε α} (hx : Outcome E Q x) (hx' : Outcome E Q' x) :
    Outcome E (fun a => Q a ∧ Q' a) x := by
  cases x with
  | error e => exact hx
  | ok a => exact ⟨hx, hx'⟩

theorem of_ok {x : Except ε α} (hx : Outcome E Q x) {a : α} (h : x = .ok a) : Q a := by
  rw [h] at hx
  exact hx

theorem of_error {x : Except ε α} (hx : Outcome E Q x) {e : ε} (h : x = .error e) : E e := by
  rw [h] at hx
  exact hx

/-- A program that cannot fail returns. -/
theorem returns {x : Except ε α} (hx : Outcome (fun _ => False) Q x) : ∃ a, x = .ok a ∧ Q a := by
  cases x with
  | error e => exact hx.elim
  | ok a => exact ⟨a, rfl, hx⟩

theorem intro {x : Except ε α} (hok : ∀ a, x = .ok a → Q a) (herror : ∀ e, x = .error e → E e) :
    Outcome E Q x := by
  cases x with
  | error e => exact herror e rfl
  | ok a => exact hok a rfl

/-- **Inversion rule** for a sequence that returns. -/
theorem bind_eq_ok {x : Except ε α} {f : α → Except ε β} {b : β} :
    (x >>= f) = .ok b ↔ ∃ a, x = .ok a ∧ f a = .ok b := by
  constructor
  · intro h
    cases x with
    | error e => cases h
    | ok a => exact ⟨a, rfl, h⟩
  · rintro ⟨a, rfl, h⟩
    exact h

theorem map_eq_ok {x : Except ε α} {f : α → β} {b : β} :
    f <$> x = .ok b ↔ ∃ a, x = .ok a ∧ f a = b := by
  cases x with
  | error e => exact ⟨by rintro ⟨⟩, by rintro ⟨_, ⟨⟩, _⟩⟩
  | ok a =>
      constructor
      · rintro ⟨⟩
        exact ⟨a, rfl, rfl⟩
      · rintro ⟨_, ⟨⟩, rfl⟩
        rfl

theorem mapError_eq_ok {ε' : Type*} {x : Except ε α} {f : ε → ε'} {a : α} :
    x.mapError f = .ok a ↔ x = .ok a := by
  cases x with
  | error e => exact ⟨by rintro ⟨⟩, by rintro ⟨⟩⟩
  | ok b => exact ⟨by rintro ⟨⟩; rfl, by rintro ⟨⟩; rfl⟩

end Outcome

/-- Both programs fail alike, or return values that are related. -/
def Agree {ε α β : Type*} (R : α → β → Prop) : Except ε α → Except ε β → Prop
  | .error e, .error e' => e = e'
  | .ok a, .ok b => R a b
  | _, _ => False

namespace Agree

variable {ε α β : Type*} {R : α → β → Prop} {x : Except ε α} {y : Except ε β}

theorem map {γ δ : Type*} {S : γ → δ → Prop} {f : α → γ} {g : β → δ} (h : Agree R x y)
    (hfg : ∀ a b, R a b → S (f a) (g b)) : Agree S (x.map f) (y.map g) := by
  cases x <;> cases y
  · exact h
  · exact h
  · exact h
  · exact hfg _ _ h

theorem bind {γ δ : Type*} {S : γ → δ → Prop} {f : α → Except ε γ} {g : β → Except ε δ}
    (h : Agree R x y) (hfg : ∀ a b, R a b → Agree S (f a) (g b)) :
    Agree S (x.bind f) (y.bind g) := by
  cases x <;> cases y
  · exact h
  · exact h.elim
  · exact h.elim
  · exact hfg _ _ h

theorem refl {x : Except ε α} {R : α → α → Prop} (h : ∀ a, x = .ok a → R a a) : Agree R x x := by
  cases x with
  | error e => rfl
  | ok a => exact h a rfl

theorem of_map {γ : Type*} {f : α → γ} {g : β → γ} (h : Agree (fun a b => f a = g b) x y) :
    x.map f = y.map g := by
  cases x <;> cases y
  · exact congrArg Except.error h
  · exact h.elim
  · exact h.elim
  · exact congrArg Except.ok h

end Agree

/-- Functions that agree on a list go through it alike. -/
theorem mapM_congr_left {ε α β : Type*} {f g : α → Except ε β} {l : List α}
    (h : ∀ a ∈ l, f a = g a) : l.mapM f = l.mapM g := by
  induction l with
  | nil => rfl
  | cons a l ih =>
      rw [List.mapM_cons, List.mapM_cons, h a (List.mem_cons_self ..),
        ih fun b hb => h b (List.mem_cons_of_mem _ hb)]

/-- The second program returns what the first one returns, and may return where that one fails. -/
def Extends {ε α : Type*} (x y : Except ε α) : Prop := ∀ a, x = .ok a → y = .ok a

namespace Extends

universe u v

variable {ε : Type u} {α β : Type v} {x y : Except ε α}

theorem refl (x : Except ε α) : Extends x x := fun _ h => h

theorem of_eq (h : x = y) : Extends x y := h ▸ refl x

theorem bind {f g : α → Except ε β} (h : Extends x y) (hfg : ∀ a, Extends (f a) (g a)) :
    Extends (x >>= f) (y >>= g) := by
  intro b hb
  cases x with
  | error e => cases hb
  | ok a =>
      rw [h a rfl]
      exact hfg a b hb

theorem map {f : α → β} (h : Extends x y) : Extends (f <$> x) (f <$> y) := by
  intro b hb
  cases x with
  | error e => cases hb
  | ok a =>
      rw [h a rfl]
      exact hb

end Extends

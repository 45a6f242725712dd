import Mathlib.Data.List.Basic

/-!
# Tilings of an interval

Pieces, each from `lo` to `hi`, that cover an interval of numbers one behind the other. A sublist
of a tiling leaves holes; a piece that is put back closes one, splits one, or moves the edge of one.
The holes are none exactly when every piece is there.
-/

namespace Tiling

variable {α : Type*} (lo hi : α → Nat)

/-- The pieces cover the numbers from `a` to `b`, each from where the one in front ends. -/
def Tiles : Nat → List α → Nat → Prop
  | a, [], b => a = b
  | a, s :: rest, b => lo s = a ∧ lo s < hi s ∧ Tiles (hi s) rest b

/-- The pieces lie between `a` and `b`, each behind the one in front. -/
def Apart : Nat → List α → Nat → Prop
  | a, [], b => a ≤ b
  | a, s :: rest, b => a ≤ lo s ∧ lo s < hi s ∧ Apart (hi s) rest b

/-- How many stretches between `a` and `b` the pieces leave open. -/
def holes (b : Nat) : Nat → List α → Nat
  | a, [] => if a = b then 0 else 1
  | a, s :: rest => (if a = lo s then 0 else 1) + holes b (hi s) rest

/-- Where the last of the pieces ends, `a` when there is none. -/
def stop : Nat → List α → Nat
  | a, [] => a
  | _, s :: rest => stop (hi s) rest

/-- Where the first of the pieces starts, `b` when there is none. -/
def front (b : Nat) : List α → Nat
  | [] => b
  | s :: _ => lo s

variable {lo hi} {a b : Nat} {l before after : List α} {s : α}

theorem Tiles.apart (h : Tiles lo hi a l b) : Apart lo hi a l b := by
  induction l generalizing a with
  | nil => exact Nat.le_of_eq h
  | cons s rest ih => exact ⟨Nat.le_of_eq h.1.symm, h.2.1, ih h.2.2⟩

theorem Apart.mono_left {a' : Nat} (hle : a' ≤ a) (h : Apart lo hi a l b) :
    Apart lo hi a' l b := by
  cases l with
  | nil => exact Nat.le_trans hle h
  | cons s rest => exact ⟨Nat.le_trans hle h.1, h.2⟩

theorem Apart.mono_right {b' : Nat} (hle : b ≤ b') (h : Apart lo hi a l b) :
    Apart lo hi a l b' := by
  induction l generalizing a with
  | nil => exact Nat.le_trans h hle
  | cons s rest ih => exact ⟨h.1, h.2.1, ih h.2.2⟩

theorem Apart.le (h : Apart lo hi a l b) : a ≤ b := by
  induction l generalizing a with
  | nil => exact h
  | cons s rest ih => exact Nat.le_trans h.1 (Nat.le_trans (Nat.le_of_lt h.2.1) (ih h.2.2))

theorem Apart.sublist {l' : List α} (hsub : l'.Sublist l) (h : Apart lo hi a l b) :
    Apart lo hi a l' b := by
  induction hsub generalizing a with
  | slnil => exact h
  | cons s _ ih => exact (ih h.2.2).mono_left (Nat.le_trans h.1 (Nat.le_of_lt h.2.1))
  | cons_cons s _ ih => exact ⟨h.1, h.2.1, ih h.2.2⟩

theorem Apart.mem (h : Apart lo hi a l b) (hs : s ∈ l) : a ≤ lo s ∧ lo s < hi s ∧ hi s ≤ b := by
  induction l generalizing a with
  | nil => cases hs
  | cons t rest ih =>
      rcases List.mem_cons.mp hs with rfl | hs
      · exact ⟨h.1, h.2.1, h.2.2.le⟩
      · obtain ⟨hlo, hlt, hhi⟩ := ih h.2.2 hs
        exact ⟨Nat.le_trans h.1 (Nat.le_trans (Nat.le_of_lt h.2.1) hlo), hlt, hhi⟩

theorem Tiles.exists_last (h : Tiles lo hi a l b) (hne : l ≠ []) :
    ∃ s ∈ l, lo s < hi s ∧ hi s = b := by
  induction l generalizing a with
  | nil => exact absurd rfl hne
  | cons s rest ih =>
      obtain ⟨hlo, hlt, hrest⟩ := h
      cases rest with
      | nil => exact ⟨s, List.mem_cons_self .., hlt, hrest⟩
      | cons t rest =>
          obtain ⟨u, hu, hlast⟩ := ih hrest (List.cons_ne_nil _ _)
          exact ⟨u, List.mem_cons_of_mem _ hu, hlast⟩

/-- What stands in front of a piece ends where the piece starts, or before. -/
theorem apart_append (h : Apart lo hi a (before ++ s :: after) b) :
    Apart lo hi a before (lo s) ∧ lo s < hi s ∧ Apart lo hi (hi s) after b := by
  induction before generalizing a with
  | nil => exact ⟨h.1, h.2⟩
  | cons t rest ih =>
      obtain ⟨hbefore, hafter⟩ := ih h.2.2
      exact ⟨⟨h.1, h.2.1, hbefore⟩, hafter⟩

theorem Apart.stop_le (h : Apart lo hi a l b) : stop hi a l ≤ b := by
  induction l generalizing a with
  | nil => exact h
  | cons s rest ih => exact ih h.2.2

theorem stop_append (a : Nat) (l l' : List α) : stop hi a (l ++ l') = stop hi (stop hi a l) l' := by
  induction l generalizing a with
  | nil => rfl
  | cons s rest ih => exact ih (hi s)

/-- The last piece says where the pieces end. -/
theorem stop_eq_getLast (a : Nat) (l : List α) :
    stop hi a l = match l.getLast? with
      | none => a
      | some s => hi s := by
  induction l generalizing a with
  | nil => rfl
  | cons s rest ih =>
      rw [stop, ih, List.getLast?_cons]
      cases rest.getLast? <;> rfl

/-- Pieces that start in front of a piece stand in front of it. -/
theorem takeWhile_lo (h : Apart lo hi a (before ++ s :: after) b) :
    (before ++ after).takeWhile (fun t => lo t ≤ lo s) = before ∧
      (before ++ after).dropWhile (fun t => lo t ≤ lo s) = after := by
  obtain ⟨hbefore, hlt, hafter⟩ := apart_append h
  have hin : ∀ t ∈ before, decide (lo t ≤ lo s) = true := by
    intro t ht
    obtain ⟨-, htlt, hthi⟩ := hbefore.mem ht
    exact decide_eq_true (by omega)
  have hout : after.takeWhile (fun t => decide (lo t ≤ lo s)) = [] ∧
      after.dropWhile (fun t => decide (lo t ≤ lo s)) = after := by
    cases after with
    | nil => exact ⟨rfl, rfl⟩
    | cons t rest =>
        have hnot : decide (lo t ≤ lo s) = false :=
          decide_eq_false (Nat.not_le.mpr (Nat.lt_of_lt_of_le hlt hafter.1))
        exact ⟨by rw [List.takeWhile_cons, hnot]; rfl, by rw [List.dropWhile_cons, hnot]; rfl⟩
  rw [List.takeWhile_append_of_pos hin, List.dropWhile_append_of_pos hin, hout.1, hout.2,
    List.append_nil]
  exact ⟨rfl, rfl⟩

/-- Moving the start opens or closes the stretch in front of the first piece, and no other. -/
theorem holes_start (lo hi : α → Nat) (a a' b : Nat) (l : List α) :
    holes lo hi b a l + (if a' = front lo b l then 0 else 1) =
      holes lo hi b a' l + (if a = front lo b l then 0 else 1) := by
  cases l with
  | nil => exact Nat.add_comm _ _
  | cons s rest =>
      rw [holes, holes, front]
      omega

theorem Apart.le_front (h : Apart lo hi a l b) : a ≤ front lo b l := by
  cases l with
  | nil => exact h
  | cons s rest => exact h.1

/-- **Putting a piece back.** A piece that fits on both sides closes a hole, one that fits on
neither side splits one. -/
theorem holes_insert (h : Apart lo hi a (before ++ s :: after) b) :
    holes lo hi b a (before ++ after) +
        (if stop hi a before ≠ lo s ∧ hi s ≠ front lo b after then 1 else 0) =
      holes lo hi b a (before ++ s :: after) +
        (if stop hi a before = lo s ∧ hi s = front lo b after then 1 else 0) := by
  induction before generalizing a with
  | nil =>
      obtain ⟨hlo, hlt, hafter⟩ := h
      have hfront : a ≠ front lo b after := by
        have := hafter.le_front
        omega
      have hstart := holes_start lo hi a (hi s) b after
      rw [if_neg hfront] at hstart
      simp only [List.nil_append, stop, holes]
      by_cases hleft : a = lo s <;> by_cases hright : hi s = front lo b after <;>
        simp only [hleft, hright, if_true, if_false, ne_eq, not_true_eq_false,
          not_false_eq_true, and_self, and_false, false_and] at hstart ⊢ <;> omega
  | cons t rest ih =>
      have hrest := ih h.2.2
      have hstop : stop hi a (t :: rest) = stop hi (hi t) rest := rfl
      rw [hstop, List.cons_append, List.cons_append, holes, holes]
      omega

/-- Each piece and each hole takes a number. -/
theorem Apart.holes_le (h : Apart lo hi a l b) : holes lo hi b a l + l.length ≤ b - a := by
  induction l generalizing a with
  | nil =>
      have hle : a ≤ b := h
      rw [holes, List.length_nil]
      split <;> omega
  | cons s rest ih =>
      obtain ⟨hlo, hlt, hrest⟩ := h
      have := ih hrest
      have := hrest.le
      rw [holes, List.length_cons]
      split <;> omega

/-- Moving the end opens or closes the stretch behind the last piece, and no other. -/
theorem holes_end (lo hi : α → Nat) (a b b' : Nat) (l : List α) :
    holes lo hi b a l + (if stop hi a l = b' then 0 else 1) =
      holes lo hi b' a l + (if stop hi a l = b then 0 else 1) := by
  induction l generalizing a with
  | nil => exact Nat.add_comm _ _
  | cons s rest ih =>
      have := ih (hi s)
      rw [holes, holes, stop]
      omega

/-- There is no hole just when each number lies in a piece. -/
theorem Apart.holes_eq_zero_iff (h : Apart lo hi a l b) :
    holes lo hi b a l = 0 ↔ ∀ k, a ≤ k → k < b → ∃ s ∈ l, lo s ≤ k ∧ k < hi s := by
  induction l generalizing a with
  | nil =>
      have hle : a ≤ b := h
      rw [holes]
      constructor
      · intro hzero k hk hkb
        split at hzero <;> omega
      · intro hcover
        by_contra hne
        obtain ⟨s, hs, -⟩ := hcover a (Nat.le_refl a) (by split at hne <;> omega)
        cases hs
  | cons s rest ih =>
      obtain ⟨hlo, hlt, hrest⟩ := h
      rw [holes, Nat.add_eq_zero_iff, ih hrest]
      constructor
      · rintro ⟨hstart, hcover⟩ k hk hkb
        by_cases hin : k < hi s
        · refine ⟨s, List.mem_cons_self .., ?_, hin⟩
          split at hstart <;> omega
        · obtain ⟨t, ht, htk⟩ := hcover k (Nat.le_of_not_lt hin) hkb
          exact ⟨t, List.mem_cons_of_mem _ ht, htk⟩
      · intro hcover
        constructor
        · have hle := hrest.le
          obtain ⟨t, ht, htk⟩ := hcover a (Nat.le_refl a) (by omega)
          rcases List.mem_cons.mp ht with rfl | ht
          · exact if_pos (Nat.le_antisymm hlo htk.1)
          · have := hrest.mem ht
            omega
        · intro k hk hkb
          obtain ⟨t, ht, htk⟩ := hcover k (by omega) hkb
          rcases List.mem_cons.mp ht with rfl | ht
          · omega
          · exact ⟨t, ht, htk⟩

/-- Pieces that end in front of the end leave it open. -/
theorem Apart.holes_succ_ne_zero (h : Apart lo hi a l b) : holes lo hi (b + 1) a l ≠ 0 := by
  intro hzero
  have hle : Apart lo hi a l (b + 1) := h.mono_right (Nat.le_succ b)
  obtain ⟨s, hs, -, hlt⟩ := hle.holes_eq_zero_iff.mp hzero b h.le (Nat.lt_succ_self b)
  have := (h.mem hs).2.2
  omega

/-- A piece goes where it overlaps neither with the pieces in front nor with those behind. -/
theorem Apart.insert (h : Apart lo hi a (before ++ after) b) (hleft : stop hi a before ≤ lo s)
    (hlt : lo s < hi s) (hright : hi s ≤ front lo b after) :
    Apart lo hi a (before ++ s :: after) b := by
  induction before generalizing a with
  | nil =>
      refine ⟨hleft, hlt, ?_⟩
      cases after with
      | nil => exact hright
      | cons t rest => exact ⟨hright, h.2⟩
  | cons t rest ih => exact ⟨h.1, h.2.1, ih h.2.2 hleft⟩

/-- The pieces end where the last of them does. -/
theorem Apart.trim (h : Apart lo hi a l b) {b' : Nat} (hstop : stop hi a l ≤ b') :
    Apart lo hi a l b' := by
  induction l generalizing a with
  | nil => exact hstop
  | cons s rest ih => exact ⟨h.1, h.2.1, ih h.2.2 hstop⟩

theorem Apart.pairwise (h : Apart lo hi a l b) : l.Pairwise fun s t => hi s ≤ lo t := by
  induction l generalizing a with
  | nil => exact List.Pairwise.nil
  | cons s rest ih =>
      rw [List.pairwise_cons]
      exact ⟨fun t ht => (h.2.2.mem ht).1, ih h.2.2⟩

theorem holes_of_tiles (h : Tiles lo hi a l b) : holes lo hi b a l = 0 := by
  induction l generalizing a with
  | nil => exact if_pos h
  | cons s rest ih => rw [holes, if_pos h.1.symm, ih h.2.2]

theorem tiles_of_holes (h : Apart lo hi a l b) (hzero : holes lo hi b a l = 0) :
    Tiles lo hi a l b := by
  induction l generalizing a with
  | nil =>
      by_contra hne
      have hne' : a ≠ b := hne
      rw [holes, if_neg hne'] at hzero
      cases hzero
  | cons s rest ih =>
      rw [holes, Nat.add_eq_zero_iff] at hzero
      have hlo : a = lo s := by
        by_contra hne
        rw [if_neg hne] at hzero
        cases hzero.1
      exact ⟨hlo.symm, h.2.1, ih h.2.2 hzero.2⟩

/-- A tiling of which nothing can be left out without a hole. -/
theorem eq_of_sublist {l' : List α} (hsub : l'.Sublist l) (h : Tiles lo hi a l b)
    (h' : Tiles lo hi a l' b) : l' = l := by
  induction hsub generalizing a with
  | slnil => rfl
  | @cons l₁ l₂ s hsub ih =>
      -- the piece left out has no other in its place
      exfalso
      obtain ⟨hlo, hlt, hrest⟩ := h
      cases l₁ with
      | nil =>
          have hle := hrest.apart.le
          have hend : a = b := h'
          omega
      | cons t rest =>
          have ht := hrest.apart.mem (hsub.subset (List.mem_cons_self ..))
          have htlo := h'.1
          omega
  | cons_cons s _ ih => rw [ih h.2.2 h'.2.2]

end Tiling

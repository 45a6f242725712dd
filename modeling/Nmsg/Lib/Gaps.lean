import Mathlib.Algebra.BigOperators.Group.Finset.Basic
import Mathlib.Order.Interval.Finset.Nat

/-!
# Gaps in an increasing list

The numbers between the first and the last of a list that the list leaves out. When a list of
increasing numbers grows by one more, just the numbers passed over are added.
-/

namespace Gaps

/-- How many numbers between the first and the last of `ps` are not in it. -/
def missing (ps : List Nat) : Nat :=
  match ps.head?, ps.getLast? with
  | some first, some last => (Finset.Icc first last \ ps.toFinset).card
  | _, _ => 0

@[simp]
theorem missing_singleton (p : Nat) : missing [p] = 0 := by
  simp [missing]

theorem le_getLast {ps : List Nat} (hne : ps ≠ []) (h : ps.Pairwise (· < ·)) :
    ∀ p ∈ ps, p ≤ ps.getLast hne := by
  intro p hp
  rw [← List.dropLast_append_getLast hne] at hp h
  rcases List.mem_append.mp hp with hmem | hmem
  · exact (List.pairwise_append.mp h).2.2 p hmem _ (by simp) |>.le
  · exact (List.mem_singleton.mp hmem).le

/-- One more number leaves out those it passes over. -/
theorem missing_append {ps : List Nat} {p q : Nat} (h : ps.Pairwise (· < ·))
    (hlast : ps.getLast? = some q) (hlt : q < p) :
    missing (ps ++ [p]) = missing ps + (p - q - 1) := by
  cases hhead : ps.head? with
  | none =>
      rw [List.head?_eq_none_iff.mp hhead] at hlast
      cases hlast
  | some first =>
      have hne : ps ≠ [] := by
        rintro rfl
        cases hhead
      have hle := le_getLast hne h
      rw [List.getLast?_eq_getLast_of_ne_nil hne, Option.some.injEq] at hlast
      rw [hlast] at hle
      have hfirst : first ≤ q := hle first (List.mem_of_head? hhead)
      have hsplit : Finset.Icc first p \ (ps ++ [p]).toFinset =
          (Finset.Icc first q \ ps.toFinset) ∪ Finset.Ioo q p := by
        ext n
        simp only [Finset.mem_sdiff, Finset.mem_Icc, List.mem_toFinset, List.mem_append,
          List.mem_singleton, Finset.mem_union, Finset.mem_Ioo]
        constructor
        · rintro ⟨⟨hmin, hp⟩, hmem⟩
          by_cases hn : n ≤ q
          · exact Or.inl ⟨⟨hmin, hn⟩, fun hin => hmem (Or.inl hin)⟩
          · refine Or.inr ⟨by omega, ?_⟩
            have hne : n ≠ p := fun heq => hmem (Or.inr heq)
            omega
        · rintro (⟨⟨hmin, hn⟩, hmem⟩ | ⟨hq, hp⟩)
          · refine ⟨⟨hmin, by omega⟩, ?_⟩
            rintro (hin | rfl)
            · exact hmem hin
            · omega
          · refine ⟨⟨by omega, hp.le⟩, ?_⟩
            rintro (hin | rfl)
            · have := hle n hin
              omega
            · omega
      have hdisjoint : Disjoint (Finset.Icc first q \ ps.toFinset)
          (Finset.Ioo q p) := by
        rw [Finset.disjoint_left]
        intro n hn hn'
        rw [Finset.mem_sdiff, Finset.mem_Icc] at hn
        rw [Finset.mem_Ioo] at hn'
        omega
      have hlast' : ps.getLast? = some q := by
        rw [List.getLast?_eq_getLast_of_ne_nil hne, hlast]
      calc
        missing (ps ++ [p]) = (Finset.Icc first p \ (ps ++ [p]).toFinset).card := by
          simp [missing, List.head?_append, hhead]
        _ = (Finset.Icc first q \ ps.toFinset).card + (Finset.Ioo q p).card := by
          rw [hsplit, Finset.card_union_of_disjoint hdisjoint]
        _ = missing ps + (p - q - 1) := by
          rw [Nat.card_Ioo]
          simp only [missing, hhead, hlast']

end Gaps

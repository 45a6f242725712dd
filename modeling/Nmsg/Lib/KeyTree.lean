import Mathlib.Data.List.Basic

/-!
# Trees of keyed nodes

A balanced tree of nodes with distinct keys, seen from outside: a node is looked up by its key, put
in, taken out, or dropped with all others that fail a test. The nodes are a list whose order means
nothing.
-/

variable {α κ : Type*}

/-- Nodes with distinct keys. -/
structure KeyTree (key : α → κ) where
  nodes : List α
  distinct : nodes.Pairwise (fun a b => key a ≠ key b)

namespace KeyTree

variable {key : α → κ}

def empty : KeyTree key := ⟨[], List.Pairwise.nil⟩

def size (t : KeyTree key) : Nat := t.nodes.length

/-- Keep the nodes that satisfy `p`. -/
def keep (t : KeyTree key) (p : α → Bool) : KeyTree key := ⟨t.nodes.filter p, t.distinct.filter p⟩

variable [DecidableEq κ]

def find (t : KeyTree key) (k : κ) : Option α := t.nodes.find? fun a => key a = k

def erase (t : KeyTree key) (k : κ) : KeyTree key := t.keep fun a => key a ≠ k

/-- Put a node in, in place of the one with its key if there is one. -/
def put (t : KeyTree key) (a : α) : KeyTree key where
  nodes := a :: (t.erase (key a)).nodes
  distinct := by
    refine List.pairwise_cons.mpr ⟨?_, (t.erase (key a)).distinct⟩
    intro b hb heq
    simp [erase, keep, heq] at hb

variable {t : KeyTree key} {k : κ} {a : α}

theorem key_of_find (h : t.find k = some a) : key a = k := by
  simpa using List.find?_some h

theorem mem_of_find (h : t.find k = some a) : a ∈ t.nodes := List.mem_of_find?_eq_some h

theorem find_of_mem (h : a ∈ t.nodes) : t.find (key a) = some a := by
  obtain ⟨nodes, distinct⟩ := t
  unfold find
  induction nodes with
  | nil => cases h
  | cons b rest ih =>
      rw [List.pairwise_cons] at distinct
      rcases List.mem_cons.mp h with rfl | hrest
      · simp
      · have hne := distinct.1 a hrest
        simpa [hne] using ih distinct.2 hrest

@[simp]
theorem find_empty : (empty : KeyTree key).find k = none := rfl

omit [DecidableEq κ] in
@[simp]
theorem size_empty : (empty : KeyTree key).size = 0 := rfl

theorem find_eq_none_iff : t.find k = none ↔ ∀ b ∈ t.nodes, key b ≠ k := by
  simp [find]

theorem find_keep (p : α → Bool) : (t.keep p).find k = (t.find k).filter p := by
  cases hfind : t.find k with
  | none =>
      rw [Option.filter_none, find_eq_none_iff]
      rw [find_eq_none_iff] at hfind
      intro b hb
      exact hfind b (List.mem_of_mem_filter hb)
  | some a =>
      cases hp : p a with
      | true =>
          have hmem : a ∈ (t.keep p).nodes := List.mem_filter.mpr ⟨mem_of_find hfind, hp⟩
          have hkeep := find_of_mem hmem
          rw [key_of_find hfind] at hkeep
          rw [hkeep, Option.filter_some_pos hp]
      | false =>
          rw [Option.filter_some_neg (by simp [hp]), find_eq_none_iff]
          intro b hb heq
          obtain ⟨hmem, hpb⟩ := List.mem_filter.mp hb
          have hb' := find_of_mem hmem
          rw [heq, hfind, Option.some.injEq] at hb'
          rw [← hb', hp] at hpb
          cases hpb

@[simp]
theorem find_erase_self : (t.erase k).find k = none := by
  rw [erase, find_keep]
  cases hfind : t.find k with
  | none => rfl
  | some a => simp [key_of_find hfind]

theorem find_erase_of_ne {j : κ} (h : j ≠ k) : (t.erase k).find j = t.find j := by
  rw [erase, find_keep]
  cases hfind : t.find j with
  | none => rfl
  | some a => simp [key_of_find hfind, h]

@[simp]
theorem find_put_self : (t.put a).find (key a) = some a := by simp [find, put]

theorem find_put_of_ne (h : k ≠ key a) : (t.put a).find k = t.find k := by
  rw [← find_erase_of_ne (t := t) h]
  simp [find, put, Ne.symm h]

theorem erase_eq_of_find_eq_none (h : t.find k = none) : t.erase k = t := by
  obtain ⟨nodes, distinct⟩ := t
  simp only [erase, keep, KeyTree.mk.injEq, List.filter_eq_self]
  intro b hb
  simp only [find, List.find?_eq_none] at h
  simpa using h b hb

theorem size_put_of_find_eq_none (h : t.find (key a) = none) : (t.put a).size = t.size + 1 := by
  change (a :: (t.erase (key a)).nodes).length = t.nodes.length + 1
  rw [erase_eq_of_find_eq_none h, List.length_cons]

theorem size_erase_of_find (h : t.find k = some a) : (t.erase k).size + 1 = t.size := by
  obtain ⟨nodes, distinct⟩ := t
  unfold size erase keep find at *
  induction nodes with
  | nil => cases h
  | cons b rest ih =>
      rw [List.pairwise_cons] at distinct
      by_cases hb : key b = k
      · have hall : rest.filter (fun c => decide (key c ≠ k)) = rest := by
          rw [List.filter_eq_self]
          intro c hc
          simpa [← hb] using Ne.symm (distinct.1 c hc)
        simp only [List.filter_cons, hb, ne_eq, not_true_eq_false, decide_false,
          Bool.false_eq_true, if_false, List.length_cons]
        rw [show (rest.filter fun c => decide ¬ key c = k) = rest from hall]
      · have hrest := ih distinct.2 (by simpa [hb] using h)
        simp only [List.filter_cons, hb, ne_eq, not_false_eq_true, decide_true, if_true,
          List.length_cons] at hrest ⊢
        omega

theorem size_put_of_find {b : α} (h : t.find (key a) = some b) : (t.put a).size = t.size := by
  have := size_erase_of_find h
  rw [← this]
  rfl

end KeyTree

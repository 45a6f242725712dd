import Nmsg.Lib.Octets
import Mathlib.Algebra.BigOperators.Group.List.Basic

/-!
# Ones' complement sums

The sum of 16-bit words in ones' complement arithmetic, in which a carry out of the word is added
back in. It is known by the plain sum of the words: by the residue modulo `2 ^ 16 - 1`, and by
whether all words are zero.
-/

namespace OnesSum

/-- The sum of two words, the carry added back in. -/
def add (a b : Nat) : Nat := (a + b) % 65536 + (a + b) / 65536

/-- The 16-bit words of an octet string; an odd octet at its end is padded with a zero octet. -/
def words : Bytes → List Nat
  | [] => []
  | [b] => [b.toNat * 256]
  | b :: c :: rest => (b.toNat * 256 + c.toNat) :: words rest

/-- The ones' complement sum of an octet string. -/
def sum (b : Bytes) : Nat := (words b).foldl add 0

/-- `r` is what is left of the number `s` when all carries have been added back in. -/
structure Represents (r s : Nat) : Prop where
  lt : r < 65536
  mod : r % 65535 = s % 65535
  zero : r = 0 ↔ s = 0

theorem Represents.unique {r r' s : Nat} (h : Represents r s) (h' : Represents r' s) : r = r' := by
  have hmod := h.mod.trans h'.mod.symm
  have hzero := h.zero.trans h'.zero.symm
  have := h.lt
  have := h'.lt
  omega

theorem represents_zero : Represents 0 0 := ⟨by decide, rfl, Iff.rfl⟩

theorem Represents.of_lt {r : Nat} (h : r < 65536) : Represents r r := ⟨h, rfl, Iff.rfl⟩

/-- Adding the carry back in keeps the residue. -/
theorem fold_mod (s : Nat) : (s % 65536 + s / 65536) % 65535 = s % 65535 := by
  omega

theorem Represents.of_fold {r s : Nat} (h : Represents r (s % 65536 + s / 65536)) :
    Represents r s :=
  ⟨h.lt, h.mod.trans (fold_mod s), h.zero.trans (by omega)⟩

theorem Represents.add {r s w : Nat} (h : Represents r s) (hw : w < 65536) :
    Represents (add r w) (s + w) := by
  have hlt := h.lt
  have hmod := h.mod
  have hzero := h.zero
  unfold OnesSum.add
  exact ⟨by omega, by omega, by omega⟩

theorem words_lt (b : Bytes) : ∀ w ∈ words b, w < 65536 := by
  fun_induction words b with
  | case1 => exact fun w hw => absurd hw List.not_mem_nil
  | case2 b =>
      intro w hw
      have := b.toNat_lt
      rw [List.mem_singleton.mp hw]
      omega
  | case3 b c rest ih =>
      intro w hw
      have := b.toNat_lt
      have := c.toNat_lt
      rcases List.mem_cons.mp hw with rfl | hw
      · omega
      · exact ih w hw

theorem foldl_represents {ws : List Nat} (hws : ∀ w ∈ ws, w < 65536) :
    ∀ {r s : Nat}, Represents r s → Represents (ws.foldl add r) (s + ws.sum) := by
  induction ws with
  | nil => exact fun h => h
  | cons w rest ih =>
      intro r s h
      rw [List.forall_mem_cons] at hws
      rw [List.foldl_cons, List.sum_cons, ← Nat.add_assoc]
      exact ih hws.2 (h.add hws.1)

theorem sum_represents (b : Bytes) : Represents (sum b) (words b).sum := by
  have := foldl_represents (words_lt b) represents_zero
  rwa [Nat.zero_add] at this

/-- Octet strings are summed one by one, when those in front have an even number of octets. -/
theorem words_append {a : Bytes} (h : a.length % 2 = 0) (b : Bytes) :
    words (a ++ b) = words a ++ words b := by
  fun_induction words a with
  | case1 => rfl
  | case2 x => simp at h
  | case3 x y rest ih =>
      rw [List.length_cons, List.length_cons] at h
      rw [List.cons_append, List.cons_append, words, ih (by omega), List.cons_append]

theorem sum_words_append {a : Bytes} (h : a.length % 2 = 0) (b : Bytes) :
    (words (a ++ b)).sum = (words a).sum + (words b).sum := by
  rw [words_append h, List.sum_append]

/-- A part may be replaced by one with the same sum. -/
theorem sum_words_replace {pre a b : Bytes} (hpre : pre.length % 2 = 0) (ha : a.length % 2 = 0)
    (hb : b.length % 2 = 0) (h : (words a).sum = (words b).sum) (post : Bytes) :
    (words (pre ++ a ++ post)).sum = (words (pre ++ b ++ post)).sum := by
  rw [List.append_assoc, List.append_assoc, sum_words_append hpre, sum_words_append hpre,
    sum_words_append ha, sum_words_append hb, h]

/-- An octet string in parts, which all but the last have an even number of octets. -/
theorem sum_words_flatten (parts : List Bytes) (h : ∀ b ∈ parts.dropLast, b.length % 2 = 0) :
    (words parts.flatten).sum = (parts.map fun b => (words b).sum).sum := by
  induction parts with
  | nil => rfl
  | cons a rest ih =>
      cases rest with
      | nil => simp
      | cons b rest =>
          rw [List.dropLast_cons_cons, List.forall_mem_cons] at h
          calc
            (words (a :: b :: rest).flatten).sum
                = (words a).sum + (words (b :: rest).flatten).sum := by
              rw [List.flatten_cons, sum_words_append h.1]
            _ = (words a).sum + ((b :: rest).map fun b => (words b).sum).sum := by rw [ih h.2]

/-- A sum and its complement add up to all ones. -/
theorem Represents.complement {r s : Nat} (h : Represents r s) :
    Represents 65535 (s + (65535 - r)) := by
  have hlt := h.lt
  have hmod := h.mod
  have hzero := h.zero
  exact ⟨by decide, by omega, by omega⟩

/-- The plain sum is bounded by the number of words. -/
theorem sum_words_le (b : Bytes) : (words b).sum ≤ (b.length + 1) / 2 * 65535 := by
  fun_induction words b with
  | case1 => exact Nat.zero_le _
  | case2 x =>
      have := x.toNat_lt
      simp only [List.sum_cons, List.sum_nil, List.length_cons, List.length_nil]
      omega
  | case3 x y rest ih =>
      have := x.toNat_lt
      have := y.toNat_lt
      simp only [List.sum_cons, List.length_cons]
      omega

end OnesSum

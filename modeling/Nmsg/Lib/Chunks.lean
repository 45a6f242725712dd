import Mathlib.Data.List.Basic
import Mathlib.Data.List.Range

/-!
# Cutting a list into pieces of one length

All pieces have `n` elements, but for the last, which has what is left.
-/

namespace Chunks

variable {α : Type*}

/-- Piece `k` of `l`. -/
def chunk (n : Nat) (l : List α) (k : Nat) : List α := (l.drop (k * n)).take n

def chunks (n : Nat) (l : List α) : List (List α) :=
  (List.range ((l.length + n - 1) / n)).map (chunk n l)

variable {n : Nat} {l : List α}

@[simp]
theorem length_chunks : (chunks n l).length = (l.length + n - 1) / n := by
  simp [chunks]

theorem flatten_map_chunk (n : Nat) (l : List α) (m : Nat) :
    ((List.range m).map (chunk n l)).flatten = l.take (m * n) := by
  induction m with
  | zero => simp
  | succ m ih =>
      rw [List.range_succ, List.map_append, List.flatten_append, ih, Nat.succ_mul, List.take_add]
      simp [chunk]

/-- The pieces make up the list. -/
theorem flatten_chunks (hn : 0 < n) (l : List α) : (chunks n l).flatten = l := by
  rw [chunks, flatten_map_chunk, List.take_of_length_le]
  have hmod := Nat.mod_add_div (l.length + n - 1) n
  have hlt := Nat.mod_lt (l.length + n - 1) hn
  rw [Nat.mul_comm]
  omega

theorem chunk_ne_nil (hn : 0 < n) {k : Nat} (hk : k * n < l.length) : chunk n l k ≠ [] := by
  intro h
  have hlen := congrArg List.length h
  rw [chunk, List.length_take, List.length_drop, List.length_nil] at hlen
  omega

/-- The first index behind all pieces. -/
theorem lt_length_chunks_iff (hn : 0 < n) {k : Nat} :
    k < (l.length + n - 1) / n ↔ k * n < l.length := by
  rw [Nat.lt_iff_add_one_le, Nat.le_div_iff_mul_le hn, Nat.succ_mul]
  omega

theorem nil_notMem_chunks (hn : 0 < n) : [] ∉ chunks n l := by
  intro h
  obtain ⟨k, hk, hnil⟩ := List.mem_map.mp h
  exact chunk_ne_nil hn ((lt_length_chunks_iff hn).mp (List.mem_range.mp hk)) hnil

/-- When the last piece is shorter, there is one piece more than the length holds `n`. -/
theorem length_chunks_of_mod_ne_zero (hn : 0 < n) (h : l.length % n ≠ 0) :
    (l.length + n - 1) / n = l.length / n + 1 := by
  have hmod := Nat.mod_add_div l.length n
  have hlt := Nat.mod_lt l.length hn
  rw [Nat.div_eq_iff hn]
  have hmul : (l.length / n + 1) * n = n * (l.length / n) + n := by
    rw [Nat.succ_mul, Nat.mul_comm]
  omega

/-- Without a shorter piece there are as many as the length holds `n`. -/
theorem length_chunks_of_mod_eq_zero (hn : 0 < n) (h : l.length % n = 0) :
    (l.length + n - 1) / n = l.length / n := by
  have hmod := Nat.mod_add_div l.length n
  rw [Nat.div_eq_iff hn, Nat.mul_comm (l.length / n) n]
  omega

theorem getD_chunks {k : Nat} (hn : 0 < n) (hk : k * n < l.length) :
    (chunks n l).getD k [] = chunk n l k := by
  have hlt := (lt_length_chunks_iff hn).mpr hk
  rw [List.getD_eq_getElem?_getD, chunks, List.getElem?_map, List.getElem?_range hlt]
  rfl

end Chunks

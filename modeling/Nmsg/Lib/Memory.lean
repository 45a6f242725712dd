import Nmsg.Lib.Octets

/-!
# Bounded memory

A block of memory is an octet string. Reading and writing succeed only inside the block; a write
changes the octets it covers and no others.
-/

namespace Memory

/-- The `n` octets from offset `i` on. -/
def read (m : Bytes) (i n : Nat) : Option Bytes :=
  if i + n ≤ m.length then some ((m.drop i).take n) else none

/-- The block after `src` has been copied to offset `i`. -/
def write (m : Bytes) (i : Nat) (src : Bytes) : Option Bytes :=
  if i + src.length ≤ m.length then some (m.take i ++ src ++ m.drop (i + src.length)) else none

section Read

variable {m b : Bytes} {i n : Nat}

theorem read_eq_some : read m i n = some b ↔ i + n ≤ m.length ∧ b = (m.drop i).take n := by
  unfold read
  split
  case isTrue h => simp [h, eq_comm]
  case isFalse h => simp [h]

theorem length_of_read (h : read m i n = some b) : b.length = n := by
  obtain ⟨hle, rfl⟩ := read_eq_some.mp h
  rw [List.length_take, List.length_drop]
  omega

theorem read_of_le (h : i + n ≤ m.length) : read m i n = some ((m.drop i).take n) :=
  read_eq_some.mpr ⟨h, rfl⟩

/-- Octets that follow the ones read do not matter. -/
theorem read_append (h : i + n ≤ m.length) (rest : Bytes) :
    read (m ++ rest) i n = read m i n := by
  have hle : i + n ≤ (m ++ rest).length := by
    rw [List.length_append]
    omega
  rw [read_of_le h, read_of_le hle, List.drop_append_of_le_length (by omega),
    List.take_append_of_le_length (by rw [List.length_drop]; omega)]

theorem read_middle (pre rest : Bytes) : read (pre ++ b ++ rest) pre.length b.length = some b := by
  rw [read_of_le (by simp), List.append_assoc, List.drop_left, List.take_left]

/-- What is read depends on the octets read only, also on whether they are there. -/
theorem read_congr_of_pos {m' : Bytes} (hn : 0 < n)
    (h : ∀ k, i ≤ k → k < i + n → m'[k]? = m[k]?) : read m' i n = read m i n := by
  have hlast := h (i + n - 1) (by omega) (by omega)
  have hlen : i + n ≤ m'.length ↔ i + n ≤ m.length := by
    rcases Nat.lt_or_ge (i + n - 1) m.length with hlt | hge
    · rw [List.getElem?_eq_getElem hlt, List.getElem?_eq_some_iff] at hlast
      obtain ⟨hlt', -⟩ := hlast
      omega
    · rw [List.getElem?_eq_none hge, List.getElem?_eq_none_iff] at hlast
      omega
  unfold read
  refine if_congr hlen (congrArg some (List.ext_getElem? fun k => ?_)) rfl
  rw [List.getElem?_take, List.getElem?_take, List.getElem?_drop, List.getElem?_drop]
  split
  · exact h _ (by omega) (by omega)
  · rfl

end Read

section Write

variable {m m' src : Bytes} {i : Nat}

theorem write_eq_some :
    write m i src = some m' ↔
      i + src.length ≤ m.length ∧ m' = m.take i ++ src ++ m.drop (i + src.length) := by
  unfold write
  split
  case isTrue h => simp [h, eq_comm]
  case isFalse h => simp [h]

theorem write_of_le (h : i + src.length ≤ m.length) :
    write m i src = some (m.take i ++ src ++ m.drop (i + src.length)) :=
  write_eq_some.mpr ⟨h, rfl⟩

theorem length_of_write (h : write m i src = some m') : m'.length = m.length := by
  obtain ⟨hle, rfl⟩ := write_eq_some.mp h
  simp only [List.length_append, List.length_take, List.length_drop]
  omega

theorem getElem?_of_write (h : write m i src = some m') (j : Nat) :
    m'[j]? = if i ≤ j ∧ j < i + src.length then src[j - i]? else m[j]? := by
  obtain ⟨hle, rfl⟩ := write_eq_some.mp h
  have hi : (m.take i).length = i := by
    rw [List.length_take]
    omega
  rcases Nat.lt_or_ge j i with hlt | hge
  · rw [if_neg (by omega), List.append_assoc, List.getElem?_append_left (by omega),
      List.getElem?_take_of_lt hlt]
  · rw [List.append_assoc, List.getElem?_append_right (by omega), hi]
    by_cases hin : j < i + src.length
    · rw [if_pos ⟨hge, hin⟩, List.getElem?_append_left (by omega)]
    · rw [if_neg (by omega), List.getElem?_append_right (by omega), List.getElem?_drop]
      congr 1
      omega

/-- Replacing the middle of a block by as many octets. -/
theorem write_middle (pre old rest : Bytes) (h : old.length = src.length) :
    write (pre ++ old ++ rest) pre.length src = some (pre ++ src ++ rest) := by
  have htake : (pre ++ old ++ rest).take pre.length = pre := by
    rw [List.append_assoc, List.take_left]
  have hdrop : (pre ++ old ++ rest).drop (pre.length + src.length) = rest := by
    rw [← h, ← List.length_append, List.drop_left]
  rw [write_of_le (by simp [h]), htake, hdrop]

/-- Writing one octet. -/
theorem write_singleton {x : UInt8} (h : i < m.length) : write m i [x] = some (m.set i x) := by
  rw [write_of_le (by rw [List.length_singleton]; omega), List.set_eq_take_append_cons_drop,
    if_pos h, List.length_singleton, List.append_assoc, List.singleton_append]

/-- A block that is longer than it has to be is written alike. -/
theorem write_append (h : write m i src = some m') (rest : Bytes) :
    write (m ++ rest) i src = some (m' ++ rest) := by
  obtain ⟨hle, rfl⟩ := write_eq_some.mp h
  have hle' : i + src.length ≤ (m ++ rest).length := by
    rw [List.length_append]
    omega
  rw [write_of_le hle', List.take_append_of_le_length (by omega),
    List.drop_append_of_le_length hle, List.append_assoc, List.append_assoc, List.append_assoc]

/-- What is read depends on the octets read only. -/
theorem read_congr {j n : Nat} (hlen : m'.length = m.length)
    (h : ∀ k, j ≤ k → k < j + n → m'[k]? = m[k]?) : read m' j n = read m j n := by
  unfold read
  rw [hlen]
  refine if_congr Iff.rfl (congrArg some (List.ext_getElem? fun k => ?_)) rfl
  rw [List.getElem?_take, List.getElem?_take, List.getElem?_drop, List.getElem?_drop]
  split
  · exact h _ (by omega) (by omega)
  · rfl

theorem read_of_write_ne {j n : Nat} (h : write m i src = some m')
    (hne : j + n ≤ i ∨ i + src.length ≤ j) : read m' j n = read m j n := by
  apply read_congr (length_of_write h)
  intro k hk hkn
  rw [getElem?_of_write h, if_neg (by omega)]

theorem read_of_write (h : write m i src = some m') : read m' i src.length = some src := by
  obtain ⟨hle, rfl⟩ := write_eq_some.mp h
  have hi : (m.take i).length = i := by
    rw [List.length_take]
    omega
  have := read_middle (b := src) (m.take i) (m.drop (i + src.length))
  rwa [hi] at this

end Write

/-! ### Blocks that differ in some places -/

/-- The blocks have one length and the same octets outside the places `S`. -/
structure EqOff (S : Nat → Prop) (m m' : Bytes) : Prop where
  length : m'.length = m.length
  getElem? : ∀ i, ¬ S i → m'[i]? = m[i]?

section EqOff

variable {S : Nat → Prop} {m m' src src' b : Bytes} {i n : Nat}

theorem EqOff.refl (S : Nat → Prop) (m : Bytes) : EqOff S m m := ⟨rfl, fun _ _ => rfl⟩

theorem EqOff.take (h : EqOff S m m') (n : Nat) : EqOff S (m.take n) (m'.take n) := by
  refine ⟨by rw [List.length_take, List.length_take, h.length], fun i hi => ?_⟩
  rw [List.getElem?_take, List.getElem?_take, h.getElem? i hi]

/-- A read that meets none of the places. -/
theorem EqOff.read (h : EqOff S m m') (hS : ∀ k, i ≤ k → k < i + n → ¬ S k) :
    read m' i n = read m i n :=
  read_congr h.length fun k hk hkn => h.getElem? k (hS k hk hkn)

/-- Writing keeps blocks alike, where what is written is alike. -/
theorem EqOff.write (h : EqOff S m m') (hlen : src'.length = src.length)
    (hsrc : ∀ j, ¬ S (i + j) → src'[j]? = src[j]?) (hb : Memory.write m i src = some b) :
    ∃ b', Memory.write m' i src' = some b' ∧ EqOff S b b' := by
  obtain ⟨hle, -⟩ := write_eq_some.mp hb
  have hle' : i + src'.length ≤ m'.length := by rw [h.length, hlen]; exact hle
  have hwrite := write_of_le hle'
  refine ⟨_, hwrite, ?_, fun j hj => ?_⟩
  · rw [length_of_write hwrite, length_of_write hb, h.length]
  · rw [getElem?_of_write hwrite, getElem?_of_write hb, hlen]
    split
    · apply hsrc
      rwa [show i + (j - i) = j by omega]
    · exact h.getElem? j hj

end EqOff

end Memory

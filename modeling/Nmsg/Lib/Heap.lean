import Mathlib.Logic.Function.Basic
import Nmsg.Lib.Memory

/-!
# A heap

Blocks of octets at 64-bit addresses. A pointer is a place in a block, and what it points to is
loaded and stored inside the block only; an allocator gives out blocks that are not in use.
-/

/-- The blocks that are in use, by their addresses. -/
structure Heap where
  block : UInt64 → Option Bytes

namespace Heap

/-- A place in a block. -/
structure Pointer where
  block : UInt64
  offset : Nat
deriving DecidableEq

/-- The place `n` octets on. -/
def Pointer.add (p : Pointer) (n : Nat) : Pointer :=
  { p with offset := p.offset + n }

/-- The heap with a block at an address. -/
def put (h : Heap) (a : UInt64) (b : Bytes) : Heap :=
  ⟨Function.update h.block a (some b)⟩

/-- The heap without the block at an address. -/
def remove (h : Heap) (a : UInt64) : Heap :=
  ⟨Function.update h.block a none⟩

/-- The `n` octets that `p` points to. -/
def load (h : Heap) (p : Pointer) (n : Nat) : Option Bytes :=
  (h.block p.block).bind fun b => Memory.read b p.offset n

/-- The heap after octets have been copied to where `p` points. -/
def store (h : Heap) (p : Pointer) (src : Bytes) : Option Heap :=
  (h.block p.block).bind fun b => (Memory.write b p.offset src).map (h.put p.block)

/-- `free`, for a pointer that is not null. -/
def free (h : Heap) (a : UInt64) : Option Heap :=
  if h.block a = none then none else some (h.remove a)

/-- How blocks are found. No object is larger than half of the address space, and nothing is known
of the octets of a new block. -/
structure Allocator where
  find : Heap → Nat → Option UInt64
  junk : Heap → Nat → Bytes
  fresh : ∀ {h n a}, find h n = some a → a ≠ 0 ∧ h.block a = none
  bounded : ∀ {h n a}, find h n = some a → n < 2 ^ 63
  length_junk : ∀ h n, (junk h n).length = n

variable {A : Allocator} {h h' : Heap} {p q : Pointer} {a : UInt64} {b src : Bytes} {n : Nat}

/-- `malloc` -/
def malloc (A : Allocator) (h : Heap) (n : Nat) : Option (UInt64 × Heap) :=
  (A.find h n).map fun a => (a, h.put a (A.junk h n))

/-- `realloc` of a block that is in use, or of the null pointer. -/
def realloc (A : Allocator) (h : Heap) (a : UInt64) (n : Nat) : Option (UInt64 × Heap) :=
  if a = 0 then malloc A h n
  else
    let old := (h.block a).getD []
    let rest := h.remove a
    (A.find rest n).map fun a' =>
      (a', rest.put a' (old.take n ++ A.junk rest (n - old.length)))

@[simp]
theorem block_put_self (h : Heap) (a : UInt64) (b : Bytes) : (h.put a b).block a = some b :=
  Function.update_self ..

theorem block_put_of_ne {a' : UInt64} (hne : a' ≠ a) : (h.put a b).block a' = h.block a' :=
  Function.update_of_ne hne ..

@[simp]
theorem block_remove_self (h : Heap) (a : UInt64) : (h.remove a).block a = none :=
  Function.update_self ..

theorem block_remove_of_ne {a' : UInt64} (hne : a' ≠ a) : (h.remove a).block a' = h.block a' :=
  Function.update_of_ne hne ..

/-! ### Loading and storing -/

theorem load_eq_some_iff :
    h.load p n = some src ↔ ∃ b, h.block p.block = some b ∧ Memory.read b p.offset n = some src :=
  Option.bind_eq_some_iff

theorem load_congr (hblock : h'.block p.block = h.block p.block) : h'.load p n = h.load p n := by
  unfold load
  rw [hblock]

/-- A part of what is there. -/
theorem load_part {k m : Nat} (hload : h.load p n = some b) (hle : k + m ≤ n) :
    h.load (p.add k) m = some ((b.drop k).take m) := by
  obtain ⟨blk, hblock, hread⟩ := load_eq_some_iff.mp hload
  obtain ⟨hfits, rfl⟩ := Memory.read_eq_some.mp hread
  refine load_eq_some_iff.mpr ⟨blk, hblock, Memory.read_eq_some.mpr ⟨?_, ?_⟩⟩
  · change p.offset + k + m ≤ blk.length
    omega
  · rw [List.drop_take, List.take_take, List.drop_drop, min_eq_left (by omega)]
    rfl

/-- Two parts that lie one after the other. -/
theorem load_append {m : Nat} {c : Bytes} (hload : h.load p m = some b)
    (hrest : h.load (p.add m) n = some c) : h.load p (m + n) = some (b ++ c) := by
  obtain ⟨blk, hblock, hread⟩ := load_eq_some_iff.mp hload
  obtain ⟨blk', hblock', hread'⟩ := load_eq_some_iff.mp hrest
  obtain rfl := Option.some.inj (hblock.symm.trans hblock')
  obtain ⟨-, rfl⟩ := Memory.read_eq_some.mp hread
  obtain ⟨hfits, rfl⟩ := Memory.read_eq_some.mp hread'
  change p.offset + m + n ≤ blk.length at hfits
  refine load_eq_some_iff.mpr ⟨blk, hblock, Memory.read_eq_some.mpr ⟨by omega, ?_⟩⟩
  rw [List.take_add, List.drop_drop]
  rfl

theorem store_eq_some_iff :
    h.store p src = some h' ↔ ∃ b b', h.block p.block = some b ∧
      Memory.write b p.offset src = some b' ∧ h' = h.put p.block b' := by
  unfold store
  simp only [Option.bind_eq_some_iff, Option.map_eq_some_iff]
  constructor
  · rintro ⟨b, hb, b', hb', rfl⟩
    exact ⟨b, b', hb, hb', rfl⟩
  · rintro ⟨b, b', hb, hb', rfl⟩
    exact ⟨b, hb, b', hb', rfl⟩

/-- Inside a block there can be stored. -/
theorem exists_store (hblock : h.block p.block = some b)
    (hle : p.offset + src.length ≤ b.length) : ∃ h', h.store p src = some h' :=
  ⟨_, store_eq_some_iff.mpr ⟨b, _, hblock, Memory.write_of_le hle, rfl⟩⟩

/-- What is loaded is inside a block. -/
theorem block_of_load (hload : h.load p n = some src) :
    ∃ b, h.block p.block = some b ∧ p.offset + n ≤ b.length := by
  obtain ⟨b, hblock, hread⟩ := load_eq_some_iff.mp hload
  exact ⟨b, hblock, (Memory.read_eq_some.mp hread).1⟩

theorem load_of_store (hstore : h.store p src = some h') : h'.load p src.length = some src := by
  obtain ⟨b, b', -, hwrite, rfl⟩ := store_eq_some_iff.mp hstore
  exact load_eq_some_iff.mpr ⟨b', block_put_self .., Memory.read_of_write hwrite⟩

theorem block_of_store (hstore : h.store p src = some h') (hne : a ≠ p.block) :
    h'.block a = h.block a := by
  obtain ⟨b, b', -, -, rfl⟩ := store_eq_some_iff.mp hstore
  exact block_put_of_ne hne

/-- A store keeps the size of its block. -/
theorem length_of_store (hstore : h.store p src = some h') (hblock : h.block a = some b) :
    ∃ b', h'.block a = some b' ∧ b'.length = b.length := by
  by_cases heq : a = p.block
  · subst heq
    obtain ⟨b₀, b', hblock₀, hwrite, rfl⟩ := store_eq_some_iff.mp hstore
    obtain rfl := Option.some.inj (hblock.symm.trans hblock₀)
    exact ⟨b', block_put_self .., Memory.length_of_write hwrite⟩
  · exact ⟨b, by rw [block_of_store hstore heq, hblock], rfl⟩

/-- A load from another block, or from another place of the block. -/
theorem load_of_store_ne (hstore : h.store p src = some h')
    (hne : q.block ≠ p.block ∨ q.offset + n ≤ p.offset ∨ p.offset + src.length ≤ q.offset) :
    h'.load q n = h.load q n := by
  by_cases heq : q.block = p.block
  · obtain ⟨b, b', hblock, hwrite, rfl⟩ := store_eq_some_iff.mp hstore
    unfold load
    rw [heq, block_put_self, hblock]
    exact Memory.read_of_write_ne hwrite (hne.resolve_left fun h => h heq)
  · exact load_congr (block_of_store hstore heq)

/-! ### Allocating -/

theorem malloc_eq_some (hmalloc : malloc A h n = some (a, h')) :
    a ≠ 0 ∧ h.block a = none ∧ h' = h.put a (A.junk h n) := by
  obtain ⟨a', hfind, heq⟩ := Option.map_eq_some_iff.mp hmalloc
  obtain ⟨rfl, rfl⟩ := Prod.mk.inj heq
  exact ⟨(A.fresh hfind).1, (A.fresh hfind).2, rfl⟩

theorem free_of_block (hblock : h.block a = some b) : h.free a = some (h.remove a) := by
  rw [free, hblock, if_neg (Option.some_ne_none b)]

/-- What a block that is made larger has in it. -/
theorem realloc_eq_some {a' : UInt64} {old : Bytes}
    (hrealloc : realloc A h a n = some (a', h'))
    (hold : a = 0 ∧ old = [] ∨ a ≠ 0 ∧ h.block a = some old) :
    a' ≠ 0 ∧ (a' = a ∨ h.block a' = none) ∧ ∃ b, h'.block a' = some b ∧ b.length = n ∧
      b.take old.length = old.take n ∧ ∀ c, c ≠ a' → c ≠ a ∨ a = 0 → h'.block c = h.block c := by
  unfold realloc at hrealloc
  rcases hold with ⟨rfl, rfl⟩ | ⟨hne, hblock⟩
  · rw [if_pos rfl] at hrealloc
    obtain ⟨hne, hfresh, rfl⟩ := malloc_eq_some hrealloc
    refine ⟨hne, Or.inr hfresh, _, block_put_self .., A.length_junk h n, ?_, ?_⟩
    · rw [List.length_nil, List.take_zero, List.take_nil]
    · exact fun c hc _ => block_put_of_ne hc
  · rw [if_neg hne, hblock] at hrealloc
    obtain ⟨a₁, hfind, heq⟩ := Option.map_eq_some_iff.mp hrealloc
    obtain ⟨rfl, rfl⟩ := Prod.mk.inj heq
    obtain ⟨hne', hfresh⟩ := A.fresh hfind
    refine ⟨hne', ?_, _, block_put_self .., ?_, ?_, ?_⟩
    · by_cases heq : a₁ = a
      · exact Or.inl heq
      · rw [block_remove_of_ne heq] at hfresh
        exact Or.inr hfresh
    · rw [List.length_append, List.length_take, A.length_junk, Option.getD_some]
      omega
    · rw [Option.getD_some]
      rcases Nat.le_total n old.length with hle | hle
      · rw [Nat.sub_eq_zero_of_le hle, List.length_eq_zero_iff.mp (A.length_junk _ 0),
          List.append_nil, List.take_take, min_eq_right hle]
      · rw [List.take_of_length_le hle, List.take_left]
    · intro c hc hca
      rw [block_put_of_ne hc, block_remove_of_ne (hca.resolve_right hne)]

/-- Without a new block there is no larger one. -/
theorem realloc_eq_none (hrealloc : realloc A h a n = none) : ∃ h, A.find h n = none := by
  unfold realloc malloc at hrealloc
  split_ifs at hrealloc
  · exact ⟨h, Option.map_eq_none_iff.mp hrealloc⟩
  · exact ⟨h.remove a, Option.map_eq_none_iff.mp hrealloc⟩

theorem realloc_bounded {a' : UInt64} (hrealloc : realloc A h a n = some (a', h')) :
    n < 2 ^ 63 := by
  unfold realloc malloc at hrealloc
  split_ifs at hrealloc <;> obtain ⟨_, hfind, -⟩ := Option.map_eq_some_iff.mp hrealloc <;>
    exact A.bounded hfind

end Heap

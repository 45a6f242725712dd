import Mathlib.Data.List.FinRange
import Mathlib.Logic.Function.Basic

/-!
# Arrays of pointers

An array of pointers grows, and loops go through it with a counter of 32 bits, up to a largest index.
A cell that was allocated and not yet written cannot be read. `Holds` says which map an array is;
growing an array and clearing the new cells leaves the map as it is.
-/

/-- The cells of an array. A cell that was written holds a pointer or the null pointer. -/
structure PointerArray (α : Type*) where
  cells : List (Option (Option α))

namespace PointerArray

variable {α ε σ ρ : Type*}

def malloc (n : Nat) : PointerArray α := ⟨List.replicate n none⟩

def calloc (n : Nat) : PointerArray α := ⟨List.replicate n (some none)⟩

def realloc (a : PointerArray α) (n : Nat) : PointerArray α :=
  ⟨a.cells.take n ++ List.replicate (n - a.cells.length) none⟩

/-- The pointer in a cell, which has to be there and to have been written. -/
def load (a : PointerArray α) (i : Nat) : Option (Option α) := a.cells[i]?.join

def store (a : PointerArray α) (i : Nat) (p : Option α) : Option (PointerArray α) :=
  if i < a.cells.length then some ⟨a.cells.set i (some p)⟩ else none

/-- The same with an answer for what is outside the array. -/
def loadCell (outside : ε) (a : PointerArray α) (i : Nat) : Except ε (Option α) :=
  match a.load i with
  | none => .error outside
  | some p => .ok p

def storeCell (outside : ε) (a : PointerArray α) (i : Nat) (p : Option α) :
    Except ε (PointerArray α) :=
  match a.store i p with
  | none => .error outside
  | some a => .ok a

/-! ### Loops with a counter -/

/-- `for (i = ..; i <= last; i++)`, which fails when it goes on for longer than it should. -/
def forUpTo (endless : ε) (body : UInt32 → σ → Except ε σ) (last : Nat) :
    Nat → UInt32 → σ → Except ε σ
  | 0, _, _ => .error endless
  | fuel + 1, i, s =>
      if i.toNat ≤ last then
        match body i s with
        | .error e => .error e
        | .ok s => forUpTo endless body last fuel (i + 1) s
      else .ok s

/-- The same loop, left as soon as its body finds something. -/
def findUpTo (endless : ε) (body : UInt32 → Except ε (Option ρ)) (last : Nat) :
    Nat → UInt32 → Except ε (Option ρ)
  | 0, _ => .error endless
  | fuel + 1, i =>
      if i.toNat ≤ last then
        match body i with
        | .error e => .error e
        | .ok (some r) => .ok (some r)
        | .ok none => findUpTo endless body last fuel (i + 1)
      else .ok none

section Loops

variable {endless : ε} {last : Nat}

theorem toNat_add_one {i : UInt32} (hi : i.toNat + 1 < 4294967296) :
    (i + 1).toNat = i.toNat + 1 := by
  rw [UInt32.toNat_add]
  exact Nat.mod_eq_of_lt hi

theorem toNat_ofNat_of_lt {i : Nat} (hi : i < 4294967296) : (UInt32.ofNat i).toNat = i := by
  rw [UInt32.toNat_ofNat']
  exact Nat.mod_eq_of_lt hi

theorem ofNat_succ (i : Nat) : UInt32.ofNat i + 1 = UInt32.ofNat (i + 1) :=
  (UInt32.ofNat_add i 1).symm

/-- **Invariant rule.** While the counter can pass the last index, the loop ends. -/
theorem forUpTo_rule (body : UInt32 → σ → Except ε σ) (Inv : Nat → σ → Prop)
    (hlast : last + 1 < 4294967296)
    (hbody : ∀ i s, i ≤ last → Inv i s → ∃ s', body (.ofNat i) s = .ok s' ∧ Inv (i + 1) s') :
    ∀ {fuel i : Nat} {s : σ}, i ≤ last + 1 → last + 1 < fuel + i → Inv i s →
      ∃ s', forUpTo endless body last fuel (.ofNat i) s = .ok s' ∧ Inv (last + 1) s' := by
  intro fuel
  induction fuel with
  | zero =>
      intro i s hi hfuel
      omega
  | succ fuel ih =>
      intro i s hi hfuel hinv
      rw [forUpTo, toNat_ofNat_of_lt (by omega)]
      by_cases hle : i ≤ last
      · obtain ⟨s', hok, hinv'⟩ := hbody i s hle hinv
        rw [if_pos hle, hok, ofNat_succ]
        exact ih (by omega) (by omega) hinv'
      · obtain rfl : i = last + 1 := by omega
        rw [if_neg hle]
        exact ⟨s, rfl, hinv⟩

/-- **The loop returns the first thing that is found**, where `Found` says what its body answers. -/
theorem findUpTo_rule (endless : ε) (body : UInt32 → Except ε (Option ρ))
    (Found : Nat → Option ρ → Prop) (hlast : last + 1 < 4294967296)
    (hbody : ∀ i ≤ last, ∃ out, body (.ofNat i) = .ok out ∧ Found i out) :
    ∀ {fuel i : Nat}, i ≤ last + 1 → last + 1 < fuel + i →
      ∃ out, findUpTo endless body last fuel (.ofNat i) = .ok out ∧
        (∀ r, out = some r → ∃ k, i ≤ k ∧ k ≤ last ∧ Found k (some r) ∧
          ∀ j, i ≤ j → j < k → Found j none) ∧
        (out = none → ∀ j, i ≤ j → j ≤ last → Found j none) := by
  intro fuel
  induction fuel with
  | zero =>
      intro i hi hfuel
      omega
  | succ fuel ih =>
      intro i hi hfuel
      rw [findUpTo, toNat_ofNat_of_lt (by omega)]
      by_cases hle : i ≤ last
      · obtain ⟨first, hfirst, hfound⟩ := hbody i hle
        rw [if_pos hle, hfirst]
        cases first with
        | some r =>
            refine ⟨some r, rfl, ?_, nofun⟩
            rintro r' ⟨⟩
            exact ⟨i, Nat.le_refl i, hle, hfound, fun j _ _ => by omega⟩
        | none =>
            have hnext : i + 1 ≤ last + 1 := by omega
            have hfuel' : last + 1 < fuel + (i + 1) := by omega
            obtain ⟨out, hok, hsome, hnone⟩ := ih hnext hfuel'
            refine ⟨out, by rw [ofNat_succ]; exact hok, fun r hr => ?_, fun hout j hj hjl => ?_⟩
            · obtain ⟨k, hik, hkl, hk, hbefore⟩ := hsome r hr
              refine ⟨k, by omega, hkl, hk, fun j hj hjk => ?_⟩
              rcases Nat.eq_or_lt_of_le hj with rfl | hlt
              · exact hfound
              · exact hbefore j hlt hjk
            · rcases Nat.eq_or_lt_of_le hj with rfl | hlt
              · exact hfound
              · exact hnone hout j hlt hjl
      · rw [if_neg hle]
        exact ⟨none, rfl, nofun, fun _ j hj hjl => by omega⟩

end Loops

/-! ### The map that an array is -/

variable {a a' : PointerArray α} {n k i : Nat} {f : Nat → Option α} {p : Option α}

/-- The array has `n` cells, and those below `k` hold what `f` says. -/
structure Written (a : PointerArray α) (n k : Nat) (f : Nat → Option α) : Prop where
  size : a.cells.length = n
  cell : ∀ i < k, a.load i = some (f i)

/-- The array is the map `f`: it has `n` cells, and nothing else is in the map. -/
structure Holds (a : PointerArray α) (n : Nat) (f : Nat → Option α) : Prop where
  written : a.Written n n f
  beyond : ∀ i, n ≤ i → f i = none

theorem Holds.load (h : a.Holds n f) (hi : i < n) : a.load i = some (f i) := h.written.cell i hi

theorem calloc_holds (n : Nat) : (calloc n : PointerArray α).Holds n fun _ => none := by
  refine ⟨⟨List.length_replicate, fun i hi => ?_⟩, fun _ _ => rfl⟩
  rw [PointerArray.load, calloc, List.getElem?_replicate, if_pos hi]
  rfl

/-- Outside an array nothing is stored. -/
theorem storeCell_outside {outside : ε} (h : a.cells.length ≤ i) :
    a.storeCell outside i p = .error outside := by
  rw [PointerArray.storeCell, PointerArray.store, if_neg (Nat.not_lt_of_le h)]

/-- A pointer is stored inside the array. -/
theorem Written.store (h : a.Written n k f) (hi : i < n) :
    ∃ a', a.store i p = some a' ∧ a'.Written n k (Function.update f i p) ∧
      (i = k → a'.Written n (k + 1) (Function.update f i p)) := by
  have hlen : i < a.cells.length := h.size ▸ hi
  have hcell : ∀ j, (⟨a.cells.set i (some p)⟩ : PointerArray α).load j =
      if j = i then some p else a.load j := by
    intro j
    by_cases hj : j = i
    · rw [if_pos hj, hj, PointerArray.load, List.getElem?_set_self hlen]
      rfl
    · rw [if_neg hj, PointerArray.load, PointerArray.load, List.getElem?_set_ne (Ne.symm hj)]
  have hwritten : ∀ j, (j = i ∨ j < k) →
      (⟨a.cells.set i (some p)⟩ : PointerArray α).load j = some (Function.update f i p j) := by
    intro j hj
    rw [hcell]
    by_cases heq : j = i
    · rw [if_pos heq, heq, Function.update_self]
    · rw [if_neg heq, Function.update_of_ne heq, h.cell j (hj.resolve_left heq)]
  have hsize : (a.cells.set i (some p)).length = n := List.length_set.trans h.size
  refine ⟨_, if_pos hlen, ⟨hsize, fun j hj => hwritten j (Or.inr hj)⟩, fun hik => ⟨hsize, ?_⟩⟩
  intro j hj
  apply hwritten j
  omega

theorem Holds.store (h : a.Holds n f) (hi : i < n) :
    ∃ a', a.store i p = some a' ∧ a'.Holds n (Function.update f i p) := by
  obtain ⟨a', hstore, hwritten, -⟩ := h.written.store (p := p) hi
  refine ⟨a', hstore, hwritten, fun j hj => ?_⟩
  rw [Function.update_of_ne (by omega)]
  exact h.beyond j hj

theorem Holds.loadCell {outside : ε} (h : a.Holds n f) (hi : i < n) :
    a.loadCell outside i = .ok (f i) := by
  rw [PointerArray.loadCell, h.load hi]

theorem Holds.storeCell (outside : ε) (h : a.Holds n f) (hi : i < n) :
    ∃ a', a.storeCell outside i p = .ok a' ∧ a'.Holds n (Function.update f i p) := by
  obtain ⟨a', hstore, hholds⟩ := h.store (p := p) hi
  exact ⟨a', by rw [PointerArray.storeCell, hstore], hholds⟩

theorem length_realloc (a : PointerArray α) (n : Nat) : (a.realloc n).cells.length = n := by
  rw [PointerArray.realloc, List.length_append, List.length_take, List.length_replicate]
  omega

/-- What was written stays when an array grows. -/
theorem Written.realloc (h : a.Written n k f) (hk : k ≤ n) {m : Nat} (hm : n ≤ m) :
    (a.realloc m).Written m k f := by
  have hsize := h.size
  refine ⟨length_realloc a m, fun i hi => ?_⟩
  rw [PointerArray.load, PointerArray.realloc, List.take_of_length_le (by omega),
    List.getElem?_append_left (by omega)]
  exact h.cell i hi

/-! ### Clearing -/

/-- `for (i = first; i <= last; i++) a[i] = NULL` -/
def clearUpTo (outside endless : ε) (a : PointerArray α) (first : UInt32) (last : Nat) :
    Except ε (PointerArray α) :=
  forUpTo endless (fun i a => a.storeCell outside i.toNat none) last (last + 2) first a

variable {outside endless : ε} {last : Nat} {first : UInt32}

theorem clearUpTo_of_lt (h : last < first.toNat) :
    a.clearUpTo outside endless first last = .ok a := by
  rw [PointerArray.clearUpTo, forUpTo, if_neg (Nat.not_le_of_lt h)]

/-- The first cell that is cleared is outside the array already. -/
theorem clearUpTo_outside (hfirst : a.cells.length ≤ first.toNat) (hlast : first.toNat ≤ last) :
    a.clearUpTo outside endless first last = .error outside := by
  rw [PointerArray.clearUpTo, forUpTo, if_pos hlast, storeCell_outside hfirst]

/-- Clearing the cells that are not written yet makes the array a map. -/
theorem Written.clearUpTo (h : a.Written (last + 1) k f) (hk : k ≤ last + 1)
    (hlast : last + 1 < 4294967296) (hbeyond : ∀ i, k ≤ i → f i = none) :
    ∃ a', a.clearUpTo outside endless (.ofNat k) last = .ok a' ∧ a'.Holds (last + 1) f := by
  have hbody : ∀ (i : Nat) (a : PointerArray α), i ≤ last → k ≤ i ∧ a.Written (last + 1) i f →
      ∃ a', a.storeCell outside (UInt32.ofNat i).toNat none = .ok a' ∧
        k ≤ i + 1 ∧ a'.Written (last + 1) (i + 1) f := by
    rintro i a hi ⟨hki, hwritten⟩
    obtain ⟨a', hstore, -, hnext⟩ := hwritten.store (p := none) (show i < last + 1 by omega)
    have hsame : Function.update f i none = f := by
      rw [← hbeyond i hki, Function.update_eq_self]
    rw [hsame] at hnext
    rw [storeCell, toNat_ofNat_of_lt (by omega), hstore]
    exact ⟨a', rfl, by omega, hnext rfl⟩
  have hfuel : last + 1 < last + 2 + k := by omega
  obtain ⟨a', hok, -, hwritten⟩ := forUpTo_rule (fun i a => a.storeCell outside i.toNat none)
    (fun i a => k ≤ i ∧ Written a (last + 1) i f) hlast hbody (s := a) hk hfuel ⟨Nat.le_refl k, h⟩
  exact ⟨a', hok, hwritten, fun i hi => hbeyond i (by omega)⟩

/-- **An array grows.** The map stays as it is. -/
theorem Holds.grow (outside endless : ε) (h : a.Holds n f) (hn : n ≤ last + 1)
    (hlast : last + 1 < 4294967296) :
    ∃ a', (a.realloc (last + 1)).clearUpTo outside endless (.ofNat n) last = .ok a' ∧
      a'.Holds (last + 1) f :=
  (h.written.realloc (Nat.le_refl n) hn).clearUpTo hn hlast h.beyond

/-- An array that is allocated and cleared is empty. -/
theorem malloc_clearUpTo (outside endless : ε) (hlast : last + 1 < 4294967296) :
    ∃ a', (malloc (last + 1) : PointerArray α).clearUpTo outside endless 0 last = .ok a' ∧
      a'.Holds (last + 1) fun _ => none := by
  have hmalloc : (malloc (last + 1) : PointerArray α).Written (last + 1) 0 fun _ => none :=
    ⟨List.length_replicate, nofun⟩
  exact hmalloc.clearUpTo (Nat.zero_le _) hlast fun _ _ => rfl

end PointerArray

import Mathlib.Data.List.Nodup
import Mathlib.Logic.Function.Basic

/-!
# Doubly linked lists

Every node has a pointer to the node in front of it and one to the node behind it. `Seg` says which
nodes the pointers visit; unlinking a node and pushing one at an end are what they are on lists.
Several lists may share the pointers as long as no node is in two of them.
-/

namespace LinkedList

variable {α : Type*}

/-- The pointers of all nodes. -/
structure Links (α : Type*) where
  prev : α → Option α
  next : α → Option α

/-- The nodes of a list stand one behind the other, from `before` to `after`. -/
def Seg (L : Links α) : Option α → List α → Option α → Prop
  | _, [], _ => True
  | before, a :: rest, after =>
      L.prev a = before ∧ L.next a = rest.head?.or after ∧ Seg L (some a) rest after

/-- The first node of a list once `a` is unlinked. -/
def Links.firstWithout (L : Links α) (a : α) (first : Option α) : Option α :=
  match L.prev a with
  | some _ => first
  | none => L.next a

/-- The last node of a list once `a` is unlinked. -/
def Links.lastWithout (L : Links α) (a : α) (last : Option α) : Option α :=
  match L.next a with
  | some _ => last
  | none => L.prev a

section Seg

variable {L L' : Links α} {before after : Option α} {l xs ys : List α}

theorem Seg.congr (h : Seg L before l after)
    (hsame : ∀ a ∈ l, L'.prev a = L.prev a ∧ L'.next a = L.next a) : Seg L' before l after := by
  induction l generalizing before with
  | nil => trivial
  | cons a rest ih =>
      rw [List.forall_mem_cons] at hsame
      obtain ⟨hprev, hnext, hrest⟩ := h
      exact ⟨hsame.1.1.trans hprev, hsame.1.2.trans hnext, ih hrest hsame.2⟩

theorem seg_append :
    Seg L before (xs ++ ys) after ↔
      Seg L before xs (ys.head?.or after) ∧ Seg L (xs.getLast?.or before) ys after := by
  induction xs generalizing before with
  | nil => exact Iff.symm (and_iff_right trivial)
  | cons x xs ih =>
      have hhead : (xs ++ ys).head?.or after = xs.head?.or (ys.head?.or after) := by
        rw [List.head?_append, Option.or_assoc]
      have hlast : (x :: xs).getLast?.or before = xs.getLast?.or (some x) := by
        rw [List.getLast?_cons]
        cases xs.getLast? <;> rfl
      rw [List.cons_append, Seg, Seg, ih, hhead, hlast, and_assoc, and_assoc]

/-- The pointers of a node in a list. -/
theorem Seg.neighbours {a : α} (h : Seg L none (xs ++ a :: ys) none) :
    L.prev a = xs.getLast? ∧ L.next a = ys.head? := by
  obtain ⟨-, hprev, hnext, -⟩ := seg_append.mp h
  rw [Option.or_none] at hprev hnext
  exact ⟨hprev, hnext⟩

theorem Seg.firstWithout {a : α} (h : Seg L none (xs ++ a :: ys) none) :
    L.firstWithout a (xs ++ a :: ys).head? = (xs ++ ys).head? := by
  obtain ⟨hprev, hnext⟩ := h.neighbours
  unfold Links.firstWithout
  rw [hprev, hnext]
  cases xs with
  | nil => rfl
  | cons x xs =>
      rw [List.getLast?_cons]
      rfl

theorem Seg.lastWithout {a : α} (h : Seg L none (xs ++ a :: ys) none) :
    L.lastWithout a (xs ++ a :: ys).getLast? = (xs ++ ys).getLast? := by
  obtain ⟨hprev, hnext⟩ := h.neighbours
  unfold Links.lastWithout
  rw [hprev, hnext]
  cases ys with
  | nil => rw [List.head?_nil, List.append_nil]
  | cons y ys =>
      rw [List.head?_cons, List.getLast?_append, List.getLast?_append, List.getLast?_cons_cons]

theorem getLast?_ne_some {c : α} (h : c ∉ xs) : xs.getLast? ≠ some c :=
  fun hc => h (List.mem_of_getLast? hc)

theorem head?_ne_some {c : α} (h : c ∉ xs) : xs.head? ≠ some c :=
  fun hc => h (List.mem_of_mem_head? hc)

end Seg

/-! ### Searching -/

/-- The nodes are visited from `first` on until one meets `p`. Nothing comes of a search that visits
more than `fuel` nodes. -/
def Links.find (L : Links α) (p : α → Bool) : Nat → Option α → Option (Option α)
  | _, none => some none
  | 0, some _ => none
  | fuel + 1, some a => if p a then some (some a) else L.find p fuel (L.next a)

theorem Seg.find {L : Links α} {before : Option α} {l : List α} (h : Seg L before l none)
    (p : α → Bool) {fuel : Nat} (hfuel : l.length ≤ fuel) :
    L.find p fuel l.head? = some (l.find? p) := by
  induction l generalizing before fuel with
  | nil => rw [List.head?_nil, Links.find, List.find?_nil]
  | cons a rest ih =>
      obtain ⟨fuel, rfl⟩ := Nat.exists_eq_add_one_of_ne_zero (Nat.ne_of_gt
        (Nat.lt_of_lt_of_le (Nat.succ_pos rest.length) hfuel))
      obtain ⟨-, hnext, hrest⟩ := h
      rw [Option.or_none] at hnext
      rw [List.head?_cons, Links.find, List.find?_cons]
      by_cases hp : p a
      · rw [if_pos hp, hp]
      · rw [if_neg hp, Bool.eq_false_iff.mpr hp, hnext]
        exact ih hrest (Nat.le_of_succ_le_succ hfuel)

/-! ### Updates -/

variable [DecidableEq α]

/-- The node `a`, when there is one, is followed by `b`. -/
def Links.setNext (L : Links α) (a b : Option α) : Links α :=
  match a with
  | none => L
  | some a => { L with next := Function.update L.next a b }

/-- The node `a`, when there is one, follows `b`. -/
def Links.setPrev (L : Links α) (a b : Option α) : Links α :=
  match a with
  | none => L
  | some a => { L with prev := Function.update L.prev a b }

/-- The neighbours of a node are linked to each other. -/
def Links.unlink (L : Links α) (a : α) : Links α :=
  (L.setNext (L.prev a) (L.next a)).setPrev (L.next a) (L.prev a)

/-- A node gets its neighbours. -/
def Links.place (L : Links α) (a : α) (before after : Option α) : Links α where
  prev := Function.update L.prev a before
  next := Function.update L.next a after

/-- A node is put in front of the first node. -/
def Links.pushFront (L : Links α) (a : α) (first : Option α) : Links α :=
  (L.place a none first).setPrev first (some a)

/-- A node is put behind the last node. -/
def Links.pushBack (L : Links α) (a : α) (last : Option α) : Links α :=
  (L.place a last none).setNext last (some a)

section Update

variable {L : Links α} {before after : Option α} {l : List α}

theorem setNext_of_ne {a b : Option α} {c : α} (h : a ≠ some c) :
    (L.setNext a b).prev c = L.prev c ∧ (L.setNext a b).next c = L.next c := by
  cases a with
  | none => exact ⟨rfl, rfl⟩
  | some a => exact ⟨rfl, Function.update_of_ne (fun hc => h (congrArg some hc.symm)) _ _⟩

theorem setPrev_of_ne {a b : Option α} {c : α} (h : a ≠ some c) :
    (L.setPrev a b).prev c = L.prev c ∧ (L.setPrev a b).next c = L.next c := by
  cases a with
  | none => exact ⟨rfl, rfl⟩
  | some a => exact ⟨Function.update_of_ne (fun hc => h (congrArg some hc.symm)) _ _, rfl⟩

theorem Seg.setNext_of_not_mem {a b : Option α} (h : Seg L before l after)
    (ha : ∀ c ∈ l, a ≠ some c) : Seg (L.setNext a b) before l after :=
  h.congr fun c hc => setNext_of_ne (ha c hc)

theorem Seg.setPrev_of_not_mem {a b : Option α} (h : Seg L before l after)
    (ha : ∀ c ∈ l, a ≠ some c) : Seg (L.setPrev a b) before l after :=
  h.congr fun c hc => setPrev_of_ne (ha c hc)

/-- The last node is followed by something else. -/
theorem Seg.setNext_last (h : Seg L before l after) (hl : l.Nodup) (after' : Option α) :
    Seg (L.setNext l.getLast? after') before l after' := by
  rcases List.eq_nil_or_concat l with rfl | ⟨xs, x, rfl⟩
  · trivial
  · rw [List.concat_eq_append] at h hl ⊢
    rw [List.getLast?_concat]
    have hx : ∀ c ∈ xs, some x ≠ some c := by
      intro c hc heq
      have := (List.nodup_append.mp hl).2.2 c hc x (List.mem_singleton_self x)
      exact this (Option.some.inj heq).symm
    obtain ⟨hxs, hprev, -, -⟩ := seg_append.mp h
    refine seg_append.mpr ⟨Seg.setNext_of_not_mem hxs hx, hprev, ?_, trivial⟩
    exact Function.update_self ..

/-- The first node follows something else. -/
theorem Seg.setPrev_first (h : Seg L before l after) (hl : l.Nodup) (before' : Option α) :
    Seg (L.setPrev l.head? before') before' l after := by
  cases l with
  | nil => trivial
  | cons x xs =>
      have hx : ∀ c ∈ xs, some x ≠ some c := by
        intro c hc heq
        exact (List.nodup_cons.mp hl).1 (Option.some.inj heq ▸ hc)
      obtain ⟨-, hnext, hxs⟩ := h
      exact ⟨Function.update_self .., hnext, Seg.setPrev_of_not_mem hxs hx⟩

end Update

/-! ### Unlinking and pushing -/

section Lists

variable {L : Links α} {a : α} {l xs ys : List α}

/-- **Unlinking.** The pointers visit the other nodes. -/
theorem Seg.unlink (h : Seg L none (xs ++ a :: ys) none) (hl : (xs ++ a :: ys).Nodup) :
    Seg (L.unlink a) none (xs ++ ys) none := by
  obtain ⟨hprev, hnext⟩ := h.neighbours
  obtain ⟨hxs, -, -, hys⟩ := seg_append.mp h
  obtain ⟨hxs', hays, hdisjoint⟩ := List.nodup_append.mp hl
  have hys' := (List.nodup_cons.mp hays).2
  have hne : ∀ c ∈ xs, c ∉ ys := fun c hc hc' =>
    hdisjoint c hc c (List.mem_cons_of_mem _ hc') rfl
  have hne' : ∀ c ∈ ys, c ∉ xs := fun c hc hc' => hne c hc' hc
  unfold Links.unlink
  rw [hprev, hnext]
  refine seg_append.mpr ⟨?_, ?_⟩
  · rw [Option.or_none]
    exact (hxs.setNext_last hxs' _).setPrev_of_not_mem fun c hc => head?_ne_some (hne c hc)
  · rw [Option.or_none]
    exact (hys.setNext_of_not_mem fun c hc => getLast?_ne_some (hne' c hc)).setPrev_first hys' _

/-- Unlinking leaves the other lists alone. -/
theorem Seg.unlink_of_disjoint (h : Seg L none (xs ++ a :: ys) none) (hl : Seg L none l none)
    (hdisjoint : ∀ c ∈ l, c ∉ xs ++ a :: ys) : Seg (L.unlink a) none l none := by
  obtain ⟨hprev, hnext⟩ := h.neighbours
  unfold Links.unlink
  rw [hprev, hnext]
  have hxs : ∀ c ∈ l, c ∉ xs := fun c hc hc' =>
    hdisjoint c hc (List.mem_append_left _ hc')
  have hys : ∀ c ∈ l, c ∉ ys := fun c hc hc' =>
    hdisjoint c hc (List.mem_append_right _ (List.mem_cons_of_mem _ hc'))
  exact (hl.setNext_of_not_mem fun c hc => getLast?_ne_some (hxs c hc)).setPrev_of_not_mem
    fun c hc => head?_ne_some (hys c hc)

theorem Seg.place_of_not_mem {before after b' a' : Option α} (h : Seg L before l after)
    (ha : a ∉ l) : Seg (L.place a b' a') before l after := by
  apply h.congr
  intro c hc
  have hne : c ≠ a := fun heq => ha (heq ▸ hc)
  exact ⟨Function.update_of_ne hne _ _, Function.update_of_ne hne _ _⟩

/-- **Pushing at the front.** -/
theorem Seg.pushFront (h : Seg L none l none) (hl : l.Nodup) (ha : a ∉ l) :
    Seg (L.pushFront a l.head?) none (a :: l) none := by
  have hkeep := setPrev_of_ne (L := L.place a none l.head?) (b := some a) (head?_ne_some ha)
  refine ⟨hkeep.1.trans (Function.update_self ..), ?_, ?_⟩
  · rw [Option.or_none]
    exact hkeep.2.trans (Function.update_self ..)
  · exact (h.place_of_not_mem ha).setPrev_first hl _

/-- **Pushing at the back.** -/
theorem Seg.pushBack (h : Seg L none l none) (hl : l.Nodup) (ha : a ∉ l) :
    Seg (L.pushBack a l.getLast?) none (l ++ [a]) none := by
  have hkeep := setNext_of_ne (L := L.place a l.getLast? none) (b := some a)
    (getLast?_ne_some ha)
  refine seg_append.mpr ⟨?_, ?_, ?_, trivial⟩
  · exact (h.place_of_not_mem ha).setNext_last hl _
  · rw [Option.or_none]
    exact hkeep.1.trans (Function.update_self ..)
  · exact hkeep.2.trans (Function.update_self ..)

/-- Pushing leaves the other lists alone. -/
theorem Seg.pushFront_of_disjoint (h : Seg L none xs none) (ha : a ∉ xs)
    (hdisjoint : ∀ c ∈ xs, c ∉ l) : Seg (L.pushFront a l.head?) none xs none :=
  (h.place_of_not_mem ha).setPrev_of_not_mem fun c hc => head?_ne_some (hdisjoint c hc)

end Lists

end LinkedList

import Mathlib.Algebra.Order.BigOperators.Group.Finset
import Mathlib.Logic.Function.Basic
import Mathlib.Tactic.Ring

/-!
# Linear probing with backward-shift deletion

A table of `n` slots holds entries; every entry has a home slot and sits at the first free slot
found by walking cyclically from there. Deleting an entry leaves a hole, and the walk after it
moves back every later entry whose path from home crosses the hole, until it meets a free slot.

Three things are shown of it. The walk terminates, on a full table too: a move shortens the total
displacement, and at most `n` slots are passed between two moves. Every entry stays reachable from
home without crossing a free slot. And entries with one home keep the order in which they were
inserted, so that probing finds the earliest first.
-/

namespace LinearProbe

/-- Steps from slot `a` forward to slot `b`, around the end of the table. -/
def dist (n a b : Nat) : Nat := if a ≤ b then b - a else n + b - a

section Distance

variable {n a b c : Nat}

@[simp]
theorem dist_self (n a : Nat) : dist n a a = 0 := by simp [dist]

theorem dist_lt (ha : a < n) (hb : b < n) : dist n a b < n := by
  unfold dist
  split <;> omega

theorem eq_of_dist_eq_zero (ha : a < n) (h : dist n a b = 0) : a = b := by
  unfold dist at h
  split at h <;> omega

theorem eq_of_dist_eq (ha : a < n) (hb : b < n) (hc : c < n) (h : dist n a b = dist n a c) :
    b = c := by
  unfold dist at h
  split at h <;> split at h <;> omega

/-- A slot passed on the way splits the way. -/
theorem dist_eq_add_of_le (ha : a < n) (hb : b < n) (hc : c < n)
    (h : dist n a b ≤ dist n a c) : dist n a c = dist n a b + dist n b c := by
  unfold dist at h ⊢
  split_ifs at h ⊢ <;> omega

theorem dist_eq_add_of_lt (ha : a < n) (hb : b < n)
    (h : dist n a b + dist n b c < n) : dist n a c = dist n a b + dist n b c := by
  unfold dist at h ⊢
  split_ifs at h ⊢ <;> omega

/-- The slot after `j`, or `a` itself when the walk from `a` has been all the way around. -/
theorem dist_succ_mod (ha : a < n) (hb : b < n) (hne : (b + 1) % n ≠ a) :
    dist n a ((b + 1) % n) = dist n a b + 1 := by
  rcases Nat.lt_or_ge (b + 1) n with h | h
  · rw [Nat.mod_eq_of_lt h] at hne ⊢
    unfold dist
    split <;> split <;> omega
  · have hend : b + 1 = n := by omega
    rw [hend, Nat.mod_self] at hne ⊢
    unfold dist
    split <;> split <;> omega

theorem dist_of_succ_mod_eq (hb : b < n) (h : (b + 1) % n = a) : dist n a b + 1 = n := by
  rcases Nat.lt_or_ge (b + 1) n with hlt | hge
  · rw [Nat.mod_eq_of_lt hlt] at h
    unfold dist
    split <;> omega
  · have hend : b + 1 = n := by omega
    rw [hend, Nat.mod_self] at h
    unfold dist
    split <;> omega

end Distance

/-! ### Probing -/

/-- Walk from slot `slot`, one slot at a time, to the first that satisfies `hit`; `none` when slot
`stop` is passed before. -/
def probe (n : Nat) (hit : Nat → Bool) (stop : Nat) : Nat → Nat → Option Nat
  | 0, _ => none
  | fuel + 1, slot =>
      if hit slot then some slot
      else if slot = stop then none
      else probe n hit stop fuel (if slot + 1 ≥ n then 0 else slot + 1)

/-- The slot before `slot`, where a walk from `slot` has seen the whole table. -/
def before (n slot : Nat) : Nat := if slot > 0 then slot - 1 else n - 1

theorem probe_spec {n home : Nat} (hit : Nat → Bool) (hhome : home < n) :
    ∀ fuel slot : Nat, slot < n → dist n home slot + fuel = n →
      (∀ q < n, dist n home q < dist n home slot → hit q = false) →
      (∃ t < n, probe n hit (before n home) fuel slot = some t ∧ hit t = true ∧
          ∀ q < n, dist n home q < dist n home t → hit q = false) ∨
        (∀ q < n, hit q = false) := by
  intro fuel
  induction fuel with
  | zero =>
      intro slot hslot hfuel _
      have := dist_lt hhome hslot
      omega
  | succ fuel ih =>
      intro slot hslot hfuel hseen
      cases hhit : hit slot with
      | true => exact Or.inl ⟨slot, hslot, by simp [probe, hhit], hhit, hseen⟩
      | false =>
          have hseen' : ∀ q < n, dist n home q ≤ dist n home slot → hit q = false := by
            intro q hq hle
            rcases Nat.lt_or_eq_of_le hle with hlt | heq
            · exact hseen q hq hlt
            · rw [eq_of_dist_eq hhome hq hslot heq]
              exact hhit
          by_cases hstop : slot = before n home
          · right
            intro q hq
            refine hseen' q hq ?_
            have hlast : dist n home slot + 1 = n := by
              rw [hstop]
              unfold before dist
              split <;> split <;> omega
            have := dist_lt hhome hq
            omega
          · have hnext : (if slot + 1 ≥ n then 0 else slot + 1) = (slot + 1) % n := by
              split
              · rw [show slot + 1 = n by omega, Nat.mod_self]
              · rw [Nat.mod_eq_of_lt (by omega)]
            have hne : (slot + 1) % n ≠ home := by
              intro heq
              apply hstop
              rcases Nat.lt_or_ge (slot + 1) n with hlt | hge
              · rw [Nat.mod_eq_of_lt hlt] at heq
                unfold before
                split <;> omega
              · rw [show slot + 1 = n by omega, Nat.mod_self] at heq
                unfold before
                split <;> omega
            have hdist := dist_succ_mod hhome hslot hne
            have hrest := ih ((slot + 1) % n) (Nat.mod_lt _ (by omega)) (by omega)
              (fun q hq hlt => hseen' q hq (by omega))
            simpa [probe, hhit, hstop, hnext] using hrest

/-- A walk over the whole table finds the first slot that satisfies `hit`, when there is one. -/
theorem exists_probe {n home : Nat} (hit : Nat → Bool) (hhome : home < n)
    (hex : ∃ q < n, hit q = true) :
    ∃ t < n, probe n hit (before n home) n home = some t ∧ hit t = true ∧
      ∀ q < n, dist n home q < dist n home t → hit q = false := by
  rcases probe_spec hit hhome n home hhome (by simp) (by simp) with h | h
  · exact h
  · obtain ⟨q, hq, hhit⟩ := hex
    rw [h q hq] at hhit
    cases hhit

/-! ### Tables -/

variable {α β : Type*}

/-- Every entry is reached from its home slot without crossing a free slot. -/
def Reachable (n : Nat) (home : α → Nat) (table : Nat → Option α) : Prop :=
  ∀ p < n, ∀ e, table p = some e →
    ∀ q < n, dist n (home e) q < dist n (home e) p → table q ≠ none

/-- Of two entries with one home, the one nearer to it has the smaller stamp. -/
def Fifo (n : Nat) (home stamp : α → Nat) (table : Nat → Option α) : Prop :=
  ∀ p < n, ∀ q < n, ∀ e f, table p = some e → table q = some f → home e = home f →
    dist n (home e) p < dist n (home e) q → stamp e < stamp f

theorem Reachable.insert {n : Nat} {home : α → Nat} {table : Nat → Option α} {slot : Nat} {x : α}
    (h : Reachable n home table) (hslot : slot < n)
    (hpath : ∀ q < n, dist n (home x) q < dist n (home x) slot → table q ≠ none) :
    Reachable n home (Function.update table slot (some x)) := by
  intro p hp e he q hq hlt
  by_cases hqs : q = slot
  · simp [hqs]
  rw [Function.update_of_ne hqs]
  by_cases hps : p = slot
  · subst hps
    rw [Function.update_self, Option.some.injEq] at he
    subst he
    exact hpath q hq hlt
  · rw [Function.update_of_ne hps] at he
    exact h p hp e he q hq hlt

/-! ### Sets of entries -/

/-- A search ends at a slot that is filled exactly when the entry is somewhere in the table. -/
theorem Reachable.exists_probe_mem [DecidableEq α] {n : Nat} {home : α → Nat}
    {table : Nat → Option α} {x : α} (h : Reachable n home table) (hhome : home x < n)
    (hfree : ∃ s < n, table s = none) :
    ∃ t < n, probe n (fun s => (table s).isNone || decide (table s = some x))
        (before n (home x)) n (home x) = some t ∧
      ((table t).isSome = true ↔ ∃ p < n, table p = some x) := by
  obtain ⟨s, hs, hnone⟩ := hfree
  obtain ⟨t, ht, hprobe, hhit, hfirst⟩ := exists_probe
    (fun s => (table s).isNone || decide (table s = some x)) hhome ⟨s, hs, by simp [hnone]⟩
  refine ⟨t, ht, hprobe, ?_⟩
  cases hentry : table t with
  | some e =>
      have he : e = x := by simpa [hentry] using hhit
      exact iff_of_true rfl ⟨t, ht, by rw [hentry, he]⟩
  | none =>
      refine iff_of_false Bool.false_ne_true ?_
      rintro ⟨p, hp, hx⟩
      -- the entry would have been met before the free slot
      rcases Nat.lt_trichotomy (dist n (home x) p) (dist n (home x) t) with hlt | heq | hgt
      · have hmiss := hfirst p hp hlt
        simp [hx] at hmiss
      · rw [eq_of_dist_eq hhome hp ht heq, hentry] at hx
        cases hx
      · exact h p hp x hx t ht hgt hentry

/-- The filled slots. -/
def filled (n : Nat) (table : Nat → Option α) : Finset Nat :=
  (Finset.range n).filter fun s => (table s).isSome

theorem exists_free {n : Nat} {table : Nat → Option α} (h : (filled n table).card < n) :
    ∃ s < n, table s = none := by
  by_contra hfull
  have hall : filled n table = Finset.range n := by
    apply Finset.filter_true_of_mem
    intro s hs
    rw [← Option.ne_none_iff_isSome]
    exact fun hnone => hfull ⟨s, Finset.mem_range.mp hs, hnone⟩
  rw [hall, Finset.card_range] at h
  exact Nat.lt_irrefl n h

theorem card_filled_update_le {n slot : Nat} {table : Nat → Option α} (x : α) :
    (filled n (Function.update table slot (some x))).card ≤ (filled n table).card + 1 := by
  have hsub : filled n (Function.update table slot (some x)) ⊆ insert slot (filled n table) := by
    intro s hs
    rw [filled, Finset.mem_filter] at hs
    rw [Finset.mem_insert, filled, Finset.mem_filter]
    by_cases hslot : s = slot
    · exact Or.inl hslot
    · rw [Function.update_of_ne hslot] at hs
      exact Or.inr hs
  exact (Finset.card_le_card hsub).trans (Finset.card_insert_le slot (filled n table))

/-- An entry put into the first free slot comes after all entries that share its home. -/
theorem Fifo.insert {n : Nat} {home stamp : α → Nat} {table : Nat → Option α} {slot : Nat} {x : α}
    (h : Fifo n home stamp table) (hreach : Reachable n home table)
    (hfree : table slot = none)
    (hnew : ∀ p < n, ∀ e, table p = some e → stamp e < stamp x) :
    Fifo n home stamp (Function.update table slot (some x)) := by
  intro p hp q hq e f he hf hhome hlt
  have hne : p ≠ q := by
    rintro rfl
    omega
  by_cases hps : p = slot
  · subst hps
    rw [Function.update_self, Option.some.injEq] at he
    subst he
    rw [Function.update_of_ne hne.symm] at hf
    exact absurd hfree (hreach q hq f hf p hp (by rwa [← hhome]))
  · rw [Function.update_of_ne hps] at he
    by_cases hqs : q = slot
    · subst hqs
      rw [Function.update_self, Option.some.injEq] at hf
      subst hf
      exact hnew p hp e he
    · rw [Function.update_of_ne hqs] at hf
      exact h p hp q hq e f he hf hhome hlt

/-- Taking an entry out keeps the order of the others. -/
theorem Fifo.erase {n : Nat} {home stamp : α → Nat} {table : Nat → Option α}
    (h : Fifo n home stamp table) (slot : Nat) :
    Fifo n home stamp (Function.update table slot none) := by
  have hold : ∀ {p e}, Function.update table slot none p = some e → table p = some e := by
    intro p e hp
    by_cases hps : p = slot
    · simp [hps] at hp
    · rwa [Function.update_of_ne hps] at hp
  exact fun p hp q hq e f he hf => h p hp q hq e f (hold he) (hold hf)

/-! ### Backward-shift deletion -/

/-- The entry at `j` with home `k` has to move back to the hole at `i`: `k` is not cyclically
between the two. -/
def movesBack (i j k : Nat) : Bool :=
  (i < j && (k ≤ i || j < k)) || (j < i && (k ≤ i && j < k))

theorem movesBack_iff {n i j k : Nat} (hi : i < n) (hj : j < n) (hk : k < n) :
    movesBack i j k = true ↔ dist n k i < dist n k j := by
  simp only [movesBack, Bool.or_eq_true, Bool.and_eq_true, decide_eq_true_eq]
  unfold dist
  split <;> split <;> omega

/-- The walk behind a hole at `i`, with the slots up to `j` looked at. `note` records each move:
the entry and the slot it moves to. -/
def shift (n : Nat) (home : α → Nat) (note : β → α → Nat → β) :
    Nat → (Nat → Option α) → β → Nat → Nat → Option ((Nat → Option α) × β)
  | 0, _, _, _, _ => none
  | fuel + 1, table, b, i, j =>
      let j := (j + 1) % n
      match table j with
      | none => some (table, b)
      | some e =>
          if movesBack i j (home e) then
            shift n home note fuel (Function.update (Function.update table i (some e)) j none)
              (note b e i) j j
          else
            shift n home note fuel table b i j

/-- A table with a hole at `i` that only entries beyond slot `j` still cross. -/
structure Hole (n : Nat) (home : α → Nat) (table : Nat → Option α) (i j : Nat) : Prop where
  lt_i : i < n
  lt_j : j < n
  homes : ∀ p < n, ∀ e, table p = some e → home e < n
  free : table i = none
  reach : ∀ p < n, ∀ e, table p = some e →
    ∀ q < n, dist n (home e) q < dist n (home e) p → q ≠ i → table q ≠ none
  clear : ∀ p < n, ∀ e, table p = some e → dist n i p ≤ dist n i j →
    ¬ dist n (home e) i < dist n (home e) p

/-- Taking an entry out of a table makes a hole. -/
theorem Reachable.hole {n : Nat} {home : α → Nat} {table : Nat → Option α} {i : Nat}
    (h : Reachable n home table) (hhomes : ∀ p < n, ∀ e, table p = some e → home e < n)
    (hi : i < n) : Hole n home (Function.update table i none) i i := by
  have hold : ∀ {p e}, Function.update table i none p = some e → p ≠ i ∧ table p = some e := by
    intro p e hp
    by_cases hpi : p = i
    · simp [hpi] at hp
    · exact ⟨hpi, by rwa [Function.update_of_ne hpi] at hp⟩
  refine ⟨hi, hi, fun p hp e he => hhomes p hp e (hold he).2, by simp, ?_, ?_⟩
  · intro p hp e he q hq hlt hqi
    rw [Function.update_of_ne hqi]
    exact h p hp e (hold he).2 q hq hlt
  · intro p hp e he hle
    rw [dist_self, Nat.le_zero] at hle
    exact absurd (eq_of_dist_eq_zero hi hle).symm (hold he).1

section Walk

variable {n : Nat} {home stamp : α → Nat} {table : Nat → Option α} {i j : Nat}

/-- The walk stops at a free slot: no entry crosses the hole any more. -/
theorem Hole.reachable_of_free (h : Hole n home table i j) (hfree : table ((j + 1) % n) = none) :
    Reachable n home table := by
  intro p hp e he q hq hlt
  by_cases hqi : q = i
  swap
  · exact h.reach p hp e he q hq hlt hqi
  exfalso
  subst hqi
  have hhome := h.homes p hp e he
  have hnext : (j + 1) % n < n := Nat.mod_lt _ (by omega)
  by_cases hle : dist n q p ≤ dist n q j
  · exact h.clear p hp e he hle hlt
  by_cases hround : (j + 1) % n = q
  · have := dist_of_succ_mod_eq h.lt_j hround
    have := dist_lt h.lt_i hp
    omega
  · -- the free slot lies on the path between the hole and the entry
    have hstep := dist_succ_mod h.lt_i h.lt_j hround
    have hsplit := dist_eq_add_of_le hhome hq hp (Nat.le_of_lt hlt)
    have hpn : p ≠ (j + 1) % n := by
      rintro rfl
      simp [hfree] at he
    have hbeyond : dist n q ((j + 1) % n) < dist n q p := by
      have : dist n q p ≠ dist n q ((j + 1) % n) :=
        fun heq => hpn (eq_of_dist_eq h.lt_i hp hnext heq)
      omega
    have hlt' := dist_lt hhome hp
    have hpath : dist n (home e) ((j + 1) % n) =
        dist n (home e) q + dist n q ((j + 1) % n) := dist_eq_add_of_lt hhome hq (by omega)
    exact h.reach p hp e he _ hnext (by omega) hround hfree

theorem Hole.skip {e : α} (h : Hole n home table i j) (he : table ((j + 1) % n) = some e)
    (hstay : movesBack i ((j + 1) % n) (home e) = false) :
    Hole n home table i ((j + 1) % n) := by
  have hnext : (j + 1) % n < n := Nat.mod_lt _ (Nat.lt_of_le_of_lt (Nat.zero_le _) h.lt_i)
  have hni : (j + 1) % n ≠ i := by
    intro heq
    rw [heq, h.free] at he
    cases he
  have hstep := dist_succ_mod h.lt_i h.lt_j hni
  refine ⟨h.lt_i, hnext, h.homes, h.free, h.reach, ?_⟩
  intro p hp f hf hle
  rcases Nat.lt_or_eq_of_le hle with hlt | heq
  · exact h.clear p hp f hf (by omega)
  · have hpn := eq_of_dist_eq h.lt_i hp hnext heq
    subst hpn
    rw [he, Option.some.injEq] at hf
    subst hf
    intro hcross
    rw [(movesBack_iff h.lt_i hnext (h.homes _ hnext e he)).mpr hcross] at hstay
    cases hstay

/-- An entry of the table after a move, in the slot it had before. -/
private theorem of_update_update {e f : α} {p k : Nat}
    (hf : Function.update (Function.update table i (some e)) k none p = some f) :
    p ≠ k ∧ (p = i ∧ f = e ∨ p ≠ i ∧ table p = some f) := by
  by_cases hpk : p = k
  · simp [hpk] at hf
  rw [Function.update_of_ne hpk] at hf
  refine ⟨hpk, ?_⟩
  by_cases hpi : p = i
  · rw [hpi, Function.update_self, Option.some.injEq] at hf
    exact Or.inl ⟨hpi, hf.symm⟩
  · rw [Function.update_of_ne hpi] at hf
    exact Or.inr ⟨hpi, hf⟩

theorem Hole.move {e : α} (h : Hole n home table i j) (he : table ((j + 1) % n) = some e)
    (hback : movesBack i ((j + 1) % n) (home e) = true) :
    Hole n home (Function.update (Function.update table i (some e)) ((j + 1) % n) none)
      ((j + 1) % n) ((j + 1) % n) := by
  have hnext : (j + 1) % n < n := Nat.mod_lt _ (Nat.lt_of_le_of_lt (Nat.zero_le _) h.lt_i)
  have hni : (j + 1) % n ≠ i := by
    intro heq
    rw [heq, h.free] at he
    cases he
  have hcross := (movesBack_iff h.lt_i hnext (h.homes _ hnext e he)).mp hback
  refine ⟨hnext, hnext, ?_, by simp, ?_, ?_⟩
  · intro p hp f hf
    rcases (of_update_update hf).2 with ⟨_, rfl⟩ | ⟨_, hf⟩
    · exact h.homes _ hnext f he
    · exact h.homes p hp f hf
  · intro p hp f hf q hq hlt hqn
    rw [Function.update_of_ne hqn]
    by_cases hqi : q = i
    · simp [hqi]
    rw [Function.update_of_ne hqi]
    rcases (of_update_update hf).2 with ⟨rfl, rfl⟩ | ⟨_, hf⟩
    · exact h.reach _ hnext f he q hq (by omega) hqi
    · exact h.reach p hp f hf q hq hlt hqi
  · intro p hp f hf hle
    rw [dist_self, Nat.le_zero] at hle
    exact absurd (eq_of_dist_eq_zero hnext hle).symm (of_update_update hf).1

/-- A move passes no entry with the same home: one in between would have been moved before. -/
theorem Hole.fifo_move {e : α} (h : Hole n home table i j) (hfifo : Fifo n home stamp table)
    (he : table ((j + 1) % n) = some e)
    (hback : movesBack i ((j + 1) % n) (home e) = true) :
    Fifo n home stamp
      (Function.update (Function.update table i (some e)) ((j + 1) % n) none) := by
  have hnext : (j + 1) % n < n := Nat.mod_lt _ (Nat.lt_of_le_of_lt (Nat.zero_le _) h.lt_i)
  have hni : (j + 1) % n ≠ i := by
    intro heq
    rw [heq, h.free] at he
    cases he
  have hhome := h.homes _ hnext e he
  have hcross := (movesBack_iff h.lt_i hnext hhome).mp hback
  have hstep := dist_succ_mod h.lt_i h.lt_j hni
  -- an entry between the hole and the moved one would cross the hole itself
  have hbetween : ∀ q < n, ∀ f, table q = some f → q ≠ (j + 1) % n → home f = home e →
      dist n (home e) i < dist n (home e) q → dist n (home e) ((j + 1) % n) < dist n (home e) q := by
    intro q hq f hf hqn hhf hlt
    by_contra hge
    have hiq := dist_eq_add_of_le hhome h.lt_i hq (Nat.le_of_lt hlt)
    have hin := dist_eq_add_of_le hhome h.lt_i hnext (Nat.le_of_lt hcross)
    have hneq : dist n i q ≠ dist n i ((j + 1) % n) :=
      fun heq => hqn (eq_of_dist_eq h.lt_i hq hnext heq)
    exact h.clear q hq f hf (by omega) (by rwa [hhf])
  intro p hp q hq f g hf hg hhome' hlt
  obtain ⟨-, hf'⟩ := of_update_update hf
  obtain ⟨hqn, hg'⟩ := of_update_update hg
  clear hf hg
  rcases hf' with ⟨rfl, rfl⟩ | ⟨-, hf⟩
  · rcases hg' with ⟨rfl, rfl⟩ | ⟨-, hg⟩
    · omega
    · exact hfifo _ hnext q hq f g he hg hhome'
        (hbetween q hq g hg hqn hhome'.symm hlt)
  · rcases hg' with ⟨rfl, rfl⟩ | ⟨-, hg⟩
    · exact hfifo p hp _ hnext f g hf he hhome' (by rw [hhome'] at hlt ⊢; omega)
    · exact hfifo p hp q hq f g hf hg hhome' hlt

end Walk

/-! ### Termination -/

/-- How far all entries together are from home. -/
def displacement (n : Nat) (home : α → Nat) (table : Nat → Option α) : Nat :=
  ∑ p ∈ Finset.range n, ((table p).map fun e => dist n (home e) p).getD 0

theorem displacement_le {n : Nat} {home : α → Nat} {table : Nat → Option α}
    (hhomes : ∀ p < n, ∀ e, table p = some e → home e < n) :
    displacement n home table ≤ n * n := by
  have hterm : ∀ p ∈ Finset.range n, ((table p).map fun e => dist n (home e) p).getD 0 ≤ n := by
    intro p hp
    rw [Finset.mem_range] at hp
    cases he : table p with
    | none => simp
    | some e => simpa using Nat.le_of_lt (dist_lt (hhomes p hp e he) hp)
  calc displacement n home table ≤ ∑ _p ∈ Finset.range n, n := Finset.sum_le_sum hterm
    _ = n * n := by simp

theorem displacement_move {n : Nat} {home : α → Nat} {table : Nat → Option α} {i k : Nat} {e : α}
    (hi : i < n) (hk : k < n) (hne : k ≠ i) (hfree : table i = none) (he : table k = some e)
    (hlt : dist n (home e) i < dist n (home e) k) :
    displacement n home (Function.update (Function.update table i (some e)) k none) <
      displacement n home table := by
  unfold displacement
  have hik : i ∈ (Finset.range n).erase k := by simp [hi, hne.symm]
  have hk' : k ∈ Finset.range n := by simpa using hk
  rw [← Finset.add_sum_erase _ _ hk', ← Finset.add_sum_erase _ _ hik,
    ← Finset.add_sum_erase (Finset.range n) _ hk',
    ← Finset.add_sum_erase ((Finset.range n).erase k) _ hik]
  have hrest : ∀ p ∈ ((Finset.range n).erase k).erase i,
      ((Function.update (Function.update table i (some e)) k none p).map
        fun e => dist n (home e) p).getD 0 = ((table p).map fun e => dist n (home e) p).getD 0 := by
    intro p hp
    simp only [Finset.mem_erase] at hp
    rw [Function.update_of_ne hp.2.1, Function.update_of_ne hp.1]
  rw [Finset.sum_congr rfl hrest]
  simp only [Function.update_self, Function.update_of_ne hne.symm, hfree, he, Option.map_none,
    Option.map_some, Option.getD_none, Option.getD_some]
  omega

/-- **Deletion.** The walk behind a hole ends, leaves every entry reachable and in order, and keeps
whatever holds of table and record and survives a move. -/
theorem shift_spec {n : Nat} {home stamp : α → Nat} (note : β → α → Nat → β)
    {Q : (Nat → Option α) → β → Prop}
    (hQ : ∀ table b i k e, i < n → k < n → k ≠ i → table i = none → table k = some e → Q table b →
      Q (Function.update (Function.update table i (some e)) k none) (note b e i)) :
    ∀ {fuel : Nat} {table : Nat → Option α} {b : β} {i j : Nat},
      Hole n home table i j → Fifo n home stamp table → Q table b →
      displacement n home table * n + (n - dist n i j) ≤ fuel →
      ∃ table' b', shift n home note fuel table b i j = some (table', b') ∧
        (∀ p < n, ∀ e, table' p = some e → home e < n) ∧
        Reachable n home table' ∧ Fifo n home stamp table' ∧ Q table' b' := by
  intro fuel
  induction fuel with
  | zero =>
      intro table b i j hhole _ _ hfuel
      have := dist_lt hhole.lt_i hhole.lt_j
      omega
  | succ fuel ih =>
      intro table b i j hhole hfifo hq hfuel
      have hnext : (j + 1) % n < n :=
        Nat.mod_lt _ (Nat.lt_of_le_of_lt (Nat.zero_le _) hhole.lt_i)
      cases he : table ((j + 1) % n) with
      | none =>
          exact ⟨table, b, by simp [shift, he], hhole.homes, hhole.reachable_of_free he, hfifo, hq⟩
      | some e =>
          have hni : (j + 1) % n ≠ i := by
            intro heq
            rw [heq, hhole.free] at he
            cases he
          have hstep := dist_succ_mod hhole.lt_i hhole.lt_j hni
          have hhome := hhole.homes _ hnext e he
          cases hback : movesBack i ((j + 1) % n) (home e) with
          | false =>
              have hlt := dist_lt hhole.lt_i hnext
              simpa [shift, he, hback] using
                ih (hhole.skip he hback) hfifo hq (by omega)
          | true =>
              have hcross := (movesBack_iff hhole.lt_i hnext hhome).mp hback
              have hless := displacement_move hhole.lt_i hnext hni hhole.free he hcross
              have hmul := Nat.mul_le_mul_right n (Nat.succ_le_of_lt hless)
              rw [Nat.succ_mul] at hmul
              have hlt := dist_lt hhole.lt_i hhole.lt_j
              simpa [shift, he, hback] using
                ih (hhole.move he hback) (hhole.fifo_move hfifo he hback)
                  (hQ table b i _ e hhole.lt_i hnext hni hhole.free he hq)
                  (by rw [dist_self]; omega)

end LinearProbe

import Mathlib
import Nmsg.Lib.StepRun

/-!
# Threads that share a state

The threads of a system take turns in any order. A turn changes the thread that takes it and what
all threads share; besides, something outside may change the shared part. The rules below are for
what holds of each thread by itself, for locks, for counters that threads add to, and for the end of
all threads under schedules that leave none out.
-/

namespace Interleave

variable {ε σ τ ι κ : Type*}

structure System (σ τ : Type*) where
  shared : σ
  threads : List τ

/-- Whose turn it is, and what the turn meets with. -/
inductive Event (ι κ : Type*) where
  | thread (t : Nat) (i : ι)
  | outside (k : κ)

/-- A turn of a thread that is not there changes nothing. -/
def turn (step : Nat → ι → τ → σ → Except ε (τ × σ)) (interfere : κ → σ → σ) (s : System σ τ) :
    Event ι κ → Except ε (Unit × System σ τ)
  | .outside k => .ok ((), { s with shared := interfere k s.shared })
  | .thread t i =>
      match s.threads[t]? with
      | none => .ok ((), s)
      | some w =>
          match step t i w s.shared with
          | .error e => .error e
          | .ok (w', shared) => .ok ((), ⟨shared, s.threads.set t w'⟩)

section Turns

variable {step : Nat → ι → τ → σ → Except ε (τ × σ)} {interfere : κ → σ → σ}

theorem turn_thread_eq_ok {s s' : System σ τ} {t : Nat} {i : ι}
    (h : turn step interfere s (.thread t i) = .ok ((), s')) :
    s.threads[t]? = none ∧ s' = s ∨
      ∃ w w' shared, s.threads[t]? = some w ∧ step t i w s.shared = .ok (w', shared) ∧
        s' = ⟨shared, s.threads.set t w'⟩ := by
  unfold turn at h
  cases hw : s.threads[t]? with
  | none =>
      simp only [hw, Except.ok.injEq, Prod.mk.injEq] at h
      exact Or.inl ⟨rfl, h.2.symm⟩
  | some w =>
      simp only [hw] at h
      cases hok : step t i w s.shared with
      | error e => simp [hok] at h
      | ok out =>
          simp only [hok, Except.ok.injEq, Prod.mk.injEq] at h
          exact Or.inr ⟨w, out.1, out.2, rfl, hok, h.2.symm⟩

theorem threads_set_cases {threads : List τ} {t u : Nat} {w v : τ}
    (h : (threads.set t w)[u]? = some v) :
    u = t ∧ v = w ∨ u ≠ t ∧ threads[u]? = some v := by
  by_cases hut : u = t
  · subst hut
    have hlt : u < threads.length := by
      have := (List.getElem?_eq_some_iff.mp h).1
      rwa [List.length_set] at this
    rw [List.getElem?_set_self hlt, Option.some.injEq] at h
    exact Or.inl ⟨rfl, h.symm⟩
  · rw [List.getElem?_set_ne (Ne.symm hut)] at h
    exact Or.inr ⟨hut, h⟩

theorem threads_set_self {threads : List τ} {t : Nat} {w w' : τ} (h : threads[t]? = some w) :
    (threads.set t w')[t]? = some w' :=
  List.getElem?_set_self (List.getElem?_eq_some_iff.mp h).1

theorem threads_set_same {threads : List τ} {t : Nat} {w : τ} (h : threads[t]? = some w) :
    threads.set t w = threads := by
  obtain ⟨ht, rfl⟩ := List.getElem?_eq_some_iff.mp h
  exact List.set_getElem_self ht

/-- What holds of a thread and of what it shares. -/
def Each (L : Nat → τ → σ → Prop) (s : System σ τ) : Prop :=
  ∀ t w, s.threads[t]? = some w → L t w s.shared

/-- **Rule for threads.** What a thread keeps of itself and no other thread disturbs is kept. -/
theorem Each.set {L : Nat → τ → σ → Prop} {s : System σ τ} {t : Nat} {w' : τ} {shared : σ}
    (h : Each L s) (hown : L t w' shared)
    (hothers : ∀ u v, u ≠ t → s.threads[u]? = some v → L u v s.shared → L u v shared) :
    Each L ⟨shared, s.threads.set t w'⟩ := by
  intro u v hv
  rcases threads_set_cases hv with ⟨rfl, rfl⟩ | ⟨hut, hv⟩
  · exact hown
  · exact hothers u v hut hv (h u v hv)

end Turns

section Locks

variable {inside : τ → Prop} {threads : List τ} {t u : Nat} {w w' v : τ} {lock : Option Nat}

/-- A lock is held by the thread that is inside of what it guards. -/
def Held (inside : τ → Prop) (lock : Option Nat) (threads : List τ) : Prop :=
  ∀ t, lock = some t ↔ ∃ w, threads[t]? = some w ∧ inside w

theorem Held.exclusive (h : Held inside lock threads) (hw : threads[t]? = some w) (hin : inside w)
    (hv : threads[u]? = some v) (hin' : inside v) : t = u := by
  have ht := (h t).mpr ⟨w, hw, hin⟩
  have hu := (h u).mpr ⟨v, hv, hin'⟩
  exact Option.some.inj (ht.symm.trans hu)

theorem Held.keep (h : Held inside lock threads) (hw : threads[t]? = some w)
    (hsame : inside w' ↔ inside w) : Held inside lock (threads.set t w') := by
  intro u
  rw [h u]
  constructor
  · rintro ⟨v, hv, hin⟩
    by_cases hut : u = t
    · subst hut
      rw [hw, Option.some.injEq] at hv
      subst hv
      exact ⟨w', threads_set_self hw, hsame.mpr hin⟩
    · exact ⟨v, by rw [List.getElem?_set_ne (Ne.symm hut)]; exact hv, hin⟩
  · rintro ⟨v, hv, hin⟩
    rcases threads_set_cases hv with ⟨rfl, rfl⟩ | ⟨hut, hv⟩
    · exact ⟨w, hw, hsame.mp hin⟩
    · exact ⟨v, hv, hin⟩

theorem Held.acquire (h : Held inside none threads) (hw : threads[t]? = some w)
    (hin : inside w') : Held inside (some t) (threads.set t w') := by
  intro u
  constructor
  · intro hu
    rw [← Option.some.inj hu]
    exact ⟨w', threads_set_self hw, hin⟩
  · rintro ⟨v, hv, hin'⟩
    rcases threads_set_cases hv with ⟨rfl, -⟩ | ⟨-, hv⟩
    · rfl
    · exact absurd ((h u).mpr ⟨v, hv, hin'⟩) (Option.some_ne_none u).symm

theorem Held.release (h : Held inside lock threads) (hw : threads[t]? = some w) (hin : inside w)
    (hout : ¬ inside w') : Held inside none (threads.set t w') := by
  intro u
  constructor
  · intro hu
    exact absurd hu (Option.some_ne_none u).symm
  · rintro ⟨v, hv, hin'⟩
    rcases threads_set_cases hv with ⟨rfl, rfl⟩ | ⟨hut, hv⟩
    · exact absurd hin' hout
    · exact absurd (h.exclusive hv hin' hw hin) hut

end Locks

/-- A turn changes what the threads add up to by what it changes of its own thread. -/
theorem sum_map_set {f : τ → Nat} {threads : List τ} {t : Nat} {w w' : τ}
    (h : threads[t]? = some w) :
    ((threads.set t w').map f).sum + f w = (threads.map f).sum + f w' := by
  induction threads generalizing t with
  | nil => simp at h
  | cons v rest ih =>
      cases t with
      | zero =>
          rw [List.getElem?_cons_zero, Option.some.injEq] at h
          subst h
          simp only [List.set_cons_zero, List.map_cons, List.sum_cons]
          omega
      | succ t =>
          rw [List.getElem?_cons_succ] at h
          have := ih h
          simp only [List.set_cons_succ, List.map_cons, List.sum_cons]
          omega

section Schedules

open StepRun

variable {ς : Type*} {next : ς → Event ι κ → Except ε (Unit × ς)} {n : Nat}

/-- A part of a schedule in which every one of `n` threads has a turn. -/
def Pass (n : Nat) (events : List (Event ι κ)) : Prop := ∀ t < n, ∃ i, Event.thread t i ∈ events

variable {Inv Done : ς → Prop} {P : Event ι κ → Prop} {work : ς → Nat}

theorem work_run_le
    (hstep : ∀ s e s', Inv s → P e → next s e = .ok ((), s') → Inv s' ∧ (s' = s ∨ work s' < work s))
    {s s' : ς} {events : List (Event ι κ)} {answers : List Unit} (hinv : Inv s)
    (hevents : ∀ e ∈ events, P e) (hrun : run next s events = .ok (answers, s')) :
    Inv s' ∧ (s' = s ∨ work s' < work s) := by
  induction events generalizing s answers with
  | nil =>
      simp only [run_nil, Except.ok.injEq, Prod.mk.injEq] at hrun
      exact ⟨hrun.2 ▸ hinv, Or.inl hrun.2.symm⟩
  | cons e rest ih =>
      obtain ⟨_, m, answers', hok, hrest, rfl⟩ := run_cons_eq_ok.mp hrun
      obtain ⟨hinv', hwork⟩ := hstep s e m hinv (hevents e (List.mem_cons_self ..)) hok
      obtain ⟨hlast, hwork'⟩ := ih hinv' (fun e he => hevents e (List.mem_cons_of_mem _ he)) hrest
      refine ⟨hlast, ?_⟩
      rcases hwork with rfl | hlt
      · exact hwork'
      · rcases hwork' with rfl | hlt'
        · exact Or.inr hlt
        · exact Or.inr (Nat.lt_trans hlt' hlt)

theorem done_of_done
    (hstep : ∀ s e s', Inv s → P e → next s e = .ok ((), s') → Inv s' ∧ (s' = s ∨ work s' < work s))
    (hdone : ∀ s e s', Inv s → Done s → next s e = .ok ((), s') → Done s')
    {s s' : ς} {events : List (Event ι κ)} {answers : List Unit} (hinv : Inv s) (h : Done s)
    (hevents : ∀ e ∈ events, P e) (hrun : run next s events = .ok (answers, s')) :
    Inv s' ∧ Done s' := by
  induction events generalizing s answers with
  | nil =>
      simp only [run_nil, Except.ok.injEq, Prod.mk.injEq] at hrun
      exact hrun.2 ▸ ⟨hinv, h⟩
  | cons e rest ih =>
      obtain ⟨_, m, answers', hok, hrest, rfl⟩ := run_cons_eq_ok.mp hrun
      obtain ⟨hinv', -⟩ := hstep s e m hinv (hevents e (List.mem_cons_self ..)) hok
      exact ih hinv' (hdone s e m hinv h hok) (fun e he => hevents e (List.mem_cons_of_mem _ he))
        hrest

/-- As long as something is left to do, a pass does some of it: the thread that could go on goes on
when its turn comes, unless another one did something before. -/
theorem work_pass_lt
    (hstep : ∀ s e s', Inv s → P e → next s e = .ok ((), s') → Inv s' ∧ (s' = s ∨ work s' < work s))
    (hprogress : ∀ s, Inv s → ¬ Done s →
      ∃ t < n, ∀ i s', next s (.thread t i) = .ok ((), s') → s' ≠ s)
    {s s' : ς} {events : List (Event ι κ)} {answers : List Unit} (hinv : Inv s) (hnot : ¬ Done s)
    (hevents : ∀ e ∈ events, P e) (hpass : Pass n events)
    (hrun : run next s events = .ok (answers, s')) : work s' < work s := by
  obtain ⟨t, ht, hmoves⟩ := hprogress s hinv hnot
  obtain ⟨i, hmem⟩ := hpass t ht
  obtain ⟨front, back, rfl⟩ := List.append_of_mem hmem
  have hfronts : ∀ e ∈ front, P e := fun e he => hevents e (List.mem_append_left _ he)
  have hbacks : ∀ e ∈ back, P e := fun e he =>
    hevents e (List.mem_append_right _ (List.mem_cons_of_mem _ he))
  obtain ⟨m, as, bs, hfront, hback, -⟩ := run_append_eq_ok.mp hrun
  obtain ⟨_, m', cs, hok, hlast, -⟩ := run_cons_eq_ok.mp hback
  obtain ⟨hinv', hwork⟩ := work_run_le hstep hinv hfronts hfront
  obtain ⟨hinv'', hturn⟩ := hstep m _ m' hinv' (hevents _ hmem) hok
  obtain ⟨-, hrest⟩ := work_run_le hstep hinv'' hbacks hlast
  have hlt : work m' < work s := by
    rcases hwork with rfl | hlt
    · rcases hturn with rfl | hlt
      · exact absurd rfl (hmoves i m' hok)
      · exact hlt
    · rcases hturn with rfl | hlt'
      · exact hlt
      · exact Nat.lt_trans hlt' hlt
  rcases hrest with rfl | hlt'
  · exact hlt
  · exact Nat.lt_trans hlt' hlt

/-- **Rule for the end.** After as many passes as there is work, nothing is left to do. -/
theorem done_of_passes (Done : ς → Prop) (n : Nat)
    (hstep : ∀ s e s', Inv s → P e → next s e = .ok ((), s') → Inv s' ∧ (s' = s ∨ work s' < work s))
    (hprogress : ∀ s, Inv s → ¬ Done s →
      ∃ t < n, ∀ i s', next s (.thread t i) = .ok ((), s') → s' ≠ s)
    (hdone : ∀ s e s', Inv s → Done s → next s e = .ok ((), s') → Done s')
    {s s' : ς} {passes : List (List (Event ι κ))} {answers : List Unit} (hinv : Inv s)
    (hevents : ∀ p ∈ passes, ∀ e ∈ p, P e) (hpasses : ∀ p ∈ passes, Pass n p)
    (hlen : work s < passes.length) (hrun : run next s passes.flatten = .ok (answers, s')) :
    Done s' := by
  induction passes generalizing s answers with
  | nil => exact absurd hlen (Nat.not_lt_zero _)
  | cons p rest ih =>
      rw [List.flatten_cons] at hrun
      obtain ⟨m, as, bs, hfirst, hrest, -⟩ := run_append_eq_ok.mp hrun
      have hp := hevents p (List.mem_cons_self ..)
      have hrests : ∀ q ∈ rest, ∀ e ∈ q, P e := fun q hq => hevents q (List.mem_cons_of_mem _ hq)
      obtain ⟨hinv', -⟩ := work_run_le hstep hinv hp hfirst
      by_cases hnot : Done s
      · refine (done_of_done hstep hdone hinv hnot ?_ (run_append hfirst hrest)).2
        intro e he
        rcases List.mem_append.mp he with he | he
        · exact hp e he
        · obtain ⟨q, hq, he⟩ := List.mem_flatten.mp he
          exact hrests q hq e he
      · have hlt := work_pass_lt hstep hprogress hinv hnot hp (hpasses p (List.mem_cons_self ..))
          hfirst
        rw [List.length_cons] at hlen
        exact ih hinv' hrests (fun q hq => hpasses q (List.mem_cons_of_mem _ hq)) (by omega) hrest

end Schedules

end Interleave

import Mathlib.Algebra.Group.Action.Defs
import Mathlib.Algebra.Order.BigOperators.Group.List
import Nmsg.Proof.IoDelivery
import Nmsg.Proof.IoLocks

/-!
# How the threads of an `nmsg_io` come to their end

No thread ever follows a null pointer, and no two threads are at one output at the same time where
there is a `close_fp`. There is always a thread that can go on, and once `stop` is set no thread takes
another message and all of them come to their end.
-/

namespace Nmsg

open Interleave

variable {M : Type*} {io : Io} {dup : M → M} {n t : Nat} {env : IoRound M}
  {w w' : IoWorker M} {s s' : IoShared M}

/-- The outputs that a thread is about to turn to. -/
def IoPc.places : IoPc M → List Nat
  | .lockOutput todo => todo.map Prod.fst
  | .write j _ todo => j :: todo.map Prod.fst
  | .unlockOutput _ j _ todo => j :: todo.map Prod.fst
  | .loadCount j todo => j :: todo.map Prod.fst
  | .storeCount _ j todo => j :: todo.map Prod.fst
  | .lockIo todo => todo.map Prod.fst
  | .loadTotal todo => todo.map Prod.fst
  | .storeTotal _ todo => todo.map Prod.fst
  | .unlockIo todo => todo.map Prod.fst
  | _ => []

/-- The pointers that a thread follows lead to outputs, and what was read is a message. -/
structure InRange (n : Nat) (w : IoWorker M) : Prop where
  turn : w.pc.ended = false → w.ioOutput < n
  places : ∀ j ∈ w.pc.places, j < n
  few : w.pc.places.length ≤ n
  message : w.pc ≠ .received .success none

theorem targets_lt {mode : IoOutputMode} {i : Nat} (hi : i < n) (msg : M) :
    ∀ j ∈ (targets mode dup n i msg).map Prod.fst, j < n := by
  intro j hj
  cases mode with
  | stripe =>
      rw [targets, List.map_singleton, List.mem_singleton] at hj
      exact hj ▸ hi
  | mirror =>
      rw [targets, List.map_map] at hj
      obtain ⟨k, hk, rfl⟩ := List.mem_map.mp hj
      exact List.mem_range.mp hk

theorem length_targets_le {mode : IoOutputMode} {i : Nat} (hi : i < n) (msg : M) :
    ((targets mode dup n i msg).map Prod.fst).length ≤ n := by
  cases mode with
  | stripe => exact Nat.lt_of_le_of_lt (Nat.zero_le i) hi
  | mirror =>
      rw [targets, List.length_map, List.length_map, List.length_range]

/-- A turn that goes on to outputs of before. -/
theorem InRange.move {pc : IoPc M} (hw : InRange n w) (hpc : w.pc = pc)
    (hturn : w'.pc.ended = false → pc.ended = false ∧ w'.ioOutput = w.ioOutput)
    (hplaces : w'.pc.places <:+ pc.places) (hmessage : w'.pc ≠ .received .success none) :
    InRange n w' where
  turn := by
    intro hended
    obtain ⟨hended', hio⟩ := hturn hended
    rw [hio]
    exact hw.turn (hpc ▸ hended')
  places := fun j hj => hw.places j (hpc ▸ hplaces.subset hj)
  few := hplaces.length_le.trans (hpc ▸ hw.few)
  message := hmessage

theorem IoPc.Checks.inRange {pc : IoPc M} (h : w.pc.Checks pc) (hw : InRange n w) :
    InRange n { w with pc := pc } := by
  refine hw.move rfl (fun _ => ⟨h.same.2.2.1, rfl⟩) ?_ ?_
  · generalize w.pc = old at h
    cases h <;> exact List.nil_suffix
  · rintro rfl
    generalize w.pc = old at h
    cases h

theorem Turned.inRange (h : Turned io dup t env w s w' s') (hw : InRange n w)
    (hn : s.outputs.length = n) (henv : env.read = .success → env.msg ≠ none) : InRange n w' := by
  cases h with
  | stay => exact hw
  | read hpc =>
      refine hw.move hpc (fun _ => ⟨rfl, rfl⟩) List.nil_suffix ?_
      intro hreceived
      rw [IoPc.received.injEq] at hreceived
      exact henv hreceived.1 hreceived.2
  | take msg hpc =>
      have hturn := hw.turn (by rw [hpc]; rfl)
      rw [hn]
      exact ⟨fun _ => hturn, targets_lt hturn msg, length_targets_le hturn msg, by rintro ⟨⟩⟩
  | check pc hpc => exact hpc.inRange hw
  | close pc type f hpc => exact hpc.inRange hw
  | nextOutput hpc =>
      refine ⟨fun _ => ?_, by rintro _ ⟨⟩, Nat.zero_le n, by rintro ⟨⟩⟩
      have := hw.turn (by rw [hpc]; rfl)
      simp only
      split <;> omega
  | stop => exact ⟨by rintro ⟨⟩, by rintro _ ⟨⟩, Nat.zero_le n, by rintro ⟨⟩⟩
  | finish res res' msg hpc => exact hw.move hpc (by rintro ⟨⟩) List.nil_suffix (by rintro ⟨⟩)
  | giveUp res j msg todo hpc => exact hw.move hpc (by rintro ⟨⟩) List.nil_suffix (by rintro ⟨⟩)
  | storeCount count j todo hpc =>
      exact hw.move hpc (fun _ => ⟨rfl, rfl⟩) (List.suffix_cons ..) (by rintro ⟨⟩)
  | again msg hpc => exact hw.move hpc (fun _ => ⟨rfl, rfl⟩) List.nil_suffix (by rintro ⟨⟩)
  | sent hpc => exact hw.move hpc (fun _ => ⟨rfl, rfl⟩) List.nil_suffix (by rintro ⟨⟩)
  | lockOutput j msg todo hpc =>
      exact hw.move hpc (fun _ => ⟨rfl, rfl⟩) (List.suffix_refl _) (by rintro ⟨⟩)
  | passOutput j msg todo hpc =>
      exact hw.move hpc (fun _ => ⟨rfl, rfl⟩) (List.suffix_refl _) (by rintro ⟨⟩)
  | refuse res j msg todo hpc =>
      exact hw.move hpc (fun _ => ⟨rfl, rfl⟩) (List.suffix_refl _) (by rintro ⟨⟩)
  | write out j msg todo hpc =>
      exact hw.move hpc (fun _ => ⟨rfl, rfl⟩) (List.suffix_refl _) (by rintro ⟨⟩)
  | unlockOutput j msg todo hpc =>
      exact hw.move hpc (fun _ => ⟨rfl, rfl⟩) (List.suffix_refl _) (by rintro ⟨⟩)
  | loadCount out j todo hpc =>
      exact hw.move hpc (fun _ => ⟨rfl, rfl⟩) (List.suffix_refl _) (by rintro ⟨⟩)
  | lockIo todo hpc => exact hw.move hpc (fun _ => ⟨rfl, rfl⟩) (List.suffix_refl _) (by rintro ⟨⟩)
  | loadTotal todo hpc =>
      exact hw.move hpc (fun _ => ⟨rfl, rfl⟩) (List.suffix_refl _) (by rintro ⟨⟩)
  | storeTotal total todo hpc =>
      exact hw.move hpc (fun _ => ⟨rfl, rfl⟩) (List.suffix_refl _) (by rintro ⟨⟩)
  | unlockIo todo hpc =>
      exact hw.move hpc (fun _ => ⟨rfl, rfl⟩) (List.suffix_refl _) (by rintro ⟨⟩)
  | lockClose wrote hpc => exact hw.move hpc (fun _ => ⟨rfl, rfl⟩) List.nil_suffix (by rintro ⟨⟩)
  | passClose wrote hpc => exact hw.move hpc (fun _ => ⟨rfl, rfl⟩) List.nil_suffix (by rintro ⟨⟩)
  | setStop wrote hpc => exact hw.move hpc (fun _ => ⟨rfl, rfl⟩) List.nil_suffix (by rintro ⟨⟩)
  | unlockClose wrote hpc => exact hw.move hpc (fun _ => ⟨rfl, rfl⟩) List.nil_suffix (by rintro ⟨⟩)
  | goOn hpc => exact hw.move hpc (fun _ => ⟨rfl, rfl⟩) List.nil_suffix (by rintro ⟨⟩)
  | retry hpc => exact hw.move hpc (fun _ => ⟨rfl, rfl⟩) List.nil_suffix (by rintro ⟨⟩)

/-- Without a `close_fp` no output is ever closed. -/
theorem Turned.opened (h : Turned io dup t env w s w' s') (hclose : io.closeFp = false)
    (hopen : ∀ out ∈ s.outputs, out.isOpen = true) : ∀ out ∈ s'.outputs, out.isOpen = true := by
  cases h with
  | storeCount count j todo hpc =>
      intro out hout
      obtain ⟨i, hi, rfl⟩ := List.getElem_of_mem hout
      rw [List.length_modify] at hi
      have := hopen s.outputs[i] (List.getElem_mem hi)
      rw [List.getElem_modify]
      split <;> exact this
  | close pc type f hpc hfp =>
      rw [hclose] at hfp
      cases hfp
  | giveUp => split <;> exact hopen
  | unlockOutput => split <;> exact hopen
  | unlockClose => split <;> exact hopen
  | _ => exact hopen

theorem turnWrite_ok {out : IoOutput} {j : Nat} {msg : M} {todo : List (Nat × M)}
    (hout : s.outputs[j]? = some out) (hopen : io.closeFp = false → out.isOpen = true) :
    ∃ w' s', turnWrite io t env j msg todo w s = .ok (w', s') := by
  simp only [turnWrite, hout]
  split
  · split
    · exact ⟨_, _, rfl⟩
    · simp_all
  · split <;> exact ⟨_, _, rfl⟩

/-- A turn goes wrong nowhere. -/
theorem ioTurn_ok (dup : M → M) (t : Nat) (env : IoRound M) (hw : InRange n w) (hn : s.outputs.length = n)
    (hopen : io.closeFp = false → ∀ out ∈ s.outputs, out.isOpen = true) :
    ∃ w' s', ioTurn io dup t env w s = .ok (w', s') := by
  have hplace : ∀ j < n, ∃ out, s.outputs[j]? = some out := fun j hj =>
    ⟨_, List.getElem?_eq_getElem (hn ▸ hj)⟩
  cases hpc : w.pc with
  | received res msg =>
      simp only [ioTurn, hpc]
      split
      · exact ⟨_, _, rfl⟩
      · split
        · exact ⟨_, _, rfl⟩
        · split
          · exact ⟨_, _, rfl⟩
          · have hres : res = .success := by simpa using ‹¬ res ≠ .success›
            cases msg with
            | none => exact absurd (hres ▸ hpc) hw.message
            | some msg => exact ⟨_, _, rfl⟩
  | lockOutput todo =>
      cases todo with
      | nil => exact ⟨_, _, by rw [ioTurn, hpc]⟩
      | cons first todo =>
          simp only [ioTurn, hpc]
          split
          · split <;> exact ⟨_, _, rfl⟩
          · exact ⟨_, _, rfl⟩
  | write j msg todo =>
      obtain ⟨out, hout⟩ := hplace j (hw.places j (by rw [hpc]; exact List.mem_cons_self ..))
      simp only [ioTurn, hpc]
      exact turnWrite_ok hout fun hclose => hopen hclose out (List.mem_of_getElem? hout)
  | unlockOutput res j msg todo =>
      simp only [ioTurn, hpc]
      split <;> exact ⟨_, _, rfl⟩
  | loadCount j todo =>
      obtain ⟨out, hout⟩ := hplace j (hw.places j (by rw [hpc]; exact List.mem_cons_self ..))
      simp only [ioTurn, hpc, hout]
      exact ⟨_, _, rfl⟩
  | lockIo todo =>
      simp only [ioTurn, hpc]
      split <;> exact ⟨_, _, rfl⟩
  | lockClose wrote =>
      simp only [ioTurn, hpc]
      split
      · split <;> exact ⟨_, _, rfl⟩
      · exact ⟨_, _, rfl⟩
  | countCheck wrote =>
      obtain ⟨out, hout⟩ := hplace w.ioOutput (hw.turn (by rw [hpc]; rfl))
      simp only [ioTurn, hpc, turnCountCheck, hout]
      split
      · exact ⟨_, _, rfl⟩
      · split <;> exact ⟨_, _, rfl⟩
  | intervalCheck wrote =>
      obtain ⟨out, hout⟩ := hplace w.ioOutput (hw.turn (by rw [hpc]; rfl))
      simp only [ioTurn, hpc, turnIntervalCheck, hout]
      split <;> exact ⟨_, _, rfl⟩
  | _ => exact ⟨_, _, by rw [ioTurn, hpc]⟩

/-- What keeps the threads from going wrong. -/
structure IoSound (io : Io) (n : Nat) (s : IoSystem M) : Prop where
  locked : IoLocked io s
  outputs : s.shared.outputs.length = n
  opened : io.closeFp = false → ∀ out ∈ s.shared.outputs, out.isOpen = true
  range : Each (fun _ w _ => InRange n w) s

theorem IoSound.start (io : Io) (inputs : Nat) (lasts : List Int) :
    IoSound io lasts.length (IoSystem.start inputs lasts : IoSystem M) where
  locked := .start io inputs lasts
  outputs := List.length_map _
  opened := by
    intro _ out hout
    obtain ⟨last, -, rfl⟩ := List.mem_map.mp hout
    rfl
  range := by
    intro t w hw
    rw [List.eq_of_mem_replicate (List.mem_of_getElem? hw)]
    unfold IoWorker.start
    split
    · exact ⟨by rintro ⟨⟩, by rintro _ ⟨⟩, Nat.zero_le _, by rintro ⟨⟩⟩
    · exact ⟨fun _ => Nat.pos_of_ne_zero ‹_›, by rintro _ ⟨⟩, Nat.zero_le _, by rintro ⟨⟩⟩

theorem IoSound.turned {s : IoSystem M} {shared : IoShared M} (h : IoSound io n s)
    (henv : env.read = .success → env.msg ≠ none) (hw : s.threads[t]? = some w)
    (hturn : Turned io dup t env w s.shared w' shared) :
    IoSound io n ⟨shared, s.threads.set t w'⟩ where
  locked := h.locked.turned hw hturn
  outputs := hturn.length_outputs.trans h.outputs
  opened := fun hclose => hturn.opened hclose (h.opened hclose)
  range := h.range.set (hturn.inRange (h.range t w hw) h.outputs henv) fun _ _ _ _ hv => hv

theorem IoSound.breakloop {s : IoSystem M} (h : IoSound io n s) :
    IoSound io n ⟨{ s.shared with stop := true }, s.threads⟩ :=
  ⟨⟨h.locked.output, h.locked.io⟩, h.outputs, h.opened, h.range⟩

/-- Whatever comes next, the system takes it. -/
theorem IoSound.step (dup : M → M) {s : IoSystem M} (h : IoSound io n s) (e : IoEvent M)
    (he : ∀ t env, e = .thread t env → env.read = .success → env.msg ≠ none) :
    ∃ s', ioStep io dup s e = .ok ((), s') ∧ IoSound io n s' := by
  cases e with
  | outside k => exact ⟨_, rfl, h.breakloop⟩
  | thread t env =>
      cases hw : s.threads[t]? with
      | none => exact ⟨s, by simp only [ioStep, turn, hw], h⟩
      | some w =>
          obtain ⟨w', shared, hok⟩ := ioTurn_ok dup t env
            (h.range t w hw) h.outputs h.opened
          refine ⟨⟨shared, s.threads.set t w'⟩, by simp only [ioStep, turn, hw, hok], ?_⟩
          exact h.turned (he t env rfl) hw (ioTurn_turned hok)

theorem IoSound.run (dup : M → M) {s : IoSystem M} (h : IoSound io n s) {events : List (IoEvent M)}
    (hevents : ∀ t env, .thread t env ∈ events → env.read = .success → env.msg ≠ none) :
    ∃ answers s', StepRun.run (ioStep io dup) s events = .ok (answers, s') ∧ IoSound io n s' := by
  let P : IoEvent M → Prop := fun e =>
    ∀ t env, e = .thread t env → env.read = .success → env.msg ≠ none
  have hstep : ∀ s e, IoSound io n s → P e →
      ∃ r s', ioStep io dup s e = .ok (r, s') ∧ True ∧ IoSound io n s' := by
    intro s e h he
    obtain ⟨s', hok, h'⟩ := h.step dup e he
    exact ⟨(), s', hok, trivial, h'⟩
  have hinputs : ∀ e ∈ events, P e := fun e he t env heq => hevents t env (heq ▸ he)
  obtain ⟨answers, s', hrun, hsound, -⟩ :=
    StepRun.answers_of_invariant (IoSound io n) (fun _ => True) hstep h hinputs
  exact ⟨answers, s', hrun, hsound⟩

/-! ### Progress -/

/-- A thread that does not stay goes somewhere else. -/
theorem Turned.pc_ne (h : Turned io dup t env w s w' s') (hmoves : ¬ Stays io w s) :
    w'.pc ≠ w.pc := by
  cases h with
  | stay h => exact absurd h hmoves
  | check pc hpc =>
      generalize w.pc = old at hpc
      cases hpc <;> rintro ⟨⟩
  | close pc type f hpc =>
      generalize w.pc = old at hpc
      cases hpc <;> rintro ⟨⟩
  | stop wrote hpc => rcases hpc with hpc | hpc <;> rw [hpc] <;> rintro ⟨⟩
  | _ =>
      simp only [ne_eq, *]
      rintro ⟨⟩

/-- Whoever holds a lock does not wait. -/
theorem IoWorker.moves_of_holds {j : Nat} (h : w.holds = some j) : ¬ Stays io w s := by
  rintro (⟨u, i, msg, todo, hpc, -, -⟩ | ⟨u, wrote, hpc, -, -⟩ | ⟨u, todo, hpc, -⟩ | ⟨todo, hpc⟩) <;>
    simp [IoWorker.holds, hpc] at h

theorem IoWorker.moves_of_holdsIo (h : w.holdsIo) : ¬ Stays io w s := by
  rintro (⟨u, i, msg, todo, hpc, -, -⟩ | ⟨u, wrote, hpc, -, -⟩ | ⟨u, todo, hpc, -⟩ | ⟨todo, hpc⟩) <;>
    simp [IoWorker.holdsIo, hpc] at h

/-- As long as a thread has not ended, one can go on: whoever holds a lock, or else anyone. -/
theorem IoLocked.exists_moves {s : IoSystem M} (h : IoLocked io s) {v : IoWorker M}
    (hv : v ∈ s.threads) (hended : v.pc.ended = false) :
    ∃ (t : Nat) (w : IoWorker M), s.threads[t]? = some w ∧ ¬ Stays io w s.shared := by
  cases hio : s.shared.ioLock with
  | some t =>
      obtain ⟨w, hw, hin⟩ := (h.io t).mp hio
      exact ⟨t, w, hw, w.moves_of_holdsIo hin⟩
  | none =>
      by_cases hfree : ∃ j t, io.closeFp = true ∧ s.shared.outputLock j = some t
      · obtain ⟨j, t, hclose, hlock⟩ := hfree
        obtain ⟨w, hw, hin⟩ := (h.output hclose j t).mp hlock
        exact ⟨t, w, hw, w.moves_of_holds hin⟩
      · obtain ⟨t, ht, rfl⟩ := List.getElem_of_mem hv
        refine ⟨t, _, List.getElem?_eq_getElem ht, ?_⟩
        rintro (⟨u, j, msg, todo, -, hclose, hlock⟩ | ⟨u, wrote, -, hclose, hlock⟩ |
          ⟨u, todo, -, hlock⟩ | ⟨todo, hpc⟩)
        · exact hfree ⟨j, u, hclose, hlock⟩
        · exact hfree ⟨_, u, hclose, hlock⟩
        · rw [hio] at hlock
          cases hlock
        · rw [hpc] at hended
          cases hended

theorem ioStep_ne_self {s s' : IoSystem M} (hw : s.threads[t]? = some w)
    (hmoves : ¬ Stays io w s.shared) (hok : ioStep io dup s (.thread t env) = .ok ((), s')) :
    s' ≠ s := by
  rcases turn_thread_eq_ok hok with ⟨hnone, -⟩ | ⟨v, w', shared, hv, hturned, rfl⟩
  · rw [hnone] at hw
    cases hw
  · rw [hw, Option.some.injEq] at hv
    subst hv
    intro hsame
    have hself := @threads_set_self _ _ _ _ w' hw
    have hthreads : s.threads.set t w' = s.threads := congrArg System.threads hsame
    rw [hthreads, hw, Option.some.injEq] at hself
    exact (ioTurn_turned hturned).pc_ne hmoves (congrArg IoWorker.pc hself.symm)

/-- **Safety.** No run goes wrong, whatever the order of the turns and whatever the outputs and the
`close_fp` do. No two threads are between locking and unlocking the `nmsg_io`, nor, if there is a
`close_fp`, one output, and as long as a thread has not ended there is one that can go on. -/
theorem io_safe (io : Io) (dup : M → M) (inputs : Nat) (lasts : List Int)
    (events : List (IoEvent M))
    (hevents : ∀ t env, .thread t env ∈ events → env.read = .success → env.msg ≠ none) :
    ∃ answers s, StepRun.run (ioStep io dup) (IoSystem.start inputs lasts) events =
        .ok (answers, s) ∧
      (∀ (t u : Nat) (w v : IoWorker M), s.threads[t]? = some w → s.threads[u]? = some v →
        (w.holdsIo → v.holdsIo → t = u) ∧
          (io.closeFp = true → ∀ j, w.holds = some j → v.holds = some j → t = u)) ∧
      ((∃ w ∈ s.threads, w.pc.ended = false) →
        ∃ t, ∀ env s', ioStep io dup s (.thread t env) = .ok ((), s') → s' ≠ s) := by
  obtain ⟨answers, s, hrun, hsound⟩ := (IoSound.start io inputs lasts).run dup hevents
  refine ⟨answers, s, hrun, fun t u w v hw hv => ⟨?_, ?_⟩, ?_⟩
  · exact fun hin hin' => hsound.locked.io.exclusive hw hin hv hin'
  · exact fun hclose j hin hin' => (hsound.locked.output hclose j).exclusive hw hin hv hin'
  · rintro ⟨v, hv, hended⟩
    obtain ⟨t, w, hw, hmoves⟩ := hsound.locked.exists_moves hv hended
    exact ⟨t, fun env s' hok => ioStep_ne_self hw hmoves hok⟩

theorem io_safe_two :
    ∃ answers s, StepRun.run (ioStep ⟨2, 0, .mirror, true⟩ id) (IoSystem.start 2 [0, 0])
        [.thread 0 (.delivering 7), .outside (), .thread 1 (.delivering 9)] = .ok (answers, s) ∧
      ((∃ w ∈ s.threads, w.pc.ended = false) → ∃ t, ∀ env s',
        ioStep ⟨2, 0, .mirror, true⟩ id s (.thread t env) = .ok ((), s') → s' ≠ s) := by
  obtain ⟨answers, s, hrun, -, hlive⟩ := io_safe ⟨2, 0, .mirror, true⟩ id 2 [0, 0]
    [.thread 0 (.delivering 7), .outside (), .thread 1 (.delivering 9)] (by
      intro t env hmem _
      simp only [List.mem_cons, Event.thread.injEq, reduceCtorEq, List.not_mem_nil, or_false,
        false_or] at hmem
      rcases hmem with ⟨-, rfl⟩ | ⟨-, rfl⟩ <;> exact Option.some_ne_none _)
  exact ⟨answers, s, hrun, hlive⟩

/-! ### The end -/

/-- Turns that a thread still takes when `stop` is set. -/
def IoPc.remaining : IoPc M → Nat
  | .read => 2
  | .received _ _ => 1
  | .lockOutput todo => 9 * todo.length + 7
  | .write _ _ todo => 9 * todo.length + 15
  | .unlockOutput _ _ _ todo => 9 * todo.length + 14
  | .loadCount _ todo => 9 * todo.length + 13
  | .storeCount _ _ todo => 9 * todo.length + 12
  | .lockIo todo => 9 * todo.length + 11
  | .loadTotal todo => 9 * todo.length + 10
  | .storeTotal _ todo => 9 * todo.length + 9
  | .unlockIo todo => 9 * todo.length + 8
  | .lockClose _ => 6
  | .countCheck _ => 5
  | .intervalCheck _ => 4
  | .setStop _ => 3
  | .unlockClose _ => 2
  | .testStop _ => 1
  | .nextOutput => 1
  | .done _ => 0

theorem IoPc.remaining_le (pc : IoPc M) : pc.remaining ≤ 9 * pc.places.length + 16 := by
  cases pc <;> simp only [IoPc.remaining, IoPc.places, List.length_cons, List.length_map,
    List.length_nil] <;> omega

theorem IoPc.Checks.remaining_lt {pc pc' : IoPc M} (h : pc.Checks pc') :
    pc'.remaining < pc.remaining := by
  cases h <;> simp only [IoPc.remaining] <;> omega

/-- Once `stop` is set a turn brings its thread nearer to its end, takes no message and leaves `stop`
set. -/
theorem Turned.nearer (h : Turned io dup t env w s w' s') (hstop : s.stop = true) :
    (w' = w ∧ s' = s ∨ w'.pc.remaining < w.pc.remaining) ∧ w'.taken = w.taken ∧ s'.stop = true := by
  cases h with
  | stay => exact ⟨Or.inl ⟨rfl, rfl⟩, rfl, hstop⟩
  | again msg hpc hgo => rw [hstop] at hgo; cases hgo
  | take msg hpc hgo => rw [hstop] at hgo; cases hgo
  | goOn hpc hgo => rw [hstop] at hgo; cases hgo
  | retry hpc hgo => rw [hstop] at hgo; cases hgo
  | nextOutput hpc hgo => rw [hstop] at hgo; cases hgo
  | check pc hpc => exact ⟨Or.inr hpc.remaining_lt, rfl, hstop⟩
  | close pc type f hpc => exact ⟨Or.inr hpc.remaining_lt, rfl, hstop⟩
  | setStop wrote hpc => exact ⟨Or.inr (by rw [hpc]; exact Nat.lt_succ_self _), rfl, rfl⟩
  | stop wrote hpc =>
      refine ⟨Or.inr ?_, rfl, hstop⟩
      rcases hpc with hpc | hpc <;> rw [hpc] <;> exact Nat.one_pos
  | giveUp res j msg todo hpc =>
      refine ⟨Or.inr (by rw [hpc]; exact Nat.succ_pos _), rfl, ?_⟩
      split <;> exact hstop
  | unlockOutput j msg todo hpc =>
      refine ⟨Or.inr (by rw [hpc]; exact Nat.lt_succ_self _), rfl, ?_⟩
      split <;> exact hstop
  | unlockClose wrote hpc =>
      refine ⟨Or.inr (by rw [hpc]; exact Nat.lt_succ_self _), rfl, ?_⟩
      split <;> exact hstop
  | _ =>
      refine ⟨Or.inr ?_, rfl, hstop⟩
      simp only [IoPc.remaining, List.length_cons, List.length_nil, *]
      omega

/-- Turns that are left to all threads. -/
def ioWork (s : IoSystem M) : Nat := (s.threads.map fun w => w.pc.remaining).sum

theorem ioWork_le {s : IoSystem M} (h : IoSound io n s) :
    ioWork s ≤ s.threads.length * (9 * n + 16) := by
  have hsum := List.sum_le_card_nsmul (s.threads.map fun w => w.pc.remaining) (9 * n + 16) ?_
  · rwa [List.length_map, smul_eq_mul] at hsum
  intro x hx
  obtain ⟨w, hw, rfl⟩ := List.mem_map.mp hx
  obtain ⟨t, ht, rfl⟩ := List.getElem_of_mem hw
  have hrange := (h.range t _ (List.getElem?_eq_getElem ht)).few
  have := (s.threads[t]).pc.remaining_le
  omega

/-- What holds of a system that is to stop. -/
structure IoStopping (io : Io) (n : Nat) (taken : List (List M)) (s : IoSystem M) : Prop where
  sound : IoSound io n s
  stop : s.shared.stop = true
  taken : s.threads.map IoWorker.taken = taken

theorem IoStopping.step {s s' : IoSystem M} {taken : List (List M)} {e : IoEvent M}
    (h : IoStopping io n taken s)
    (he : ∀ t env, e = .thread t env → env.read = .success → env.msg ≠ none)
    (hok : ioStep io dup s e = .ok ((), s')) :
    IoStopping io n taken s' ∧ (s' = s ∨ ioWork s' < ioWork s) := by
  cases e with
  | outside k =>
      cases hok
      refine ⟨⟨h.sound.breakloop, rfl, h.taken⟩, Or.inl ?_⟩
      have hstop := h.stop
      cases s with
      | mk shared threads =>
          cases shared
          simp_all [nmsgIoBreakloop]
  | thread t env =>
      rcases turn_thread_eq_ok hok with ⟨-, rfl⟩ | ⟨w, w', shared, hw, hturned, rfl⟩
      · exact ⟨h, Or.inl rfl⟩
      · have hturn := ioTurn_turned hturned
        obtain ⟨hnearer, htaken, hstop⟩ := hturn.nearer h.stop
        refine ⟨⟨h.sound.turned (he t env rfl) hw hturn, hstop, ?_⟩, ?_⟩
        · rw [← h.taken, List.map_set, htaken]
          exact threads_set_same (by rw [List.getElem?_map, hw]; rfl)
        · rcases hnearer with ⟨rfl, rfl⟩ | hlt
          · left
            rw [threads_set_same hw]
          · right
            have := @sum_map_set _ (fun w : IoWorker M => w.pc.remaining) _ _ _ w' hw
            simp only [ioWork]
            omega

theorem IoStopping.ended {s s' : IoSystem M} {taken : List (List M)} {e : IoEvent M}
    (h : IoStopping io n taken s) (hended : ∀ w ∈ s.threads, w.pc.ended = true)
    (hok : ioStep io dup s e = .ok ((), s')) : ∀ w ∈ s'.threads, w.pc.ended = true := by
  cases e with
  | outside k =>
      cases hok
      exact hended
  | thread t env =>
      rcases turn_thread_eq_ok hok with ⟨-, rfl⟩ | ⟨w, w', shared, hw, hturned, rfl⟩
      · exact hended
      · have hdone := hended w (List.mem_of_getElem? hw)
        have hsame : w' = w := by
          cases hpc : w.pc with
          | done todo =>
              simp only [ioTurn, hpc, Except.ok.injEq, Prod.mk.injEq] at hturned
              exact hturned.1.symm
          | _ => rw [hpc] at hdone; cases hdone
        rw [hsame, threads_set_same hw]
        exact hended

end Nmsg

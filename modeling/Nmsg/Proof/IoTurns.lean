import Nmsg.IoThreads

/-!
# What a turn of an input thread does

`Turned` lists the turns with what each needs and what it changes. Everything else about the threads
of an `nmsg_io` is read off this list.
-/

namespace Nmsg

open Interleave

variable {M : Type*}

/-- Places in `check_close_event` that a thread may go to without touching what is shared. -/
inductive IoPc.Checks : IoPc M → IoPc M → Prop
  | count (wrote : Bool) : Checks (.countCheck wrote) (.intervalCheck wrote)
  | gone (wrote : Bool) : Checks (.countCheck wrote) (.unlockClose wrote)
  | interval (wrote : Bool) : Checks (.intervalCheck wrote) (.unlockClose wrote)
  | countStop (wrote : Bool) : Checks (.countCheck wrote) (.setStop wrote)
  | intervalStop (wrote : Bool) : Checks (.intervalCheck wrote) (.setStop wrote)

/-- The thread waits for a lock that is taken, or has ended. -/
inductive Stays (io : Io) (w : IoWorker M) (s : IoShared M) : Prop
  | output (u j : Nat) (msg : M) (todo : List (Nat × M)) (hpc : w.pc = .lockOutput ((j, msg) :: todo))
      (hclose : io.closeFp = true) (hlock : s.outputLock j = some u)
  | close (u : Nat) (wrote : Bool) (hpc : w.pc = .lockClose wrote) (hclose : io.closeFp = true)
      (hlock : s.outputLock w.ioOutput = some u)
  | io (u : Nat) (todo : List (Nat × M)) (hpc : w.pc = .lockIo todo) (hlock : s.ioLock = some u)
  | ended (todo : List (Nat × M)) (hpc : w.pc = .done todo)

/-- The turns of thread `t`. -/
inductive Turned (io : Io) (dup : M → M) (t : Nat) (env : IoRound M) (w : IoWorker M)
    (s : IoShared M) : IoWorker M → IoShared M → Prop
  | stay (h : Stays io w s) : Turned io dup t env w s w s
  | read (hpc : w.pc = .read) :
      Turned io dup t env w s { w with pc := .received env.read env.msg, now := env.now } s
  | finish (res res' : Res) (msg : Option M) (hpc : w.pc = .received res msg) :
      Turned io dup t env w s { w with pc := .done [], res := res' } s
  | again (msg : Option M) (hpc : w.pc = .received .again msg) (hstop : s.stop = false) :
      Turned io dup t env w s { w with pc := .lockClose false } s
  | take (msg : M) (hpc : w.pc = .received .success (some msg)) (hstop : s.stop = false) :
      Turned io dup t env w s { w with
        pc := .lockOutput (targets io.outputMode dup s.outputs.length w.ioOutput msg)
        taken := w.taken ++ [msg] } s
  | sent (hpc : w.pc = .lockOutput []) : Turned io dup t env w s { w with pc := .lockClose true } s
  | lockOutput (j : Nat) (msg : M) (todo : List (Nat × M))
      (hpc : w.pc = .lockOutput ((j, msg) :: todo)) (hclose : io.closeFp = true)
      (hlock : s.outputLock j = none) :
      Turned io dup t env w s { w with pc := .write j msg todo }
        { s with outputLock := Function.update s.outputLock j (some t) }
  | passOutput (j : Nat) (msg : M) (todo : List (Nat × M))
      (hpc : w.pc = .lockOutput ((j, msg) :: todo)) (hclose : io.closeFp = false) :
      Turned io dup t env w s { w with pc := .write j msg todo } s
  | refuse (res : Res) (j : Nat) (msg : M) (todo : List (Nat × M)) (hpc : w.pc = .write j msg todo)
      (hres : res ≠ .success) :
      Turned io dup t env w s { w with pc := .unlockOutput res j msg todo } s
  | write (out : IoOutput) (j : Nat) (msg : M) (todo : List (Nat × M))
      (hpc : w.pc = .write j msg todo) (hout : s.outputs[j]? = some out) (hopen : out.isOpen = true) :
      Turned io dup t env w s { w with pc := .unlockOutput .success j msg todo }
        { s with log := s.log ++ [(t, .wrote j msg)] }
  | giveUp (res : Res) (j : Nat) (msg : M) (todo : List (Nat × M))
      (hpc : w.pc = .unlockOutput res j msg todo) (hres : res ≠ .success) :
      Turned io dup t env w s { w with pc := .done ((j, msg) :: todo), res := res }
        (if io.closeFp then { s with outputLock := Function.update s.outputLock j none } else s)
  | unlockOutput (j : Nat) (msg : M) (todo : List (Nat × M))
      (hpc : w.pc = .unlockOutput .success j msg todo) :
      Turned io dup t env w s { w with pc := .loadCount j todo }
        (if io.closeFp then { s with outputLock := Function.update s.outputLock j none } else s)
  | loadCount (out : IoOutput) (j : Nat) (todo : List (Nat × M)) (hpc : w.pc = .loadCount j todo)
      (hout : s.outputs[j]? = some out) :
      Turned io dup t env w s { w with pc := .storeCount out.countNmsgPayloadOut j todo } s
  | storeCount (count j : Nat) (todo : List (Nat × M)) (hpc : w.pc = .storeCount count j todo) :
      Turned io dup t env w s { w with pc := .lockIo todo } { s with
        outputs := s.outputs.modify j fun out => { out with countNmsgPayloadOut := count + 1 } }
  | lockIo (todo : List (Nat × M)) (hpc : w.pc = .lockIo todo) (hlock : s.ioLock = none) :
      Turned io dup t env w s { w with pc := .loadTotal todo } { s with ioLock := some t }
  | loadTotal (todo : List (Nat × M)) (hpc : w.pc = .loadTotal todo) :
      Turned io dup t env w s { w with pc := .storeTotal s.countNmsgPayloadOut todo } s
  | storeTotal (total : Nat) (todo : List (Nat × M)) (hpc : w.pc = .storeTotal total todo) :
      Turned io dup t env w s { w with pc := .unlockIo todo } { s with countNmsgPayloadOut := total + 1 }
  | unlockIo (todo : List (Nat × M)) (hpc : w.pc = .unlockIo todo) :
      Turned io dup t env w s { w with pc := .lockOutput todo } { s with ioLock := none }
  | lockClose (wrote : Bool) (hpc : w.pc = .lockClose wrote) (hclose : io.closeFp = true)
      (hlock : s.outputLock w.ioOutput = none) :
      Turned io dup t env w s { w with pc := .countCheck wrote }
        { s with outputLock := Function.update s.outputLock w.ioOutput (some t) }
  | passClose (wrote : Bool) (hpc : w.pc = .lockClose wrote) (hclose : io.closeFp = false) :
      Turned io dup t env w s { w with pc := .countCheck wrote } s
  | check (pc : IoPc M) (hpc : w.pc.Checks pc) : Turned io dup t env w s { w with pc := pc } s
  | close (pc : IoPc M) (type : IoCloseType) (f : IoOutput → IoOutput) (hpc : w.pc.Checks pc)
      (hclose : io.closeFp = true)
      (hf : ∀ out, (f out).countNmsgPayloadOut = out.countNmsgPayloadOut) :
      Turned io dup t env w s { w with pc := pc } { s with
        outputs := s.outputs.modify w.ioOutput f
        log := s.log ++ [(t, .closed w.ioOutput type)] }
  | setStop (wrote : Bool) (hpc : w.pc = .setStop wrote) :
      Turned io dup t env w s { w with pc := .unlockClose wrote } { s with stop := true }
  | unlockClose (wrote : Bool) (hpc : w.pc = .unlockClose wrote) :
      Turned io dup t env w s { w with pc := .testStop wrote }
        (if io.closeFp then { s with outputLock := Function.update s.outputLock w.ioOutput none }
          else s)
  | stop (wrote : Bool) (hpc : w.pc = .testStop wrote ∨ w.pc = .nextOutput) (ioOutput : Nat)
      (hstop : s.stop = true) :
      Turned io dup t env w s { w with pc := .done [], ioOutput := ioOutput } s
  | goOn (hpc : w.pc = .testStop true) (hstop : s.stop = false) :
      Turned io dup t env w s { w with pc := .nextOutput } s
  | retry (hpc : w.pc = .testStop false) (hstop : s.stop = false) :
      Turned io dup t env w s { w with pc := .read } s
  | nextOutput (hpc : w.pc = .nextOutput) (hstop : s.stop = false) :
      Turned io dup t env w s { w with
        pc := .read
        ioOutput := if w.ioOutput + 1 < s.outputs.length then w.ioOutput + 1 else 0 } s

variable {io : Io} {dup : M → M} {t : Nat} {env : IoRound M} {w w' : IoWorker M}
  {s s' : IoShared M}

theorem turnWrite_turned {j : Nat} {msg : M} {todo : List (Nat × M)} (hpc : w.pc = .write j msg todo)
    (h : turnWrite io t env j msg todo w s = .ok (w', s')) : Turned io dup t env w s w' s' := by
  unfold turnWrite at h
  cases hout : s.outputs[j]? with
  | none => simp [hout] at h
  | some out =>
      simp only [hout] at h
      split at h
      · split at h
        · cases h
          exact .refuse .stop j msg todo hpc (by decide)
        · cases h
      · split at h
        · cases h
          exact .refuse (env.write j) j msg todo hpc ‹_›
        · cases h
          exact .write out j msg todo hpc hout (by simpa using ‹¬ out.isOpen = false›)

theorem turnClose_turned {type : IoCloseType} {next : IoPc M} {wrote : Bool} {f : IoOutput → IoOutput}
    {s₁ : IoShared M} (hs₁ : s₁ =
      if io.closeFp then { s with outputs := s.outputs.modify w.ioOutput f } else s)
    (hf : ∀ out, (f out).countNmsgPayloadOut = out.countNmsgPayloadOut)
    (hnext : w.pc.Checks next) (hstop : w.pc.Checks (.setStop wrote))
    (h : turnClose io t env type next wrote w s₁ = (w', s')) : Turned io dup t env w s w' s' := by
  unfold turnClose at h
  cases hclose : io.closeFp with
  | false =>
      simp only [hclose, Bool.false_eq_true, ↓reduceIte] at h hs₁
      cases h
      rw [hs₁]
      exact .check _ hstop
  | true =>
      simp only [hclose, ↓reduceIte] at h hs₁
      cases h
      simp only [hs₁, List.modify_modify_eq]
      refine .close _ type _ ?_ hclose fun out => hf out
      split
      · exact hnext
      · exact hstop

theorem turnCountCheck_turned {wrote : Bool} (hpc : w.pc = .countCheck wrote)
    (h : turnCountCheck io t env wrote w s = .ok (w', s')) : Turned io dup t env w s w' s' := by
  unfold turnCountCheck at h
  split at h
  · cases h
  · split at h
    · cases h
      exact .check _ (hpc ▸ .gone wrote)
    · split at h
      · refine turnClose_turned (f := id) ?_ (fun _ => rfl) (hpc ▸ .count wrote)
          (hpc ▸ .countStop wrote) (Except.ok.inj h)
        simp only [List.modify_id, ite_self]
      · cases h
        exact .check _ (hpc ▸ .count wrote)

theorem turnIntervalCheck_turned {wrote : Bool} (hpc : w.pc = .intervalCheck wrote)
    (h : turnIntervalCheck io t env wrote w s = .ok (w', s')) : Turned io dup t env w s w' s' := by
  unfold turnIntervalCheck at h
  split at h
  · cases h
  · split at h
    · have hnext : w.pc.Checks (.unlockClose wrote) := hpc ▸ .interval wrote
      have hstop : w.pc.Checks (.setStop wrote) := hpc ▸ .intervalStop wrote
      refine turnClose_turned
        (f := fun out => { out with last := w.now - w.now.tmod io.interval }) rfl (fun _ => rfl)
        hnext hstop (Except.ok.inj h)
    · cases h
      exact .check _ (hpc ▸ .interval wrote)

/-- Every turn is on the list. -/
theorem ioTurn_turned (h : ioTurn io dup t env w s = .ok (w', s')) : Turned io dup t env w s w' s' := by
  cases hpc : w.pc with
  | read =>
      simp only [ioTurn, hpc, Except.ok.injEq, Prod.mk.injEq] at h
      obtain ⟨rfl, rfl⟩ := h
      exact .read hpc
  | received res msg =>
      simp only [ioTurn, hpc] at h
      split at h
      · cases h
        exact .finish res w.res msg hpc
      · split at h
        · subst res
          cases h
          exact .again msg hpc (by simpa using ‹¬ s.stop = true›)
        · split at h
          · cases h
            exact .finish res res msg hpc
          · have hres : res = .success := by simpa using ‹¬ res ≠ .success›
            cases msg with
            | none => cases h
            | some msg =>
                cases h
                exact .take msg (hres ▸ hpc) (by simpa using ‹¬ s.stop = true›)
  | lockOutput todo =>
      cases todo with
      | nil =>
          simp only [ioTurn, hpc] at h
          cases h
          exact .sent hpc
      | cons first todo =>
          obtain ⟨j, msg⟩ := first
          cases hclose : io.closeFp with
          | false =>
              simp only [ioTurn, hpc, hclose, Bool.false_eq_true, ↓reduceIte] at h
              cases h
              exact .passOutput j msg todo hpc hclose
          | true =>
              cases hlock : s.outputLock j with
              | none =>
                  simp only [ioTurn, hpc, hclose, hlock, ↓reduceIte] at h
                  cases h
                  exact .lockOutput j msg todo hpc hclose hlock
              | some u =>
                  simp only [ioTurn, hpc, hclose, hlock, ↓reduceIte] at h
                  cases h
                  exact .stay (.output u j msg todo hpc hclose hlock)
  | write j msg todo =>
      simp only [ioTurn, hpc] at h
      exact turnWrite_turned hpc h
  | unlockOutput res j msg todo =>
      simp only [ioTurn, hpc] at h
      split at h
      · cases h
        exact .giveUp res j msg todo hpc ‹_›
      · have hres : res = .success := by simpa using ‹¬ res ≠ .success›
        cases h
        exact .unlockOutput j msg todo (hres ▸ hpc)
  | loadCount j todo =>
      simp only [ioTurn, hpc] at h
      split at h
      · cases h
      · cases h
        exact .loadCount _ j todo hpc ‹_›
  | storeCount count j todo =>
      simp only [ioTurn, hpc] at h
      cases h
      exact .storeCount count j todo hpc
  | lockIo todo =>
      simp only [ioTurn, hpc] at h
      split at h
      · cases h
        exact .stay (.io _ todo hpc ‹_›)
      · cases h
        exact .lockIo todo hpc ‹_›
  | loadTotal todo =>
      simp only [ioTurn, hpc] at h
      cases h
      exact .loadTotal todo hpc
  | storeTotal total todo =>
      simp only [ioTurn, hpc] at h
      cases h
      exact .storeTotal total todo hpc
  | unlockIo todo =>
      simp only [ioTurn, hpc] at h
      cases h
      exact .unlockIo todo hpc
  | lockClose wrote =>
      simp only [ioTurn, hpc] at h
      split at h
      · split at h
        · cases h
          exact .stay (.close _ wrote hpc ‹_› ‹_›)
        · cases h
          exact .lockClose wrote hpc ‹_› ‹_›
      · cases h
        exact .passClose wrote hpc (by simpa using ‹¬ io.closeFp = true›)
  | countCheck wrote =>
      simp only [ioTurn, hpc] at h
      exact turnCountCheck_turned hpc h
  | intervalCheck wrote =>
      simp only [ioTurn, hpc] at h
      exact turnIntervalCheck_turned hpc h
  | setStop wrote =>
      simp only [ioTurn, hpc] at h
      cases h
      exact .setStop wrote hpc
  | unlockClose wrote =>
      simp only [ioTurn, hpc] at h
      cases h
      exact .unlockClose wrote hpc
  | testStop wrote =>
      simp only [ioTurn, hpc] at h
      cases h
      cases hstop : s.stop with
      | true => exact .stop wrote (Or.inl hpc) w.ioOutput hstop
      | false =>
          cases wrote with
          | true => exact .goOn hpc hstop
          | false => exact .retry hpc hstop
  | nextOutput =>
      simp only [ioTurn, hpc] at h
      cases h
      cases hstop : s.stop with
      | true => exact .stop false (Or.inr hpc) _ hstop
      | false => exact .nextOutput hpc hstop
  | done todo =>
      simp only [ioTurn, hpc] at h
      cases h
      exact .stay (.ended todo hpc)

/-- **Rule for the system.** What every turn and `nmsg_io_breakloop` keep holds after every run. -/
theorem io_invariant (P : IoRound M → Prop) (Inv : IoSystem M → Prop)
    (hturn : ∀ t env w w' s shared, Inv s → P env → s.threads[t]? = some w →
      Turned io dup t env w s.shared w' shared → Inv ⟨shared, s.threads.set t w'⟩)
    (hbreak : ∀ s : IoSystem M, Inv s → Inv ⟨{ s.shared with stop := true }, s.threads⟩)
    {s s' : IoSystem M} {events : List (IoEvent M)} {answers : List Unit} (hinv : Inv s)
    (hevents : ∀ t env, .thread t env ∈ events → P env)
    (hrun : StepRun.run (ioStep io dup) s events = .ok (answers, s')) : Inv s' := by
  induction events generalizing s answers with
  | nil =>
      simp only [StepRun.run_nil, Except.ok.injEq, Prod.mk.injEq] at hrun
      exact hrun.2 ▸ hinv
  | cons e rest ih =>
      obtain ⟨_, m, answers', hok, hrest, rfl⟩ := StepRun.run_cons_eq_ok.mp hrun
      refine ih ?_ (fun t env hmem => hevents t env (List.mem_cons_of_mem _ hmem)) hrest
      cases e with
      | outside k =>
          cases hok
          exact hbreak s hinv
      | thread t env =>
          rcases turn_thread_eq_ok hok with ⟨-, rfl⟩ | ⟨w, w', shared, hw, hturned, rfl⟩
          · exact hinv
          · exact hturn t env w w' s shared hinv (hevents t env (List.mem_cons_self ..)) hw
              (ioTurn_turned hturned)

end Nmsg

import Mathlib.Logic.Relation
import Nmsg.Lib.Outcome
import Nmsg.Proof.IoTurns

/-!
# A thread by itself

As long as no other thread comes between, the turns of a thread from one reading of its input to the
next make up a round of the loop, as a thread of its own takes it.
-/

namespace Nmsg

open Interleave Relation

variable {M : Type*} {io : Io} {dup : M → M} {round : IoRound M} {w w' : IoWorker M}
  {s s' : IoShared M} {thr thr' : IoThr}

/-- Turns of thread `0`, one after the other, each of which meets with the same. -/
def Reaches (io : Io) (dup : M → M) (round : IoRound M) :
    IoWorker M × IoShared M → IoWorker M × IoShared M → Prop :=
  ReflTransGen fun p q => ioTurn io dup 0 round p.1 p.2 = .ok q

theorem Reaches.turn {q : IoWorker M × IoShared M} (h : ioTurn io dup 0 round w s = .ok (w', s'))
    (hrest : Reaches io dup round (w', s') q) : Reaches io dup round (w, s) q :=
  ReflTransGen.head h hrest

theorem Reaches.run {p q : IoWorker M × IoShared M} (h : Reaches io dup round p q) :
    ∃ k answers, StepRun.run (ioStep io dup) ⟨p.2, [p.1]⟩ (List.replicate k (.thread 0 round)) =
      .ok (answers, ⟨q.2, [q.1]⟩) := by
  induction h using ReflTransGen.head_induction_on with
  | refl => exact ⟨0, [], rfl⟩
  | head hturn _ ih =>
      obtain ⟨k, answers, hrun⟩ := ih
      refine ⟨k + 1, () :: answers, StepRun.run_cons_eq_ok.mpr ⟨(), _, answers, ?_, hrun, rfl⟩⟩
      simp only [ioStep, Interleave.turn, List.getElem?_cons_zero, hturn, List.set_cons_zero]

/-- What is shared looks to the thread as it does to one by itself, and nothing is locked. -/
structure Free (thr : IoThr) (s : IoShared M) : Prop where
  outputs : s.outputs = thr.outputs
  stop : s.stop = thr.stop
  outputLock : s.outputLock = fun _ => none
  ioLock : s.ioLock = none

/-- The actions of the thread in the log of all. -/
def logged (actions : List (IoAction M)) : List (Nat × IoAction M) := actions.map fun a => (0, a)

theorem update_lock (s : IoShared M) (h : s.outputLock = fun _ => none) (j : Nat) :
    Function.update (Function.update s.outputLock j (some 0)) j none = fun _ => none := by
  rw [Function.update_idem, h]
  exact Function.update_eq_self j _

/-- The turns between a payload that an output has received and the next output. -/
theorem reaches_counted {out : IoOutput} {j : Nat} {todo : List (Nat × M)}
    (hpc : w.pc = .loadCount j todo) (hout : s.outputs[j]? = some out) (hio : s.ioLock = none) :
    Reaches io dup round (w, s) ({ w with pc := .lockOutput todo }, { s with
      outputs := s.outputs.modify j fun o => { o with countNmsgPayloadOut := o.countNmsgPayloadOut + 1 }
      countNmsgPayloadOut := s.countNmsgPayloadOut + 1 }) := by
  have hmodify : s.outputs.modify j (fun o =>
      { o with countNmsgPayloadOut := out.countNmsgPayloadOut + 1 }) =
      s.outputs.modify j fun o => { o with countNmsgPayloadOut := o.countNmsgPayloadOut + 1 } := by
    refine List.ext_getElem? fun i => ?_
    by_cases hij : j = i
    · subst hij
      rw [List.getElem?_modify_eq, List.getElem?_modify_eq, hout]
      rfl
    · rw [List.getElem?_modify_ne (h := hij), List.getElem?_modify_ne (h := hij)]
  obtain ⟨pc, ioOutput, now, res, taken⟩ := w
  obtain ⟨outputs, outputLock, ioLock, stop, total, log⟩ := s
  subst hpc hio
  have hload : ioTurn io dup 0 round ⟨.loadCount j todo, ioOutput, now, res, taken⟩
      ⟨outputs, outputLock, none, stop, total, log⟩ =
      .ok (⟨.storeCount out.countNmsgPayloadOut j todo, ioOutput, now, res, taken⟩,
        ⟨outputs, outputLock, none, stop, total, log⟩) := by
    simp only [ioTurn, hout]
  refine .turn hload ?_
  refine .turn rfl (.turn rfl (.turn rfl (.turn rfl (.turn rfl ?_))))
  rw [← hmodify]
  exact ReflTransGen.refl

/-- The turns from the lock of an output to what `nmsg_output_write` returned. -/
theorem reaches_unlock (io : Io) (dup : M → M) (round : IoRound M) (res : Res)
    (log : List (Nat × IoAction M)) {j : Nat} {msg : M} {todo : List (Nat × M)} (hpc : w.pc = .lockOutput ((j, msg) :: todo))
    (hlock : s.outputLock = fun _ => none)
    (hwrite : ∀ lock, turnWrite io 0 round j msg todo { w with pc := .write j msg todo }
      { s with outputLock := lock } =
        .ok ({ w with pc := .unlockOutput res j msg todo }, { s with outputLock := lock, log := log })) :
    Reaches io dup round (w, s)
      (if res = .success then { w with pc := .loadCount j todo }
        else { w with pc := .done ((j, msg) :: todo), res := res }, { s with log := log }) := by
  obtain ⟨pc, ioOutput, now, res', taken⟩ := w
  subst hpc
  have hlast : ∀ lock, (if io.closeFp then Function.update lock j none else lock) = (fun _ => none) →
      Reaches io dup round
        (⟨.unlockOutput res j msg todo, ioOutput, now, res', taken⟩,
          { s with outputLock := lock, log := log })
        (if res = .success then ⟨.loadCount j todo, ioOutput, now, res', taken⟩
          else ⟨.done ((j, msg) :: todo), ioOutput, now, res, taken⟩, { s with log := log }) := by
    intro lock hfree
    refine ReflTransGen.single ?_
    cases hclose : io.closeFp <;> by_cases hres : res = .success <;>
      simp_all [ioTurn]
  cases hclose : io.closeFp with
  | true =>
      have hfirst : ioTurn io dup 0 round
          ⟨.lockOutput ((j, msg) :: todo), ioOutput, now, res', taken⟩ s =
          .ok (⟨.write j msg todo, ioOutput, now, res', taken⟩,
            { s with outputLock := Function.update s.outputLock j (some 0) }) := by
        simp only [ioTurn, hclose, hlock, ↓reduceIte]
      refine .turn hfirst (.turn (hwrite _) (hlast _ ?_))
      rw [if_pos hclose]
      exact update_lock s hlock j
  | false =>
      have hfirst : ioTurn io dup 0 round
          ⟨.lockOutput ((j, msg) :: todo), ioOutput, now, res', taken⟩ s =
          .ok (⟨.write j msg todo, ioOutput, now, res', taken⟩, s) := by
        simp only [ioTurn, hclose, Bool.false_eq_true, ↓reduceIte]
      refine .turn hfirst (.turn (hwrite s.outputLock) (hlast _ ?_))
      rw [if_neg (by simp [hclose])]
      exact hlock

/-- The thread itself, apart from the outputs and `stop`. -/
def IoThr.SameThread (thr thr' : IoThr) : Prop :=
  thr'.ioOutput = thr.ioOutput ∧ thr'.running = thr.running ∧ thr'.res = thr.res

theorem reaches_write (dup : M → M) {res : Res} {j : Nat} {msg : M} {todo : List (Nat × M)}
    {actions : List (IoAction M)} (h : ioWrite io round thr j msg = .ok (res, actions, thr'))
    (hfree : Free thr s) (hpc : w.pc = .lockOutput ((j, msg) :: todo)) :
    ∃ s', Reaches io dup round (w, s)
        (if res = .success then { w with pc := .lockOutput todo }
          else { w with pc := .done ((j, msg) :: todo), res := res }, s') ∧
      Free thr' s' ∧ s'.log = s.log ++ logged actions ∧ thr.SameThread thr' ∧
      thr'.stop = thr.stop := by
  unfold ioWrite at h
  cases hout : thr.outputs[j]? with
  | none => simp [hout] at h
  | some out =>
      simp only [hout] at h
      have hout' : s.outputs[j]? = some out := hfree.outputs ▸ hout
      split at h
      · have hclosed : out.isOpen = false := ‹_›
        split at h
        · have hclose : io.closeFp = true := ‹_›
          cases h
          refine ⟨s, ?_, hfree, (List.append_nil _).symm, ⟨rfl, rfl, rfl⟩, rfl⟩
          refine reaches_unlock io dup round .stop s.log hpc hfree.outputLock fun lock => ?_
          simp only [turnWrite, hout', hclosed, hclose, ↓reduceIte]
        · cases h
      · have hopen : ¬ out.isOpen = false := ‹_›
        split at h
        · have hres : round.write j ≠ .success := ‹_›
          cases h
          refine ⟨s, ?_, hfree, (List.append_nil _).symm, ⟨rfl, rfl, rfl⟩, rfl⟩
          have hunlock := reaches_unlock io dup round (round.write j) s.log hpc hfree.outputLock fun lock => by
              simp only [turnWrite, hout', if_neg hopen, if_pos hres]
          rw [if_neg hres] at hunlock ⊢
          exact hunlock
        · have hres : ¬ round.write j ≠ .success := ‹_›
          cases h
          have hunlock := reaches_unlock io dup round .success
            (s.log ++ [(0, .wrote j msg)]) hpc hfree.outputLock fun lock => by
              simp only [turnWrite, hout', if_neg hopen, if_neg hres]
          rw [if_pos rfl] at hunlock
          refine ⟨_, hunlock.trans (reaches_counted rfl hout' hfree.ioLock), ?_, rfl,
            ⟨rfl, rfl, rfl⟩, rfl⟩
          exact ⟨by rw [← hfree.outputs], hfree.stop, hfree.outputLock, hfree.ioLock⟩

theorem logged_append (front back : List (IoAction M)) :
    logged (front ++ back) = logged front ++ logged back := List.map_append

/-- The turns of a message in mirror mode. -/
theorem reaches_writeEach {res : Res} {msg : M} {js : List Nat} {actions : List (IoAction M)}
    (h : writeEach io dup round msg js thr = .ok (res, actions, thr')) (hfree : Free thr s)
    (hpc : w.pc = .lockOutput (js.map fun j => (j, dup msg))) :
    ∃ todo s', Reaches io dup round (w, s)
        (if res = .success then { w with pc := .lockOutput [] }
          else { w with pc := .done todo, res := res }, s') ∧
      Free thr' s' ∧ s'.log = s.log ++ logged actions ∧ thr.SameThread thr' ∧
      thr'.stop = thr.stop := by
  induction js generalizing thr w s actions with
  | nil =>
      cases h
      refine ⟨[], s, ?_, hfree, (List.append_nil _).symm, ⟨rfl, rfl, rfl⟩, rfl⟩
      obtain ⟨pc, ioOutput, now, res, taken⟩ := w
      subst hpc
      exact ReflTransGen.refl
  | cons j rest ih =>
      rw [writeEach] at h
      cases hfirst : ioWrite io round thr j (dup msg) with
      | error e => simp [hfirst] at h
      | ok out =>
          obtain ⟨res₁, actions₁, thr₁⟩ := out
          obtain ⟨s₁, hreach, hfree₁, hlog, hsame, hstop⟩ := reaches_write dup hfirst hfree hpc
          simp only [hfirst] at h
          by_cases hres : res₁ = .success
          · subst hres
            rw [if_neg (by simp)] at h
            rw [if_pos rfl] at hreach
            obtain ⟨⟨res₂, actions₂, thr₂⟩, hrest, heq⟩ := Outcome.map_eq_ok.mp h
            simp only [Prod.mk.injEq] at heq
            obtain ⟨rfl, rfl, rfl⟩ := heq
            obtain ⟨todo, s₂, hreach₂, hfree₂, hlog₂, hsame₂, hstop₂⟩ := ih
              (w := { w with pc := .lockOutput (rest.map fun j => (j, dup msg)) }) hrest hfree₁ rfl
            refine ⟨todo, s₂, hreach.trans hreach₂, hfree₂, ?_, ?_, hstop₂.trans hstop⟩
            · rw [hlog₂, hlog, logged_append, List.append_assoc]
            · exact ⟨hsame₂.1.trans hsame.1, hsame₂.2.1.trans hsame.2.1, hsame₂.2.2.trans hsame.2.2⟩
          · rw [if_pos hres] at h
            cases h
            rw [if_neg hres] at hreach
            refine ⟨(j, dup msg) :: rest.map fun j => (j, dup msg), s₁, ?_, hfree₁, hlog, hsame, hstop⟩
            rw [if_neg hres]
            exact hreach

/-- A close event and the turns behind it up to the unlocking of the output. -/
theorem reaches_close {type : IoCloseType} {wrote : Bool} {next : IoPc M} {s₁ : IoShared M}
    {gone : Bool} {actions : List (IoAction M)}
    (h : closeEvent io round thr w.ioOutput type = (gone, actions, thr')) (houts : s.outputs = thr.outputs)
    (hstop : s.stop = thr.stop) (hturn : ioTurn io dup 0 round w s₁ =
      .ok (turnClose io 0 round type next wrote w s)) :
    ∃ s', Reaches io dup round (w, s₁)
        ({ w with pc := if gone then .unlockClose wrote else next }, s') ∧
      s'.outputs = thr'.outputs ∧ s'.stop = thr'.stop ∧ s'.outputLock = s.outputLock ∧
      s'.ioLock = s.ioLock ∧ s'.log = s.log ++ logged actions ∧ thr.SameThread thr' := by
  unfold closeEvent at h
  unfold turnClose at hturn
  cases hclose : io.closeFp with
  | true =>
      simp only [hclose, ↓reduceIte] at h hturn
      cases hopens : round.reopens w.ioOutput type with
      | true =>
          simp only [hopens, ↓reduceIte, Prod.mk.injEq] at h hturn
          obtain ⟨rfl, rfl, rfl⟩ := h
          exact ⟨_, .turn hturn ReflTransGen.refl, by rw [← houts], hstop, rfl, rfl, rfl,
            ⟨rfl, rfl, rfl⟩⟩
      | false =>
          simp only [hopens, Bool.false_eq_true, ↓reduceIte, Prod.mk.injEq] at h hturn
          obtain ⟨rfl, rfl, rfl⟩ := h
          exact ⟨_, .turn hturn (.turn rfl ReflTransGen.refl), by rw [← houts], rfl, rfl, rfl, rfl,
            ⟨rfl, rfl, rfl⟩⟩
  | false =>
      simp only [hclose, Bool.false_eq_true, ↓reduceIte, Prod.mk.injEq] at h hturn
      obtain ⟨rfl, rfl, rfl⟩ := h
      exact ⟨_, .turn hturn (.turn rfl ReflTransGen.refl), houts, rfl, rfl, rfl,
        (List.append_nil _).symm, ⟨rfl, rfl, rfl⟩⟩

/-- The locks while the thread checks output `j`. -/
def locked (io : Io) (j : Nat) : Nat → Option Nat :=
  if io.closeFp then Function.update (fun _ => none) j (some 0) else fun _ => none

theorem reaches_lockClose (io : Io) (dup : M → M) (round : IoRound M) {wrote : Bool} (hpc : w.pc = .lockClose wrote)
    (hlock : s.outputLock = fun _ => none) :
    ioTurn io dup 0 round w s =
      .ok ({ w with pc := .countCheck wrote }, { s with outputLock := locked io w.ioOutput }) := by
  unfold locked
  cases hclose : io.closeFp with
  | true => simp only [ioTurn, hpc, hclose, hlock, ↓reduceIte]
  | false =>
      simp only [ioTurn, hpc, hclose, Bool.false_eq_true, ↓reduceIte]
      rw [← hlock]

theorem reaches_unlockClose {wrote : Bool} (hpc : w.pc = .unlockClose wrote)
    (hlock : s.outputLock = locked io w.ioOutput) :
    ioTurn io dup 0 round w s =
      .ok ({ w with pc := .testStop wrote }, { s with outputLock := fun _ => none }) := by
  unfold locked at hlock
  cases hclose : io.closeFp with
  | true =>
      rw [if_pos hclose] at hlock
      simp only [ioTurn, hpc, hclose, hlock, ↓reduceIte, Function.update_idem]
      rw [Function.update_eq_self_iff.mpr rfl]
  | false =>
      rw [if_neg (by simp [hclose])] at hlock
      simp only [ioTurn, hpc, hclose, Bool.false_eq_true, ↓reduceIte]
      rw [← hlock]

theorem IoThr.SameThread.trans {a b c : IoThr} (hab : a.SameThread b) (hbc : b.SameThread c) :
    a.SameThread c :=
  ⟨hbc.1.trans hab.1, hbc.2.1.trans hab.2.1, hbc.2.2.trans hab.2.2⟩

/-- The turns of `check_close_event` from the check of the interval on. -/
theorem reaches_interval {wrote : Bool} {out out' : IoOutput} {res : Res}
    {before actions : List (IoAction M)} (hpc : w.pc = .intervalCheck wrote)
    (hnow : w.now = round.now) (hout : s.outputs[w.ioOutput]? = some out') (hlast : out'.last = out.last)
    (h : (if io.interval > 0 ∧ round.now - out.last ≥ io.interval then
        let thr :=
          if io.closeFp then { thr with
            outputs := thr.outputs.modify w.ioOutput fun out =>
              { out with last := round.now - round.now.tmod io.interval } }
          else thr
        let (gone, actions', thr) := closeEvent io round thr w.ioOutput .interval
        .ok (if gone then .stop else .success, before ++ actions', thr)
      else Except.ok (.success, before, thr)) = (.ok (res, actions, thr') : Except Abort _))
    (houts : s.outputs = thr.outputs) (hstop : s.stop = thr.stop) :
    ∃ actions' s', actions = before ++ actions' ∧
      Reaches io dup round (w, s) ({ w with pc := .unlockClose wrote }, s') ∧
      s'.outputs = thr'.outputs ∧ s'.stop = thr'.stop ∧ s'.outputLock = s.outputLock ∧
      s'.ioLock = s.ioLock ∧ s'.log = s.log ++ logged actions' ∧ thr.SameThread thr' := by
  by_cases hdue : io.interval > 0 ∧ round.now - out.last ≥ io.interval
  · rw [if_pos hdue] at h
    rw [← hlast] at hdue
    let dated (outputs : List IoOutput) : List IoOutput :=
      if io.closeFp then
        outputs.modify w.ioOutput fun out =>
          { out with last := round.now - round.now.tmod io.interval }
      else outputs
    have hthr : (if io.closeFp then { thr with
        outputs := thr.outputs.modify w.ioOutput fun out =>
          { out with last := round.now - round.now.tmod io.interval } } else thr) =
        { thr with outputs := dated thr.outputs } := by
      cases hclose : io.closeFp <;> simp only [dated, hclose, Bool.false_eq_true, ↓reduceIte]
    simp only [hthr] at h
    have hturn : ioTurn io dup 0 round w s = .ok (turnClose io 0 round .interval
        (.unlockClose wrote) wrote w { s with outputs := dated s.outputs }) := by
      simp only [ioTurn, hpc, turnIntervalCheck, hout, hnow, if_pos hdue, dated]
      cases hclose : io.closeFp <;> rfl
    rcases hevent : closeEvent io round { thr with outputs := dated thr.outputs } w.ioOutput .interval
      with ⟨gone, actions', thr₁⟩
    simp only [hevent, Except.ok.injEq, Prod.mk.injEq] at h
    obtain ⟨-, rfl, rfl⟩ := h
    obtain ⟨s', hreach, houts', hstop', hlock, hio, hlog, hsame⟩ :=
      reaches_close (s := { s with outputs := dated s.outputs }) hevent (congrArg dated houts) hstop
        hturn
    rw [ite_self] at hreach
    exact ⟨actions', s', rfl, hreach, houts', hstop', hlock, hio, hlog, hsame⟩
  · rw [if_neg hdue] at h
    rw [← hlast] at hdue
    cases h
    refine ⟨[], s, (List.append_nil _).symm, .turn ?_ ReflTransGen.refl, houts, hstop, rfl, rfl,
      (List.append_nil _).symm, ⟨rfl, rfl, rfl⟩⟩
    simp only [ioTurn, hpc, turnIntervalCheck, hout, hnow, if_neg hdue]

/-- A close event leaves the time of the output as it is. -/
theorem closeEvent_last {j : Nat} {type : IoCloseType} {out : IoOutput} {gone : Bool}
    {actions : List (IoAction M)} (h : closeEvent io round thr j type = (gone, actions, thr'))
    (hout : thr.outputs[j]? = some out) :
    ∃ out', thr'.outputs[j]? = some out' ∧ out'.last = out.last := by
  unfold closeEvent at h
  split at h
  · simp only at h
    split at h
    · cases h
      exact ⟨{ out with isOpen := round.reopens j type },
        by rw [List.getElem?_modify_eq, hout]; rfl, rfl⟩
    · cases h
      exact ⟨{ out with isOpen := round.reopens j type },
        by rw [List.getElem?_modify_eq, hout]; rfl, rfl⟩
  · cases h
    exact ⟨out, hout, rfl⟩

/-- The turns of `check_close_event`. -/
theorem reaches_check (dup : M → M) {wrote : Bool} {res : Res} {actions : List (IoAction M)}
    (h : checkCloseEvent io round thr w.ioOutput = .ok (res, actions, thr')) (hfree : Free thr s)
    (hpc : w.pc = .lockClose wrote) (hnow : w.now = round.now) :
    ∃ s', Reaches io dup round (w, s) ({ w with pc := .testStop wrote }, s') ∧ Free thr' s' ∧
      s'.log = s.log ++ logged actions ∧ thr.SameThread thr' := by
  have hfirst := reaches_lockClose io dup round hpc hfree.outputLock
  -- behind the checks the output is unlocked
  have hend : ∀ {s₁ : IoShared M} {actions : List (IoAction M)} {thr₁ : IoThr},
      Reaches io dup round ({ w with pc := .countCheck wrote },
        { s with outputLock := locked io w.ioOutput }) ({ w with pc := .unlockClose wrote }, s₁) →
      s₁.outputs = thr₁.outputs → s₁.stop = thr₁.stop → s₁.outputLock = locked io w.ioOutput →
      s₁.ioLock = s.ioLock → s₁.log = s.log ++ logged actions → thr.SameThread thr₁ →
      ∃ s', Reaches io dup round (w, s) ({ w with pc := .testStop wrote }, s') ∧ Free thr₁ s' ∧
        s'.log = s.log ++ logged actions ∧ thr.SameThread thr₁ := by
    intro s₁ actions thr₁ hreach houts hstop hlock hio hlog hsame
    refine ⟨{ s₁ with outputLock := fun _ => none }, ?_, ⟨houts, hstop, rfl, hio.trans hfree.ioLock⟩,
      hlog, hsame⟩
    exact .turn hfirst (hreach.trans (.single (reaches_unlockClose rfl hlock)))
  let start : IoWorker M × IoShared M :=
    ({ w with pc := .countCheck wrote }, { s with outputLock := locked io w.ioOutput })
  unfold checkCloseEvent at h
  cases hout : thr.outputs[w.ioOutput]? with
  | none => simp [hout] at h
  | some out =>
      simp only [hout] at h
      have hout' : s.outputs[w.ioOutput]? = some out := hfree.outputs ▸ hout
      split at h
      · have hclosed : out.isOpen = false := ‹_›
        cases h
        have hturn : ioTurn io dup 0 round start.1 start.2 =
            .ok ({ w with pc := .unlockClose wrote }, start.2) := by
          simp only [start, ioTurn, turnCountCheck, hout', hclosed, ↓reduceIte]
        exact hend (.single hturn) hfree.outputs hfree.stop rfl rfl (List.append_nil _).symm
          ⟨rfl, rfl, rfl⟩
      · have hopen : ¬ out.isOpen = false := ‹_›
        by_cases hcount : io.count > 0 ∧ out.countNmsgPayloadOut > 0 ∧
          out.countNmsgPayloadOut % io.count = 0
        · rcases hevent : closeEvent io round thr w.ioOutput .count with ⟨gone, before, thr₁⟩
          simp only [if_pos hcount, hevent] at h
          have hturn : ioTurn io dup 0 round start.1 start.2 =
              .ok (turnClose io 0 round .count (.intervalCheck wrote) wrote start.1 start.2) := by
            simp only [start, ioTurn, turnCountCheck, hout', if_neg hopen, if_pos hcount]
          obtain ⟨s₁, hreach, houts, hstop, hlock, hio, hlog, hsame⟩ :=
            reaches_close (w := start.1) (s := start.2) hevent hfree.outputs hfree.stop hturn
          cases gone with
          | true =>
              cases h
              exact hend hreach houts hstop hlock hio hlog hsame
          | false =>
              obtain ⟨out', hout₁, hlast⟩ := closeEvent_last hevent hout
              obtain ⟨after, s₂, rfl, hreach₂, houts₂, hstop₂, hlock₂, hio₂, hlog₂, hsame₂⟩ :=
                reaches_interval (w := { w with pc := .intervalCheck wrote }) rfl hnow
                  (houts ▸ hout₁) hlast h houts hstop
              refine hend (hreach.trans hreach₂) houts₂ hstop₂ (hlock₂.trans hlock)
                (hio₂.trans hio) ?_ (hsame.trans hsame₂)
              rw [hlog₂, hlog, logged_append, List.append_assoc]
        · simp only [if_neg hcount] at h
          have hturn : ioTurn io dup 0 round start.1 start.2 =
              .ok ({ w with pc := .intervalCheck wrote }, start.2) := by
            simp only [start, ioTurn, turnCountCheck, hout', if_neg hopen, if_neg hcount]
          obtain ⟨after, s₂, rfl, hreach₂, houts₂, hstop₂, hlock₂, hio₂, hlog₂, hsame₂⟩ :=
            reaches_interval (w := { w with pc := .intervalCheck wrote }) (s := start.2) rfl hnow
              hout' rfl h hfree.outputs hfree.stop
          exact hend (.turn hturn hreach₂) houts₂ hstop₂ hlock₂ hio₂ hlog₂ hsame₂

/-! ### Rounds -/

/-- The thread in the system, between two rounds, and the thread by itself. -/
structure IoTracks (thr : IoThr) (w : IoWorker M) (s : IoShared M) : Prop extends Free thr s where
  ioOutput : w.ioOutput = thr.ioOutput
  res : w.res = thr.res
  ready : thr.running = true → w.pc = .read ∧ thr.stop = false
  ended : thr.running = false → w.pc.ended = true

/-- What becomes of the message of a round. -/
def ioWritten (io : Io) (dup : M → M) (round : IoRound M) (thr : IoThr) (msg : M) :
    Except Abort (Res × List (IoAction M) × IoThr) :=
  match io.outputMode with
  | .stripe => ioWrite io round thr thr.ioOutput msg
  | .mirror => ioWriteMirrored io dup round thr msg

/-- The end of a round in which no output refuses the message. -/
def roundEnd (io : Io) (round : IoRound M) (thr : IoThr) :
    Except Abort (List (IoAction M) × IoThr) :=
  match checkCloseEvent io round thr thr.ioOutput with
  | .error e => .error e
  | .ok (_, actions, thr) =>
      if thr.stop then .ok (actions, { thr with running := false })
      else .ok (actions, nextOutput thr)

theorem reaches_written (dup : M → M) {actions : List (IoAction M)}
    (h : roundEnd io round thr = .ok (actions, thr'))
    (hfree : Free thr s) (hpc : w.pc = .lockOutput []) (hnow : w.now = round.now)
    (hio : w.ioOutput = thr.ioOutput) (hres : w.res = thr.res) (hrunning : thr.running = true) :
    ∃ w' s', Reaches io dup round (w, s) (w', s') ∧ IoTracks thr' w' s' ∧
      s'.log = s.log ++ logged actions := by
  unfold roundEnd at h
  cases hcheck : checkCloseEvent io round thr thr.ioOutput with
  | error e => simp [hcheck] at h
  | ok out =>
      obtain ⟨res, actions₁, thr₁⟩ := out
      obtain ⟨s₁, hreach, hfree₁, hlog, hthread⟩ := reaches_check dup
        (w := { w with pc := .lockClose true }) (hio ▸ hcheck) hfree rfl hnow
      have hfirst : ioTurn io dup 0 round w s = .ok ({ w with pc := .lockClose true }, s) := by
        simp only [ioTurn, hpc]
      have hshared : s₁.outputs.length = thr₁.outputs.length := by rw [hfree₁.outputs]
      simp only [hcheck] at h
      cases hstop : thr₁.stop with
      | true =>
          rw [if_pos hstop] at h
          cases h
          have hlast : ioTurn io dup 0 round { w with pc := .testStop true } s₁ =
              .ok ({ w with pc := .done [] }, s₁) := by
            simp only [ioTurn, hfree₁.stop, hstop, ↓reduceIte]
          exact ⟨_, s₁, .turn hfirst (hreach.trans (.single hlast)),
            ⟨⟨hfree₁.outputs, hfree₁.stop, hfree₁.outputLock, hfree₁.ioLock⟩,
              hio.trans hthread.1.symm, hres.trans hthread.2.2.symm, by simp, fun _ => rfl⟩, hlog⟩
      | false =>
          rw [if_neg (by simp [hstop])] at h
          cases h
          have hlast : ioTurn io dup 0 round { w with pc := .testStop true } s₁ =
              .ok ({ w with pc := .nextOutput }, s₁) := by
            simp only [ioTurn, hfree₁.stop, hstop, Bool.false_eq_true, ↓reduceIte]
          have hnext : ioTurn io dup 0 round { w with pc := .nextOutput } s₁ =
              .ok ({ w with pc := .read, ioOutput := (nextOutput thr₁).ioOutput }, s₁) := by
            simp only [ioTurn, hfree₁.stop, hstop, Bool.false_eq_true, ↓reduceIte, nextOutput,
              hshared, hio, hthread.1]
          exact ⟨_, s₁, .turn hfirst (hreach.trans (.head hlast (.single hnext))),
            ⟨⟨hfree₁.outputs, hfree₁.stop, hfree₁.outputLock, hfree₁.ioLock⟩,
              rfl, hres.trans hthread.2.2.symm, fun _ => ⟨rfl, hstop⟩,
              fun hended => absurd (hrunning.symm.trans (hthread.2.1.symm.trans hended))
                Bool.noConfusion⟩, hlog⟩

/-- The turns of a round. -/
theorem reaches_round {actions : List (IoAction M)}
    (h : ioThrInput io dup round thr = .ok (actions, thr')) (htracks : IoTracks thr w s) :
    ∃ w' s', Reaches io dup round (w, s) (w', s') ∧ IoTracks thr' w' s' ∧
      s'.log = s.log ++ logged actions := by
  unfold ioThrInput at h
  cases hrunning : thr.running with
  | false =>
      rw [if_pos hrunning] at h
      cases h
      exact ⟨w, s, .refl, htracks, (List.append_nil _).symm⟩
  | true =>
      obtain ⟨hpc, hstop⟩ := htracks.ready hrunning
      have hshared : s.stop = false := htracks.stop.trans hstop
      rw [if_neg (by simp [hrunning])] at h
      have hread : ioTurn io dup 0 round w s =
          .ok ({ w with pc := .received round.read round.msg, now := round.now }, s) := by
        simp only [ioTurn, hpc]
      by_cases hagain : round.read = .again
      · rw [if_pos hagain] at h
        have hreceived : ioTurn io dup 0 round
            { w with pc := .received round.read round.msg, now := round.now } s =
            .ok ({ w with pc := .lockClose false, now := round.now }, s) := by
          simp only [ioTurn, hshared, Bool.false_eq_true, ↓reduceIte, hagain]
        cases hcheck : checkCloseEvent io round thr thr.ioOutput with
        | error e => simp [hcheck] at h
        | ok out =>
            obtain ⟨res, actions₁, thr₁⟩ := out
            simp only [hcheck, Except.ok.injEq, Prod.mk.injEq] at h
            obtain ⟨rfl, rfl⟩ := h
            obtain ⟨s₁, hreach, hfree, hlog, hthread⟩ := reaches_check dup
              (w := { w with pc := .lockClose false, now := round.now })
              (htracks.ioOutput ▸ hcheck) htracks.toFree rfl rfl
            have hlast : ioTurn io dup 0 round
                { w with pc := .testStop false, now := round.now } s₁ =
                .ok ({ w with pc := if thr₁.stop then .done [] else .read, now := round.now },
                  s₁) := by
              simp only [ioTurn, hfree.stop, Bool.false_eq_true, ↓reduceIte]
            refine ⟨_, s₁, .turn hread (.turn hreceived (hreach.trans (.single hlast))),
              ⟨⟨hfree.outputs, hfree.stop, hfree.outputLock, hfree.ioLock⟩,
                htracks.ioOutput.trans hthread.1.symm, htracks.res.trans hthread.2.2.symm, ?_, ?_⟩,
              hlog⟩
            · intro hgoes
              have : thr₁.stop = false := by simpa using hgoes
              exact ⟨by rw [this]; rfl, this⟩
            · intro hends
              have : thr₁.stop = true := by simpa using hends
              rw [this]
              rfl
      · rw [if_neg hagain] at h
        by_cases hsuccess : round.read = .success
        · rw [if_neg (by simp [hsuccess])] at h
          cases hmsg : round.msg with
          | none => simp [hmsg] at h
          | some msg =>
              simp only [hmsg] at h
              let taking : IoWorker M := { w with
                pc := .lockOutput (targets io.outputMode dup s.outputs.length w.ioOutput msg)
                now := round.now
                taken := w.taken ++ [msg] }
              have hreceived : ioTurn io dup 0 round
                  { w with pc := .received round.read round.msg, now := round.now } s =
                  .ok (taking, s) := by
                simp only [ioTurn, hshared, Bool.false_eq_true, ↓reduceIte, hsuccess, hmsg, ne_eq,
                  not_true_eq_false, taking]
                rw [if_neg (by simp)]
              -- what the outputs make of the message
              have hwritten : ∀ {res : Res} {actions₁ : List (IoAction M)} {thr₁ : IoThr},
                  ioWritten io dup round thr msg = .ok (res, actions₁, thr₁) →
                  ∃ todo s₁, Reaches io dup round (taking, s)
                      (if res = .success then { taking with pc := .lockOutput [] }
                        else { taking with pc := .done todo, res := res }, s₁) ∧
                    Free thr₁ s₁ ∧ s₁.log = s.log ++ logged actions₁ ∧ thr.SameThread thr₁ := by
                intro res actions₁ thr₁ hwrite
                unfold ioWritten at hwrite
                cases hmode : io.outputMode with
                | stripe =>
                    rw [hmode] at hwrite
                    obtain ⟨s₁, hreach, hfree, hlog, hthread, -⟩ := reaches_write dup hwrite
                      htracks.toFree (show taking.pc = .lockOutput [(thr.ioOutput, msg)] by
                        simp only [taking, hmode, targets, htracks.ioOutput])
                    exact ⟨_, s₁, hreach, hfree, hlog, hthread⟩
                | mirror =>
                    rw [hmode] at hwrite
                    obtain ⟨todo, s₁, hreach, hfree, hlog, hthread, -⟩ := reaches_writeEach
                      (w := taking) hwrite htracks.toFree
                      (by simp only [taking, hmode, targets, htracks.outputs])
                    exact ⟨todo, s₁, hreach, hfree, hlog, hthread⟩
              split at h
              · cases h
              · rename_i res actions₁ thr₁ hwrite
                obtain ⟨todo, s₁, hreach, hfree, hlog, hthread⟩ := hwritten hwrite
                by_cases hres : res = .success
                · subst hres
                  rw [if_pos rfl] at hreach
                  rw [if_neg (by simp)] at h
                  obtain ⟨actions₂, hrest, rfl⟩ : ∃ actions₂,
                      roundEnd io round thr₁ = .ok (actions₂, thr') ∧
                        actions = actions₁ ++ actions₂ := by
                    unfold roundEnd
                    cases hcheck : checkCloseEvent io round thr₁ thr₁.ioOutput with
                    | error e => simp [hcheck] at h
                    | ok out =>
                        obtain ⟨_, actions₂, thr₂⟩ := out
                        simp only [hcheck] at h
                        refine ⟨actions₂, ?_⟩
                        split at h
                        · cases h
                          exact ⟨by simp only [if_pos ‹thr₂.stop = true›], rfl⟩
                        · cases h
                          exact ⟨by simp only [if_neg ‹¬ thr₂.stop = true›], rfl⟩
                  obtain ⟨w', s', hreach', htracks', hlog'⟩ := reaches_written dup
                    (w := { taking with pc := .lockOutput [] }) hrest hfree rfl rfl
                    (htracks.ioOutput.trans hthread.1.symm) (htracks.res.trans hthread.2.2.symm)
                    (hthread.2.1.trans hrunning)
                  refine ⟨w', s', .turn hread (.turn hreceived (hreach.trans hreach')), htracks', ?_⟩
                  rw [hlog', hlog, logged_append, List.append_assoc]
                · rw [if_neg hres] at hreach
                  rw [if_pos hres] at h
                  cases h
                  exact ⟨_, s₁, .turn hread (.turn hreceived hreach),
                    ⟨⟨hfree.outputs, hfree.stop, hfree.outputLock, hfree.ioLock⟩,
                      htracks.ioOutput.trans hthread.1.symm, rfl, by simp, fun _ => rfl⟩, hlog⟩
        · rw [if_pos hsuccess] at h
          cases h
          have hreceived : ioTurn io dup 0 round
              { w with pc := .received round.read round.msg, now := round.now } s =
              .ok ({ w with pc := .done [], now := round.now, res := round.read }, s) := by
            simp only [ioTurn, hshared, Bool.false_eq_true, ↓reduceIte, if_neg hagain, hsuccess,
              ne_eq, not_false_eq_true]
          exact ⟨_, s, .turn hread (.single hreceived),
            ⟨⟨htracks.outputs, htracks.stop, htracks.outputLock, htracks.ioLock⟩,
              htracks.ioOutput, rfl, by simp, fun _ => rfl⟩, (List.append_nil _).symm⟩

theorem ioTracks_start (n : Nat) :
    IoTracks (IoThr.start n) (IoWorker.start (M := M) n)
      (IoSystem.start (M := M) 1 (List.replicate n 0)).shared where
  outputs := by simp [IoSystem.start, IoThr.start]
  stop := rfl
  outputLock := rfl
  ioLock := rfl
  ioOutput := rfl
  res := rfl
  ready h := by
    have : n ≠ 0 := by simpa [IoThr.start] using h
    simp [IoWorker.start, IoThr.start, this]
  ended h := by
    have : n = 0 := by simpa [IoThr.start] using h
    simp [IoWorker.start, this, IoPc.ended]

/-- A thread that nothing comes between does in the system what it does by itself: its turns make up
the rounds of its loop. -/
theorem io_alone (io : Io) (dup : M → M) (n : Nat) (rounds : List (IoRound M))
    (log : List (List (IoAction M))) (thr : IoThr)
    (hrun : StepRun.run (fun s round => ioThrInput io dup round s) (IoThr.start n) rounds =
      .ok (log, thr)) :
    ∃ turns : List Nat, turns.length = rounds.length ∧ ∃ answers w s,
      StepRun.run (ioStep io dup) (IoSystem.start 1 (List.replicate n 0))
          (List.zipWith (fun k round => List.replicate k (.thread 0 round)) turns rounds).flatten =
        .ok (answers, ⟨s, [w]⟩) ∧
      s.log = logged log.flatten ∧ IoTracks thr w s := by
  suffices ∀ (thr₀ : IoThr) (w₀ : IoWorker M) (s₀ : IoShared M),
      StepRun.run (fun s round => ioThrInput io dup round s) thr₀ rounds = .ok (log, thr) →
      IoTracks thr₀ w₀ s₀ → ∃ turns : List Nat, turns.length = rounds.length ∧ ∃ answers w s,
        StepRun.run (ioStep io dup) ⟨s₀, [w₀]⟩
            (List.zipWith (fun k round => List.replicate k (.thread 0 round)) turns rounds).flatten =
          .ok (answers, ⟨s, [w]⟩) ∧
        s.log = s₀.log ++ logged log.flatten ∧ IoTracks thr w s by
    have hstart := this _ _ _ hrun (ioTracks_start n)
    simp only [IoSystem.start, List.replicate_one, List.length_replicate, List.nil_append] at hstart ⊢
    exact hstart
  clear hrun
  induction rounds generalizing log with
  | nil =>
      intro thr₀ w₀ s₀ hrun htracks
      cases hrun
      exact ⟨[], rfl, [], w₀, s₀, rfl, (List.append_nil _).symm, htracks⟩
  | cons round rest ih =>
      intro thr₀ w₀ s₀ hrun htracks
      obtain ⟨actions, thr₁, log', hround, hrest, rfl⟩ := StepRun.run_cons_eq_ok.mp hrun
      obtain ⟨w₁, s₁, hreach, htracks₁, hlog⟩ := reaches_round hround htracks
      obtain ⟨k, answers, hturns⟩ := hreach.run
      obtain ⟨turns, hlength, answers', w, s, hrun', hlog', htracks'⟩ :=
        ih log' thr₁ w₁ s₁ hrest htracks₁
      refine ⟨k :: turns, congrArg Nat.succ hlength, answers ++ answers', w, s, ?_, ?_, htracks'⟩
      · exact StepRun.run_append hturns hrun'
      · rw [hlog', hlog, List.flatten_cons, logged_append, List.append_assoc]

theorem io_alone_two :
    ∃ log thr, StepRun.run (fun s round => ioThrInput ⟨1, 0, .mirror, true⟩ id round s)
        (IoThr.start 2) [.delivering 7, .delivering 9] = .ok (log, thr) ∧
      ∃ turns : List Nat, turns.length = 2 ∧ ∃ answers w s,
        StepRun.run (ioStep ⟨1, 0, .mirror, true⟩ id) (IoSystem.start 1 (List.replicate 2 0))
            (List.zipWith (fun k round => List.replicate k (.thread 0 round)) turns
              [.delivering 7, .delivering 9]).flatten = .ok (answers, ⟨s, [w]⟩) ∧
        s.log = logged log.flatten ∧ IoTracks thr w s :=
  ⟨_, _, rfl, io_alone ⟨1, 0, .mirror, true⟩ id 2 [.delivering 7, .delivering 9] _ _ rfl⟩

end Nmsg

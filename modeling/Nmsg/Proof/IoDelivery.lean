import Nmsg.Proof.IoTurns
import Nmsg.Proof.Rotation

/-!
# Where the messages of the inputs go

Whatever the order in which the threads come, each writes the messages of its input one after the
other to the outputs whose turn it is: no message is left out, and none is written twice. Only the
last message of a thread may fail to reach its outputs.
-/

namespace Nmsg

open Interleave

variable {M : Type*} {io : Io} {dup : M → M} {mode : IoOutputMode} {n t u : Nat} {env : IoRound M}
  {w w' : IoWorker M} {s s' : IoShared M} {log : List (Nat × IoAction M)}

theorem planned_append (taken : List M) (msg : M) :
    planned mode dup n (taken ++ [msg]) =
      planned mode dup n taken ++ targets mode dup n (taken.length % n) msg := by
  simp [planned, List.zipIdx_append]

theorem writesBy_append (front back : List (Nat × IoAction M)) :
    writesBy t (front ++ back) = writesBy t front ++ writesBy t back :=
  List.filterMap_append

theorem writesBy_wrote (j : Nat) (msg : M) :
    writesBy t (log ++ [(u, .wrote j msg)]) =
      if u = t then writesBy t log ++ [(j, msg)] else writesBy t log := by
  rw [writesBy_append]
  split <;> simp [writesBy, *]

theorem writesBy_closed (j : Nat) (type : IoCloseType) :
    writesBy t (log ++ [(u, .closed j type)]) = writesBy t log := by
  rw [writesBy_append]
  simp [writesBy]

/-- Whether the last message taken is still the one the thread is busy with. -/
def IoPc.inHand : IoPc M → Bool
  | .read => false
  | .received _ _ => false
  | .lockClose wrote => wrote
  | .countCheck wrote => wrote
  | .intervalCheck wrote => wrote
  | .setStop wrote => wrote
  | .unlockClose wrote => wrote
  | .testStop wrote => wrote
  | _ => true

theorem IoPc.Checks.same {pc pc' : IoPc M} (h : pc.Checks pc') :
    pc'.pending = pc.pending ∧ pc'.inHand = pc.inHand ∧ pc.ended = false ∧ pc'.ended = false := by
  cases h <;> exact ⟨rfl, rfl, rfl, rfl⟩

/-- What holds of a thread all along. -/
structure IoDelivers (mode : IoOutputMode) (dup : M → M) (n t : Nat) (w : IoWorker M)
    (s : IoShared M) : Prop where
  outputs : s.outputs.length = n
  place : w.pc.ended = false → 0 < n ∧ (w.pc.inHand = true → w.taken ≠ []) ∧
    w.ioOutput = (w.taken.length - if w.pc.inHand then 1 else 0) % n
  sent : writesBy t s.log ++ w.pc.pending = planned mode dup n w.taken
  whole : planned mode dup n w.taken.dropLast <+: writesBy t s.log

/-- A turn that writes nothing, takes nothing and leaves the message in hand as it is. -/
theorem IoDelivers.move {pc : IoPc M} (h : IoDelivers mode dup n t w s) (hpc : w.pc = pc)
    (hlog : writesBy t s'.log = writesBy t s.log) (hout : s'.outputs.length = s.outputs.length)
    (htaken : w'.taken = w.taken) (hpending : w'.pc.pending = pc.pending)
    (hplace : w'.pc.ended = false →
      pc.ended = false ∧ w'.ioOutput = w.ioOutput ∧ w'.pc.inHand = pc.inHand) :
    IoDelivers mode dup n t w' s' where
  outputs := hout.trans h.outputs
  place := by
    intro hended
    obtain ⟨hended', hio, hhand⟩ := hplace hended
    rw [hio, hhand, htaken, ← hpc]
    exact h.place (hpc ▸ hended')
  sent := by
    rw [hlog, hpending, htaken, ← hpc]
    exact h.sent
  whole := by
    rw [hlog, htaken]
    exact h.whole

theorem IoDelivers.take {msg : M} (h : IoDelivers mode dup n t w s)
    (hpc : w.pc = .received .success (some msg)) :
    IoDelivers mode dup n t { w with
      pc := .lockOutput (targets mode dup s.outputs.length w.ioOutput msg)
      taken := w.taken ++ [msg] } s := by
  obtain ⟨hn, -, hio⟩ := h.place (by rw [hpc]; rfl)
  have hsent := h.sent
  rw [hpc] at hio hsent
  replace hsent : writesBy t s.log = planned mode dup n w.taken :=
    (List.append_nil _).symm.trans hsent
  replace hio : w.ioOutput = w.taken.length % n := hio
  constructor
  · exact h.outputs
  · intro _
    refine ⟨hn, fun _ => List.append_ne_nil_of_right_ne_nil _ (List.cons_ne_nil _ _), ?_⟩
    simp [IoPc.inHand, hio]
  · rw [planned_append, hsent, h.outputs, hio]
    rfl
  · have hbefore : planned mode dup n (w.taken ++ [msg]).dropLast = writesBy t s.log :=
      (congrArg _ List.dropLast_concat).trans hsent.symm
    exact hbefore ▸ List.prefix_refl _

theorem IoDelivers.write {j : Nat} {msg : M} {todo : List (Nat × M)}
    (h : IoDelivers mode dup n t w s) (hpc : w.pc = .write j msg todo) :
    IoDelivers mode dup n t { w with pc := .unlockOutput .success j msg todo }
      { s with log := s.log ++ [(t, .wrote j msg)] } := by
  constructor
  · exact h.outputs
  · intro _
    have := h.place (by rw [hpc]; rfl)
    rwa [hpc] at this
  · have := h.sent
    rw [hpc] at this
    rw [writesBy_wrote, if_pos rfl, List.append_assoc]
    exact this
  · rw [writesBy_wrote, if_pos rfl]
    exact h.whole.trans (List.prefix_append _ _)

theorem IoDelivers.nextOutput (h : IoDelivers mode dup n t w s) (hpc : w.pc = .nextOutput) :
    IoDelivers mode dup n t { w with
      pc := .read
      ioOutput := if w.ioOutput + 1 < s.outputs.length then w.ioOutput + 1 else 0 } s := by
  obtain ⟨hn, htaken, hio⟩ := h.place (by rw [hpc]; rfl)
  constructor
  · exact h.outputs
  · intro _
    refine ⟨hn, by rintro ⟨⟩, ?_⟩
    have hlen : 0 < w.taken.length := List.length_pos_iff.mpr (htaken (by rw [hpc]; rfl))
    rw [hpc] at hio
    simp only [IoPc.inHand, ↓reduceIte] at hio
    have hsucc := succ_mod_eq hn (w.taken.length - 1)
    rw [Nat.sub_add_cancel hlen] at hsucc
    simp only [IoPc.inHand, Bool.false_eq_true, ↓reduceIte, Nat.sub_zero]
    rw [hsucc, h.outputs, hio]
  · have := h.sent
    rwa [hpc] at this
  · exact h.whole

/-- A turn of the thread. -/
theorem IoDelivers.turned (h : IoDelivers io.outputMode dup n t w s)
    (hturn : Turned io dup t env w s w' s') : IoDelivers io.outputMode dup n t w' s' := by
  cases hturn with
  | stay => exact h
  | read hpc => exact h.move hpc rfl rfl rfl rfl fun _ => ⟨rfl, rfl, rfl⟩
  | finish res res' msg hpc => exact h.move hpc rfl rfl rfl rfl (by rintro ⟨⟩)
  | again msg hpc => exact h.move hpc rfl rfl rfl rfl fun _ => ⟨rfl, rfl, rfl⟩
  | take msg hpc => exact h.take hpc
  | sent hpc => exact h.move hpc rfl rfl rfl rfl fun _ => ⟨rfl, rfl, rfl⟩
  | lockOutput j msg todo hpc => exact h.move hpc rfl rfl rfl rfl fun _ => ⟨rfl, rfl, rfl⟩
  | passOutput j msg todo hpc => exact h.move hpc rfl rfl rfl rfl fun _ => ⟨rfl, rfl, rfl⟩
  | refuse res j msg todo hpc hres =>
      exact h.move hpc rfl rfl rfl (if_neg hres) fun _ => ⟨rfl, rfl, rfl⟩
  | write out j msg todo hpc => exact h.write hpc
  | giveUp res j msg todo hpc hres =>
      refine h.move hpc ?_ ?_ rfl (if_neg hres).symm (by rintro ⟨⟩)
      · split <;> rfl
      · split <;> rfl
  | unlockOutput j msg todo hpc =>
      refine h.move hpc ?_ ?_ rfl rfl fun _ => ⟨rfl, rfl, rfl⟩
      · split <;> rfl
      · split <;> rfl
  | loadCount out j todo hpc => exact h.move hpc rfl rfl rfl rfl fun _ => ⟨rfl, rfl, rfl⟩
  | storeCount count j todo hpc =>
      exact h.move hpc rfl (List.length_modify ..) rfl rfl fun _ => ⟨rfl, rfl, rfl⟩
  | lockIo todo hpc => exact h.move hpc rfl rfl rfl rfl fun _ => ⟨rfl, rfl, rfl⟩
  | loadTotal todo hpc => exact h.move hpc rfl rfl rfl rfl fun _ => ⟨rfl, rfl, rfl⟩
  | storeTotal total todo hpc => exact h.move hpc rfl rfl rfl rfl fun _ => ⟨rfl, rfl, rfl⟩
  | unlockIo todo hpc => exact h.move hpc rfl rfl rfl rfl fun _ => ⟨rfl, rfl, rfl⟩
  | lockClose wrote hpc => exact h.move hpc rfl rfl rfl rfl fun _ => ⟨rfl, rfl, rfl⟩
  | passClose wrote hpc => exact h.move hpc rfl rfl rfl rfl fun _ => ⟨rfl, rfl, rfl⟩
  | check pc hpc =>
      obtain ⟨hpending, hhand, hended, -⟩ := hpc.same
      exact h.move rfl rfl rfl rfl hpending fun _ => ⟨hended, rfl, hhand⟩
  | close pc type f hpc =>
      obtain ⟨hpending, hhand, hended, -⟩ := hpc.same
      exact h.move rfl (writesBy_closed _ _) (List.length_modify ..) rfl hpending fun _ =>
        ⟨hended, rfl, hhand⟩
  | setStop wrote hpc => exact h.move hpc rfl rfl rfl rfl fun _ => ⟨rfl, rfl, rfl⟩
  | unlockClose wrote hpc =>
      refine h.move hpc ?_ ?_ rfl rfl fun _ => ⟨rfl, rfl, rfl⟩
      · split <;> rfl
      · split <;> rfl
  | stop wrote hpc =>
      rcases hpc with hpc | hpc
      · exact h.move hpc rfl rfl rfl rfl (by rintro ⟨⟩)
      · exact h.move hpc rfl rfl rfl rfl (by rintro ⟨⟩)
  | goOn hpc => exact h.move hpc rfl rfl rfl rfl fun _ => ⟨rfl, rfl, rfl⟩
  | retry hpc => exact h.move hpc rfl rfl rfl rfl fun _ => ⟨rfl, rfl, rfl⟩
  | nextOutput hpc => exact h.nextOutput hpc

/-- A turn keeps the number of outputs. -/
theorem Turned.length_outputs (h : Turned io dup t env w s w' s') :
    s'.outputs.length = s.outputs.length := by
  cases h with
  | storeCount => exact List.length_modify ..
  | close => exact List.length_modify ..
  | giveUp => split <;> rfl
  | unlockOutput => split <;> rfl
  | unlockClose => split <;> rfl
  | _ => rfl

/-- A turn of one thread writes nothing in the name of another. -/
theorem Turned.writesBy_of_ne (h : Turned io dup t env w s w' s') (hne : t ≠ u) :
    writesBy u s'.log = writesBy u s.log := by
  cases h with
  | write out j msg todo => rw [writesBy_wrote, if_neg hne]
  | close pc type f => rw [writesBy_closed]
  | giveUp => split <;> rfl
  | unlockOutput => split <;> rfl
  | unlockClose => split <;> rfl
  | _ => rfl

theorem IoDelivers.start (inputs : Nat) (lasts : List Int) :
    Each (IoDelivers mode dup lasts.length) (IoSystem.start inputs lasts : IoSystem M) := by
  intro t w hw
  have hstart : w = IoWorker.start lasts.length :=
    List.eq_of_mem_replicate (List.mem_of_getElem? hw)
  subst hstart
  refine ⟨List.length_map _, fun hended => ?_, ?_, List.prefix_refl _⟩
  · have hn : lasts.length ≠ 0 := by
      intro hzero
      rw [IoWorker.start, if_pos hzero] at hended
      cases hended
    rw [IoWorker.start, if_neg hn]
    exact ⟨Nat.pos_of_ne_zero hn, by rintro ⟨⟩, (Nat.zero_mod _).symm⟩
  · unfold IoWorker.start
    split <;> rfl

/-- **Delivery.** In whatever order the threads take their turns, what a thread has written is what
its input brings about, up to what its last message still misses: all messages before the last
have reached their outputs, in their order, and nothing was written twice. -/
theorem io_delivery (io : Io) (dup : M → M) (inputs : Nat) (lasts : List Int)
    (events : List (IoEvent M)) (answers : List Unit) (s : IoSystem M)
    (hrun : StepRun.run (ioStep io dup) (IoSystem.start inputs lasts) events = .ok (answers, s))
    (t : Nat) (w : IoWorker M) (hw : s.threads[t]? = some w) :
    writesBy t s.shared.log ++ w.pc.pending = planned io.outputMode dup lasts.length w.taken ∧
      planned io.outputMode dup lasts.length w.taken.dropLast <+: writesBy t s.shared.log := by
  have hinv : Each (IoDelivers io.outputMode dup lasts.length) s := by
    refine io_invariant (fun _ => True) (Each (IoDelivers io.outputMode dup lasts.length)) ?_ ?_
      (IoDelivers.start inputs lasts) (fun _ _ _ => trivial) hrun
    · intro u env v v' s shared hinv _ hv hturn
      refine hinv.set ((hinv u v hv).turned hturn) fun u' v'' hne hv'' h => ?_
      exact h.move rfl (hturn.writesBy_of_ne (Ne.symm hne)) hturn.length_outputs rfl rfl fun hended =>
        ⟨hended, rfl, rfl⟩
    · intro s hinv u v hv
      exact (hinv u v hv).move rfl rfl rfl rfl rfl fun hended => ⟨hended, rfl, rfl⟩
  exact ⟨(hinv t w hw).sent, (hinv t w hw).whole⟩

theorem io_delivery_two :
    ∃ answers s w, StepRun.run (ioStep ⟨2, 0, .stripe, true⟩ id) (IoSystem.start 2 [0, 0])
        (List.replicate 25 [.thread 1 (.delivering 9), .thread 0 (.delivering 7)]).flatten =
          .ok (answers, s) ∧
      s.threads[0]? = some w ∧ w.taken = [7, 7] ∧
      writesBy 0 s.shared.log ++ w.pc.pending = planned .stripe id 2 w.taken ∧
      planned .stripe id 2 w.taken.dropLast <+: writesBy 0 s.shared.log :=
  ⟨_, _, _, rfl, rfl, rfl,
    io_delivery ⟨2, 0, .stripe, true⟩ id 2 [0, 0]
      (List.replicate 25 [.thread 1 (.delivering 9), .thread 0 (.delivering 7)]).flatten _ _ rfl 0 _
      rfl⟩

end Nmsg

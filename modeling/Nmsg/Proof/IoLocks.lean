import Nmsg.Proof.IoTurns

/-!
# Locks and counters of an `nmsg_io`

The lock of an output keeps the threads apart that write to it or close it, where there is a
`close_fp`, and that of the `nmsg_io` those that add to its counter. That counter is exact therefore.
The counter of an output is loaded and stored without a lock: of two threads that add to it one may
undo what the other did, so that it falls behind.
-/

namespace Nmsg

open Interleave

variable {M : Type*} {io : Io} {dup : M → M} {n t : Nat} {env : IoRound M}
  {w w' : IoWorker M} {s s' : IoShared M}

theorem IoPc.Checks.holds {pc : IoPc M} (h : w.pc.Checks pc) :
    w.holds = some w.ioOutput ∧ IoWorker.holds { w with pc := pc } = some w.ioOutput := by
  obtain ⟨old, ioOutput, now, res, taken⟩ := w
  cases h <;> exact ⟨rfl, rfl⟩

theorem IoPc.Checks.counts {pc : IoPc M} (h : w.pc.Checks pc) :
    w.uncounted = 0 ∧ IoWorker.uncounted { w with pc := pc } = 0 ∧ ¬ w.holdsIo ∧
      ¬ IoWorker.holdsIo { w with pc := pc } := by
  obtain ⟨old, ioOutput, now, res, taken⟩ := w
  cases h <;> exact ⟨rfl, rfl, not_false, not_false⟩

theorem IoPc.Checks.countsOn {pc : IoPc M} (h : w.pc.Checks pc) (j : Nat) :
    w.uncountedOn j = 0 ∧ IoWorker.uncountedOn j { w with pc := pc } = 0 := by
  obtain ⟨old, ioOutput, now, res, taken⟩ := w
  cases h <;> exact ⟨rfl, rfl⟩

/-- What a turn does to the lock of output `j`: nothing, take it or release it. -/
theorem Turned.outputLock (h : Turned io dup t env w s w' s') (hclose : io.closeFp = true) (j : Nat) :
    ((w'.holds = some j ↔ w.holds = some j) ∧ s'.outputLock j = s.outputLock j) ∨
      (s.outputLock j = none ∧ w'.holds = some j ∧ s'.outputLock j = some t) ∨
      (w.holds = some j ∧ w'.holds ≠ some j ∧ s'.outputLock j = none) := by
  cases h with
  | lockOutput i msg todo hpc _ hlock =>
      by_cases hij : i = j
      · subst hij
        exact Or.inr (Or.inl ⟨hlock, rfl, Function.update_self ..⟩)
      · refine Or.inl ⟨?_, Function.update_of_ne (Ne.symm hij) ..⟩
        simp [IoWorker.holds, hpc, hij]
  | lockClose wrote hpc _ hlock =>
      by_cases hij : w.ioOutput = j
      · subst hij
        exact Or.inr (Or.inl ⟨hlock, rfl, Function.update_self ..⟩)
      · refine Or.inl ⟨?_, Function.update_of_ne (Ne.symm hij) ..⟩
        simp [IoWorker.holds, hpc, hij]
  | giveUp res i msg todo hpc =>
      rw [if_pos hclose]
      by_cases hij : i = j
      · subst hij
        exact Or.inr (Or.inr ⟨by simp [IoWorker.holds, hpc], by rintro ⟨⟩, Function.update_self ..⟩)
      · refine Or.inl ⟨?_, Function.update_of_ne (Ne.symm hij) ..⟩
        simp [IoWorker.holds, hpc, hij]
  | unlockOutput i msg todo hpc =>
      rw [if_pos hclose]
      by_cases hij : i = j
      · subst hij
        exact Or.inr (Or.inr ⟨by simp [IoWorker.holds, hpc], by rintro ⟨⟩, Function.update_self ..⟩)
      · refine Or.inl ⟨?_, Function.update_of_ne (Ne.symm hij) ..⟩
        simp [IoWorker.holds, hpc, hij]
  | unlockClose wrote hpc =>
      rw [if_pos hclose]
      by_cases hij : w.ioOutput = j
      · subst hij
        exact Or.inr (Or.inr ⟨by simp [IoWorker.holds, hpc], by rintro ⟨⟩, Function.update_self ..⟩)
      · refine Or.inl ⟨?_, Function.update_of_ne (Ne.symm hij) ..⟩
        simp [IoWorker.holds, hpc, hij]
  | check pc hpc => exact Or.inl ⟨by rw [hpc.holds.1, hpc.holds.2], rfl⟩
  | close pc type f hpc => exact Or.inl ⟨by rw [hpc.holds.1, hpc.holds.2], rfl⟩
  | stay => exact Or.inl ⟨Iff.rfl, rfl⟩
  | stop wrote hpc =>
      refine Or.inl ⟨?_, rfl⟩
      rcases hpc with hpc | hpc <;> simp [IoWorker.holds, hpc]
  | passOutput i msg todo hpc hopen => rw [hclose] at hopen; cases hopen
  | passClose wrote hpc hopen => rw [hclose] at hopen; cases hopen
  | _ => exact Or.inl ⟨by simp [IoWorker.holds, *], rfl⟩

/-- What a turn does to the lock of the `nmsg_io`. -/
theorem Turned.ioLock (h : Turned io dup t env w s w' s') :
    ((w'.holdsIo ↔ w.holdsIo) ∧ s'.ioLock = s.ioLock) ∨
      (s.ioLock = none ∧ w'.holdsIo ∧ s'.ioLock = some t) ∨
      (w.holdsIo ∧ ¬ w'.holdsIo ∧ s'.ioLock = none) := by
  cases h with
  | lockIo todo hpc hlock => exact Or.inr (Or.inl ⟨hlock, trivial, rfl⟩)
  | unlockIo todo hpc =>
      exact Or.inr (Or.inr ⟨by simp [IoWorker.holdsIo, hpc], not_false, rfl⟩)
  | check pc hpc => exact Or.inl ⟨iff_of_false hpc.counts.2.2.2 hpc.counts.2.2.1, rfl⟩
  | close pc type f hpc => exact Or.inl ⟨iff_of_false hpc.counts.2.2.2 hpc.counts.2.2.1, rfl⟩
  | stay => exact Or.inl ⟨Iff.rfl, rfl⟩
  | stop wrote hpc =>
      refine Or.inl ⟨?_, rfl⟩
      rcases hpc with hpc | hpc <;> simp [IoWorker.holdsIo, hpc]
  | giveUp => refine Or.inl ⟨?_, ?_⟩ <;> [simp [IoWorker.holdsIo, *]; split <;> rfl]
  | unlockOutput => refine Or.inl ⟨?_, ?_⟩ <;> [simp [IoWorker.holdsIo, *]; split <;> rfl]
  | unlockClose => refine Or.inl ⟨?_, ?_⟩ <;> [simp [IoWorker.holdsIo, *]; split <;> rfl]
  | _ => exact Or.inl ⟨by simp [IoWorker.holdsIo, *], rfl⟩

/-! ### Counters -/

section Log

variable {log : List (Nat × IoAction M)} (u i j : Nat)

theorem writesAll_wrote (msg : M) : writesAll (log ++ [(u, .wrote i msg)]) = writesAll log + 1 := by
  simp [writesAll]

theorem writesAll_closed (type : IoCloseType) :
    writesAll (log ++ [(u, .closed i type)]) = writesAll log := by
  simp [writesAll]

theorem writesTo_wrote (msg : M) :
    writesTo j (log ++ [(u, .wrote i msg)]) = writesTo j log + if i = j then 1 else 0 := by
  simp [writesTo, List.countP_append, List.countP_cons]

theorem writesTo_closed (type : IoCloseType) :
    writesTo j (log ++ [(u, .closed i type)]) = writesTo j log := by
  simp [writesTo]

end Log

/-- What is counted or about to be counted for the `nmsg_io` grows with what is written. -/
theorem Turned.total (h : Turned io dup t env w s w' s')
    (hloaded : ∀ total todo, w.pc = .storeTotal total todo → total = s.countNmsgPayloadOut) :
    s'.countNmsgPayloadOut + w'.uncounted + writesAll s.log =
      s.countNmsgPayloadOut + w.uncounted + writesAll s'.log := by
  cases h with
  | write out i msg todo hpc =>
      rw [writesAll_wrote]
      simp only [IoWorker.uncounted, hpc, ↓reduceIte]
      omega
  | storeTotal total todo hpc =>
      rw [hloaded total todo hpc]
      simp only [IoWorker.uncounted, hpc]
  | close pc type f hpc =>
      rw [writesAll_closed, hpc.counts.1, hpc.counts.2.1]
  | check pc hpc => rw [hpc.counts.1, hpc.counts.2.1]
  | stay => rfl
  | stop wrote hpc => rcases hpc with hpc | hpc <;> simp [IoWorker.uncounted, hpc]
  | giveUp => split <;> simp [IoWorker.uncounted, *]
  | unlockOutput => split <;> simp [IoWorker.uncounted, *]
  | unlockClose => split <;> simp [IoWorker.uncounted, *]
  | _ => simp [IoWorker.uncounted, *]

/-- A thread that is about to store the counter of the `nmsg_io` has loaded it, unless it did so
before. -/
theorem Turned.loadedTotal (h : Turned io dup t env w s w' s') {total : Nat} {todo : List (Nat × M)}
    (hpc' : w'.pc = .storeTotal total todo) :
    s'.countNmsgPayloadOut = s.countNmsgPayloadOut ∧ (w' = w ∨ total = s.countNmsgPayloadOut) := by
  cases h with
  | loadTotal todo' hpc =>
      cases hpc'
      exact ⟨rfl, Or.inr rfl⟩
  | stay => exact ⟨rfl, Or.inl rfl⟩
  | check pc hpc =>
      subst hpc'
      generalize w.pc = old at hpc
      cases hpc
  | close pc type f hpc =>
      subst hpc'
      generalize w.pc = old at hpc
      cases hpc
  | _ => cases hpc'

/-- The counter of the `nmsg_io` changes only where the `nmsg_io` is locked. -/
theorem Turned.total_of_not_holdsIo (h : Turned io dup t env w s w' s') (hnot : ¬ w.holdsIo) :
    s'.countNmsgPayloadOut = s.countNmsgPayloadOut := by
  cases h with
  | storeTotal total todo hpc => exact absurd (by simp [IoWorker.holdsIo, hpc]) hnot
  | giveUp => split <;> rfl
  | unlockOutput => split <;> rfl
  | unlockClose => split <;> rfl
  | _ => rfl

/-- The payloads counted for an output become no fewer. -/
theorem Turned.counted_le (h : Turned io dup t env w s w' s') (j : Nat) :
    writesTo j s.log + w'.uncountedOn j ≤ writesTo j s'.log + w.uncountedOn j := by
  cases h with
  | write out i msg todo hpc =>
      rw [writesTo_wrote]
      simp only [IoWorker.uncountedOn, hpc, true_and]
      omega
  | close pc type f hpc =>
      rw [writesTo_closed, (hpc.countsOn j).1, (hpc.countsOn j).2]
  | check pc hpc => rw [(hpc.countsOn j).1, (hpc.countsOn j).2]
  | stay => exact le_rfl
  | stop wrote hpc => rcases hpc with hpc | hpc <;> simp [IoWorker.uncountedOn, hpc]
  | giveUp => split <;> simp [IoWorker.uncountedOn, *]
  | unlockOutput => split <;> simp [IoWorker.uncountedOn, *]
  | unlockClose => split <;> simp [IoWorker.uncountedOn, *]
  | _ => simp [IoWorker.uncountedOn, *]

/-- The counter of an output stays, or a thread stores there one more than it has loaded. -/
theorem Turned.count (h : Turned io dup t env w s w' s') {j : Nat} {out' : IoOutput}
    (hout' : s'.outputs[j]? = some out') :
    (∃ out, s.outputs[j]? = some out ∧ out'.countNmsgPayloadOut = out.countNmsgPayloadOut) ∨
      ∃ count todo, w.pc = .storeCount count j todo ∧ out'.countNmsgPayloadOut = count + 1 ∧
        w'.uncountedOn j = 0 ∧ s'.log = s.log := by
  cases h with
  | storeCount count i todo hpc =>
      by_cases hij : i = j
      · subst hij
        rw [List.getElem?_modify_eq] at hout'
        obtain ⟨out, -, rfl⟩ := Option.map_eq_some_iff.mp hout'
        exact Or.inr ⟨count, todo, hpc, rfl, rfl, rfl⟩
      · rw [List.getElem?_modify_ne (h := hij)] at hout'
        exact Or.inl ⟨out', hout', rfl⟩
  | close pc type f hpc _ hf =>
      rw [List.getElem?_modify] at hout'
      obtain ⟨out, hout, rfl⟩ := Option.map_eq_some_iff.mp hout'
      refine Or.inl ⟨out, hout, ?_⟩
      split
      · exact hf out
      · rfl
  | giveUp =>
      refine Or.inl ⟨out', ?_, rfl⟩
      split at hout' <;> exact hout'
  | unlockOutput =>
      refine Or.inl ⟨out', ?_, rfl⟩
      split at hout' <;> exact hout'
  | unlockClose =>
      refine Or.inl ⟨out', ?_, rfl⟩
      split at hout' <;> exact hout'
  | _ => exact Or.inl ⟨out', hout', rfl⟩

/-- A thread that is about to store the counter of an output has loaded it, unless it did so
before. -/
theorem Turned.loadedCount (h : Turned io dup t env w s w' s') {count j : Nat}
    {todo : List (Nat × M)} (hpc' : w'.pc = .storeCount count j todo) :
    w' = w ∨ ∃ out, s.outputs[j]? = some out ∧ count = out.countNmsgPayloadOut := by
  cases h with
  | loadCount out i todo' hpc hout =>
      cases hpc'
      exact Or.inr ⟨out, hout, rfl⟩
  | stay => exact Or.inl rfl
  | check pc hpc =>
      subst hpc'
      generalize w.pc = old at hpc
      cases hpc
  | close pc type f hpc =>
      subst hpc'
      generalize w.pc = old at hpc
      cases hpc
  | _ => cases hpc'

/-- Who holds which lock. -/
structure IoLocked (io : Io) (s : IoSystem M) : Prop where
  output : io.closeFp = true → ∀ j, Held (fun w => w.holds = some j) (s.shared.outputLock j) s.threads
  io : Held IoWorker.holdsIo s.shared.ioLock s.threads

theorem IoLocked.turned {s : IoSystem M} {shared : IoShared M} (h : IoLocked io s)
    (hw : s.threads[t]? = some w) (hturn : Turned io dup t env w s.shared w' shared) :
    IoLocked io ⟨shared, s.threads.set t w'⟩ where
  output := by
    intro hclose j
    have hheld := h.output hclose j
    rcases hturn.outputLock hclose j with ⟨hsame, hlock⟩ | ⟨hfree, hin, hlock⟩ | ⟨hin, hout, hlock⟩
    · rw [hlock]
      exact hheld.keep hw hsame
    · rw [hfree] at hheld
      rw [hlock]
      exact hheld.acquire hw hin
    · rw [hlock]
      exact hheld.release hw hin hout
  io := by
    have hheld := h.io
    rcases hturn.ioLock with ⟨hsame, hlock⟩ | ⟨hfree, hin, hlock⟩ | ⟨hin, hout, hlock⟩
    · rw [hlock]
      exact hheld.keep hw hsame
    · rw [hfree] at hheld
      rw [hlock]
      exact hheld.acquire hw hin
    · rw [hlock]
      exact hheld.release hw hin hout

theorem holds_start (n : Nat) : (IoWorker.start n : IoWorker M).holds = none := by
  unfold IoWorker.start
  split <;> rfl

theorem not_holdsIo_start (n : Nat) : ¬ (IoWorker.start n : IoWorker M).holdsIo := by
  unfold IoWorker.start
  split <;> exact not_false

theorem IoLocked.start (io : Io) (inputs : Nat) (lasts : List Int) :
    IoLocked io (IoSystem.start inputs lasts : IoSystem M) where
  output := by
    intro _ j u
    refine iff_of_false (Option.some_ne_none u).symm ?_
    rintro ⟨w, hw, hin⟩
    rw [List.eq_of_mem_replicate (List.mem_of_getElem? hw), holds_start] at hin
    cases hin
  io := by
    intro u
    refine iff_of_false (Option.some_ne_none u).symm ?_
    rintro ⟨w, hw, hin⟩
    rw [List.eq_of_mem_replicate (List.mem_of_getElem? hw)] at hin
    exact not_holdsIo_start _ hin

/-- How the counters stand to what was written. -/
structure IoCounted (s : IoSystem M) : Prop where
  total : s.shared.countNmsgPayloadOut + (s.threads.map IoWorker.uncounted).sum =
    writesAll s.shared.log
  loadedTotal : Each (fun _ w shared => ∀ total todo, w.pc = .storeTotal total todo →
    total = shared.countNmsgPayloadOut) s
  count : ∀ j out, s.shared.outputs[j]? = some out →
    out.countNmsgPayloadOut + (s.threads.map (IoWorker.uncountedOn j)).sum ≤ writesTo j s.shared.log
  loadedCount : ∀ (t : Nat) (w : IoWorker M), s.threads[t]? = some w → ∀ count j todo,
    w.pc = .storeCount count j todo →
    count + (s.threads.map (IoWorker.uncountedOn j)).sum ≤ writesTo j s.shared.log

theorem IoCounted.turned {s : IoSystem M} {shared : IoShared M} (hlocked : IoLocked io s)
    (h : IoCounted s) (hw : s.threads[t]? = some w)
    (hturn : Turned io dup t env w s.shared w' shared) :
    IoCounted ⟨shared, s.threads.set t w'⟩ := by
  have hmore : ∀ j, writesTo j s.shared.log + ((s.threads.set t w').map (IoWorker.uncountedOn j)).sum ≤
      writesTo j shared.log + (s.threads.map (IoWorker.uncountedOn j)).sum := by
    intro j
    have hsum := @sum_map_set _ (IoWorker.uncountedOn j) _ _ _ w' hw
    have := hturn.counted_le j
    omega
  constructor
  · have hsum := @sum_map_set _ IoWorker.uncounted _ _ _ w' hw
    have := hturn.total (h.loadedTotal t w hw)
    have := h.total
    simp only
    omega
  · refine h.loadedTotal.set ?_ fun u v hne hv hloaded total todo hpc => ?_
    · intro total todo hpc'
      obtain ⟨hsame, hbefore | htotal⟩ := hturn.loadedTotal hpc'
      · rw [hsame]
        exact h.loadedTotal t w hw total todo (hbefore ▸ hpc')
      · rw [hsame, htotal]
    · have hnot : ¬ w.holdsIo := fun hin =>
        hne (hlocked.io.exclusive hv (by simp [IoWorker.holdsIo, hpc]) hw hin)
      rw [hturn.total_of_not_holdsIo hnot]
      exact hloaded total todo hpc
  · intro j out' hout'
    have hm := hmore j
    rcases hturn.count hout' with ⟨out, hout, hsame⟩ | ⟨count, todo, hpc, hstored, hdone, hlog⟩
    · have := h.count j out hout
      rw [hsame]
      simp only
      omega
    · have := h.loadedCount t w hw count j todo hpc
      have hsum := @sum_map_set _ (IoWorker.uncountedOn j) _ _ _ w' hw
      have hone : w.uncountedOn j = 1 := by simp [IoWorker.uncountedOn, hpc]
      rw [hstored]
      simp only [hlog]
      omega
  · intro u v hv count j todo hpc
    have hm := hmore j
    have hbound : count + (s.threads.map (IoWorker.uncountedOn j)).sum ≤ writesTo j s.shared.log := by
      rcases threads_set_cases hv with ⟨rfl, rfl⟩ | ⟨-, hv⟩
      · rcases hturn.loadedCount hpc with rfl | ⟨out, hout, rfl⟩
        · exact h.loadedCount u v hw count j todo hpc
        · exact h.count j out hout
      · exact h.loadedCount u v hv count j todo hpc
    simp only
    omega

theorem IoCounted.start (inputs : Nat) (lasts : List Int) :
    IoCounted (IoSystem.start inputs lasts : IoSystem M) := by
  have hstart : ∀ (t : Nat) (w : IoWorker M),
      (IoSystem.start inputs lasts : IoSystem M).threads[t]? = some w →
      w.pc = .read ∨ w.pc = .done [] := by
    intro t w hw
    rw [List.eq_of_mem_replicate (List.mem_of_getElem? hw)]
    unfold IoWorker.start
    split <;> simp
  have hzero : ∀ f : IoWorker M → Nat, (∀ w : IoWorker M, w.pc = .read ∨ w.pc = .done [] → f w = 0) →
      ((IoSystem.start inputs lasts : IoSystem M).threads.map f).sum = 0 := by
    intro f hf
    refine List.sum_eq_zero fun x hx => ?_
    obtain ⟨w, hw, rfl⟩ := List.mem_map.mp hx
    obtain ⟨t, ht, rfl⟩ := List.getElem_of_mem hw
    exact hf _ (hstart t _ (List.getElem?_eq_getElem ht))
  constructor
  · rw [hzero _ fun w hw => by rcases hw with hw | hw <;> simp [IoWorker.uncounted, hw]]
    rfl
  · intro t w hw total todo hpc
    rcases hstart t w hw with h | h <;> rw [hpc] at h <;> cases h
  · intro j out hout
    rw [hzero _ fun w hw => by rcases hw with hw | hw <;> simp [IoWorker.uncountedOn, hw]]
    obtain ⟨last, -, rfl⟩ : ∃ last, lasts[j]? = some last ∧ ⟨true, last, 0⟩ = out := by
      simpa [IoSystem.start] using hout
    exact Nat.zero_le _
  · intro t w hw count j todo hpc
    rcases hstart t w hw with h | h <;> rw [hpc] at h <;> cases h

/-- **Accounting.** After every run the counter of the `nmsg_io` lacks only what threads have
written and are about to count, so that it is exact when all have ended. The counter of an output is
nowhere ahead of what the output has received. -/
theorem io_counts (io : Io) (dup : M → M) (inputs : Nat) (lasts : List Int)
    (events : List (IoEvent M)) (answers : List Unit) (s : IoSystem M)
    (hrun : StepRun.run (ioStep io dup) (IoSystem.start inputs lasts) events = .ok (answers, s)) :
    s.shared.countNmsgPayloadOut + (s.threads.map IoWorker.uncounted).sum =
        writesAll s.shared.log ∧
      ((∀ w ∈ s.threads, w.pc.ended = true) →
        s.shared.countNmsgPayloadOut = writesAll s.shared.log) ∧
      ∀ j out, s.shared.outputs[j]? = some out →
        out.countNmsgPayloadOut + (s.threads.map (IoWorker.uncountedOn j)).sum ≤
          writesTo j s.shared.log := by
  have hinv : IoLocked io s ∧ IoCounted s := by
    refine io_invariant (fun _ => True) (fun s => IoLocked io s ∧ IoCounted s) ?_ ?_
      ⟨.start io inputs lasts, .start inputs lasts⟩ (fun _ _ _ => trivial) hrun
    · rintro u env w w' s shared ⟨hlocked, hcounted⟩ _ hw hturn
      exact ⟨hlocked.turned hw hturn, hcounted.turned hlocked hw hturn⟩
    · rintro s ⟨hlocked, hcounted⟩
      exact ⟨⟨hlocked.output, hlocked.io⟩,
        ⟨hcounted.total, hcounted.loadedTotal, hcounted.count, hcounted.loadedCount⟩⟩
  refine ⟨hinv.2.total, fun hended => ?_, hinv.2.count⟩
  have hnone : (s.threads.map IoWorker.uncounted).sum = 0 := by
    refine List.sum_eq_zero fun x hx => ?_
    obtain ⟨w, hw, rfl⟩ := List.mem_map.mp hx
    have := hended w hw
    unfold IoWorker.uncounted
    cases hpc : w.pc <;> simp [hpc, IoPc.ended] at this ⊢
  have := hinv.2.total
  omega

theorem io_counts_two :
    ∃ answers s, StepRun.run (ioStep ⟨0, 0, .stripe, false⟩ id) (IoSystem.start 2 [0])
        (List.replicate 18 [.thread 0 (.delivering 7), .thread 1 (.delivering 9)]).flatten =
          .ok (answers, s) ∧
      s.shared.countNmsgPayloadOut + (s.threads.map IoWorker.uncounted).sum =
        writesAll s.shared.log :=
  ⟨_, _, rfl, (io_counts ⟨0, 0, .stripe, false⟩ id 2 [0]
    (List.replicate 18 [.thread 0 (.delivering 7), .thread 1 (.delivering 9)]).flatten _ _ rfl).1⟩

-- the second thread loads the counter of the output before the first one has stored it
example :
    (StepRun.run (ioStep ⟨0, 0, .stripe, false⟩ id) (IoSystem.start 2 [0])
        (List.replicate 18 [.thread 0 (.delivering 7), .thread 1 (.delivering 9)]).flatten).map
        (fun out => (writesTo 0 out.2.shared.log,
          out.2.shared.outputs.map IoOutput.countNmsgPayloadOut, out.2.shared.countNmsgPayloadOut)) =
      .ok (2, [1], 2) := rfl

end Nmsg

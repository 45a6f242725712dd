import Nmsg.Input.Brate
import Nmsg.Proof.OutputFrag

/-!
# Rate control and the first payload

The quantum of payloads is set when the first payload of a container is handed over, and the other
payloads divide by it. So all depends on whether, since the rate was set, the first payload of some
container passed the filter. A flag beside the input keeps track of that; the quantum is positive
exactly when the flag is set.
-/

namespace Nmsg

section Primed

variable {S : Type*} (crc32c : Bytes → UInt32) (fetch : StreamReadFp S)

/-- The container whose payloads come next, and the index of the first of them. -/
def StreamInput.nextPayload (s : StreamInput S) : Option (ProtoNmsg × Nat) :=
  match (streamAdvance s).nmsg with
  | some nmsg => some (nmsg, s.npIndex + 1)
  | none =>
      match fetch s.source with
      | .ok ((.success, some nmsg), _) => some (nmsg, 0)
      | _ => none

/-- The payload that is read next passes the filter, and is at an index that meets `P`. -/
def PassesNext (s : StreamInput S) (P : Nat → Prop) : Prop :=
  ∃ nmsg idx np, s.nextPayload fetch = some (nmsg, idx) ∧ nmsg.payloads[idx]? = some np ∧
    inputNmsgFilter crc32c s.filter nmsg idx np = true ∧ P idx

/-- An input, and whether a container's first payload passed the filter since the rate was set. -/
structure PrimedInput (S : Type*) where
  input : RatedInput S
  primed : Prop

def primedStep (s : PrimedInput S) (op : RatedOp) :
    Except Abort ((Res × Option Message) × PrimedInput S) :=
  (ratedStep crc32c fetch s.input op).map fun (answer, input) =>
    (answer, {
      input := input
      primed :=
        match op with
        | .read => s.primed ∨ PassesNext crc32c fetch s.input.stream (· = 0)
        | .setByteRate _ => False })

/-- Where a read comes to `_nmsg_brate_sleep` for a payload that is not the first of its container,
the quantum is positive. -/
def QuantumDefined (s : PrimedInput S) : RatedOp → Prop
  | .read => ∀ msg stream b, streamRead crc32c fetch s.input.stream = .ok ((.success, msg), stream) →
      s.input.brate = some b → 0 < stream.npIndex → 1 ≤ b.qu
  | .setByteRate _ => True

/-- A payload that is not the first of its container passes the filter, while there is a rate, only
when a first payload has passed it since the rate was set. -/
def FirstPassed (s : PrimedInput S) : RatedOp → Prop
  | .read => s.input.brate ≠ none → PassesNext crc32c fetch s.input.stream (0 < ·) → s.primed
  | .setByteRate _ => True

end Primed

variable {S : Type*} {crc32c : Bytes → UInt32} {fetch : StreamReadFp S}

theorem streamHandPayload_success {s s' : StreamInput S} {nmsg : ProtoNmsg} {msg : Option Message} :
    streamHandPayload crc32c s nmsg = .ok ((.success, msg), s') ↔
      ∃ np, nmsg.payloads[s.npIndex]? = some np ∧
        inputNmsgFilter crc32c s.filter nmsg s.npIndex np = true ∧
        msg = some (messageFromPayload np) ∧ s' = { s with nmsg := some nmsg } := by
  rw [streamHandPayload]
  constructor
  · intro h
    cases hget : nmsg.payloads[s.npIndex]? with
    | none => simp [hget] at h
    | some np =>
        simp only [hget] at h
        split at h
        · cases h
        · rename_i hpass
          cases h
          exact ⟨np, rfl, Bool.of_not_eq_false hpass, rfl, rfl⟩
  · rintro ⟨np, hget, hpass, rfl, rfl⟩
    simp only [hget]
    rw [if_neg (by rw [hpass]; exact Bool.noConfusion)]

/-- A read hands over the next payload exactly when it passes the filter. -/
theorem streamRead_success_iff (s : StreamInput S) (P : Nat → Prop) :
    (∃ msg s', streamRead crc32c fetch s = .ok ((.success, msg), s') ∧ P s'.npIndex) ↔
      PassesNext crc32c fetch s P := by
  have hfilter : (streamAdvance s).filter = s.filter := by
    unfold streamAdvance
    split
    · split <;> rfl
    · rfl
  have hsource : (streamAdvance s).source = s.source := by
    unfold streamAdvance
    split
    · split <;> rfl
    · rfl
  unfold PassesNext StreamInput.nextPayload
  rw [streamRead]
  cases hnmsg : (streamAdvance s).nmsg with
  | some nmsg =>
      have hindex : (streamAdvance s).npIndex = s.npIndex + 1 := by
        unfold streamAdvance at hnmsg ⊢
        split at hnmsg
        · split at hnmsg
          · cases hnmsg
          · rename_i hinside
            rw [if_neg hinside]
        · rename_i hnone
          exact absurd (hnone.symm.trans hnmsg) (by rintro ⟨⟩)
      simp only [streamHandPayload_success, hindex, hfilter]
      constructor
      · rintro ⟨msg, s', ⟨np, hget, hpass, -, rfl⟩, hP⟩
        exact ⟨nmsg, _, np, rfl, hget, hpass, hindex ▸ hP⟩
      · rintro ⟨nmsg', idx, np, hnext, hget, hpass, hP⟩
        cases hnext
        exact ⟨_, _, ⟨np, hget, hpass, rfl, rfl⟩, hindex.symm ▸ hP⟩
  | none =>
      simp only [hsource]
      cases hfetch : fetch s.source with
      | error e => simp
      | ok out =>
          obtain ⟨⟨res, nmsg⟩, source⟩ := out
          by_cases hres : res = .success
          · subst hres
            cases nmsg with
            | none => simp
            | some nmsg =>
                simp only [ne_eq, not_true_eq_false, if_false, streamHandPayload_success, hfilter]
                constructor
                · rintro ⟨msg, s', ⟨np, hget, hpass, -, rfl⟩, hP⟩
                  exact ⟨nmsg, 0, np, rfl, hget, hpass, hP⟩
                · rintro ⟨nmsg', idx, np, hnext, hget, hpass, hP⟩
                  cases hnext
                  exact ⟨_, _, ⟨np, hget, hpass, rfl, rfl⟩, hP⟩
          · simp only [ne_eq, hres, not_false_eq_true, if_true]
            constructor
            · rintro ⟨msg, s', hread, -⟩
              simp only [Except.ok.injEq, Prod.mk.injEq] at hread
              exact absurd hread.1.1 hres
            · rintro ⟨nmsg', idx, np, hnext, -⟩
              cases res <;> first | cases hnext | exact absurd rfl hres

/-! ### The quantum -/

/-- While there is a rate, its quantum is positive exactly when a first payload has passed. -/
def PrimedInput.Sound (s : PrimedInput S) : Prop :=
  ∀ b, s.input.brate = some b → (1 ≤ b.qu ↔ s.primed)

theorem brateSleep_eq_ok {b b' : Brate} {nPayloads n : Nat}
    (h : brateSleep b nPayloads n = .ok b') :
    if n = 0 then 1 ≤ b'.qu else b' = b ∧ 1 ≤ b.qu := by
  rw [brateSleep] at h
  by_cases hn : n = 0
  · rw [if_pos hn] at h ⊢
    cases h
    dsimp only
    split <;> omega
  · rw [if_neg hn] at h ⊢
    by_cases hqu : b.qu = 0
    · rw [if_pos hqu] at h
      cases h
    · rw [if_neg hqu] at h
      cases h
      exact ⟨rfl, Nat.pos_of_ne_zero hqu⟩

theorem PrimedInput.Sound.read {s : PrimedInput S} {input : RatedInput S}
    {answer : Res × Option Message} (h : s.Sound)
    (hread : ratedRead crc32c fetch s.input = .ok (answer, input)) :
    PrimedInput.Sound ⟨input, s.primed ∨ PassesNext crc32c fetch s.input.stream (· = 0)⟩ := by
  intro b hb
  rw [← streamRead_success_iff]
  rw [ratedRead] at hread
  cases hstream : streamRead crc32c fetch s.input.stream with
  | error e => simp [hstream] at hread
  | ok out =>
      obtain ⟨⟨res, msg⟩, stream⟩ := out
      simp only [hstream] at hread
      by_cases hres : res = .success
      · subst hres
        rw [if_neg (not_not_intro rfl)] at hread
        cases hbrate : s.input.brate with
        | none =>
            simp only [hbrate] at hread
            cases hread
            exact absurd (show none = some b from hb) nofun
        | some b' =>
            cases hnmsg : stream.nmsg with
            | none => simp [hbrate, hnmsg] at hread
            | some nmsg =>
                simp only [hbrate, hnmsg] at hread
                cases hsleep : brateSleep b' nmsg.payloads.length stream.npIndex with
                | error e => simp [hsleep] at hread
                | ok b'' =>
                    simp only [hsleep] at hread
                    cases hread
                    cases hb
                    have hqu := brateSleep_eq_ok hsleep
                    by_cases hidx : stream.npIndex = 0
                    · rw [if_pos hidx] at hqu
                      exact iff_of_true hqu (Or.inr ⟨msg, stream, rfl, hidx⟩)
                    · rw [if_neg hidx] at hqu
                      obtain ⟨rfl, hpos⟩ := hqu
                      exact iff_of_true hpos (Or.inl ((h b hbrate).mp hpos))
      · rw [if_pos hres] at hread
        cases hread
        refine (h b hb).trans (or_iff_left ?_).symm
        rintro ⟨msg', stream', hsuccess, -⟩
        simp only [Except.ok.injEq, Prod.mk.injEq] at hsuccess
        exact hres hsuccess.1.1

theorem PrimedInput.Sound.step {s s' : PrimedInput S} {op : RatedOp}
    {answer : Res × Option Message} (h : s.Sound)
    (hstep : primedStep crc32c fetch s op = .ok (answer, s')) : s'.Sound := by
  unfold primedStep at hstep
  cases op with
  | setByteRate targetByteRate =>
      cases hstep
      intro b hb
      simp only [inputSetByteRate] at hb
      split at hb
      · cases hb
        exact ⟨fun hpos => absurd hpos (Nat.not_succ_le_zero 0), False.elim⟩
      · cases hb
  | read =>
      cases hrated : ratedStep crc32c fetch s.input .read with
      | error e => simp [hrated, Except.map] at hstep
      | ok out =>
          obtain ⟨answer', input⟩ := out
          simp only [hrated, Except.map, Except.ok.injEq, Prod.mk.injEq] at hstep
          rw [← hstep.2]
          exact h.read hrated

theorem quantumDefined_iff {s : PrimedInput S} (h : s.Sound) (op : RatedOp) :
    QuantumDefined crc32c fetch s op ↔ FirstPassed crc32c fetch s op := by
  cases op with
  | setByteRate targetByteRate => exact Iff.rfl
  | read =>
      unfold QuantumDefined FirstPassed
      rw [← streamRead_success_iff]
      constructor
      · rintro hdefined hbrate ⟨msg, stream, hread, hidx⟩
        obtain ⟨b, hb⟩ := Option.ne_none_iff_exists'.mp hbrate
        exact (h b hb).mp (hdefined msg stream b hread hb hidx)
      · intro hpassed msg stream b hread hb hidx
        have hbrate : s.input.brate ≠ none := by
          rw [hb]
          exact Option.some_ne_none b
        exact (h b hb).mpr (hpassed hbrate ⟨msg, stream, hread, hidx⟩)

/-- **Rate control divides by a positive number** in all reads of a run exactly when, in all of
them, a first payload has passed the filter before another payload does. -/
theorem quantum_defined_iff (crc32c : Bytes → UInt32) (fetch : StreamReadFp S)
    (filter : InputFilter) (source : S) (ops : List RatedOp) :
    StepRun.Along (primedStep crc32c fetch) (QuantumDefined crc32c fetch)
        ⟨.fresh filter source, False⟩ ops ↔
      StepRun.Along (primedStep crc32c fetch) (FirstPassed crc32c fetch)
        ⟨.fresh filter source, False⟩ ops := by
  apply StepRun.along_congr_of_invariant PrimedInput.Sound
  · exact fun s op answer s' h hstep => h.step hstep
  · exact fun s op h => quantumDefined_iff h op
  · exact fun b hb => absurd hb nofun

/-! ### Two payloads of which the first is filtered -/

/-- The payloads of two modules in one container. -/
def mixedSource : StreamSource where
  fetched := [.container ⟨[longPayload 1, { longPayload 1 with vid := 2 }], [], none, none⟩]
  last := .eof
  ends := eof_ends

/-- **A rate is divided by no quantum** when the filter drops the first payload of a container. -/
theorem quantum_not_defined :
    ¬ StepRun.Along (primedStep (fun _ => 7) StreamSource.fetch)
      (QuantumDefined (fun _ => 7) StreamSource.fetch)
      ⟨.fresh ⟨true, 2, 1, 0, 0, 0⟩ mixedSource, False⟩ [.setByteRate 1000, .read, .read] := by
  intro halong
  have hread := (halong.2 _ _ rfl).2 _ _ rfl
  exact absurd (hread.1 _ _ _ rfl rfl Nat.one_pos) (Nat.not_succ_le_zero 0)

end Nmsg

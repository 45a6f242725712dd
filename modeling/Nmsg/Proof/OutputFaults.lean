import Nmsg.Lib.Outcome
import Nmsg.OutputFault
import Nmsg.Proof.Unbuffered

/-!
# Outputs that survive

After a write in which memory ran out, an output should go on as if it still held what it held
before, or nothing. It does when what failed is the payload or the buffer of the message, a buffer
for a container that is written whole, or the buffer of a fragment. It does not when the array of
payload pointers cannot grow, after it was counted, when the CRCs or the next container cannot be
allocated, or when a container that is to be cut up cannot be serialized and stays behind with the
payload of the write that failed.
-/

namespace Nmsg

/-! ### What is expected -/

/-- The allocations a write survives. -/
def Allocation.survived : Allocation → Bool
  | .np | .packed | .fragment _ => true
  | .buf w | .zbTmp w | .zbuf w => w = .container
  | .payloads _ | .payloadCrcs _ | .container _ | .nmsg _ => false

/-- There is a container, and it counts the payload pointers that it has. -/
def FaultyOutput.Intact (s : FaultyOutput) : Prop :=
  s.nPayloads = some s.output.c.nmsg.payloads.length

/-- Nothing but payloads was put in the container, and their sizes were added up. -/
structure Container.Collected (c : Container) : Prop where
  nmsg : c.nmsg = ⟨c.nmsg.payloads, [], none, none⟩
  estsz : c.estsz = hdrlszV2 + estimates c.doSequence c.nmsg.payloads

/-- A buffer is a container that was serialized with a header, or a fragment behind one. -/
inductive WellFormed (pb : ProtobufC) (z : Zlib) (crc32c : Bytes → UInt32) : Bytes → Prop
  | container {c c' : Container} {out : Serialized} {doZlib : Bool} {sequence : UInt32}
      {sequenceId : UInt64} (collected : c.Collected) (ne : c.nmsg.payloads ≠ [])
      (serialized : containerSerialize pb z crc32c c true doZlib sequence sequenceId =
        .ok (out, c')) : WellFormed pb z crc32c (out.buf.take out.bufLen)
  | fragment (flags : UInt8) (nf : NmsgFragment) :
      WellFormed pb z crc32c (encodeFragment pb flags nf)

/-- The output with another container, after some of what it was to write. -/
def StreamOutput.WithContainer (s : StreamOutput) (c : Container) (s' : StreamOutput) : Prop :=
  ∃ sequence written, s' = { s with sequence := sequence, written := written, c := c }

/-- The output goes on with what it held, or with nothing. -/
def StreamOutput.Resumes (s s' : StreamOutput) : Prop :=
  s.WithContainer s.c s' ∨ s.WithContainer (Container.fresh s.bufsz s.doSequence) s'

instance (c : Container) (np : NmsgPayload) : Decidable (c.FullFor np) :=
  inferInstanceAs (Decidable (_ ∧ _))

section Kept

variable (pb : ProtobufC) (z : Zlib) (crc32c : Bytes → UInt32)

/-- What an answer has to be, for an output that answers with `plain` when no allocation fails. -/
structure AnswerKept (s : StreamOutput) (plain : Except Abort ((Res × List Bytes) × StreamOutput))
    (answer : WriteAnswer) (s' : FaultyOutput) : Prop where
  intact : s'.Intact
  collected : s'.output.c.Collected
  wellFormed : ∀ b ∈ answer.sent, WellFormed pb z crc32c b
  refused : answer.failed = true → answer.res ≠ .success ∧ s.Resumes s'.output
  plain : answer.failed = false → plain = .ok ((answer.res, answer.sent), s'.output)

/-- A write in which an allocation fails returns something else than success, with a container that
counts what it has, and the output goes on with what it held or with nothing; any other write is that
of an output with enough memory. What is sent is well formed. -/
def WriteKept (s : FaultyOutput) (op : FaultyWrite) : Prop :=
  Outcome
    (fun e => sockOutputStep pb z crc32c s.output (.write op.now op.id op.msg op.sendFails) = .error e)
    (fun out => AnswerKept pb z crc32c s.output
      (sockOutputStep pb z crc32c s.output (.write op.now op.id op.msg op.sendFails)) out.1 out.2)
    (outputWriteFaulty pb z crc32c s op)

/-- The output when the payload goes to its container, which is a new one if it was full. -/
def StreamOutput.joined (s : StreamOutput) (np : NmsgPayload) : StreamOutput :=
  if s.c.FullFor np then s.next [] else s

/-- A payload too large for a container is compressed and sent without a header. -/
def StreamOutput.SendsBare (s : StreamOutput) (np : NmsgPayload) : Prop :=
  s.config.doZlib = true ∧ (s.c.grown np).estsz > s.c.bufsz ∧
    ∃ out c', containerSerialize pb z crc32c (s.c.grown np) false true s.sequence s.sequenceId =
        .ok (out, c') ∧ (out.buf.take out.bufLen).length ≤ s.bufsz - 32

/-- Only allocations fail that are survived, and the payload, unless it is dropped, is not sent
without a header. -/
def FaultyWrite.Survives (s : FaultyOutput) (op : FaultyWrite) : Prop :=
  (∀ a, op.allocFails a = true → a.survived = true) ∧
    ∀ np, (messageSerialize op.now op.msg).np = some np → ¬ s.output.Drops np →
      ¬ (s.output.joined (s.output.config.override np)).SendsBare pb z crc32c
        (s.output.config.override np)

end Kept

variable {pb : ProtobufC} {z : Zlib} {crc32c : Bytes → UInt32}

/-! ### Containers -/

section Containers

variable {c : Container} {np : NmsgPayload}

theorem collected_fresh (bufsz : Nat) (doSequence : Bool) :
    (Container.fresh bufsz doSequence).Collected := ⟨rfl, rfl⟩

theorem Container.Collected.grown (h : c.Collected) (np : NmsgPayload) : (c.grown np).Collected := by
  refine ⟨?_, ?_⟩
  · rw [Container.grown, h.nmsg]
  · simp only [Container.grown, h.estsz, estimates, List.map_append, List.map_cons, List.map_nil,
      List.sum_append, List.sum_cons, List.sum_nil, Nat.add_assoc, Nat.add_zero]

theorem Container.Collected.ne_nil_of_full (h : c.Collected) (hfull : c.FullFor np) :
    c.nmsg.payloads ≠ [] := by
  intro hnil
  apply hfull.1
  rw [h.estsz, hnil]
  rfl

theorem length_grown (c : Container) (np : NmsgPayload) :
    (c.grown np).nmsg.payloads.length = c.nmsg.payloads.length + 1 := by
  rw [Container.grown, List.length_append, List.length_singleton]

theorem grown_ne_nil (c : Container) (np : NmsgPayload) : (c.grown np).nmsg.payloads ≠ [] := by
  intro hnil
  have hlength := length_grown c np
  rw [hnil] at hlength
  exact Nat.noConfusion hlength

theorem containerAddFaulty_of_full (allocFails : Allocation → Bool) (n : Nat) (msg : Message)
    (again : Bool) (hnp : msg.np = some np) (hfull : c.FullFor np) :
    containerAddFaulty allocFails c (some n) msg again = .ok (.containerFull, c, n, msg) := by
  simp only [containerAddFaulty, hnp]
  exact if_pos hfull

theorem containerAddFaulty_of_room {allocFails : Allocation → Bool} (n : Nat) (msg : Message)
    (again : Bool) (hnp : msg.np = some np) (hroom : ¬ c.FullFor np)
    (halloc : allocFails (.payloads again) = false) :
    containerAddFaulty allocFails c (some n) msg again =
      .ok (if (c.grown np).estsz > c.bufsz then .containerOverfull else .success, c.grown np, n + 1,
        { msg with np := none }) := by
  simp only [containerAddFaulty, hnp, halloc, Bool.false_eq_true, if_false]
  rw [if_neg (show ¬ (c.estsz ≠ hdrlszV2 ∧ c.estsz + payloadSize np + 32 ≥ c.bufsz) from hroom)]
  have hgrown : (c.grown np).estsz = c.estsz + estimate c.doSequence (payloadSize np) := rfl
  rw [hgrown]
  by_cases hover : c.estsz + estimate c.doSequence (payloadSize np) > c.bufsz
  · rw [if_pos hover, if_pos hover]
    rfl
  · rw [if_neg hover, if_neg hover]
    rfl

end Containers

/-! ### Writing a container out -/

section Writers

variable {allocFails : Allocation → Bool} {s : FaultyOutput}

theorem not_fails (hspared : ∀ a, allocFails a = true → a.survived = true) {a : Allocation}
    (ha : a.survived = false) : allocFails a = false := by
  cases hfails : allocFails a with
  | false => rfl
  | true => exact absurd (ha.symm.trans (hspared a hfails)) Bool.false_ne_true

theorem readPayloads_length (c : Container) :
    readPayloads c c.nmsg.payloads.length = .ok () := if_pos rfl

/-- The container is destroyed, and a new one is there. -/
theorem renewContainer_eq (hspared : ∀ a, allocFails a = true → a.survived = true) (w : Writer)
    (hs : s.Intact) (octets : Bytes) :
    renewContainer allocFails w s octets = .ok (false, ⟨s.output.next octets, some 0⟩) := by
  have hcontainer : allocFails (.container w) = false := not_fails hspared rfl
  have hnmsg : allocFails (.nmsg w) = false := not_fails hspared rfl
  have hintact : s.nPayloads = some s.output.c.nmsg.payloads.length := hs
  simp only [renewContainer, destroyContainer, hintact, readPayloads_length, hcontainer, hnmsg,
    Bool.false_eq_true, or_self, if_false]

/-- Serializing fails for want of memory, or does what it does with enough of it. -/
theorem containerSerializeFaulty_cases
    (hspared : ∀ a, allocFails a = true → a.survived = true) (w : Writer) (hs : s.Intact)
    (doHeader : Bool) :
    (containerSerializeFaulty pb z crc32c allocFails w s doHeader = .ok none ∧ w = .container) ∨
      containerSerializeFaulty pb z crc32c allocFails w s doHeader =
        (containerSerialize pb z crc32c s.output.c doHeader s.output.config.doZlib
          s.output.sequence s.output.sequenceId).map fun out => some out.1 := by
  have hcrcs : allocFails (.payloadCrcs w) = false := not_fails hspared rfl
  have hintact : s.nPayloads = some s.output.c.nmsg.payloads.length := hs
  have hwriter : ∀ a, allocFails a = true → a = .buf w ∨ a = .zbTmp w ∨ a = .zbuf w →
      w = .container := by
    intro a hfails ha
    have hsurvived := hspared a hfails
    rcases ha with rfl | rfl | rfl <;> exact of_decide_eq_true hsurvived
  simp only [containerSerializeFaulty, hintact, readPayloads_length, hcrcs, Bool.false_eq_true,
    if_false]
  by_cases hbuf : allocFails (.buf w) = true
  · rw [if_pos hbuf]
    exact Or.inl ⟨rfl, hwriter _ hbuf (Or.inl rfl)⟩
  rw [if_neg hbuf]
  by_cases hzlib : s.output.config.doZlib = true ∧
      (allocFails (.zbTmp w) = true ∨ allocFails (.zbuf w) = true)
  · rw [if_pos hzlib]
    rcases hzlib.2 with hfails | hfails
    · exact Or.inl ⟨rfl, hwriter _ hfails (Or.inr (Or.inl rfl))⟩
    · exact Or.inl ⟨rfl, hwriter _ hfails (Or.inr (Or.inr rfl))⟩
  · rw [if_neg hzlib]
    exact Or.inr rfl

/-- What a container that is written out leaves: a new container, and an answer as it is expected. -/
structure WrittenKept (pb : ProtobufC) (z : Zlib) (crc32c : Bytes → UInt32) (s : StreamOutput)
    (plain : Except Abort ((Res × List Bytes) × StreamOutput)) (answer : WriteAnswer)
    (s' : FaultyOutput) : Prop where
  count : s'.nPayloads = some 0
  next : ∃ octets, s'.output = s.next octets
  wellFormed : ∀ b ∈ answer.sent, WellFormed pb z crc32c b
  refused : answer.failed = true → answer.res ≠ .success
  plain : answer.failed = false → plain = .ok ((answer.res, answer.sent), s'.output)

theorem writeContainerFaulty_kept (hspared : ∀ a, allocFails a = true → a.survived = true)
    (hs : s.Intact) (hc : s.output.c.Collected) (hne : s.output.c.nmsg.payloads ≠ [])
    (sendFails : Bool) :
    Outcome (fun e => sockWriteContainer pb z crc32c s.output sendFails = .error e)
      (fun out => WrittenKept pb z crc32c s.output
        (sockWriteContainer pb z crc32c s.output sendFails) out.1 out.2)
      (writeContainerFaulty pb z crc32c allocFails s sendFails) := by
  unfold writeContainerFaulty sockWriteContainer
  rcases containerSerializeFaulty_cases hspared .container hs true with ⟨hnone, -⟩ | hserialize
  · rw [hnone]
    simp only [renewContainer_eq hspared .container hs, Except.map, afterRenewal, Bool.false_eq_true,
      if_false, Outcome.ok_iff]
    exact {
      count := rfl
      next := ⟨_, rfl⟩
      wellFormed := fun _ h => (List.not_mem_nil h).elim
      refused := fun _ => by rintro ⟨⟩
      plain := by rintro ⟨⟩ }
  · rw [hserialize]
    cases hplain : containerSerialize pb z crc32c s.output.c true s.output.config.doZlib
        s.output.sequence s.output.sequenceId with
    | error e => exact rfl
    | ok serialized =>
        obtain ⟨out, c'⟩ := serialized
        simp only [Except.map]
        by_cases hshort : out.buf.length < out.bufLen
        · rw [if_pos hshort, if_pos hshort]
          exact rfl
        rw [if_neg hshort, if_neg hshort]
        simp only [renewContainer_eq hspared .container hs, afterRenewal, Bool.false_eq_true,
          if_false, Outcome.ok_iff]
        exact {
          count := rfl
          next := ⟨_, rfl⟩
          wellFormed := by
            intro b hb
            rw [List.mem_singleton.mp hb]
            exact .container hc hne hplain
          refused := by rintro ⟨⟩
          plain := fun _ => rfl }

/-- The fragments up to the one for which there was no memory. -/
theorem fragDatagramsFaulty_kept (bufsz : Nat) (flags : UInt8) (nf : NmsgFragment)
    (packed : Bytes) : ∀ fuel fragpos i : Nat,
    Outcome (fun e => fragDatagrams pb bufsz flags nf packed fuel fragpos i = .error e)
      (fun out => (∀ b ∈ out.1, WellFormed pb z crc32c b) ∧
        (out.2 = false → fragDatagrams pb bufsz flags nf packed fuel fragpos i = .ok out.1))
      (fragDatagramsFaulty pb allocFails bufsz flags nf packed fuel fragpos i) := by
  intro fuel
  induction fuel with
  | zero =>
      intro fragpos i
      rw [fragDatagramsFaulty, fragDatagrams]
      by_cases hmore : fragpos < packed.length
      · rw [if_pos hmore, if_pos hmore]
        exact rfl
      · rw [if_neg hmore, if_neg hmore]
        exact ⟨fun _ h => (List.not_mem_nil h).elim, fun _ => rfl⟩
  | succ fuel ih =>
      intro fragpos i
      rw [fragDatagramsFaulty, fragDatagrams]
      by_cases hmore : fragpos < packed.length
      swap
      · rw [if_neg hmore, if_neg hmore]
        exact ⟨fun _ h => (List.not_mem_nil h).elim, fun _ => rfl⟩
      rw [if_pos hmore, if_pos hmore]
      by_cases hfails : allocFails (.fragment i) = true
      · rw [if_pos hfails]
        exact ⟨fun _ h => (List.not_mem_nil h).elim, nofun⟩
      rw [if_neg hfails]
      dsimp only
      generalize NmsgFragment.mk _ _ _ _ _ = piece
      by_cases hlong : bufsz + 32 < (pb.packFragment piece).length
      · rw [if_pos hlong, if_pos hlong]
        exact rfl
      rw [if_neg hlong, if_neg hlong]
      by_cases hlast : i + 1 = 2 ^ 31
      · rw [if_pos hlast, if_pos hlast]
        exact rfl
      rw [if_neg hlast, if_neg hlast]
      have hrest := ih (fragpos + (bufsz - 32)) (i + 1)
      cases hloop : fragDatagramsFaulty pb allocFails bufsz flags nf packed fuel
          (fragpos + (bufsz - 32)) (i + 1) with
      | error e =>
          rw [hloop, Outcome.error_iff] at hrest
          simp only [hrest, Outcome.error_iff]
      | ok out =>
          obtain ⟨rest, failed⟩ := out
          rw [hloop, Outcome.ok_iff] at hrest
          refine ⟨?_, fun hdone => ?_⟩
          · intro b hb
            rcases List.mem_cons.mp hb with rfl | hb
            · exact .fragment flags piece
            · exact hrest.1 b hb
          · simp only [hrest.2 hdone]

/-- A container that is cut up is serialized, or the write does not get this far. -/
theorem fragWriteFaulty_kept (hspared : ∀ a, allocFails a = true → a.survived = true)
    (hs : s.Intact) {id : UInt32} {sendFails : Nat → Bool}
    (hframed : ∀ out c', containerSerialize pb z crc32c s.output.c false s.output.config.doZlib
      s.output.sequence s.output.sequenceId = .ok (out, c') →
        ¬ (s.output.config.doZlib = true ∧
          (out.buf.take out.bufLen).length ≤ s.output.bufsz - 32)) :
    Outcome (fun e => sockFragWrite pb z crc32c s.output id sendFails = .error e)
      (fun out => WrittenKept pb z crc32c s.output
        (sockFragWrite pb z crc32c s.output id sendFails) out.1 out.2)
      (fragWriteFaulty pb z crc32c allocFails s id sendFails) := by
  unfold fragWriteFaulty sockFragWrite
  rcases containerSerializeFaulty_cases hspared .fragments hs false with ⟨-, hwriter⟩ | hserialize
  · cases hwriter
  rw [hserialize]
  cases hplain : containerSerialize pb z crc32c s.output.c false s.output.config.doZlib
      s.output.sequence s.output.sequenceId with
  | error e => exact rfl
  | ok serialized =>
      obtain ⟨out, c'⟩ := serialized
      simp only [Except.map]
      by_cases hshort : out.buf.length < out.bufLen
      · rw [if_pos hshort, if_pos hshort]
        exact rfl
      rw [if_neg hshort, if_neg hshort, if_neg (hframed out c' hplain),
        if_neg (hframed out c' hplain)]
      generalize out.buf.take out.bufLen = packed
      generalize NmsgFragment.mk id _ _ _ _ = nf
      generalize ((if s.output.config.doZlib then flagZlib else 0) ||| flagFragment) = flags
      have hloop : Outcome
          (fun e => fragDatagrams pb s.output.bufsz flags nf packed packed.length 0 0 = .error e)
          (fun out => (∀ b ∈ out.1, WellFormed pb z crc32c b) ∧
            (out.2 = false →
              fragDatagrams pb s.output.bufsz flags nf packed packed.length 0 0 = .ok out.1))
          (fragDatagramsFaulty pb allocFails s.output.bufsz flags nf packed packed.length 0 0) :=
        fragDatagramsFaulty_kept _ _ _ _ _ _ _
      cases hfaulty : fragDatagramsFaulty pb allocFails s.output.bufsz flags nf packed packed.length
          0 0 with
      | error e =>
          rw [hfaulty, Outcome.error_iff] at hloop
          simp only [hloop, Outcome.error_iff]
      | ok cut =>
          obtain ⟨datagrams, failed⟩ := cut
          rw [hfaulty, Outcome.ok_iff] at hloop
          obtain ⟨hwell, hdone⟩ := hloop
          simp only [renewContainer_eq hspared .fragments hs, afterRenewal, Bool.false_eq_true,
            if_false, Outcome.ok_iff]
          exact {
            count := rfl
            next := ⟨_, rfl⟩
            wellFormed := hwell
            refused := fun hfailed => by
              simp only at hfailed
              rw [hfailed]
              rintro ⟨⟩
            plain := fun hfailed => by
              simp only at hfailed
              simp only [hdone hfailed, hfailed, Bool.false_eq_true, if_false] }

end Writers

/-! ### A write -/

section Write

variable {s : FaultyOutput} {np : NmsgPayload}
  {plain : Except Abort ((Res × List Bytes) × StreamOutput)} {answer : WriteAnswer}
  {s' : FaultyOutput}

/-- A new container is what the output goes on with, whatever container it was that was written. -/
theorem WrittenKept.kept {c : Container}
    (h : WrittenKept pb z crc32c { s.output with c := c } plain answer s') :
    AnswerKept pb z crc32c s.output plain answer s' := by
  obtain ⟨octets, hnext⟩ := h.next
  refine ⟨?_, ?_, h.wellFormed, fun hfailed => ⟨h.refused hfailed, Or.inr ?_⟩, h.plain⟩
  · rw [FaultyOutput.Intact, h.count, hnext]
    rfl
  · rw [hnext]
    exact collected_fresh _ _
  · rw [hnext]
    exact ⟨_, _, rfl⟩

variable {allocFails : Allocation → Bool} {sendFails : Nat → Bool} {id : UInt32} {now : WallTime}
  {msg : Message}

/-- The payload joins a container that has room for it, which may be written then. -/
theorem join_kept (s : FaultyOutput) (id : UInt32) (sendFails : Nat → Bool)
    (hspared : ∀ a, allocFails a = true → a.survived = true) (hc : s.output.c.Collected)
    (hbare : ¬ s.output.SendsBare pb z crc32c np) :
    let t : FaultyOutput :=
      ⟨{ s.output with c := s.output.c.grown np }, some (s.output.c.nmsg.payloads.length + 1)⟩
    t.Intact ∧
      ((s.output.c.grown np).estsz > s.output.c.bufsz →
        Outcome (fun e => sockFragWrite pb z crc32c t.output id sendFails = .error e)
          (fun out => WrittenKept pb z crc32c t.output
            (sockFragWrite pb z crc32c t.output id sendFails) out.1 out.2)
          (fragWriteFaulty pb z crc32c allocFails t id sendFails)) ∧
      Outcome (fun e => sockWriteContainer pb z crc32c t.output (sendFails 0) = .error e)
        (fun out => WrittenKept pb z crc32c t.output
          (sockWriteContainer pb z crc32c t.output (sendFails 0)) out.1 out.2)
        (writeContainerFaulty pb z crc32c allocFails t (sendFails 0)) := by
  intro t
  have ht : t.Intact := congrArg some (length_grown s.output.c np).symm
  refine ⟨ht, fun hover => ?_, ?_⟩
  · apply fragWriteFaulty_kept hspared ht
    rintro out c' hserialize ⟨hzlib, hshort⟩
    have hplain : containerSerialize pb z crc32c (s.output.c.grown np) false
        s.output.config.doZlib s.output.sequence s.output.sequenceId = .ok (out, c') := hserialize
    have hcompressed : s.output.config.doZlib = true := hzlib
    rw [hcompressed] at hplain
    exact hbare ⟨hzlib, hover, out, c', hplain, hshort⟩
  · exact writeContainerFaulty_kept hspared ht (hc.grown np) (grown_ne_nil _ _) _

/-- A write that finds room in the container. -/
theorem outputNmsgWriteFaulty_of_room (hspared : ∀ a, allocFails a = true → a.survived = true)
    (hs : s.Intact) (hc : s.output.c.Collected) (hnp : msg.np = some np)
    (hmsg : messageSerialize now { msg with np := some (s.output.config.override np) } =
      { msg with np := some (s.output.config.override np) })
    (hroom : ¬ s.output.c.FullFor (s.output.config.override np))
    (hbare : ¬ s.output.SendsBare pb z crc32c (s.output.config.override np)) :
    Outcome (fun e => sockOutputNmsgWrite pb z crc32c s.output now id msg sendFails = .error e)
      (fun out => AnswerKept pb z crc32c s.output
        (sockOutputNmsgWrite pb z crc32c s.output now id msg sendFails) out.1 out.2)
      (outputNmsgWriteFaulty pb z crc32c allocFails s id msg sendFails) := by
  have hintact : s.nPayloads = some s.output.c.nmsg.payloads.length := hs
  obtain ⟨ht, hfrag, hcontainer⟩ := join_kept s id sendFails hspared hc hbare
  have hadd := containerAdd_of_room hmsg rfl hroom
  have haddFaulty := containerAddFaulty_of_room s.output.c.nmsg.payloads.length
    { msg with np := some (s.output.config.override np) } false rfl hroom (not_fails hspared rfl)
  simp only [outputNmsgWriteFaulty, sockOutputNmsgWrite, hnp, hintact, hadd, haddFaulty]
  by_cases hover : (s.output.c.grown (s.output.config.override np)).estsz > s.output.c.bufsz
  · simp only [if_pos hover]
    exact (hfrag hover).imp fun out h => h.kept
  simp only [if_neg hover]
  by_cases hbuffered : s.output.config.buffered = false
  · simp only [if_pos hbuffered]
    exact hcontainer.imp fun out h => h.kept
  · simp only [if_neg hbuffered, Outcome.ok_iff]
    exact {
      intact := ht
      collected := hc.grown _
      wellFormed := fun _ h => (List.not_mem_nil h).elim
      refused := by rintro ⟨⟩
      plain := fun _ => rfl }

/-- A write for which the container has to be written first. -/
theorem outputNmsgWriteFaulty_of_full (hspared : ∀ a, allocFails a = true → a.survived = true)
    (hs : s.Intact) (hc : s.output.c.Collected) (hnp : msg.np = some np)
    (hmsg : messageSerialize now { msg with np := some (s.output.config.override np) } =
      { msg with np := some (s.output.config.override np) })
    (hfull : s.output.c.FullFor (s.output.config.override np))
    (hbare : ¬ (s.output.next []).SendsBare pb z crc32c (s.output.config.override np)) :
    Outcome (fun e => sockOutputNmsgWrite pb z crc32c s.output now id msg sendFails = .error e)
      (fun out => AnswerKept pb z crc32c s.output
        (sockOutputNmsgWrite pb z crc32c s.output now id msg sendFails) out.1 out.2)
      (outputNmsgWriteFaulty pb z crc32c allocFails s id msg sendFails) := by
  have hintact : s.nPayloads = some s.output.c.nmsg.payloads.length := hs
  have hadd := containerAdd_of_full hmsg rfl hfull
  have haddFaulty := containerAddFaulty_of_full allocFails s.output.c.nmsg.payloads.length
    { msg with np := some (s.output.config.override np) } false rfl hfull
  simp only [outputNmsgWriteFaulty, sockOutputNmsgWrite, hnp, hintact, hadd, haddFaulty]
  have hfirst : Outcome
      (fun e => sockWriteContainer pb z crc32c s.output (sendFails 0) = .error e)
      (fun out => WrittenKept pb z crc32c s.output
        (sockWriteContainer pb z crc32c s.output (sendFails 0)) out.1 out.2)
      (writeContainerFaulty pb z crc32c allocFails s (sendFails 0)) :=
    writeContainerFaulty_kept hspared hs hc (hc.ne_nil_of_full hfull) (sendFails 0)
  cases hwrite : writeContainerFaulty pb z crc32c allocFails s (sendFails 0) with
  | error e =>
      rw [hwrite, Outcome.error_iff] at hfirst
      simp only [hfirst, Outcome.error_iff]
  | ok out =>
      obtain ⟨answer, t⟩ := out
      rw [hwrite, Outcome.ok_iff] at hfirst
      dsimp only
      by_cases hres : answer.res ≠ .success
      · rw [if_pos hres]
        have hkept : AnswerKept pb z crc32c s.output _ answer t := hfirst.kept
        exact { hkept with
          plain := fun hfailed => by simp only [hfirst.plain hfailed, if_pos hres] }
      rw [if_neg hres]
      rw [not_not] at hres
      have hfailed : answer.failed = false := by
        cases hfailed : answer.failed with
        | false => rfl
        | true => exact absurd hres (hfirst.refused hfailed)
      -- the payload goes to the next container, which is empty
      obtain ⟨octets, hnext⟩ := hfirst.next
      obtain ⟨next, count⟩ := t
      have hcount : count = some 0 := hfirst.count
      have hplain := hfirst.plain hfailed
      rw [hres] at hplain
      subst hcount
      dsimp only at hnext hplain
      rw [hnext] at hplain
      subst hnext
      have hroom := not_fullFor_fresh s.output.bufsz s.output.doSequence
        (s.output.config.override np)
      have hbare' : ¬ (s.output.next octets).SendsBare pb z crc32c
          (s.output.config.override np) := hbare
      obtain ⟨ht, hfrag, -⟩ := join_kept ⟨s.output.next octets, some 0⟩ id
        (fun k => sendFails (k + 1)) hspared (collected_fresh _ _) hbare'
      have hagain := containerAdd_of_room hmsg rfl hroom
      have hagainFaulty := containerAddFaulty_of_room 0
        { msg with np := some (s.output.config.override np) } true rfl hroom
        (not_fails hspared rfl)
      simp only [hplain, ne_eq, not_true, if_false]
      have hempty : (s.output.next octets).c =
          Container.fresh s.output.bufsz s.output.doSequence := rfl
      rw [hempty] at *
      rw [hagain, hagainFaulty]
      by_cases hover : s.output.Oversized (s.output.config.override np)
      · have hlarge : ((Container.fresh s.output.bufsz s.output.doSequence).grown
            (s.output.config.override np)).estsz >
            (Container.fresh s.output.bufsz s.output.doSequence).bufsz := hover
        simp only [if_pos hlarge]
        have hlast : Outcome
            (fun e => sockFragWrite pb z crc32c
              { s.output.next octets with
                c := (Container.fresh s.output.bufsz s.output.doSequence).grown
                  (s.output.config.override np) } id (fun k => sendFails (k + 1)) = .error e)
            (fun out => WrittenKept pb z crc32c
              { s.output.next octets with
                c := (Container.fresh s.output.bufsz s.output.doSequence).grown
                  (s.output.config.override np) }
              (sockFragWrite pb z crc32c
                { s.output.next octets with
                  c := (Container.fresh s.output.bufsz s.output.doSequence).grown
                    (s.output.config.override np) } id fun k => sendFails (k + 1)) out.1 out.2)
            (fragWriteFaulty pb z crc32c allocFails
              ⟨{ s.output.next octets with
                c := (Container.fresh s.output.bufsz s.output.doSequence).grown
                  (s.output.config.override np) }, some (0 + 1)⟩ id
              fun k => sendFails (k + 1)) := hfrag hlarge
        cases hcut : fragWriteFaulty pb z crc32c allocFails
            ⟨{ s.output.next octets with
              c := (Container.fresh s.output.bufsz s.output.doSequence).grown
                (s.output.config.override np) }, some (0 + 1)⟩ id
            fun k => sendFails (k + 1) with
        | error e =>
            rw [hcut, Outcome.error_iff] at hlast
            simp only [hlast, Except.map, Outcome.error_iff]
        | ok out =>
            rw [hcut, Outcome.ok_iff] at hlast
            simp only [Except.map, Outcome.ok_iff]
            obtain ⟨octets', hnext⟩ := hlast.next
            exact {
              intact := by
                rw [FaultyOutput.Intact, hlast.count, hnext]
                rfl
              collected := by
                rw [hnext]
                exact collected_fresh _ _
              wellFormed := by
                intro b hb
                rcases List.mem_append.mp hb with hb | hb
                · exact hfirst.wellFormed b hb
                · exact hlast.wellFormed b hb
              refused := by
                intro hfailed
                refine ⟨hlast.refused hfailed, Or.inr ?_⟩
                rw [hnext]
                exact ⟨_, _, rfl⟩
              plain := by
                intro hfailed
                rw [hlast.plain hfailed] }
      · have hsmall : ¬ ((Container.fresh s.output.bufsz s.output.doSequence).grown
            (s.output.config.override np)).estsz >
            (Container.fresh s.output.bufsz s.output.doSequence).bufsz := hover
        simp only [if_neg hsmall, Outcome.ok_iff]
        exact {
          intact := ht
          collected := (collected_fresh _ _).grown _
          wellFormed := hfirst.wellFormed
          refused := nofun
          plain := fun _ => rfl }

theorem messageSerializeFaulty_cases (allocFails : Allocation → Bool) (now : WallTime)
    (msg : Message) :
    messageSerializeFaulty allocFails now msg = none ∨
      messageSerializeFaulty allocFails now msg = some (messageSerialize now msg) := by
  unfold messageSerializeFaulty
  cases hmessage : msg.message with
  | none =>
      right
      simp only [messageSerialize, hmessage]
  | some message =>
      dsimp only
      by_cases hneeded : msg.updated = true ∨ msg.np = none
      · rw [if_pos hneeded]
        split
        · exact Or.inl rfl
        split
        · exact Or.inl rfl
        · exact Or.inr rfl
      · right
        simp only [messageSerialize, hmessage, if_neg hneeded]

/-- **A write** of an output that is as it should be, in which only allocations fail that are
survived. -/
theorem writeKept_of_survives {op : FaultyWrite} (hs : s.Intact) (hc : s.output.c.Collected)
    (hop : op.Survives pb z crc32c s) : WriteKept pb z crc32c s op := by
  obtain ⟨hspared, hframed⟩ := hop
  unfold WriteKept outputWriteFaulty
  have hmemory : AnswerKept pb z crc32c s.output
      (sockOutputStep pb z crc32c s.output (.write op.now op.id op.msg op.sendFails))
      { res := .memfail, sent := [], failed := true } s := {
    intact := hs
    collected := hc
    wellFormed := fun _ h => (List.not_mem_nil h).elim
    refused := fun _ => ⟨by rintro ⟨⟩, Or.inl ⟨_, _, rfl⟩⟩
    plain := by rintro ⟨⟩ }
  rcases messageSerializeFaulty_cases op.allocFails op.now op.msg with hnone | hsome
  · rw [hnone]
    exact hmemory
  rw [hsome]
  simp only [sockOutputStep]
  cases hnp : (messageSerialize op.now op.msg).np with
  | none =>
      simp only [outputNmsgWriteFaulty, sockOutputNmsgWrite, hnp]
      cases s.output.doFilter <;> exact rfl
  | some np =>
      simp only
      by_cases hdrops : s.output.Drops np
      · have hfiltered : s.output.doFilter = true ∧
            (s.output.filterVid ≠ np.vid ∨ s.output.filterMsgtype ≠ np.msgtype) := hdrops
        simp only [if_pos hfiltered, Outcome.ok_iff]
        exact {
          intact := hs
          collected := hc
          wellFormed := fun _ h => (List.not_mem_nil h).elim
          refused := by rintro ⟨⟩
          plain := fun _ => rfl }
      have hpasses : ¬ (s.output.doFilter = true ∧
          (s.output.filterVid ≠ np.vid ∨ s.output.filterMsgtype ≠ np.msgtype)) := hdrops
      simp only [if_neg hpasses]
      have hbare := hframed np hnp hdrops
      have hmsg := messageSerialize_override op.now op.now op.msg (s.output.config.override np)
      rw [StreamOutput.joined] at hbare
      by_cases hfull : s.output.c.FullFor (s.output.config.override np)
      · rw [if_pos hfull] at hbare
        exact outputNmsgWriteFaulty_of_full hspared hs hc hnp hmsg hfull hbare
      · rw [if_neg hfull] at hbare
        exact outputNmsgWriteFaulty_of_room hspared hs hc hnp hmsg hfull hbare

end Write

/-! ### Runs -/

section Runs

variable (pb : ProtobufC) (z : Zlib) (crc32c : Bytes → UInt32)

/-- **Surviving writes.** In every run of writes in which only allocations fail that are survived,
every write is as it is expected to be. -/
theorem writes_survive (s : StreamOutput) (hs : s.c = Container.fresh s.bufsz s.doSequence)
    (ops : List FaultyWrite) :
    StepRun.Along (outputWriteFaulty pb z crc32c) (fun s op => op.Survives pb z crc32c s)
        ⟨s, some 0⟩ ops →
      StepRun.Along (outputWriteFaulty pb z crc32c) (WriteKept pb z crc32c) ⟨s, some 0⟩ ops := by
  apply StepRun.along_mono_of_kept fun s => s.Intact ∧ s.output.c.Collected
  · rintro t op answer t' ⟨hintact, hcollected⟩ hop hstep
    have hkept := (writeKept_of_survives hintact hcollected hop).of_ok hstep
    exact ⟨hkept.intact, hkept.collected⟩
  · rintro t op ⟨hintact, hcollected⟩ hop
    exact writeKept_of_survives hintact hcollected hop
  · constructor
    · rw [FaultyOutput.Intact, hs]
      rfl
    · rw [hs]
      exact collected_fresh _ _

end Runs

/-! ### One payload -/

/-- A file output of 512 octets that is not buffered. -/
def smallOutput : StreamOutput := StreamOutput.openFile 512 ⟨false, false, 0, 0, 0⟩

/-- A payload of three octets is written while one allocation fails. -/
def writeSample (fails : Allocation) : FaultyWrite :=
  ⟨⟨0, 0⟩, 7, messageFromPayload samplePayload, fun _ => false, fun a => a = fails⟩

theorem writes_survive_sample :
    StepRun.Along (outputWriteFaulty wire storedZlib fun _ => 7)
      (WriteKept wire storedZlib fun _ => 7) ⟨smallOutput, some 0⟩
      [writeSample (.buf .container)] := by
  apply writes_survive wire storedZlib (fun _ => 7) smallOutput rfl
  refine ⟨⟨?_, ?_⟩, fun _ _ _ => trivial⟩
  · intro a hfails
    rw [of_decide_eq_true hfails]
    rfl
  · rintro np hnp hpasses ⟨hzlib, -⟩
    rw [StreamOutput.joined] at hzlib
    split at hzlib <;> exact absurd hzlib Bool.false_ne_true

/-- **A payload is counted that is not there** when the array of payload pointers cannot grow. -/
theorem payload_counted_not_there :
    ¬ StepRun.Along (outputWriteFaulty wire storedZlib fun _ => 7)
      (WriteKept wire storedZlib fun _ => 7) ⟨smallOutput, some 0⟩
      [writeSample (.payloads false)] := by
  rintro ⟨hkept, -⟩
  have hwrite : outputWriteFaulty wire storedZlib (fun _ => 7) ⟨smallOutput, some 0⟩
      (writeSample (.payloads false)) =
        .ok ({ res := .memfail, sent := [], failed := true }, ⟨smallOutput, some 1⟩) := rfl
  have hintact := (hkept.of_ok hwrite).intact
  exact Nat.one_ne_zero (Option.some.inj hintact)

end Nmsg

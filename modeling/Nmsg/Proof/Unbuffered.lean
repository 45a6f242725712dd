import Nmsg.Proof.OutputFrag
import Nmsg.Proof.OutputStream
import Nmsg.SockOutput

/-!
# Unbuffered outputs

An output that is not buffered is expected to keep nothing: whatever a write accepts, and whatever
earlier writes left in the container, is handed to `write()` before the write returns. A journal
beside the output records what was accepted and what was handed over. Two ways of writing keep
something nevertheless: the payload for which a full container had to be written first goes to the
new container and stays there, and a message that the filter drops leaves the container as it is.
-/

namespace Nmsg

section Journal

variable (pb : ProtobufC) (z : Zlib) (crc32c : Bytes → UInt32)

/-- Payloads that were handed to `write()`, in the order of the buffers that hold them: a container,
or the fragments of one. -/
inductive WrittenOut : List NmsgPayload → List Bytes → Prop where
  | nothing : WrittenOut [] []
  | container {nps : List NmsgPayload} {sent : List Bytes} {c c' : Container} {out : Serialized}
      {doHeader doZlib : Bool} {sequence : UInt32} {sequenceId : UInt64}
      (hbefore : WrittenOut nps sent)
      (hserialize : containerSerialize pb z crc32c c doHeader doZlib sequence sequenceId =
        .ok (out, c')) :
      WrittenOut (nps ++ c.nmsg.payloads) (sent ++ [out.buf.take out.bufLen])
  | fragments {nps : List NmsgPayload} {sent datagrams : List Bytes} {c c' : Container}
      {out : Serialized} {doZlib : Bool} {sequence : UInt32} {sequenceId : UInt64} {bufsz : Nat}
      {flags : UInt8} {nf : NmsgFragment} (hbefore : WrittenOut nps sent)
      (hserialize : containerSerialize pb z crc32c c false doZlib sequence sequenceId =
        .ok (out, c'))
      (hcut : fragDatagrams pb bufsz flags nf (out.buf.take out.bufLen)
        (out.buf.take out.bufLen).length 0 0 = .ok datagrams) :
      WrittenOut (nps ++ c.nmsg.payloads) (sent ++ datagrams)

/-- An output, the payloads it accepted, and what it handed to `write()`. -/
structure Journal where
  output : StreamOutput
  accepted : List NmsgPayload
  sent : List Bytes

/-- The payload of a message is dropped by `nmsg_output_write`. -/
def StreamOutput.Drops (s : StreamOutput) (np : NmsgPayload) : Prop :=
  s.doFilter = true ∧ (s.filterVid ≠ np.vid ∨ s.filterMsgtype ≠ np.msgtype)

instance (s : StreamOutput) (np : NmsgPayload) : Decidable (s.Drops np) :=
  inferInstanceAs (Decidable (_ ∧ _))

/-- The payload that a call accepts if it succeeds. -/
def SockOutputOp.offered (s : StreamOutput) : SockOutputOp → List NmsgPayload
  | .write now _ msg _ =>
      match (messageSerialize now msg).np with
      | none => []
      | some np => if s.Drops np then [] else [s.config.override np]
  | .flush _ => []
  | .setBuffered _ => []

def journalStep (j : Journal) (op : SockOutputOp) : Except Abort (Res × Journal) :=
  (sockOutputStep pb z crc32c j.output op).map fun ((res, sent), s) =>
    (res, {
      output := s
      accepted := j.accepted ++ if res = .success then op.offered j.output else []
      sent := j.sent ++ sent })

/-- A write that succeeds on an output that is not buffered leaves its container empty, and all
that was accepted so far has been handed to `write()`. -/
def NothingPending (j : Journal) : SockOutputOp → Prop
  | .write now id msg fails =>
      ∀ j', journalStep pb z crc32c j (.write now id msg fails) = .ok (.success, j') →
        j.output.config.buffered = false →
          j'.output.c.nmsg.payloads = [] ∧
          ∃ nps, WrittenOut pb z crc32c nps j'.sent ∧ j'.accepted.Sublist nps
  | .flush _ => True
  | .setBuffered _ => True

end Journal

/-- `nmsg_container_add` finds the container full. -/
def Container.FullFor (c : Container) (np : NmsgPayload) : Prop :=
  c.estsz ≠ hdrlszV2 ∧ c.estsz + payloadSize np + 32 ≥ c.bufsz

/-- A payload is too large even for a container of its own. -/
def StreamOutput.Oversized (s : StreamOutput) (np : NmsgPayload) : Prop :=
  s.bufsz < hdrlszV2 + estimate s.doSequence (payloadSize np)

/-- A write on an output that is not buffered does not find the container full, unless the container
cannot be sent or the payload has to be fragmented; and its message passes the filter, unless the
container is empty. -/
def WriteEmpties (j : Journal) : SockOutputOp → Prop
  | .write now _ msg fails =>
      ∀ np, (messageSerialize now msg).np = some np → j.output.config.buffered = false →
        if j.output.Drops np then j.output.c.nmsg.payloads = []
        else j.output.c.FullFor (j.output.config.override np) →
          fails 0 = true ∨ j.output.Oversized (j.output.config.override np)
  | .flush _ => True
  | .setBuffered _ => True

variable {pb : ProtobufC} {z : Zlib} {crc32c : Bytes → UInt32}

/-! ### What a call does with the payloads -/

/-- The buffers `sent` hold the payloads that went from the container to `write()`, when `added` was
put behind the others. -/
def Moves (pb : ProtobufC) (z : Zlib) (crc32c : Bytes → UInt32) (s : StreamOutput)
    (added : List NmsgPayload) (sent : List Bytes) (s' : StreamOutput) : Prop :=
  ∀ nps before, WrittenOut pb z crc32c nps before →
    ∃ nps', WrittenOut pb z crc32c nps' (before ++ sent) ∧
      nps' ++ s'.c.nmsg.payloads = nps ++ s.c.nmsg.payloads ++ added

section Calls

variable {s s' s'' : StreamOutput} {added added' : List NmsgPayload} {sent sent' : List Bytes}
  {res : Res} {np : NmsgPayload}

theorem moves_of_quiet (h : s'.c.nmsg.payloads = s.c.nmsg.payloads ++ added) :
    Moves pb z crc32c s added [] s' := by
  intro nps before hbefore
  refine ⟨nps, ?_, ?_⟩
  · rwa [List.append_nil]
  · rw [h, List.append_assoc]

theorem Moves.trans (hfirst : Moves pb z crc32c s added sent s')
    (hsecond : Moves pb z crc32c s' added' sent' s'') :
    Moves pb z crc32c s (added ++ added') (sent ++ sent') s'' := by
  intro nps before hbefore
  obtain ⟨nps', hwritten, hkept⟩ := hfirst nps before hbefore
  obtain ⟨nps'', hwritten', hkept'⟩ := hsecond nps' (before ++ sent) hwritten
  refine ⟨nps'', ?_, ?_⟩
  · rwa [← List.append_assoc]
  · calc
      nps'' ++ s''.c.nmsg.payloads = nps' ++ s'.c.nmsg.payloads ++ added' := hkept'
      _ = nps ++ s.c.nmsg.payloads ++ added ++ added' := by rw [hkept]
      _ = nps ++ s.c.nmsg.payloads ++ (added ++ added') := List.append_assoc ..

/-- The payloads of the container go out, and the next container is empty. -/
structure EmptiedBy (pb : ProtobufC) (z : Zlib) (crc32c : Bytes → UInt32) (s : StreamOutput)
    (sent : List Bytes) (s' : StreamOutput) : Prop where
  moves : Moves pb z crc32c s [] sent s'
  fresh : s'.c = Container.fresh s.bufsz s.doSequence
  config : s'.config = s.config
  bufsz : s'.bufsz = s.bufsz
  doSequence : s'.doSequence = s.doSequence

theorem emptiedBy_next
    (hsent : ∀ nps before, WrittenOut pb z crc32c nps before →
      WrittenOut pb z crc32c (nps ++ s.c.nmsg.payloads) (before ++ sent)) (octets : Bytes) :
    EmptiedBy pb z crc32c s sent (s.next octets) := by
  refine ⟨?_, rfl, rfl, rfl, rfl⟩
  intro nps before hbefore
  exact ⟨nps ++ s.c.nmsg.payloads, hsent nps before hbefore, rfl⟩

theorem EmptiedBy.payloads (h : EmptiedBy pb z crc32c s sent s') : s'.c.nmsg.payloads = [] := by
  rw [h.fresh]
  rfl

theorem sockWriteContainer_empties {fails : Bool}
    (h : sockWriteContainer pb z crc32c s fails = .ok ((res, sent), s')) :
    res = outputNmsgWriteSock fails ∧ EmptiedBy pb z crc32c s sent s' := by
  rw [sockWriteContainer] at h
  cases hserialize : containerSerialize pb z crc32c s.c true s.config.doZlib s.sequence
      s.sequenceId with
  | error e => simp [hserialize] at h
  | ok serialized =>
      obtain ⟨out, c'⟩ := serialized
      simp only [hserialize] at h
      split at h
      · cases h
      · cases h
        exact ⟨rfl, emptiedBy_next (fun nps before hbefore => .container hbefore hserialize) _⟩

theorem sockFragWrite_empties {id : UInt32} {fails : Nat → Bool}
    (h : sockFragWrite pb z crc32c s id fails = .ok ((res, sent), s')) :
    EmptiedBy pb z crc32c s sent s' := by
  simp only [sockFragWrite] at h
  cases hserialize : containerSerialize pb z crc32c s.c false s.config.doZlib s.sequence
      s.sequenceId with
  | error e => simp [hserialize] at h
  | ok serialized =>
      obtain ⟨out, c'⟩ := serialized
      simp only [hserialize] at h
      split at h
      · cases h
      · split at h
        · cases h
          exact emptiedBy_next (fun nps before hbefore => .container hbefore hserialize) _
        · split at h
          · cases h
          · rename_i datagrams hcut
            cases h
            exact emptiedBy_next (fun nps before hbefore => .fragments hbefore hserialize hcut) _

/-! ### A write -/

/-- A container that took a payload. -/
def Container.grown (c : Container) (np : NmsgPayload) : Container :=
  { c with
    nmsg := { c.nmsg with payloads := c.nmsg.payloads ++ [np] }
    estsz := c.estsz + estimate c.doSequence (payloadSize np) }

theorem containerAdd_of_full {c : Container} {now : WallTime} {msg : Message}
    (hmsg : messageSerialize now msg = msg) (hnp : msg.np = some np) (hfull : c.FullFor np) :
    containerAdd now c msg = .ok (.containerFull, c, msg) := by
  simp only [containerAdd, hmsg, hnp]
  exact if_pos hfull

theorem containerAdd_of_room {c : Container} {now : WallTime} {msg : Message}
    (hmsg : messageSerialize now msg = msg) (hnp : msg.np = some np) (hroom : ¬ c.FullFor np) :
    containerAdd now c msg =
      .ok (if (c.grown np).estsz > c.bufsz then .containerOverfull else .success, c.grown np,
        { msg with np := none }) := by
  simp only [containerAdd, hmsg, hnp]
  rw [if_neg (show ¬ (c.estsz ≠ hdrlszV2 ∧ c.estsz + payloadSize np + 32 ≥ c.bufsz) from hroom)]
  have hgrown : (c.grown np).estsz = c.estsz + estimate c.doSequence (payloadSize np) := rfl
  rw [hgrown]
  by_cases hover : c.estsz + estimate c.doSequence (payloadSize np) > c.bufsz
  · rw [if_pos hover, if_pos hover]
    rfl
  · rw [if_neg hover, if_neg hover]
    rfl

theorem not_fullFor_fresh (bufsz : Nat) (doSequence : Bool) (np : NmsgPayload) :
    ¬ (Container.fresh bufsz doSequence).FullFor np := fun h => h.1 rfl

/-- What a write that returns did with its payload. -/
structure WriteDid (pb : ProtobufC) (z : Zlib) (crc32c : Bytes → UInt32) (s : StreamOutput)
    (np : NmsgPayload) (fails : Nat → Bool) (res : Res) (sent : List Bytes) (s' : StreamOutput) :
    Prop where
  moves : ∃ added, Moves pb z crc32c s added sent s' ∧ (res = .success → added = [np])
  emptied : s.config.buffered = false → (s.c.FullFor np → s.Oversized np) →
    res = .success → s'.c.nmsg.payloads = []
  kept : s.c.FullFor np → fails 0 = false → ¬ s.Oversized np →
    res = .success ∧ s'.c.nmsg.payloads = [np]
  refused : s.c.FullFor np → fails 0 = true → res ≠ .success

/-- The container is written first, and the payload goes to the next one. -/
theorem writeDid_of_full {now : WallTime} {id : UInt32} {msg : Message} {fails : Nat → Bool}
    (hnp : (messageSerialize now msg).np = some np) (hfull : s.c.FullFor (s.config.override np))
    (h : sockOutputNmsgWrite pb z crc32c s now id (messageSerialize now msg) fails =
      .ok ((res, sent), s')) :
    WriteDid pb z crc32c s (s.config.override np) fails res sent s' := by
  have hmsg := messageSerialize_override now now msg (s.config.override np)
  simp only [sockOutputNmsgWrite, hnp, containerAdd_of_full hmsg rfl hfull] at h
  cases hwrite : sockWriteContainer pb z crc32c s (fails 0) with
  | error e => simp [hwrite] at h
  | ok written =>
      obtain ⟨⟨first, datagrams⟩, t⟩ := written
      obtain ⟨hfirst, hempty⟩ := sockWriteContainer_empties hwrite
      simp only [hwrite] at h
      cases hfails : fails 0 with
      | true =>
          rw [hfails] at hfirst
          rw [hfirst, outputNmsgWriteSock, if_pos rfl, if_pos (by rintro ⟨⟩)] at h
          cases h
          have hsends : fails 0 ≠ false := by
            rw [hfails]
            exact Bool.noConfusion
          exact ⟨⟨[], hempty.moves, by rintro ⟨⟩⟩, by rintro _ _ ⟨⟩, fun _ hsend => absurd hsend hsends,
            fun _ _ => by rintro ⟨⟩⟩
      | false =>
          rw [hfails] at hfirst
          have hroom := not_fullFor_fresh s.bufsz s.doSequence (s.config.override np)
          rw [hfirst, outputNmsgWriteSock, if_neg Bool.false_ne_true,
            if_neg (not_not_intro rfl), hempty.fresh, containerAdd_of_room hmsg rfl hroom] at h
          have hcount : ((Container.fresh s.bufsz s.doSequence).grown
              (s.config.override np)).nmsg.payloads = [s.config.override np] := rfl
          have hsize : ((Container.fresh s.bufsz s.doSequence).grown
              (s.config.override np)).estsz > (Container.fresh s.bufsz s.doSequence).bufsz ↔
                s.Oversized (s.config.override np) := Iff.rfl
          generalize (Container.fresh s.bufsz s.doSequence).grown (s.config.override np) = c
            at h hcount hsize
          have hjoin : Moves pb z crc32c t [s.config.override np] [] { t with c := c } := by
            apply moves_of_quiet
            rw [hempty.payloads, List.nil_append]
            exact hcount
          have hgrows := hempty.moves.trans hjoin
          rw [List.nil_append, List.append_nil] at hgrows
          have hsends : fails 0 = true → res ≠ .success := by
            rw [hfails]
            intro hfail
            cases hfail
          by_cases hover : s.Oversized (s.config.override np)
          · rw [if_pos (hsize.mpr hover)] at h
            cases hfrag : sockFragWrite pb z crc32c { t with c := c } id fun k => fails (k + 1) with
            | error e => simp [hfrag, Except.map] at h
            | ok out =>
                obtain ⟨⟨res', rest⟩, s''⟩ := out
                simp only [hfrag, Except.map] at h
                cases h
                have hlast := sockFragWrite_empties hfrag
                have hboth := hgrows.trans hlast.moves
                rw [List.append_nil] at hboth
                exact ⟨⟨_, hboth, fun _ => rfl⟩, fun _ _ _ => hlast.payloads,
                  fun _ _ hfits => absurd hover hfits, fun _ => hsends⟩
          · rw [if_neg (mt hsize.mp hover)] at h
            cases h
            exact ⟨⟨_, hgrows, fun _ => rfl⟩, fun _ hlarge => absurd (hlarge hfull) hover,
              fun _ _ _ => ⟨rfl, hcount⟩, fun _ => hsends⟩

/-- The payload goes to the container. -/
theorem writeDid_of_room {now : WallTime} {id : UInt32} {msg : Message} {fails : Nat → Bool}
    (hnp : (messageSerialize now msg).np = some np) (hroom : ¬ s.c.FullFor (s.config.override np))
    (h : sockOutputNmsgWrite pb z crc32c s now id (messageSerialize now msg) fails =
      .ok ((res, sent), s')) :
    WriteDid pb z crc32c s (s.config.override np) fails res sent s' := by
  have hmsg := messageSerialize_override now now msg (s.config.override np)
  simp only [sockOutputNmsgWrite, hnp, containerAdd_of_room hmsg rfl hroom] at h
  have hgrows : Moves pb z crc32c s [s.config.override np] []
      { s with c := s.c.grown (s.config.override np) } := moves_of_quiet rfl
  have hwritten : EmptiedBy pb z crc32c { s with c := s.c.grown (s.config.override np) } sent s' →
      WriteDid pb z crc32c s (s.config.override np) fails res sent s' := by
    intro hempty
    have hboth := hgrows.trans hempty.moves
    rw [List.append_nil, List.nil_append] at hboth
    exact ⟨⟨_, hboth, fun _ => rfl⟩, fun _ _ _ => hempty.payloads,
      fun hfull => absurd hfull hroom, fun hfull => absurd hfull hroom⟩
  by_cases hover : (s.c.grown (s.config.override np)).estsz > s.c.bufsz
  · rw [if_pos hover] at h
    exact hwritten (sockFragWrite_empties h)
  · rw [if_neg hover] at h
    simp only at h
    by_cases hbuffered : s.config.buffered = false
    · rw [if_pos hbuffered] at h
      exact hwritten (sockWriteContainer_empties h).2
    · rw [if_neg hbuffered] at h
      cases h
      exact ⟨⟨_, hgrows, fun _ => rfl⟩, fun hunbuffered => absurd hunbuffered hbuffered,
        fun hfull => absurd hfull hroom, fun hfull => absurd hfull hroom⟩

theorem sockOutputNmsgWrite_did {now : WallTime} {id : UInt32} {msg : Message}
    {fails : Nat → Bool} (hnp : (messageSerialize now msg).np = some np)
    (h : sockOutputNmsgWrite pb z crc32c s now id (messageSerialize now msg) fails =
      .ok ((res, sent), s')) :
    WriteDid pb z crc32c s (s.config.override np) fails res sent s' := by
  by_cases hfull : s.c.FullFor (s.config.override np)
  · exact writeDid_of_full hnp hfull h
  · exact writeDid_of_room hnp hfull h

/-! ### A call -/

theorem sockOutputStep_moves {op : SockOutputOp}
    (h : sockOutputStep pb z crc32c s op = .ok ((res, sent), s')) :
    ∃ added, Moves pb z crc32c s added sent s' ∧ (res = .success → added = op.offered s) := by
  cases op with
  | write now id msg fails =>
      simp only [sockOutputStep] at h
      cases hnp : (messageSerialize now msg).np with
      | none =>
          simp only [hnp, sockOutputNmsgWrite] at h
          split at h <;> cases h
      | some np =>
          simp only [hnp] at h
          by_cases hdrops : s.Drops np
          · rw [if_pos (show _ ∧ _ from hdrops)] at h
            cases h
            refine ⟨[], moves_of_quiet (List.append_nil _).symm, fun _ => ?_⟩
            simp only [SockOutputOp.offered, hnp, if_pos hdrops]
          · rw [if_neg (show ¬ (_ ∧ _) from hdrops)] at h
            obtain ⟨added, hmoves, hadded⟩ := (sockOutputNmsgWrite_did hnp h).moves
            refine ⟨added, hmoves, fun hres => ?_⟩
            simp only [SockOutputOp.offered, hnp, if_neg hdrops]
            exact hadded hres
  | flush fails =>
      rw [sockOutputStep] at h
      split at h
      · exact ⟨[], (sockWriteContainer_empties h).2.moves, fun _ => rfl⟩
      · cases h
        exact ⟨[], moves_of_quiet (List.append_nil _).symm, fun _ => rfl⟩
  | setBuffered buffered =>
      cases h
      exact ⟨[], moves_of_quiet (List.append_nil _).symm, fun _ => rfl⟩

/-- What is accepted is in the container or was handed to `write()`. -/
def Journal.Accounted (pb : ProtobufC) (z : Zlib) (crc32c : Bytes → UInt32) (j : Journal) : Prop :=
  ∃ nps, WrittenOut pb z crc32c nps j.sent ∧
    j.accepted.Sublist (nps ++ j.output.c.nmsg.payloads)

theorem journalStep_eq_ok {j j' : Journal} {op : SockOutputOp}
    (h : journalStep pb z crc32c j op = .ok (res, j')) :
    ∃ sent, sockOutputStep pb z crc32c j.output op = .ok ((res, sent), j'.output) ∧
      j'.accepted = j.accepted ++ (if res = .success then op.offered j.output else []) ∧
      j'.sent = j.sent ++ sent := by
  rw [journalStep] at h
  cases hstep : sockOutputStep pb z crc32c j.output op with
  | error e => simp [hstep, Except.map] at h
  | ok out =>
      obtain ⟨⟨res', sent⟩, s'⟩ := out
      simp only [hstep, Except.map] at h
      cases h
      exact ⟨sent, rfl, rfl, rfl⟩

/-- **No payload is lost.** -/
theorem Journal.Accounted.step {j j' : Journal} {op : SockOutputOp} (h : j.Accounted pb z crc32c)
    (hstep : journalStep pb z crc32c j op = .ok (res, j')) : j'.Accounted pb z crc32c := by
  obtain ⟨sent, hcall, haccepted, hsent⟩ := journalStep_eq_ok hstep
  obtain ⟨added, hmoves, hadded⟩ := sockOutputStep_moves hcall
  obtain ⟨nps, hwritten, hsub⟩ := h
  obtain ⟨nps', hwritten', hkept⟩ := hmoves nps j.sent hwritten
  refine ⟨nps', hsent ▸ hwritten', ?_⟩
  rw [haccepted, hkept]
  apply hsub.append
  by_cases hres : res = .success
  · rw [if_pos hres, hadded hres]
  · rw [if_neg hres]
    exact List.nil_sublist added

theorem accounted_opened (s : StreamOutput) :
    (Journal.mk s [] []).Accounted pb z crc32c :=
  ⟨[], .nothing, List.nil_sublist _⟩

/-- A successful write leaves the container empty exactly under the condition. -/
theorem empties_iff {j j' : Journal} {now : WallTime} {id : UInt32} {msg : Message}
    {fails : Nat → Bool}
    (hstep : journalStep pb z crc32c j (.write now id msg fails) = .ok (res, j')) :
    WriteEmpties j (.write now id msg fails) ↔
      (res = .success → j.output.config.buffered = false → j'.output.c.nmsg.payloads = []) := by
  obtain ⟨sent, hcall, -, -⟩ := journalStep_eq_ok hstep
  simp only [sockOutputStep] at hcall
  cases hnp : (messageSerialize now msg).np with
  | none =>
      simp only [hnp, sockOutputNmsgWrite] at hcall
      split at hcall <;> cases hcall
  | some np =>
      simp only [WriteEmpties, hnp, Option.some.injEq, forall_eq']
      simp only [hnp] at hcall
      by_cases hdrops : j.output.Drops np
      · rw [if_pos (show _ ∧ _ from hdrops)] at hcall
        rw [if_pos hdrops]
        simp only [Except.ok.injEq, Prod.mk.injEq] at hcall
        obtain ⟨⟨rfl, -⟩, hsame⟩ := hcall
        rw [← hsame]
        exact ⟨fun h _ => h, fun h => h rfl⟩
      · rw [if_neg (show ¬ (_ ∧ _) from hdrops)] at hcall
        rw [if_neg hdrops]
        have hdid := sockOutputNmsgWrite_did hnp hcall
        constructor
        · intro h hres hunbuffered
          refine hdid.emptied hunbuffered (fun hfull => ?_) hres
          rcases h hunbuffered hfull with hfails | hover
          · exact absurd hres (hdid.refused hfull hfails)
          · exact hover
        · intro h hunbuffered hfull
          by_contra hneither
          rw [not_or, Bool.not_eq_true] at hneither
          obtain ⟨hres, hpayloads⟩ := hdid.kept hfull hneither.1 hneither.2
          rw [h hres hunbuffered] at hpayloads
          cases hpayloads

theorem nothingPending_iff {j j' : Journal} {op : SockOutputOp} (h : j.Accounted pb z crc32c)
    (hstep : journalStep pb z crc32c j op = .ok (res, j')) :
    NothingPending pb z crc32c j op ↔ WriteEmpties j op := by
  cases op with
  | flush fails => exact Iff.rfl
  | setBuffered buffered => exact Iff.rfl
  | write now id msg fails =>
      rw [empties_iff hstep]
      constructor
      · rintro hnothing rfl hunbuffered
        exact (hnothing j' hstep hunbuffered).1
      · intro hempty j'' hsuccess hunbuffered
        rw [hstep] at hsuccess
        cases hsuccess
        have hpayloads := hempty rfl hunbuffered
        obtain ⟨nps, hwritten, hsub⟩ := h.step hstep
        rw [hpayloads, List.append_nil] at hsub
        exact ⟨hpayloads, nps, hwritten, hsub⟩

theorem nothingPending_of_empties {j : Journal} {op : SockOutputOp} (h : j.Accounted pb z crc32c)
    (hempties : WriteEmpties j op) : NothingPending pb z crc32c j op := by
  cases hstep : journalStep pb z crc32c j op with
  | ok out => exact (nothingPending_iff h hstep).mpr hempties
  | error e =>
      cases op with
      | write now id msg fails =>
          intro j' hok
          rw [hstep] at hok
          cases hok
      | flush fails => trivial
      | setBuffered buffered => trivial

/-- **Unbuffered means nothing pending**, in every run whose writes meet the condition, and in no
other run that is not aborted. -/
theorem nothing_pending_iff (pb : ProtobufC) (z : Zlib) (crc32c : Bytes → UInt32)
    (s : StreamOutput) (ops : List SockOutputOp) :
    (StepRun.Along (journalStep pb z crc32c) WriteEmpties ⟨s, [], []⟩ ops →
      StepRun.Along (journalStep pb z crc32c) (NothingPending pb z crc32c) ⟨s, [], []⟩ ops) ∧
    ((∃ answers j, StepRun.run (journalStep pb z crc32c) ⟨s, [], []⟩ ops = .ok (answers, j)) →
      StepRun.Along (journalStep pb z crc32c) (NothingPending pb z crc32c) ⟨s, [], []⟩ ops →
      StepRun.Along (journalStep pb z crc32c) WriteEmpties ⟨s, [], []⟩ ops) := by
  have hkeeps : ∀ (j : Journal) (op : SockOutputOp) (res : Res) (j' : Journal),
      j.Accounted pb z crc32c → journalStep pb z crc32c j op = .ok (res, j') →
        j'.Accounted pb z crc32c := fun j op res j' h hstep => h.step hstep
  constructor
  · exact StepRun.along_mono_of_invariant _ hkeeps
      (fun j op h hempties => nothingPending_of_empties h hempties) (accounted_opened s)
  · rintro ⟨answers, j, hrun⟩
    exact StepRun.along_mono_of_run _ hkeeps
      (fun j op res j' h hstep => (nothingPending_iff h hstep).mp) (accounted_opened s) hrun

end Calls

/-! ### Two payloads of 400 octets -/

def writeLong : SockOutputOp :=
  .write ⟨0, 0⟩ 7 (messageFromPayload (longPayload 400)) fun _ => false

/-- An output to a file, buffered, of 512 octets. -/
def bufferedOutput : Journal := ⟨StreamOutput.openFile 512 ⟨true, false, 0, 0, 0⟩, [], []⟩

theorem nothing_pending_sample :
    StepRun.Along (journalStep wire storedZlib fun _ => 7)
      (NothingPending wire storedZlib fun _ => 7) bufferedOutput
      [.setBuffered false, writeLong] := by
  apply (nothing_pending_iff wire storedZlib (fun _ => 7) bufferedOutput.output _).1
  refine StepRun.along_cons trivial (StepRun.along_cons ?_ trivial)
  intro np hnp hunbuffered
  rw [if_neg (fun hdrops : StreamOutput.Drops _ np => Bool.false_ne_true hdrops.1)]
  exact fun hfull => absurd hfull (not_fullFor_fresh 512 false _)

/-- **A payload stays behind** when the first payload filled the container while the output was
buffered, and the second is written when it no longer is. -/
theorem payload_pending :
    ¬ StepRun.Along (journalStep wire storedZlib fun _ => 7)
      (NothingPending wire storedZlib fun _ => 7) bufferedOutput
      [writeLong, .setBuffered false, writeLong] := by
  intro halong
  have hfront : (StepRun.run (journalStep wire storedZlib fun _ => 7) bufferedOutput
      [writeLong, .setBuffered false]).map (fun out => out.2.output.config.buffered) =
      .ok false := by
    decide +kernel
  have hlast : (StepRun.run (journalStep wire storedZlib fun _ => 7) bufferedOutput
      ([writeLong, .setBuffered false] ++ [writeLong])).map
        (fun out => (out.1, out.2.output.c.nmsg.payloads.length)) =
      .ok ([.success, .success, .success], 1) := by
    decide +kernel
  cases hrun : StepRun.run (journalStep wire storedZlib fun _ => 7) bufferedOutput
      [writeLong, .setBuffered false] with
  | error e => simp [hrun, Except.map] at hfront
  | ok out =>
      obtain ⟨answers, j⟩ := out
      rw [StepRun.run_append_of_ok hrun, StepRun.run_singleton] at hlast
      have hwrite : NothingPending wire storedZlib (fun _ => 7) j writeLong := halong.at hrun
      simp only [hrun, Except.map, Except.ok.injEq] at hfront
      cases hstep : journalStep wire storedZlib (fun _ => 7) j writeLong with
      | error e => simp [hstep, Except.map] at hlast
      | ok out =>
          obtain ⟨res, j'⟩ := out
          simp only [hstep, Except.map, Except.ok.injEq, Prod.mk.injEq] at hlast
          have hres : res = .success := by
            have hanswer := congrArg List.getLast? hlast.1
            simpa using hanswer
          have hempty := (hwrite j' (hres ▸ hstep) hfront).1
          rw [hempty] at hlast
          exact absurd hlast.2 Nat.zero_ne_one

end Nmsg

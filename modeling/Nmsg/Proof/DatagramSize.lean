import Nmsg.Proof.OutputStream
import Nmsg.Proof.ContainerContract
import Nmsg.SockOutput

/-!
# The size of a datagram

A container is at most as long as was estimated for it, header included. A fragment has 32 octets
beyond its piece of the container: ten of the header, six each of the identifier and the checksum,
four of the length of the piece, and three each of its number and the number of the last, which are
below 2^14 for a payload below two mebibytes.
-/

namespace Nmsg

open Octets WireFormat

variable {pb : ProtobufC} {z : Zlib} {crc32c : Bytes → UInt32}

/-! ### Containers -/

section Containers

variable {c : Container} {nps : List NmsgPayload} {np : NmsgPayload} {doSequence : Bool}

theorem Filled.sizeKnown (h : Filled c nps doSequence) : c.SizeKnown := by
  have hpayloads : c.nmsg.payloads = nps := by rw [h.nmsg]
  unfold Container.SizeKnown
  rw [hpayloads, h.estsz]
  constructor
  · intro hsize
    by_contra hne
    obtain ⟨np, rest, rfl⟩ := List.exists_cons_of_ne_nil hne
    have hpos := (estimate_bounds doSequence (payloadSize np)).1
    simp only [estimates, List.map_cons, List.sum_cons] at hsize
    omega
  · rintro rfl
    rfl

theorem filled_fresh (bufsz : Nat) (doSequence : Bool) :
    Filled (Container.fresh bufsz doSequence) [] doSequence :=
  ⟨rfl, rfl, rfl, fun _ h => (List.not_mem_nil h).elim⟩

/-- A payload is added, or the container is full. -/
theorem Filled.add (h : Filled c nps doSequence) {now : WallTime} {msg : Message}
    (hmsg : messageSerialize now msg = msg) (hnp : msg.np = some np) (hsmall : np.size < 2 ^ 21) :
    ∃ res c' msg', containerAdd now c msg = .ok (res, c', msg') ∧ c'.bufsz = c.bufsz ∧
      ((res = .containerFull ∧ c' = c ∧ msg' = msg ∧ nps ≠ []) ∨
        (res = .containerOverfull ∧ Filled c' [np] doSequence) ∨
        (res = .success ∧ Filled c' (nps ++ [np]) doSequence ∧ c'.estsz ≤ c'.bufsz)) := by
  have hready : (Addition.mk now msg).Ready := by
    rw [Addition.Ready, hmsg, hnp]
    exact Option.some_ne_none np
  obtain ⟨res, c', msg', hadd, hcontract⟩ := containerAdd_contract h.sizeKnown hready
  have hpayloads : c.nmsg.payloads = nps := by rw [h.nmsg]
  have hgrown : res ≠ .containerFull → Filled c' (nps ++ [np]) doSequence := by
    intro hres
    have hadd' := hadd
    simp only [containerAdd, hmsg, hnp] at hadd'
    split at hadd'
    · cases hadd'
      exact absurd rfl hres
    · have hc' : c' = { c with
          nmsg := { c.nmsg with payloads := c.nmsg.payloads ++ [np] }
          estsz := c.estsz + estimate c.doSequence (payloadSize np) } := by
        split at hadd' <;>
        · cases hadd'
          rfl
      rw [hc']
      refine ⟨by rw [h.nmsg], ?_, h.doSequence, ?_⟩
      · simp only [h.estsz, h.doSequence, estimates, List.map_append, List.map_cons, List.map_nil,
          List.sum_append, List.sum_cons, List.sum_nil]
        omega
      · intro np' hnp'
        rcases List.mem_append.mp hnp' with hold | hnew
        · exact h.small np' hold
        · rwa [List.mem_singleton.mp hnew]
  refine ⟨res, c', msg', hadd, hcontract.bufsz, ?_⟩
  rcases hcontract.results with rfl | rfl | rfl
  · exact Or.inr (Or.inr ⟨rfl, hgrown (by rintro ⟨⟩), hcontract.success rfl⟩)
  · have hnil : nps = [] := hpayloads ▸ (hcontract.overfull rfl).1
    have hfilled := hgrown (by rintro ⟨⟩)
    rw [hnil, List.nil_append] at hfilled
    exact Or.inr (Or.inl ⟨rfl, hfilled⟩)
  · obtain ⟨hne, hc', hmsg', -⟩ := hcontract.full rfl
    exact Or.inl ⟨rfl, hc', hmsg'.trans hmsg, hpayloads ▸ hne⟩

/-- A container that is not compressed is packed within what was estimated. -/
theorem Filled.serialize (hpb : pb.Lawful) (h : Filled c nps doSequence) (hne : nps ≠ [])
    (crc32c : Bytes → UInt32) (doHeader : Bool) (sequence : UInt32) (sequenceId : UInt64) :
    ∃ out c', containerSerialize pb z crc32c c doHeader false sequence sequenceId =
        .ok (out, c') ∧ out.bufLen = out.buf.length ∧
      out.bufLen = (if doHeader then hdrlszV2 else 0) +
        serializedSize crc32c nps doSequence sequence sequenceId := by
  have hlength : (pb.packNmsg (containerPrepare crc32c c sequence sequenceId).nmsg).length =
      serializedSize crc32c nps doSequence sequence sequenceId := by
    rw [hpb.length_packNmsg, h.packedSize]
  have hle := serializedSize_le crc32c doSequence sequence sequenceId h.small hne
  have hestsz := h.estsz
  have hroom : ¬ (if doHeader then hdrlszV2 else 0) +
      (pb.packNmsg (containerPrepare crc32c c sequence sequenceId).nmsg).length > c.estsz := by
    split <;> omega
  have hok : containerSerialize pb z crc32c c doHeader false sequence sequenceId =
      .ok (⟨(if doHeader then headerSerialize 0 (pb.packNmsg
          (containerPrepare crc32c c sequence sequenceId).nmsg).length else []) ++
            pb.packNmsg (containerPrepare crc32c c sequence sequenceId).nmsg,
          (if doHeader then hdrlszV2 else 0) +
            (pb.packNmsg (containerPrepare crc32c c sequence sequenceId).nmsg).length⟩,
        containerPrepare crc32c c sequence sequenceId) := by
    simp only [containerSerialize, Bool.false_eq_true, if_false, if_neg hroom]
  refine ⟨_, _, hok, ?_, ?_⟩
  · rw [List.length_append]
    cases doHeader <;> simp
  · simp only [hlength]

end Containers

/-! ### Fragments -/

section Fragments

variable {nf : NmsgFragment} {bufsz : Nat} {packed : Bytes} {flags : UInt8}

/-- A fragment with numbers below 2^14. -/
theorem length_packFragment_le_of_few (hpb : pb.Lawful) (nf : NmsgFragment)
    (hle : bufsz ≤ wbufszMax) (hmin : wbufszMin ≤ bufsz) (hsize : nf.fragment.length ≤ bufsz - 32)
    (hcurrent : nf.current.toNat < 2 ^ 14) (hlast : nf.last.toNat < 2 ^ 14) :
    hdrlszV2 + (pb.packFragment nf).length ≤ bufsz := by
  have hid := varintSize_uint32 nf.id
  have hcrc := optionalSize_le nf.crc
  have hcurrent' : varintSize nf.current.toNat ≤ 2 := varintSize_le (k := 1) (by simpa using hcurrent)
  have hlast' : varintSize nf.last.toNat ≤ 2 := varintSize_le (k := 1) (by simpa using hlast)
  have hlen : varintSize nf.fragment.length ≤ 3 := by
    apply varintSize_le
    simp only [wbufszMax] at hle
    omega
  rw [hpb.length_packFragment, fragmentPackedSize, hdrlszV2]
  simp only [wbufszMin] at hmin
  omega

/-- The datagrams are the octets that a file would get. -/
theorem flatten_fragDatagrams (fuel fragpos i : Nat) :
    (fragDatagrams pb bufsz flags nf packed fuel fragpos i).map List.flatten =
      fragLoop pb bufsz flags nf packed fuel fragpos i := by
  induction fuel generalizing fragpos i with
  | zero =>
      rw [fragDatagrams, fragLoop]
      split <;> rfl
  | succ fuel ih =>
      rw [fragDatagrams, fragLoop]
      by_cases hmore : fragpos < packed.length
      · rw [if_pos hmore, if_pos hmore]
        dsimp only
        rw [← ih]
        generalize pb.packFragment _ = frag
        by_cases hroom : bufsz + 32 < frag.length
        · rw [if_pos hroom, if_pos hroom]
          rfl
        · rw [if_neg hroom, if_neg hroom]
          by_cases hi : i + 1 = 2 ^ 31
          · rw [if_pos hi, if_pos hi]
            rfl
          · rw [if_neg hi, if_neg hi]
            cases fragDatagrams pb bufsz flags nf packed fuel _ (i + 1) with
            | error e => rfl
            | ok rest => simp only [Except.map, List.flatten_cons]
      · rw [if_neg hmore, if_neg hmore]
        rfl

/-- **No fragment is too long**, when there are less than 2^14 of them. By induction on the rounds
left. -/
theorem fragDatagrams_le (hpb : pb.Lawful) (flags : UInt8) (nf : NmsgFragment)
    (hle : bufsz ≤ wbufszMax) (hmin : wbufszMin ≤ bufsz)
    (hlast : nf.last.toNat < 2 ^ 14) (hfew : packed.length / (bufsz - 32) + 1 < 2 ^ 14)
    {fuel fragpos i : Nat} (hpos : fragpos = i * (bufsz - 32))
    (hfuel : packed.length ≤ fragpos + fuel) :
    ∃ datagrams, fragDatagrams pb bufsz flags nf packed fuel fragpos i = .ok datagrams ∧
      ∀ d ∈ datagrams, d.length ≤ bufsz := by
  have hpiece : 0 < bufsz - 32 := by
    simp only [wbufszMin] at hmin
    omega
  induction fuel generalizing fragpos i with
  | zero =>
      refine ⟨[], ?_, fun d hd => (List.not_mem_nil hd).elim⟩
      rw [fragDatagrams, if_neg (by omega)]
  | succ fuel ih =>
      rw [fragDatagrams]
      by_cases hmore : fragpos < packed.length
      · have hi : i < 2 ^ 14 - 1 := by
          have hdiv : i ≤ packed.length / (bufsz - 32) :=
            (Nat.le_div_iff_mul_le hpiece).mpr (by omega)
          omega
        rw [if_pos hmore]
        dsimp only
        generalize hfragsz : (if packed.length - fragpos > bufsz - 32 then bufsz - 32
          else packed.length - fragpos) = fragsz
        have hsize : ((packed.drop fragpos).take fragsz).length ≤ bufsz - 32 := by
          rw [List.length_take]
          split at hfragsz <;> omega
        have hcurrent : (UInt32.ofNat i).toNat < 2 ^ 14 := by
          rw [UInt32.toNat_ofNat', Nat.mod_eq_of_lt (by omega)]
          omega
        have hlen := length_packFragment_le_of_few hpb
          { nf with current := .ofNat i, fragment := (packed.drop fragpos).take fragsz }
          hle hmin hsize hcurrent hlast
        have hnext : fragpos + (bufsz - 32) = (i + 1) * (bufsz - 32) := by rw [Nat.succ_mul, hpos]
        obtain ⟨rest, hrest, hbound⟩ := ih hnext (by omega)
        rw [if_neg (by omega), if_neg (by omega), hrest]
        refine ⟨_, rfl, ?_⟩
        intro d hd
        rcases List.mem_cons.mp hd with rfl | hd
        · rw [List.length_append, length_headerSerialize]
          exact hlen
        · exact hbound d hd
      · rw [if_neg hmore]
        exact ⟨[], rfl, fun d hd => (List.not_mem_nil hd).elim⟩

/-- A file gets the fragments one behind the other. -/
theorem sockFragWrite_file (s : StreamOutput) (id : UInt32) (fails : Nat → Bool) :
    (sockFragWrite pb z crc32c s id fails).map Prod.snd =
      (outputFragWrite pb z crc32c s id).map Prod.snd := by
  simp only [sockFragWrite, outputFragWrite]
  cases containerSerialize pb z crc32c s.c false s.config.doZlib s.sequence s.sequenceId with
  | error e => rfl
  | ok out =>
      simp only
      by_cases hroom : out.1.buf.length < out.1.bufLen
      · rw [if_pos hroom, if_pos hroom]
        rfl
      · rw [if_neg hroom, if_neg hroom]
        generalize out.1.buf.take out.1.bufLen = packed
        by_cases hwhole : s.config.doZlib = true ∧ packed.length ≤ s.bufsz - 32
        · rw [if_pos hwhole, if_pos hwhole]
          rfl
        · rw [if_neg hwhole, if_neg hwhole, ← flatten_fragDatagrams]
          cases fragDatagrams pb s.bufsz _ _ packed packed.length 0 0 with
          | error e => rfl
          | ok datagrams => rfl

end Fragments

/-! ### Calls -/

section Calls

/-- An output that does not compress, with room for what is in its container. -/
structure Sending (bufsz : Nat) (s : StreamOutput) : Prop where
  bufsz : s.bufsz = bufsz
  doZlib : s.config.doZlib = false
  filled : ∃ nps, Filled s.c nps s.doSequence
  container : s.c.bufsz = s.bufsz
  room : s.c.estsz ≤ s.bufsz

/-- A call returns, and none of its datagrams is too long. -/
def SendsWithin (bufsz : Nat) (called : Except Abort ((Res × List Bytes) × StreamOutput)) : Prop :=
  ∃ res sent s', called = .ok ((res, sent), s') ∧ (∀ d ∈ sent, d.length ≤ bufsz) ∧
    Sending bufsz s'

variable {bufsz : Nat} {s : StreamOutput} {nps : List NmsgPayload} {np : NmsgPayload}

theorem sendsWithin_of_quiet (h : Sending bufsz s) (res : Res) :
    SendsWithin bufsz (.ok ((res, []), s)) :=
  ⟨res, [], s, rfl, fun _ hd => (List.not_mem_nil hd).elim, h⟩

theorem sending_fresh (hbufsz : s.bufsz = bufsz) (hzlib : s.config.doZlib = false)
    (hc : s.c = Container.fresh s.bufsz s.doSequence) : Sending bufsz s := by
  refine ⟨hbufsz, hzlib, ⟨[], ?_⟩, ?_, ?_⟩
  · rw [hc]
    exact filled_fresh s.bufsz s.doSequence
  · rw [hc]
    rfl
  · have hmin := s.le_bufsz
    rw [hc]
    exact Nat.le_trans (show hdrlszV2 ≤ wbufszMin by decide) hmin

/-- The state behind what was sent has an empty container. -/
theorem sending_next (hbufsz : s.bufsz = bufsz) (hzlib : s.config.doZlib = false) (octets : Bytes) :
    Sending bufsz (s.next octets) := by
  exact sending_fresh hbufsz hzlib rfl

theorem Sending.withContainer (h : Sending bufsz s) {c : Container}
    (hfilled : Filled c nps s.doSequence) (hc : c.bufsz = s.bufsz) (hroom : c.estsz ≤ s.bufsz) :
    Sending bufsz { s with c := c } :=
  ⟨h.bufsz, h.doZlib, ⟨nps, hfilled⟩, hc, hroom⟩

/-- **Containers that are sent whole.** -/
theorem sockWriteContainer_within (hpb : pb.Lawful) (h : Sending bufsz s)
    (hne : s.c.nmsg.payloads ≠ []) (fails : Bool) :
    SendsWithin bufsz (sockWriteContainer pb z crc32c s fails) := by
  obtain ⟨nps, hfilled⟩ := h.filled
  have hpayloads : s.c.nmsg.payloads = nps := by rw [hfilled.nmsg]
  have hnps : nps ≠ [] := hpayloads ▸ hne
  obtain ⟨out, c', hok, hlen, hsize⟩ := hfilled.serialize (z := z) hpb hnps crc32c true s.sequence
    s.sequenceId
  have hle := serializedSize_le crc32c s.doSequence s.sequence s.sequenceId hfilled.small hnps
  have hestsz := hfilled.estsz
  have hroom := h.room
  rw [if_pos rfl] at hsize
  refine ⟨outputNmsgWriteSock fails, [out.buf.take out.bufLen], s.next (out.buf.take out.bufLen),
    ?_, ?_, sending_next h.bufsz h.doZlib _⟩
  · rw [sockWriteContainer, h.doZlib, hok]
    simp only
    rw [if_neg (by omega)]
  · intro d hd
    rw [List.mem_singleton.mp hd, List.length_take, ← h.bufsz]
    omega

/-- **Payloads that are sent in fragments**, 480 octets or more in all but the last of them. -/
theorem sockFragWrite_within (hpb : pb.Lawful) (hbufsz : s.bufsz = bufsz)
    (hzlib : s.config.doZlib = false) (hfilled : Filled s.c [np] s.doSequence) (id : UInt32)
    (fails : Nat → Bool) : SendsWithin bufsz (sockFragWrite pb z crc32c s id fails) := by
  obtain ⟨out, c', hok, hlen, hsize⟩ := hfilled.serialize (z := z) hpb (List.cons_ne_nil np [])
    crc32c false s.sequence s.sequenceId
  have hsmall := payloadSize_lt (hfilled.small np (List.mem_singleton_self np))
  have hestimate := (estimate_bounds s.doSequence (payloadSize np)).2
  have hle := serializedSize_le crc32c s.doSequence s.sequence s.sequenceId hfilled.small
    (List.cons_ne_nil np [])
  simp only [estimates, List.map_cons, List.map_nil, List.sum_cons, List.sum_nil] at hle
  rw [if_neg Bool.false_ne_true] at hsize
  have htake : out.buf.take out.bufLen = out.buf := List.take_of_length_le (by omega)
  have hmin := s.le_bufsz
  simp only [wbufszMin] at hmin
  have hfew : out.buf.length / (s.bufsz - 32) ≤ out.buf.length / 480 :=
    Nat.div_le_div_left (by omega) (by decide)
  have hlast : (UInt32.ofNat (out.buf.length / (s.bufsz - 32))).toNat < 2 ^ 14 := by
    rw [UInt32.toNat_ofNat', Nat.mod_eq_of_lt (by omega)]
    omega
  obtain ⟨datagrams, hdatagrams, hbound⟩ := fragDatagrams_le hpb (0 ||| flagFragment)
    ⟨id, 0, .ofNat (out.buf.length / (s.bufsz - 32)), [], some (htonl (crc32c out.buf))⟩
    s.bufsz_le s.le_bufsz hlast (by omega) (Nat.zero_mul _).symm
    (Nat.le_of_eq (Nat.zero_add out.buf.length).symm)
  refine ⟨sendResult fails datagrams, datagrams, s.next datagrams.flatten, ?_, ?_,
    sending_next hbufsz hzlib _⟩
  · rw [sockFragWrite, hzlib, hok]
    simp only [htake, Bool.false_eq_true, false_and, if_false]
    rw [if_neg (by omega), hdatagrams]
  · exact hbufsz ▸ hbound

/-- A payload is added after all, when what was in its way has been sent. -/
theorem SendsWithin.append {sent : List Bytes}
    {called : Except Abort ((Res × List Bytes) × StreamOutput)}
    (hsent : ∀ d ∈ sent, d.length ≤ bufsz) (h : SendsWithin bufsz called) :
    SendsWithin bufsz (called.map fun ((res, datagrams), s) => ((res, sent ++ datagrams), s)) := by
  obtain ⟨res, datagrams, s', rfl, hdatagrams, hnext⟩ := h
  refine ⟨res, sent ++ datagrams, s', rfl, ?_, hnext⟩
  intro d hd
  rcases List.mem_append.mp hd with hd | hd
  · exact hsent d hd
  · exact hdatagrams d hd

/-- **A write.** The cases are those of adding the payload. -/
theorem sockOutputNmsgWrite_within (hpb : pb.Lawful) (h : Sending bufsz s) {now : WallTime}
    {msg : Message} (hnp : (messageSerialize now msg).np = some np) (hsmall : np.size < 2 ^ 21)
    (id : UInt32) (fails : Nat → Bool) :
    SendsWithin bufsz
      (sockOutputNmsgWrite pb z crc32c s now id (messageSerialize now msg) fails) := by
  have hdone := messageSerialize_override now now msg (s.config.override np)
  simp only [sockOutputNmsgWrite, hnp]
  generalize hmsg' : { messageSerialize now msg with np := some (s.config.override np) } = msg'
    at hdone ⊢
  have hnp' : msg'.np = some (s.config.override np) := by rw [← hmsg']
  have hsmall' : (s.config.override np).size < 2 ^ 21 := hsmall
  obtain ⟨nps, hfilled⟩ := h.filled
  obtain ⟨res, c', msg'', hadd, hbufsz, hcases⟩ := hfilled.add hdone hnp' hsmall'
  simp only [hadd]
  rcases hcases with ⟨rfl, rfl, rfl, hne⟩ | ⟨rfl, hover⟩ | ⟨rfl, hgrown, hroom⟩
  · -- the container is sent, and the payload goes to the next one
    have hpayloads : s.c.nmsg.payloads ≠ [] := by rwa [hfilled.nmsg]
    have hwithin : SendsWithin bufsz (sockWriteContainer pb z crc32c s (fails 0)) :=
      sockWriteContainer_within hpb h hpayloads (fails 0)
    obtain ⟨res, sent, s', hok, hsent, hnext⟩ := hwithin
    simp only [hok]
    by_cases hres : res ≠ .success
    · rw [if_pos hres]
      exact ⟨res, sent, s', rfl, hsent, hnext⟩
    · rw [if_neg hres]
      obtain ⟨nps', hfilled'⟩ := hnext.filled
      obtain ⟨res', c', msg₁, hadd', hbufsz', hcases'⟩ := hfilled'.add hdone hnp' hsmall'
      simp only [hadd']
      rcases hcases' with ⟨rfl, rfl, rfl, -⟩ | ⟨rfl, hover⟩ | ⟨rfl, hgrown, hroom⟩
      · exact ⟨_, sent, _, rfl, hsent, hnext⟩
      · exact (sockFragWrite_within (s := { s' with c := c' }) hpb hnext.bufsz hnext.doZlib hover
          id _).append hsent
      · exact ⟨_, sent, _, rfl, hsent, hnext.withContainer hgrown
          (hbufsz'.trans hnext.container) (by rw [← hnext.container, ← hbufsz']; exact hroom)⟩
  · exact sockFragWrite_within (s := { s with c := c' }) hpb h.bufsz h.doZlib hover id fails
  · have hnext := h.withContainer hgrown (hbufsz.trans h.container)
      (by rw [← h.container, ← hbufsz]; exact hroom)
    simp only
    by_cases hbuffered : s.config.buffered = false
    · rw [if_pos hbuffered]
      have hpayloads : c'.nmsg.payloads ≠ [] := by
        rw [hgrown.nmsg]
        exact List.append_ne_nil_of_right_ne_nil _ (List.cons_ne_nil _ _)
      exact sockWriteContainer_within hpb hnext hpayloads (fails 0)
    · rw [if_neg hbuffered]
      exact sendsWithin_of_quiet hnext .success

/-- The message that is written has a payload, shorter than two mebibytes. -/
def SockOutputOp.Small : SockOutputOp → Prop
  | .write now _ msg _ => ∃ np, (messageSerialize now msg).np = some np ∧ np.size < 2 ^ 21
  | .flush _ => True
  | .setBuffered _ => True

theorem sockOutputStep_within (hpb : pb.Lawful) (h : Sending bufsz s) {op : SockOutputOp}
    (hop : op.Small) : SendsWithin bufsz (sockOutputStep pb z crc32c s op) := by
  cases op with
  | write now id msg fails =>
      obtain ⟨np, hnp, hsmall⟩ := hop
      simp only [sockOutputStep, hnp]
      by_cases hfiltered : s.doFilter = true ∧ (s.filterVid ≠ np.vid ∨ s.filterMsgtype ≠ np.msgtype)
      · rw [if_pos hfiltered]
        exact sendsWithin_of_quiet h .success
      · rw [if_neg hfiltered]
        exact sockOutputNmsgWrite_within hpb h hnp hsmall id fails
  | flush fails =>
      rw [sockOutputStep]
      by_cases hne : s.c.nmsg.payloads ≠ []
      · rw [if_pos hne]
        exact sockWriteContainer_within hpb h hne fails
      · rw [if_neg hne]
        exact sendsWithin_of_quiet h .success
  | setBuffered buffered =>
      exact ⟨.success, [], _, rfl, fun _ hd => (List.not_mem_nil hd).elim,
        ⟨h.bufsz, h.doZlib, h.filled, h.container, h.room⟩⟩

/-- **Datagrams are no longer than the buffer size.** Whatever size is asked for, no call of a socket
output that does not compress fails to return or hands a longer datagram to the socket. -/
theorem datagrams_within_bufsz (hpb : pb.Lawful) (bufsz : Nat) (config : OutputConfig)
    (hzlib : config.doZlib = false) (sequenceId : UInt64) (ops : List SockOutputOp)
    (hops : ∀ op ∈ ops, op.Small) :
    ∃ answers s, StepRun.run (sockOutputStep pb z crc32c)
        (StreamOutput.openSock bufsz config sequenceId) ops = .ok (answers, s) ∧
      s.bufsz = min (max bufsz wbufszMin) wbufszMax ∧
      ∀ answer ∈ answers, ∀ d ∈ answer.2, d.length ≤ min (max bufsz wbufszMin) wbufszMax := by
  have hopen : Sending (min (max bufsz wbufszMin) wbufszMax)
      (StreamOutput.openSock bufsz config sequenceId) := sending_fresh rfl hzlib rfl
  have hstep : ∀ s op, Sending (min (max bufsz wbufszMin) wbufszMax) s → op.Small →
      ∃ answer s', sockOutputStep pb z crc32c s op = .ok (answer, s') ∧
        (∀ d ∈ answer.2, d.length ≤ min (max bufsz wbufszMin) wbufszMax) ∧
        Sending (min (max bufsz wbufszMin) wbufszMax) s' := by
    intro s op h hop
    obtain ⟨res, sent, s', hok, hsent, hnext⟩ :=
      sockOutputStep_within hpb h hop
    exact ⟨(res, sent), s', hok, hsent, hnext⟩
  obtain ⟨answers, s, hrun, hsending, hanswers⟩ :=
    StepRun.answers_of_invariant _ _ hstep hopen hops
  exact ⟨answers, s, hrun, hsending.bufsz, hanswers⟩

theorem datagrams_within_bufsz_sample :
    ∃ answers s, StepRun.run (sockOutputStep wire storedZlib fun _ => 7)
        (StreamOutput.openSock 100 ⟨true, false, 0, 0, 0⟩ 6)
        [.write ⟨0, 0⟩ 3 (messageFromPayload samplePayload) fun _ => false, .flush false] =
          .ok (answers, s) ∧
      s.bufsz = min (max 100 wbufszMin) wbufszMax ∧
      ∀ answer ∈ answers, ∀ d ∈ answer.2, d.length ≤ min (max 100 wbufszMin) wbufszMax := by
  apply datagrams_within_bufsz wire_lawful 100 _ rfl
  intro op hop
  rcases List.mem_cons.mp hop with rfl | hop
  · exact ⟨samplePayload, rfl, by decide⟩
  · rw [List.mem_singleton.mp hop]
    trivial

end Calls

end Nmsg

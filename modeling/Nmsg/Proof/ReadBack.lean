import Nmsg.Proof.Defrag
import Nmsg.Proof.FileReader
import Nmsg.Stream

/-!
# Reading what was written

A reader in front of the containers of a batch hands its payloads over, one with each call behind
those that fetch the fragments, and is then in front of the next batch with nothing left over in its
decoder.
-/

namespace Nmsg

variable {pb : ProtobufC} {z : Zlib} {crc32c : Bytes → UInt32} {world : ReadWorld}

/-! ### Fragments in order -/

section Fragments

variable {c : FragmentedContainer} {k : Nat} {d : Decoder z}

theorem mem_firstPieces {j : Nat} : ((0 : Fin 1), j) ∈ firstPieces k ↔ j < k := by
  simp [firstPieces]

theorem complete_firstPieces :
    Complete (fun _ : Fin 1 => c) (firstPieces k) 0 ↔ c.pieces.length ≤ k := by
  constructor
  · intro h
    by_contra hlt
    exact Nat.lt_irrefl k (mem_firstPieces.mp (h k (Nat.not_le.mp hlt)))
  · intro h j hj
    exact mem_firstPieces.mpr (Nat.lt_of_lt_of_le hj h)

theorem firstPieces_succ (k : Nat) : firstPieces (k + 1) = firstPieces k ++ [(0, k)] := by
  simp [firstPieces, List.range_succ]

theorem collected_nil (c : FragmentedContainer) :
    Collected (fun _ : Fin 1 => c) (firstPieces 0) (Decoder.open z) :=
  collected_open z _

/-- Without a node for the container there is no node at all. -/
theorem Collected.nodes_eq_nil {seen : List (Piece 1)}
    (h : Collected (fun _ : Fin 1 => c) seen d) (hnone : d.nft.find c.key = none) :
    d.nft.nodes = [] := by
  rw [List.eq_nil_iff_forall_not_mem]
  intro fent hfent
  obtain ⟨_, hkey⟩ := h.ours fent hfent
  have hsome := KeyTree.find_of_mem hfent
  rw [hkey, hnone] at hsome
  cases hsome

/-- Behind the last piece nothing is left. -/
theorem Collected.eq_open
    (h : Collected (fun _ : Fin 1 => c) (firstPieces c.pieces.length) d) :
    d = Decoder.open z := by
  have hnode := h.tracks 0
  have hgone : d.nft.find c.key = none := by
    unfold Tracks at hnode
    cases hfind : d.nft.find c.key with
    | none => rfl
    | some fent =>
        rw [hfind] at hnode
        exact absurd (complete_firstPieces.mpr le_rfl) hnode.2
  have hempty := h.nodes_eq_nil hgone
  obtain ⟨zb, ⟨nodes, distinct⟩, nfrags⟩ := d
  obtain rfl : nodes = [] := hempty
  obtain rfl : zb = z.inflateInit := h.zb
  obtain rfl : nfrags = 0 := UInt32.toNat_inj.mp h.nfrags
  rfl

theorem inputNmsgUnpackContainer_piece (hpb : pb.Lawful) (hz : z.Lawful) (hvalid : c.Valid pb z)
    (hfew : c.pieces.length < 2 ^ 32) (haddr : c.addrSs = .other 0 [])
    (hd : Collected (fun _ : Fin 1 => c) (firstPieces k) d) (hk : k < c.pieces.length)
    {env : CallEnv} (henv : env.Succeeds) (now : Timespec) :
    ∃ d', inputNmsgUnpackContainer pb env ⟨c.flags, now, .other 0 []⟩ d
          (pb.packFragment (c.fragment k)) =
        .ok ((if k + 1 = c.pieces.length then .success else .again),
          (if k + 1 = c.pieces.length then some c.nmsg else none), d') ∧
      Collected (fun _ : Fin 1 => c) (firstPieces (k + 1)) d' := by
  have hroom : d.nft.find c.key = none → d.nft.size + 1 < 2 ^ 32 := by
    intro hnone
    rw [KeyTree.size, hd.nodes_eq_nil hnone]
    decide
  have hincomplete : ¬ Complete (fun _ : Fin 1 => c) (firstPieces k) 0 := by
    rw [complete_firstPieces]
    omega
  obtain ⟨d', hread, hcollected, -⟩ := inputFragRead_piece now hz hvalid
    (Function.injective_of_subsingleton _) hfew hd hroom hk hincomplete henv
    (hpb.unpackFragment_packFragment _)
  rw [← firstPieces_succ] at hcollected
  refine ⟨d', ?_, hcollected⟩
  rw [inputNmsgUnpackContainer, if_pos hvalid.flagged, ← haddr, hread, outcome, ← firstPieces_succ]
  have hiff : Complete (fun _ : Fin 1 => c) (firstPieces (k + 1)) 0 ↔ k + 1 = c.pieces.length := by
    rw [complete_firstPieces]
    omega
  by_cases hlast : k + 1 = c.pieces.length
  · rw [if_pos (hiff.mpr hlast), if_pos hlast, if_pos hlast]
  · rw [if_neg (fun h => hlast (hiff.mp h)), if_neg hlast, if_neg hlast]

end Fragments

/-! ### Payloads of a container -/

/-- Every call is answered, none of them by a failure, and these payloads are handed over. -/
structure Answered (answers : List (Res × Option Message)) (nps : List NmsgPayload) : Prop where
  res : ∀ answer ∈ answers, answer.1 = .success ∨ answer.1 = .again
  messages : handedOver answers = nps.map messageFromPayload

section Answered

variable {answers answers' : List (Res × Option Message)} {nps nps' : List NmsgPayload}

theorem answered_nil : Answered [] [] := ⟨fun _ h => (List.not_mem_nil h).elim, rfl⟩

theorem answered_again : Answered [(.again, none)] [] := by
  refine ⟨?_, rfl⟩
  intro answer h
  rw [List.mem_singleton.mp h]
  exact Or.inr rfl

theorem answered_success (np : NmsgPayload) :
    Answered [(.success, some (messageFromPayload np))] [np] := by
  refine ⟨?_, rfl⟩
  intro answer h
  rw [List.mem_singleton.mp h]
  exact Or.inl rfl

theorem Answered.append (h : Answered answers nps) (h' : Answered answers' nps') :
    Answered (answers ++ answers') (nps ++ nps') := by
  constructor
  · intro answer hmem
    rcases List.mem_append.mp hmem with hmem | hmem
    · exact h.res answer hmem
    · exact h'.res answer hmem
  · rw [handedOver, List.filterMap_append, List.map_append, ← h.messages, ← h'.messages]
    rfl

end Answered

/-- The reader rests in front of these containers, with an input that filters nothing. -/
structure FrontOf (s : FileInput z) (cs : List FileContainer) : Prop where
  inFront : ∃ flags, InFront (s.reader, s.decoder) ⟨cs, flags, s.decoder⟩
  filter : s.filter = ⟨false, 0, 0, 0, 0, 0⟩

/-- The payload at `idx` of a container was handed over. -/
structure HandedAt (s : FileInput z) (nmsg : ProtoNmsg) (idx : Nat) : Prop where
  held : s.nmsg = some nmsg
  npIndex : s.npIndex = idx
  lt : idx < nmsg.payloads.length

/-- All payloads of the container at hand were handed over, if there is one. -/
def Exhausted (s : FileInput z) : Prop :=
  ∀ nmsg, s.nmsg = some nmsg → nmsg.payloads ≠ [] ∧ nmsg.payloads.length ≤ s.npIndex + 1

section Hand

variable {s : FileInput z} {cs : List FileContainer} {nmsg : ProtoNmsg} {nps : List NmsgPayload}
  {idx : Nat} {env : CallEnv}

theorem handPayload_loaded (hloaded : Loaded crc32c nmsg nps)
    (hfilter : s.filter = ⟨false, 0, 0, 0, 0, 0⟩) (hidx : s.npIndex < nps.length) :
    handPayload crc32c s nmsg =
      .ok ((.success, some (messageFromPayload nps[s.npIndex])), { s with nmsg := some nmsg }) := by
  have hnp : nps[s.npIndex]? = some nps[s.npIndex] := List.getElem?_eq_getElem hidx
  have hcrc := hloaded.crcs _ _ hnp
  have hpass : inputNmsgFilter crc32c s.filter nmsg s.npIndex nps[s.npIndex] = true := by
    simp [inputNmsgFilter, hcrc, hfilter]
  simp only [handPayload, hloaded.payloads, hnp, hpass]
  rfl

/-- The next payload of the container at hand. -/
theorem inputNmsgRead_hand (pb : ProtobufC) (world : ReadWorld)
    (hloaded : Loaded crc32c nmsg nps) (hfront : FrontOf s cs)
    (h : HandedAt s nmsg idx) (hidx : idx + 1 < nps.length) (env : CallEnv) :
    ∃ t, inputNmsgRead pb crc32c world s env =
        .ok ((.success, some (messageFromPayload nps[idx + 1])), t) ∧
      FrontOf t cs ∧ HandedAt t nmsg (idx + 1) ∧ t.decoder = s.decoder := by
  obtain ⟨reader, decoder, held, npIndex, filter⟩ := s
  obtain ⟨hheld, rfl, hlt⟩ := h
  obtain rfl : held = some nmsg := hheld
  have hlen : nmsg.payloads.length = nps.length := by rw [hloaded.payloads]
  have hmore : ¬ (nmsg.payloads.length ≠ 0 ∧ npIndex ≥ nmsg.payloads.length - 1) := by
    simp only at hidx
    omega
  have hhand := handPayload_loaded (s := ⟨reader, decoder, some nmsg, npIndex + 1, filter⟩)
    hloaded hfront.filter hidx
  refine ⟨⟨reader, decoder, some nmsg, npIndex + 1, filter⟩, ?_,
    ⟨hfront.inFront, hfront.filter⟩, ⟨rfl, rfl, by rwa [hlen]⟩, rfl⟩
  simp only [inputNmsgRead, if_neg hmore, hhand]

theorem HandedAt.exhausted (h : HandedAt s nmsg idx) (hlast : nmsg.payloads.length ≤ idx + 1) :
    Exhausted s := by
  intro nmsg' hnmsg
  rw [h.held, Option.some.injEq] at hnmsg
  subst hnmsg
  rw [h.npIndex]
  exact ⟨List.ne_nil_of_length_pos (Nat.zero_lt_of_lt h.lt), hlast⟩

/-- By induction on the number of payloads that are left. -/
theorem yields_hand (hloaded : Loaded crc32c nmsg nps) (hfront : FrontOf s cs)
    (h : HandedAt s nmsg idx) :
    StepRun.Yields (inputNmsgRead pb crc32c world) CallEnv.Succeeds (nps.length - (idx + 1)) s
      fun answers t =>
        Answered answers (nps.drop (idx + 1)) ∧ FrontOf t cs ∧ Exhausted t ∧
          t.decoder = s.decoder := by
  have hlen : nmsg.payloads.length = nps.length := by rw [hloaded.payloads]
  have hlt := h.lt
  obtain ⟨m, hm⟩ : ∃ m, nps.length - (idx + 1) = m := ⟨_, rfl⟩
  rw [hm]
  induction m generalizing s idx with
  | zero =>
      apply StepRun.yields_zero
      rw [List.drop_of_length_le (by omega)]
      exact ⟨answered_nil, hfront, h.exhausted (by omega), rfl⟩
  | succ m ih =>
      have hidx : idx + 1 < nps.length := by omega
      rw [Nat.add_comm m 1, List.drop_eq_getElem_cons hidx]
      refine StepRun.Yields.append (Q := fun answers t =>
        Answered answers [nps[idx + 1]] ∧ FrontOf t cs ∧ HandedAt t nmsg (idx + 1) ∧
          t.decoder = s.decoder) ?_ ?_
      · apply StepRun.yields_one
        intro env _
        obtain ⟨t, hread, hfront', hat, hsame⟩ :=
          inputNmsgRead_hand pb world hloaded hfront h hidx env
        exact ⟨_, t, hread, answered_success _, hfront', hat, hsame⟩
      · rintro answers t ⟨hanswered, hfront', hat, hsame⟩
        refine (ih hfront' hat hat.lt (by omega)).mono ?_
        rintro answers' t' ⟨hanswered', hfront'', hexhausted, hsame'⟩
        exact ⟨hanswered.append hanswered', hfront'', hexhausted, hsame'.trans hsame⟩

/-! ### Containers of a file -/

/-- A call behind the last payload reads a container. -/
theorem inputNmsgRead_container (crc32c : Bytes → UInt32) {res : Res} {r : FileReader}
    {d : Decoder z} {unpacked : Option ProtoNmsg} (hexhausted : Exhausted s)
    (hread : inputNmsgReadContainerFile pb world (s.reader, s.decoder) env =
      .ok ((res, unpacked), r, d)) :
    (res ≠ .success → ∃ idx, inputNmsgRead pb crc32c world s env =
        .ok ((res, none), ⟨r, d, unpacked, idx, s.filter⟩)) ∧
      (∀ nmsg, res = .success → unpacked = some nmsg → inputNmsgRead pb crc32c world s env =
        handPayload crc32c ⟨r, d, some nmsg, 0, s.filter⟩ nmsg) := by
  obtain ⟨reader, decoder, held, npIndex, filter⟩ := s
  cases held with
  | none =>
      simp only at hread
      simp only [inputNmsgRead, hread]
      constructor
      · intro hres
        exact ⟨_, by rw [if_pos hres]⟩
      · rintro nmsg rfl rfl
        rfl
  | some held =>
      obtain ⟨hne, hlast⟩ := hexhausted held rfl
      have hpos := List.length_pos_of_ne_nil hne
      have hdone : held.payloads.length ≠ 0 ∧ npIndex ≥ held.payloads.length - 1 := by
        simp only at hlast
        omega
      simp only at hread
      simp only [inputNmsgRead, if_pos hdone, hread]
      constructor
      · intro hres
        exact ⟨_, by rw [if_pos hres]⟩
      · rintro nmsg rfl rfl
        rfl

/-- The next container of a file is unpacked. -/
theorem inputNmsgReadContainerFile_cons (hworld : world.Reads) {c : FileContainer}
    {rest : List FileContainer} {flags : UInt8} {r : FileReader} {d : Decoder z} {res : Res}
    {unpacked : Option ProtoNmsg} {Q : Decoder z → Prop}
    (hfront : InFront (r, d) ⟨c :: rest, flags, d⟩)
    (hunpack : ∀ now, ∃ d', inputNmsgUnpackContainer pb env
      ⟨c.streamFlags flags, now, .other 0 []⟩ d c.body = .ok (res, unpacked, d') ∧ Q d') :
    ∃ r' d', inputNmsgReadContainerFile pb world (r, d) env = .ok ((res, unpacked), r', d') ∧
      InFront (r', d') ⟨rest, c.streamFlags flags, d'⟩ ∧ Q d' := by
  obtain ⟨now, hspec⟩ := readContainerFile_spec
    (fun env arrival d body => inputNmsgUnpackContainer pb env arrival d body) hworld hfront env
  obtain ⟨d', hok, hQ⟩ := hunpack now
  have hhand : handContainer
      (fun env arrival (d : Decoder z) body => inputNmsgUnpackContainer pb env arrival d body)
      ⟨c :: rest, flags, d⟩ (env, now) =
        .ok ((res, unpacked), ⟨rest, c.streamFlags flags, d'⟩) := by
    simp only [handContainer, hok]
  rcases hspec with ⟨e, -, herror⟩ | ⟨answer, s', q', hread, hanswer, hfront'⟩
  · rw [hhand] at herror
    cases herror
  · rw [hhand, Except.ok.injEq, Prod.mk.injEq] at hanswer
    obtain ⟨rfl, rfl⟩ := hanswer
    obtain ⟨r', d''⟩ := s'
    obtain rfl : d'' = d' := hfront'.unpacker
    exact ⟨r', d'', hread, hfront', hQ⟩

end Hand

/-! ### Batches -/

section Batches

variable {s : FileInput z} {rest : List FileContainer} {nmsg : ProtoNmsg}
  {nps : List NmsgPayload} {c : FragmentedContainer} {k : Nat}

/-- The reader is done with what it read, and these containers are left. -/
structure Between (s : FileInput z) (cs : List FileContainer) : Prop where
  frontOf : FrontOf s cs
  exhausted : Exhausted s
  decoder : s.decoder = Decoder.open z

/-- A container that unpacks leads to its payloads. -/
theorem yields_container (hworld : world.Reads) (hloaded : Loaded crc32c nmsg nps) {flags : UInt8}
    {body : Bytes} (hfront : FrontOf s (.v2 flags body :: rest)) (hexhausted : Exhausted s)
    (hunpack : ∀ env : CallEnv, env.Succeeds → ∀ now, ∃ d', inputNmsgUnpackContainer pb env
      ⟨flags, now, .other 0 []⟩ s.decoder body = .ok (.success, some nmsg, d') ∧
        d' = Decoder.open z) :
    StepRun.Yields (inputNmsgRead pb crc32c world) CallEnv.Succeeds nps.length s
      fun answers t => Answered answers nps ∧ Between t rest := by
  have hpos := List.length_pos_of_ne_nil hloaded.ne
  have hfirst : nps = [nps[0]] ++ nps.drop 1 := by
    rw [List.singleton_append, ← List.drop_eq_getElem_cons hpos, List.drop_zero]
  have hlen : nps.length = 1 + (nps.length - (0 + 1)) := by omega
  rw [hlen]
  refine StepRun.Yields.append (Q := fun answers t => Answered answers [nps[0]] ∧
    FrontOf t rest ∧ HandedAt t nmsg 0 ∧ t.decoder = Decoder.open z) ?_ ?_
  · apply StepRun.yields_one
    intro env henv
    obtain ⟨flags', hinFront⟩ := hfront.inFront
    obtain ⟨r, d, hread, hinFront', hd⟩ :=
      inputNmsgReadContainerFile_cons hworld hinFront (hunpack env henv)
    have hstep := (inputNmsgRead_container crc32c hexhausted hread).2 nmsg rfl rfl
    have hhand := handPayload_loaded (s := ⟨r, d, some nmsg, 0, s.filter⟩) hloaded hfront.filter
      hpos
    refine ⟨_, ⟨r, d, some nmsg, 0, s.filter⟩, hstep.trans hhand, answered_success _,
      ⟨⟨_, hinFront'⟩, hfront.filter⟩, ⟨rfl, rfl, ?_⟩, hd⟩
    rwa [hloaded.payloads]
  · rintro answers t ⟨hanswered, hfront', hat, hd⟩
    refine (yields_hand hloaded hfront' hat).mono ?_
    rintro answers' t' ⟨hanswered', hfront'', hexhausted', hsame⟩
    refine ⟨?_, hfront'', hexhausted', hsame.trans hd⟩
    rw [hfirst]
    exact hanswered.append hanswered'

theorem inputNmsgUnpackContainer_carries (hz : z.Lawful) {flags : UInt8} {body : Bytes}
    (hflags : flags &&& flagFragment = 0) (hcarries : Carries pb z (flags &&& flagZlib ≠ 0) body nmsg)
    {env : CallEnv} (henv : env.Succeeds) (now : Timespec) :
    inputNmsgUnpackContainer pb env ⟨flags, now, .other 0 []⟩ (Decoder.open z) body =
      .ok (.success, some nmsg, Decoder.open z) := by
  rw [inputNmsgUnpackContainer, if_neg (by simp [hflags])]
  by_cases hzlib : flags &&& flagZlib ≠ 0
  · rw [if_pos hzlib]
    obtain ⟨packed, rfl, hpacked, hlen, hunpack⟩ :
        ∃ packed, body = deflated z packed ∧ packed.length < 2 ^ 32 ∧ body.length < 2 ^ 32 ∧
          pb.unpackNmsg packed = some nmsg := by
      simpa [Carries, hzlib] using hcarries
    rw [henv.1, show (Decoder.open z).zb = z.inflateInit from rfl,
      nmsgZbufInflate_deflated hz env.past hpacked hlen]
    simp only [hunpack]
    rfl
  · have hunpack : pb.unpackNmsg body = some nmsg := by
      simpa [Carries, hzlib] using hcarries
    rw [if_neg hzlib]
    simp only [hunpack]

/-- The fragments from `k` on, by induction on their number: all but the last are answered by
`again`, and the last leads to the payloads. -/
theorem yields_fragments (hpb : pb.Lawful) (hz : z.Lawful) (hworld : world.Reads)
    (hvalid : c.Valid pb z) (hfew : c.pieces.length < 2 ^ 32) (haddr : c.addrSs = .other 0 [])
    (hloaded : Loaded crc32c c.nmsg nps) {m : Nat} (hm : k + m + 1 = c.pieces.length)
    (hfront : FrontOf s ((List.range' k (m + 1)).map (c.inFile pb) ++ rest))
    (hexhausted : Exhausted s)
    (hd : Collected (fun _ : Fin 1 => c) (firstPieces k) s.decoder) :
    StepRun.Yields (inputNmsgRead pb crc32c world) CallEnv.Succeeds (m + nps.length) s
      fun answers t => Answered answers nps ∧ Between t rest := by
  induction m generalizing k s with
  | zero =>
      rw [Nat.zero_add]
      have hfront' : FrontOf s (.v2 c.flags (pb.packFragment (c.fragment k)) :: rest) := hfront
      refine yields_container hworld hloaded hfront' hexhausted ?_
      intro env henv now
      obtain ⟨d', hunpack, hcollected⟩ :=
        inputNmsgUnpackContainer_piece hpb hz hvalid hfew haddr hd (by omega) henv now
      have hlast : k + 1 = c.pieces.length := by omega
      rw [if_pos hlast, if_pos hlast] at hunpack
      rw [hlast] at hcollected
      exact ⟨d', hunpack, hcollected.eq_open⟩
  | succ m ih =>
      rw [List.range'_succ, List.map_cons, List.cons_append] at hfront
      rw [show m + 1 + nps.length = 1 + (m + nps.length) by omega]
      have hmore : ¬ k + 1 = c.pieces.length := by omega
      refine StepRun.Yields.append (Q := fun answers t => Answered answers [] ∧
        FrontOf t ((List.range' (k + 1) (m + 1)).map (c.inFile pb) ++ rest) ∧ Exhausted t ∧
          Collected (fun _ : Fin 1 => c) (firstPieces (k + 1)) t.decoder) ?_ ?_
      · apply StepRun.yields_one
        intro env henv
        obtain ⟨flags', hinFront⟩ := hfront.inFront
        have hpiece : ∀ now, ∃ d', inputNmsgUnpackContainer pb env ⟨c.flags, now, .other 0 []⟩
            s.decoder (pb.packFragment (c.fragment k)) = .ok (.again, none, d') ∧
              Collected (fun _ : Fin 1 => c) (firstPieces (k + 1)) d' := by
          intro now
          obtain ⟨d', hunpack, hcollected⟩ :=
            inputNmsgUnpackContainer_piece hpb hz hvalid hfew haddr hd (by omega) henv now
          rw [if_neg hmore, if_neg hmore] at hunpack
          exact ⟨d', hunpack, hcollected⟩
        obtain ⟨r, d, hread, hinFront', hcollected⟩ :=
          inputNmsgReadContainerFile_cons hworld hinFront hpiece
        obtain ⟨idx, hstep⟩ := (inputNmsgRead_container crc32c hexhausted hread).1 (by simp)
        refine ⟨_, _, hstep, answered_again, ⟨⟨_, hinFront'⟩, hfront.filter⟩, ?_, hcollected⟩
        intro nmsg hnone
        cases hnone
      · rintro answers t ⟨hanswered, hfront', hexhausted', hcollected⟩
        refine (ih (by omega) hfront' hexhausted' hcollected).mono ?_
        rintro answers' t' ⟨hanswered', hbetween⟩
        exact ⟨hanswered.append hanswered', hbetween⟩

/-- **A batch is read back.** -/
theorem Emission.yields (hpb : pb.Lawful) (hz : z.Lawful) (hworld : world.Reads)
    {cs : List FileContainer} (h : Emission pb z crc32c nps cs) (hs : Between s (cs ++ rest)) :
    StepRun.Yields (inputNmsgRead pb crc32c world) CallEnv.Succeeds (cs.length - 1 + nps.length) s
      fun answers t => Answered answers nps ∧ Between t rest := by
  obtain ⟨hfront, hexhausted, hd⟩ := hs
  cases h with
  | whole hflags hlen hcarries hloaded =>
      rw [List.length_singleton, Nat.zero_add]
      refine yields_container hworld hloaded hfront hexhausted fun env henv now => ⟨_, ?_, rfl⟩
      rw [hd]
      exact inputNmsgUnpackContainer_carries hz hflags hcarries henv now
  | @fragments c _ hvalid hfew haddr hlen hloaded =>
      have hpos := List.length_pos_of_ne_nil hvalid.pieces_ne
      obtain ⟨m, hm⟩ := Nat.exists_eq_succ_of_ne_zero (Nat.ne_of_gt hpos)
      rw [List.range_eq_range', hm] at hfront
      rw [List.length_map, List.length_range, hm, Nat.succ_sub_one]
      refine yields_fragments hpb hz hworld hvalid hfew haddr hloaded (by omega) hfront hexhausted
        ?_
      rw [hd]
      exact collected_nil c

theorem Emission.fits {cs : List FileContainer} (h : Emission pb z crc32c nps cs) :
    ∀ c ∈ cs, c.Fits := by
  intro c hc
  cases h with
  | whole _ hlen _ _ =>
      rw [List.mem_singleton] at hc
      exact hc ▸ hlen
  | fragments _ _ _ hlen _ =>
      obtain ⟨k, hk, rfl⟩ := List.mem_map.mp hc
      exact hlen k (List.mem_range.mp hk)

/-- At the end of the file its end is reported. -/
theorem yields_eof (hworld : world.Reads) (hs : Between s []) :
    StepRun.Yields (inputNmsgRead pb crc32c world) CallEnv.Succeeds 1 s
      fun answers _ => answers = [(.eof, none)] := by
  obtain ⟨⟨⟨flags, hinFront⟩, -⟩, hexhausted, -⟩ := hs
  apply StepRun.yields_one
  intro env _
  obtain ⟨r, hfetch, -⟩ := fetchContainer_eof hworld hinFront.atRest hinFront.stream
  have hread : inputNmsgReadContainerFile pb world (s.reader, s.decoder) env =
      .ok ((.eof, none), r, s.decoder) := by
    simp only [inputNmsgReadContainerFile, readContainerFile, hfetch]
  obtain ⟨idx, hstep⟩ := (inputNmsgRead_container crc32c hexhausted hread).1 (by simp)
  exact ⟨_, _, hstep, rfl⟩

/-- The calls that read batches back. -/
def Emissions.calls (es : Emissions) : Nat := (es.map fun e => e.2.length - 1 + e.1.length).sum

variable (crc32c) in
theorem yields_emissions (hpb : pb.Lawful) (hz : z.Lawful) (hworld : world.Reads) {es : Emissions}
    (hes : ∀ e ∈ es, Emission pb z crc32c e.1 e.2) (hs : Between s (es.flatMap Prod.snd)) :
    StepRun.Yields (inputNmsgRead pb crc32c world) CallEnv.Succeeds (es.calls + 1) s
      fun answers _ => ∃ answers', answers = answers' ++ [(.eof, none)] ∧
        Answered answers' (es.flatMap Prod.fst) := by
  induction es generalizing s with
  | nil =>
      refine (yields_eof hworld hs).mono ?_
      rintro answers t rfl
      exact ⟨[], rfl, answered_nil⟩
  | cons e es ih =>
      rw [List.flatMap_cons] at hs
      rw [Emissions.calls, List.map_cons, List.sum_cons, Nat.add_assoc]
      refine ((hes e (by simp)).yields hpb hz hworld hs).append ?_
      rintro answers t ⟨hanswered, hbetween⟩
      refine (ih (fun e he => hes e (by simp [he])) hbetween).mono ?_
      rintro answers' t' ⟨answers'', rfl, hanswered'⟩
      refine ⟨answers ++ answers'', by rw [List.append_assoc], ?_⟩
      rw [List.flatMap_cons]
      exact hanswered.append hanswered'

/-- A file that is opened. -/
theorem between_open {cs : List FileContainer} (hfits : ∀ c ∈ cs, c.Fits) :
    Between (FileInput.open z (cs.flatMap FileContainer.encode)) cs := by
  refine ⟨⟨⟨0, hfits, ⟨rfl, le_rfl, Nat.zero_le _, Or.inr rfl⟩, rfl, rfl, rfl⟩, rfl⟩, ?_, rfl⟩
  intro nmsg hnone
  cases hnone

end Batches

end Nmsg

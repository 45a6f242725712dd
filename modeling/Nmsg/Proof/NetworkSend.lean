import Nmsg.Datagrams
import Nmsg.Proof.OutputFrag
import Nmsg.Proof.Unbuffered

/-!
# Sending numbered containers

The container of a socket output holds the payloads that wait, and its number says how many were
sent before it. Each call is followed through the cases of adding its payload: the container is full, is
too full even for that payload alone, or takes it.
-/

namespace Nmsg

variable {pb : ProtobufC} {z : Zlib} {crc32c : Bytes → UInt32}

/-! ### The datagrams of fragments -/

section Fragments

variable {bufsz k m fuel : Nat} {flags : UInt8} {nf : NmsgFragment} {packed : Bytes}

/-- One round of the loop. -/
theorem fragDatagrams_succ (hpb : pb.Lawful) (hmin : wbufszMin ≤ bufsz) (hmax : bufsz ≤ wbufszMax)
    (hk : k < pieceCount bufsz packed) (hlast : k + 1 ≠ 2 ^ 31) :
    fragDatagrams pb bufsz flags nf packed (fuel + 1) (k * (bufsz - 32)) k =
      (fragDatagrams pb bufsz flags nf packed fuel ((k + 1) * (bufsz - 32)) (k + 1)).map
        (encodeFragment pb flags (pieceFragment bufsz nf packed k) :: ·) := by
  have hpos := (lt_pieceCount_iff hmin).mp hk
  have hpiece : (packed.drop (k * (bufsz - 32))).take
      (if packed.length - k * (bufsz - 32) > bufsz - 32 then bufsz - 32
        else packed.length - k * (bufsz - 32)) = Chunks.chunk (bufsz - 32) packed k := by
    rw [Chunks.chunk]
    split
    · rfl
    · rw [List.take_of_length_le (by rw [List.length_drop]),
        List.take_of_length_le (by rw [List.length_drop]; omega)]
  have hfragment : { nf with
      current := .ofNat k
      fragment := Chunks.chunk (bufsz - 32) packed k } = pieceFragment bufsz nf packed k := rfl
  have hlen := length_packFragment_le hpb hmax (length_pieceFragment_le bufsz nf packed k)
  have hsize := length_pieceFragment_le bufsz nf packed k
  simp only [fragDatagrams, if_pos hpos, hpiece, hfragment]
  rw [if_neg (by omega), Nat.succ_mul, if_neg hlast]
  cases fragDatagrams pb bufsz flags nf packed fuel (k * (bufsz - 32) + (bufsz - 32)) (k + 1) with
  | error e => rfl
  | ok rest => rfl

/-- By induction on the number of pieces that are left. -/
theorem fragDatagrams_eq (hpb : pb.Lawful) (flags : UInt8) (nf : NmsgFragment)
    (hmin : wbufszMin ≤ bufsz) (hmax : bufsz ≤ wbufszMax)
    (hfew : pieceCount bufsz packed < 2 ^ 31) (hm : k + m = pieceCount bufsz packed)
    (hfuel : m ≤ fuel) :
    fragDatagrams pb bufsz flags nf packed fuel (k * (bufsz - 32)) k =
      .ok ((List.range' k m).map fun j =>
        encodeFragment pb flags (pieceFragment bufsz nf packed j)) := by
  induction m generalizing k fuel with
  | zero =>
      have hend : ¬ k * (bufsz - 32) < packed.length := by
        rw [← lt_pieceCount_iff hmin]
        omega
      cases fuel with
      | zero => simp only [fragDatagrams, if_neg hend]; rfl
      | succ fuel => simp only [fragDatagrams, if_neg hend]; rfl
  | succ m ih =>
      cases fuel with
      | zero => omega
      | succ fuel =>
          rw [fragDatagrams_succ hpb hmin hmax (by omega) (by omega), ih (by omega) (by omega),
            List.range'_succ]
          rfl

end Fragments

/-! ### Serializing -/

section Serialize

variable {c : Container} {nps : List NmsgPayload}

theorem Filled.numbered (h : Filled c nps true) (sequenceId : UInt64) (number : Nat) :
    (containerPrepare crc32c c (.ofNat number) sequenceId).nmsg =
      numbered crc32c sequenceId number nps := by
  rw [h.prepared]
  rfl

theorem length_pack_numbered (hpb : pb.Lawful) (crc32c : Bytes → UInt32) (sequenceId : UInt64)
    (number : Nat) (nps : List NmsgPayload) :
    (pb.packNmsg (Nmsg.numbered crc32c sequenceId number nps)).length =
      serializedSize crc32c nps true (.ofNat number) sequenceId := by
  have hnmsg : (Container.mk ⟨nps, [], none, none⟩ 0 0 true).nmsg = ⟨nps, [], none, none⟩ := rfl
  rw [hpb.length_packNmsg, ← containerPrepare_packedSize hnmsg rfl,
    containerPrepare_nmsg hnmsg rfl]
  rfl

/-- What is sent of a container is not much longer than was estimated. -/
theorem length_numberedBody_le (hpb : pb.Lawful) (hz : z.Lawful) (crc32c : Bytes → UInt32)
    (hsmall : ∀ np ∈ nps, np.size < 2 ^ 21) (hne : nps ≠ []) (doZlib : Bool) (sequenceId : UInt64)
    (number : Nat) (hsize : estimates true nps < 2 ^ 31) :
    (numberedBody pb z crc32c doZlib sequenceId number nps).length ≤
      if doZlib then 4 + compressBound (estimates true nps) else estimates true nps := by
  have hle := serializedSize_le crc32c true (.ofNat number) sequenceId hsmall hne
  have hlength := length_pack_numbered hpb crc32c sequenceId number nps
  cases doZlib with
  | false =>
      rw [numberedBody, if_neg Bool.false_ne_true, if_neg Bool.false_ne_true, hlength]
      exact hle
  | true =>
      have hdeflate := hz.length_deflate_le (pb.packNmsg (Nmsg.numbered crc32c sequenceId number nps))
        (by rw [hlength]; omega)
      rw [hlength] at hdeflate
      rw [numberedBody, if_pos rfl, if_pos rfl, deflated, List.length_append, Octets.length_beBytes]
      simp only [compressBound] at hdeflate ⊢
      omega

/-- What is sent of a container unpacks to it. -/
theorem carries_numberedBody (hpb : pb.Lawful) (hz : z.Lawful) (crc32c : Bytes → UInt32)
    (hsmall : ∀ np ∈ nps, np.size < 2 ^ 21) (hne : nps ≠ []) (doZlib : Bool) (sequenceId : UInt64)
    (number : Nat) (hsize : estimates true nps < 2 ^ 31) :
    Carries pb z doZlib (numberedBody pb z crc32c doZlib sequenceId number nps)
      (Nmsg.numbered crc32c sequenceId number nps) := by
  have hunpack := hpb.unpackNmsg_packNmsg (Nmsg.numbered crc32c sequenceId number nps)
  have hbody := length_numberedBody_le hpb hz crc32c hsmall hne doZlib sequenceId number hsize
  cases doZlib with
  | false => simpa [Carries, numberedBody] using hunpack
  | true =>
      have hle := serializedSize_le crc32c true (.ofNat number) sequenceId hsmall hne
      have hlength := length_pack_numbered hpb crc32c sequenceId number nps
      rw [if_pos rfl, compressBound] at hbody
      simp only [Carries, if_true]
      exact ⟨_, by rw [numberedBody, if_pos rfl], by rw [hlength]; omega, by omega, hunpack⟩

/-- A serialized container, with its header or without. -/
theorem Filled.serialize_numbered (hpb : pb.Lawful) (hz : z.Lawful) (crc32c : Bytes → UInt32)
    (h : Filled c nps true) (hne : nps ≠ []) (hsize : 2 * c.estsz < 2 ^ 32) (doHeader doZlib : Bool)
    (sequenceId : UInt64) (number : Nat) :
    ∃ c', containerSerialize pb z crc32c c doHeader doZlib (.ofNat number) sequenceId =
      .ok (⟨(if doHeader then headerSerialize (if doZlib then flagZlib else 0)
            (numberedBody pb z crc32c doZlib sequenceId number nps).length else []) ++
          numberedBody pb z crc32c doZlib sequenceId number nps,
        (if doHeader then hdrlszV2 else 0) +
          (numberedBody pb z crc32c doZlib sequenceId number nps).length⟩, c') := by
  have hle := serializedSize_le crc32c true (.ofNat number) sequenceId h.small hne
  have hmin := fifteen_le_serializedSize crc32c true (.ofNat number) sequenceId hne
  have hlength := length_pack_numbered hpb crc32c sequenceId number nps
  have hestsz := h.estsz
  have hten : hdrlszV2 = 10 := rfl
  have hhdr : (if doHeader = true then hdrlszV2 else 0) ≤ 10 := by
    split <;> omega
  obtain ⟨body, hbody, hserialize, -⟩ := containerSerialize_eq hz doHeader doZlib (.ofNat number)
    sequenceId (congrArg pb.packNmsg (h.numbered sequenceId number))
    (by rw [hlength]; omega) (fun _ => ⟨hsize, by rw [hlength, compressBound]; omega⟩)
  have hbody' : body = numberedBody pb z crc32c doZlib sequenceId number nps := hbody
  rw [hbody'] at hserialize
  exact ⟨_, hserialize⟩

end Serialize

/-! ### Parcels as containers -/

section Containers

variable {x : SockSender} {nps : List NmsgPayload} {np : NmsgPayload} {id : UInt32} {number : Nat}

/-- The flags of what is not cut up. -/
theorem container_flags_none : (x.container pb z crc32c number ⟨nps, none⟩).flags =
    if x.config.doZlib then flagZlib else 0 := by
  simp [SockSender.container]

theorem container_cut (number : Nat) (p : Parcel) :
    (x.container pb z crc32c number p).cut = p.cut.isSome := by
  have hflags : ∀ doZlib cut : Bool, decide (((if doZlib then flagZlib else 0) |||
      (if cut then flagFragment else 0)) &&& flagFragment ≠ 0) = cut := by decide
  exact hflags x.config.doZlib p.cut.isSome

theorem container_zlib (number : Nat) (p : Parcel) :
    (x.container pb z crc32c number p).zlib = x.config.doZlib := by
  have hflags : ∀ doZlib cut : Bool, decide (((if doZlib then flagZlib else 0) |||
      (if cut then flagFragment else 0)) &&& flagZlib ≠ 0) = doZlib := by decide
  exact hflags x.config.doZlib p.cut.isSome

/-- What is not cut up is sent in one datagram. -/
theorem datagrams_whole : (x.container pb z crc32c number ⟨nps, none⟩).datagrams pb =
    [headerSerialize (if x.config.doZlib then flagZlib else 0)
        (numberedBody pb z crc32c x.config.doZlib x.sequenceId number nps).length ++
      numberedBody pb z crc32c x.config.doZlib x.sequenceId number nps] := by
  have hcut : (x.container pb z crc32c number ⟨nps, none⟩).cut = false := container_cut number _
  have hpieces : (x.container pb z crc32c number ⟨nps, none⟩).pieces =
      [numberedBody pb z crc32c x.config.doZlib x.sequenceId number nps] := rfl
  have hbody : (x.container pb z crc32c number ⟨nps, none⟩).packedPiece pb 0 =
      numberedBody pb z crc32c x.config.doZlib x.sequenceId number nps := by
    rw [FragmentedContainer.packedPiece, hcut, if_neg Bool.false_ne_true, hpieces]
    rfl
  rw [FragmentedContainer.datagrams, hpieces, List.length_singleton, List.range_one,
    List.map_singleton, FragmentedContainer.datagram, hbody, container_flags_none]

/-- The pieces of what is cut up. -/
theorem container_pieces_some (x : SockSender) (nps : List NmsgPayload) (id : UInt32)
    (number : Nat) : (x.container pb z crc32c number ⟨nps, some id⟩).pieces = Chunks.chunks (x.output.bufsz - 32)
      (numberedBody pb z crc32c x.config.doZlib x.sequenceId number nps) := rfl

theorem output_bufsz_pos (x : SockSender) : 0 < x.output.bufsz - 32 := by
  have hmin := x.output.le_bufsz
  simp only [wbufszMin] at hmin
  omega

theorem length_container_pieces (x : SockSender) (nps : List NmsgPayload) (id : UInt32)
    (number : Nat) : (x.container pb z crc32c number ⟨nps, some id⟩).pieces.length =
      pieceCount x.output.bufsz
        (numberedBody pb z crc32c x.config.doZlib x.sequenceId number nps) :=
  Chunks.length_chunks

/-- The fragments of what is cut up, unless it is cut exactly. -/
theorem fragment_container (huneven : (numberedBody pb z crc32c x.config.doZlib x.sequenceId number
      nps).length % (x.output.bufsz - 32) ≠ 0) {k : Nat}
    (hk : k < pieceCount x.output.bufsz
      (numberedBody pb z crc32c x.config.doZlib x.sequenceId number nps)) :
    (x.container pb z crc32c number ⟨nps, some id⟩).fragment k =
      pieceFragment x.output.bufsz (fragHead crc32c x.output.bufsz id
        (numberedBody pb z crc32c x.config.doZlib x.sequenceId number nps))
        (numberedBody pb z crc32c x.config.doZlib x.sequenceId number nps) k := by
  have hpos := output_bufsz_pos x
  have hpiece := Chunks.getD_chunks hpos ((lt_pieceCount_iff x.output.le_bufsz).mp hk)
  have hlast := @length_container_pieces pb z crc32c x nps id number
  rw [pieceCount_of_uneven x.output.le_bufsz huneven] at hlast
  simp only [FragmentedContainer.fragment, FragmentedContainer.last, hlast, Nat.add_sub_cancel]
  simp only [container_pieces_some, hpiece]
  rfl

theorem packedPiece_cut (x : SockSender) (nps : List NmsgPayload) (id : UInt32) (number k : Nat) :
    (x.container pb z crc32c number ⟨nps, some id⟩).packedPiece pb k =
      pb.packFragment ((x.container pb z crc32c number ⟨nps, some id⟩).fragment k) := by
  have hcut : (x.container pb z crc32c number ⟨nps, some id⟩).cut = true := container_cut number _
  rw [FragmentedContainer.packedPiece, hcut, if_pos rfl]

/-- What is cut up is sent in as many datagrams as there are pieces. -/
theorem datagrams_cut (huneven : (numberedBody pb z crc32c x.config.doZlib x.sequenceId number
      nps).length % (x.output.bufsz - 32) ≠ 0) :
    (x.container pb z crc32c number ⟨nps, some id⟩).datagrams pb =
      (List.range' 0 (pieceCount x.output.bufsz
        (numberedBody pb z crc32c x.config.doZlib x.sequenceId number nps))).map fun k =>
          encodeFragment pb ((if x.config.doZlib then flagZlib else 0) ||| flagFragment)
            (pieceFragment x.output.bufsz (fragHead crc32c x.output.bufsz id
              (numberedBody pb z crc32c x.config.doZlib x.sequenceId number nps))
              (numberedBody pb z crc32c x.config.doZlib x.sequenceId number nps) k) := by
  rw [FragmentedContainer.datagrams, length_container_pieces, List.range_eq_range']
  refine List.map_congr_left fun k hk => ?_
  have hlt : k < pieceCount x.output.bufsz
      (numberedBody pb z crc32c x.config.doZlib x.sequenceId number nps) := by
    simpa [List.mem_range'_1] using hk
  rw [FragmentedContainer.datagram, packedPiece_cut, fragment_container huneven hlt]
  rfl

/-- A parcel as a sender makes them: what is cut up is a payload that was too large, alone. -/
def Parcel.Shaped (bufsz : Nat) (p : Parcel) : Prop :=
  (∀ np ∈ p.payloads, np.size < 2 ^ 21) ∧
    ((p.cut = none ∧ p.payloads ≠ [] ∧ numberedSize p.payloads ≤ bufsz) ∨
      (p.cut ≠ none ∧ ∃ np, p.payloads = [np]))

/-- What is cut up has few pieces. -/
theorem pieceCount_numberedBody_lt (hpb : pb.Lawful) (hz : z.Lawful) (crc32c : Bytes → UInt32)
    (x : SockSender) (number : Nat) (hsmall : np.size < 2 ^ 21) :
    (numberedBody pb z crc32c x.config.doZlib x.sequenceId number [np]).length /
      (x.output.bufsz - 32) + 1 < 2 ^ 14 := by
  have hestimate := (estimate_bounds true (payloadSize np)).2
  have hsize := payloadSize_lt hsmall
  have hestimates : estimates true [np] = estimate true (payloadSize np) := by simp [estimates]
  have hsmall' : ∀ np' ∈ [np], np'.size < 2 ^ 21 := List.forall_mem_singleton.mpr hsmall
  have hbody := length_numberedBody_le hpb hz crc32c hsmall' (List.cons_ne_nil np [])
    x.config.doZlib x.sequenceId number (by omega)
  have hmin := x.output.le_bufsz
  simp only [wbufszMin] at hmin
  have hdiv := Nat.div_le_div_left (show 480 ≤ x.output.bufsz - 32 by omega) (by decide : 0 < 480)
    (a := (numberedBody pb z crc32c x.config.doZlib x.sequenceId number [np]).length)
  simp only [compressBound] at hbody
  split at hbody <;> omega

/-- What is not cut up is as long as was estimated, or as long as a reader takes. -/
theorem datagram_whole_le (hpb : pb.Lawful) (hz : z.Lawful) (hsmall : ∀ np ∈ nps, np.size < 2 ^ 21)
    (hne : nps ≠ []) (hroom : numberedSize nps ≤ x.output.bufsz)
    (hfits : x.ParcelFits pb z crc32c number ⟨nps, none⟩) :
    hdrlszV2 + (numberedBody pb z crc32c x.config.doZlib x.sequenceId number nps).length ≤
      rbufsz / 2 := by
  cases hzlib : x.config.doZlib with
  | true => exact hfits.whole rfl hzlib
  | false =>
      have hmax := x.output.bufsz_le
      have hhalf : rbufsz / 2 = wbufszMax := rfl
      have hmebibyte : wbufszMax = 1048576 := rfl
      unfold numberedSize at hroom
      have hbody := length_numberedBody_le hpb hz crc32c hsmall hne false x.sequenceId number
        (by omega)
      rw [if_neg Bool.false_ne_true] at hbody
      omega

/-- **What is sent can be read.** -/
theorem readable_container (hpb : pb.Lawful) (hz : z.Lawful) {p : Parcel}
    (hshaped : p.Shaped x.output.bufsz) (hfits : x.ParcelFits pb z crc32c number p) :
    (x.container pb z crc32c number p).Readable pb z := by
  obtain ⟨nps, cut⟩ := p
  obtain ⟨hsmall, ⟨hcut, hne, hroom⟩ | ⟨hcut, np, hnp⟩⟩ := hshaped
  · simp only at hcut hne hroom hsmall
    subst hcut
    have hmax := x.output.bufsz_le
    have hsize : estimates true nps < 2 ^ 31 := by
      simp only [numberedSize, wbufszMax] at hroom hmax
      omega
    have hnotcut : (x.container pb z crc32c number ⟨nps, none⟩).cut = false :=
      container_cut number _
    refine ⟨List.cons_ne_nil _ _, fun h => ?_, ?_, fun _ => rfl, fun k hk => ?_, ?_⟩
    · exact absurd (hnotcut.symm.trans h) Bool.false_ne_true
    · exact show 1 < 2 ^ 32 by decide
    · obtain rfl : k = 0 := Nat.lt_one_iff.mp hk
      have hmem : (x.container pb z crc32c number ⟨nps, none⟩).datagram pb 0 ∈
          (x.container pb z crc32c number ⟨nps, none⟩).datagrams pb :=
        List.mem_map.mpr ⟨0, List.mem_range.mpr hk, rfl⟩
      rw [datagrams_whole, List.mem_singleton] at hmem
      rw [hmem, List.length_append, length_headerSerialize]
      exact datagram_whole_le hpb hz hsmall hne hroom hfits
    · rw [container_zlib]
      have hflatten : (x.container pb z crc32c number ⟨nps, none⟩).pieces.flatten =
          numberedBody pb z crc32c x.config.doZlib x.sequenceId number nps :=
        List.flatten_singleton
      rw [hflatten]
      exact carries_numberedBody hpb hz crc32c hsmall hne _ _ _ hsize
  · simp only at hcut hnp hsmall
    subst hnp
    obtain ⟨id, rfl⟩ := Option.ne_none_iff_exists'.mp hcut
    have hnp := hsmall np (List.mem_singleton_self np)
    have huneven : (numberedBody pb z crc32c x.config.doZlib x.sequenceId number [np]).length %
        (x.output.bufsz - 32) ≠ 0 := hfits.uneven hcut
    have hfew := pieceCount_numberedBody_lt hpb hz crc32c x number hnp
    have hpos := output_bufsz_pos x
    have hcount := pieceCount_of_uneven x.output.le_bufsz huneven
    have hlength := @length_container_pieces pb z crc32c x [np] id number
    refine ⟨?_, fun _ => ?_, ?_, fun h => ?_, fun k hk => ?_, ?_⟩
    · apply List.ne_nil_of_length_pos
      rw [hlength, hcount]
      exact Nat.succ_pos _
    · rw [container_pieces_some]
      exact Chunks.nil_notMem_chunks hpos
    · rw [hlength, hcount]
      exact hfew.trans (by decide)
    · rw [container_cut] at h
      cases h
    · rw [hlength] at hk
      rw [FragmentedContainer.datagram, packedPiece_cut, fragment_container huneven hk,
        List.length_append, length_headerSerialize]
      rw [hcount] at hk
      refine (length_packFragment_le_of_few hpb _ x.output.bufsz_le x.output.le_bufsz
        (length_pieceFragment_le _ _ _ _) ?_ ?_).trans x.output.bufsz_le
      · rw [pieceFragment, UInt32.toNat_ofNat', Nat.mod_eq_of_lt (by omega)]
        omega
      · rw [pieceFragment, fragHead, UInt32.toNat_ofNat', Nat.mod_eq_of_lt (by omega)]
        omega
    · have hsize := payloadSize_lt hnp
      have hestimate := (estimate_bounds true (payloadSize np)).2
      have hestimates : estimates true [np] = estimate true (payloadSize np) := by simp [estimates]
      rw [container_zlib, container_pieces_some, Chunks.flatten_chunks hpos]
      exact carries_numberedBody hpb hz crc32c hsmall (List.cons_ne_nil np []) _ _ _ (by omega)

end Containers

/-! ### Calls -/

section Calls

variable {x : SockSender} {s s' : StreamOutput} {w w' : Pending} {nps : List NmsgPayload}
  {np : NmsgPayload} {id : UInt32} {number : Nat} {buffered : Bool} {fails : Nat → Bool}

/-- The settings of an output that has sent so many containers. -/
structure SockAt (x : SockSender) (buffered : Bool) (number : Nat) (s : StreamOutput) : Prop where
  bufsz : s.bufsz = x.output.bufsz
  config : s.config = { x.config with buffered := buffered }
  doSequence : s.doSequence = true
  sequenceId : s.sequenceId = x.sequenceId
  sequence : s.sequence = .ofNat number
  doFilter : s.doFilter = false

theorem SockAt.withContainer (h : SockAt x buffered number s) (c : Container) :
    SockAt x buffered number { s with c := c } :=
  ⟨h.bufsz, h.config, h.doSequence, h.sequenceId, h.sequence, h.doFilter⟩

theorem SockAt.doZlib (h : SockAt x buffered number s) : s.config.doZlib = x.config.doZlib := by
  rw [h.config]

theorem SockAt.override (h : SockAt x buffered number s) (np : NmsgPayload) :
    s.config.override np = x.config.override np := by
  rw [h.config]
  rfl

/-- The payloads that wait are in the container, with room for them. -/
structure SockWaits (x : SockSender) (w : Pending) (number : Nat) (s : StreamOutput) : Prop where
  position : SockAt x w.buffered number s
  filled : Filled s.c w.waiting true
  container : s.c.bufsz = s.bufsz
  room : s.c.estsz ≤ s.bufsz

/-- Behind a container that was sent, nothing waits. -/
theorem SockAt.next (h : SockAt x buffered number s) (octets : Bytes) :
    SockWaits x ⟨buffered, []⟩ (number + 1) (s.next octets) := by
  have hmin := s.le_bufsz
  refine ⟨⟨h.bufsz, h.config, h.doSequence, h.sequenceId, ?_, h.doFilter⟩, ?_, rfl, ?_⟩
  · simp only [StreamOutput.next, h.doSequence, if_true, h.sequence, UInt32.ofNat_add]
    rfl
  · have hfresh := filled_fresh s.bufsz s.doSequence
    simp only [StreamOutput.next]
    rwa [h.doSequence] at hfresh ⊢
  · exact Nat.le_trans (show hdrlszV2 ≤ wbufszMin by decide) hmin

/-- The datagrams of parcels, numbered from here. -/
def parcelDatagrams (pb : ProtobufC) (z : Zlib) (crc32c : Bytes → UInt32) (x : SockSender)
    (number : Nat) (ps : List Parcel) : List Bytes :=
  (ps.mapIdx fun k p => x.container pb z crc32c (number + k) p).flatMap fun c => c.datagrams pb

@[simp]
theorem parcelDatagrams_nil : parcelDatagrams pb z crc32c x number [] = [] := rfl

theorem parcelDatagrams_singleton (p : Parcel) : parcelDatagrams pb z crc32c x number [p] =
    (x.container pb z crc32c number p).datagrams pb := by
  simp [parcelDatagrams]

theorem parcelDatagrams_append (ps ps' : List Parcel) :
    parcelDatagrams pb z crc32c x number (ps ++ ps') =
      parcelDatagrams pb z crc32c x number ps ++
        parcelDatagrams pb z crc32c x (number + ps.length) ps' := by
  simp only [parcelDatagrams, List.mapIdx_append, List.flatMap_append]
  refine congrArg₂ _ rfl (congrArg (List.flatMap _) (List.mapIdx_eq_mapIdx_iff.mpr fun k _ => ?_))
  rw [Nat.add_assoc, Nat.add_comm k]

/-- A call sends parcels of the shape they have, and is left with what waits. -/
def CallSends (pb : ProtobufC) (z : Zlib) (crc32c : Bytes → UInt32) (x : SockSender) (number : Nat)
    (ps : List Parcel) (w : Pending)
    (called : Except Abort ((Res × List Bytes) × StreamOutput)) : Prop :=
  (∃ s, called = .ok ((.success, parcelDatagrams pb z crc32c x number ps), s) ∧
    SockWaits x w (number + ps.length) s) ∧ ∀ p ∈ ps, p.Shaped x.output.bufsz

theorem callSends_nil (h : SockWaits x w number s) :
    CallSends pb z crc32c x number [] w (.ok ((.success, []), s)) :=
  ⟨⟨s, rfl, h⟩, fun _ hp => (List.not_mem_nil hp).elim⟩

/-- What was sent before goes ahead. -/
theorem CallSends.append {ps ps' : List Parcel} (hshaped : ∀ p ∈ ps, p.Shaped x.output.bufsz)
    {called : Except Abort ((Res × List Bytes) × StreamOutput)}
    (h : CallSends pb z crc32c x (number + ps.length) ps' w called) :
    CallSends pb z crc32c x number (ps ++ ps') w (called.map fun out =>
      ((out.1.1, parcelDatagrams pb z crc32c x number ps ++ out.1.2), out.2)) := by
  obtain ⟨⟨s, rfl, hwaits⟩, hshaped'⟩ := h
  refine ⟨⟨s, ?_, ?_⟩, ?_⟩
  · rw [parcelDatagrams_append]
    rfl
  · rwa [List.length_append, ← Nat.add_assoc]
  · intro p hp
    exact (List.mem_append.mp hp).elim (hshaped p) (hshaped' p)

/-- **A container is sent whole.** -/
theorem sockWriteContainer_sends (hpb : pb.Lawful) (hz : z.Lawful)
    (h : SockAt x buffered number s) (hfilled : Filled s.c nps true) (hne : nps ≠ [])
    (hroom : s.c.estsz ≤ s.bufsz) :
    CallSends pb z crc32c x number [⟨nps, none⟩] ⟨buffered, []⟩
      (sockWriteContainer pb z crc32c s false) := by
  have hmax := s.bufsz_le
  simp only [wbufszMax] at hmax
  obtain ⟨c', hserialize⟩ := hfilled.serialize_numbered hpb hz crc32c hne (by omega) true
    x.config.doZlib x.sequenceId number
  simp only [if_true] at hserialize
  have hten : hdrlszV2 = 10 := rfl
  generalize hflags : (if x.config.doZlib = true then flagZlib else 0) = flags at hserialize
  have hlen := length_headerSerialize flags
    (numberedBody pb z crc32c x.config.doZlib x.sequenceId number nps).length
  refine ⟨⟨s.next (headerSerialize flags
    (numberedBody pb z crc32c x.config.doZlib x.sequenceId number nps).length ++
      numberedBody pb z crc32c x.config.doZlib x.sequenceId number nps), ?_, h.next _⟩, ?_⟩
  · rw [parcelDatagrams_singleton, datagrams_whole, hflags]
    simp only [sockWriteContainer, h.doZlib, h.sequence, h.sequenceId, hserialize]
    rw [if_neg (by rw [List.length_append]; omega),
      List.take_of_length_le (by rw [List.length_append]; omega)]
    rfl
  · intro p hp
    rw [List.mem_singleton.mp hp]
    refine ⟨hfilled.small, Or.inl ⟨rfl, hne, ?_⟩⟩
    rw [hfilled.estsz, h.bufsz] at hroom
    exact hroom

theorem sendResult_of_sends (hsends : ∀ k, fails k = false) (datagrams : List Bytes) :
    sendResult fails datagrams = .success := by
  unfold sendResult
  split
  · rfl
  · rw [hsends]
    rfl

/-- **A payload is sent in fragments.** -/
theorem sockFragWrite_sends (hpb : pb.Lawful) (hz : z.Lawful) (h : SockAt x buffered number s)
    (hfilled : Filled s.c [np] true) (hfits : x.ParcelFits pb z crc32c number ⟨[np], some id⟩)
    (hsends : ∀ k, fails k = false) :
    CallSends pb z crc32c x number [⟨[np], some id⟩] ⟨buffered, []⟩
      (sockFragWrite pb z crc32c s id fails) := by
  have hnp := hfilled.small np (List.mem_singleton_self np)
  have hsize := payloadSize_lt hnp
  have hestimate := (estimate_bounds true (payloadSize np)).2
  have hestsz : s.c.estsz = hdrlszV2 + estimate true (payloadSize np) := by
    rw [hfilled.estsz]
    simp [estimates]
  have hten : hdrlszV2 = 10 := rfl
  obtain ⟨c', hserialize⟩ := hfilled.serialize_numbered hpb hz crc32c (List.cons_ne_nil np [])
    (by omega) false x.config.doZlib x.sequenceId number
  have hcut : (some id : Option UInt32) ≠ none := Option.some_ne_none id
  have huneven : (numberedBody pb z crc32c x.config.doZlib x.sequenceId number [np]).length %
      (x.output.bufsz - 32) ≠ 0 := hfits.uneven hcut
  have hcount := pieceCount_of_uneven x.output.le_bufsz huneven
  have hfew := pieceCount_numberedBody_lt hpb hz crc32c x number hnp
  have hlong : ¬ (x.config.doZlib = true ∧
      (numberedBody pb z crc32c x.config.doZlib x.sequenceId number [np]).length ≤
        x.output.bufsz - 32) := by
    rintro ⟨hzlib, hle⟩
    have hlt := hfits.long hcut hzlib
    rw [hzlib] at hle
    exact absurd hle (Nat.not_le.mpr hlt)
  generalize hbody : numberedBody pb z crc32c x.config.doZlib x.sequenceId number [np] = body at *
  have hloop := fragDatagrams_eq hpb ((if x.config.doZlib then flagZlib else 0) ||| flagFragment)
    (fragHead crc32c x.output.bufsz id body) x.output.le_bufsz x.output.bufsz_le (by omega)
    (Nat.zero_add _) (pieceCount_le_length x.output.bufsz body)
  rw [Nat.zero_mul] at hloop
  generalize hdatagrams : (List.range' 0 (pieceCount x.output.bufsz body)).map (fun k =>
    encodeFragment pb ((if x.config.doZlib then flagZlib else 0) ||| flagFragment)
      (pieceFragment x.output.bufsz (fragHead crc32c x.output.bufsz id body) body k)) =
        datagrams at *
  refine ⟨⟨s.next datagrams.flatten, ?_, h.next _⟩, ?_⟩
  · rw [parcelDatagrams_singleton, datagrams_cut (by rw [hbody]; exact huneven), hbody]
    simp only [sockFragWrite, h.doZlib, h.sequence, h.sequenceId, hserialize, Bool.false_eq_true,
      if_false, List.nil_append, Nat.zero_add, Nat.lt_irrefl, List.take_length, h.bufsz, hlong]
    have hhead : NmsgFragment.mk id 0 (.ofNat (body.length / (x.output.bufsz - 32))) []
        (some (htonl (crc32c body))) = fragHead crc32c x.output.bufsz id body := rfl
    rw [hhead, hloop, hdatagrams]
    simp only [sendResult_of_sends hsends]
  · intro p hp
    rw [List.mem_singleton.mp hp]
    exact ⟨hfilled.small, Or.inr ⟨hcut, np, rfl⟩⟩

/-! ### Adding a payload -/

theorem Filled.fullFor_iff {c : Container} (h : Filled c nps true) :
    c.FullFor np ↔ nps ≠ [] ∧ c.bufsz ≤ numberedSize nps + payloadSize np + 32 := by
  have hempty : c.estsz = hdrlszV2 ↔ nps = [] := by
    have hknown : c.estsz = hdrlszV2 ↔ c.nmsg.payloads = [] := h.sizeKnown
    rwa [h.nmsg] at hknown
  have hestsz : numberedSize nps = c.estsz := h.estsz.symm
  rw [hestsz]
  exact and_congr hempty.not Iff.rfl

theorem Filled.grown {c : Container} (h : Filled c nps true) (hsmall : np.size < 2 ^ 21) :
    Filled (c.grown np) (nps ++ [np]) true := by
  refine ⟨by rw [Container.grown, h.nmsg], ?_, h.doSequence, ?_⟩
  · simp only [Container.grown, h.estsz, h.doSequence, estimates, List.map_append, List.map_cons,
      List.map_nil, List.sum_append, List.sum_cons, List.sum_nil]
    omega
  · intro np' hnp'
    rcases List.mem_append.mp hnp' with hold | hnew
    · exact h.small np' hold
    · rwa [List.mem_singleton.mp hnew]

/-- A container with room for a payload takes it, or it was empty and the payload is too large. -/
theorem SockWaits.add (h : SockWaits x w number s) {now : WallTime} {msg : Message}
    (hmsg : messageSerialize now msg = msg) (hnp : msg.np = some np) (hsmall : np.size < 2 ^ 21)
    (hroom : ¬ s.c.FullFor np) :
    (x.output.bufsz < numberedSize (w.waiting ++ [np]) ∧ w.waiting = [] ∧
      Filled (s.c.grown np) [np] true ∧ containerAdd now s.c msg =
        .ok (.containerOverfull, s.c.grown np, { msg with np := none })) ∨
    (¬ x.output.bufsz < numberedSize (w.waiting ++ [np]) ∧
      SockWaits x ⟨w.buffered, w.waiting ++ [np]⟩ number { s with c := s.c.grown np } ∧
      containerAdd now s.c msg = .ok (.success, s.c.grown np, { msg with np := none })) := by
  have hgrown := h.filled.grown hsmall
  have hestsz : (s.c.grown np).estsz = numberedSize (w.waiting ++ [np]) := hgrown.estsz
  have hbufsz : s.c.bufsz = x.output.bufsz := h.container.trans h.position.bufsz
  have hadd := containerAdd_of_room hmsg hnp hroom
  rw [hestsz, hbufsz] at hadd
  by_cases hover : x.output.bufsz < numberedSize (w.waiting ++ [np])
  · rw [if_pos hover] at hadd
    have hnil : w.waiting = [] := by
      by_contra hne
      have hestimate := (estimate_bounds true (payloadSize np)).2
      refine hroom (h.filled.fullFor_iff.mpr ⟨hne, ?_⟩)
      simp only [numberedSize, estimates, List.map_append, List.map_cons, List.map_nil,
        List.sum_append, List.sum_cons, List.sum_nil] at hover ⊢
      omega
    rw [hnil, List.nil_append] at hgrown
    exact Or.inl ⟨hover, hnil, hgrown, hadd⟩
  · rw [if_neg hover] at hadd
    refine Or.inr ⟨hover, ⟨h.position.withContainer _, hgrown, h.container, ?_⟩, hadd⟩
    have hbufsz' : s.bufsz = x.output.bufsz := h.position.bufsz
    simp only [hestsz, hbufsz']
    exact Nat.not_lt.mp hover

/-- What is asked of parcels that are numbered from here. -/
def ParcelsFit (pb : ProtobufC) (z : Zlib) (crc32c : Bytes → UInt32) (x : SockSender)
    (number : Nat) (ps : List Parcel) : Prop :=
  ∀ k p, ps[k]? = some p → x.ParcelFits pb z crc32c (number + k) p

theorem ParcelsFit.head {p : Parcel} {ps : List Parcel}
    (h : ParcelsFit pb z crc32c x number (p :: ps)) : x.ParcelFits pb z crc32c number p :=
  h 0 p rfl

theorem ParcelsFit.left {ps ps' : List Parcel}
    (h : ParcelsFit pb z crc32c x number (ps ++ ps')) : ParcelsFit pb z crc32c x number ps := by
  intro k p hp
  refine h k p ?_
  rwa [List.getElem?_append_left (List.getElem?_eq_some_iff.mp hp).1]

theorem ParcelsFit.right {ps ps' : List Parcel} (h : ParcelsFit pb z crc32c x number (ps ++ ps')) :
    ParcelsFit pb z crc32c x (number + ps.length) ps' := by
  intro k p hp
  rw [Nat.add_assoc]
  refine h (ps.length + k) p ?_
  rwa [List.getElem?_append_right (Nat.le_add_right _ _), Nat.add_sub_cancel_left]

/-- **A container that is full is sent, and the payload goes to the next one.** -/
theorem sockOutputNmsgWrite_full (hpb : pb.Lawful) (hz : z.Lawful) (h : SockWaits x w number s)
    {now : WallTime} {msg : Message} (hnp : (messageSerialize now msg).np = some np)
    (hsmall : np.size < 2 ^ 21) (hsends : ∀ k, fails k = false)
    (hfull : s.c.FullFor (x.config.override np))
    (hfits : ParcelsFit pb z crc32c x number (⟨w.waiting, none⟩ ::
      (Pending.join x.output.bufsz ⟨true, []⟩ id (x.config.override np)).1)) :
    CallSends pb z crc32c x number
      (⟨w.waiting, none⟩ ::
        (Pending.join x.output.bufsz ⟨true, []⟩ id (x.config.override np)).1)
      ⟨w.buffered, (Pending.join x.output.bufsz ⟨true, []⟩ id (x.config.override np)).2.waiting⟩
      (sockOutputNmsgWrite pb z crc32c s now id (messageSerialize now msg) fails) := by
  have hmsg := messageSerialize_override now now msg (x.config.override np)
  have hsmall' : (x.config.override np).size < 2 ^ 21 := hsmall
  have hne := (h.filled.fullFor_iff.mp hfull).1
  have hsent : CallSends pb z crc32c x number [⟨w.waiting, none⟩] ⟨w.buffered, []⟩
      (sockWriteContainer pb z crc32c s false) :=
    sockWriteContainer_sends hpb hz h.position h.filled hne h.room
  obtain ⟨⟨s', hwrite, hwaits⟩, hshaped⟩ := hsent
  simp only [sockOutputNmsgWrite, hnp, h.position.override,
    containerAdd_of_full hmsg rfl hfull, hsends, hwrite]
  rw [if_neg (not_not_intro rfl)]
  have hroom : ¬ s'.c.FullFor (x.config.override np) :=
    fun hfull' => (hwaits.filled.fullFor_iff.mp hfull').1 rfl
  rw [← List.singleton_append] at hfits ⊢
  rcases hwaits.add hmsg rfl hsmall' hroom with ⟨hover, -, hfilled, hadd⟩ | ⟨hover, hnext, hadd⟩
  · simp only [hadd, Pending.join, if_pos hover]
    simp only [Pending.join, if_pos hover] at hfits
    exact (sockFragWrite_sends hpb hz (hwaits.position.withContainer _) hfilled hfits.right.head
      (fun k => rfl)).append hshaped
  · simp only [hadd, Pending.join, if_neg hover, if_true]
    exact (callSends_nil hnext).append hshaped

/-- **A container that is not full takes the payload**, or it is sent in fragments. -/
theorem sockOutputNmsgWrite_room (hpb : pb.Lawful) (hz : z.Lawful) (h : SockWaits x w number s)
    {now : WallTime} {msg : Message} (hnp : (messageSerialize now msg).np = some np)
    (hsmall : np.size < 2 ^ 21) (hsends : ∀ k, fails k = false)
    (hroom : ¬ s.c.FullFor (x.config.override np))
    (hfits : ParcelsFit pb z crc32c x number
      (w.join x.output.bufsz id (x.config.override np)).1) :
    CallSends pb z crc32c x number (w.join x.output.bufsz id (x.config.override np)).1
      (w.join x.output.bufsz id (x.config.override np)).2
      (sockOutputNmsgWrite pb z crc32c s now id (messageSerialize now msg) fails) := by
  have hmsg := messageSerialize_override now now msg (x.config.override np)
  have hsmall' : (x.config.override np).size < 2 ^ 21 := hsmall
  have hbuffered : s.config.buffered = w.buffered := by rw [h.position.config]
  simp only [sockOutputNmsgWrite, hnp, h.position.override]
  rcases h.add hmsg rfl hsmall' hroom with ⟨hover, hnil, hfilled, hadd⟩ | ⟨hover, hnext, hadd⟩
  · have hjoin : w.join x.output.bufsz id (x.config.override np) =
        ([⟨[x.config.override np], some id⟩], ⟨w.buffered, []⟩) := by
      rw [Pending.join, if_pos hover, hnil]
      rfl
    rw [hjoin] at hfits
    simp only [hadd, hjoin]
    exact sockFragWrite_sends hpb hz (h.position.withContainer _) hfilled hfits.head hsends
  · simp only [hadd, Pending.join, if_neg hover, hbuffered]
    cases hb : w.buffered with
    | true =>
        rw [if_pos rfl, if_neg (show ¬ true = false from Bool.noConfusion)]
        rw [hb] at hnext
        exact callSends_nil hnext
    | false =>
        rw [if_neg Bool.false_ne_true, if_pos rfl, hsends]
        rw [hb] at hnext
        exact sockWriteContainer_sends hpb hz hnext.position hnext.filled
          (List.append_ne_nil_of_right_ne_nil _ (List.cons_ne_nil _ _)) hnext.room

/-- **A call sends what it should.** -/
theorem sockOutputStep_sends (hpb : pb.Lawful) (hz : z.Lawful) (h : SockWaits x w number s)
    {op : SockOutputOp} (hsmall : op.Small) (hsends : op.Sends)
    (hfits : ParcelsFit pb z crc32c x number (w.step x.output.bufsz x.config op).1) :
    CallSends pb z crc32c x number (w.step x.output.bufsz x.config op).1
      (w.step x.output.bufsz x.config op).2 (sockOutputStep pb z crc32c s op) := by
  cases op with
  | write now id msg fails =>
      obtain ⟨np, hnp, hsize⟩ := hsmall
      have hfull : s.c.FullFor (x.config.override np) ↔ _ := h.filled.fullFor_iff
      rw [h.container, h.position.bufsz] at hfull
      have hfilter :
          ¬ (s.doFilter = true ∧ (s.filterVid ≠ np.vid ∨ s.filterMsgtype ≠ np.msgtype)) := by
        rw [h.position.doFilter]
        rintro ⟨⟨⟩, -⟩
      simp only [sockOutputStep, hnp, if_neg hfilter]
      simp only [Pending.step, hnp, Option.map_some] at hfits ⊢
      by_cases hfor : s.c.FullFor (x.config.override np)
      · rw [if_pos (hfull.mp hfor)] at hfits ⊢
        exact sockOutputNmsgWrite_full hpb hz h hnp hsize hsends hfor hfits
      · rw [if_neg (hfull.not.mp hfor)] at hfits ⊢
        exact sockOutputNmsgWrite_room hpb hz h hnp hsize hsends hfor hfits
  | flush fails =>
      have hpayloads : s.c.nmsg.payloads = w.waiting := by rw [h.filled.nmsg]
      have hfails : fails = false := hsends
      simp only [sockOutputStep, Pending.step, hpayloads]
      by_cases hne : w.waiting = []
      · rw [if_pos hne, if_neg (not_not_intro hne)]
        refine callSends_nil ⟨h.position, ?_, h.container, h.room⟩
        rw [← hne]
        exact h.filled
      · rw [if_neg hne, if_pos hne, hfails]
        exact sockWriteContainer_sends hpb hz h.position h.filled hne h.room
  | setBuffered buffered =>
      refine callSends_nil ⟨⟨h.position.bufsz, ?_, h.position.doSequence, h.position.sequenceId,
        h.position.sequence, h.position.doFilter⟩, h.filled, h.container, h.room⟩
      rw [h.position.config]
      rfl

/-- **Calls send what they should.** By induction on the calls. -/
theorem run_sends (hpb : pb.Lawful) (hz : z.Lawful) (ops : List SockOutputOp)
    (h : SockWaits x w number s) (hsmall : ∀ op ∈ ops, op.Small) (hsends : ∀ op ∈ ops, op.Sends)
    (hfits : ParcelsFit pb z crc32c x number (parcels x.output.bufsz x.config w ops)) :
    ∃ answers s', StepRun.run (sockOutputStep pb z crc32c) s ops = .ok (answers, s') ∧
      (∀ answer ∈ answers, answer.1 = .success) ∧
      answers.flatMap Prod.snd =
        parcelDatagrams pb z crc32c x number (parcels x.output.bufsz x.config w ops) ∧
      ∀ p ∈ parcels x.output.bufsz x.config w ops, p.Shaped x.output.bufsz := by
  induction ops generalizing w number s with
  | nil =>
      exact ⟨[], s, rfl, fun _ ha => (List.not_mem_nil ha).elim, rfl,
        fun _ hp => (List.not_mem_nil hp).elim⟩
  | cons op ops ih =>
      rw [parcels] at hfits ⊢
      obtain ⟨⟨t, hstep, hwaits⟩, hshaped⟩ := sockOutputStep_sends hpb hz h
        (hsmall op List.mem_cons_self) (hsends op List.mem_cons_self) hfits.left
      obtain ⟨answers, s', hrun, hsuccess, hdatagrams, hshaped'⟩ := ih hwaits
        (fun op' hop => hsmall op' (List.mem_cons_of_mem _ hop))
        (fun op' hop => hsends op' (List.mem_cons_of_mem _ hop)) hfits.right
      refine ⟨_, s', StepRun.run_cons_eq_ok.mpr ⟨_, t, _, hstep, hrun, rfl⟩, ?_, ?_, ?_⟩
      · intro answer ha
        rcases List.mem_cons.mp ha with rfl | ha
        · rfl
        · exact hsuccess answer ha
      · rw [parcelDatagrams_append, List.flatMap_cons, hdatagrams]
      · intro p hp
        exact (List.mem_append.mp hp).elim (hshaped p) (hshaped' p)

/-! ### All calls on an output -/

/-- A payload that joins is sent, or waits. -/
theorem join_payloads (bufsz : Nat) (w : Pending) (id : UInt32) (np : NmsgPayload) :
    (w.join bufsz id np).1.flatMap Parcel.payloads ++ (w.join bufsz id np).2.waiting =
      w.waiting ++ [np] := by
  rw [Pending.join]
  split
  · simp
  · split <;> simp

/-- A call sends what waited, and its own payload, or leaves it waiting. -/
theorem step_payloads (bufsz : Nat) (config : OutputConfig) (w : Pending) (op : SockOutputOp) :
    (w.step bufsz config op).1.flatMap Parcel.payloads ++ (w.step bufsz config op).2.waiting =
      w.waiting ++ (op.payload config).toList := by
  cases op with
  | write now id msg fails =>
      rw [Pending.step, SockOutputOp.payload]
      cases (messageSerialize now msg).np.map config.override with
      | none => simp
      | some np =>
          by_cases hfull : w.waiting ≠ [] ∧ bufsz ≤ numberedSize w.waiting + payloadSize np + 32
          · have hjoin := join_payloads bufsz ⟨true, []⟩ id np
            simp only [if_pos hfull, List.flatMap_cons, List.append_assoc]
            rw [hjoin]
            rfl
          · simp only [if_neg hfull]
            exact join_payloads bufsz w id np
  | flush fails =>
      rw [Pending.step, SockOutputOp.payload]
      by_cases hempty : w.waiting = []
      · simp [hempty]
      · simp [if_neg hempty]
  | setBuffered buffered => simp [Pending.step, SockOutputOp.payload]

/-- With a flush in the end, all payloads are sent. By induction on the calls. -/
theorem parcels_payloads (bufsz : Nat) (config : OutputConfig) (fails : Bool)
    (ops : List SockOutputOp) (w : Pending) :
    (parcels bufsz config w (ops ++ [.flush fails])).flatMap Parcel.payloads =
      w.waiting ++ ops.filterMap (SockOutputOp.payload config) := by
  induction ops generalizing w with
  | nil =>
      have hstep := step_payloads bufsz config w (.flush fails)
      have hwaiting : (w.step bufsz config (.flush fails)).2.waiting = [] := rfl
      rw [hwaiting, List.append_nil] at hstep
      rw [List.nil_append, parcels, parcels, List.append_nil, hstep]
      rfl
  | cons op ops ih =>
      rw [List.cons_append, parcels, List.flatMap_append, ih, ← List.append_assoc,
        step_payloads, List.append_assoc]
      congr 1
      rw [List.filterMap_cons]
      cases op.payload config <;> rfl

/-- Before the first call nothing waits. -/
theorem sockWaits_output (x : SockSender) : SockWaits x ⟨x.config.buffered, []⟩ 0 x.output :=
  ⟨⟨rfl, rfl, rfl, rfl, rfl, rfl⟩, filled_fresh _ _, rfl,
    Nat.le_trans (show hdrlszV2 ≤ wbufszMin by decide) x.output.le_bufsz⟩

theorem datagrams_containers (x : SockSender) :
    (x.containers pb z crc32c).flatMap (fun c => c.datagrams pb) =
      parcelDatagrams pb z crc32c x 0 x.parcels := by
  rw [parcelDatagrams, SockSender.containers]
  simp only [Nat.zero_add]

theorem payloads_containers (x : SockSender) :
    (x.containers pb z crc32c).flatMap (fun c => c.nmsg.payloads) =
      x.parcels.flatMap Parcel.payloads := by
  have hmap : (x.containers pb z crc32c).map (fun c => c.nmsg.payloads) =
      x.parcels.map Parcel.payloads := by
    refine List.ext_getElem? fun k => ?_
    rw [List.getElem?_map, SockSender.containers, List.getElem?_mapIdx, List.getElem?_map,
      Option.map_map]
    rfl
  rw [List.flatMap_def, hmap, List.flatMap_def]

/-- **A sender sends its containers**, and they can be read. -/
theorem sends_containers (hpb : pb.Lawful) (hz : z.Lawful) (x : SockSender)
    (hx : x.Fits pb z crc32c) :
    x.SendsContainers pb z crc32c ∧ ∀ c ∈ x.containers pb z crc32c, c.Readable pb z := by
  have hfits : ParcelsFit pb z crc32c x 0 x.parcels := by
    intro k p hp
    rw [Nat.zero_add]
    exact hx.parcels k p hp
  have hsmall : ∀ op ∈ x.ops ++ [.flush false], op.Small :=
    List.forall_mem_append.mpr ⟨hx.small, List.forall_mem_singleton.mpr trivial⟩
  have hsends : ∀ op ∈ x.ops ++ [.flush false], op.Sends :=
    List.forall_mem_append.mpr ⟨hx.sends, List.forall_mem_singleton.mpr rfl⟩
  obtain ⟨answers, s, hrun, hsuccess, hdatagrams, hshaped⟩ :=
    run_sends hpb hz (x.ops ++ [.flush false]) (sockWaits_output x) hsmall hsends hfits
  refine ⟨⟨answers, s, hrun, hsuccess, ?_, ?_⟩, ?_⟩
  · rw [datagrams_containers]
    exact hdatagrams
  · rw [payloads_containers]
    exact parcels_payloads _ _ _ _ _
  · intro c hc
    obtain ⟨number, hnumber, rfl⟩ := List.mem_mapIdx.mp hc
    have hp := List.getElem?_eq_getElem hnumber
    exact readable_container hpb hz (hshaped _ (List.getElem_mem hnumber)) (hx.parcels number _ hp)

end Calls

end Nmsg

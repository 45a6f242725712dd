import Nmsg.Lib.Chunks
import Nmsg.Output
import Nmsg.Proof.ContainerRoundTrip

/-!
# Fragments that are sent

A container is cut into pieces of one length, of which the last may be shorter. The number of pieces
is announced as the quotient of both lengths and one, which is one too many when the quotient is
exact.
-/

namespace Nmsg

open Octets WireFormat

variable {pb : ProtobufC} {z : Zlib} {crc32c : Bytes → UInt32}

/-- A fragment behind its header. -/
def encodeFragment (pb : ProtobufC) (flags : UInt8) (nf : NmsgFragment) : Bytes :=
  headerSerialize flags (pb.packFragment nf).length ++ pb.packFragment nf

/-- Fragments that a receiver can put together: they agree about what they belong to, are numbered
up to the last one announced, none is empty or too long, and in order they are the container. -/
structure WholeFragments (crc32c : Bytes → UInt32) (bufsz : Nat) (container : Bytes)
    (fragments : List NmsgFragment) : Prop where
  agree : ∃ (id last : UInt32), fragments.length = last.toNat + 1 ∧
    ∀ (k : Nat) (nf : NmsgFragment), fragments[k]? = some nf →
      nf.id = id ∧ nf.last = last ∧ nf.crc = some (htonl (crc32c container)) ∧
        nf.current.toNat = k
  sized : ∀ nf ∈ fragments, nf.fragment ≠ [] ∧ nf.fragment.length ≤ bufsz - 32
  whole : fragments.flatMap NmsgFragment.fragment = container

/-- The flags of the fragments of an output. -/
def StreamOutput.fragFlags (s : StreamOutput) : UInt8 :=
  (if s.config.doZlib then flagZlib else 0) ||| flagFragment

/-- `_output_frag_write` sends a container in fragments that can be put together. -/
def SendsWhole (pb : ProtobufC) (z : Zlib) (crc32c : Bytes → UInt32) (s : StreamOutput)
    (id : UInt32) (container : Bytes) : Prop :=
  ∃ fragments, WholeFragments crc32c s.bufsz container fragments ∧
    outputFragWrite pb z crc32c s id =
      .ok (.success, s.next (fragments.flatMap (encodeFragment pb s.fragFlags)))

/-! ### Sizes -/

section Sizes

variable {nf : NmsgFragment} {bufsz : Nat}

theorem length_packFragment_le (hpb : pb.Lawful) (hle : bufsz ≤ wbufszMax)
    (h : nf.fragment.length ≤ bufsz - 32) :
    (pb.packFragment nf).length ≤ nf.fragment.length + 28 := by
  have hid := varintSize_uint32 nf.id
  have hcurrent := varintSize_uint32 nf.current
  have hlast := varintSize_uint32 nf.last
  have hcrc := optionalSize_le nf.crc
  have hlen : varintSize nf.fragment.length ≤ 3 := by
    apply varintSize_le
    simp only [wbufszMax] at hle
    omega
  rw [hpb.length_packFragment, fragmentPackedSize]
  omega

/-- The header tells where a fragment ends. -/
theorem encodeFragment_append_inj (hpb : pb.Lawful) {flags : UInt8} {nf nf' : NmsgFragment}
    {rest rest' : Bytes} (h : (pb.packFragment nf).length < 2 ^ 32)
    (h' : (pb.packFragment nf').length < 2 ^ 32)
    (heq : encodeFragment pb flags nf ++ rest = encodeFragment pb flags nf' ++ rest') :
    nf = nf' ∧ rest = rest' := by
  have hpow : (256 : Nat) ^ 4 = 2 ^ 32 := by decide
  rw [encodeFragment, encodeFragment, List.append_assoc, List.append_assoc] at heq
  obtain ⟨hheader, hbody⟩ := List.append_inj heq (by simp)
  rw [headerSerialize, headerSerialize] at hheader
  have hlens := (List.append_inj hheader (by simp)).2
  have hlen : (pb.packFragment nf).length = (pb.packFragment nf').length := by
    have := congrArg beNat hlens
    rwa [beNat_beBytes_of_lt (by omega), beNat_beBytes_of_lt (by omega)] at this
  obtain ⟨hpacked, hrest⟩ := List.append_inj hbody hlen
  refine ⟨?_, hrest⟩
  have := congrArg pb.unpackFragment hpacked
  rwa [hpb.unpackFragment_packFragment, hpb.unpackFragment_packFragment, Option.some.injEq] at this

theorem encodeFragment_ne_nil (pb : ProtobufC) (flags : UInt8) (nf : NmsgFragment) :
    encodeFragment pb flags nf ≠ [] := by
  apply List.ne_nil_of_length_pos
  rw [encodeFragment, List.length_append, length_headerSerialize]
  exact Nat.lt_of_lt_of_le (by decide) (Nat.le_add_right hdrlszV2 _)

theorem flatMap_encodeFragment_inj (hpb : pb.Lawful) {flags : UInt8}
    {fragments fragments' : List NmsgFragment}
    (h : ∀ nf ∈ fragments, (pb.packFragment nf).length < 2 ^ 32)
    (h' : ∀ nf ∈ fragments', (pb.packFragment nf).length < 2 ^ 32)
    (heq : fragments.flatMap (encodeFragment pb flags) =
      fragments'.flatMap (encodeFragment pb flags)) : fragments = fragments' := by
  induction fragments generalizing fragments' with
  | nil =>
      cases fragments' with
      | nil => rfl
      | cons nf' rest' =>
          rw [List.flatMap_nil, List.flatMap_cons] at heq
          exact absurd (List.append_eq_nil_iff.mp heq.symm).1 (encodeFragment_ne_nil _ _ _)
  | cons nf rest ih =>
      cases fragments' with
      | nil =>
          rw [List.flatMap_nil, List.flatMap_cons] at heq
          exact absurd (List.append_eq_nil_iff.mp heq).1 (encodeFragment_ne_nil _ _ _)
      | cons nf' rest' =>
          rw [List.flatMap_cons, List.flatMap_cons] at heq
          obtain ⟨rfl, hrest⟩ := encodeFragment_append_inj hpb (h nf (by simp)) (h' nf' (by simp)) heq
          rw [ih (fun nf hnf => h nf (by simp [hnf])) (fun nf hnf => h' nf (by simp [hnf])) hrest]

end Sizes

/-! ### The loop -/

section Loop

variable {bufsz k m fuel : Nat} {flags : UInt8} {nf : NmsgFragment} {packed : Bytes}

/-- The fragment the loop makes of piece `k`. -/
def pieceFragment (bufsz : Nat) (nf : NmsgFragment) (packed : Bytes) (k : Nat) : NmsgFragment :=
  { nf with current := .ofNat k, fragment := Chunks.chunk (bufsz - 32) packed k }

/-- The number of pieces. -/
def pieceCount (bufsz : Nat) (packed : Bytes) : Nat :=
  (packed.length + (bufsz - 32) - 1) / (bufsz - 32)

theorem lt_pieceCount_iff (hmin : wbufszMin ≤ bufsz) :
    k < pieceCount bufsz packed ↔ k * (bufsz - 32) < packed.length :=
  Chunks.lt_length_chunks_iff (by simp only [wbufszMin] at hmin; omega)

theorem length_pieceFragment_le (bufsz : Nat) (nf : NmsgFragment) (packed : Bytes) (k : Nat) :
    (pieceFragment bufsz nf packed k).fragment.length ≤ bufsz - 32 := by
  simp only [pieceFragment, Chunks.chunk, List.length_take]
  exact Nat.min_le_left _ _

/-- One round of the loop. -/
theorem fragLoop_succ (hpb : pb.Lawful) (hmin : wbufszMin ≤ bufsz) (hmax : bufsz ≤ wbufszMax)
    (hk : k < pieceCount bufsz packed) :
    fragLoop pb bufsz flags nf packed (fuel + 1) (k * (bufsz - 32)) k =
      if k + 1 = 2 ^ 31 then .error .signedOverflow
      else (fragLoop pb bufsz flags nf packed fuel ((k + 1) * (bufsz - 32)) (k + 1)).map
        (encodeFragment pb flags (pieceFragment bufsz nf packed k) ++ ·) := by
  have hpos := (lt_pieceCount_iff hmin).mp hk
  have hpiece : (packed.drop (k * (bufsz - 32))).take
      (if packed.length - k * (bufsz - 32) > bufsz - 32 then bufsz - 32
        else packed.length - k * (bufsz - 32)) = Chunks.chunk (bufsz - 32) packed k := by
    rw [Chunks.chunk]
    split
    · rfl
    · rw [List.take_of_length_le (by rw [List.length_drop]),
        List.take_of_length_le (by rw [List.length_drop]; omega)]
  have hfragment : { nf with
      current := .ofNat k
      fragment := Chunks.chunk (bufsz - 32) packed k } = pieceFragment bufsz nf packed k := rfl
  have hlen := length_packFragment_le hpb hmax (length_pieceFragment_le bufsz nf packed k)
  have hsize := length_pieceFragment_le bufsz nf packed k
  simp only [fragLoop, if_pos hpos, hpiece, hfragment]
  rw [if_neg (by omega), Nat.succ_mul]
  by_cases hlast : k + 1 = 2 ^ 31
  · rw [if_pos hlast, if_pos hlast]
  · rw [if_neg hlast, if_neg hlast]
    cases fragLoop pb bufsz flags nf packed fuel (k * (bufsz - 32) + (bufsz - 32)) (k + 1) with
    | error e => rfl
    | ok rest => rfl

/-- By induction on the number of pieces that are left. -/
theorem fragLoop_eq (hpb : pb.Lawful) (hmin : wbufszMin ≤ bufsz) (hmax : bufsz ≤ wbufszMax)
    (hfew : pieceCount bufsz packed < 2 ^ 31) (hm : k + m = pieceCount bufsz packed)
    (hfuel : m ≤ fuel) :
    fragLoop pb bufsz flags nf packed fuel (k * (bufsz - 32)) k =
      .ok (((List.range' k m).map (pieceFragment bufsz nf packed)).flatMap
        (encodeFragment pb flags)) := by
  induction m generalizing k fuel with
  | zero =>
      have hend : ¬ k * (bufsz - 32) < packed.length := by
        rw [← lt_pieceCount_iff hmin]
        omega
      cases fuel with
      | zero => simp only [fragLoop, if_neg hend]; rfl
      | succ fuel => simp only [fragLoop, if_neg hend]; rfl
  | succ m ih =>
      cases fuel with
      | zero => omega
      | succ fuel =>
          rw [fragLoop_succ hpb hmin hmax (by omega), if_neg (by omega),
            ih (by omega) (by omega), List.range'_succ, List.map_cons, List.flatMap_cons]
          rfl

/-- With more pieces than an `int` counts the loop does not return. -/
theorem fragLoop_overflow (hpb : pb.Lawful) (hmin : wbufszMin ≤ bufsz) (hmax : bufsz ≤ wbufszMax)
    (hmany : 2 ^ 31 ≤ pieceCount bufsz packed) (hm : k + m + 1 = 2 ^ 31) (octets : Bytes) :
    fragLoop pb bufsz flags nf packed fuel (k * (bufsz - 32)) k ≠ .ok octets := by
  induction m generalizing k fuel octets with
  | zero =>
      cases fuel with
      | zero =>
          have hpos : k * (bufsz - 32) < packed.length := (lt_pieceCount_iff hmin).mp (by omega)
          simp [fragLoop, hpos]
      | succ fuel =>
          rw [fragLoop_succ hpb hmin hmax (by omega), if_pos (by omega)]
          simp
  | succ m ih =>
      cases fuel with
      | zero =>
          have hpos : k * (bufsz - 32) < packed.length := (lt_pieceCount_iff hmin).mp (by omega)
          simp [fragLoop, hpos]
      | succ fuel =>
          rw [fragLoop_succ hpb hmin hmax (by omega), if_neg (by omega)]
          intro hok
          cases hrest : fragLoop pb bufsz flags nf packed fuel ((k + 1) * (bufsz - 32)) (k + 1) with
          | error e => simp [hrest, Except.map] at hok
          | ok rest => exact ih (by omega) rest hrest

end Loop

/-! ### What is sent -/

section Sent

variable {s : StreamOutput} {id : UInt32} {container : Bytes}

/-- A serialized container gets to the loop of `_output_frag_write`. -/
def ReachesLoop (pb : ProtobufC) (z : Zlib) (crc32c : Bytes → UInt32) (s : StreamOutput)
    (container : Bytes) : Prop :=
  ∃ out c', containerSerialize pb z crc32c s.c false s.config.doZlib s.sequence s.sequenceId =
      .ok (out, c') ∧
    out.bufLen ≤ out.buf.length ∧ container = out.buf.take out.bufLen ∧
    (s.config.doZlib = true → s.bufsz - 32 < container.length)

/-- What all fragments of a container have in common. -/
def fragHead (crc32c : Bytes → UInt32) (bufsz : Nat) (id : UInt32) (container : Bytes) :
    NmsgFragment where
  id := id
  current := 0
  last := .ofNat (container.length / (bufsz - 32))
  fragment := []
  crc := some (htonl (crc32c container))

/-- The fragments of a container. -/
def sentFragments (crc32c : Bytes → UInt32) (bufsz : Nat) (id : UInt32) (container : Bytes) :
    List NmsgFragment :=
  (List.range (pieceCount bufsz container)).map
    (pieceFragment bufsz (fragHead crc32c bufsz id container) container)

theorem outputFragWrite_loop (h : ReachesLoop pb z crc32c s container) (id : UInt32) :
    outputFragWrite pb z crc32c s id =
      (fragLoop pb s.bufsz s.fragFlags (fragHead crc32c s.bufsz id container) container
        container.length 0 0).map fun octets => (.success, s.next octets) := by
  obtain ⟨out, c', hserialize, hbuf, rfl, hlong⟩ := h
  have hcut : ¬ (s.config.doZlib = true ∧ (out.buf.take out.bufLen).length ≤ s.bufsz - 32) := by
    rintro ⟨hzlib, hle⟩
    have := hlong hzlib
    omega
  simp only [outputFragWrite, hserialize]
  rw [if_neg (by omega), if_neg hcut]
  simp only [StreamOutput.fragFlags, fragHead]
  split <;> rename_i heq <;> rw [heq] <;> rfl

theorem pieceCount_le_length (bufsz : Nat) (container : Bytes) :
    pieceCount bufsz container ≤ container.length := by
  unfold pieceCount
  rcases Nat.eq_zero_or_pos (bufsz - 32) with hzero | hpos
  · rw [hzero, Nat.div_zero]
    exact Nat.zero_le _
  · rw [Nat.div_le_iff_le_mul hpos]
    have hmul := Nat.le_mul_of_pos_right container.length hpos
    omega

/-- **Fragments that are sent.** -/
theorem outputFragWrite_fragments (hpb : pb.Lawful) (h : ReachesLoop pb z crc32c s container)
    (hfew : pieceCount s.bufsz container < 2 ^ 31) (id : UInt32) :
    outputFragWrite pb z crc32c s id =
      .ok (.success, s.next ((sentFragments crc32c s.bufsz id container).flatMap
        (encodeFragment pb s.fragFlags))) := by
  have hloop : fragLoop pb s.bufsz s.fragFlags (fragHead crc32c s.bufsz id container) container
      container.length (0 * (s.bufsz - 32)) 0 =
        .ok (((List.range' 0 (pieceCount s.bufsz container)).map (pieceFragment s.bufsz
          (fragHead crc32c s.bufsz id container) container)).flatMap
            (encodeFragment pb s.fragFlags)) :=
    fragLoop_eq hpb s.le_bufsz s.bufsz_le hfew (Nat.zero_add _) (pieceCount_le_length _ _)
  rw [Nat.zero_mul, ← List.range_eq_range'] at hloop
  rw [outputFragWrite_loop h, hloop]
  rfl

@[simp]
theorem length_sentFragments (bufsz : Nat) (id : UInt32) (container : Bytes) :
    (sentFragments crc32c bufsz id container).length = pieceCount bufsz container := by
  simp [sentFragments]

theorem flatMap_sentFragments (hmin : wbufszMin ≤ s.bufsz) (id : UInt32) (container : Bytes) :
    (sentFragments crc32c s.bufsz id container).flatMap NmsgFragment.fragment = container := by
  have hpos : 0 < s.bufsz - 32 := by
    simp only [wbufszMin] at hmin
    omega
  have hchunks := Chunks.flatten_chunks hpos container
  rw [sentFragments, List.flatMap_map, List.flatMap_def]
  exact hchunks

theorem pieceCount_of_uneven (hmin : wbufszMin ≤ s.bufsz)
    (huneven : container.length % (s.bufsz - 32) ≠ 0) :
    pieceCount s.bufsz container = container.length / (s.bufsz - 32) + 1 :=
  Chunks.length_chunks_of_mod_ne_zero (by simp only [wbufszMin] at hmin; omega) huneven

theorem pieceCount_of_even (hmin : wbufszMin ≤ s.bufsz)
    (heven : container.length % (s.bufsz - 32) = 0) :
    pieceCount s.bufsz container = container.length / (s.bufsz - 32) :=
  Chunks.length_chunks_of_mod_eq_zero (by simp only [wbufszMin] at hmin; omega) heven

/-- Unless the quotient is exact, the fragments can be put together. -/
theorem wholeFragments_sent (huneven : container.length % (s.bufsz - 32) ≠ 0)
    (hfew : container.length / (s.bufsz - 32) + 1 < 2 ^ 31) (id : UInt32) :
    WholeFragments crc32c s.bufsz container (sentFragments crc32c s.bufsz id container) := by
  have hcount := pieceCount_of_uneven s.le_bufsz huneven
  refine ⟨⟨id, .ofNat (container.length / (s.bufsz - 32)), ?_, ?_⟩, ?_, ?_⟩
  · rw [length_sentFragments, hcount, UInt32.toNat_ofNat', Nat.mod_eq_of_lt (by omega)]
  · intro k nf hnf
    rw [sentFragments, List.getElem?_map, Option.map_eq_some_iff] at hnf
    obtain ⟨j, hj, rfl⟩ := hnf
    obtain ⟨hlt, hget⟩ := List.getElem?_eq_some_iff.mp hj
    rw [List.getElem_range] at hget
    rw [List.length_range] at hlt
    subst hget
    refine ⟨rfl, rfl, rfl, ?_⟩
    rw [pieceFragment, UInt32.toNat_ofNat', Nat.mod_eq_of_lt (by omega)]
  · intro nf hnf
    obtain ⟨k, hk, rfl⟩ := List.mem_map.mp hnf
    have hlt := (lt_pieceCount_iff s.le_bufsz).mp (List.mem_range.mp hk)
    have hpos : 0 < s.bufsz - 32 := by
      have hmin := s.le_bufsz
      simp only [wbufszMin] at hmin
      omega
    exact ⟨Chunks.chunk_ne_nil hpos hlt, length_pieceFragment_le _ _ _ _⟩
  · exact flatMap_sentFragments s.le_bufsz id container

/-- Fragments that are sent and can be put together are those the loop makes, and there is not one
more announced. -/
theorem SendsWhole.counts (hpb : pb.Lawful) (h : ReachesLoop pb z crc32c s container)
    (hsent : SendsWhole pb z crc32c s id container) :
    container.length % (s.bufsz - 32) ≠ 0 ∧ container.length / (s.bufsz - 32) + 1 < 2 ^ 31 := by
  obtain ⟨fragments, ⟨⟨id', last, hlength, hagree⟩, hsized, hwhole⟩, hok⟩ := hsent
  have hmax := s.bufsz_le
  have hfew : pieceCount s.bufsz container < 2 ^ 31 := by
    by_contra hmany
    rw [outputFragWrite_loop h] at hok
    cases hloop : fragLoop pb s.bufsz s.fragFlags (fragHead crc32c s.bufsz id container) container
        container.length 0 0 with
    | error e => simp [hloop, Except.map] at hok
    | ok octets =>
        have hstart : fragLoop pb s.bufsz s.fragFlags (fragHead crc32c s.bufsz id container)
            container container.length (0 * (s.bufsz - 32)) 0 = .ok octets := by
          rw [Nat.zero_mul]
          exact hloop
        exact fragLoop_overflow hpb s.le_bufsz hmax (Nat.not_lt.mp hmany)
          (show 0 + (2 ^ 31 - 1) + 1 = 2 ^ 31 by omega) octets hstart
  rw [outputFragWrite_fragments hpb h hfew, Except.ok.injEq, Prod.mk.injEq] at hok
  have hwritten := congrArg StreamOutput.written hok.2
  have hoctets := List.append_cancel_left hwritten
  have hbound : ∀ nf : NmsgFragment, nf.fragment.length ≤ s.bufsz - 32 →
      (pb.packFragment nf).length < 2 ^ 32 := by
    intro nf hnf
    have hlen := length_packFragment_le hpb hmax hnf
    simp only [wbufszMax] at hmax
    omega
  have hsame : fragments = sentFragments crc32c s.bufsz id container := by
    refine (flatMap_encodeFragment_inj hpb ?_ ?_ hoctets).symm
    · intro nf hnf
      obtain ⟨k, -, rfl⟩ := List.mem_map.mp hnf
      exact hbound _ (length_pieceFragment_le _ _ _ _)
    · exact fun nf hnf => hbound nf (hsized nf hnf).2
  have hcount : pieceCount s.bufsz container = last.toNat + 1 := by
    rw [← hlength, hsame, length_sentFragments]
  have hlast : last = .ofNat (container.length / (s.bufsz - 32)) := by
    have hfirst : fragments[0]? = some (pieceFragment s.bufsz
        (fragHead crc32c s.bufsz id container) container 0) := by
      rw [hsame, sentFragments, List.getElem?_map, List.getElem?_range (by omega)]
      rfl
    exact (hagree 0 _ hfirst).2.1.symm
  by_cases heven : container.length % (s.bufsz - 32) = 0
  · have hquotient := pieceCount_of_even s.le_bufsz heven
    rw [hlast, UInt32.toNat_ofNat', Nat.mod_eq_of_lt (by omega)] at hcount
    omega
  · rw [pieceCount_of_uneven s.le_bufsz heven] at hfew
    exact ⟨heven, hfew⟩

/-- **Sender-side fragmentation.** The fragments of a container can be put together exactly when its
length is no multiple of what fits in one of them, and an `int` counts them. -/
theorem fragments_sent_whole_iff (hpb : pb.Lawful) (h : ReachesLoop pb z crc32c s container)
    (id : UInt32) :
    SendsWhole pb z crc32c s id container ↔
      container.length % (s.bufsz - 32) ≠ 0 ∧
        container.length / (s.bufsz - 32) + 1 < 2 ^ 31 := by
  constructor
  · exact SendsWhole.counts hpb h
  · rintro ⟨huneven, hfew⟩
    refine ⟨sentFragments crc32c s.bufsz id container, wholeFragments_sent huneven hfew id, ?_⟩
    exact outputFragWrite_fragments hpb h (by rw [pieceCount_of_uneven s.le_bufsz huneven]; omega) id

end Sent

/-! ### Two containers -/

/-- A payload of `n` octets. -/
def longPayload (n : Nat) : NmsgPayload where
  vid := 1
  msgtype := 1
  timeSec := 1
  timeNsec := 0
  payload := some (List.replicate n 65)
  source := none
  operator := none
  group := none

/-- An output of 512 octets whose container holds one payload. -/
def loneOutput (np : NmsgPayload) : StreamOutput :=
  { StreamOutput.openFile 512 ⟨true, false, 0, 0, 0⟩ with
    c := ⟨⟨[np], [], none, none⟩, 512, hdrlszV2 + estimate false (payloadSize np), false⟩ }

theorem reachesLoop_loneOutput {np : NmsgPayload} {n : Nat}
    (hn : nmsgPackedSize (payloadCalcCrcs (fun _ => 7) ⟨[np], [], none, none⟩) = n)
    (hroom : n ≤ hdrlszV2 + estimate false (payloadSize np)) :
    ∃ container, container.length = n ∧
      ReachesLoop wire storedZlib (fun _ => 7) (loneOutput np) container := by
  refine ⟨wire.packNmsg (payloadCalcCrcs (fun _ => 7) ⟨[np], [], none, none⟩), ?_, ?_⟩
  · rw [wire_lawful.length_packNmsg, hn]
  · have hlen : (wire.packNmsg (containerPrepare (fun _ => 7) (loneOutput np).c 0 0).nmsg).length =
        n := by
      rw [wire_lawful.length_packNmsg]
      exact hn
    obtain ⟨body, hbody, hserialize, -⟩ := containerSerialize_eq storedZlib_lawful false false 0 0
      rfl (by rw [hlen, if_neg Bool.false_ne_true, Nat.zero_add]; exact hroom) (by simp)
    rw [if_neg Bool.false_ne_true] at hbody
    refine ⟨_, _, hserialize, ?_, ?_, fun hzlib => by cases hzlib⟩
    · simp
    · simp only [if_neg Bool.false_ne_true, List.nil_append, Nat.zero_add, List.take_length, hbody]
      rfl

theorem fragments_sent_whole_iff_sample :
    ∃ container : Bytes, container.length = 922 ∧
      (SendsWhole wire storedZlib (fun _ => 7) (loneOutput (longPayload 900)) 7 container ↔
        container.length % (512 - 32) ≠ 0 ∧ container.length / (512 - 32) + 1 < 2 ^ 31) := by
  obtain ⟨container, hlen, hreaches⟩ := @reachesLoop_loneOutput (longPayload 900) 922
    (by decide +kernel) (by decide +kernel)
  exact ⟨container, hlen, fragments_sent_whole_iff wire_lawful hreaches 7⟩

/-- **One fragment too many is announced** for a container of 960 octets, which two fragments of 480
octets hold. -/
theorem even_container_not_sent_whole :
    ∃ container : Bytes, container.length = 960 ∧
      ReachesLoop wire storedZlib (fun _ => 7) (loneOutput (longPayload 938)) container ∧
      ¬ SendsWhole wire storedZlib (fun _ => 7) (loneOutput (longPayload 938)) 7 container := by
  obtain ⟨container, hlen, hreaches⟩ := @reachesLoop_loneOutput (longPayload 938) 960
    (by decide +kernel) (by decide +kernel)
  refine ⟨container, hlen, hreaches, fun hsent => ?_⟩
  apply (hsent.counts wire_lawful hreaches).1
  rw [hlen]
  rfl

end Nmsg

import Mathlib.Data.List.ReduceOption
import Nmsg.Datagrams
import Nmsg.Proof.Defrag
import Nmsg.Proof.LoopRead

/-!
# Reading from a lossy network

The decoder holds some of the pieces that were seen: all of those of the containers that will be
whole, as these are never dropped, and of the others what came since they were dropped last. That a
piece completes what the decoder holds is then the same as that it completes what was seen.
-/

namespace Nmsg

/-! ### One fragment -/

section Fragment

variable {pb : ProtobufC} {z : Zlib} {n : Nat} {cs : Fin n → FragmentedContainer}
  {held held' : List (Piece n)} {i : Fin n} {k : Nat} {env : CallEnv} {now : Timespec}
  {d d' : Decoder z} {fent : Frag} {t t' : KeyTree Frag.key}

/-- The tree holds of a container what it held if this did not change. -/
theorem Tracks.congr (h : Tracks cs held t i) (hheld : ∀ k, (i, k) ∈ held ↔ (i, k) ∈ held')
    (hfind : t'.find (cs i).key = t.find (cs i).key) : Tracks cs held' t' i := by
  have hcomplete : Complete cs held i ↔ Complete cs held' i := by
    simp only [Complete, hheld]
  unfold Tracks at h ⊢
  rw [hfind]
  cases hnode : t.find (cs i).key with
  | none =>
      rw [hnode] at h
      exact h.imp hcomplete.mp fun hnone k hk => hnone k ((hheld k).mpr hk)
  | some fent =>
      rw [hnode] at h
      exact ⟨⟨h.1.key, h.1.last, h.1.frags.trans (slotsOf_congr hheld), h.1.counted⟩,
        fun hc => h.2 (hcomplete.mpr hc)⟩

/-- What a piece does to the tree. The node of its container keeps the time at which it was
opened. -/
structure Attached (cs : Fin n → FragmentedContainer) (held : List (Piece n)) (i : Fin n) (k : Nat)
    (now : Timespec) (t t' : KeyTree Frag.key) : Prop where
  tracks : Tracks cs (held ++ [(i, k)]) t' i
  others : ∀ key, key ≠ (cs i).key → t'.find key = t.find key
  opened : ∀ fent', t'.find (cs i).key = some fent' →
    (∃ fent, t.find (cs i).key = some fent ∧ fent'.ts = fent.ts) ∨
      t.find (cs i).key = none ∧ fent'.ts = now

/-- A piece is attached to the node of its container. -/
theorem attachFrag_attached (now : Timespec) (hz : z.Lawful) (hvalid : (cs i).Valid pb z)
    (hfind : d.nft.find (cs i).key = some fent) (hfent : Holds cs held i fent)
    (hk : k < (cs i).pieces.length) (hincomplete : ¬ Complete cs held i) (henv : env.Succeeds)
    (hzb : d.zb = z.inflateInit) :
    ∃ d' : Decoder z, attachFrag pb env ⟨(cs i).flags, now, (cs i).addrSs⟩ d fent
        ((cs i).fragment k) = .ok ((outcome cs held (i, k)).1, (outcome cs held (i, k)).2, d') ∧
      d'.zb = z.inflateInit ∧ Attached cs held i k now d.nft d'.nft := by
  rcases attachFrag_piece now hz hvalid hfent hk hincomplete henv hzb with
    ⟨d', hattach, hcomplete, hzb', ⟨fent', hkey, hnft⟩, -⟩ |
      ⟨d', hattach, hincomplete', hzb', ⟨fent', hholds, hts, hnft⟩, -⟩
  · have hself : d'.nft.find (cs i).key = none := by rw [hnft, KeyTree.find_erase_self]
    refine ⟨d', by simpa only [outcome, if_pos hcomplete] using hattach, hzb', ?_, ?_, ?_⟩
    · unfold Tracks
      rw [hself]
      exact Or.inl hcomplete
    · intro key hne
      rw [hnft, KeyTree.find_erase_of_ne hne, KeyTree.find_put_of_ne (by rwa [hkey])]
    · intro fent'' hfent''
      rw [hself] at hfent''
      cases hfent''
  · have hself : d'.nft.find (cs i).key = some fent' := by
      rcases hnft with hput | ⟨rfl, hsame⟩
      · rw [hput, ← hholds.key, KeyTree.find_put_self]
      · rw [hsame, hfind]
    refine ⟨d', by simpa only [outcome, if_neg hincomplete'] using hattach, hzb', ?_, ?_, ?_⟩
    · unfold Tracks
      rw [hself]
      exact ⟨hholds, hincomplete'⟩
    · intro key hne
      rcases hnft with hput | ⟨-, hsame⟩
      · rw [hput, KeyTree.find_put_of_ne (by rwa [hholds.key])]
      · rw [hsame]
    · intro fent'' hfent''
      rw [hself, Option.some.injEq] at hfent''
      exact Or.inl ⟨fent, hfind, hfent'' ▸ hts⟩

/-- **A fragment.** It opens a node or is attached to the one there is. -/
theorem inputFragRead_attached {buf : Bytes} (now : Timespec) (hz : z.Lawful)
    (hvalid : (cs i).Valid pb z) (hfew : (cs i).pieces.length < 2 ^ 32)
    (htracks : Tracks cs held d.nft i) (hk : k < (cs i).pieces.length)
    (hincomplete : ¬ Complete cs held i) (henv : env.Succeeds) (hzb : d.zb = z.inflateInit)
    (hunpack : pb.unpackFragment buf = some ((cs i).fragment k)) :
    ∃ d' : Decoder z, inputFragRead pb env ⟨(cs i).flags, now, (cs i).addrSs⟩ d buf =
        .ok ((outcome cs held (i, k)).1, (outcome cs held (i, k)).2, d') ∧
      d'.zb = z.inflateInit ∧ Attached cs held i k now d.nft d'.nft := by
  have hkey : fragKey ⟨(cs i).flags, now, (cs i).addrSs⟩ ((cs i).fragment k) = (cs i).key := rfl
  have henv' := henv
  obtain ⟨-, hfentok, hfragsok, -⟩ := henv'
  unfold Tracks at htracks
  cases hfind : d.nft.find (cs i).key with
  | some fent =>
      rw [hfind] at htracks
      have hlast : fent.last = ((cs i).fragment k).last := htracks.1.last
      simp only [inputFragRead, hunpack, hkey, hfind, hlast, ne_eq, not_true_eq_false, if_false]
      exact attachFrag_attached now hz hvalid hfind htracks.1 hk hincomplete henv hzb
  | none =>
      rw [hfind] at htracks
      have hnew := holds_newFrag hvalid hfew (htracks.resolve_left hincomplete) now k
      simp only [inputFragRead, hunpack, hkey, hfind, hfentok, hfragsok, Bool.true_eq_false,
        if_false]
      -- the node is put into the tree before the piece is attached to it
      obtain ⟨d', hattach, hzb', hattached⟩ := attachFrag_attached
        (d := ⟨d.zb, d.nft.put (newFrag ⟨(cs i).flags, now, (cs i).addrSs⟩ ((cs i).fragment k)),
          d.nfrags + 1⟩) now hz hvalid KeyTree.find_put_self hnew hk hincomplete henv hzb
      refine ⟨d', hattach, hzb', hattached.tracks, ?_, ?_⟩
      · intro key hne
        exact (hattached.others key hne).trans (KeyTree.find_put_of_ne hne)
      · intro fent' hfent'
        right
        refine ⟨hfind, ?_⟩
        rcases hattached.opened fent' hfent' with ⟨fent, hfent, hts⟩ | ⟨hnone, -⟩
        · rw [show (cs i).key = (newFrag ⟨(cs i).flags, now, (cs i).addrSs⟩
            ((cs i).fragment k)).key from rfl, KeyTree.find_put_self, Option.some.injEq] at hfent
          rw [hts, ← hfent]
          rfl
        · rw [show (cs i).key = (newFrag ⟨(cs i).flags, now, (cs i).addrSs⟩
            ((cs i).fragment k)).key from rfl, KeyTree.find_put_self] at hnone
          cases hnone

/-- Garbage collection drops nodes, but none that was opened less than thirty seconds ago. -/
theorem inputFragGc_keeps (now lastgc : Timespec) (d : Decoder z) :
    (inputFragGc now lastgc d).2.zb = d.zb ∧ ∃ p : Frag → Bool,
      (∀ fent, now.sec - fent.ts.sec < (fragGcInterval : Int) → p fent = true) ∧
      ∀ key, (inputFragGc now lastgc d).2.nft.find key = (d.nft.find key).filter p := by
  unfold inputFragGc
  split
  · refine ⟨rfl, fun _ => true, fun _ _ => rfl, fun key => ?_⟩
    cases d.nft.find key <;> rfl
  · refine ⟨rfl, fun fent => decide ¬ now.sec - fent.ts.sec ≥ (fragGcInterval : Int), ?_, ?_⟩
    · intro fent hfent
      simpa using hfent
    · intro key
      exact KeyTree.find_keep _

end Fragment

/-! ### One datagram -/

section Datagram

variable {pb : ProtobufC} {z : Zlib} {n : Nat} {cs : Fin n → FragmentedContainer} {i : Fin n}
  {k : Nat} {env : CallEnv} {now : Timespec} {s : SockInput z} {d' : Decoder z}

theorem FragmentedContainer.Readable.valid {c : FragmentedContainer} (h : c.Readable pb z)
    (hcut : c.cut = true) : c.Valid pb z where
  pieces_ne := h.pieces_ne
  piece_ne := h.piece_ne hcut
  length_le := h.few.le
  flagged := by simpa [FragmentedContainer.cut] using hcut
  carries := h.carries

/-- A datagram is what it carries behind a header. -/
theorem inputNmsgReadContainerSock_datagram {flags : UInt8} {addrSs : SockaddrStorage}
    {body : Bytes}
    (hsized : (headerSerialize flags body.length ++ body).length ≤ rbufsz / 2)
    {res : Res} {nmsg : Option ProtoNmsg}
    (hunpack : inputNmsgUnpackContainer pb env ⟨flags, now, addrSs⟩ s.decoder body =
      .ok (res, nmsg, d')) :
    ∃ s', s'.decoder = d' ∧ s'.now = now ∧
      inputNmsgReadContainerSock pb s
        ⟨.datagram now addrSs (headerSerialize flags body.length ++ body), env⟩ =
          .ok ((res, nmsg), sockGc s') := by
  have hlength : (headerSerialize flags body.length ++ body).length = hdrlszV2 + body.length := by
    simp
  have hhalf : rbufsz / 2 = 1048576 := rfl
  have hheader := inputNmsgDeserializeHeader_headerSerialize flags body.length body
    (hdrlszV2 + body.length) (by omega)
  rw [Nat.mod_eq_of_lt (by omega)] at hheader
  have hdrop : (headerSerialize flags body.length ++ body).drop hdrlszV2 = body :=
    Octets.drop_append_of_length (length_headerSerialize _ _)
  have hne : headerSerialize flags body.length ++ body ≠ [] := by
    apply List.ne_nil_of_length_pos
    rw [hlength]
    exact Nat.lt_of_lt_of_le (by decide) (Nat.le_add_right hdrlszV2 _)
  simp only [inputNmsgReadContainerSock, if_neg hne, List.take_of_length_le hsized, sockUnpack,
    hlength, hheader, hdrop, hunpack]
  rw [if_neg (by omega), if_neg (by omega)]
  cases nmsg with
  | none => exact ⟨_, rfl, rfl, rfl⟩
  | some nmsg => exact ⟨_, sockCount_decoder _ _, sockCount_now _ _, rfl⟩

/-- A container that is not cut up is unpacked at once. -/
theorem inputNmsgUnpackContainer_whole (hz : z.Lawful) {d : Decoder z}
    (hreadable : (cs i).Readable pb z) (hcut : (cs i).cut = false) (henv : env.Succeeds)
    (hzb : d.zb = z.inflateInit) (now : Timespec) :
    inputNmsgUnpackContainer pb env ⟨(cs i).flags, now, (cs i).addrSs⟩ d
      ((cs i).pieces.getD 0 []) = .ok (.success, some (cs i).nmsg, d) := by
  obtain ⟨body, hbody⟩ := List.length_eq_one_iff.mp (hreadable.one hcut)
  have hflags : (cs i).flags &&& flagFragment = 0 := by
    simpa [FragmentedContainer.cut] using hcut
  have hcarries := hreadable.carries
  rw [hbody, List.flatten_singleton] at hcarries
  rw [hbody, List.getD_cons_zero, inputNmsgUnpackContainer, if_neg (by simp [hflags])]
  by_cases hzlib : (cs i).flags &&& flagZlib ≠ 0
  · have hcarries' : ∃ packed, body = deflated z packed ∧ packed.length < 2 ^ 32 ∧
        body.length < 2 ^ 32 ∧ pb.unpackNmsg packed = some (cs i).nmsg := by
      simpa [Carries, FragmentedContainer.zlib, hzlib] using hcarries
    obtain ⟨packed, rfl, hpacked, hlen, hunpack⟩ := hcarries'
    rw [if_pos hzlib, henv.1, hzb, nmsgZbufInflate_deflated hz env.past hpacked hlen]
    simp only [hunpack]
    rw [← hzb]
  · have hunpack : pb.unpackNmsg body = some (cs i).nmsg := by
      simpa [Carries, FragmentedContainer.zlib, hzlib] using hcarries
    rw [if_neg hzlib]
    simp only [hunpack]

end Datagram

/-! ### What is held -/

section Gathered

variable {pb : ProtobufC} {z : Zlib} {n : Nat} {cs : Fin n → FragmentedContainer}
  {all held : List (Piece n)} {seen : List (Arrived n)} {a : Arrived n} {d d' : Decoder z}

/-- What the decoder holds of the pieces seen, if these are some of `all`. -/
structure Gathered (cs : Fin n → FragmentedContainer) (all : List (Piece n))
    (seen : List (Arrived n)) (held : List (Piece n)) (d : Decoder z) : Prop where
  zb : d.zb = z.inflateInit
  wasSeen : ∀ b ∈ held, b ∈ seen.map Arrived.piece
  whole : ∀ i, Complete cs all i → ∀ k, (i, k) ∈ seen.map Arrived.piece → (i, k) ∈ held
  tracks : ∀ i, (cs i).cut = true → Tracks cs held d.nft i
  opened : ∀ i fent, (cs i).cut = true → d.nft.find (cs i).key = some fent → Complete cs all i →
    ∃ earlier b between, seen = earlier ++ b :: between ∧ b.piece.1 = i ∧ fent.ts.sec = b.now.sec

/-- A container is as complete in what is held as in what was seen. -/
theorem Gathered.complete_iff (h : Gathered cs all seen held d)
    (hall : ∀ b ∈ seen.map Arrived.piece, b ∈ all) (i : Fin n) :
    Complete cs held i ↔ Complete cs (seen.map Arrived.piece) i := by
  constructor
  · intro hcomplete k hk
    exact h.wasSeen _ (hcomplete k hk)
  · intro hcomplete k hk
    exact h.whole i (fun j hj => hall _ (hcomplete j hj)) k (hcomplete k hk)

/-- One more piece, however it changes the node of its container. -/
theorem Gathered.attach (h : Gathered cs all seen held d) (hzb : d'.zb = z.inflateInit)
    (htracks : (cs a.piece.1).cut = true → Tracks cs (held ++ [a.piece]) d'.nft a.piece.1)
    (hothers : ∀ j, (cs j).cut = true → j ≠ a.piece.1 →
      d'.nft.find (cs j).key = d.nft.find (cs j).key)
    (hopened : ∀ fent', (cs a.piece.1).cut = true → d'.nft.find (cs a.piece.1).key = some fent' →
      (∃ fent, d.nft.find (cs a.piece.1).key = some fent ∧ fent'.ts = fent.ts) ∨
        fent'.ts = a.now) :
    Gathered cs all (seen ++ [a]) (held ++ [a.piece]) d' := by
  have hlater : ∀ i (fent : Frag), (∃ earlier b between, seen = earlier ++ b :: between ∧
      b.piece.1 = i ∧ fent.ts.sec = b.now.sec) → ∃ earlier b between,
        seen ++ [a] = earlier ++ b :: between ∧ b.piece.1 = i ∧ fent.ts.sec = b.now.sec := by
    rintro i fent ⟨earlier, b, between, rfl, hb, hts⟩
    exact ⟨earlier, b, between ++ [a], by simp, hb, hts⟩
  refine ⟨hzb, ?_, ?_, ?_, ?_⟩
  · intro b hb
    rw [List.map_append, List.mem_append]
    exact (List.mem_append.mp hb).imp (h.wasSeen b) id
  · intro i hi k hk
    rw [List.map_append, List.mem_append] at hk
    exact List.mem_append.mpr (hk.imp (h.whole i hi k) id)
  · intro i hcut
    by_cases hi : i = a.piece.1
    · subst hi
      exact htracks hcut
    · refine (h.tracks i hcut).congr (fun k => ?_) (hothers i hcut hi)
      exact mem_append_other (i := a.piece.1) (k := a.piece.2) hi k
  · intro i fent hcut hfind hi
    by_cases hia : i = a.piece.1
    · subst hia
      rcases hopened fent hcut hfind with ⟨fent₀, hfind₀, hts⟩ | hts
      · rw [hts]
        exact hlater _ fent₀ (h.opened _ fent₀ hcut hfind₀ hi)
      · exact ⟨seen, a, [], rfl, rfl, by rw [hts]⟩
    · rw [hothers i hcut hia] at hfind
      exact hlater _ fent (h.opened i fent hcut hfind hi)

/-- **Garbage collection.** Of the containers that will be whole no node is dropped if none of theirs
is thirty seconds old. -/
theorem Gathered.gc (h : Gathered cs all seen held d) (now lastgc : Timespec)
    (hfresh : ∀ i fent, (cs i).cut = true → d.nft.find (cs i).key = some fent →
      Complete cs all i → now.sec - fent.ts.sec < (fragGcInterval : Int)) :
    ∃ held', Gathered cs all seen held' (inputFragGc now lastgc d).2 := by
  classical
  obtain ⟨hzb, p, hp, hfind⟩ := inputFragGc_keeps now lastgc d
  generalize (inputFragGc now lastgc d).2 = d' at hzb hfind
  -- the containers whose node is dropped
  let dropped : Fin n → Prop := fun i =>
    (cs i).cut = true ∧ ∃ fent, d.nft.find (cs i).key = some fent ∧ p fent = false
  have hkept : ∀ i, ¬ dropped i →
      ∀ k, (i, k) ∈ held ↔ (i, k) ∈ held.filter fun b => ¬ dropped b.1 := by
    intro i hi k
    rw [List.mem_filter]
    simp [hi]
  have hgone : ∀ i, dropped i → ∀ k, (i, k) ∉ held.filter fun b => ¬ dropped b.1 := by
    intro i hi k hmem
    have := (List.mem_filter.mp hmem).2
    simp [hi] at this
  have hwhole : ∀ i, Complete cs all i → ¬ dropped i := by
    rintro i hi ⟨hcut, fent, hnode, hdrop⟩
    rw [hp fent (hfresh i fent hcut hnode hi)] at hdrop
    cases hdrop
  refine ⟨held.filter fun b => ¬ dropped b.1, hzb.trans h.zb, ?_, ?_, ?_, ?_⟩
  · exact fun b hb => h.wasSeen b (List.mem_of_mem_filter hb)
  · exact fun i hi k hk => (hkept i (hwhole i hi) k).mp (h.whole i hi k hk)
  · intro i hcut
    have htracks := h.tracks i hcut
    by_cases hi : dropped i
    · obtain ⟨-, fent, hnode, hdrop⟩ := hi
      have hnone : d'.nft.find (cs i).key = none := by
        rw [hfind, hnode, Option.filter_some, hdrop]
        rfl
      unfold Tracks
      rw [hnone]
      exact Or.inr (hgone i ⟨hcut, fent, hnode, hdrop⟩)
    · refine htracks.congr (hkept i hi) ?_
      rw [hfind]
      cases hnode : d.nft.find (cs i).key with
      | none => rfl
      | some fent =>
          have hstays : p fent = true := by
            by_contra hdrop
            exact hi ⟨hcut, fent, hnode, by simpa using hdrop⟩
          rw [Option.filter_some_pos hstays]
  · intro i fent hcut hnode hi
    rw [hfind, Option.filter_eq_some_iff] at hnode
    exact h.opened i fent hcut hnode.1 hi

/-- Between two datagrams of a container that will be whole, not too much time goes by. -/
def ArrivesInTime (cs : Fin n → FragmentedContainer) (all : List (Piece n))
    (seen : List (Arrived n)) : Prop :=
  ∀ i, Complete cs all i → ¬ Complete cs (seen.map Arrived.piece) i →
    ∀ earlier b between, seen = earlier ++ b :: between → b.piece.1 = i →
      ∀ x ∈ between, x.now.sec - b.now.sec < (fragGcInterval : Int)

/-- What a datagram carries is answered with its container if it completes it. -/
theorem inputNmsgUnpackContainer_arrives (hpb : pb.Lawful) (hz : z.Lawful)
    (hreadable : ∀ i, (cs i).Readable pb z) (hkeys : KeysApart cs) {env : CallEnv}
    (henv : env.Succeeds) (hd : Gathered cs all seen held d)
    (hk : a.piece.2 < (cs a.piece.1).pieces.length)
    (hincomplete : ¬ Complete cs (seen.map Arrived.piece) a.piece.1)
    (hall : ∀ b ∈ (seen ++ [a]).map Arrived.piece, b ∈ all) :
    ∃ d' : Decoder z, inputNmsgUnpackContainer pb env
        ⟨(cs a.piece.1).flags, a.now, (cs a.piece.1).addrSs⟩ d
        ((cs a.piece.1).packedPiece pb a.piece.2) =
          .ok ((outcome cs (seen.map Arrived.piece) a.piece).1,
            (outcome cs (seen.map Arrived.piece) a.piece).2, d') ∧
      Gathered cs all (seen ++ [a]) (held ++ [a.piece]) d' := by
  obtain ⟨now, i, k⟩ := a
  simp only at hk hincomplete ⊢
  have hseen : ∀ b ∈ seen.map Arrived.piece, b ∈ all := by
    intro b hb
    apply hall
    rw [List.map_append]
    exact List.mem_append_left _ hb
  cases hcut : (cs i).cut with
  | true =>
      have hbody : (cs i).packedPiece pb k = pb.packFragment ((cs i).fragment k) := by
        rw [FragmentedContainer.packedPiece, if_pos hcut]
      have hvalid := (hreadable i).valid hcut
      obtain ⟨d', hread, hzb, hattached⟩ := inputFragRead_attached now hz hvalid (hreadable i).few
        (hd.tracks i hcut) hk (mt (hd.complete_iff hseen i).mp hincomplete) henv hd.zb
        (hpb.unpackFragment_packFragment _)
      have hgathered : Gathered cs all (seen ++ [⟨now, i, k⟩]) (held ++ [(i, k)]) d' := by
        refine hd.attach hzb (fun _ => hattached.tracks) (fun j hj hne => ?_)
          fun fent' _ hfent' => ?_
        · exact hattached.others _ fun heq => hne (hkeys j i hj hcut heq)
        · exact (hattached.opened fent' hfent').imp id And.right
      have hsame : outcome cs held (i, k) = outcome cs (seen.map Arrived.piece) (i, k) := by
        have hiff := hgathered.complete_iff hall i
        rw [List.map_append] at hiff
        exact if_congr hiff rfl rfl
      refine ⟨d', ?_, hgathered⟩
      rw [inputNmsgUnpackContainer, if_pos hvalid.flagged, hbody, hread, hsame]
  | false =>
      have hone := (hreadable i).one hcut
      obtain rfl : k = 0 := by omega
      have hbody : (cs i).packedPiece pb 0 = (cs i).pieces.getD 0 [] := by
        rw [FragmentedContainer.packedPiece, if_neg (by simp [hcut])]
      have hcomplete : Complete cs (seen.map Arrived.piece ++ [(i, 0)]) i := by
        intro j hj
        obtain rfl : j = 0 := by omega
        exact List.mem_append_right _ (List.mem_singleton_self _)
      have hunpack := inputNmsgUnpackContainer_whole hz (hreadable i) hcut henv hd.zb now
      refine ⟨d, ?_, ?_⟩
      · simp only [outcome, if_pos hcomplete, hbody]
        exact hunpack
      · refine hd.attach hd.zb (fun h => ?_) (fun _ _ _ => rfl) fun _ h _ => ?_
        · exact absurd (hcut.symm.trans h) Bool.false_ne_true
        · exact absurd (hcut.symm.trans h) Bool.false_ne_true

/-- **One datagram.** -/
theorem inputNmsgReadContainerSock_arrives (hpb : pb.Lawful) (hz : z.Lawful)
    (hreadable : ∀ i, (cs i).Readable pb z) (hkeys : KeysApart cs) {s : SockInput z}
    {call : RecvCall} (hs : Gathered cs all seen held s.decoder) (hcall : call.Meets cs pb (some a))
    (hincomplete : ¬ Complete cs (seen.map Arrived.piece) a.piece.1)
    (hall : ∀ b ∈ (seen ++ [a]).map Arrived.piece, b ∈ all)
    (hintime : ArrivesInTime cs all (seen ++ [a])) :
    ∃ s' held', inputNmsgReadContainerSock pb s call =
        .ok (outcome cs (seen.map Arrived.piece) a.piece, s') ∧
      Gathered cs all (seen ++ [a]) held' s'.decoder := by
  obtain ⟨event, env⟩ := call
  obtain ⟨rfl, hk, henv⟩ := hcall
  obtain ⟨d', hunpack, hgathered⟩ :=
    inputNmsgUnpackContainer_arrives hpb hz hreadable hkeys henv hs hk hincomplete hall
  obtain ⟨s', hd', hnow, hread⟩ := inputNmsgReadContainerSock_datagram (s := s)
    ((hreadable a.piece.1).sized a.piece.2 hk) hunpack
  rw [← hd'] at hgathered
  have hfresh : ∀ i fent, (cs i).cut = true → s'.decoder.nft.find (cs i).key = some fent →
      Complete cs all i → s'.now.sec - fent.ts.sec < (fragGcInterval : Int) := by
    intro i fent hcut hnode hi
    -- a container with a node is not complete, so all datagrams since its first are in time
    have htracks := hgathered.tracks i hcut
    unfold Tracks at htracks
    rw [hnode] at htracks
    have hopen := mt (hgathered.complete_iff hall i).mpr htracks.2
    obtain ⟨earlier, b, between, hsplit, hb, hts⟩ := hgathered.opened i fent hcut hnode hi
    have hspan := hintime i hi hopen earlier b between hsplit hb
    have hlast : a ∈ b :: between := by
      have hget := congrArg List.getLast? hsplit
      rw [List.getLast?_concat,
        List.getLast?_append_of_ne_nil _ (List.cons_ne_nil b between)] at hget
      exact List.mem_of_getLast? hget.symm
    rw [hnow, hts]
    rcases List.mem_cons.mp hlast with rfl | hmem
    · rw [Int.sub_self]
      decide
    · exact hspan a hmem
  obtain ⟨held', hafter⟩ := hgathered.gc s'.now s'.lastgc hfresh
  exact ⟨sockGc s', held', hread, hafter⟩

end Gathered

/-! ### Runs -/

section Run

variable {pb : ProtobufC} {z : Zlib} {n : Nat} {cs : Fin n → FragmentedContainer}
  {held : List (Piece n)} {seen arrivals : List (Arrived n)} {events : List (Option (Arrived n))}

/-- The answers to events, behind the pieces seen. -/
def networkAnswers (cs : Fin n → FragmentedContainer) :
    List (Piece n) → List (Option (Arrived n)) → List (Res × Option ProtoNmsg)
  | _, [] => []
  | seen, none :: rest => (.again, none) :: networkAnswers cs seen rest
  | seen, some a :: rest => outcome cs seen a.piece :: networkAnswers cs (seen ++ [a.piece]) rest

/-- The time that goes by is bounded for the datagrams still to come. -/
theorem arrivesInTime_of_split (rest : List (Arrived n)) (hsplit : seen ++ rest = arrivals)
    (hintime : ∀ earlier a between b later, arrivals = earlier ++ a :: between ++ b :: later →
      a.piece.1 = b.piece.1 → Complete cs (arrivals.map Arrived.piece) a.piece.1 →
        ∀ x ∈ between, x.now.sec - a.now.sec < (fragGcInterval : Int)) :
    ArrivesInTime cs (arrivals.map Arrived.piece) seen := by
  intro i hi hopen earlier b between hseen hb x hx
  -- some piece of the container is still to come
  have hmissing : ∃ k, k < (cs i).pieces.length ∧ (i, k) ∉ seen.map Arrived.piece := by
    by_contra hnone
    push Not at hnone
    exact hopen hnone
  obtain ⟨k, hk, hunseen⟩ := hmissing
  have hmem := hi k hk
  rw [← hsplit, List.map_append, List.mem_append] at hmem
  obtain ⟨y, hy, hpiece⟩ := List.mem_map.mp (hmem.resolve_left hunseen)
  obtain ⟨front, back, rfl⟩ := List.append_of_mem hy
  refine hintime earlier b (between ++ front) y back ?_ ?_ ?_ x (List.mem_append_left _ hx)
  · rw [← hsplit, hseen]
    simp
  · rw [hb, hpiece]
  · rwa [hb]

/-- By induction on the events, of which those in `seen` are over. -/
theorem run_network (hpb : pb.Lawful) (hz : z.Lawful) (hreadable : ∀ i, (cs i).Readable pb z)
    (hkeys : KeysApart cs) (hbefore : BeforeCompletion cs [] (arrivals.map Arrived.piece))
    (hintime : ∀ earlier a between b later, arrivals = earlier ++ a :: between ++ b :: later →
      a.piece.1 = b.piece.1 → Complete cs (arrivals.map Arrived.piece) a.piece.1 →
        ∀ x ∈ between, x.now.sec - a.now.sec < (fragGcInterval : Int))
    {s : SockInput z} {calls : List RecvCall}
    (hcalls : List.Forall₂ (RecvCall.Meets cs pb) calls events)
    (hsplit : seen ++ events.reduceOption = arrivals)
    (hs : Gathered cs (arrivals.map Arrived.piece) seen held s.decoder) :
    ∃ s', StepRun.run (inputNmsgReadContainerSock pb) s calls =
      .ok (networkAnswers cs (seen.map Arrived.piece) events, s') := by
  induction hcalls generalizing seen held s with
  | nil => exact ⟨s, rfl⟩
  | @cons call event calls events hcall _ ih =>
      cases event with
      | none =>
          have hquiet : ∃ s₁, inputNmsgReadContainerSock pb s call = .ok ((.again, none), s₁) ∧
              s₁.decoder = s.decoder := by
            rcases hcall with hevent | ⟨now, hevent⟩
            · exact ⟨s, by simp only [inputNmsgReadContainerSock, hevent], rfl⟩
            · exact ⟨{ s with now := now }, by simp only [inputNmsgReadContainerSock, hevent], rfl⟩
          obtain ⟨s₁, hok, hdecoder⟩ := hquiet
          rw [List.reduceOption_cons_of_none] at hsplit
          obtain ⟨s', hrun⟩ := ih (s := s₁) hsplit (hdecoder ▸ hs)
          exact ⟨s', StepRun.run_cons_eq_ok.mpr ⟨_, s₁, _, hok, hrun, rfl⟩⟩
      | some a =>
          rw [List.reduceOption_cons_of_some] at hsplit
          have hnext : (seen ++ [a]) ++ events.reduceOption = arrivals := by
            rw [← hsplit, List.append_assoc, List.singleton_append]
          have hincomplete : ¬ Complete cs (seen.map Arrived.piece) a.piece.1 := by
            refine hbefore (seen.map Arrived.piece) a.piece (arrivedPieces events) ?_
            rw [← hsplit, List.map_append, List.map_cons]
            rfl
          have hall : ∀ b ∈ (seen ++ [a]).map Arrived.piece, b ∈ arrivals.map Arrived.piece := by
            intro b hb
            rw [← hnext, List.map_append]
            exact List.mem_append_left _ hb
          obtain ⟨s₁, held₁, hok, hs₁⟩ := inputNmsgReadContainerSock_arrives hpb hz hreadable hkeys
            hs hcall hincomplete hall (arrivesInTime_of_split _ hnext hintime)
          obtain ⟨s', hrun⟩ := ih hnext hs₁
          rw [List.map_append, List.map_singleton] at hrun
          exact ⟨s', StepRun.run_cons_eq_ok.mpr ⟨_, s₁, _, hok, hrun, rfl⟩⟩

theorem gathered_open (z : Zlib) (cs : Fin n → FragmentedContainer) (all : List (Piece n)) :
    Gathered cs all [] [] (SockInput.open z).decoder := by
  refine ⟨rfl, fun _ h => (List.not_mem_nil h).elim, fun _ _ _ h => (List.not_mem_nil h).elim,
    fun _ _ => Or.inr fun _ => List.not_mem_nil, fun _ _ _ h => ?_⟩
  cases h

/-- The loop of an input hands over what the calls on its socket answer with. -/
theorem inputNmsgLoop_sockFetch (crc32c : Bytes → UInt32) (filter : InputFilter)
    {s s' : SockInput z} {calls : List RecvCall} {answers : List (Res × Option ProtoNmsg)}
    (hrun : StepRun.run (inputNmsgReadContainerSock pb) s calls = .ok (answers, s'))
    (hanswers : ∀ answer ∈ answers,
      answer = (.again, none) ∨ ∃ nmsg, answer = (.success, some nmsg))
    {fuel : Nat} (hfuel : calls.length < fuel) (nmsg : Option ProtoNmsg) (idx : Nat) :
    inputNmsgLoop crc32c (sockFetch pb) fuel ⟨(s, calls), nmsg, idx, filter⟩ =
      .ok (.readFailure, answers.flatMap fun answer =>
        answer.2.elim [] fun nmsg => passing crc32c filter nmsg 0) := by
  induction calls generalizing s answers fuel nmsg with
  | nil =>
      obtain ⟨fuel, rfl⟩ := Nat.exists_eq_add_one.mpr (Nat.zero_lt_of_lt hfuel)
      cases hrun
      rfl
  | cons call calls ih =>
      obtain ⟨fuel, rfl⟩ := Nat.exists_eq_add_one.mpr (Nat.zero_lt_of_lt hfuel)
      obtain ⟨answer, s₁, rest, hok, hrest, rfl⟩ := StepRun.run_cons_eq_ok.mp hrun
      have hfetch : sockFetch pb (s, call :: calls) = .ok (answer, (s₁, calls)) := by
        rw [sockFetch, hok]
        rfl
      have hloop := fun nmsg => ih hrest (fun x hx => hanswers x (List.mem_cons_of_mem _ hx))
        (Nat.lt_of_succ_lt_succ hfuel) nmsg
      rcases hanswers answer List.mem_cons_self with rfl | ⟨container, rfl⟩
      · simp only [inputNmsgLoop, hfetch, if_true, hloop]
        rfl
      · simp only [inputNmsgLoop, hfetch, reduceCtorEq, if_false, ne_eq, not_true_eq_false,
          loopPayloads_eq crc32c filter (Nat.zero_add container.payloads.length), hloop]
        rfl

end Run

/-! ### Completions -/

section Completions

variable {n : Nat} {cs : Fin n → FragmentedContainer} {seen seen' arrivals : List (Piece n)}
  {i : Fin n}

theorem Complete.mono (h : Complete cs seen i) (hsub : ∀ b ∈ seen, b ∈ seen') :
    Complete cs seen' i := fun k hk => hsub _ (h k hk)

/-- A piece completes no container but its own. -/
theorem complete_append_other {a : Piece n} (hne : i ≠ a.1) :
    Complete cs (seen ++ [a]) i ↔ Complete cs seen i := by
  simp only [Complete, ← mem_append_other (k := a.2) hne]

/-- The containers that become complete are those that were not and then are. -/
theorem mem_completions (hbefore : BeforeCompletion cs seen arrivals) :
    i ∈ completions cs seen arrivals ↔
      ¬ Complete cs seen i ∧ Complete cs (seen ++ arrivals) i := by
  induction arrivals generalizing seen with
  | nil => simp [completions]
  | cons a rest ih =>
      have hrest := ih hbefore.tail
      rw [List.append_assoc, List.singleton_append] at hrest
      have hmono : Complete cs (seen ++ [a]) i → Complete cs (seen ++ a :: rest) i := by
        refine fun h => h.mono fun b hb => ?_
        simpa using (List.mem_append.mp hb).imp id fun h => Or.inl (List.mem_singleton.mp h)
      by_cases hi : i = a.1
      · subst hi
        have hhead := hbefore.head
        rw [completions]
        by_cases hcomplete : Complete cs (seen ++ [a]) a.1
        · simp only [if_pos hcomplete, List.mem_cons, true_or, true_iff]
          exact ⟨hhead, hmono hcomplete⟩
        · rw [if_neg hcomplete, hrest]
          simp [hhead, hcomplete]
      · have hsame : Complete cs (seen ++ [a]) i ↔ Complete cs seen i := complete_append_other hi
        rw [hsame] at hrest
        rw [completions, ← hrest]
        split
        · simp [hi]
        · rfl

/-- No container becomes complete twice. -/
theorem nodup_completions (hbefore : BeforeCompletion cs seen arrivals) :
    (completions cs seen arrivals).Nodup := by
  induction arrivals generalizing seen with
  | nil => exact List.nodup_nil
  | cons a rest ih =>
      rw [completions]
      split
      · rename_i hcomplete
        refine List.nodup_cons.mpr ⟨fun hmem => ?_, ih hbefore.tail⟩
        exact ((mem_completions hbefore.tail).mp hmem).1 hcomplete
      · exact ih hbefore.tail

theorem networkAnswers_cases (seen : List (Piece n)) (events : List (Option (Arrived n))) :
    ∀ answer ∈ networkAnswers cs seen events,
      answer = (.again, none) ∨ ∃ nmsg, answer = (.success, some nmsg) := by
  induction events generalizing seen with
  | nil => exact fun _ h => (List.not_mem_nil h).elim
  | cons event rest ih =>
      cases event with
      | none => exact List.forall_mem_cons.mpr ⟨Or.inl rfl, ih seen⟩
      | some a =>
          refine List.forall_mem_cons.mpr ⟨?_, ih _⟩
          unfold outcome
          split
          · exact Or.inr ⟨_, rfl⟩
          · exact Or.inl rfl

/-- What the answers hand over. -/
theorem flatMap_networkAnswers {α : Type*} (f : ProtoNmsg → List α) (seen : List (Piece n))
    (events : List (Option (Arrived n))) :
    (networkAnswers cs seen events).flatMap (fun answer => answer.2.elim [] f) =
      (completions cs seen (arrivedPieces events)).flatMap fun i => f (cs i).nmsg := by
  induction events generalizing seen with
  | nil => rfl
  | cons event rest ih =>
      cases event with
      | none =>
          rw [networkAnswers, List.flatMap_cons, ih]
          rfl
      | some a =>
          have hpieces : arrivedPieces (some a :: rest) = a.piece :: arrivedPieces rest := by
            rw [arrivedPieces, List.reduceOption_cons_of_some]
            rfl
          rw [networkAnswers, List.flatMap_cons, ih, hpieces, completions, outcome]
          split
          · rfl
          · rfl

end Completions

end Nmsg

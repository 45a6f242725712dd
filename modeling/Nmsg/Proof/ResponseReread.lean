import Nmsg.Proof.StoreMarks

/-!
# A datagram that is put together again

The fragments of a complete entry are in order. Read again in that order they complete a new entry
when one of them is marked as the last, and what is put together from it is the datagram.
-/

namespace Nmsg

open ReasmFrag Tiling StepRun Memory

/-- The fragment with the packet it is read from again. -/
def BaseFrag.withPacket (f : BaseFrag) (pkt : Bytes) : BaseFrag := { f with data := pkt }

/-- The stored packets of fragments, but for what is hidden. -/
def Veiled (net : ProtoNetwork) : List BaseFrag → List Bytes → Prop :=
  List.Forall₂ fun f pkt => EqOff (Hidden net) f.data pkt

/-! ### The order of the fragments -/

section Order

variable {frags : List BaseFrag} {pkts : List Bytes} {a b : Nat} {net : ProtoNetwork}

theorem Veiled.tiles (h : Veiled net frags pkts) :
    ∀ {a : Nat}, Tiles offset fragEnd a frags b →
      Tiles offset fragEnd a (List.zipWith BaseFrag.withPacket frags pkts) b := by
  induction h with
  | nil => exact fun h => h
  | cons _ _ ih => exact fun h => ⟨h.1, h.2.1, ih h.2.2⟩

theorem exists_of_mem_zipWith {g : BaseFrag} :
    ∀ {frags : List BaseFrag} {pkts : List Bytes},
      g ∈ List.zipWith BaseFrag.withPacket frags pkts → ∃ f ∈ frags, ∃ pkt, g = f.withPacket pkt
  | [], _, h => by simp at h
  | _ :: _, [], h => by simp at h
  | f :: frags, pkt :: pkts, h => by
      rw [List.zipWith_cons_cons, List.mem_cons] at h
      rcases h with rfl | h
      · exact ⟨f, List.mem_cons_self .., pkt, rfl⟩
      · obtain ⟨f', hf', hg⟩ := exists_of_mem_zipWith h
        exact ⟨f', List.mem_cons_of_mem _ hf', hg⟩

/-- In a tiling only one piece ends where it does. -/
theorem eq_of_fragEnd {f g : BaseFrag} (h : Tiles offset fragEnd a frags b) (hf : f ∈ frags)
    (hg : g ∈ frags) (hfb : fragEnd f = b) (hgb : fragEnd g = b) : f = g := by
  induction frags generalizing a with
  | nil => cases hf
  | cons s rest ih =>
      obtain ⟨hlo, hlt, hrest⟩ := h
      have hnot : ∀ t ∈ rest, fragEnd s ≠ b := by
        intro t ht hs
        have := hrest.apart.mem ht
        omega
      rcases List.mem_cons.mp hf with rfl | hf'
      · rcases List.mem_cons.mp hg with rfl | hg'
        · rfl
        · exact absurd hfb (hnot g hg')
      · rcases List.mem_cons.mp hg with rfl | hg'
        · exact absurd hgb (hnot f hf')
        · exact ih hrest hf' hg'

end Order

section Entry

variable {e : ReasmIpEntry BaseFrag} {f : BaseFrag} {lastFrag : Bool}

/-- One of the fragments is marked as the last. -/
def HasLast (e : ReasmIpEntry BaseFrag) : Prop := ∃ f ∈ e.frags, ParsedFrom e.id f true

theorem FiledEntry.kept (h : FiledEntry e) (hsound : AllSound e) (hf : f ∈ e.frags) :
    KeptFrag e.id f := by
  obtain ⟨last, hlast⟩ := h.stores f hf
  exact hlast.kept.2 (hsound f hf).2

theorem FiledEntry.complete (h : FiledEntry e) (hsound : AllSound e) (hne : e.frags ≠ []) :
    CompleteEntry e :=
  ⟨hne, fun _ hf => h.kept hsound hf, h.tiles hsound⟩

/-- With a fragment marked as the last, just the one that ends the packet is marked. -/
theorem FiledEntry.last_iff (h : FiledEntry e) (hsound : AllSound e) (hhas : HasLast e)
    (hf : f ∈ e.frags) (hparsed : ParsedFrom e.id f lastFrag) :
    lastFrag = decide (fragEnd f = e.len) := by
  obtain ⟨g, hg, hlast⟩ := hhas
  have hgend := (h.marked hsound g hg true hlast).1 rfl
  by_cases hfend : fragEnd f = e.len
  · obtain rfl := eq_of_fragEnd (h.tiles hsound) hf hg hfend hgend
    rw [decide_eq_true hfend]
    exact hparsed.unique hlast (hsound _ hf)
  · rw [decide_eq_false hfend]
    exact Bool.of_not_eq_true fun htrue => hfend ((h.marked hsound f hf _ hparsed).1 htrue)

theorem FiledEntry.fragsOf (h : FiledEntry e) (hsound : AllSound e) (hne : e.frags ≠ [])
    {pkts : List Bytes} (hpkts : Veiled e.id.protoNetwork e.frags pkts) :
    FragsOf e.len (List.zipWith BaseFrag.withPacket e.frags pkts) := by
  have hlen := (h.complete hsound hne).len_bounds
  refine ⟨hpkts.tiles (h.tiles hsound), ?_, by omega, ?_⟩
  · intro hnil
    rw [List.zipWith_eq_nil_iff] at hnil
    rcases hnil with hnil | hnil
    · exact hne hnil
    · have := hpkts.length_eq
      rw [hnil, List.length_nil, List.length_eq_zero_iff] at this
      exact hne this
  · intro g hg hend
    obtain ⟨f, hf, pkt, rfl⟩ := exists_of_mem_zipWith hg
    obtain ⟨last, hlast⟩ := h.stores f hf
    obtain ⟨hends, height⟩ := h.marked hsound f hf last hlast
    apply height
    exact Bool.of_not_eq_true fun htrue => hend (hends htrue)

/-! ### The loop -/

/-- Each packet is read as its fragment, with the mark that it has when the datagram ends at
`total`. -/
def ReadsAs (net : ProtoNetwork) (total : Nat) : List BaseFrag → List Bytes → Prop :=
  List.Forall₂ fun g pkt => ∃ id', id'.protoNetwork = net ∧
    reasmParsePacket pkt (toUnsigned pkt.length) g.ts =
      .ok (some ⟨g, id', decide (fragEnd g = total)⟩)

theorem FiledEntry.readsAs (h : FiledEntry e) (hsound : AllSound e) (hhas : HasLast e)
    {pkts : List Bytes} (hpkts : Veiled e.id.protoNetwork e.frags pkts) :
    ReadsAs e.id.protoNetwork e.len (List.zipWith BaseFrag.withPacket e.frags pkts) pkts := by
  have hone : ∀ f ∈ e.frags, ∀ pkt, EqOff (Hidden e.id.protoNetwork) f.data pkt →
      ∃ id', id'.protoNetwork = e.id.protoNetwork ∧
        reasmParsePacket pkt (toUnsigned pkt.length) f.ts =
          .ok (some ⟨f.withPacket pkt, id', decide (fragEnd f = e.len)⟩) := by
    intro f hf pkt hpkt
    obtain ⟨last, hlast⟩ := h.stores f hf
    obtain ⟨id', hid', hparse⟩ := hlast.reread (hsound f hf) hpkt f.ts
    rw [h.last_iff hsound hhas hf hlast] at hparse
    exact ⟨id', hid', hparse⟩
  revert hone
  generalize e.id.protoNetwork = net at hpkts
  generalize e.frags = frags at hpkts
  intro hone
  induction hpkts with
  | nil => exact List.Forall₂.nil
  | cons hpkt _ ih =>
      rw [List.forall_mem_cons] at hone
      exact List.Forall₂.cons (hone.1 _ hpkt) (ih hone.2)

variable {total : Nat} {all : List BaseFrag} {net : ProtoNetwork}

/-- **The loop puts the fragments in**, one behind the other. -/
theorem rereadFragments_received (hall : FragsOf total all) {rest : List BaseFrag}
    {pkts : List Bytes} (hreads : ReadsAs net total rest pkts) :
    ∀ {p : BaseFrag → Bool} {e : ReasmIpEntry BaseFrag}, Received total all p e →
      rest.Sublist all → (∀ g ∈ rest, p g = false) →
      ∃ e' p', rereadFragments e pkts (rest.map fun g => g.ts.sec) (rest.map fun g => g.ts.nsec) =
          .ok (some e') ∧ Received total all p' e' ∧ (∀ g, p g = true → p' g = true) ∧
        (∀ g ∈ rest, p' g = true) ∧ (rest ≠ [] → e'.id.protoNetwork = net) := by
  induction hreads with
  | nil =>
      intro p e hreceived _ _
      exact ⟨e, p, rfl, hreceived, fun _ h => h, nofun, fun h => absurd rfl h⟩
  | @cons g pkt rest pkts hread hreads ih =>
      intro p e hreceived hsub hnew
      obtain ⟨id', hid', hparse⟩ := hread
      have hnamed : Received total all p { e with id := id' } :=
        ⟨hreceived.active, hreceived.frags, hreceived.len, hreceived.holes⟩
      have hg : g ∈ all := hsub.subset (List.mem_cons_self ..)
      obtain ⟨e₁, hadd, hreceived₁, heid, -, -⟩ :=
        reasmAddFragment_received hall hnamed hg (hnew g (List.mem_cons_self ..))
      have hapart := (hall.tiles.apart.sublist hsub).2.2
      have hnew₁ : ∀ g' ∈ rest, withFrag p g g' = false := by
        intro g' hg'
        have := hapart.mem hg'
        have hlt := (hall.tiles.apart.mem hg).2.1
        rw [withFrag, hnew g' (List.mem_cons_of_mem _ hg'), decide_eq_false (by omega),
          Bool.or_false]
      obtain ⟨e', p', hrest, hreceived', hold, hthese, hnet⟩ :=
        ih hreceived₁ ((List.sublist_cons_self g rest).trans hsub) hnew₁
      refine ⟨e', p', ?_, hreceived', fun g' hg' => hold g' ?_, ?_, fun _ => ?_⟩
      · rw [List.map_cons, List.map_cons, rereadFragments]
        simp only [hparse, hadd, bind, Except.bind]
        exact hrest
      · rw [withFrag, hg', Bool.true_or]
      · rw [List.forall_mem_cons]
        refine ⟨hold g ?_, hthese⟩
        rw [withFrag, decide_eq_true rfl, Bool.or_true]
      · by_cases hnil : rest = []
        · subst hnil
          cases hreads
          cases hrest
          rw [heid]
          exact hid'
        · exact hnet hnil

/-- While no fragment is marked as the last the entry is not complete. -/
theorem rereadFragments_unknown {frags : List BaseFrag} {pkts : List Bytes} {id : ReasmId}
    (hpkts : Veiled id.protoNetwork frags pkts) :
    ∀ {e : ReasmIpEntry BaseFrag}, Counting e → e.len = 0 → reasmIsComplete e = false →
      (∀ f ∈ frags, f.Sound ∧ ParsedFrom id f false) →
      ∃ r, rereadFragments e pkts (frags.map fun f => f.ts.sec) (frags.map fun f => f.ts.nsec) =
          .ok r ∧ ∀ e', r = some e' → reasmIsComplete e' = false := by
  induction hpkts with
  | nil =>
      intro e _ _ hopen _
      refine ⟨some e, rfl, ?_⟩
      rintro _ ⟨⟩
      exact hopen
  | @cons f pkt frags pkts hpkt _ ih =>
      intro e hcounting hzero hopen hfrags
      rw [List.forall_mem_cons] at hfrags
      obtain ⟨⟨hsound, hparsed⟩, hrest⟩ := hfrags
      obtain ⟨id', hid', hparse⟩ := hparsed.reread hsound hpkt f.ts
      rw [List.map_cons, List.map_cons, rereadFragments]
      simp only [hparse, bind, Except.bind]
      cases hadd : reasmAddFragment { e with id := id' } (f.withPacket pkt) false with
      | mk accepted e₁ =>
      unfold BaseFrag.withPacket at hadd
      rw [hadd]
      cases accepted with
      | false => exact ⟨none, rfl, nofun⟩
      | true =>
          have hnamed : Counting { e with id := id' } :=
            ⟨hcounting.apart, hcounting.unknown, hcounting.known, hcounting.width⟩
          have hok := acceptFragment_of_add hadd
          have hwidth : fragEnd (f.withPacket pkt) < 4294967296 := (hparsed.kept.2 hsound.2).width
          obtain ⟨hcomplete, hcount⟩ := acceptFragment_resolved hnamed hwidth hok
          have hlen : e₁.len = 0 := by
            obtain ⟨-, -, fitLeft, fitRight, -, rfl⟩ := acceptFragment_ok hok
            exact (insertFrag_end hwidth).trans hzero
          have hopen₁ : reasmIsComplete e₁ = false := by
            apply Bool.of_not_eq_true
            intro hdone
            obtain ⟨htiles, hnil⟩ := hcomplete hdone
            rw [hlen] at htiles
            have hnone : e₁.frags = [] := apart_total htiles.apart
            cases (hnil hnone).2.2
          exact ih (hcount hopen₁) hlen hopen₁ hrest

end Entry

/-! ### Putting together -/

section Assemble

variable {S : Nat → Prop} {m m' src src' b : Bytes} {i n total : Nat} {net : ProtoNetwork}
  {frags : List BaseFrag} {pkts : List Bytes} {id id' : ReasmId}

theorem copyAt_eqOff (h : EqOff S m m') (hok : copyAt m 0 n = .ok b) :
    ∃ b', copyAt m' 0 n = .ok b' ∧ EqOff S b b' := by
  obtain ⟨rfl, hle⟩ := copyAt_eq_take hok
  refine ⟨m'.take n, ?_, h.take n⟩
  have hread : read m' 0 n = some ((m'.drop 0).take n) := read_of_le (by rw [h.length]; omega)
  simp only [copyAt, hread, List.drop_zero]

theorem writeAt_eqOff (h : EqOff S m m') (hlen : src'.length = src.length)
    (hsrc : ∀ j, ¬ S (i + j) → src'[j]? = src[j]?) (hok : writeAt m i src = .ok b) :
    ∃ b', writeAt m' i src' = .ok b' ∧ EqOff S b b' := by
  obtain ⟨b', hb', heq⟩ := h.write hlen hsrc (writeAt_eq_ok.mp hok)
  exact ⟨b', writeAt_eq_ok.mpr hb', heq⟩

/-- The payload of a fragment lies behind what is hidden. -/
theorem KeptFrag.visible {f : BaseFrag} (h : KeptFrag id f) (hsound : f.Sound) :
    ∀ k, f.dataOffset ≤ k → ¬ Hidden id.protoNetwork k := by
  intro k hk
  cases id with
  | ipv4 src dst ident proto =>
      have := hsound.1
      rintro (hin | hin) <;> omega
  | ipv6 src dst ident =>
      have := (h.ipv6 _ _ _ rfl).1
      rintro ⟨-, hin⟩
      omega

theorem joinFragments_veiled (offset0 : Nat) (hpkts : Veiled net frags pkts) :
    ∀ {m m' out : Bytes}, (∀ f ∈ frags, ∀ k, f.dataOffset ≤ k → ¬ Hidden net k) →
      EqOff (Hidden net) m m' → joinFragments m offset0 frags = .ok out →
      ∃ out', joinFragments m' offset0 (List.zipWith BaseFrag.withPacket frags pkts) = .ok out' ∧
        EqOff (Hidden net) out out' := by
  induction hpkts with
  | nil =>
      intro m m' out _ h hok
      cases hok
      exact ⟨m', rfl, h⟩
  | @cons f pkt frags pkts hpkt _ ih =>
      intro m m' out hvisible h hok
      rw [List.forall_mem_cons] at hvisible
      rw [joinFragments] at hok
      obtain ⟨src, hsrc, hok⟩ := Outcome.bind_eq_ok.mp hok
      obtain ⟨buf, hbuf, hok⟩ := Outcome.bind_eq_ok.mp hok
      have hsrc' : copyAt pkt f.dataOffset f.len = .ok src := by
        rw [copyAt, hpkt.read fun k hk _ => hvisible.1 k hk]
        exact hsrc
      obtain ⟨buf', hbuf', heq⟩ := writeAt_eqOff h rfl (fun _ _ => rfl) hbuf
      obtain ⟨out', hout', heq'⟩ := ih hvisible.2 heq hok
      refine ⟨out', ?_, heq'⟩
      rw [List.zipWith_cons_cons, joinFragments]
      exact Outcome.bind_eq_ok.mpr ⟨src, hsrc', Outcome.bind_eq_ok.mpr ⟨buf', hbuf', hout'⟩⟩

theorem headerSum_of_length {sum : Nat} (hlen : m'.length = m.length) :
    ∀ {n i : Nat}, headerSum m n i = .ok sum → ∃ sum', headerSum m' n i = .ok sum' := by
  intro n
  induction n generalizing sum with
  | zero => exact fun _ => ⟨0, rfl⟩
  | succ n ih =>
      intro i h
      rw [headerSum] at h
      obtain ⟨cur, hcur, h⟩ := Outcome.bind_eq_ok.mp h
      obtain ⟨rest, hrest, -⟩ := Outcome.bind_eq_ok.mp h
      obtain ⟨rest', hrest'⟩ := ih hrest
      have hroom : i + 2 ≤ m.length := loadNet16_le hcur
      have hroom' : i + 2 ≤ m'.length := by omega
      obtain ⟨cur', hcur'⟩ := loadNet16_ok hroom'
      exact ⟨cur' + rest', Outcome.bind_eq_ok.mpr
        ⟨cur', hcur', Outcome.bind_eq_ok.mpr ⟨rest', hrest', rfl⟩⟩⟩

/-- The header of IPv4 is finished alike, but for its checksum. -/
theorem finishIpv4_veiled (h : EqOff (Hidden .inet) m m') (hok : finishIpv4 m total = .ok b) :
    ∃ b', finishIpv4 m' total = .ok b' ∧ EqOff (Hidden .inet) b b' := by
  unfold finishIpv4 at hok
  obtain ⟨first, hfirst, hok⟩ := Outcome.bind_eq_ok.mp hok
  obtain ⟨b₁, h₁, hok⟩ := Outcome.bind_eq_ok.mp hok
  obtain ⟨b₂, h₂, hok⟩ := Outcome.bind_eq_ok.mp hok
  obtain ⟨b₃, h₃, hok⟩ := Outcome.bind_eq_ok.mp hok
  obtain ⟨sum, hsum, hok⟩ := Outcome.bind_eq_ok.mp hok
  have hzero : ¬ Hidden .inet 0 := by
    rintro (hin | hin) <;> omega
  have hfirst' : octetAt m' 0 = .ok first := (octetAt_congr (h.getElem? 0 hzero)).trans hfirst
  obtain ⟨b₁', h₁', heq₁⟩ := writeAt_eqOff h rfl (fun _ _ => rfl) h₁
  obtain ⟨b₂', h₂', heq₂⟩ := writeAt_eqOff heq₁ rfl (fun _ _ => rfl) h₂
  obtain ⟨b₃', h₃', heq₃⟩ := writeAt_eqOff heq₂ rfl (fun _ _ => rfl) h₃
  obtain ⟨sum', hsum'⟩ := headerSum_of_length heq₃.length hsum
  -- the checksum is hidden
  have hhidden : ∀ (x x' : Nat) (j : Nat), ¬ Hidden .inet (10 + j) →
      (Octets.beBytes 2 x')[j]? = (Octets.beBytes 2 x)[j]? := by
    intro x x' j hj
    have hbehind : 2 ≤ j := by
      by_contra hlt
      exact hj (Or.inl (by omega))
    rw [List.getElem?_eq_none (by simpa using hbehind),
      List.getElem?_eq_none (by simpa using hbehind)]
  obtain ⟨b', hb', heq⟩ := writeAt_eqOff heq₃ (by simp)
    (hhidden _ (65535 - foldCarries sum' sum')) hok
  refine ⟨b', ?_, heq⟩
  exact Outcome.bind_eq_ok.mpr ⟨first, hfirst', Outcome.bind_eq_ok.mpr ⟨b₁', h₁',
    Outcome.bind_eq_ok.mpr ⟨b₂', h₂', Outcome.bind_eq_ok.mpr ⟨b₃', h₃',
      Outcome.bind_eq_ok.mpr ⟨sum', hsum', hb'⟩⟩⟩⟩⟩

theorem restoreNxt_veiled (hid : id'.protoNetwork = id.protoNetwork)
    (h : EqOff (Hidden id.protoNetwork) m m') (f : BaseFrag) (pkt : Bytes)
    (hok : restoreNxt id f m = .ok b) :
    ∃ b', restoreNxt id' (f.withPacket pkt) m' = .ok b' ∧ EqOff (Hidden id.protoNetwork) b b' := by
  cases id <;> cases id' <;> cases hid
  · cases hok
    exact ⟨m', rfl, h⟩
  · exact writeAt_eqOff h rfl (fun _ _ => rfl) hok

theorem finishHeader_veiled (hid : id'.protoNetwork = id.protoNetwork)
    (h : EqOff (Hidden id.protoNetwork) m m') (hok : finishHeader id m total = .ok b) :
    ∃ b', finishHeader id' m' total = .ok b' ∧ EqOff (Hidden id.protoNetwork) b b' := by
  cases id <;> cases id' <;> cases hid
  · exact finishIpv4_veiled h hok
  · exact writeAt_eqOff h rfl (fun _ _ => rfl) hok

/-- **The datagram is put together alike.** -/
theorem reasmAssemble_veiled {e e' : ReasmIpEntry BaseFrag} {out : Bytes}
    (hid : e'.id.protoNetwork = e.id.protoNetwork)
    (hfrags : e'.frags = List.zipWith BaseFrag.withPacket e.frags pkts) (hlen : e'.len = e.len)
    (hpkts : Veiled e.id.protoNetwork e.frags pkts)
    (hvisible : ∀ f ∈ e.frags, ∀ k, f.dataOffset ≤ k → ¬ Hidden e.id.protoNetwork k)
    (hok : reasmAssemble e n = .ok out) :
    ∃ out', reasmAssemble e' n = .ok out' ∧ EqOff (Hidden e.id.protoNetwork) out out' := by
  cases hlist : e.frags with
  | nil =>
      unfold reasmAssemble at hok
      rw [hlist] at hok
      cases hok
  | cons first rest =>
      have hpkts₀ := hpkts
      rw [hlist] at hpkts₀
      cases hpkts₀ with
      | @cons _ pkt _ pkts hpkt hpkts₁ =>
      have hhead : headerLen e'.id first.dataOffset = headerLen e.id first.dataOffset := by
        generalize e.id = id at *
        generalize e'.id = id' at *
        cases id <;> cases id' <;> cases hid <;> rfl
      rw [hlist, List.zipWith_cons_cons] at hfrags
      unfold reasmAssemble at hok ⊢
      rw [hlist] at hok
      rw [hfrags]
      have hoffset : (first.withPacket pkt).dataOffset = first.dataOffset := rfl
      dsimp only at hok ⊢
      rw [hoffset, hhead, hlen]
      split at hok
      · next hlong =>
          rw [if_pos hlong]
          cases hok
          exact ⟨[], rfl, EqOff.refl _ _⟩
      · next hfits =>
          rw [if_neg hfits]
          obtain ⟨header, hheader, hok⟩ := Outcome.bind_eq_ok.mp hok
          obtain ⟨b₁, h₁, hok⟩ := Outcome.bind_eq_ok.mp hok
          obtain ⟨b₂, h₂, hok⟩ := Outcome.bind_eq_ok.mp hok
          obtain ⟨b₃, h₃, hok⟩ := Outcome.bind_eq_ok.mp hok
          obtain ⟨b₄, h₄, hok⟩ := Outcome.bind_eq_ok.mp hok
          cases hok
          obtain ⟨header', hheader', heq⟩ := copyAt_eqOff hpkt hheader
          obtain ⟨b₁', h₁', heq₁⟩ := writeAt_eqOff (EqOff.refl _ _) heq.length
            (fun j hj => heq.getElem? j (by rwa [Nat.zero_add] at hj)) h₁
          obtain ⟨b₂', h₂', heq₂⟩ := restoreNxt_veiled hid heq₁ first pkt h₂
          have hjoin := joinFragments_veiled (headerLen e.id first.dataOffset)
            (List.Forall₂.cons hpkt hpkts₁) (hlist ▸ hvisible) heq₂ h₃
          obtain ⟨b₃', h₃', heq₃⟩ := hjoin
          obtain ⟨b₄', h₄', heq₄⟩ := finishHeader_veiled hid heq₃ h₄
          refine ⟨_, ?_, heq₄.take _⟩
          exact Outcome.bind_eq_ok.mpr ⟨header', hheader', Outcome.bind_eq_ok.mpr ⟨b₁', h₁',
            Outcome.bind_eq_ok.mpr ⟨b₂', h₂', Outcome.bind_eq_ok.mpr ⟨b₃', h₃',
              Outcome.bind_eq_ok.mpr ⟨b₄', h₄', rfl⟩⟩⟩⟩⟩

end Assemble

end Nmsg

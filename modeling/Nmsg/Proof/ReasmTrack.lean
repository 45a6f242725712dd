import Nmsg.Ipreasm.Split
import Nmsg.Proof.FragParse
import Nmsg.Proof.HoleCount
import Nmsg.Proof.StoreOrder

/-!
# A datagram in the store

While its fragments come in, in any order and among others, the store holds one entry for a datagram,
and the entry has received just the fragments that came. It is handed out with the last of them.
-/

namespace Nmsg

open ReasmFrag Tiling StepRun

/-! ### The fragments of a split -/

/-- What is kept of a fragment. -/
def TimedFrag.frag (f : TimedFrag) : BaseFrag := f.packet.baseFrag f.timestamp

theorem offset_frag (f : TimedFrag) : offset f.frag = f.packet.part.offset := by
  obtain ⟨packet, timestamp⟩ := f
  cases packet <;> rfl

theorem len_frag (f : TimedFrag) : len f.frag = f.packet.part.octets.length := by
  obtain ⟨packet, timestamp⟩ := f
  cases packet <;> rfl

theorem lastFrag_eq (f : FragPacket) : f.lastFrag = !f.part.more := by
  cases f <;> rfl

theorem fragEnd_frag (f : TimedFrag) :
    fragEnd f.frag = f.packet.part.offset + f.packet.part.octets.length := by
  rw [fragEnd, offset_frag, len_frag]

theorem tiles_of_cut {parts : List Bytes} (hne : ∀ b ∈ parts, b ≠ []) :
    ∀ {frames : List TimedFrag} {start : Nat},
      (frames.map fun f => f.packet.part) = cut start parts →
      Tiles offset fragEnd start (frames.map TimedFrag.frag) (start + parts.flatten.length) := by
  induction parts with
  | nil =>
      intro frames start h
      rw [cut, List.map_eq_nil_iff] at h
      rw [h]
      exact (Nat.add_zero start).symm
  | cons b rest ih =>
      intro frames start h
      rw [List.forall_mem_cons] at hne
      have hpos := List.length_pos_iff.mpr hne.1
      cases frames with
      | nil => cases h
      | cons f frames =>
          rw [List.map_cons, cut, List.cons.injEq] at h
          have hend : fragEnd f.frag = start + b.length := by rw [fragEnd_frag, h.1]
          refine ⟨by rw [offset_frag, h.1], by rw [offset_frag, h.1, hend]; dsimp only; omega, ?_⟩
          rw [List.flatten_cons, List.length_append, ← Nat.add_assoc, hend]
          exact ih hne.2 h.2

section Split

variable {d : IpDatagram} {frames : List TimedFrag} {f : TimedFrag}

theorem IpDatagram.payload_lt (d : IpDatagram) : d.payload.length < 65536 := by
  cases d with
  | ipv4 d =>
      have := d.total_lt
      simp only [payload]
      omega
  | ipv6 d ident =>
      have := d.plen_lt
      simp only [payload]
      omega

/-- The fragments of a split tile the payload, in order. -/
theorem IpDatagram.SplitInto.fragsOf (h : d.SplitInto (frames.map TimedFrag.packet)) :
    FragsOf d.payload.length (frames.map TimedFrag.frag) := by
  obtain ⟨parts, hflatten, hallowed, hne, hcut⟩ := h.parts
  rw [List.map_map] at hcut
  have htiles := tiles_of_cut hallowed.nonempty hcut
  rw [Nat.zero_add, hflatten] at htiles
  refine ⟨htiles, ?_, Nat.lt_trans d.payload_lt (by decide), ?_⟩
  · intro hnil
    rw [List.map_eq_nil_iff] at hnil
    rw [hnil] at hcut
    cases parts with
    | nil => exact hne rfl
    | cons b rest => cases hcut
  · intro g hg hend
    obtain ⟨f, hf, rfl⟩ := List.mem_map.mp hg
    have hq : f.packet.part ∈ cut 0 parts := hcut ▸ List.mem_map_of_mem hf
    have hlast := end_of_mem_cut hallowed.nonempty hq
    rw [Nat.zero_add, hflatten, ← fragEnd_frag] at hlast
    rw [len_frag]
    apply eight_of_mem_cut hallowed.eight hq
    exact Bool.of_not_eq_false fun hmore => hend (hlast.mp hmore)

/-- The last fragment is the one that ends where the payload does. -/
theorem IpDatagram.SplitInto.lastFrag (h : d.SplitInto (frames.map TimedFrag.packet))
    (hf : f ∈ frames) :
    f.packet.lastFrag = decide (fragEnd f.frag = d.payload.length) := by
  obtain ⟨parts, hflatten, hallowed, -, hcut⟩ := h.parts
  rw [List.map_map] at hcut
  have hq : f.packet.part ∈ cut 0 parts := hcut ▸ List.mem_map_of_mem hf
  have hlast := end_of_mem_cut hallowed.nonempty hq
  rw [Nat.zero_add, hflatten, ← fragEnd_frag] at hlast
  rw [lastFrag_eq]
  by_cases hend : fragEnd f.frag = d.payload.length
  · rw [hlast.mpr hend, decide_eq_true hend]
    rfl
  · rw [decide_eq_false hend, Bool.of_not_eq_false fun hmore => hend (hlast.mp hmore)]
    rfl

end Split

/-! ### What a call leaves alone -/

section Frame

variable {F : Type} {s : ReasmIp F} {k k' : Nat}

/-- An entry that has not expired stays. -/
theorem processTimeouts_keeps (h : WellLinked s) {now : Int} (hk : k ∈ s.time)
    (hcurrent : now ≤ (s.entry k).timeout) : k ∈ (processTimeouts s now).time := by
  generalize htime : s.time = time at hk
  induction time generalizing s with
  | nil => cases hk
  | cons j rest ih =>
      have hj : j ∈ s.time := htime ▸ List.mem_cons_self ..
      by_cases hexpired : (s.entry j).timeout < now
      · rw [processTimeouts_expired htime hexpired]
        have hne : k ≠ j := by
          rintro rfl
          omega
        have hlinked : WellLinked { removeEntry s j with timedOut := s.timedOut + 1 } :=
          (removeEntry_linked h hj).congr rfl rfl rfl rfl rfl
        have hrest : (removeEntry s j).time = rest := by
          rw [removeEntry, htime, List.erase_cons_head]
        exact ih hlinked hcurrent hrest ((List.mem_cons.mp hk).resolve_left hne)
      · rw [processTimeouts_kept (by simpa [htime] using not_lt.mp hexpired), htime]
        exact hk

/-- The entry of a datagram is found. -/
theorem findEntry_eq (h : WellLinked s) (hk : k ∈ s.time) :
    findEntry s (s.entry k).id (bucketOf (s.entry k).id) = some k := by
  have hchain : k ∈ s.table (bucketOf (s.entry k).id) :=
    (h.linked _ k).mpr ⟨hk, h.hashed k hk⟩
  cases hfind : findEntry s (s.entry k).id (bucketOf (s.entry k).id) with
  | none => exact absurd rfl (findEntry_none h hfind k hk)
  | some j =>
      have hid : (s.entry j).id = (s.entry k).id := by
        simpa using List.find?_some hfind
      rw [h.distinct j (findEntry_some h hfind) k hk hid]

theorem getEntry_of_stored (h : WellLinked s) (hk : k ∈ s.time) (timestamp : Int) :
    getEntry s (s.entry k).id timestamp = (k, s) := by
  have hfind := findEntry_eq h hk
  unfold bucketOf at hfind
  simp only [getEntry, hfind]

theorem getEntry_of_new {id : ReasmId} (h : ∀ k ∈ s.time, (s.entry k).id ≠ id) (hs : WellLinked s)
    (timestamp : Int) :
    getEntry s id timestamp = (s.fresh, newEntry s id (bucketOf id) timestamp) := by
  have hfind : findEntry s id (bucketOf id) = none := by
    cases hfind : findEntry s id (bucketOf id) with
    | none => rfl
    | some j =>
        have hid : (s.entry j).id = id := by simpa using List.find?_some hfind
        exact absurd hid (h j (findEntry_some hs hfind))
  unfold bucketOf at hfind
  simp only [getEntry, hfind, bucketOf]

/-- Entries that are there stay as they are when one is looked for. -/
theorem getEntry_keeps (h : WellLinked s) (hk : k ∈ s.time) (id : ReasmId) (timestamp : Int) :
    k ∈ (getEntry s id timestamp).2.time ∧
      (getEntry s id timestamp).2.entry k = s.entry k := by
  unfold getEntry
  dsimp only
  split
  · exact ⟨hk, rfl⟩
  · exact ⟨mem_newEntry.mpr (Or.inl hk), newEntry_old h _ _ _ k hk⟩

variable [ReasmFrag F]

/-- An entry stays that of its datagram. -/
theorem putFragment_id (s : ReasmIp F) (k : Nat) (frag : F) (lastFrag : Bool) (k' : Nat) :
    ((putFragment s k frag lastFrag).2.entry k').id = (s.entry k').id := by
  have hplace := reasmAddFragment_place (s.entry k) frag lastFrag
  unfold putFragment
  split
  · rfl
  · cases hadd : reasmAddFragment (s.entry k) frag lastFrag with
    | mk accepted e =>
    rw [hadd] at hplace
    cases accepted with
    | false =>
        have hinvalid : SamePlace (s.entry k) { e with state := .invalid } :=
          ⟨hplace.id, hplace.hash, hplace.timeout⟩
        exact (setEntry_place hinvalid k').id
    | true =>
        dsimp only
        split <;> exact (setEntry_place hplace k').id

/-- The other entries are left alone. -/
theorem putFragment_keeps (hne : k' ≠ k) (hk' : k' ∈ s.time) (frag : F) (lastFrag : Bool) :
    k' ∈ (putFragment s k frag lastFrag).2.time ∧
      (putFragment s k frag lastFrag).2.entry k' = s.entry k' := by
  unfold putFragment
  split
  · exact ⟨hk', rfl⟩
  · split
    · exact ⟨hk', setEntry_of_ne _ _ hne⟩
    · dsimp only
      split
      · exact ⟨(List.mem_erase_of_ne hne).mpr hk', setEntry_of_ne _ _ hne⟩
      · exact ⟨hk', setEntry_of_ne _ _ hne⟩

end Frame

/-! ### The entry of a datagram -/

/-- The call that gives the store a fragment. -/
def TimedFrag.call (f : TimedFrag) : ReasmCall := ⟨f.packet.octets, f.timestamp⟩

def fragCall (s : ReasmIp BaseFrag) (f : TimedFrag) :
    Except Abort ((Bool × Option (ReasmIpEntry BaseFrag)) × ReasmIp BaseFrag) :=
  reasmCall s f.call

/-- No entry of the datagram is handed out. -/
def NotOf (id : ReasmId) (out : Bool × Option (ReasmIpEntry BaseFrag)) : Prop :=
  ∀ e, out.2 = some e → e.id ≠ id

/-- A fragment with the place of this one has come. -/
def seenAt (id : ReasmId) (seen : List TimedFrag) (g : BaseFrag) : Bool :=
  seen.any fun f => decide (f.packet.id = id) && decide (offset g = offset f.frag)

/-- Of a datagram whose fragments are `all`, those in `seen` have come, and not all: there is an
entry that has received them, or nothing has come. -/
structure Followed (id : ReasmId) (total : Nat) (all : List BaseFrag) (timeout : Int)
    (seen : List TimedFrag) (s : ReasmIp BaseFrag) : Prop where
  linked : WellLinked s
  configured : s.timeout = timeout
  entry : ((∀ f ∈ seen, f.packet.id ≠ id) ∧ ∀ k ∈ s.time, (s.entry k).id ≠ id) ∨
    ∃ k ∈ s.time, (s.entry k).id = id ∧ Received total all (seenAt id seen) (s.entry k) ∧
      ∃ f ∈ seen, f.packet.id = id ∧ (s.entry k).timeout = f.timestamp.sec + timeout

/-- A fragment too long for the 16 bits its length is put into is not recognized. -/
theorem reasmParsePacket_long {f : FragPacket} (hlong : ¬ f.Fits) (ts : Timespec) :
    reasmParsePacket f.octets f.octets.length ts = .ok none := by
  cases f with
  | ipv4 => exact absurd trivial hlong
  | ipv6 p padding captured =>
      have hplen : ¬ 40 + p.plen < 65536 := hlong
      have hlt : p.plen < 65536 := p.plen_lt
      have hlen : (p.octets ++ padding).length ≥ p.plen + 40 := by
        rw [List.length_append, Ipv6Fragment.length_octets]
        omega
      have hroom : ip6hdrLen + 2 > (p.plen + 40) % 65536 := by
        rw [ip6hdrLen]
        omega
      have hshort : ip6hdrLen + 8 > (p.plen + 40) % 65536 := by omega
      have hparse : baseFragFromIpv6 (p.octets ++ padding) ts = .ok none := by
        simp only [baseFragFromIpv6, p.octetAt_nxt, p.loadNet16_plen, bind, Except.bind]
        cases p.exts with
        | nil =>
            rw [firstProto_nil, fragHeader]
            simp only [not_isSkippable_fragment, Bool.false_eq_true, if_false, if_true,
              if_pos hshort]
            rfl
        | cons h rest =>
            rw [firstProto_cons, fragHeader]
            simp only [h.skippable, if_true, if_pos hroom]
            rfl
      have hsix : ¬ (6 = 4) := by decide
      simp only [FragPacket.octets, reasmParsePacket, p.octetAt_first, p.version, if_neg hsix,
        if_true, bind, Except.bind, p.loadNet16_plen, if_pos hlen, hparse]
      rfl

section Track

variable {id : ReasmId} {total : Nat} {all : List BaseFrag} {timeout : Int}
  {seen : List TimedFrag} {s : ReasmIp BaseFrag} {f : TimedFrag}

theorem seenAt_append_of_ne (h : f.packet.id ≠ id) :
    seenAt id (seen ++ [f]) = seenAt id seen := by
  funext g
  simp only [seenAt, List.any_append, List.any_cons, List.any_nil, decide_eq_false h,
    Bool.false_and, Bool.or_false]

theorem seenAt_append_of_eq (h : f.packet.id = id) :
    seenAt id (seen ++ [f]) = withFrag (seenAt id seen) f.frag := by
  funext g
  simp only [seenAt, withFrag, List.any_append, List.any_cons, List.any_nil, decide_eq_true h,
    Bool.true_and, Bool.or_false]

theorem seenAt_of_none (h : ∀ f ∈ seen, f.packet.id ≠ id) : seenAt id seen = fun _ => false := by
  funext g
  rw [seenAt, List.any_eq_false]
  intro f hf
  simp [h f hf]

/-- The entry has not expired while the clock is within the time-out of every fragment that came. -/
theorem Followed.timeouts (h : Followed id total all timeout seen s) {now : Int}
    (hwithin : ∀ f ∈ seen, f.packet.id = id → now ≤ f.timestamp.sec + timeout) :
    Followed id total all timeout seen (processTimeouts s now) := by
  have hout := processTimeouts_timedOut h.linked now
  refine ⟨hout.linked, hout.timeout.trans h.configured, ?_⟩
  rcases h.entry with ⟨hseen, hnone⟩ | ⟨k, hk, hid, hreceived, f₀, hf₀, hf₀id, htimeout⟩
  · refine Or.inl ⟨hseen, fun k hk => ?_⟩
    rw [hout.entry]
    exact hnone k (hout.sublist.subset hk)
  · refine Or.inr ⟨k, ?_, ?_⟩
    · apply processTimeouts_keeps h.linked hk
      rw [htimeout]
      exact hwithin f₀ hf₀ hf₀id
    · rw [hout.entry]
      exact ⟨hid, hreceived, f₀, hf₀, hf₀id, htimeout⟩

/-- What a call does with a fragment the parser reads, once the time-outs are processed. -/
theorem reasmCall_of_parse {p : ParsedFrag BaseFrag} {c : ReasmCall}
    (hparse : reasmParsePacket c.packet c.packet.length c.timestamp = .ok (some p)) :
    reasmCall s c =
      .ok ((true, (reasmIpFragment (processTimeouts s c.timestamp.sec) p.frag p.id p.lastFrag
          c.timestamp.sec).1),
        (reasmIpFragment (processTimeouts s c.timestamp.sec) p.frag p.id p.lastFrag
          c.timestamp.sec).2) := by
  simp only [reasmCall, reasmIpNext, hparse]
  rfl

theorem Followed.append_other (h : Followed id total all timeout seen s) (hne : f.packet.id ≠ id) :
    Followed id total all timeout (seen ++ [f]) s := by
  refine ⟨h.linked, h.configured, ?_⟩
  rcases h.entry with ⟨hseen, hnone⟩ | ⟨k, hk, hid, hreceived, f₀, hf₀, htime⟩
  · refine Or.inl ⟨?_, hnone⟩
    intro g hg
    rcases List.mem_append.mp hg with hg | hg
    · exact hseen g hg
    · rw [List.mem_singleton.mp hg]
      exact hne
  · rw [← seenAt_append_of_ne hne] at hreceived
    exact Or.inr ⟨k, hk, hid, hreceived, f₀, List.mem_append_left _ hf₀, htime⟩

/-- A fragment of another datagram is put where it belongs. -/
theorem Followed.fragment_other (h : Followed id total all timeout seen s) (frag : BaseFrag)
    {id' : ReasmId} (hne : id' ≠ id) (lastFrag : Bool) (now : Int) :
    (∀ e, (reasmIpFragment s frag id' lastFrag now).1 = some e → e.id ≠ id) ∧
      Followed id total all timeout seen (reasmIpFragment s frag id' lastFrag now).2 := by
  have hfound := getEntry_found h.linked id' now
  have hfoundId := getEntry_id s id' now
  have hput := putFragment_put hfound.linked hfound.stored frag lastFrag
  have hid := putFragment_id (getEntry s id' now).2 (getEntry s id' now).1 frag lastFrag
  unfold reasmIpFragment
  refine ⟨fun e he => ?_, hput.linked, (hput.timeout.trans hfound.timeout).trans h.configured, ?_⟩
  · rw [← (hput.handed e he).1, hid, hfoundId]
    exact hne
  · rcases h.entry with ⟨hseen, hnone⟩ | ⟨k, hk, hkid, hreceived, htime⟩
    · refine Or.inl ⟨hseen, fun k hk => ?_⟩
      rw [hid]
      rcases hfound.entry k (hput.sublist.subset hk) with ⟨hold, hsame⟩ | hnew
      · rw [hsame]
        exact hnone k hold
      · rw [hnew]
        exact hne
    · obtain ⟨hstored, hsame⟩ := getEntry_keeps h.linked hk id' now
      have hother : k ≠ (getEntry s id' now).1 := by
        intro heq
        rw [← heq, hsame, hkid] at hfoundId
        exact hne hfoundId.symm
      obtain ⟨hstored', hsame'⟩ := putFragment_keeps hother hstored frag lastFrag
      refine Or.inr ⟨k, hstored', ?_⟩
      rw [hsame', hsame]
      exact ⟨hkid, hreceived, htime⟩

/-- **A fragment of another datagram** changes nothing. -/
theorem Followed.other (h : Followed id total all timeout seen s) (hne : f.packet.id ≠ id)
    (hwithin : ∀ g ∈ seen, g.packet.id = id → f.timestamp.sec ≤ g.timestamp.sec + timeout) :
    ∃ out s', reasmCall s f.call = .ok (out, s') ∧ (∀ e, out.2 = some e → e.id ≠ id) ∧
      Followed id total all timeout (seen ++ [f]) s' := by
  have hcurrent := h.timeouts hwithin
  by_cases hfits : f.packet.Fits
  · have hparse := f.packet.reasmParsePacket_octets hfits f.timestamp
    obtain ⟨hout, htracked⟩ :=
      hcurrent.fragment_other f.frag hne f.packet.lastFrag f.timestamp.sec
    exact ⟨_, _, reasmCall_of_parse (c := f.call) hparse, hout, htracked.append_other hne⟩
  · have hparse := reasmParsePacket_long hfits f.timestamp
    refine ⟨(false, none), processTimeouts s f.timestamp.sec, ?_, nofun, hcurrent.append_other hne⟩
    simp only [reasmCall, reasmIpNext, TimedFrag.call, hparse]
    rfl

/-- The entry a fragment of the datagram goes into: it has received what came before, and waits from
the first fragment on. -/
theorem Followed.getEntry (h : Followed id total all timeout seen s) (hall : FragsOf total all)
    (hf : f.packet.id = id) :
    ∃ k s', Nmsg.getEntry s id f.timestamp.sec = (k, s') ∧ WellLinked s' ∧ k ∈ s'.time ∧
      s'.timeout = timeout ∧ (s'.entry k).id = id ∧
      Received total all (seenAt id seen) (s'.entry k) ∧
      ∃ g ∈ seen ++ [f], g.packet.id = id ∧ (s'.entry k).timeout = g.timestamp.sec + timeout := by
  rcases h.entry with ⟨hseen, hnone⟩ | ⟨k, hk, hid, hreceived, f₀, hf₀, hf₀id, htimeout⟩
  · have hnew := newEntry_fresh s id (bucketOf id) f.timestamp.sec
    refine ⟨s.fresh, _, getEntry_of_new hnone h.linked _, newEntry_linked h.linked hnone _,
      mem_newEntry.mpr (Or.inr rfl), h.configured, ?_, ?_, f, by simp, hf, ?_⟩
    · rw [hnew]
      rfl
    · rw [hnew, seenAt_of_none hseen]
      exact received_init hall _ _ _
    · rw [hnew, ← h.configured]
      rfl
  · have hget := getEntry_of_stored h.linked hk f.timestamp.sec
    rw [hid] at hget
    exact ⟨k, s, hget, h.linked, hk, h.configured, hid, hreceived, f₀,
      List.mem_append_left _ hf₀, hf₀id, htimeout⟩

/-- What a fragment of the datagram does: it is received, and the entry is handed out when it is
complete. -/
theorem Followed.fragment (h : Followed id total all timeout seen s) (hall : FragsOf total all)
    (hf : f.packet.id = id) (hmem : f.frag ∈ all) (hnew : seenAt id seen f.frag = false)
    (hlast : f.packet.lastFrag = decide (fragEnd f.frag = total)) :
    ∃ k s' e, WellLinked s' ∧ k ∈ s'.time ∧ s'.timeout = timeout ∧ s'.entry k = e ∧ e.id = id ∧
      Received total all (seenAt id (seen ++ [f])) e ∧
      (∃ g ∈ seen ++ [f], g.packet.id = id ∧ e.timeout = g.timestamp.sec + timeout) ∧
      reasmIpFragment s f.frag id f.packet.lastFrag f.timestamp.sec =
        if reasmIsComplete e then (some e, removeEntry s' k) else (none, s') := by
  obtain ⟨k, s₁, hget, hlinked, hk, hconfigured, hid, hreceived, g, hg, hgid, htimeout⟩ :=
    h.getEntry hall hf
  obtain ⟨e, hadd, hreceived', heid, hehash, hetimeout⟩ :=
    reasmAddFragment_received hall hreceived hmem hnew
  rw [← seenAt_append_of_eq hf] at hreceived'
  have hactive : ¬ (s₁.entry k).state ≠ .active := not_not.mpr hreceived.active
  refine ⟨k, setEntry s₁ k e, e, setEntry_linked hlinked ⟨heid, hehash, hetimeout⟩, hk, hconfigured,
    setEntry_self .., heid.trans hid, hreceived', ⟨g, hg, hgid, hetimeout.trans htimeout⟩, ?_⟩
  rw [hlast]
  simp only [reasmIpFragment, hget, putFragment, if_neg hactive, hadd]

/-- **A fragment of the datagram while others are missing** is kept. -/
theorem Followed.mine (h : Followed id total all timeout seen s) (hall : FragsOf total all)
    (hf : f.packet.id = id) (hfits : f.packet.Fits) (hmem : f.frag ∈ all)
    (hnew : seenAt id seen f.frag = false)
    (hlast : f.packet.lastFrag = decide (fragEnd f.frag = total))
    (hwithin : ∀ g ∈ seen, g.packet.id = id → f.timestamp.sec ≤ g.timestamp.sec + timeout)
    {missing : BaseFrag} (hmissing : missing ∈ all)
    (hnot : seenAt id (seen ++ [f]) missing = false) :
    ∃ s', reasmCall s f.call = .ok ((true, none), s') ∧
      Followed id total all timeout (seen ++ [f]) s' := by
  have hparse := f.packet.reasmParsePacket_octets hfits f.timestamp
  obtain ⟨k, s', e, hlinked, hk, hconfigured, rfl, heid, hreceived, hfirst, hput⟩ :=
    (h.timeouts hwithin).fragment hall hf hmem hnew hlast
  rw [if_neg (by rw [hreceived.incomplete hall hmissing hnot]; exact Bool.false_ne_true), ← hf]
    at hput
  refine ⟨s', ?_, hlinked, hconfigured, Or.inr ⟨k, hk, heid, hreceived, hfirst⟩⟩
  rw [reasmCall_of_parse (c := f.call) hparse]
  simp only [TimedFrag.call]
  rw [show f.packet.baseFrag f.timestamp = f.frag from rfl, hput]

/-- **The last fragment of the datagram** to come completes the entry, which is handed out. -/
theorem Followed.last (h : Followed id total all timeout seen s) (hall : FragsOf total all)
    (hf : f.packet.id = id) (hfits : f.packet.Fits) (hmem : f.frag ∈ all)
    (hnew : seenAt id seen f.frag = false)
    (hlast : f.packet.lastFrag = decide (fragEnd f.frag = total))
    (hwithin : ∀ g ∈ seen, g.packet.id = id → f.timestamp.sec ≤ g.timestamp.sec + timeout)
    (hevery : ∀ g ∈ all, seenAt id (seen ++ [f]) g = true) :
    ∃ e s', reasmCall s f.call = .ok ((true, some e), s') ∧ e.id = id ∧ e.frags = all ∧
      e.len = total ∧ Followed id total all timeout [] s' := by
  have hparse := f.packet.reasmParsePacket_octets hfits f.timestamp
  obtain ⟨k, s', e, hlinked, hk, hconfigured, rfl, heid, hreceived, -, hput⟩ :=
    (h.timeouts hwithin).fragment hall hf hmem hnew hlast
  obtain ⟨hcomplete, hfrags, hlen⟩ := hreceived.complete hall hevery
  rw [if_pos hcomplete, ← hf] at hput
  refine ⟨s'.entry k, removeEntry s' k, ?_, heid, hfrags, hlen, removeEntry_linked hlinked hk,
    hconfigured, Or.inl ⟨nofun, fun j hj hjid => ?_⟩⟩
  · rw [reasmCall_of_parse (c := f.call) hparse]
    simp only [TimedFrag.call]
    rw [show f.packet.baseFrag f.timestamp = f.frag from rfl, hput]
  · have hstored : j ∈ s'.time := List.mem_of_mem_erase hj
    have hjk : j = k := hlinked.distinct j hstored k hk (Eq.trans hjid heid.symm)
    exact (removeEntry_unlinked hlinked hk).1 (hjk ▸ hj)

end Track

/-! ### The run -/

theorem exists_last_of {α : Type} {p : α → Bool} {l : List α} (h : ∃ a ∈ l, p a = true) :
    ∃ before a after, l = before ++ a :: after ∧ p a = true ∧ ∀ b ∈ after, p b = false := by
  obtain ⟨a, ha, hpa⟩ := h
  cases hfind : l.reverse.find? p with
  | none =>
      have := List.find?_eq_none.mp hfind a (List.mem_reverse.mpr ha)
      exact absurd hpa this
  | some b =>
      obtain ⟨hb, front, rest, hsplit, hnot⟩ := List.find?_eq_some_iff_append.mp hfind
      refine ⟨rest.reverse, b, front.reverse, ?_, hb, fun c hc => ?_⟩
      · have := congrArg List.reverse hsplit
        simpa using this
      · have := hnot c (List.mem_reverse.mp hc)
        simpa using this

/-- The fragments of a datagram that come in a run: those of a split, each once, in any order. -/
structure Arriving (d : IpDatagram) (timeout : Int) (frames ordered : List TimedFrag) : Prop where
  split : d.SplitInto (ordered.map TimedFrag.packet)
  perm : (frames.filter fun f => f.packet.id = d.id).Perm ordered
  clock : frames.Pairwise fun f g => f.timestamp.sec ≤ g.timestamp.sec
  within : ∀ f ∈ ordered, ∀ g ∈ ordered, g.timestamp.sec ≤ f.timestamp.sec + timeout

section Run

variable {d : IpDatagram} {timeout : Int} {frames ordered before after : List TimedFrag}
  {f : TimedFrag}

theorem Arriving.mem_iff (h : Arriving d timeout frames ordered) :
    f ∈ ordered ↔ f ∈ frames ∧ f.packet.id = d.id := by
  rw [← h.perm.mem_iff, List.mem_filter, decide_eq_true_iff]

/-- The fragments that came before one have other places. -/
theorem Arriving.new (h : Arriving d timeout frames ordered) (hsplit : frames = before ++ f :: after)
    (hf : f.packet.id = d.id) : seenAt d.id before f.frag = false := by
  have hdistinct : (ordered.map fun f => offset f.frag).Nodup := by
    have := h.split.fragsOf.tiles.apart.pairwise
    rw [List.pairwise_map] at this
    rw [List.Nodup, List.pairwise_map]
    refine this.imp_of_mem fun {g g'} hg _ hle heq => ?_
    have := (h.split.fragsOf.tiles.apart.mem (List.mem_map_of_mem hg)).2.1
    omega
  have hnodup := ((h.perm.map fun f => offset f.frag).nodup_iff).mpr hdistinct
  rw [hsplit, List.filter_append, List.filter_cons_of_pos (by exact decide_eq_true hf),
    List.map_append, List.map_cons] at hnodup
  have hnot := (List.nodup_append.mp hnodup).2.2
  rw [seenAt, List.any_eq_false]
  intro g hg hboth
  rw [Bool.and_eq_true, decide_eq_true_iff, decide_eq_true_iff] at hboth
  have hmem : offset g.frag ∈ (before.filter fun f => f.packet.id = d.id).map
      fun f => offset f.frag :=
    List.mem_map_of_mem (List.mem_filter.mpr ⟨hg, decide_eq_true hboth.1⟩)
  exact hnot _ hmem _ (List.mem_cons_self ..) hboth.2.symm

/-- Every fragment comes within the time-out of those that came before. -/
theorem Arriving.in_time (h : Arriving d timeout frames ordered)
    (hsplit : frames = before ++ f :: after) (hf : f.packet.id = d.id) :
    ∀ g ∈ before, g.packet.id = d.id → f.timestamp.sec ≤ g.timestamp.sec + timeout := by
  intro g hg hgid
  apply h.within g (h.mem_iff.mpr ⟨?_, hgid⟩) f (h.mem_iff.mpr ⟨?_, hf⟩)
  · rw [hsplit]
    exact List.mem_append_left _ hg
  · rw [hsplit]
    exact List.mem_append_right _ (List.mem_cons_self ..)

/-- Before its last fragment comes, a datagram is followed and not handed out. -/
theorem Arriving.before_last (h : Arriving d timeout frames ordered)
    (hfits : ∀ f ∈ ordered, f.packet.Fits) (hsplit : frames = before ++ f :: after)
    (hf : f.packet.id = d.id) :
    ∃ outs s, run fragCall (storeWith timeout) before = .ok (outs, s) ∧
      Followed d.id d.payload.length (ordered.map TimedFrag.frag) timeout before s ∧
      ∀ out ∈ outs, NotOf d.id out := by
  have hall := h.split.fragsOf
  have hlast : f.frag ∈ ordered.map TimedFrag.frag := by
    apply List.mem_map_of_mem
    rw [h.mem_iff, hsplit]
    exact ⟨List.mem_append_right _ (List.mem_cons_self ..), hf⟩
  have hstart : Followed d.id d.payload.length (ordered.map TimedFrag.frag) timeout []
      (storeWith timeout) :=
    ⟨reasmIpNew_linked.congr rfl rfl rfl rfl rfl, rfl, Or.inl ⟨nofun, nofun⟩⟩
  have hstep : ∀ seen s g,
      Followed d.id d.payload.length (ordered.map TimedFrag.frag) timeout seen s →
      (∃ rest, before = seen ++ g :: rest) →
      ∃ out s', fragCall s g = .ok (out, s') ∧ NotOf d.id out ∧
        Followed d.id d.payload.length (ordered.map TimedFrag.frag) timeout (seen ++ [g]) s' := by
    rintro seen s g hs ⟨rest, hbefore⟩
    have hframes : frames = seen ++ g :: (rest ++ f :: after) := by
      rw [hsplit, hbefore, List.append_assoc, List.cons_append]
    have hnot : seenAt d.id (seen ++ [g]) f.frag = false := by
      have hnew := h.new hsplit hf
      rw [hbefore, seenAt, List.any_eq_false] at hnew
      rw [seenAt, List.any_eq_false]
      intro x hx
      apply hnew
      rcases List.mem_append.mp hx with hx | hx
      · exact List.mem_append_left _ hx
      · rw [List.mem_singleton.mp hx]
        exact List.mem_append_right _ (List.mem_cons_self ..)
    by_cases hg : g.packet.id = d.id
    · have hgmem : g ∈ ordered := by
        rw [h.mem_iff, hframes]
        exact ⟨List.mem_append_right _ (List.mem_cons_self ..), hg⟩
      obtain ⟨s', hok, hs'⟩ := hs.mine hall hg (hfits g hgmem) (List.mem_map_of_mem hgmem)
        (h.new hframes hg) (h.split.lastFrag hgmem) (h.in_time hframes hg) hlast hnot
      exact ⟨(true, none), s', hok, nofun, hs'⟩
    · -- the clock has not gone past the last fragment, which comes in time
      have hwithin : ∀ x ∈ seen, x.packet.id = d.id →
          g.timestamp.sec ≤ x.timestamp.sec + timeout := by
        intro x hx hxid
        have hclock := h.clock
        rw [hsplit, List.pairwise_append] at hclock
        have hgf : g.timestamp.sec ≤ f.timestamp.sec := by
          apply hclock.2.2 g _ f (List.mem_cons_self ..)
          rw [hbefore]
          exact List.mem_append_right _ (List.mem_cons_self ..)
        have hfx := h.in_time hsplit hf x (by rw [hbefore]; exact List.mem_append_left _ hx) hxid
        omega
      obtain ⟨out, s', hok, hout, hs'⟩ := hs.other hg hwithin
      exact ⟨out, s', hok, hout, hs'⟩
  exact answers_of_history _ _ hstep hstart fun front g rest hbefore => ⟨rest, hbefore⟩

/-- Where no entry is one of the datagram, other fragments make none. -/
theorem Followed.after_last {id : ReasmId} {total : Nat} {all : List BaseFrag}
    {s : ReasmIp BaseFrag} (h : Followed id total all timeout [] s)
    (hafter : ∀ g ∈ after, g.packet.id ≠ id) :
    ∃ outs s', run fragCall s after = .ok (outs, s') ∧
      ∀ out ∈ outs, NotOf id out := by
  have hstep : ∀ seen s g, Followed id total all timeout seen s →
      ((∀ x ∈ seen, x.packet.id ≠ id) ∧ g.packet.id ≠ id) →
      ∃ out s', fragCall s g = .ok (out, s') ∧ NotOf id out ∧
        Followed id total all timeout (seen ++ [g]) s' := by
    rintro seen s g hs ⟨hseen, hg⟩
    exact hs.other hg fun x hx hxid => absurd hxid (hseen x hx)
  have hinputs : ∀ front g rest, after = front ++ g :: rest →
      (∀ x ∈ [] ++ front, x.packet.id ≠ id) ∧ g.packet.id ≠ id := by
    intro front g rest hsplit
    refine ⟨fun x hx => hafter x ?_, hafter g ?_⟩
    · rw [hsplit]
      exact List.mem_append_left _ hx
    · rw [hsplit]
      exact List.mem_append_right _ (List.mem_cons_self ..)
  obtain ⟨outs, s', hrun, -, houts⟩ := answers_of_history _ _ hstep h hinputs
  exact ⟨outs, s', hrun, houts⟩

/-- What a run says of a datagram whose last fragment is `f`: its entry is handed out there, with all
fragments, and no other entry is one of the datagram. -/
structure HandedBack (d : IpDatagram) (all : List BaseFrag) (before : List TimedFrag)
    (outs : List (Bool × Option (ReasmIpEntry BaseFrag))) (e : ReasmIpEntry BaseFrag) : Prop where
  id : e.id = d.id
  frags : e.frags = all
  len : e.len = d.payload.length
  once : ∃ outs₁ outs₂, outs = outs₁ ++ (true, some e) :: outs₂ ∧ outs₁.length = before.length ∧
    ∀ out ∈ outs₁ ++ outs₂, NotOf d.id out

/-- **A datagram is handed back once**, with its last fragment. -/
theorem Arriving.handed_back (h : Arriving d timeout frames ordered)
    (hfits : ∀ f ∈ ordered, f.packet.Fits) :
    ∃ before f after, frames = before ++ f :: after ∧ f.packet.id = d.id ∧
      (∀ g ∈ after, g.packet.id ≠ d.id) ∧
      ∃ outs e s, run reasmCall (storeWith timeout) (frames.map TimedFrag.call) = .ok (outs, s) ∧
        HandedBack d (ordered.map TimedFrag.frag) before outs e := by
  have hall := h.split.fragsOf
  have hsome : ∃ f ∈ frames, decide (f.packet.id = d.id) = true := by
    cases hordered : ordered with
    | nil => exact absurd (congrArg (List.map TimedFrag.frag) hordered) hall.nonempty
    | cons f rest =>
        obtain ⟨hf, hid⟩ := h.mem_iff.mp (hordered ▸ List.mem_cons_self ..)
        exact ⟨f, hf, decide_eq_true hid⟩
  obtain ⟨before, f, after, hsplit, hf, hafter⟩ := exists_last_of hsome
  rw [decide_eq_true_iff] at hf
  simp only [decide_eq_false_iff_not] at hafter
  have hmem : f ∈ ordered := by
    rw [h.mem_iff, hsplit]
    exact ⟨List.mem_append_right _ (List.mem_cons_self ..), hf⟩
  have hevery : ∀ g ∈ ordered.map TimedFrag.frag, seenAt d.id (before ++ [f]) g = true := by
    intro _ hg
    obtain ⟨g, hgmem, rfl⟩ := List.mem_map.mp hg
    obtain ⟨hgframes, hgid⟩ := h.mem_iff.mp hgmem
    rw [hsplit] at hgframes
    rw [seenAt, List.any_eq_true]
    refine ⟨g, ?_, by simp [hgid]⟩
    rcases List.mem_append.mp hgframes with hg' | hg'
    · exact List.mem_append_left _ hg'
    · rcases List.mem_cons.mp hg' with rfl | hg'
      · exact List.mem_append_right _ (List.mem_singleton_self _)
      · exact absurd hgid (hafter g hg')
  obtain ⟨outs₁, s₁, hrun₁, hs₁, houts₁⟩ := h.before_last hfits hsplit hf
  obtain ⟨e, s₂, hok, hid, hfrags, hlen, hs₂⟩ := hs₁.last hall hf (hfits f hmem)
    (List.mem_map_of_mem hmem) (h.new hsplit hf) (h.split.lastFrag hmem) (h.in_time hsplit hf)
    hevery
  obtain ⟨outs₂, s₃, hrun₂, houts₂⟩ := hs₂.after_last hafter
  refine ⟨before, f, after, hsplit, hf, hafter, outs₁ ++ (true, some e) :: outs₂, e, s₃, ?_,
    hid, hfrags, hlen, outs₁, outs₂, rfl, length_of_run hrun₁, ?_⟩
  · have hrun : run fragCall (storeWith timeout) frames =
        .ok (outs₁ ++ (true, some e) :: outs₂, s₃) := by
      rw [hsplit]
      exact run_append hrun₁ (run_cons_eq_ok.mpr ⟨_, s₂, outs₂, hok, hrun₂, rfl⟩)
    rw [← hrun]
    exact (run_comp TimedFrag.call _ _).symm
  · intro out hout
    rcases List.mem_append.mp hout with hout | hout
    · exact houts₁ out hout
    · exact houts₂ out hout

end Run

end Nmsg

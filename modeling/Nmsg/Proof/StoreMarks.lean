import Nmsg.Proof.FragReread

/-!
# The last fragment of an entry

Whatever packets come in, the fragment that is marked as the last ends where the entry says that the
packet does, as long as the headers of the fragments of the entry are whole.
-/

namespace Nmsg

open ReasmFrag Tiling StepRun Memory

section Parsed

variable {id : ReasmId} {frag : BaseFrag} {lastFrag lastFrag' : Bool}

/-- The packet of a fragment says whether it is the last. -/
theorem ParsedFrom.unique (h : ParsedFrom id frag lastFrag) (h' : ParsedFrom id frag lastFrag')
    (hsound : frag.Sound) : lastFrag = lastFrag' := by
  obtain ⟨_, _, hparse⟩ := h.reread hsound (EqOff.refl _ _) frag.ts
  obtain ⟨_, _, hparse'⟩ := h'.reread hsound (EqOff.refl _ _) frag.ts
  rw [hparse] at hparse'
  simp only [Except.ok.injEq, Option.some.injEq, ParsedFrag.mk.injEq] at hparse'
  exact hparse'.2.2

theorem ParsedFrom.kept (h : ParsedFrom id frag lastFrag) :
    frag.offset < 65536 ∧ (frag.dataOffset ≤ frag.data.length → KeptFrag id frag) := by
  obtain ⟨packet, len, ts, hlen, h⟩ := h
  have hkept := (reasmParsePacket_kept (hasFixedHeader_of_parse h) hlen ts).of_ok h _ rfl
  exact ⟨hkept.1, hkept.2.1⟩

end Parsed

/-! ### An entry -/

/-- The fragments of an entry have whole headers. -/
def AllSound (e : ReasmIpEntry BaseFrag) : Prop := ∀ f ∈ e.frags, f.Sound

/-- The last fragment ends the packet, and the others have octets in units of eight. -/
def Marked (e : ReasmIpEntry BaseFrag) : Prop :=
  ∀ f ∈ e.frags, ∀ lastFrag, ParsedFrom e.id f lastFrag →
    (lastFrag = true → fragEnd f = e.len) ∧ (lastFrag = false → len f % 8 = 0)

section Entry

variable {e e' : ReasmIpEntry BaseFrag} {frag : BaseFrag} {lastFrag : Bool}

theorem eight_of_add {F : Type} [ReasmFrag F] {e e' : ReasmIpEntry F} {frag : F}
    (h : reasmAddFragment e frag false = (true, e')) : len frag % 8 = 0 := by
  by_contra hne
  rw [reasmAddFragment, if_pos (by simpa using hne)] at h
  cases h

/-- A fragment with octets is kept, with those that are there. -/
theorem mem_frags_of_add (hadd : reasmAddFragment e frag lastFrag = (true, e')) :
    (∀ f ∈ e.frags, f ∈ e'.frags) ∧ (len frag ≠ 0 → frag ∈ e'.frags) := by
  obtain ⟨-, -, fitLeft, fitRight, -, rfl⟩ := acceptFragment_ok (acceptFragment_of_add hadd)
  rw [insertFrag_list]
  split
  · refine ⟨fun f hf => ?_, fun _ => List.mem_append_right _ (List.mem_cons_self ..)⟩
    rw [← fragsBefore_append e.frags frag] at hf
    rcases List.mem_append.mp hf with hf | hf
    · exact List.mem_append_left _ hf
    · exact List.mem_append_right _ (List.mem_cons_of_mem _ hf)
  · next hzero => exact ⟨fun f hf => hf, fun hne => absurd hne hzero⟩

/-- **A fragment is put into an entry**: the count and the marks stay right. -/
theorem reasmAddFragment_marked (hentry : AllSound e → Counting e ∧ Marked e)
    (hfrag : ParsedFrom e.id frag lastFrag)
    (hadd : reasmAddFragment e frag lastFrag = (true, e')) (hsound : AllSound e') :
    Resolved e' frag lastFrag ∧ Marked e' := by
  obtain ⟨hold, hnew⟩ := mem_frags_of_add hadd
  obtain ⟨hcounting, hmarked⟩ := hentry fun f hf => hsound f (hold f hf)
  obtain ⟨hplace, hkept⟩ := hfrag.kept
  have hend : fragEnd frag = frag.offset + frag.len := rfl
  have hwidth : fragEnd frag < 4294967296 := by
    by_cases hzero : frag.len = 0
    · omega
    · exact (hkept (hsound frag (hnew hzero)).2).width
  have hok := acceptFragment_of_add hadd
  refine ⟨acceptFragment_resolved hcounting hwidth hok, ?_⟩
  have hid : e'.id = e.id := by
    have := reasmAddFragment_id e frag lastFrag
    rwa [hadd] at this
  have hmem := reasmAddFragment_frags e frag lastFrag
  rw [hadd] at hmem
  obtain ⟨hagain, -, fitLeft, fitRight, -, rfl⟩ := acceptFragment_ok hok
  have hlen : (insertFrag (withPacketLen e frag lastFrag) frag lastFrag fitLeft fitRight).len =
      if lastFrag then fragEnd frag else e.len := insertFrag_end hwidth
  intro f hf last hlast
  rw [hid] at hlast
  rw [hlen]
  rcases hmem f hf with hf' | rfl
  · obtain ⟨hends, height⟩ := hmarked f hf' last hlast
    refine ⟨fun htrue => ?_, height⟩
    cases lastFrag with
    | false => exact hends htrue
    | true =>
        -- a last fragment that is there has given the length
        have hpos := (hcounting.apart.mem hf').2.1
        rw [hends htrue, hagain rfl] at hpos
        exact absurd hpos (Nat.not_lt_zero _)
  · obtain rfl := hfrag.unique hlast (hsound f hf)
    refine ⟨fun htrue => (if_pos htrue).symm, fun hfalse => ?_⟩
    subst hfalse
    exact eight_of_add hadd

end Entry

/-! ### The store -/

/-- What the store holds was read from packets, and the entries that still take fragments count and
mark them right. -/
structure FiledStore (s : ReasmIp BaseFrag) : Prop where
  linked : WellLinked s
  stores : s.Stores fun id frag => ∃ lastFrag, ParsedFrom id frag lastFrag
  filed : ∀ k ∈ s.time, (s.entry k).state = .active → AllSound (s.entry k) →
    Counting (s.entry k) ∧ Marked (s.entry k)

/-- The fragments of an entry were read from packets; when their headers are whole they cover the
packet, and the last of them ends it. -/
structure FiledEntry (e : ReasmIpEntry BaseFrag) : Prop where
  stores : ∀ f ∈ e.frags, ∃ lastFrag, ParsedFrom e.id f lastFrag
  tiles : AllSound e → Tiles offset fragEnd 0 e.frags e.len
  marked : AllSound e → Marked e

section Store

variable {s s' : ReasmIp BaseFrag} {p : ParsedFrag BaseFrag}

theorem reasmIpNew_filed : FiledStore reasmIpNew :=
  ⟨reasmIpNew_linked, reasmIpNew_stores _, nofun⟩

theorem FiledStore.processTimeouts (h : FiledStore s) (now : Int) :
    FiledStore (processTimeouts s now) := by
  have hout := processTimeouts_timedOut h.linked now
  refine ⟨hout.linked, h.stores.processTimeouts now, fun k hk hactive hsound => ?_⟩
  rw [hout.entry] at hactive hsound ⊢
  exact h.filed k (hout.sublist.subset hk) hactive hsound

theorem FiledStore.fragment (h : FiledStore s) (hp : ParsedFrom p.id p.frag p.lastFrag)
    (now : Int) :
    FiledStore (reasmIpFragment s p.frag p.id p.lastFrag now).2 ∧
      ∀ e, (reasmIpFragment s p.frag p.id p.lastFrag now).1 = some e → FiledEntry e := by
  have hfound := getEntry_found h.linked p.id now
  have hid := getEntry_id s p.id now
  have hput := putFragment_put hfound.linked hfound.stored p.frag p.lastFrag
  obtain ⟨hhanded, hstores⟩ := reasmIpFragment_stores h.stores ⟨_, hp⟩ p.lastFrag now
  have hold : ∀ k ∈ (getEntry s p.id now).2.time,
      ((getEntry s p.id now).2.entry k).state = .active →
        AllSound ((getEntry s p.id now).2.entry k) →
          Counting ((getEntry s p.id now).2.entry k) ∧ Marked ((getEntry s p.id now).2.entry k) := by
    intro k hk hactive hsound
    rcases hfound.entry k hk with ⟨hmem, hsame⟩ | hnew
    · rw [hsame] at hactive hsound ⊢
      exact h.filed k hmem hactive hsound
    · rw [hnew]
      exact ⟨counting_init _ _ _, nofun⟩
  have hmarked : ∀ {e}, ((getEntry s p.id now).2.entry (getEntry s p.id now).1).state = .active →
      reasmAddFragment ((getEntry s p.id now).2.entry (getEntry s p.id now).1) p.frag p.lastFrag =
        (true, e) → AllSound e → Resolved e p.frag p.lastFrag ∧ Marked e :=
    fun hactive hadd hsound =>
      reasmAddFragment_marked (hold _ hfound.stored hactive) (by rwa [hid]) hadd hsound
  refine ⟨⟨hput.linked, hstores, fun k hk hactive hsound => ?_⟩, fun e he => ?_⟩
  · rcases hput.entry k hk with hsame | hinvalid | ⟨rfl, hwas, hadd, hopen⟩
    · rw [show (reasmIpFragment s p.frag p.id p.lastFrag now).2.entry k = _ from hsame]
        at hactive hsound ⊢
      exact hold k (hput.sublist.subset hk) hactive hsound
    · exact absurd (hinvalid.symm.trans hactive) (by decide)
    · obtain ⟨hresolved, hmark⟩ := hmarked hwas hadd hsound
      exact ⟨hresolved.2 hopen, hmark⟩
  · obtain ⟨-, -, hwas, hadd, hcomplete⟩ := hput.handed e he
    exact ⟨hhanded e he, fun hsound => ((hmarked hwas hadd hsound).1.1 hcomplete).1,
      fun hsound => (hmarked hwas hadd hsound).2⟩

/-- **A call keeps the store**, and what it hands out is filed. -/
theorem FiledStore.next (h : FiledStore s) {packet : Bytes} {len : Nat} {ts : Timespec}
    (hlen : len ≤ packet.length) {out : Bool × Option (ReasmIpEntry BaseFrag)}
    (hok : reasmIpNext s packet len ts = .ok (out, s')) :
    FiledStore s' ∧ ∀ e, out.2 = some e → FiledEntry e := by
  have hout := h.processTimeouts ts.sec
  unfold reasmIpNext at hok
  dsimp only at hok
  obtain ⟨p, hparse, hok⟩ := Outcome.bind_eq_ok.mp hok
  cases p with
  | none =>
      cases hok
      exact ⟨hout, nofun⟩
  | some p =>
      cases hok
      exact hout.fragment ⟨packet, len, ts, hlen, hparse⟩ ts.sec

end Store

end Nmsg

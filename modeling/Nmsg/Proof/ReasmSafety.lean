import Nmsg.Proof.HoleExact
import Nmsg.Proof.StoreOrder

/-!
# Reassembly of any packets

What is stored of a packet ends with the packet, an entry is complete only when its fragments cover
it, and so a datagram that is put together stays in its buffer. The exceptions are packets whose
header is longer than they are, a fragment that is first and last and has no octets, and datagrams
whose length does not suit the header of IPv4.
-/

namespace Nmsg

open ReasmFrag Tiling StepRun

/-! ### The count of an entry in the store -/

section Counting

variable {F : Type} [ReasmFrag F]

/-- What the count of an entry that is not complete says. It counts the open stretches, and one more
from where the packet ends on unless the fragments reach there. -/
structure Counting (e : ReasmIpEntry F) : Prop where
  apart : Apart offset fragEnd 0 e.frags 4294967295
  unknown : e.len = 0 → e.holes = holes offset fragEnd 4294967296 0 e.frags
  known : e.len ≠ 0 → Apart offset fragEnd 0 e.frags e.len ∧
    (stop fragEnd 0 e.frags = e.len ∧ e.holes = holes offset fragEnd e.len 0 e.frags ∨
      e.holes = holes offset fragEnd (e.len + 1) 0 e.frags)
  width : e.len < 4294967296

theorem counting_init (id : ReasmId) (hash : Nat) (timeout : Int) :
    Counting (ReasmIpEntry.init id hash timeout : ReasmIpEntry F) :=
  ⟨Nat.zero_le _, fun _ => rfl, fun h => absurd rfl h, Nat.zero_lt_succ _⟩

variable {e e' : ReasmIpEntry F} {f : F} {lastFrag fitLeft fitRight : Bool}

theorem Fits.insert_apart {b : Nat} (h : Fits e.frags f lastFrag fitLeft fitRight)
    (hfrags : Apart offset fragEnd 0 e.frags b) (hb : fragEnd f ≤ b) :
    Apart offset fragEnd 0
      (insertFrag (withPacketLen e f lastFrag) f lastFrag fitLeft fitRight).frags b := by
  rw [insertFrag_list]
  split
  · next hpos => exact h.apart hfrags hb hpos
  · exact hfrags

/-- Behind fragments that reach the end there is no place for octets. -/
theorem Fits.not_at_stop (h : Fits e.frags f false fitLeft fitRight)
    (hfrags : Apart offset fragEnd 0 e.frags (stop fragEnd 0 e.frags)) (hpos : len f ≠ 0) :
    fragEnd f ≠ stop fragEnd 0 e.frags ∧
      (fragEnd f ≤ stop fragEnd 0 e.frags →
        stop fragEnd 0 (fragsBefore e.frags f ++ f :: fragsAfter e.frags f) =
          stop fragEnd 0 e.frags) := by
  have hend := fragEnd_eq f
  have hleft := h.left
  have hright := h.right (fragEnd f) (Nat.le_refl _)
  have hsplit := fragsBefore_append e.frags f
  cases hafter : fragsAfter e.frags f with
  | nil =>
      rw [hafter, List.append_nil] at hsplit
      rw [hsplit] at hleft
      exact ⟨by omega, fun hle => by omega⟩
  | cons next rest =>
      rw [hafter] at hsplit hright
      have hstop : stop fragEnd 0 e.frags = stop fragEnd (fragEnd next) rest := by
        rw [← hsplit, stop_append, stop]
      refine ⟨?_, fun _ => ?_⟩
      · have hmem : next ∈ e.frags := by
          rw [← hsplit]
          exact List.mem_append_right _ (List.mem_cons_self ..)
        have := hfrags.mem hmem
        have hfront : fragEnd f ≤ offset next := hright
        omega
      · rw [stop_append, stop, stop, hstop]

/-- An entry after a fragment: its fragments cover it, or its count goes on. -/
def Resolved (e' : ReasmIpEntry F) (f : F) (lastFrag : Bool) : Prop :=
  (reasmIsComplete e' = true → Tiles offset fragEnd 0 e'.frags e'.len ∧
      (e'.frags = [] → len f = 0 ∧ offset f = 0 ∧ lastFrag = true)) ∧
    (reasmIsComplete e' = false → Counting e')

omit [ReasmFrag F] in
theorem isComplete_iff {e : ReasmIpEntry F} : reasmIsComplete e = true ↔ e.holes = 0 :=
  decide_eq_true_iff

/-- While the length is not known an entry is not complete. -/
theorem Fits.resolved_unknown (hfits : Fits e.frags f false fitLeft fitRight) (h : Counting e)
    (hwidth : fragEnd f < 4294967296) (hunknown : e.len = 0) :
    Resolved (insertFrag (withPacketLen e f false) f false fitLeft fitRight) f false := by
  have hlen : (insertFrag (withPacketLen e f false) f false fitLeft fitRight).len = e.len :=
    insertFrag_end hwidth
  have hapart := hfits.insert_apart h.apart (Nat.le_of_lt_succ hwidth)
  have hcount := (hfits.count_middle (h.apart.mono_right (Nat.le_succ _)) (Nat.le_of_lt hwidth)
    (fun _ => Nat.ne_of_lt hwidth) (Nat.le_refl _) (h.unknown hunknown)).2
  rw [hunknown] at hlen
  refine ⟨fun hzero => ?_, fun _ => ⟨hapart, fun _ => hcount, fun hne => absurd hlen hne, ?_⟩⟩
  · rw [isComplete_iff, hcount] at hzero
    exact absurd hzero hapart.holes_succ_ne_zero
  · rw [hlen]
    exact Nat.zero_lt_succ _

/-- The last fragment makes the length known. -/
theorem Fits.resolved_last (hfits : Fits e.frags f true fitLeft fitRight) (h : Counting e)
    (hwidth : fragEnd f < 4294967296) (hunknown : e.len = 0) :
    Resolved (insertFrag (withPacketLen e f true) f true fitLeft fitRight) f true := by
  have hend := fragEnd_eq f
  have hlen : (insertFrag (withPacketLen e f true) f true fitLeft fitRight).len = fragEnd f :=
    insertFrag_end hwidth
  have hapart := hfits.insert_apart h.apart (Nat.le_of_lt_succ hwidth)
  obtain ⟨hfrags, hholes⟩ := hfits.count_last h.apart hwidth (h.unknown hunknown)
  generalize insertFrag (withPacketLen e f true) f true fitLeft fitRight = e' at *
  rw [← hlen] at hfrags hholes
  refine ⟨fun hzero => ?_, fun hopen => ⟨hapart, fun hzero => ?_, fun _ => ⟨hfrags, ?_⟩, ?_⟩⟩
  · rw [isComplete_iff, hholes] at hzero
    have htiles := tiles_of_holes hfrags hzero
    refine ⟨htiles, fun hnil => ?_⟩
    rw [hnil] at htiles
    have : 0 = e'.len := htiles
    exact ⟨by omega, by omega, rfl⟩
  · have hle := hfrags.holes_le
    rw [reasmIsComplete, decide_eq_false_iff_not] at hopen
    omega
  · by_cases hstop : stop fragEnd 0 e'.frags = e'.len
    · exact Or.inl ⟨hstop, hholes⟩
    · have hmove := holes_end offset fragEnd 0 e'.len (e'.len + 1) e'.frags
      have hle := hfrags.stop_le
      rw [if_neg hstop, if_neg (by omega)] at hmove
      exact Or.inr (by omega)
  · rw [hlen]
    exact hwidth

/-- A fragment in front of the end that is known. -/
theorem Fits.resolved_known (hfits : Fits e.frags f false fitLeft fitRight) (h : Counting e)
    (hwidth : fragEnd f < 4294967296) (hknown : e.len ≠ 0) (hb : fragEnd f ≤ e.len) :
    Resolved (insertFrag (withPacketLen e f false) f false fitLeft fitRight) f false := by
  have hlen : (insertFrag (withPacketLen e f false) f false fitLeft fitRight).len = e.len :=
    insertFrag_end hwidth
  have hapart := hfits.insert_apart h.apart (Nat.le_of_lt_succ hwidth)
  have hlt := h.width
  have hlist := insertFrag_list e f false fitLeft fitRight
  obtain ⟨hfrags, hcount⟩ := h.known hknown
  have hfrags' := hfits.insert_apart hfrags hb
  rcases hcount with ⟨hstop, hcount⟩ | hcount
  · have hplace := hfits.not_at_stop (hfrags.trim (Nat.le_refl _))
    rw [hstop] at hplace
    have hcount' := (hfits.count_middle hfrags hb (fun hpos => (hplace hpos).1) (Nat.le_of_lt hlt)
      hcount).2
    have hstop' : stop fragEnd 0
        (insertFrag (withPacketLen e f false) f false fitLeft fitRight).frags = e.len := by
      rw [hlist]
      split
      · next hpos => exact (hplace hpos).2 hb
      · exact hstop
    generalize insertFrag (withPacketLen e f false) f false fitLeft fitRight = e' at *
    rw [← hlen] at hfrags' hcount' hstop' hknown hlt
    refine ⟨fun hzero => ?_, fun _ => ⟨hapart, fun hzero => absurd hzero hknown,
      fun _ => ⟨hfrags', Or.inl ⟨hstop', hcount'⟩⟩, hlt⟩⟩
    rw [isComplete_iff, hcount'] at hzero
    refine ⟨tiles_of_holes hfrags' hzero, fun hnil => ?_⟩
    rw [hnil] at hstop'
    exact absurd hstop'.symm hknown
  · have hcount' := (hfits.count_middle (hfrags.mono_right (Nat.le_succ _)) (Nat.le_succ_of_le hb)
      (fun _ => Nat.ne_of_lt (Nat.lt_succ_of_le hb)) hlt hcount).2
    generalize insertFrag (withPacketLen e f false) f false fitLeft fitRight = e' at *
    rw [← hlen] at hfrags' hcount' hknown hlt
    refine ⟨fun hzero => ?_, fun _ => ⟨hapart, fun hzero => absurd hzero hknown,
      fun _ => ⟨hfrags', Or.inr hcount'⟩, hlt⟩⟩
    rw [isComplete_iff, hcount'] at hzero
    exact absurd hzero hfrags'.holes_succ_ne_zero

/-- **An accepted fragment.** -/
theorem acceptFragment_resolved {u : Unit} (h : Counting e) (hwidth : fragEnd f < 4294967296)
    (hok : acceptFragment e (f, lastFrag) = .ok (u, e')) : Resolved e' f lastFrag := by
  obtain ⟨hagain, hpast, fitLeft, fitRight, hplace, rfl⟩ := acceptFragment_ok hok
  have hfits := fragPlace_fits h.apart (by decide) hwidth hplace
  by_cases hunknown : e.len = 0
  · cases lastFrag with
    | false => exact hfits.resolved_unknown h hwidth hunknown
    | true => exact hfits.resolved_last h hwidth hunknown
  · obtain rfl : lastFrag = false :=
      Bool.of_not_eq_true fun hlast => hunknown (hagain hlast)
    have hb := hpast hunknown
    rw [Nat.add_comm, show toUnsigned (offset f + len f) = fragEnd f from
      Nat.mod_eq_of_lt hwidth] at hb
    exact hfits.resolved_known h hwidth hunknown hb

theorem acceptFragment_of_add (h : reasmAddFragment e f lastFrag = (true, e')) :
    acceptFragment e (f, lastFrag) = .ok ((), e') := by
  simp only [acceptFragment, h]

end Counting

/-! ### The store -/

/-- Every stored fragment is kept whole, and the entries that still take fragments count them. -/
structure SafeStore (s : ReasmIp BaseFrag) : Prop where
  linked : WellLinked s
  stores : s.Stores KeptFrag
  counting : ∀ k ∈ s.time, (s.entry k).state = .active → Counting (s.entry k)

/-- The fragments of an entry cover it. -/
structure CompleteEntry (e : ReasmIpEntry BaseFrag) : Prop where
  frags : e.frags ≠ []
  stores : e.Stores KeptFrag
  tiles : Tiles offset fragEnd 0 e.frags e.len

section Store

variable {s : ReasmIp BaseFrag} {p : ParsedFrag BaseFrag}

theorem storeWith_safe (timeout : Int) : SafeStore (storeWith timeout) :=
  ⟨reasmIpNew_linked.congr rfl rfl rfl rfl rfl, reasmIpNew_stores KeptFrag, nofun⟩

theorem KeptFrag.width {id : ReasmId} {frag : BaseFrag} (h : KeptFrag id frag) :
    fragEnd frag < 4294967296 := by
  have hpayload := h.payload
  have hsize := h.size
  have hplace := h.place
  change frag.offset + frag.len < 4294967296
  omega

/-- Time-outs only take entries away. -/
theorem SafeStore.processTimeouts (h : SafeStore s) (now : Int) :
    SafeStore (processTimeouts s now) := by
  have hout := processTimeouts_timedOut h.linked now
  refine ⟨hout.linked, h.stores.processTimeouts now, fun k hk hactive => ?_⟩
  rw [hout.entry] at hactive ⊢
  exact h.counting k (hout.sublist.subset hk) hactive

/-- A fragment goes into the store, and the entry it completes is covered. -/
theorem SafeStore.fragment (h : SafeStore s) (hkept : KeptFrag p.id p.frag) (hempty : p.NotEmpty)
    (now : Int) :
    SafeStore (reasmIpFragment s p.frag p.id p.lastFrag now).2 ∧
      ∀ e, (reasmIpFragment s p.frag p.id p.lastFrag now).1 = some e → CompleteEntry e := by
  have hfound := getEntry_found h.linked p.id now
  have hput := putFragment_put hfound.linked hfound.stored p.frag p.lastFrag
  obtain ⟨hhanded, hstores⟩ := reasmIpFragment_stores h.stores hkept p.lastFrag now
  have hold : ∀ k ∈ (getEntry s p.id now).2.time,
      ((getEntry s p.id now).2.entry k).state = .active →
        Counting ((getEntry s p.id now).2.entry k) := by
    intro k hk hactive
    rcases hfound.entry k hk with ⟨hmem, hsame⟩ | hnew
    · rw [hsame] at hactive ⊢
      exact h.counting k hmem hactive
    · rw [hnew]
      exact counting_init _ _ _
  have hresolved : ∀ {e}, ((getEntry s p.id now).2.entry (getEntry s p.id now).1).state = .active →
      reasmAddFragment ((getEntry s p.id now).2.entry (getEntry s p.id now).1) p.frag p.lastFrag =
        (true, e) → Resolved e p.frag p.lastFrag := fun hactive hadd =>
    acceptFragment_resolved (hold _ hfound.stored hactive) hkept.width (acceptFragment_of_add hadd)
  refine ⟨⟨hput.linked, hstores, fun k hk hactive => ?_⟩, fun e he => ?_⟩
  · rcases hput.entry k hk with hsame | hinvalid | ⟨rfl, hwas, hadd, hopen⟩
    · rw [show (reasmIpFragment s p.frag p.id p.lastFrag now).2.entry k = _ from hsame] at hactive ⊢
      exact hold k (hput.sublist.subset hk) hactive
    · exact absurd (hinvalid.symm.trans hactive) (by decide)
    · exact (hresolved hwas hadd).2 hopen
  · obtain ⟨-, -, hwas, hadd, hcomplete⟩ := hput.handed e he
    obtain ⟨htiles, hnil⟩ := (hresolved hwas hadd).1 hcomplete
    refine ⟨fun hfrags => ?_, hhanded e he, htiles⟩
    obtain ⟨hlen, hoffset, hlast⟩ := hnil hfrags
    rw [hempty hlen hoffset] at hlast
    cases hlast

end Store

/-! ### Putting a datagram together -/

section Assembly

variable {buf : Bytes} {i n total : Nat}

theorem writeAt_within {src : Bytes} (h : i + src.length ≤ buf.length) :
    Outcome NoFault (fun b => Memory.write buf i src = some b) (writeAt buf i src) := by
  simp only [writeAt, Memory.write_of_le h]
  exact rfl

/-- The payloads of fragments that tile a datagram go behind its header. -/
theorem joinFragments_within (offset0 : Nat) {b : Nat} {frags : List BaseFrag} :
    ∀ {a : Nat} {buf : Bytes}, Tiles offset fragEnd a frags b → offset0 + b ≤ buf.length →
      (∀ f ∈ frags, f.dataOffset + f.len = f.data.length) →
      Outcome NoFault (fun out => out.length = buf.length ∧ ∀ j < offset0 + a, out[j]? = buf[j]?)
        (joinFragments buf offset0 frags) := by
  induction frags with
  | nil => exact fun _ _ _ => ⟨rfl, fun _ _ => rfl⟩
  | cons f rest ih =>
      intro a buf htiles hbuf hkept
      obtain ⟨hstart, hlt, hrest⟩ := htiles
      have hend : fragEnd f = offset f + len f := rfl
      have hle := hrest.apart.le
      rw [joinFragments]
      refine (copyAt_within (Nat.le_of_eq (hkept f (List.mem_cons_self ..)))).bind fun src hsrc => ?_
      have hlen : src.length = len f := by
        rw [hsrc, List.length_take, List.length_drop]
        have := hkept f (List.mem_cons_self ..)
        change min f.len (f.data.length - f.dataOffset) = f.len
        omega
      refine (writeAt_within (by omega)).bind fun buf' hbuf' => ?_
      have hlen' := Memory.length_of_write hbuf'
      refine (ih hrest (by omega) fun g hg => hkept g (List.mem_cons_of_mem _ hg)).imp ?_
      rintro out ⟨hout, hkeep⟩
      refine ⟨hout.trans hlen', fun j hj => ?_⟩
      rw [hkeep j (by omega), Memory.getElem?_of_write hbuf', if_neg (by omega)]

theorem headerSum_within : ∀ {n i : Nat}, i + 2 * n ≤ buf.length →
    Outcome NoFault (fun _ => True) (headerSum buf n i) := by
  intro n
  induction n with
  | zero => exact fun _ => trivial
  | succ n ih =>
      intro i h
      rw [headerSum]
      refine (loadNet16_within (by omega)).bind fun cur _ => ?_
      exact (ih (by omega)).bind fun sum _ => trivial

/-- The header of an IPv4 datagram that has room for its checksum. -/
theorem finishIpv4_within (hroom : 12 ≤ buf.length)
    (hheader : ∀ first, buf[0]? = some first → 4 * ipHl first ≤ buf.length) :
    Outcome NoFault (fun out => out.length = buf.length ∧ loadNet16 out 2 = .ok (total % 65536))
      (finishIpv4 buf total) := by
  unfold finishIpv4
  refine (octetAt_within (by omega)).bind fun first hfirst => ?_
  have hhl : 4 * ipHl first ≤ buf.length := hheader first (octetAt_eq_ok.mp hfirst)
  refine (writeAt_within (by rw [Octets.length_beBytes]; omega)).bind fun b₁ h₁ => ?_
  have hlen₁ := Memory.length_of_write h₁
  refine (writeAt_within (by rw [hlen₁]; exact Nat.le_trans (by decide) hroom)).bind fun b₂ h₂ => ?_
  have hlen₂ := Memory.length_of_write h₂
  refine (writeAt_within (by rw [hlen₂, hlen₁]; exact hroom)).bind fun b₃ h₃ => ?_
  have hlen₃ := Memory.length_of_write h₃
  refine (headerSum_within (by omega)).bind fun sum _ => ?_
  refine (writeAt_within (by rw [Octets.length_beBytes]; omega)).imp fun out hout => ?_
  have hlen := Memory.length_of_write hout
  refine ⟨by omega, ?_⟩
  have hread : Memory.read out 2 2 = some (Octets.beBytes 2 total) := by
    rw [Memory.read_of_write_ne hout (Or.inl (by omega)),
      Memory.read_of_write_ne h₃ (Or.inl (by omega)),
      Memory.read_of_write_ne h₂ (Or.inl (by omega))]
    have := Memory.read_of_write h₁
    rwa [Octets.length_beBytes] at this
  simp only [loadNet16, hread, Octets.beNat_beBytes]
  rfl

/-! A buffer that is longer than it has to be is written alike. -/

section Longer

variable (past : Bytes) {b src : Bytes}

theorem writeAt_append (h : writeAt buf i src = .ok b) :
    writeAt (buf ++ past) i src = .ok (b ++ past) := by
  rw [writeAt, Memory.write_append (writeAt_eq_ok.mp h) past]

theorem restoreNxt_append (id : ReasmId) (first : BaseFrag) (h : restoreNxt id first buf = .ok b) :
    restoreNxt id first (buf ++ past) = .ok (b ++ past) := by
  cases id with
  | ipv4 ipSrc ipDst ipId ipProto =>
      cases h
      rfl
  | ipv6 ipSrc ipDst ipId => exact writeAt_append past h

theorem joinFragments_append (offset0 : Nat) {frags : List BaseFrag} :
    ∀ {buf : Bytes}, joinFragments buf offset0 frags = .ok b →
      joinFragments (buf ++ past) offset0 frags = .ok (b ++ past) := by
  induction frags with
  | nil =>
      rintro buf ⟨⟩
      rfl
  | cons f rest ih =>
      intro buf h
      rw [joinFragments] at h ⊢
      obtain ⟨src, hsrc, h⟩ := Outcome.bind_eq_ok.mp h
      obtain ⟨buf', hbuf', h⟩ := Outcome.bind_eq_ok.mp h
      exact Outcome.bind_eq_ok.mpr ⟨src, hsrc,
        Outcome.bind_eq_ok.mpr ⟨buf' ++ past, writeAt_append past hbuf', ih h⟩⟩

theorem headerSum_extends : ∀ n i : Nat, Extends (headerSum buf n i) (headerSum (buf ++ past) n i)
  | 0, _ => Extends.refl _
  | n + 1, i => (loadNet16_extends _ past i).bind fun _ => (headerSum_extends n (i + 2)).bind fun _ =>
      Extends.refl _

theorem finishIpv4_append (h : finishIpv4 buf total = .ok b) :
    finishIpv4 (buf ++ past) total = .ok (b ++ past) := by
  unfold finishIpv4 at h ⊢
  obtain ⟨first, hfirst, h⟩ := Outcome.bind_eq_ok.mp h
  obtain ⟨b₁, h₁, h⟩ := Outcome.bind_eq_ok.mp h
  obtain ⟨b₂, h₂, h⟩ := Outcome.bind_eq_ok.mp h
  obtain ⟨b₃, h₃, h⟩ := Outcome.bind_eq_ok.mp h
  obtain ⟨sum, hsum, h⟩ := Outcome.bind_eq_ok.mp h
  refine Outcome.bind_eq_ok.mpr ⟨first, octetAt_extends _ past 0 first hfirst, ?_⟩
  refine Outcome.bind_eq_ok.mpr ⟨_, writeAt_append past h₁, ?_⟩
  refine Outcome.bind_eq_ok.mpr ⟨_, writeAt_append past h₂, ?_⟩
  refine Outcome.bind_eq_ok.mpr ⟨_, writeAt_append past h₃, ?_⟩
  exact Outcome.bind_eq_ok.mpr ⟨sum, headerSum_extends past _ _ sum hsum, writeAt_append past h⟩

theorem finishHeader_append (id : ReasmId) (h : finishHeader id buf total = .ok b) :
    finishHeader id (buf ++ past) total = .ok (b ++ past) := by
  cases id with
  | ipv4 ipSrc ipDst ipId ipProto => exact finishIpv4_append past h
  | ipv6 ipSrc ipDst ipId => exact writeAt_append past h

/-- What goes into the buffer of `reasm_assemble`. -/
def fillPacket (e : ReasmIpEntry BaseFrag) (first : BaseFrag) (total : Nat) (buf : Bytes) :
    Except Abort Bytes := do
  let header ← copyAt first.data 0 (headerLen e.id first.dataOffset)
  let buf ← writeAt buf 0 header
  let buf ← restoreNxt e.id first buf
  let buf ← joinFragments buf (headerLen e.id first.dataOffset) e.frags
  finishHeader e.id buf total

theorem fillPacket_append {e : ReasmIpEntry BaseFrag} {first : BaseFrag}
    (h : fillPacket e first total buf = .ok b) :
    fillPacket e first total (buf ++ past) = .ok (b ++ past) := by
  unfold fillPacket at h ⊢
  obtain ⟨header, hheader, h⟩ := Outcome.bind_eq_ok.mp h
  obtain ⟨b₁, h₁, h⟩ := Outcome.bind_eq_ok.mp h
  obtain ⟨b₂, h₂, h⟩ := Outcome.bind_eq_ok.mp h
  obtain ⟨b₃, h₃, h⟩ := Outcome.bind_eq_ok.mp h
  refine Outcome.bind_eq_ok.mpr ⟨header, hheader, ?_⟩
  refine Outcome.bind_eq_ok.mpr ⟨_, writeAt_append past h₁, ?_⟩
  refine Outcome.bind_eq_ok.mpr ⟨_, restoreNxt_append past e.id first h₂, ?_⟩
  exact Outcome.bind_eq_ok.mpr ⟨_, joinFragments_append past _ h₃, finishHeader_append past e.id h⟩

end Longer

/-- Octets of the datagram an entry is put together to. -/
def assembledLen (e : ReasmIpEntry BaseFrag) : Nat :=
  match e.frags with
  | [] => 0
  | first :: _ => e.len + headerLen e.id first.dataOffset

section Fill

variable {e : ReasmIpEntry BaseFrag} {first : BaseFrag} {rest : List BaseFrag}

/-- What is known of the header of the first fragment. -/
structure HeaderKept (id : ReasmId) (first : BaseFrag) (offset0 : Nat) : Prop where
  within : offset0 ≤ first.data.length
  size : offset0 < 65536
  ipv4 : ∀ ipSrc ipDst ipId ipProto, id = .ipv4 ipSrc ipDst ipId ipProto →
    offset0 = first.dataOffset ∧
      ∀ octet, first.data.head? = some octet → offset0 = 4 * ipHl octet
  ipv6 : ∀ ipSrc ipDst ipId, id = .ipv6 ipSrc ipDst ipId → 40 ≤ offset0 ∧ first.lastNxt < offset0

theorem KeptFrag.header {id : ReasmId} (h : KeptFrag id first) :
    HeaderKept id first (headerLen id first.dataOffset) := by
  have hpayload := h.payload
  have hsize := h.size
  cases id with
  | ipv4 ipSrc ipDst ipId ipProto =>
      exact ⟨by rw [headerLen]; omega, by rw [headerLen]; omega,
        fun _ _ _ _ _ => ⟨rfl, h.ipv4 _ _ _ _ rfl⟩, nofun⟩
  | ipv6 ipSrc ipDst ipId =>
      obtain ⟨hmin, hlast⟩ := h.ipv6 _ _ _ rfl
      have hlen : headerLen (.ipv6 ipSrc ipDst ipId) first.dataOffset = first.dataOffset - 8 :=
        subUnsigned_of_le (by omega) (by omega)
      rw [hlen]
      exact ⟨by omega, by omega, nofun, fun _ _ _ _ => ⟨by omega, by omega⟩⟩

/-- The payload of a datagram is not empty, and far shorter than a number of 32 bits counts. -/
theorem CompleteEntry.len_bounds (h : CompleteEntry e) : 0 < e.len ∧ e.len < 131072 := by
  obtain ⟨f, hf, hlt, hlast⟩ := h.tiles.exists_last h.frags
  have hkept := h.stores f hf
  have hpayload := hkept.payload
  have hsize := hkept.size
  have hplace := hkept.place
  have hend : fragEnd f = f.offset + f.len := rfl
  omega

/-- The first octet put out is the first octet of the first fragment, header or not. -/
theorem joinFragments_first {offset0 b : Nat} (htiles : Tiles offset fragEnd 0 (first :: rest) b)
    (hbuf : offset0 + b ≤ buf.length)
    (hkept : ∀ f ∈ first :: rest, f.dataOffset + f.len = f.data.length)
    (hstart : 0 < offset0 → buf[0]? = first.data[0]?) (hzero : offset0 = 0 → first.dataOffset = 0) :
    Outcome NoFault (fun out => out.length = buf.length ∧ out[0]? = first.data[0]?)
      (joinFragments buf offset0 (first :: rest)) := by
  by_cases hpos : 0 < offset0
  · refine (joinFragments_within offset0 htiles hbuf hkept).imp ?_
    rintro out ⟨hlen, hkeep⟩
    exact ⟨hlen, (hkeep 0 (by omega)).trans (hstart hpos)⟩
  · -- no header: the payload of the first fragment is its whole packet
    obtain rfl : offset0 = 0 := Nat.eq_zero_of_not_pos hpos
    obtain ⟨hplace, hlt, hrest⟩ := htiles
    have hle := hrest.apart.le
    have hfirst := hkept first (List.mem_cons_self ..)
    have hoffset := hzero rfl
    have hend : fragEnd first = offset first + len first := rfl
    have hdata : len first = first.data.length := by
      change first.len = _
      omega
    rw [joinFragments]
    refine (copyAt_within (Nat.le_of_eq hfirst)).bind fun src hsrc => ?_
    have hsrc' : src = first.data := by
      rw [hsrc, hoffset, List.drop_zero, show first.len = _ from hdata, List.take_length]
    refine (writeAt_within (by rw [hsrc', ← hdata]; omega)).bind fun buf' hbuf' => ?_
    have hlen' := Memory.length_of_write hbuf'
    refine (joinFragments_within 0 hrest (by omega) fun g hg =>
      hkept g (List.mem_cons_of_mem _ hg)).imp ?_
    rintro out ⟨hout, hkeep⟩
    refine ⟨hout.trans hlen', ?_⟩
    rw [hkeep 0 (by omega), Memory.getElem?_of_write hbuf', if_pos (by rw [hsrc', ← hdata]; omega),
      hsrc', hplace]

theorem assembledLen_eq (hfrags : e.frags = first :: rest) :
    assembledLen e = e.len + headerLen e.id first.dataOffset := by
  rw [assembledLen, hfrags]

/-- What `reasm_assemble` computes of an entry that is not too long to be counted. -/
theorem reasmAssemble_eq (hfrags : e.frags = first :: rest) (hlen : assembledLen e < 4294967296)
    (n : Nat) :
    reasmAssemble e n =
      if n < assembledLen e then .ok []
      else (fun b => b.take (assembledLen e)) <$>
        fillPacket e first (assembledLen e) (List.replicate n 0) := by
  have htotal : toUnsigned (e.len + headerLen e.id first.dataOffset) = assembledLen e := by
    rw [← assembledLen_eq hfrags]
    exact Nat.mod_eq_of_lt hlen
  unfold reasmAssemble
  rw [hfrags]
  dsimp only
  rw [htotal]
  split
  · rfl
  · simp only [fillPacket, hfrags, map_eq_pure_bind, bind_assoc]

theorem CompleteEntry.assembledLen_lt (h : CompleteEntry e) : assembledLen e < 4294967296 := by
  obtain ⟨first, rest, hfrags⟩ := List.exists_cons_of_ne_nil h.frags
  obtain ⟨-, hlen⟩ := h.len_bounds
  have hheader := (h.stores first (hfrags ▸ List.mem_cons_self ..)).header.size
  rw [assembledLen_eq hfrags]
  omega

/-- The length field of a datagram, with its value. -/
def LengthField (id : ReasmId) (out : Bytes) (total : Nat) : Prop :=
  match id with
  | .ipv4 .. => loadNet16 out 2 = .ok total
  | .ipv6 .. => loadNet16 out 4 = .ok (total - 40)

/-- **A datagram is put together** in a buffer of just its octets. -/
theorem fillPacket_within (h : CompleteEntry e) (hfrags : e.frags = first :: rest)
    (hsize : assembledLen e ≤ 65536)
    (hroom : ∀ ipSrc ipDst ipId ipProto, e.id = .ipv4 ipSrc ipDst ipId ipProto →
      12 ≤ assembledLen e ∧ assembledLen e ≠ 65536) :
    Outcome NoFault (fun out => out.length = assembledLen e ∧ LengthField e.id out (assembledLen e))
      (fillPacket e first (assembledLen e) (List.replicate (assembledLen e) 0)) := by
  have htotal := assembledLen_eq hfrags
  have hheader : HeaderKept e.id first (headerLen e.id first.dataOffset) :=
    (h.stores first (hfrags ▸ List.mem_cons_self ..)).header
  have hkept : ∀ f ∈ first :: rest, f.dataOffset + f.len = f.data.length := fun f hf =>
    (h.stores f (hfrags ▸ hf)).payload
  have htiles := h.tiles
  have hwithin := hheader.within
  rw [hfrags] at htiles
  unfold fillPacket
  rw [hfrags]
  generalize headerLen e.id first.dataOffset = offset0 at *
  generalize assembledLen e = total at *
  refine (copyAt_within (by omega)).bind fun header hcopy => ?_
  have hlen : header.length = offset0 := by
    rw [hcopy, List.length_take, List.length_drop]
    omega
  refine (writeAt_within (by rw [List.length_replicate, hlen]; omega)).bind fun b₁ h₁ => ?_
  have hlen₁ : b₁.length = total := by rw [Memory.length_of_write h₁, List.length_replicate]
  generalize e.id = id at *
  cases id with
  | ipv4 ipSrc ipDst ipId ipProto =>
      obtain ⟨hdata, hhl⟩ := hheader.ipv4 _ _ _ _ rfl
      obtain ⟨hmin, hmax⟩ := hroom _ _ _ _ rfl
      change Outcome _ _ (joinFragments b₁ offset0 (first :: rest) >>= _)
      refine (joinFragments_first htiles (by omega) hkept (fun hpos => ?_) fun hzero => ?_).bind
        fun b₂ h₂ => ?_
      · rw [Memory.getElem?_of_write h₁, if_pos (by omega), hcopy, List.drop_zero,
          List.getElem?_take_of_lt hpos]
      · omega
      · refine (finishIpv4_within (by omega) fun octet hoctet => ?_).imp fun out hout => ?_
        · rw [h₂.2, ← List.head?_eq_getElem?] at hoctet
          rw [← hhl octet hoctet]
          omega
        · obtain ⟨hlength, hfield⟩ := hout
          exact ⟨by omega, by rwa [Nat.mod_eq_of_lt (by omega)] at hfield⟩
  | ipv6 ipSrc ipDst ipId =>
      obtain ⟨hmin, hlast⟩ := hheader.ipv6 _ _ _ rfl
      refine (writeAt_within (by rw [hlen₁, List.length_singleton]; omega)).bind fun b₂ h₂ => ?_
      have hlen₂ := Memory.length_of_write h₂
      refine (joinFragments_within offset0 htiles (by omega) hkept).bind fun b₃ h₃ => ?_
      refine (writeAt_within (by rw [Octets.length_beBytes]; omega)).imp fun out hout => ?_
      refine ⟨by rw [Memory.length_of_write hout]; omega, ?_⟩
      have hread := Memory.read_of_write hout
      rw [Octets.length_beBytes, subUnsigned_of_le (by omega) (by omega)] at hread
      have hlt : total - 40 < 256 ^ 2 := by omega
      simp only [LengthField, loadNet16, hread, Octets.beNat_beBytes_of_lt hlt]

theorem length_of_writeAt {src b : Bytes} (h : writeAt buf i src = .ok b) :
    b.length = buf.length ∧ i + src.length ≤ buf.length := by
  have hwrite := writeAt_eq_ok.mp h
  exact ⟨Memory.length_of_write hwrite, (Memory.write_eq_some.mp hwrite).1⟩

/-- The checksum of the header is written into the buffer. -/
theorem finishIpv4_room {b : Bytes} (h : finishIpv4 buf total = .ok b) : 12 ≤ buf.length := by
  unfold finishIpv4 at h
  obtain ⟨first, -, h⟩ := Outcome.bind_eq_ok.mp h
  obtain ⟨b₁, h₁, h⟩ := Outcome.bind_eq_ok.mp h
  obtain ⟨b₂, h₂, h⟩ := Outcome.bind_eq_ok.mp h
  obtain ⟨b₃, h₃, -⟩ := Outcome.bind_eq_ok.mp h
  have hroom := (length_of_writeAt h₃).2
  rwa [(length_of_writeAt h₂).1, (length_of_writeAt h₁).1] at hroom

theorem fillPacket_length {b : Bytes} (h : fillPacket e first total buf = .ok b) :
    b.length = buf.length ∧
      (∀ ipSrc ipDst ipId ipProto, e.id = .ipv4 ipSrc ipDst ipId ipProto → 12 ≤ buf.length) := by
  unfold fillPacket at h
  obtain ⟨header, -, h⟩ := Outcome.bind_eq_ok.mp h
  obtain ⟨b₁, h₁, h⟩ := Outcome.bind_eq_ok.mp h
  obtain ⟨b₂, h₂, h⟩ := Outcome.bind_eq_ok.mp h
  obtain ⟨b₃, h₃, h⟩ := Outcome.bind_eq_ok.mp h
  have hlen₁ := (length_of_writeAt h₁).1
  have hlen₂ := (restoreNxt_outcome e.id first b₁).of_ok h₂
  have hlen₃ := (joinFragments_outcome _ _ _).of_ok h₃
  have hlen := (finishHeader_outcome e.id b₃ total).of_ok h
  refine ⟨by omega, fun ipSrc ipDst ipId ipProto hid => ?_⟩
  rw [hid] at h
  have := finishIpv4_room h
  omega

end Fill

/-- **What `reasm_assemble` should do** with a buffer of 65536 octets: there is a fragment, and
unless the datagram is too long for the buffer, the same is put out into a buffer of just its
octets, and its length field says how many these are. -/
def AssembledRight (e : ReasmIpEntry BaseFrag) : Prop :=
  e.frags ≠ [] ∧ ∃ out, reasmAssemble e 65536 = .ok out ∧
    (out ≠ [] → reasmAssemble e out.length = .ok out ∧ LengthField e.id out out.length)

/-- An IPv4 datagram has room for the checksum of its header, and its length field for its
length. -/
def LengthFits (e : ReasmIpEntry BaseFrag) : Prop :=
  match e.id with
  | .ipv4 .. => 12 ≤ assembledLen e ∧ assembledLen e ≠ 65536
  | .ipv6 .. => True

theorem LengthFits.ipv4 {e : ReasmIpEntry BaseFrag} (h : LengthFits e) :
    ∀ ipSrc ipDst ipId ipProto, e.id = .ipv4 ipSrc ipDst ipId ipProto →
      12 ≤ assembledLen e ∧ assembledLen e ≠ 65536 := by
  intro ipSrc ipDst ipId ipProto hid
  rw [LengthFits, hid] at h
  exact h

theorem assembledRight_of_fits {e : ReasmIpEntry BaseFrag} (h : CompleteEntry e)
    (hfits : LengthFits e) : AssembledRight e := by
  refine ⟨h.frags, ?_⟩
  obtain ⟨first, rest, hfrags⟩ := List.exists_cons_of_ne_nil h.frags
  have heq := reasmAssemble_eq hfrags h.assembledLen_lt
  by_cases hlong : 65536 < assembledLen e
  · refine ⟨[], ?_, fun hne => absurd rfl hne⟩
    rw [heq, if_pos hlong]
  · have hfill := fillPacket_within h hfrags (Nat.le_of_not_lt hlong) hfits.ipv4
    cases hout : fillPacket e first (assembledLen e) (List.replicate (assembledLen e) 0) with
    | error error => exact (hfill.of_error hout).elim
    | ok out =>
        obtain ⟨hlen, hfield⟩ := hfill.of_ok hout
        have hbuf : List.replicate 65536 (0 : UInt8) =
            List.replicate (assembledLen e) 0 ++ List.replicate (65536 - assembledLen e) 0 := by
          rw [← List.replicate_add, Nat.add_sub_cancel' (Nat.le_of_not_lt hlong)]
        refine ⟨out, ?_, fun _ => ⟨?_, hlen ▸ hfield⟩⟩
        · rw [heq, if_neg hlong, hbuf, fillPacket_append _ hout]
          exact congrArg Except.ok (List.take_left' hlen)
        · rw [heq, hlen, if_neg (Nat.lt_irrefl _), hout]
          exact congrArg Except.ok (List.take_of_length_le (Nat.le_of_eq hlen))

theorem fits_of_assembledRight {e : ReasmIpEntry BaseFrag} (h : CompleteEntry e)
    (hright : AssembledRight e) : LengthFits e := by
  obtain ⟨-, out, hout, hright⟩ := hright
  obtain ⟨first, rest, hfrags⟩ := List.exists_cons_of_ne_nil h.frags
  have heq := reasmAssemble_eq hfrags h.assembledLen_lt
  have hpos : 0 < assembledLen e := by
    rw [assembledLen_eq hfrags]
    exact Nat.add_pos_left h.len_bounds.1 _
  unfold LengthFits
  cases hid : e.id with
  | ipv6 ipSrc ipDst ipId => trivial
  | ipv4 ipSrc ipDst ipId ipProto =>
      by_cases hlong : 65536 < assembledLen e
      · exact ⟨by omega, by omega⟩
      · rw [heq, if_neg hlong] at hout
        cases hfill : fillPacket e first (assembledLen e) (List.replicate 65536 0) with
        | error error =>
            rw [hfill] at hout
            cases hout
        | ok b =>
            rw [hfill] at hout
            have hb : b.take (assembledLen e) = out := Except.ok.inj hout
            have hlen : out.length = assembledLen e := by
              rw [← hb, List.length_take, (fillPacket_length hfill).1, List.length_replicate]
              omega
            obtain ⟨hexact, hfield⟩ := hright (List.ne_nil_of_length_pos (hlen ▸ hpos))
            rw [hlen] at hexact hfield
            constructor
            · rw [heq, if_neg (Nat.lt_irrefl _)] at hexact
              cases hfill' : fillPacket e first (assembledLen e)
                  (List.replicate (assembledLen e) 0) with
              | error error =>
                  rw [hfill'] at hexact
                  cases hexact
              | ok b' =>
                  have := (fillPacket_length hfill').2 _ _ _ _ hid
                  rwa [List.length_replicate] at this
            · rw [hid] at hfield
              have := loadNet16_lt hfield
              omega

end Assembly

/-! ### Runs -/

/-- The payload of every fragment ends with its copy. -/
def FragsWithin (e : ReasmIpEntry BaseFrag) : Prop :=
  ∀ f ∈ e.frags, f.dataOffset + f.len ≤ f.data.length

theorem FragsWithin.of_stores {e : ReasmIpEntry BaseFrag} (h : e.Stores KeptFrag) :
    FragsWithin e := fun f hf => Nat.le_of_eq (h f hf).payload

/-- What a call should leave: fragments that end with their copies, in the store and in an entry
handed out, which `reasm_assemble` then puts together as it should. -/
def MemorySafe (out : Bool × Option (ReasmIpEntry BaseFrag)) (s : ReasmIp BaseFrag) : Prop :=
  (∀ k ∈ s.time, FragsWithin (s.entry k)) ∧
    ∀ e, out.2 = some e → FragsWithin e ∧ AssembledRight e

/-- **A call on a sound packet.** -/
theorem reasmCall_safe {s : ReasmIp BaseFrag} {c : ReasmCall} (h : SafeStore s)
    (hheader : HasFixedHeader c.packet) (hsound : SoundPacket c.packet) :
    ∃ out s', reasmCall s c = .ok (out, s') ∧ SafeStore s' ∧
      ∀ e, out.2 = some e → CompleteEntry e := by
  have hparse := reasmParsePacket_within hheader c.timestamp
  have hout := h.processTimeouts c.timestamp.sec
  unfold reasmCall reasmIpNext
  cases hp : reasmParsePacket c.packet c.packet.length c.timestamp with
  | error e => exact (hparse.of_error hp).elim
  | ok p =>
      cases p with
      | none => exact ⟨(false, none), _, rfl, hout, nofun⟩
      | some p =>
          obtain ⟨hkept, hempty⟩ := hparse.of_ok hp p rfl hsound
          obtain ⟨hsafe, hcomplete⟩ := hout.fragment hkept hempty c.timestamp.sec
          exact ⟨(true, _), _, rfl, hsafe, hcomplete⟩

/-- **Reassembly of any packets.** While the packets are sound nothing is read outside a packet and
no fragment outside its copy; and a datagram that is complete is put together as it should be
exactly when its length suits its header. -/
theorem reassembly_memory_safe (timeout : Int) {calls : List ReasmCall}
    (hheader : ∀ c ∈ calls, HasFixedHeader c.packet)
    (hsound : ∀ c ∈ calls, SoundPacket c.packet) :
    Always reasmCall (fun _ _ out s => (∀ k ∈ s.time, FragsWithin (s.entry k)) ∧
        ∀ e, out.2 = some e → FragsWithin e ∧ e.frags ≠ [] ∧ (AssembledRight e ↔ LengthFits e))
      (storeWith timeout) calls := by
  apply always_of_ordered SafeStore (P := fun c => HasFixedHeader c.packet ∧ SoundPacket c.packet)
    (R := fun _ _ => True) (B := fun _ _ => True) _ (storeWith_safe timeout)
    (fun c hc => ⟨hheader c hc, hsound c hc⟩) (List.pairwise_of_forall fun _ _ => trivial)
    fun _ _ => trivial
  rintro s c hsafe ⟨hheader, hsound⟩ -
  obtain ⟨out, s', hok, hsafe', hcomplete⟩ := reasmCall_safe hsafe hheader hsound
  refine ⟨out, s', hok, ⟨fun k _ => FragsWithin.of_stores (hsafe'.stores k), fun e he => ?_⟩, hsafe',
    fun _ _ => trivial⟩
  have h := hcomplete e he
  exact ⟨FragsWithin.of_stores h.stores, h.frags, fits_of_assembledRight h,
    assembledRight_of_fits h⟩

theorem firstHalf_sound : SoundPacket firstHalf := by
  refine ⟨?_, ?_⟩
  · rintro first ipLen off ⟨⟩ - ⟨⟩ - - -
    decide
  · rintro first nxt plen offset lastNxt offlg ⟨⟩ hv
    exact absurd hv (by decide)

theorem reassembly_memory_safe_sample :
    Always reasmCall (fun _ _ out s => (∀ k ∈ s.time, FragsWithin (s.entry k)) ∧
        ∀ e, out.2 = some e → FragsWithin e ∧ e.frags ≠ [] ∧ (AssembledRight e ↔ LengthFits e))
      (storeWith 60) [⟨firstHalf, ⟨1000, 0⟩⟩] := by
  apply reassembly_memory_safe
  · rintro c hc
    rw [List.mem_singleton.mp hc]
    exact firstHalf_header
  · rintro c hc
    rw [List.mem_singleton.mp hc]
    exact firstHalf_sound

/-- An IPv4 fragment of 52 octets whose header says it has 60. -/
def longHeader : Bytes :=
  [0x4f, 0, 0, 52, 0, 1, 0x20, 0, 64, 17, 0, 0, 1, 2, 3, 4, 5, 6, 7, 8] ++ List.replicate 32 0

/-- The payload of the fragment is stored as 4294967288 octets behind the 60th of 52. -/
theorem header_behind_packet : HasFixedHeader longHeader ∧
    ¬ Always reasmCall (fun _ _ out s => MemorySafe out s) (storeWith 60)
      [⟨longHeader, ⟨1000, 0⟩⟩] := by
  constructor
  · refine ⟨List.cons_ne_nil _ _, fun _ _ _ => by decide, fun first hfirst hv => ?_⟩
    cases hfirst
    exact absurd hv (by decide)
  · rintro ⟨out, s', hok, ⟨hstored, -⟩, -⟩
    have hrun : match reasmCall (storeWith 60) ⟨longHeader, ⟨1000, 0⟩⟩ with
        | .error _ => False
        | .ok (_, s) => s.time = [0] ∧
            (s.entry 0).frags = [⟨⟨1000, 0⟩, 4294967288, 0, 60, 0, 0, longHeader⟩] := ⟨rfl, rfl⟩
    rw [hok] at hrun
    obtain ⟨htime, hfrags⟩ := hrun
    have hk : 0 ∈ s'.time := htime ▸ List.mem_singleton_self 0
    have hwithin := hstored 0 hk _ (hfrags ▸ List.mem_singleton_self _)
    exact absurd hwithin (by decide)

end Nmsg

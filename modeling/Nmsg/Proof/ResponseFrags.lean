import Nmsg.Dnsqr.Getters
import Nmsg.Proof.PacketReads
import Nmsg.Proof.ResponseEntry

/-!
# The fragments of a received message

The packets of a received message are read as fragments one after the other, each with its time, and
need not be alike in anything. What they are put together to is read within as long as each of them
lies in its packet and has its place in the buffer, and the datagram can be read again.
-/

namespace Nmsg

open ReasmFrag Tiling
open Prefixes (EachAfter eachAfter_cons eachAfter_nil)

/-! ### The loop over the packets -/

/-- A packet with its time goes into an entry, if it is a fragment that is accepted. -/
def acceptFrame (e : ReasmIpEntry BaseFrag) (frame : Bytes × Timespec) :
    Option (ReasmIpEntry BaseFrag) :=
  match reasmParsePacket frame.1 (toUnsigned frame.1.length) frame.2 with
  | .ok (some p) =>
      match reasmAddFragment { e with id := p.id } p.frag p.lastFrag with
      | (true, e') => some e'
      | (false, _) => none
  | _ => none

/-- The entry with all of the packets, if they are accepted one after the other. -/
def acceptFrames (e : ReasmIpEntry BaseFrag) : List (Bytes × Timespec) →
    Option (ReasmIpEntry BaseFrag) :=
  List.foldlM acceptFrame e

/-- The packets that have both parts of a time. -/
def timedFrames (pkts : List Bytes) (secs nsecs : List Int) : List (Bytes × Timespec) :=
  pkts.zip (List.zipWith Timespec.mk secs nsecs)

/-- The packets are read up to the first that is not accepted, and all of them have times if all are
accepted. -/
structure FramesReadable (e : ReasmIpEntry BaseFrag) (pkts : List Bytes) (secs nsecs : List Int) :
    Prop where
  packets : EachAfter (fun before frame => acceptFrames e before ≠ none → FragmentReadable frame.1)
    (timedFrames pkts secs nsecs)
  times : acceptFrames e (timedFrames pkts secs nsecs) ≠ none →
    pkts.length ≤ secs.length ∧ pkts.length ≤ nsecs.length

section Loop

variable {e e' : ReasmIpEntry BaseFrag} {frame : Bytes × Timespec} {pkt : Bytes}
  {pkts : List Bytes} {secs nsecs : List Int} {ts : Timespec}

theorem acceptFrame_eq_some (h : acceptFrame e frame = some e') :
    ∃ p, reasmParsePacket frame.1 (toUnsigned frame.1.length) frame.2 = .ok (some p) ∧
      reasmAddFragment { e with id := p.id } p.frag p.lastFrag = (true, e') := by
  unfold acceptFrame at h
  split at h
  · next p hparse =>
      split at h
      · next hadd =>
          cases h
          exact ⟨p, hparse, hadd⟩
      · cases h
  · cases h

@[simp]
theorem acceptFrames_nil : acceptFrames e [] = some e := rfl

theorem acceptFrames_cons (frames : List (Bytes × Timespec)) :
    acceptFrames e (frame :: frames) = (acceptFrame e frame).bind fun e => acceptFrames e frames :=
  List.foldlM_cons

/-- One packet of the loop. -/
theorem rereadFragments_cons {r : Option (ParsedFrag BaseFrag)} {sec nsec : Int}
    (hparse : reasmParsePacket pkt (toUnsigned pkt.length) ⟨sec, nsec⟩ = .ok r) :
    rereadFragments e (pkt :: pkts) (sec :: secs) (nsec :: nsecs) =
      match acceptFrame e (pkt, ⟨sec, nsec⟩) with
      | none => .ok none
      | some e' => rereadFragments e' pkts secs nsecs := by
  rw [rereadFragments, acceptFrame, hparse]
  cases r with
  | none => rfl
  | some p =>
      simp only [bind, Except.bind]
      rcases reasmAddFragment { e with id := p.id } p.frag p.lastFrag with ⟨_ | _, e'⟩ <;> rfl

/-- **The loop** is left with the entry of all packets, or at the first that is not accepted. -/
theorem rereadFragments_ok {r : Option (ReasmIpEntry BaseFrag)} :
    ∀ {pkts : List Bytes} {e : ReasmIpEntry BaseFrag} {secs nsecs : List Int},
      rereadFragments e pkts secs nsecs = .ok r →
        acceptFrames e (timedFrames pkts secs nsecs) = r := by
  intro pkts
  induction pkts with
  | nil =>
      rintro e secs nsecs ⟨⟩
      rfl
  | cons pkt pkts ih =>
      intro e secs nsecs hok
      rcases secs with _ | ⟨sec, secs⟩
      · cases nsecs <;> cases hok
      · rcases nsecs with _ | ⟨nsec, nsecs⟩
        · cases hok
        · change acceptFrames e ((pkt, ⟨sec, nsec⟩) :: timedFrames pkts secs nsecs) = r
          rw [acceptFrames_cons]
          cases hparse : reasmParsePacket pkt (toUnsigned pkt.length) ⟨sec, nsec⟩ with
          | error err =>
              rw [rereadFragments, hparse] at hok
              cases hok
          | ok p =>
              rw [rereadFragments_cons hparse] at hok
              cases haccept : acceptFrame e (pkt, ⟨sec, nsec⟩) with
              | none =>
                  rw [haccept] at hok
                  cases hok
                  rfl
              | some e' =>
                  rw [haccept] at hok
                  exact ih hok

theorem framesReadable_cons {sec nsec : Int} :
    FramesReadable e (pkt :: pkts) (sec :: secs) (nsec :: nsecs) ↔
      FragmentReadable pkt ∧ ∀ e', acceptFrame e (pkt, ⟨sec, nsec⟩) = some e' →
        FramesReadable e' pkts secs nsecs := by
  have hframes : timedFrames (pkt :: pkts) (sec :: secs) (nsec :: nsecs) =
      (pkt, ⟨sec, nsec⟩) :: timedFrames pkts secs nsecs := rfl
  constructor
  · rintro ⟨hpackets, htimes⟩
    rw [hframes, eachAfter_cons] at hpackets
    rw [hframes, acceptFrames_cons] at htimes
    refine ⟨hpackets.1 (Option.some_ne_none e), fun e' haccept => ⟨?_, fun hall => ?_⟩⟩
    · refine hpackets.2.mono fun before frame hframe hbefore => hframe ?_
      rwa [acceptFrames_cons, haccept]
    · rw [haccept] at htimes
      obtain ⟨hsecs, hnsecs⟩ := htimes hall
      exact ⟨Nat.le_of_succ_le_succ hsecs, Nat.le_of_succ_le_succ hnsecs⟩
  · rintro ⟨hfirst, hrest⟩
    constructor
    · rw [hframes, eachAfter_cons]
      refine ⟨fun _ => hfirst, ?_⟩
      cases haccept : acceptFrame e (pkt, ⟨sec, nsec⟩) with
      | none =>
          intro before frame after _ hbefore
          rw [acceptFrames_cons, haccept] at hbefore
          exact absurd rfl hbefore
      | some e' =>
          refine (hrest e' haccept).packets.mono fun before frame hframe hbefore => hframe ?_
          rwa [acceptFrames_cons, haccept] at hbefore
    · intro hall
      rw [hframes, acceptFrames_cons] at hall
      cases haccept : acceptFrame e (pkt, ⟨sec, nsec⟩) with
      | none =>
          rw [haccept] at hall
          exact absurd rfl hall
      | some e' =>
          rw [haccept] at hall
          obtain ⟨hsecs, hnsecs⟩ := (hrest e' haccept).times hall
          exact ⟨Nat.succ_le_succ hsecs, Nat.succ_le_succ hnsecs⟩

/-- **The loop is left** just when the packets it gets to are there to be read, with their times. -/
theorem rereadFragments_ok_iff : ∀ {pkts : List Bytes} {e : ReasmIpEntry BaseFrag}
    {secs nsecs : List Int},
    (∃ r, rereadFragments e pkts secs nsecs = .ok r) ↔ FramesReadable e pkts secs nsecs := by
  intro pkts
  induction pkts with
  | nil =>
      intro e secs nsecs
      exact ⟨fun _ => ⟨eachAfter_nil, fun _ => ⟨Nat.zero_le _, Nat.zero_le _⟩⟩, fun _ => ⟨_, rfl⟩⟩
  | cons pkt pkts ih =>
      intro e secs nsecs
      rcases secs with _ | ⟨sec, secs⟩
      · refine ⟨?_, fun h => ?_⟩
        · rintro ⟨r, hok⟩
          cases nsecs <;> cases hok
        · have := (h.times (by rw [timedFrames]; simp)).1
          cases this
      · rcases nsecs with _ | ⟨nsec, nsecs⟩
        · refine ⟨?_, fun h => ?_⟩
          · rintro ⟨r, ⟨⟩⟩
          · have := (h.times (by rw [timedFrames]; simp)).2
            cases this
        · rw [framesReadable_cons, ← @reasmParsePacket_ok_iff pkt ⟨sec, nsec⟩]
          cases hparse : reasmParsePacket pkt (toUnsigned pkt.length) ⟨sec, nsec⟩ with
          | error err =>
              refine ⟨?_, ?_⟩
              · rintro ⟨r, hok⟩
                rw [rereadFragments, hparse] at hok
                cases hok
              · rintro ⟨⟨r, ⟨⟩⟩, -⟩
          | ok p =>
              rw [rereadFragments_cons hparse]
              cases acceptFrame e (pkt, ⟨sec, nsec⟩) with
              | none => exact ⟨fun _ => ⟨⟨p, rfl⟩, by rintro _ ⟨⟩⟩, fun _ => ⟨none, rfl⟩⟩
              | some e' =>
                  rw [ih]
                  refine ⟨fun h => ⟨⟨p, rfl⟩, ?_⟩, fun h => h.2 e' rfl⟩
                  rintro _ ⟨⟩
                  exact h

end Loop

/-! ### What an entry holds -/

/-- The fragments of an entry, each with what was captured of its packet, are in order. -/
structure TakenEntry (e : ReasmIpEntry BaseFrag) : Prop where
  frags : ∀ f ∈ e.frags, ∃ id, KeptFrag id f ∧ (f.isIpv6 = true ↔ id.protoNetwork = .inet6)
  apart : Apart offset fragEnd 0 e.frags 4294967295
  len : e.len < 131072

section Entry

variable {e e' : ReasmIpEntry BaseFrag} {frame : Bytes × Timespec} {f : BaseFrag} {id : ReasmId}
  {lastFrag : Bool}

theorem ParsedFrom.isIpv6_iff (h : ParsedFrom id f lastFrag) :
    f.isIpv6 = true ↔ id.protoNetwork = .inet6 := by
  rcases h.version with ⟨hid, -, hfour⟩ | ⟨hid, -, first, hfirst, hsix⟩
  · refine ⟨fun hf => ?_, fun hnet => absurd (hid.symm.trans hnet) (by decide)⟩
    cases hdata : f.data with
    | nil =>
        rw [BaseFrag.isIpv6, hdata] at hf
        cases hf
    | cons first rest =>
        rw [BaseFrag.isIpv6, hdata] at hf
        have hsix : ipV first = 6 := of_decide_eq_true hf
        have := (hfour first (by rw [hdata]; rfl)).1
        omega
  · refine ⟨fun _ => hid, fun _ => ?_⟩
    cases hdata : f.data with
    | nil =>
        rw [hdata] at hfirst
        cases hfirst
    | cons first' rest =>
        rw [hdata] at hfirst
        cases hfirst
        rw [BaseFrag.isIpv6, hdata]
        exact decide_eq_true hsix

/-- The payload of a fragment without octets starts in what is kept of the packet. -/
theorem ParsedFrom.within_of_empty (h : ParsedFrom id f lastFrag) (hempty : f.len = 0) :
    f.dataOffset ≤ f.data.length := by
  rcases h.version with ⟨-, hshort, -⟩ | ⟨-, hsound, -⟩
  · exact hshort hempty
  · exact hsound.2

theorem takenEntry_init (id : ReasmId) (hash : Nat) (timeout : Int) :
    TakenEntry (.init id hash timeout) :=
  ⟨by rintro f ⟨⟩, Nat.zero_le _, Nat.zero_lt_succ _⟩

theorem mem_insertFrag {g : BaseFrag} {fitLeft fitRight : Bool} :
    g ∈ (insertFrag (withPacketLen e f lastFrag) f lastFrag fitLeft fitRight).frags ↔
      g ∈ e.frags ∨ g = f ∧ f.len ≠ 0 := by
  rw [insertFrag_list]
  split
  · next hpos =>
      conv_rhs => rw [← fragsBefore_append e.frags f]
      simp only [List.mem_append, List.mem_cons]
      tauto
  · next hempty => exact ⟨Or.inl, fun h => h.resolve_right fun hf => hempty hf.2⟩

/-- **One packet.** An entry whose fragments lie in their packets was one before. -/
theorem TakenEntry.accept (htaken : FragsWithin e → TakenEntry e)
    (haccept : acceptFrame e frame = some e') (hwithin : FragsWithin e') : TakenEntry e' := by
  obtain ⟨p, hparse, hadd⟩ := acceptFrame_eq_some haccept
  have hcount : toUnsigned frame.1.length ≤ frame.1.length := Nat.mod_le _ _
  have hparsed : ParsedFrom p.id p.frag p.lastFrag := ⟨frame.1, _, frame.2, hcount, hparse⟩
  obtain ⟨-, hkept, -⟩ := (reasmParsePacket_kept (hasFixedHeader_of_parse hparse) hcount
    frame.2).of_ok hparse p rfl
  obtain ⟨-, -, fitLeft, fitRight, hfit, rfl⟩ := acceptFragment_ok (acceptFragment_of_add hadd)
  have hfrags := htaken fun g hg => hwithin g (mem_insertFrag.mpr (Or.inl hg))
  have hfrag : KeptFrag p.id p.frag := by
    apply hkept
    by_cases hempty : p.frag.len = 0
    · exact hparsed.within_of_empty hempty
    · have := hwithin p.frag (mem_insertFrag.mpr (Or.inr ⟨rfl, hempty⟩))
      omega
  have hwidth := hfrag.width
  have hfits := fragPlace_fits hfrags.apart (by decide) hwidth hfit
  refine ⟨fun g hg => ?_, ?_, ?_⟩
  · rcases mem_insertFrag.mp hg with hg | ⟨rfl, -⟩
    · exact hfrags.frags g hg
    · exact ⟨p.id, hfrag, hparsed.isIpv6_iff⟩
  · exact Fits.insert_apart (e := { e with id := p.id }) hfits hfrags.apart
      (Nat.le_of_lt_succ hwidth)
  · have hpayload := hfrag.payload
    have hsize := hfrag.size
    have hplace := hfrag.place
    have hlen := hfrags.len
    have hend : fragEnd p.frag = p.frag.offset + p.frag.len := rfl
    rw [insertFrag_end hwidth]
    split
    · omega
    · exact hlen

/-- **All packets.** -/
theorem TakenEntry.acceptAll : ∀ {frames : List (Bytes × Timespec)} {e : ReasmIpEntry BaseFrag},
    (FragsWithin e → TakenEntry e) → acceptFrames e frames = some e' →
      FragsWithin e' → TakenEntry e' := by
  intro frames
  induction frames with
  | nil =>
      rintro e htaken ⟨⟩
      exact htaken
  | cons frame frames ih =>
      intro e htaken hall
      rw [acceptFrames_cons] at hall
      obtain ⟨e₁, haccept, hrest⟩ := Option.bind_eq_some_iff.mp hall
      exact ih (TakenEntry.accept htaken haccept) hrest

end Entry

end Nmsg

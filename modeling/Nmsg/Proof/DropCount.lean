import Nmsg.Input.Senders
import Nmsg.Wire

/-!
# Counting what was lost

The list of sources holds, for every sender that may be heard again, the number it sends next. Each
container delivered adds to the count just the numbers its sender passed over since its last one.
-/

namespace Nmsg

open Gaps

/-! ### The list of sources -/

section Scan

variable {now : Timespec} {sequenceId : UInt64} {addrSs : SockaddrStorage} {seqsrcs : List Seqsrc}

/-- Sources of internet addresses are told apart by their keys. -/
theorem sends_iff (sequenceId : UInt64) {src : Seqsrc} (hsrc : src.key.origin.IsInternet)
    (haddr : (originOf addrSs).IsInternet) :
    src.sends sequenceId addrSs = true ↔ src.key = ⟨sequenceId, originOf addrSs⟩ := by
  obtain ⟨⟨id, origin⟩, sequence, sequenceId', count, countDropped, last, init⟩ := src
  simp only [Seqsrc.sends, SeqsrcKey.mk.injEq, Bool.and_eq_true, beq_iff_eq]
  rw [eq_comm]
  refine and_congr_right fun _ => ?_
  cases origin with
  | unspec => exact hsrc.elim
  | other family => exact hsrc.elim
  | inet port ip4 =>
      cases addrSs with
      | inet port' addr rest =>
          simp only [originOf, SeqsrcOrigin.inet.injEq, Bool.and_eq_true, beq_iff_eq]
          constructor <;> rintro ⟨rfl, rfl⟩ <;> exact ⟨rfl, rfl⟩
      | inet6 port' addr rest => simp [originOf]
      | other family rest =>
          simp only [originOf] at haddr
          split at haddr <;> exact haddr.elim
  | inet6 port ip6 =>
      cases addrSs with
      | inet port' addr rest => simp [originOf]
      | inet6 port' addr rest =>
          simp only [originOf, SeqsrcOrigin.inet6.injEq, Bool.and_eq_true, beq_iff_eq]
          constructor <;> rintro ⟨rfl, rfl⟩ <;> exact ⟨rfl, rfl⟩
      | other family rest =>
          simp only [originOf] at haddr
          split at haddr <;> exact haddr.elim

/-- What a walk through the list finds, and what it leaves. -/
structure Scanned (now : Timespec) (k : SeqsrcKey) (seqsrcs : List Seqsrc)
    (out : Option Seqsrc × List Seqsrc × List Seqsrc) : Prop where
  found : ∀ src, out.1 = some src → src ∈ seqsrcs ∧ src.key = k
  absent : out.1 = none → out.2.2 = [] ∧ ∀ src ∈ seqsrcs, src.key ≠ k
  sublist : List.Sublist (out.2.1 ++ out.2.2) seqsrcs
  others : ∀ src ∈ out.2.1 ++ out.2.2, src.key ≠ k
  kept : ∀ src ∈ seqsrcs, src.key ≠ k → now.sec ≤ src.last + seqsrcGcInterval →
    src ∈ out.2.1 ++ out.2.2

theorem seqsrcScan_spec (hinternet : ∀ src ∈ seqsrcs, src.key.origin.IsInternet)
    (hdistinct : seqsrcs.Pairwise fun a b => a.key ≠ b.key)
    (haddr : (originOf addrSs).IsInternet) :
    Scanned now ⟨sequenceId, originOf addrSs⟩ seqsrcs
      (seqsrcScan now sequenceId addrSs seqsrcs) := by
  induction seqsrcs with
  | nil =>
      exact ⟨fun _ h => (Option.some_ne_none _ h.symm).elim, fun _ => ⟨rfl, by simp⟩,
        List.Sublist.refl _, by simp [seqsrcScan], by simp⟩
  | cons src rest ih =>
      have hsends := sends_iff sequenceId (hinternet src (by simp)) haddr
      rw [List.pairwise_cons] at hdistinct
      by_cases hsrc : src.sends sequenceId addrSs = true
      · have hkey := hsends.mp hsrc
        simp only [seqsrcScan, hsrc, if_true]
        refine ⟨?_, by simp, by simp, ?_, ?_⟩
        · rintro _ ⟨rfl⟩
          exact ⟨by simp, hkey⟩
        · intro other hother
          rw [← hkey]
          exact (hdistinct.1 other (by simpa using hother)).symm
        · intro other hother hne _
          rcases List.mem_cons.mp hother with rfl | hmem
          · exact absurd hkey hne
          · simpa using hmem
      · have hkey : src.key ≠ ⟨sequenceId, originOf addrSs⟩ := fun h => hsrc (hsends.mpr h)
        have h := ih (fun other hother => hinternet other (by simp [hother])) hdistinct.2
        rcases hscan : seqsrcScan now sequenceId addrSs rest with ⟨found, passed, behind⟩
        rw [hscan] at h
        simp only [seqsrcScan, hsrc, hscan, Bool.false_eq_true, if_false]
        by_cases hold : src.last < now.sec - seqsrcGcInterval
        · rw [if_pos hold]
          refine ⟨fun other ho => ?_, fun hnone => ?_, h.sublist.cons _, h.others, ?_⟩
          · obtain ⟨hmem, hk⟩ := h.found other ho
            exact ⟨List.mem_cons_of_mem _ hmem, hk⟩
          · obtain ⟨hbehind, hrest⟩ := h.absent hnone
            exact ⟨hbehind, List.forall_mem_cons.mpr ⟨hkey, hrest⟩⟩
          · intro other hother hne hrecent
            rcases List.mem_cons.mp hother with rfl | hmem
            · omega
            · exact h.kept other hmem hne hrecent
        · rw [if_neg hold]
          refine ⟨fun other ho => ?_, fun hnone => ?_, h.sublist.cons_cons _, ?_, ?_⟩
          · obtain ⟨hmem, hk⟩ := h.found other ho
            exact ⟨List.mem_cons_of_mem _ hmem, hk⟩
          · obtain ⟨hbehind, hrest⟩ := h.absent hnone
            exact ⟨hbehind, List.forall_mem_cons.mpr ⟨hkey, hrest⟩⟩
          · exact List.forall_mem_cons.mpr ⟨hkey, h.others⟩
          · intro other hother hne hrecent
            rcases List.mem_cons.mp hother with rfl | hmem
            · simp
            · exact List.mem_cons_of_mem _ (h.kept other hmem hne hrecent)

end Scan

/-! ### The expected number -/

section Update

theorem ofNat_add_one (n : Nat) : UInt32.ofNat n + 1 = .ofNat (n + 1) := by
  rw [UInt32.ofNat_add]
  rfl

variable {src : Seqsrc} {nmsg : ProtoNmsg} {sequence : UInt32} {sequenceId : UInt64}

/-- The first container of a source sets the number and drops nothing. -/
theorem inputSeqsrcUpdate_first (src : Seqsrc) (hsequence : nmsg.sequence = some sequence)
    (hid : nmsg.sequenceId = some sequenceId) (hinit : src.init = true) :
    ∃ src', inputSeqsrcUpdate src nmsg = (0, src') ∧ src'.key = src.key ∧
      src'.last = src.last ∧ src'.sequence = sequence + 1 ∧ src'.sequenceId = sequenceId ∧
      src'.init = false := by
  simp only [inputSeqsrcUpdate, hsequence, hid, hinit, Bool.true_eq_false, if_false]
  split <;> split <;> simp_all

/-- The difference of two numbers that are close, from their residues. -/
theorem sequence_delta {expected received : Nat} (hle : expected ≤ received)
    (hloss : received ≤ expected + 1048576) :
    (if Int.tmod (((received % 4294967296 : Nat) : Int) - (expected % 4294967296 : Nat))
          4294967296 < 0 then
        Int.tmod (((received % 4294967296 : Nat) : Int) - (expected % 4294967296 : Nat))
          4294967296 + 4294967296
      else Int.tmod (((received % 4294967296 : Nat) : Int) - (expected % 4294967296 : Nat))
        4294967296) = ((received - expected : Nat) : Int) := by
  obtain ⟨diff, hdiff⟩ : ∃ diff : Int, diff =
      ((received % 4294967296 : Nat) : Int) - (expected % 4294967296 : Nat) := ⟨_, rfl⟩
  rw [← hdiff]
  rcases lt_or_ge diff 0 with hneg | hpos
  · -- the number wrapped between the two
    have hmod : Int.tmod diff 4294967296 = diff := by
      rw [← Int.neg_neg diff, Int.neg_tmod, Int.tmod_eq_of_lt (by omega) (by omega)]
    rw [hmod, if_pos hneg]
    omega
  · rw [Int.tmod_eq_of_lt hpos (by omega), if_neg (by omega)]
    omega

/-- A later container drops the numbers passed over, wherever they wrap. -/
theorem inputSeqsrcUpdate_next (src : Seqsrc) (expected received : Nat)
    (hsequence : nmsg.sequence = some (.ofNat received))
    (hid : nmsg.sequenceId = some src.sequenceId) (hinit : src.init = false)
    (hexpected : src.sequence = .ofNat expected) (hle : expected ≤ received)
    (hloss : received ≤ expected + 1048576) :
    ∃ src', inputSeqsrcUpdate src nmsg = (received - expected, src') ∧ src'.key = src.key ∧
      src'.last = src.last ∧ src'.sequence = .ofNat received + 1 ∧
      src'.sequenceId = src.sequenceId ∧ src'.init = false := by
  obtain ⟨key, sequence, sequenceId, count, countDropped, last, init⟩ := src
  simp only at hid hinit hexpected
  subst hinit hexpected
  have hwire : (UInt32.ofNat received).toNat = received % 4294967296 := UInt32.toNat_ofNat'
  have hknown : (UInt32.ofNat expected).toNat = expected % 4294967296 := UInt32.toNat_ofNat'
  simp only [inputSeqsrcUpdate, hsequence, hid, ne_eq, not_true_eq_false, if_false]
  by_cases hsame : UInt32.ofNat expected = UInt32.ofNat received
  · -- numbers that agree modulo 2^32 and are this close are the same
    have hmod : expected % 4294967296 = received % 4294967296 := by
      rw [← hwire, ← hknown, hsame]
    have heq : received - expected = 0 := by omega
    rw [if_pos hsame, heq]
    exact ⟨_, rfl, rfl, rfl, rfl, rfl, rfl⟩
  · rw [if_neg hsame, hwire, hknown, sequence_delta hle hloss, if_neg (by simp),
      if_neg (by omega), Int.toNat_natCast]
    exact ⟨_, rfl, rfl, rfl, rfl, rfl, rfl⟩

end Update

/-! ### Arrivals -/

section Arrivals

variable {pre rest between before : List Numbered} {a b x : Numbered} {k : SeqsrcKey}

/-- The last container received from a sender. -/
def lastOf (arrivals : List Numbered) (k : SeqsrcKey) : Option Numbered :=
  (arrivals.filter fun a => a.sender = k).getLast?

theorem lastOf_append_self (pre : List Numbered) (x : Numbered) :
    lastOf (pre ++ [x]) x.sender = some x := by
  simp [lastOf]

theorem lastOf_append_of_ne (h : x.sender ≠ k) : lastOf (pre ++ [x]) k = lastOf pre k := by
  simp [lastOf, h]

theorem lastOf_eq_none_iff : lastOf pre k = none ↔ ∀ x ∈ pre, x.sender ≠ k := by
  simp [lastOf]

/-- The last container of a sender, and those behind it from others. -/
theorem lastOf_eq_some_iff : lastOf pre k = some a ↔
    a.sender = k ∧ ∃ before between, pre = before ++ a :: between ∧
      ∀ x ∈ between, x.sender ≠ k := by
  constructor
  · intro h
    induction pre using List.reverseRecOn with
    | nil => simp [lastOf] at h
    | append_singleton pre x ih =>
        by_cases hx : x.sender = k
        · subst hx
          rw [lastOf_append_self, Option.some.injEq] at h
          subst h
          exact ⟨rfl, pre, [], rfl, by simp⟩
        · rw [lastOf_append_of_ne hx] at h
          obtain ⟨ha, before, between, rfl, hbetween⟩ := ih h
          refine ⟨ha, before, between ++ [x], by simp, ?_⟩
          intro y hy
          rcases List.mem_append.mp hy with hmem | hmem
          · exact hbetween y hmem
          · rw [List.mem_singleton] at hmem
            exact hmem ▸ hx
  · rintro ⟨rfl, before, between, rfl, hbetween⟩
    have hnone : between.filter (fun y => decide (y.sender = a.sender)) = [] := by
      rw [List.filter_eq_nil_iff]
      intro y hy
      simpa using hbetween y hy
    simp [lastOf, List.filter_append, hnone]

theorem LossyStreams.of_append (h : LossyStreams (pre ++ rest)) : LossyStreams pre := by
  have hsuccessive : ∀ a between b, Successive pre a between b →
      Successive (pre ++ rest) a between b := by
    rintro a between b ⟨⟨before, after, rfl⟩, hsender, hothers⟩
    exact ⟨⟨before, after ++ rest, by simp⟩, hsender, hothers⟩
  exact ⟨fun a between b hs => h.inOrder a between b (hsuccessive a between b hs),
    fun a between b hs => h.losses a between b (hsuccessive a between b hs),
    fun a between b hs => h.spoken a between b (hsuccessive a between b hs)⟩

theorem successive_append (ha : lastOf pre x.sender = some a) :
    ∃ before between, pre = before ++ a :: between ∧ Successive (pre ++ [x]) a between x := by
  obtain ⟨hsender, before, between, rfl, hbetween⟩ := lastOf_eq_some_iff.mp ha
  refine ⟨before, between, rfl, ⟨before, [], by simp⟩, hsender.symm, ?_⟩
  rw [hsender]
  exact hbetween

theorem positions_append_self (pre : List Numbered) (x : Numbered) :
    positions (pre ++ [x]) x.sender = positions pre x.sender ++ [x.position] := by
  simp [positions]

theorem positions_append_of_ne (h : x.sender ≠ k) :
    positions (pre ++ [x]) k = positions pre k := by
  simp [positions, h]

theorem getLast?_positions (pre : List Numbered) (k : SeqsrcKey) :
    (positions pre k).getLast? = (lastOf pre k).map Numbered.position := by
  simp [positions, lastOf, List.getLast?_map]

/-- Places of a sender increase. -/
theorem LossyStreams.positions_increase (h : LossyStreams pre) (k : SeqsrcKey) :
    (positions pre k).Pairwise (· < ·) := by
  induction pre using List.reverseRecOn with
  | nil => exact List.Pairwise.nil
  | append_singleton pre x ih =>
      have hpre := ih h.of_append
      by_cases hx : x.sender = k
      · subst hx
        rw [positions_append_self, List.pairwise_append]
        refine ⟨hpre, List.pairwise_singleton _ _, ?_⟩
        intro p hp q hq
        rw [List.mem_singleton] at hq
        have hne : positions pre x.sender ≠ [] := List.ne_nil_of_mem hp
        have hlast := getLast?_positions pre x.sender
        rw [List.getLast?_eq_getLast_of_ne_nil hne] at hlast
        obtain ⟨a, ha, hposition⟩ := Option.map_eq_some_iff.mp hlast.symm
        obtain ⟨before, between, -, hsuccessive⟩ := successive_append ha
        have hlt := h.inOrder a between x hsuccessive
        have hle := le_getLast hne hpre p hp
        omega
      · rw [positions_append_of_ne hx]
        exact hpre

/-- The numbers that the sender of a container passed over since its last one. -/
def passedOver (pre : List Numbered) (x : Numbered) : Nat :=
  match lastOf pre x.sender with
  | none => 0
  | some a => x.position - a.position - 1

theorem missingContainers_append (h : LossyStreams (pre ++ [x])) :
    missingContainers (pre ++ [x]) = missingContainers pre + passedOver pre x := by
  obtain ⟨senders, hsenders⟩ : ∃ senders, (pre.map Numbered.sender).toFinset = senders :=
    ⟨_, rfl⟩
  have hothers : ∑ k ∈ senders.erase x.sender, missing (positions (pre ++ [x]) k) =
      ∑ k ∈ senders.erase x.sender, missing (positions pre k) := by
    refine Finset.sum_congr rfl fun k hk => ?_
    rw [positions_append_of_ne (Finset.ne_of_mem_erase hk).symm]
  have hnew : ((pre ++ [x]).map Numbered.sender).toFinset =
      insert x.sender (senders.erase x.sender) := by
    ext k
    rw [← hsenders]
    by_cases hk : k = x.sender <;> simp [hk]
  have hsum : missingContainers (pre ++ [x]) = missing (positions (pre ++ [x]) x.sender) +
      ∑ k ∈ senders.erase x.sender, missing (positions pre k) := by
    rw [missingContainers, hnew, Finset.sum_insert (Finset.notMem_erase _ _), hothers]
  rw [positions_append_self] at hsum
  have hmem : ∀ y, y ∈ senders ↔ ∃ z ∈ pre, z.sender = y := by
    intro y
    simp [← hsenders]
  cases hlast : lastOf pre x.sender with
  | none =>
      have hnone := lastOf_eq_none_iff.mp hlast
      have hnil : positions pre x.sender = [] := by
        simpa [positions, List.filter_eq_nil_iff] using hnone
      have hnotMem : x.sender ∉ senders := by
        rw [hmem]
        rintro ⟨z, hz, heq⟩
        exact hnone z hz heq
      simp only [passedOver, hlast]
      rw [hsum, hnil, List.nil_append, missing_singleton, Finset.erase_eq_of_notMem hnotMem,
        missingContainers, hsenders]
      omega
  | some a =>
      obtain ⟨hsender, before, between, rfl, -⟩ := lastOf_eq_some_iff.mp hlast
      have hin : x.sender ∈ senders := (hmem _).mpr ⟨a, by simp, hsender⟩
      obtain ⟨_, _, -, hsuccessive⟩ := successive_append hlast
      have hlt := h.inOrder a _ x hsuccessive
      have hgetLast := getLast?_positions (before ++ a :: between) x.sender
      rw [hlast, Option.map_some] at hgetLast
      simp only [passedOver, hlast]
      rw [hsum, missing_append (h.of_append.positions_increase _) hgetLast hlt,
        missingContainers, hsenders, ← Finset.add_sum_erase _ _ hin]
      omega

end Arrivals

/-! ### One container -/

section Count

variable {start : SeqsrcKey → Nat} {pre : List Numbered} {a : Numbered} {x : Delivered}

/-- The source expects the container behind `a`. -/
structure Expects (start : SeqsrcKey → Nat) (src : Seqsrc) (a : Numbered) : Prop where
  key : src.key = a.sender
  internet : a.sender.origin.IsInternet
  sequence : src.sequence = .ofNat (start a.sender + a.position + 1)
  sequenceId : src.sequenceId = a.sender.sequenceId
  last : src.last = a.now
  init : src.init = false

/-- The list of sources after the containers received. A source is dropped only when its sender was
silent for too long. -/
structure Tracked (start : SeqsrcKey → Nat) (pre : List Numbered) (seqsrcs : List Seqsrc) :
    Prop where
  distinct : seqsrcs.Pairwise fun src src' => src.key ≠ src'.key
  known : ∀ src ∈ seqsrcs, ∃ a, lastOf pre src.key = some a ∧ Expects start src a
  kept : ∀ (a : Numbered) (before between : List Numbered), pre = before ++ a :: between →
    (∀ x ∈ between, x.sender ≠ a.sender) →
    (∀ x ∈ between, x.now ≤ a.now + seqsrcGcInterval) → ∃ src ∈ seqsrcs, src.key = a.sender

/-- What a container does to the sources and to the count. -/
def countDelivered (state : List Seqsrc × Nat) (x : Delivered) : List Seqsrc × Nat :=
  let (src, put) := inputSeqsrcGet ⟨0, x.now, x.addrSs⟩ state.1 x.nmsg
  let (drop, src) := inputSeqsrcUpdate src x.nmsg
  (put src, state.2 + drop)

/-- Updating the source of `a` and dropping old ones keeps track. -/
theorem Tracked.update {seqsrcs seqsrcs' : List Seqsrc} {src : Seqsrc} {now : Timespec}
    {out : Option Seqsrc × List Seqsrc × List Seqsrc} (ht : Tracked start pre seqsrcs)
    (hscan : Scanned now a.sender seqsrcs out) (hnow : now.sec = a.now)
    (hsrc : Expects start src a) (hmem : ∀ s, s ∈ seqsrcs' ↔ s = src ∨ s ∈ out.2.1 ++ out.2.2)
    (hdistinct : seqsrcs'.Pairwise fun s s' => s.key ≠ s'.key) :
    Tracked start (pre ++ [a]) seqsrcs' := by
  refine ⟨hdistinct, ?_, ?_⟩
  · intro s hs
    rcases (hmem s).mp hs with rfl | hother
    · exact ⟨a, by rw [hsrc.key, lastOf_append_self], hsrc⟩
    · obtain ⟨b, hb, hexpects⟩ := ht.known s (hscan.sublist.subset hother)
      exact ⟨b, by rw [lastOf_append_of_ne (hscan.others s hother).symm, hb], hexpects⟩
  · intro b before between heq hothers hrecent
    rcases List.eq_nil_or_concat between with rfl | ⟨between, y, rfl⟩
    · obtain ⟨rfl, hb⟩ := List.append_inj' heq rfl
      rw [List.cons.injEq] at hb
      exact ⟨src, (hmem src).mpr (Or.inl rfl), by rw [hsrc.key, hb.1]⟩
    · rw [List.concat_eq_append] at heq hothers hrecent
      rw [← List.cons_append, ← List.append_assoc] at heq
      obtain ⟨rfl, hy⟩ := List.append_inj' heq rfl
      rw [List.cons.injEq] at hy
      obtain ⟨rfl, -⟩ := hy
      obtain ⟨s, hs, hkey⟩ := ht.kept b before between rfl
        (fun z hz => hothers z (by simp [hz])) (fun z hz => hrecent z (by simp [hz]))
      have hne : s.key ≠ a.sender := by
        rw [hkey]
        exact (hothers a (by simp)).symm
      obtain ⟨c, hc, hexpects⟩ := ht.known s hs
      have hlast : lastOf (before ++ b :: between) b.sender = some b :=
        lastOf_eq_some_iff.mpr ⟨rfl, before, between, rfl, fun z hz => hothers z (by simp [hz])⟩
      rw [hkey, hlast, Option.some.injEq] at hc
      subst hc
      have hage := hrecent a (by simp)
      refine ⟨s, (hmem s).mpr (Or.inr (hscan.kept s hs hne ?_)), hkey⟩
      rw [hexpects.last, hnow]
      exact hage

/-- **One container** is counted with the numbers its sender passed over. -/
theorem countDelivered_spec {state : List Seqsrc × Nat} (ht : Tracked start pre state.1)
    (hx : CarriesNumber start x a) (h : LossyStreams (pre ++ [a])) :
    Tracked start (pre ++ [a]) (countDelivered state x).1 ∧
      (countDelivered state x).2 = state.2 + passedOver pre a := by
  have hkey : (⟨a.sender.sequenceId, originOf x.addrSs⟩ : SeqsrcKey) = a.sender := by
    rw [hx.origin]
  have hscan : Scanned x.now a.sender state.1
      (seqsrcScan x.now a.sender.sequenceId x.addrSs state.1) := by
    rw [← hkey]
    refine seqsrcScan_spec ?_ ht.distinct (by rw [hx.origin]; exact hx.internet)
    intro src hsrc
    obtain ⟨b, -, hb⟩ := ht.known src hsrc
    rw [hb.key]
    exact hb.internet
  simp only [countDelivered, inputSeqsrcGet, hx.sequenceId, Option.getD_some]
  rcases hout : seqsrcScan x.now a.sender.sequenceId x.addrSs state.1 with
    ⟨found, passed, behind⟩
  rw [hout] at hscan
  cases found with
  | none =>
      obtain ⟨hbehind, habsent⟩ := hscan.absent rfl
      simp only at hbehind
      subst hbehind
      have hfirst : lastOf pre a.sender = none := by
        cases hlast : lastOf pre a.sender with
        | none => rfl
        | some b =>
            obtain ⟨before, between, hpre, hsuccessive⟩ := successive_append hlast
            obtain ⟨src, hsrc, hsrckey⟩ := ht.kept b before between hpre hsuccessive.others
              fun y hy => h.spoken b between a hsuccessive y (by simp [hy])
            rw [← hsuccessive.sender] at hsrckey
            exact absurd hsrckey (habsent src hsrc)
      obtain ⟨src', hupdate, hsrckey, hlast, hsequence, hid, hinit⟩ :=
        inputSeqsrcUpdate_first
          { newSeqsrc a.sender.sequenceId x.addrSs with last := x.now.sec } hx.sequence hx.sequenceId rfl
      simp only [hupdate, passedOver, hfirst, and_true, Nat.add_zero]
      refine ht.update hscan hx.now ⟨hsrckey.trans hkey, hx.internet, ?_, hid,
        hlast.trans hx.now, hinit⟩ ?_ ?_
      · rw [hsequence, ofNat_add_one]
      · intro s
        simp [or_comm]
      · rw [List.pairwise_append]
        refine ⟨ht.distinct.sublist ?_, List.pairwise_singleton _ _, ?_⟩
        · simpa using hscan.sublist
        · intro s hs s' hs'
          rw [List.mem_singleton] at hs'
          subst hs'
          rw [hsrckey.trans hkey]
          exact hscan.others s (by simp [hs])
  | some src =>
      obtain ⟨hsrc, hsrckey⟩ := hscan.found src rfl
      obtain ⟨b, hb, hexpects⟩ := ht.known src hsrc
      rw [hsrckey] at hb
      obtain ⟨before, between, -, hsuccessive⟩ := successive_append hb
      have hlt := h.inOrder b between a hsuccessive
      have hloss := h.losses b between a hsuccessive
      have hsame := hsuccessive.sender
      obtain ⟨src', hupdate, hkey', hlast, hsequence, hid, hinit⟩ :=
        inputSeqsrcUpdate_next { src with last := x.now.sec }
          (start a.sender + b.position + 1) (start a.sender + a.position) hx.sequence
          (by rw [hx.sequenceId, hsame, ← hexpects.sequenceId]) hexpects.init
          (by rw [hsame]; exact hexpects.sequence) (by omega) (by omega)
      simp only [hupdate, passedOver, hb]
      refine ⟨ht.update hscan hx.now ⟨hkey'.trans hsrckey, hx.internet, ?_, ?_,
        hlast.trans hx.now, hinit⟩ (fun s => by simp) ?_, by omega⟩
      · rw [hsequence, ofNat_add_one]
      · rw [hid, hsame]
        exact hexpects.sequenceId
      · refine List.pairwise_cons.mpr ⟨?_, ht.distinct.sublist hscan.sublist⟩
        intro s hs
        rw [hkey'.trans hsrckey]
        exact (hscan.others s hs).symm

end Count

/-! ### Runs -/

section Runs

variable {pb : ProtobufC} {z : Zlib}

/-- What a call does to the sources and to the count: nothing, unless it delivers a container. -/
theorem inputNmsgReadContainerSock_count {s s' : SockInput z} {call : RecvCall}
    {r : Res × Option ProtoNmsg} (hs : s.verifySeqsrc = true)
    (h : inputNmsgReadContainerSock pb s call = .ok (r, s')) :
    s'.verifySeqsrc = true ∧ (s'.seqsrcs, s'.countDrop) =
      (delivered [call] [r]).foldl countDelivered (s.seqsrcs, s.countDrop) := by
  have hquiet : ∀ {t : SockInput z} {res : Res}, ((res, none), t) = (r, s') →
      t.verifySeqsrc = true → (t.seqsrcs, t.countDrop) = (s.seqsrcs, s.countDrop) →
      s'.verifySeqsrc = true ∧ (s'.seqsrcs, s'.countDrop) =
        (delivered [call] [r]).foldl countDelivered (s.seqsrcs, s.countDrop) := by
    rintro t res ⟨rfl, rfl⟩ ht hsame
    refine ⟨ht, ?_⟩
    cases hevent : call.event <;> simpa [delivered, hevent] using hsame
  unfold inputNmsgReadContainerSock at h
  cases hevent : call.event with
  | pollAgain =>
      rw [hevent, Except.ok.injEq] at h
      exact hquiet h hs rfl
  | pollFailure =>
      rw [hevent, Except.ok.injEq] at h
      exact hquiet h hs rfl
  | recvAgain now =>
      rw [hevent, Except.ok.injEq] at h
      exact hquiet h hs rfl
  | recvFailure now =>
      rw [hevent, Except.ok.injEq] at h
      exact hquiet h hs rfl
  | datagram now addrSs bytes =>
      simp only [hevent, sockUnpack] at h
      split at h
      · exact hquiet (Except.ok.inj h) hs rfl
      split at h
      · exact hquiet (Except.ok.inj h) hs rfl
      split at h
      · cases h
      · exact hquiet (Except.ok.inj h) hs rfl
      split at h
      · exact hquiet (Except.ok.inj h) hs rfl
      split at h
      · cases h
      rename_i res nmsg decoder _
      cases nmsg with
      | none => exact hquiet (Except.ok.inj h) hs rfl
      | some nmsg =>
          obtain ⟨rfl, rfl⟩ := Prod.mk.inj (Except.ok.inj h)
          have hdelivered : delivered [call] [(res, some nmsg)] = [⟨now, addrSs, nmsg⟩] := by
            simp [delivered, hevent]
          rw [hdelivered]
          simp only [sockGc, sockCount, hs, if_true]
          exact ⟨trivial, rfl⟩

theorem run_count {s s' : SockInput z} {calls : List RecvCall}
    {results : List (Res × Option ProtoNmsg)} (hs : s.verifySeqsrc = true)
    (hrun : StepRun.run (inputNmsgReadContainerSock pb) s calls = .ok (results, s')) :
    (s'.seqsrcs, s'.countDrop) =
      (delivered calls results).foldl countDelivered (s.seqsrcs, s.countDrop) := by
  induction calls generalizing s results with
  | nil =>
      simp only [StepRun.run_nil, Except.ok.injEq, Prod.mk.injEq] at hrun
      obtain ⟨rfl, rfl⟩ := hrun
      rfl
  | cons call calls ih =>
      obtain ⟨r, t, rs, hok, hrest, rfl⟩ := StepRun.run_cons_eq_ok.mp hrun
      obtain ⟨ht, hcount⟩ := inputNmsgReadContainerSock_count hs hok
      have hsplit : delivered (call :: calls) (r :: rs) =
          delivered [call] [r] ++ delivered calls rs := by
        rw [delivered, List.zip_cons_cons, ← List.singleton_append, List.filterMap_append]
        rfl
      rw [ih ht hrest, hcount, hsplit, List.foldl_append]

/-- By induction on the arrivals: the list of sources is tracked, and the count is right. -/
theorem foldl_countDelivered {start : SeqsrcKey → Nat} {pre arrivals : List Numbered}
    {xs : List Delivered} {state : List Seqsrc × Nat}
    (hxs : List.Forall₂ (CarriesNumber start) xs arrivals) (ht : Tracked start pre state.1)
    (hcount : state.2 = missingContainers pre) (h : LossyStreams (pre ++ arrivals)) :
    (xs.foldl countDelivered state).2 = missingContainers (pre ++ arrivals) := by
  induction hxs generalizing pre state with
  | nil => rw [List.append_nil, ← hcount]; rfl
  | @cons x a xs arrivals hx _ ih =>
      rw [List.append_cons] at h ⊢
      obtain ⟨ht', hcount'⟩ := countDelivered_spec ht hx h.of_append
      exact ih ht' (by rw [hcount', hcount, missingContainers_append h.of_append]) h

end Runs

/-- **Drop accounting.** In any run of a socket input, when the containers delivered are what is
left of the numbered containers of their senders, `count_drop` is the number of containers missing
between the first and the last received, over all senders. -/
theorem drop_count_exact (pb : ProtobufC) (z : Zlib) (start : SeqsrcKey → Nat)
    (calls : List RecvCall) (results : List (Res × Option ProtoNmsg)) (s : SockInput z)
    (hrun : StepRun.run (inputNmsgReadContainerSock pb) (SockInput.open z) calls =
      .ok (results, s))
    (arrivals : List Numbered)
    (hcarry : List.Forall₂ (CarriesNumber start) (delivered calls results) arrivals)
    (hlossy : LossyStreams arrivals) : s.countDrop = missingContainers arrivals := by
  have hopen : Tracked start [] (SockInput.open z).seqsrcs :=
    ⟨List.Pairwise.nil, fun src hsrc => (List.not_mem_nil hsrc).elim, fun a before between heq =>
      by simp at heq⟩
  have hfold : ((delivered calls results).foldl countDelivered
      ((SockInput.open z).seqsrcs, 0)).2 = missingContainers ([] ++ arrivals) :=
    foldl_countDelivered hcarry hopen rfl hlossy
  rw [← List.nil_append arrivals, ← hfold]
  exact congrArg Prod.snd (run_count rfl hrun)

/-- A datagram with an empty container of some number. -/
def numberedCall (sequence : UInt32) (now : Int) : RecvCall where
  event := .datagram ⟨now, 0⟩ (.inet 53 1 [])
    (headerSerialize 0 (wire.packNmsg ⟨[], [], some sequence, some 7⟩).length ++
      wire.packNmsg ⟨[], [], some sequence, some 7⟩)
  env := ⟨[], true, true, true, true⟩

def sampleSender : SeqsrcKey := ⟨7, .inet 53 1⟩

/-- Of three containers the second is lost, and the number wraps on the way. -/
theorem drop_count_exact_sample :
    ∃ s : SockInput storedZlib,
      StepRun.run (inputNmsgReadContainerSock wire) (SockInput.open storedZlib)
          [numberedCall 4294967295 5, numberedCall 1 100] =
        .ok ([(.success, some ⟨[], [], some 4294967295, some 7⟩),
          (.success, some ⟨[], [], some 1, some 7⟩)], s) ∧
      s.countDrop = missingContainers [⟨sampleSender, 0, 5⟩, ⟨sampleSender, 2, 100⟩] := by
  have hsuccessive : ∀ a between b,
      Successive [⟨sampleSender, 0, 5⟩, ⟨sampleSender, 2, 100⟩] a between b →
      a = ⟨sampleSender, 0, 5⟩ ∧ between = [] ∧ b = ⟨sampleSender, 2, 100⟩ := by
    rintro a between b ⟨⟨before, after, heq⟩, -, -⟩
    have hlength := congrArg List.length heq
    simp only [List.length_cons, List.length_append, List.length_nil] at hlength
    obtain rfl : before = [] := List.length_eq_zero_iff.mp (by omega)
    obtain rfl : between = [] := List.length_eq_zero_iff.mp (by omega)
    simp only [List.nil_append, List.cons_append, List.cons.injEq] at heq
    exact ⟨heq.1.symm, rfl, heq.2.1.symm⟩
  refine ⟨_, rfl, drop_count_exact wire storedZlib (fun _ => 4294967295)
    [numberedCall 4294967295 5, numberedCall 1 100]
    [(.success, some ⟨[], [], some 4294967295, some 7⟩),
      (.success, some ⟨[], [], some 1, some 7⟩)] _ rfl
    [⟨sampleSender, 0, 5⟩, ⟨sampleSender, 2, 100⟩] ?_ ?_⟩
  · exact List.Forall₂.cons ⟨rfl, rfl, trivial, rfl, rfl⟩
      (List.Forall₂.cons ⟨rfl, rfl, trivial, rfl, rfl⟩ List.Forall₂.nil)
  · refine ⟨?_, ?_, ?_⟩ <;> intro a between b h <;>
      obtain ⟨rfl, rfl, rfl⟩ := hsuccessive a between b h <;> decide

end Nmsg

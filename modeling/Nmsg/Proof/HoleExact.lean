import Nmsg.Lib.StepRun
import Nmsg.Ipreasm.Base
import Nmsg.Proof.HoleCount
import Mathlib.Data.List.TakeWhile

/-!
# How far the hole count is right

An entry is given fragments of any place and length, one behind the other, and the count is compared
with the numbers that no fragment covers. Only a last fragment without octets misleads it: the
fragment that later ends where that one said the packet ends is not seen to fit on its right.
-/

namespace Nmsg

open ReasmFrag Tiling StepRun

variable {F : Type} [ReasmFrag F]

/-- A fragment is given to an entry, with the word whether it is the last; a fragment that is
rejected ends the run. -/
def acceptFragment (e : ReasmIpEntry F) (p : F × Bool) : Except Unit (Unit × ReasmIpEntry F) :=
  match reasmAddFragment e p.1 p.2 with
  | (true, e') => .ok ((), e')
  | (false, _) => .error ()

/-- An octet of the payload lies in a fragment. -/
def InFrag (k : Nat) (f : F) : Prop := offset f ≤ k ∧ k < fragEnd f

/-- The list is sorted by offset, and no octet lies in two of its fragments. -/
def FragsInOrder (frags : List F) : Prop :=
  frags.Pairwise fun f g => offset f < offset g ∧ ∀ k, InFrag k f → ¬ InFrag k g

/-- A last fragment has been accepted, and the fragments cover the packet. -/
def AllArrived (fs : List (F × Bool)) (e : ReasmIpEntry F) : Prop :=
  (∃ p ∈ fs, p.2 = true) ∧ ∀ k < e.len, ∃ p ∈ fs, InFrag k p.1

/-- The fragment is not one that the count goes wrong at: it does not close the stretch in front of
the end of a packet whose length is known, and an entry that is complete with no octets gets only
fragments that are not last and start where the others end. -/
def CountedRight (e : ReasmIpEntry F) (p : F × Bool) : Prop :=
  (e.len ≠ 0 → len p.1 ≠ 0 → fragEnd p.1 ≠ e.len) ∧
    (e.len = 0 → e.holes = 0 →
      p.2 = false ∧ (len p.1 = 0 ∨ offset p.1 = fragsEnd e.frags))

/-! ### One fragment -/

section Step

variable {e e' : ReasmIpEntry F} {f : F} {lastFrag fitLeft fitRight : Bool}

@[simp]
theorem withPacketLen_frags (e : ReasmIpEntry F) (f : F) (lastFrag : Bool) :
    (withPacketLen e f lastFrag).frags = e.frags := by
  unfold withPacketLen
  split <;> rfl

@[simp]
theorem withPacketLen_holes (e : ReasmIpEntry F) (f : F) (lastFrag : Bool) :
    (withPacketLen e f lastFrag).holes = e.holes := by
  unfold withPacketLen
  split <;> rfl

theorem withPacketLen_len (e : ReasmIpEntry F) (f : F) (lastFrag : Bool) :
    (withPacketLen e f lastFrag).len =
      if lastFrag then toUnsigned (offset f + len f) else e.len := by
  unfold withPacketLen
  split <;> rfl

theorem insertFrag_len (e : ReasmIpEntry F) (f : F) (lastFrag fitLeft fitRight : Bool) :
    (insertFrag e f lastFrag fitLeft fitRight).len = e.len := by
  simp only [insertFrag, apply_ite ReasmIpEntry.len, ite_self]

/-- What it takes for a fragment to be accepted. -/
theorem acceptFragment_ok {u : Unit} (h : acceptFragment e (f, lastFrag) = .ok (u, e')) :
    (lastFrag = true → e.len = 0) ∧
      (e.len ≠ 0 → toUnsigned (len f + offset f) ≤ e.len) ∧
      ∃ fitLeft fitRight, fragPlace e.frags f lastFrag = some (fitLeft, fitRight) ∧
        e' = insertFrag (withPacketLen e f lastFrag) f lastFrag fitLeft fitRight := by
  unfold acceptFragment reasmAddFragment at h
  split at h
  · next e₀ hadd =>
      split at hadd
      · cases hadd
      split at hadd
      · cases hadd
      split at hadd
      · cases hadd
      next hpast hagain =>
      simp only [withPacketLen_frags] at hadd
      refine ⟨?_, fun hne => Nat.le_of_not_lt fun hlt => hpast ⟨hne, hlt⟩, ?_⟩
      · rintro rfl
        by_contra hne
        exact hagain (by simp [hne])
      · cases hplace : fragPlace e.frags f lastFrag with
        | none =>
            rw [hplace] at hadd
            cases hadd
        | some fit =>
            obtain ⟨fitLeft, fitRight⟩ := fit
            rw [hplace] at hadd
            cases hadd
            cases h
            exact ⟨fitLeft, fitRight, rfl, rfl⟩
  · cases h

/-- A fragment overlaps with no neighbour, and the flags say whether it touches them. What is behind
the list is the end `b` of a stretch, which a last fragment touches and no other does. -/
structure Fits (frags : List F) (f : F) (lastFrag fitLeft fitRight : Bool) : Prop where
  left : stop fragEnd 0 (fragsBefore frags f) ≤ offset f
  fitLeft : fitLeft = decide (stop fragEnd 0 (fragsBefore frags f) = offset f)
  right : ∀ b, fragEnd f ≤ b → fragEnd f ≤ front offset b (fragsAfter frags f)
  fitRight : ∀ b, lastFrag = decide (fragEnd f = b) →
    fitRight = decide (fragEnd f = front offset b (fragsAfter frags f))
  last : lastFrag = true → fragsAfter frags f = []

theorem fragPlace_fits {frags : List F} {top : Nat} (hfrags : Apart offset fragEnd 0 frags top)
    (htop : top < 4294967296) (hwidth : fragEnd f < 4294967296)
    (h : fragPlace frags f lastFrag = some (fitLeft, fitRight)) :
    Fits frags f lastFrag fitLeft fitRight := by
  have hleft : fragsEnd (fragsBefore frags f) = stop fragEnd 0 (fragsBefore frags f) :=
    fragsEnd_eq_stop (hfrags.sublist (List.takeWhile_sublist _)) htop
  have hright : toUnsigned (offset f + len f) = fragEnd f := Nat.mod_eq_of_lt hwidth
  unfold fragPlace at h
  simp only [hleft, hright] at h
  split at h
  · cases h
  next hfit =>
  cases hafter : fragsAfter frags f with
  | nil =>
      rw [hafter] at h
      cases h
      exact ⟨Nat.le_of_not_lt hfit, rfl, by simp [hafter, front], by simp [hafter, front],
        fun _ => hafter⟩
  | cons next rest =>
      rw [hafter] at h
      simp only at h
      split at h
      · cases h
      next hnot =>
      split at h
      · cases h
      next hnext =>
      cases h
      refine ⟨Nat.le_of_not_lt hfit, rfl, ?_, ?_, fun hl => absurd hl hnot⟩
      · intro b _
        rw [hafter]
        exact Nat.le_of_not_lt hnext
      · intro b _
        rw [hafter]
        rfl

end Step

/-! ### The invariant -/

/-- What the list holds of the fragments accepted. -/
structure Stored (fs : List (F × Bool)) (e : ReasmIpEntry F) : Prop where
  apart : Apart offset fragEnd 0 e.frags 4294967295
  covers : ∀ k, (∃ f ∈ e.frags, InFrag k f) ↔ ∃ p ∈ fs, InFrag k p.1

/-- What the count says of the list: the stretches that are open, the one without an end among them
while the length is not known. -/
structure Counted (fs : List (F × Bool)) (e : ReasmIpEntry F) : Prop extends Stored fs e where
  unknown : (∀ p ∈ fs, p.2 = false) →
    e.len = 0 ∧ e.holes = holes offset fragEnd 4294967296 0 e.frags
  known : (∃ p ∈ fs, p.2 = true) → e.len ≠ 0 → e.len < 4294967296 ∧
    Apart offset fragEnd 0 e.frags e.len ∧ e.holes = holes offset fragEnd e.len 0 e.frags
  noOctets : (∃ p ∈ fs, p.2 = true) → e.len = 0 → e.holes = 0

section Invariant

variable {fs : List (F × Bool)} {e e' : ReasmIpEntry F} {p : F × Bool} {u : Unit}

theorem Stored.inOrder (h : Stored fs e) : FragsInOrder e.frags := by
  refine h.apart.pairwise.imp_of_mem ?_
  intro f g hf hg hfg
  have hlt := (h.apart.mem hf).2.1
  refine ⟨by omega, ?_⟩
  intro k hkf hkg
  have := hkf.2
  have := hkg.1
  omega

theorem stored_init (id : ReasmId) (hash : Nat) (timeout : Int) :
    Stored [] (ReasmIpEntry.init id hash timeout : ReasmIpEntry F) := by
  refine ⟨Nat.zero_le _, fun k => ?_⟩
  constructor
  · rintro ⟨f, hf, -⟩
    cases hf
  · rintro ⟨p, hp, -⟩
    cases hp

theorem counted_init (id : ReasmId) (hash : Nat) (timeout : Int) :
    Counted [] (ReasmIpEntry.init id hash timeout : ReasmIpEntry F) := by
  refine ⟨stored_init id hash timeout, fun _ => ⟨rfl, rfl⟩, ?_, ?_⟩
  · rintro ⟨p, hp, -⟩
    cases hp
  · rintro ⟨p, hp, -⟩
    cases hp

/-- A fragment that is accepted goes into the list in its place, unless it is empty. -/
theorem insertFrag_list (e : ReasmIpEntry F) (f : F) (lastFrag fitLeft fitRight : Bool) :
    (insertFrag (withPacketLen e f lastFrag) f lastFrag fitLeft fitRight).frags =
      if len f ≠ 0 then fragsBefore e.frags f ++ f :: fragsAfter e.frags f else e.frags := by
  simp only [insertFrag, apply_ite ReasmIpEntry.frags, ite_self, withPacketLen_frags]

theorem fragsBefore_append (frags : List F) (f : F) :
    fragsBefore frags f ++ fragsAfter frags f = frags := List.takeWhile_append_dropWhile

theorem fragEnd_eq (f : F) : fragEnd f = offset f + len f := rfl

/-- A fragment goes into a stretch that holds the others. -/
theorem Fits.apart {b : Nat} {f : F} {lastFrag fitLeft fitRight : Bool}
    (h : Fits e.frags f lastFrag fitLeft fitRight) (hfrags : Apart offset fragEnd 0 e.frags b)
    (hb : fragEnd f ≤ b) (hpos : len f ≠ 0) :
    Apart offset fragEnd 0 (fragsBefore e.frags f ++ f :: fragsAfter e.frags f) b := by
  rw [← fragsBefore_append e.frags f] at hfrags
  apply hfrags.insert h.left _ (h.right b hb)
  have := fragEnd_eq f
  omega

theorem acceptFragment_stored (h : Stored fs e) (hwidth : fragEnd p.1 < 4294967296)
    (hok : acceptFragment e p = .ok (u, e')) : Stored (fs ++ [p]) e' := by
  obtain ⟨f, lastFrag⟩ := p
  obtain ⟨-, -, fitLeft, fitRight, hplace, rfl⟩ := acceptFragment_ok hok
  have hfits := fragPlace_fits h.apart (by decide) hwidth hplace
  have hend := fragEnd_eq f
  have hcovers : ∀ k, (∃ p ∈ fs ++ [(f, lastFrag)], InFrag k p.1) ↔
      (∃ g ∈ e.frags, InFrag k g) ∨ InFrag k f := by
    intro k
    rw [h.covers k]
    simp only [List.mem_append, List.mem_singleton, or_and_right, exists_or, exists_eq_left]
  have hlist := insertFrag_list e f lastFrag fitLeft fitRight
  by_cases hpos : len f = 0
  · rw [if_neg (not_not_intro hpos)] at hlist
    refine ⟨hlist ▸ h.apart, fun k => ?_⟩
    rw [hcovers, hlist]
    refine ⟨Or.inl, ?_⟩
    rintro (hold | ⟨hlo, hhi⟩)
    · exact hold
    · omega
  · rw [if_pos hpos] at hlist
    refine ⟨hlist ▸ hfits.apart h.apart (Nat.le_of_lt_succ hwidth) hpos, fun k => ?_⟩
    rw [hcovers, hlist]
    conv_rhs => rw [← fragsBefore_append e.frags f]
    simp only [List.mem_append, List.mem_cons, or_and_right, exists_or, exists_eq_left, or_assoc,
      or_comm]

theorem insertFrag_count (e : ReasmIpEntry F) (f : F) (lastFrag fitLeft fitRight : Bool) :
    (insertFrag (withPacketLen e f lastFrag) f lastFrag fitLeft fitRight).holes =
      if len f ≠ 0 then
        if fitLeft && fitRight then subUnsigned e.holes 1
        else if !fitLeft && !fitRight then toUnsigned (e.holes + 1)
        else e.holes
      else if lastFrag && fitLeft then subUnsigned e.holes 1
      else e.holes := by
  simp only [insertFrag, apply_ite ReasmIpEntry.holes, withPacketLen_holes]

/-- A fragment with octets is counted right where the count was. -/
theorem Fits.count {b : Nat} {f : F} {lastFrag fitLeft fitRight : Bool}
    (h : Fits e.frags f lastFrag fitLeft fitRight) (hfrags : Apart offset fragEnd 0 e.frags b)
    (hb : fragEnd f ≤ b) (hlast : lastFrag = decide (fragEnd f = b)) (hwidth : b ≤ 4294967296)
    (hpos : len f ≠ 0) (hcount : e.holes = holes offset fragEnd b 0 e.frags) :
    (insertFrag (withPacketLen e f lastFrag) f lastFrag fitLeft fitRight).holes =
      holes offset fragEnd b 0 (fragsBefore e.frags f ++ f :: fragsAfter e.frags f) := by
  rw [insertFrag_count, if_pos hpos, hcount]
  conv_lhs => rw [← fragsBefore_append e.frags f]
  exact count_insert (h.apart hfrags hb hpos) hwidth h.fitLeft (h.fitRight b hlast)

/-- A last fragment ends the stretch that had no end. -/
theorem Fits.count_last {f : F} {fitLeft fitRight : Bool}
    (h : Fits e.frags f true fitLeft fitRight) (hfrags : Apart offset fragEnd 0 e.frags 4294967295)
    (hwidth : fragEnd f < 4294967296)
    (hcount : e.holes = holes offset fragEnd 4294967296 0 e.frags) :
    Apart offset fragEnd 0
        (insertFrag (withPacketLen e f true) f true fitLeft fitRight).frags (fragEnd f) ∧
      (insertFrag (withPacketLen e f true) f true fitLeft fitRight).holes =
        holes offset fragEnd (fragEnd f) 0
          (insertFrag (withPacketLen e f true) f true fitLeft fitRight).frags := by
  have hbefore : fragsBefore e.frags f = e.frags := by
    rw [← List.append_nil (fragsBefore e.frags f), ← h.last rfl, fragsBefore_append]
  have hend := fragEnd_eq f
  have hleft := h.left
  have hfit := h.fitLeft
  rw [hbefore] at hleft hfit
  have htrim : Apart offset fragEnd 0 e.frags (fragEnd f) := hfrags.trim (by omega)
  have hmove := holes_end offset fragEnd 0 4294967296 (fragEnd f) e.frags
  rw [← hcount, if_neg (by omega : ¬ stop fragEnd 0 e.frags = 4294967296)] at hmove
  rw [insertFrag_list]
  by_cases hpos : len f = 0
  · rw [if_neg (not_not_intro hpos), insertFrag_count, if_neg (not_not_intro hpos)]
    refine ⟨htrim, ?_⟩
    have hle := htrim.holes_le
    by_cases hstop : stop fragEnd 0 e.frags = offset f
    · rw [if_pos (by omega)] at hmove
      simp only [hfit, hstop, decide_true, Bool.and_self, if_true]
      unfold subUnsigned
      omega
    · rw [if_neg (by omega)] at hmove
      simp only [hfit, hstop, decide_false, Bool.and_false, Bool.false_eq_true, if_false]
      omega
  · rw [if_pos hpos]
    rw [if_neg (by omega)] at hmove
    exact ⟨h.apart htrim (Nat.le_refl _) hpos, h.count htrim (Nat.le_refl _) (decide_eq_true rfl).symm
      (Nat.le_of_lt hwidth) hpos (by omega)⟩

/-- A fragment behind all others touches no end. -/
theorem Fits.count_behind {f : F} {fitLeft fitRight : Bool}
    (h : Fits e.frags f false fitLeft fitRight) (hfrags : Apart offset fragEnd 0 e.frags 4294967295)
    (hplace : len f = 0 ∨ offset f = fragsEnd e.frags) :
    (insertFrag (withPacketLen e f false) f false fitLeft fitRight).holes = e.holes := by
  rw [insertFrag_count]
  rcases hplace with hpos | hplace
  · rw [if_neg (not_not_intro hpos)]
    rfl
  · rw [fragsEnd_eq_stop hfrags (by decide)] at hplace
    have htrim : Apart offset fragEnd 0 e.frags (offset f) := hfrags.trim (Nat.le_of_eq hplace.symm)
    have hafter : fragsAfter e.frags f = [] := by
      apply List.dropWhile_eq_nil_iff.mpr
      intro g hg
      have := htrim.mem hg
      exact decide_eq_true (by omega)
    have hbefore : fragsBefore e.frags f = e.frags := by
      rw [← List.append_nil (fragsBefore e.frags f), ← hafter, fragsBefore_append]
    have hleft := h.fitLeft
    have hright := h.fitRight (fragEnd f + 1) (decide_eq_false (by omega)).symm
    rw [hbefore, decide_eq_true hplace.symm] at hleft
    rw [hafter, front, decide_eq_false (by omega)] at hright
    rw [hleft, hright]
    split <;> rfl

theorem insertFrag_end {f : F} {lastFrag fitLeft fitRight : Bool}
    (hwidth : fragEnd f < 4294967296) :
    (insertFrag (withPacketLen e f lastFrag) f lastFrag fitLeft fitRight).len =
      if lastFrag then fragEnd f else e.len := by
  rw [insertFrag_len, withPacketLen_len]
  exact if_congr Iff.rfl (Nat.mod_eq_of_lt hwidth) rfl

/-- A fragment that is not the last, in a stretch it does not end. -/
theorem Fits.count_middle {b : Nat} {f : F} {fitLeft fitRight : Bool}
    (h : Fits e.frags f false fitLeft fitRight) (hfrags : Apart offset fragEnd 0 e.frags b)
    (hb : fragEnd f ≤ b) (hne : len f ≠ 0 → fragEnd f ≠ b) (hwidth : b ≤ 4294967296)
    (hcount : e.holes = holes offset fragEnd b 0 e.frags) :
    Apart offset fragEnd 0
        (insertFrag (withPacketLen e f false) f false fitLeft fitRight).frags b ∧
      (insertFrag (withPacketLen e f false) f false fitLeft fitRight).holes =
        holes offset fragEnd b 0
          (insertFrag (withPacketLen e f false) f false fitLeft fitRight).frags := by
  rw [insertFrag_list]
  by_cases hpos : len f = 0
  · rw [if_neg (not_not_intro hpos), insertFrag_count, if_neg (not_not_intro hpos)]
    exact ⟨hfrags, hcount⟩
  · rw [if_pos hpos]
    exact ⟨h.apart hfrags hb hpos,
      h.count hfrags hb (decide_eq_false (hne hpos)).symm hwidth hpos hcount⟩

/-- **One fragment.** The count stays right. -/
theorem acceptFragment_counted (h : Counted fs e)
    (hp : fragEnd p.1 < 4294967296 ∧ CountedRight e p) (hok : acceptFragment e p = .ok (u, e')) :
    Counted (fs ++ [p]) e' := by
  have hstored := acceptFragment_stored h.toStored hp.1 hok
  obtain ⟨f, lastFrag⟩ := p
  obtain ⟨hwidth, hknown, hnone⟩ := hp
  obtain ⟨hagain, hpast, fitLeft, fitRight, hplace, rfl⟩ := acceptFragment_ok hok
  have hfits := fragPlace_fits h.apart (by decide) hwidth hplace
  have hlen : (insertFrag (withPacketLen e f lastFrag) f lastFrag fitLeft fitRight).len =
      if lastFrag then fragEnd f else e.len := insertFrag_end hwidth
  by_cases hseen : ∃ p ∈ fs, p.2 = true
  · have hthis : lastFrag = false := by
      by_contra hlast
      have hzero := hagain (Bool.of_not_eq_false hlast)
      exact hlast (hnone hzero (h.noOctets hseen hzero)).1
    subst hthis
    rw [if_neg Bool.false_ne_true] at hlen
    have hboth : ∃ p ∈ fs ++ [(f, false)], p.2 = true := by
      obtain ⟨p, hp, hlast⟩ := hseen
      exact ⟨p, List.mem_append_left _ hp, hlast⟩
    refine ⟨hstored, ?_, ?_, ?_⟩
    · intro hall
      obtain ⟨p, hp, hlast⟩ := hboth
      rw [hall p hp] at hlast
      cases hlast
    · intro _ hne
      rw [hlen] at hne ⊢
      obtain ⟨hless, hfrags, hcount⟩ := h.known hseen hne
      have hb : fragEnd f ≤ e.len := by
        have := hpast hne
        rwa [Nat.add_comm, show toUnsigned (offset f + len f) = fragEnd f from
          Nat.mod_eq_of_lt hwidth] at this
      exact ⟨hless, hfits.count_middle hfrags hb (hknown hne) (Nat.le_of_lt hless) hcount⟩
    · intro _ hzero
      rw [hlen] at hzero
      have hholes := h.noOctets hseen hzero
      rw [hfits.count_behind h.apart (hnone hzero hholes).2, hholes]
  · have hfirst : ∀ p ∈ fs, p.2 = false := fun p hp =>
      Bool.of_not_eq_true fun hlast => hseen ⟨p, hp, hlast⟩
    obtain ⟨hzero, hcount⟩ := h.unknown hfirst
    cases lastFrag with
    | true =>
        rw [if_pos rfl] at hlen
        obtain ⟨hfrags, hholes⟩ := hfits.count_last h.apart hwidth hcount
        refine ⟨hstored, fun hall => ?_, fun _ _ => ?_, fun _ hnil => ?_⟩
        · exact absurd (hall (f, true) (List.mem_append_right _ (List.mem_singleton_self _)))
            Bool.noConfusion
        · rw [hlen]
          exact ⟨hwidth, hfrags, hholes⟩
        · have hle := hfrags.holes_le
          rw [← hholes] at hle
          rw [hlen] at hnil
          dsimp only at hle hnil ⊢
          omega
    | false =>
        rw [if_neg Bool.false_ne_true] at hlen
        have hall : ¬ ∃ p ∈ fs ++ [(f, false)], p.2 = true := by
          rintro ⟨p, hp, hlast⟩
          rcases List.mem_append.mp hp with hold | hnew
          · exact hseen ⟨p, hold, hlast⟩
          · rw [List.mem_singleton.mp hnew] at hlast
            cases hlast
        refine ⟨hstored, fun _ => ⟨hlen.trans hzero, ?_⟩, fun h => absurd h hall,
          fun h => absurd h hall⟩
        exact (hfits.count_middle (h.apart.mono_right (Nat.le_succ _))
          (Nat.le_of_lt hwidth) (fun _ => Nat.ne_of_lt hwidth) (Nat.le_refl _) hcount).2

theorem Counted.complete_iff (h : Counted fs e) :
    reasmIsComplete e = true ↔ AllArrived fs e := by
  rw [reasmIsComplete, decide_eq_true_iff, AllArrived]
  by_cases hseen : ∃ p ∈ fs, p.2 = true
  · rw [and_iff_right hseen]
    by_cases hzero : e.len = 0
    · rw [h.noOctets hseen hzero, hzero]
      exact iff_of_true rfl fun k hk => absurd hk (Nat.not_lt_zero k)
    · obtain ⟨-, hfrags, hcount⟩ := h.known hseen hzero
      rw [hcount, hfrags.holes_eq_zero_iff]
      refine forall_congr' fun k => ?_
      rw [← h.covers k]
      exact forall_prop_of_true (Nat.zero_le k)
  · have hfirst : ∀ p ∈ fs, p.2 = false := fun p hp =>
      Bool.of_not_eq_true fun hlast => hseen ⟨p, hp, hlast⟩
    refine iff_of_false ?_ fun hall => hseen hall.1
    -- the last number of all is open
    rw [(h.unknown hfirst).2]
    exact h.apart.holes_succ_ne_zero

end Invariant

/-! ### Runs -/

/-- **The hole count.** Whatever fragments a new entry accepts, its list is sorted and no octet lies
in two of them; and while it gets none that the count goes wrong at, it is complete when a last
fragment and all octets in front of its end have arrived, and not before. -/
theorem hole_count_exact (id : ReasmId) (hash : Nat) (timeout : Int) {fs : List (F × Bool)}
    (hwidth : ∀ p ∈ fs, offset p.1 + len p.1 < 4294967296) {rs : List Unit} {e : ReasmIpEntry F}
    (hrun : run acceptFragment (ReasmIpEntry.init id hash timeout) fs = .ok (rs, e)) :
    FragsInOrder e.frags ∧
      (Along acceptFragment CountedRight (ReasmIpEntry.init id hash timeout) fs →
        (reasmIsComplete e = true ↔ AllArrived fs e)) := by
  constructor
  · have h : Stored ([] ++ fs) e := run_history
      (fun _ _ _ _ _ hinv hi hok => acceptFragment_stored hinv hi hok)
      (stored_init id hash timeout) (along_of_inputs hwidth) hrun
    exact h.inOrder
  · intro halong
    have h : Counted ([] ++ fs) e := run_history
      (fun _ _ _ _ _ hinv hi hok => acceptFragment_counted hinv hi hok)
      (counted_init id hash timeout) (along_and hwidth halong) hrun
    exact h.complete_iff

/-- A fragment of which only the place is looked at, and an entry that holds such fragments. -/
def fragAt (offset len : Nat) : BaseFrag := ⟨⟨0, 0⟩, len, offset, 0, 0, 0, []⟩

def entryOf (len holes : Nat) (frags : List BaseFrag) : ReasmIpEntry BaseFrag :=
  ⟨.ipv4 [] [] 0 0, len, holes, frags.length, 0, 0, .active, frags⟩

/-- Three fragments, the last of them first. -/
theorem hole_count_exact_sample :
    FragsInOrder [fragAt 0 8, fragAt 8 8, fragAt 16 3] ∧
      (reasmIsComplete (entryOf 19 0 [fragAt 0 8, fragAt 8 8, fragAt 16 3]) = true ↔
        AllArrived [(fragAt 16 3, true), (fragAt 0 8, false), (fragAt 8 8, false)]
          (entryOf 19 0 [fragAt 0 8, fragAt 8 8, fragAt 16 3])) := by
  have hrun : run acceptFragment (ReasmIpEntry.init (.ipv4 [] [] 0 0) 0 0)
      [(fragAt 16 3, true), (fragAt 0 8, false), (fragAt 8 8, false)] =
        .ok ([(), (), ()], entryOf 19 0 [fragAt 0 8, fragAt 8 8, fragAt 16 3]) := rfl
  obtain ⟨horder, hcomplete⟩ := hole_count_exact (.ipv4 [] [] 0 0) 0 0 (by decide) hrun
  refine ⟨horder, hcomplete (along_cons ?_ (along_cons ?_ (along_cons ?_ trivial)))⟩
  · exact ⟨by decide, by decide⟩
  · exact ⟨by decide, by decide⟩
  · exact ⟨by decide, by decide⟩

/-- A last fragment without octets comes before the fragment in front of it: all has arrived, and
the entry is never complete. -/
theorem empty_last_miscounts : ∃ e,
    run acceptFragment (ReasmIpEntry.init (.ipv4 [] [] 0 0) 0 0)
        [(fragAt 8 0, true), (fragAt 0 8, false)] = .ok ([(), ()], e) ∧
      ¬ (reasmIsComplete e = true ↔
        AllArrived [(fragAt 8 0, true), (fragAt 0 8, false)] e) := by
  refine ⟨entryOf 8 1 [fragAt 0 8], rfl, fun h => ?_⟩
  have harrived : AllArrived [(fragAt 8 0, true), (fragAt 0 8, false)]
      (entryOf 8 1 [fragAt 0 8]) := by
    refine ⟨⟨(fragAt 8 0, true), by decide, rfl⟩, fun k hk => ⟨(fragAt 0 8, false), by decide, ?_⟩⟩
    exact ⟨Nat.zero_le k, hk⟩
  exact absurd (h.mpr harrived) (by decide)

end Nmsg

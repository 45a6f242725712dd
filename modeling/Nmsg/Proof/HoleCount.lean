import Nmsg.Lib.Tiling
import Nmsg.Ipreasm.Store

/-!
# The hole count

The fragments of a datagram tile its payload. An entry that has received some of them, in any
order, counts the stretches that are open, and so it is complete when it has received all of them
and not before.
-/

namespace Nmsg

open ReasmFrag Tiling

variable {F : Type} [ReasmFrag F]

/-- Where the payload of a fragment ends in that of its datagram. -/
def fragEnd (f : F) : Nat := offset f + len f

/-- The fragments, in order, of a datagram with `total` octets of payload. -/
structure FragsOf (total : Nat) (all : List F) : Prop where
  tiles : Tiles offset fragEnd 0 all total
  nonempty : all ≠ []
  width : total < 4294967296
  eight : ∀ f ∈ all, fragEnd f ≠ total → len f % 8 = 0

/-- The entry holds those of the fragments that `p` holds of. -/
structure Received (total : Nat) (all : List F) (p : F → Bool) (e : ReasmIpEntry F) : Prop where
  active : e.state = .active
  frags : e.frags = all.filter p
  len : e.len = if stop fragEnd 0 (all.filter p) = total then total else 0
  holes : e.holes = holes offset fragEnd total 0 (all.filter p)

section Fragments

variable {total : Nat} {all : List F} {p : F → Bool} {e : ReasmIpEntry F} {f : F}

theorem FragsOf.total_pos (h : FragsOf total all) : 0 < total := by
  obtain ⟨tiles, hne, -, -⟩ := h
  cases all with
  | nil => exact absurd rfl hne
  | cons f rest =>
      have := tiles.apart.mem (List.mem_cons_self ..)
      omega

/-- A fragment that has been received, or this one. -/
def withFrag (p : F → Bool) (f : F) : F → Bool := fun g => p g || decide (offset g = offset f)

/-- The fragments around one that is received. -/
theorem FragsOf.around (h : FragsOf total all) (hf : f ∈ all) (hnew : p f = false) :
    ∃ before after, all.filter p = before ++ after ∧
      all.filter (withFrag p f) = before ++ f :: after ∧
      Apart offset fragEnd 0 (before ++ f :: after) total := by
  obtain ⟨front, rest, hall⟩ := List.append_of_mem hf
  have hapart := h.tiles.apart
  rw [hall] at hapart
  obtain ⟨hfront, hlt, hrest⟩ := apart_append hapart
  have hfrontNe : ∀ g ∈ front, withFrag p f g = p g := by
    intro g hg
    have hmem := hfront.mem hg
    rw [withFrag, decide_eq_false (by omega), Bool.or_false]
  have hrestNe : ∀ g ∈ rest, withFrag p f g = p g := by
    intro g hg
    have hmem := hrest.mem hg
    rw [withFrag, decide_eq_false (by omega), Bool.or_false]
  have hself : withFrag p f f = true := by
    rw [withFrag, decide_eq_true rfl, Bool.or_true]
  have hfilter : all.filter (withFrag p f) = front.filter p ++ f :: rest.filter p := by
    rw [hall, List.filter_append, List.filter_cons_of_pos hself, List.filter_congr hfrontNe,
      List.filter_congr hrestNe]
  refine ⟨front.filter p, rest.filter p, ?_, hfilter, ?_⟩
  · rw [hall, List.filter_append, List.filter_cons_of_neg (by rw [hnew]; exact Bool.false_ne_true)]
  · rw [← hfilter]
    exact h.tiles.apart.sublist List.filter_sublist

theorem fragsEnd_eq_stop {l : List F} {b : Nat} (h : Apart offset fragEnd 0 l b)
    (hwidth : b < 4294967296) : fragsEnd l = stop fragEnd 0 l := by
  have hstop := h.stop_le
  rw [fragsEnd, stop_eq_getLast] at *
  cases hlast : l.getLast? with
  | none => rfl
  | some cur =>
      rw [hlast] at hstop
      exact Nat.mod_eq_of_lt (Nat.lt_of_le_of_lt hstop hwidth)

/-- Nothing of a datagram comes behind its end. -/
theorem apart_total {l : List F} (h : Apart offset fragEnd total l total) : l = [] := by
  cases l with
  | nil => rfl
  | cons f rest =>
      have := h.mem (List.mem_cons_self ..)
      omega

/-- The place of a fragment among those received. -/
theorem fragPlace_eq {before after : List F}
    (h : Apart offset fragEnd 0 (before ++ f :: after) total) (hwidth : total < 4294967296) :
    fragPlace (before ++ after) f (decide (fragEnd f = total)) =
      some (decide (stop fragEnd 0 before = offset f),
        decide (fragEnd f = front offset total after)) := by
  obtain ⟨hbefore, hlt, hafter⟩ := apart_append h
  obtain ⟨htake, hdrop⟩ := takeWhile_lo h
  have hend := hafter.le
  have hleft := fragsEnd_eq_stop hbefore (by omega)
  have hle := hbefore.stop_le
  have hright : toUnsigned (offset f + len f) = fragEnd f := Nat.mod_eq_of_lt (by
    change fragEnd f < _
    omega)
  unfold fragPlace
  simp only [fragsBefore, fragsAfter, htake, hdrop, hleft, hright, if_neg (Nat.not_lt.mpr hle)]
  cases after with
  | nil => rfl
  | cons next rest =>
      have hnext : fragEnd f ≤ offset next := hafter.1
      have hlast : decide (fragEnd f = total) = false := by
        have := hafter.mem (List.mem_cons_self ..)
        exact decide_eq_false (by omega)
      simp only [hlast, Bool.false_eq_true, if_false, if_neg (Nat.not_lt.mpr hnext), front]
      rfl

/-- The count after a fragment is put in its place. -/
theorem count_insert {before after : List F} {b : Nat}
    (h : Apart offset fragEnd 0 (before ++ f :: after) b) (hb : b ≤ 4294967296) {left right : Bool}
    (hleft : left = decide (stop fragEnd 0 before = offset f))
    (hright : right = decide (fragEnd f = front offset b after)) :
    (if left && right then subUnsigned (holes offset fragEnd b 0 (before ++ after)) 1
      else if !left && !right then toUnsigned (holes offset fragEnd b 0 (before ++ after) + 1)
      else holes offset fragEnd b 0 (before ++ after)) =
      holes offset fragEnd b 0 (before ++ f :: after) := by
  have hcount := holes_insert h
  have hle := h.holes_le
  rw [List.length_append, List.length_cons] at hle
  unfold subUnsigned toUnsigned
  subst hleft hright
  by_cases hl : stop fragEnd 0 before = offset f <;>
    by_cases hr : fragEnd f = front offset b after <;>
      simp only [hl, hr, decide_true, decide_false, Bool.and_self, Bool.and_true,
        Bool.and_false, Bool.not_true, Bool.not_false, Bool.false_eq_true, if_true, if_false,
        ne_eq, not_true_eq_false, not_false_eq_true, and_self, and_false, and_true]
        at hcount ⊢ <;> omega

/-- **A fragment is received.** It is put in its place, and the holes are counted anew. -/
theorem reasmAddFragment_received (hall : FragsOf total all) (h : Received total all p e)
    (hf : f ∈ all) (hnew : p f = false) :
    ∃ e', reasmAddFragment e f (decide (fragEnd f = total)) = (true, e') ∧
      Received total all (withFrag p f) e' ∧ e'.id = e.id ∧ e'.hash = e.hash ∧
      e'.timeout = e.timeout := by
  obtain ⟨before, after, hold, hnow, hapart⟩ := hall.around hf hnew
  obtain ⟨hbefore, hlt, hafter⟩ := apart_append hapart
  have hend := hafter.le
  have hwidth := hall.width
  have hpos : len f ≠ 0 := by
    have : fragEnd f = offset f + len f := rfl
    omega
  have hstop := hbefore.stop_le
  have hunsigned : toUnsigned (offset f + len f) = fragEnd f := Nat.mod_eq_of_lt (by
    change fragEnd f < _
    omega)
  -- a last fragment has nothing behind it, and is the one that gives the length
  have hlast : fragEnd f = total → after = [] ∧ e.len = 0 := by
    intro hlast
    have hnil : after = [] := apart_total (hlast ▸ hafter)
    refine ⟨hnil, ?_⟩
    rw [h.len, hold, hnil, List.append_nil, if_neg (by omega)]
  have hlen : e.len = 0 ∨ e.len = total := by
    rw [h.len]
    split
    · exact Or.inr rfl
    · exact Or.inl rfl
  have hshort : ¬ ((!decide (fragEnd f = total)) && decide (len f % 8 ≠ 0)) = true := by
    by_cases hl : fragEnd f = total
    · simp [hl]
    · simp [hl, hall.eight f hf hl]
  have hpast : ¬ (e.len ≠ 0 ∧ toUnsigned (len f + offset f) > e.len) := by
    rw [Nat.add_comm, hunsigned]
    omega
  have hagain : ¬ (decide (fragEnd f = total) && decide (e.len ≠ 0)) = true := by
    by_cases hl : fragEnd f = total
    · simp [(hlast hl).2]
    · simp [hl]
  have hfrags : (withPacketLen e f (decide (fragEnd f = total))).frags = before ++ after := by
    rw [← hold, ← h.frags, withPacketLen]
    split <;> rfl
  have hplace := fragPlace_eq hapart hwidth
  obtain ⟨htake, hdrop⟩ := takeWhile_lo hapart
  obtain ⟨hframe, hholes⟩ : (withPacketLen e f (decide (fragEnd f = total))).state = .active ∧
      (withPacketLen e f (decide (fragEnd f = total))).holes = e.holes := by
    unfold withPacketLen
    split <;> exact ⟨h.active, rfl⟩
  refine ⟨insertFrag (withPacketLen e f (decide (fragEnd f = total))) f
    (decide (fragEnd f = total)) (decide (stop fragEnd 0 before = offset f))
    (decide (fragEnd f = front offset total after)), ?_, ⟨?_, ?_, ?_, ?_⟩, ?_⟩
  · unfold reasmAddFragment
    rw [if_neg hshort, if_neg hpast, if_neg hagain]
    simp only [hfrags, hplace]
  · rw [insertFrag, if_pos hpos]
    exact hframe
  · rw [insertFrag, if_pos hpos, hnow]
    simp only [fragsBefore, fragsAfter, hfrags, htake, hdrop]
  · rw [insertFrag, if_pos hpos, hnow, stop_append, stop]
    by_cases hl : fragEnd f = total
    · rw [(hlast hl).1, stop, if_pos hl]
      simp only [withPacketLen, hl, decide_true, if_true, hunsigned]
    · have hkeep : (withPacketLen e f (decide (fragEnd f = total))).len = e.len := by
        rw [withPacketLen, if_neg (by simp [hl])]
      change (withPacketLen e f (decide (fragEnd f = total))).len = _
      rw [hkeep, h.len, hold, stop_append]
      cases after with
      | nil => rw [stop, stop, if_neg hl, if_neg (by omega)]
      | cons next rest => rfl
  · rw [insertFrag, if_pos hpos, hnow]
    simp only [hholes, h.holes, hold]
    exact count_insert hapart (Nat.le_of_lt hwidth) rfl rfl
  · have hid : (withPacketLen e f (decide (fragEnd f = total))).id = e.id ∧
        (withPacketLen e f (decide (fragEnd f = total))).hash = e.hash ∧
        (withPacketLen e f (decide (fragEnd f = total))).timeout = e.timeout := by
      unfold withPacketLen
      split <;> exact ⟨rfl, rfl, rfl⟩
    rw [insertFrag, if_pos hpos]
    exact hid

/-- An entry that has received every fragment holds them all, and knows the length. -/
theorem Received.complete (hall : FragsOf total all) (h : Received total all p e)
    (hp : ∀ f ∈ all, p f = true) :
    reasmIsComplete e = true ∧ e.frags = all ∧ e.len = total := by
  have hfilter : all.filter p = all := List.filter_eq_self.mpr hp
  have hstop : ∀ {a} {l : List F}, Tiles offset fragEnd a l total → stop fragEnd a l = total := by
    intro a l hl
    induction l generalizing a with
    | nil => exact hl
    | cons f rest ih => exact ih hl.2.2
  refine ⟨?_, by rw [h.frags, hfilter], ?_⟩
  · rw [reasmIsComplete, h.holes, hfilter, holes_of_tiles hall.tiles]
    rfl
  · rw [h.len, hfilter, if_pos (hstop hall.tiles)]

/-- **An entry is not complete while a fragment is missing.** -/
theorem Received.incomplete (hall : FragsOf total all) (h : Received total all p e) (hf : f ∈ all)
    (hmissing : p f = false) : reasmIsComplete e = false := by
  rw [reasmIsComplete, h.holes]
  apply decide_eq_false
  intro hzero
  have hapart := hall.tiles.apart.sublist (List.filter_sublist (p := p))
  have htiles := tiles_of_holes hapart hzero
  have hfilter := eq_of_sublist List.filter_sublist hall.tiles htiles
  rw [List.filter_eq_self] at hfilter
  rw [hfilter f hf] at hmissing
  cases hmissing

/-- A new entry has received nothing. -/
theorem received_init (hall : FragsOf total all) (id : ReasmId) (hash : Nat) (timeout : Int) :
    Received total all (fun _ => false) (ReasmIpEntry.init id hash timeout) := by
  have hpos := hall.total_pos
  refine ⟨rfl, ?_, ?_, ?_⟩
  · rw [List.filter_false]
    rfl
  · rw [List.filter_false, stop, if_neg (by omega)]
    rfl
  · rw [List.filter_false, Tiling.holes, if_neg (by omega)]
    rfl

end Fragments

end Nmsg

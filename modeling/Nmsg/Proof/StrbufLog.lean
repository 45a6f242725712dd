import Mathlib.Data.List.Induction
import Nmsg.Msgmod.StrbufWidth

/-!
# A string buffer is a log

The size of a buffer is a power of two. As it only grows when it is too small, it stays within
`2 ^ 62` for as long as the texts and the zero octet do, and up to there no integer overflows.
-/

namespace Nmsg

/-! ### The doubling loop -/

section Grow

variable {bufsz needed newBufsz n fuel : Nat}

/-- The loop ends at a size that is a number of doublings on, and was too small before the last. -/
theorem growBufsz_ok (h : growBufsz bufsz needed fuel newBufsz = .ok n) :
    (∃ j, n = 2 ^ j * newBufsz) ∧
      (n = newBufsz ∨ ∃ m, n = 2 * m ∧ newBufsz ≤ m ∧ m - bufsz < needed) := by
  induction fuel generalizing newBufsz with
  | zero => cases h
  | succ fuel ih =>
      rw [growBufsz] at h
      by_cases hshort : newBufsz - bufsz < needed
      · rw [if_pos hshort] at h
        obtain ⟨⟨j, hj⟩, hlast⟩ := ih h
        refine ⟨⟨j + 1, by rw [hj, Nat.pow_succ, Nat.mul_assoc]⟩, Or.inr ?_⟩
        rcases hlast with rfl | ⟨m, hm, hle, hroom⟩
        · exact ⟨newBufsz, rfl, Nat.le_refl _, hshort⟩
        · exact ⟨m, hm, by omega, hroom⟩
      · rw [if_neg hshort] at h
        cases h
        exact ⟨⟨0, by rw [Nat.pow_zero, Nat.one_mul]⟩, Or.inl rfl⟩

/-- As long as the size fits, the loop goes the same way. -/
theorem growSsize_of_growBufsz (h : growBufsz bufsz needed fuel newBufsz = .ok n)
    (hn : n < ssizeEnd) : ∀ {fuel' : Nat}, ssizeEnd ≤ 2 ^ fuel' * newBufsz →
      growSsize bufsz needed fuel' newBufsz = .ok n := by
  induction fuel generalizing newBufsz with
  | zero => cases h
  | succ fuel ih =>
      intro fuel' hfuel
      have hle : newBufsz ≤ n := by
        rcases (growBufsz_ok h).2 with rfl | ⟨m, rfl, hm, -⟩
        · exact Nat.le_refl _
        · omega
      cases fuel' with
      | zero =>
          rw [Nat.pow_zero, Nat.one_mul] at hfuel
          omega
      | succ fuel' =>
          rw [growBufsz] at h
          rw [growSsize, if_neg (by omega)]
          by_cases hshort : newBufsz - bufsz < needed
          · rw [if_pos hshort] at h ⊢
            apply ih h
            rwa [Nat.pow_succ, Nat.mul_assoc] at hfuel
          · rw [if_neg hshort] at h ⊢
            exact h

end Grow

namespace Strbuf

/-! ### One call -/

/-- A buffer that was allocated: its size is a power of two, and the text and a zero octet are in
it. -/
structure Sized (sb : Strbuf) : Prop where
  valid : sb.Valid
  present : sb.data ≠ none
  power : ∃ k, 10 ≤ k ∧ k ≤ 62 ∧ sb.bufsz = 2 ^ k
  within : ∀ data, sb.data = some data → data.length ≤ sb.bufsz

variable {sb : Strbuf} {text : Bytes}

/-- What a run starts from, or has come to. -/
def Ready (sb : Strbuf) : Prop := sb = init ∨ sb.Sized

theorem Ready.valid (h : sb.Ready) : sb.Valid := by
  rcases h with rfl | h
  · exact init_valid
  · exact h.valid

theorem Ready.allocated (h : sb.Ready) : sb.allocated.Sized ∧ sb.allocated.pos = sb.pos ∧
    sb.allocated.text = sb.text := by
  obtain ⟨hvalid, hsome, hpos, htext⟩ := h.valid.allocated
  refine ⟨⟨hvalid, hsome, ?_, ?_⟩, hpos, htext⟩
  · rcases h with rfl | h
    · exact ⟨10, by decide, by decide, rfl⟩
    · rw [Strbuf.allocated, if_neg h.present]
      exact h.power
  · rcases h with rfl | h
    · rintro data ⟨⟩
      exact Nat.zero_le _
    · rw [Strbuf.allocated, if_neg h.present]
      exact h.within

/-- A text for which there is room in a buffer of `2 ^ 62` octets gets it, without an overflow. -/
theorem Sized.ssizeFor (h : sb.Sized) {needed : Nat} (hneeded : needed ≤ intMax)
    (htotal : sb.pos + needed ≤ 2 ^ 62) :
    ∃ k, 10 ≤ k ∧ k ≤ 62 ∧ sb.ssizeFor needed = .ok (2 ^ k) ∧
      sb.sizeFor needed = .ok (2 ^ k) ∧ sb.pos + needed ≤ 2 ^ k ∧ sb.bufsz ≤ 2 ^ k := by
  obtain ⟨k, hlow, hhigh, hpower⟩ := h.power
  obtain ⟨bufsz, hsize, hroom⟩ := h.valid.sizeFor h.present needed
  have hmax : intMax = 2 ^ 31 - 1 := rfl
  have hend : ssizeEnd = 2 ^ 63 := rfl
  have hpos := (h.valid.room h.present).1
  unfold Strbuf.ssizeFor
  unfold Strbuf.sizeFor at hsize ⊢
  by_cases hshort : needed > sb.bufsz - sb.pos
  · rw [if_pos hshort] at hsize ⊢
    obtain ⟨⟨j, hj⟩, hlast⟩ := growBufsz_ok hsize
    have hk : bufsz = 2 ^ (j + 1 + k) := by
      rw [hj, hpower, Nat.pow_add, Nat.pow_succ, Nat.mul_assoc]
    have hle : bufsz ≤ 2 ^ 62 := by
      rcases hlast with hfirst | ⟨m, rfl, hm, hbefore⟩
      · -- one doubling: the size was below `2 ^ 62` and is a power of two
        have hlt : 2 ^ k < 2 ^ 62 := by omega
        have hk' : k < 62 := (Nat.pow_lt_pow_iff_right (by decide)).mp hlt
        calc bufsz = 2 ^ (k + 1) := by rw [hfirst, hpower, Nat.pow_succ, Nat.mul_comm]
          _ ≤ 2 ^ 62 := Nat.pow_le_pow_right (by decide) hk'
      · omega
    have hsize' : growSsize sb.bufsz needed 64 (2 * sb.bufsz) = .ok bufsz := by
      apply growSsize_of_growBufsz hsize (by omega)
      have := (h.valid.room h.present).2
      omega
    have hk62 : j + 1 + k ≤ 62 :=
      (Nat.pow_le_pow_iff_right (by decide)).mp (hk ▸ hle)
    refine ⟨j + 1 + k, by omega, hk62, ?_, ?_, ?_, ?_⟩
    · rw [hsize', hk]
    · rw [if_pos hshort, hsize, hk]
    · rw [← hk]
      exact hroom
    · rw [← hk, hj]
      calc sb.bufsz ≤ 2 * sb.bufsz := by omega
        _ ≤ 2 ^ j * (2 * sb.bufsz) := Nat.le_mul_of_pos_left _ (Nat.two_pow_pos j)
  · rw [if_neg hshort] at hsize ⊢
    refine ⟨k, hlow, hhigh, ?_, ?_, ?_, ?_⟩
    · rw [hpower]
    · rw [if_neg hshort, hpower]
    · rw [← hpower]
      omega
    · rw [hpower]

/-- The text and its place have widths that the source can count. -/
def Fits (sb : Strbuf) (text : Bytes) : Prop :=
  text.length < intMax ∧ sb.pos + text.length < 2 ^ 62

/-- **A text that fits is appended.** -/
theorem Ready.append_of_fits (h : sb.Ready) (hfits : sb.Fits text) :
    ∃ sb', sb.nmsgStrbufAppend text = .ok (.success, sb') ∧ sb'.Sized ∧
      sb'.text = sb.text ++ text ∧ sb'.LogOf (sb.text ++ text) := by
  obtain ⟨hlen, htotal⟩ := hfits
  obtain ⟨hsized, hpos, -⟩ := h.allocated
  have hroom := (hsized.valid.room hsized.present).1
  obtain ⟨k, hlow, hhigh, hssize, hsize, hfit, hgrown⟩ :=
    hsized.ssizeFor (show text.length + 1 ≤ intMax from hlen) (by omega)
  have hstatus : vsnprintfStatus text = some text.length := if_pos (Nat.le_of_lt hlen)
  have hneeded : neededOctets text = .ok (text.length + 1) := by
    rw [neededOctets, hstatus]
    exact if_neg (Nat.ne_of_lt hlen)
  obtain ⟨sb', data, happend, hvalid, hpos', htext', hdata, hterminated⟩ := h.valid.append text
  have heq : sb.nmsgStrbufAppend text = .ok (.success, sb') ∧ sb'.bufsz = 2 ^ k ∧
      data.length ≤ 2 ^ k := by
    rw [Strbuf.append, if_neg (by omega), hsize] at happend
    simp only [bind, Except.bind, if_neg (Nat.not_lt_of_le hfit)] at happend
    cases happend
    refine ⟨?_, rfl, ?_⟩
    · rw [nmsgStrbufAppend, hneeded]
      simp only [bind, Except.bind, if_neg (Nat.not_lt_of_le hroom), hssize, hstatus,
        if_neg (Nat.not_lt_of_le hfit)]
      rfl
    · rw [← Option.some.inj hdata]
      have hwithin : (sb.allocated.data.getD []).length ≤ sb.allocated.bufsz := by
        obtain ⟨old, hold⟩ := Option.ne_none_iff_exists'.mp hsized.present
        rw [hold]
        exact hsized.within old hold
      simp only [List.length_append, List.length_take, List.length_drop, List.length_singleton]
      omega
  obtain ⟨hcall, hbufsz, hwritten⟩ := heq
  refine ⟨sb', hcall, ⟨hvalid, ?_, ⟨k, hlow, hhigh, hbufsz⟩, ?_⟩, htext', ?_⟩
  · rw [hdata]
    exact Option.some_ne_none _
  · intro data' hdata'
    rw [hdata] at hdata'
    rw [← Option.some.inj hdata', hbufsz]
    exact hwritten
  · refine ⟨data, hdata, ?_, ?_, ?_, ?_⟩
    · rw [hterminated, htext']
    · rw [Strbuf.len, ← htext', hvalid.length_text]
    · rw [Strbuf.len, hpos', hbufsz]
      omega
    · rw [hbufsz]
      exact hwritten

/-- A text that does not fit is not appended. -/
theorem Ready.fits_of_append (h : sb.Ready) {sb' : Strbuf}
    (hok : sb.nmsgStrbufAppend text = .ok (.success, sb')) : sb.Fits text := by
  obtain ⟨hsized, hpos, -⟩ := h.allocated
  obtain ⟨k, hlow, hhigh, hpower⟩ := hsized.power
  have hroom := (hsized.valid.room hsized.present).1
  have hmax : intMax = 2 ^ 31 - 1 := rfl
  rw [nmsgStrbufAppend] at hok
  by_cases hlong : intMax < text.length
  · -- the formatting fails
    have hstatus : vsnprintfStatus text = none := if_neg (Nat.not_le_of_lt hlong)
    have hneeded : neededOctets text = .ok 0 := by rw [neededOctets, hstatus]
    rw [hneeded] at hok
    simp only [bind, Except.bind, if_neg (Nat.not_lt_of_le hroom), hstatus] at hok
    have hsize : sb.allocated.ssizeFor 0 = .ok sb.allocated.bufsz := if_neg (Nat.not_lt_zero _)
    rw [hsize] at hok
    cases hok
  have hstatus : vsnprintfStatus text = some text.length := if_pos (Nat.le_of_not_lt hlong)
  by_cases hmost : text.length = intMax
  · -- the `int` overflows
    have hneeded : neededOctets text = .error .signedOverflow := by
      rw [neededOctets, hstatus]
      exact if_pos hmost
    rw [hneeded] at hok
    cases hok
  refine ⟨by omega, ?_⟩
  have hneeded : neededOctets text = .ok (text.length + 1) := by
    rw [neededOctets, hstatus]
    exact if_neg hmost
  rw [hneeded] at hok
  simp only [bind, Except.bind, if_neg (Nat.not_lt_of_le hroom)] at hok
  by_contra hover
  -- a buffer that is filled this far has `2 ^ 62` octets, and twice as many are no `ssize_t`
  have hfull : k = 62 := by
    have hlt : 2 ^ 61 < 2 ^ k := by omega
    have := (Nat.pow_lt_pow_iff_right (show 1 < 2 by decide)).mp hlt
    omega
  rw [hfull] at hpower
  have hsize : sb.allocated.ssizeFor (text.length + 1) = .error .signedOverflow := by
    rw [Strbuf.ssizeFor, if_pos (by omega), growSsize, if_pos (by rw [hpower]; decide)]
  rw [hsize] at hok
  cases hok

/-! ### Runs -/

/-- The texts are counted by an `int` with the zero octet, and all of them are less than `2 ^ 62`
octets. -/
structure Countable (texts : List Bytes) : Prop where
  each : ∀ text ∈ texts, text.length < intMax
  total : texts.flatten.length < 2 ^ 62

theorem Countable.front {front texts : List Bytes} (h : Countable texts) (hfront : front <+: texts) :
    Countable front := by
  obtain ⟨rest, rfl⟩ := hfront
  refine ⟨fun text htext => h.each text (List.mem_append_left _ htext), ?_⟩
  have htotal := h.total
  rw [List.flatten_append, List.length_append] at htotal
  omega

/-- **A run of texts that can be counted.** -/
theorem run_of_countable {texts : List Bytes} (h : Countable texts) :
    ∃ rs sb, StepRun.run nmsgStrbufAppend init texts = .ok (rs, sb) ∧ (∀ r ∈ rs, r = .success) ∧
      sb.Ready ∧ sb.text = texts.flatten ∧ (texts ≠ [] → sb.LogOf texts.flatten) := by
  let Inv (seen : List Bytes) (sb : Strbuf) : Prop :=
    sb.Ready ∧ sb.text = seen.flatten ∧ (seen ≠ [] → sb.LogOf seen.flatten)
  have hstep : ∀ seen sb text, Inv seen sb → Countable (seen ++ [text]) →
      ∃ r sb', nmsgStrbufAppend sb text = .ok (r, sb') ∧ r = .success ∧
        Inv (seen ++ [text]) sb' := by
    rintro seen sb text ⟨hready, htext, -⟩ hcount
    have hflat : (seen ++ [text]).flatten = sb.text ++ text := by
      rw [List.flatten_append, List.flatten_singleton, htext]
    have hpos := hready.valid.length_text
    have htotal := hcount.total
    rw [hflat, List.length_append] at htotal
    have hfits : sb.Fits text :=
      ⟨hcount.each text (List.mem_append_right _ (List.mem_singleton_self _)), by omega⟩
    obtain ⟨sb', hok, hsized, htext', hlog⟩ := hready.append_of_fits hfits
    exact ⟨.success, sb', hok, rfl, Or.inr hsized, htext'.trans hflat.symm, fun _ => hflat ▸ hlog⟩
  have hinit : Inv [] init := ⟨Or.inl rfl, text_init, fun hne => absurd rfl hne⟩
  have hinputs : ∀ front text rest, texts = front ++ text :: rest →
      Countable ([] ++ front ++ [text]) := by
    rintro front text rest rfl
    rw [List.nil_append]
    exact h.front ⟨rest, by rw [List.append_assoc, List.singleton_append]⟩
  obtain ⟨rs, sb, hok, ⟨hready, htext, hlog⟩, hrs⟩ :=
    @StepRun.answers_of_history _ _ _ _ nmsgStrbufAppend
      (fun seen text => Countable (seen ++ [text])) Inv (fun r => r = .success) hstep [] init texts
      hinit hinputs
  exact ⟨rs, sb, hok, hrs, hready, htext, hlog⟩

/-- **A string buffer is a log** for exactly the texts that the source can count. -/
theorem isLog_iff (texts : List Bytes) : IsLog texts ↔ Countable texts := by
  constructor
  · intro hlog
    induction texts using List.reverseRecOn with
    | nil => exact ⟨nofun, by decide⟩
    | append_singleton texts text ih =>
        have hfront : Countable texts :=
          ih fun front hne hstart => hlog front hne (hstart.trans (List.prefix_append _ _))
        obtain ⟨rs, sb, hok, hrs, -⟩ := hlog (texts ++ [text])
          (List.append_ne_nil_of_right_ne_nil _ (List.cons_ne_nil _ _)) (List.prefix_refl _)
        obtain ⟨rs₀, sb₀, hok₀, -, hready, htext, -⟩ := run_of_countable hfront
        obtain ⟨sb₁, front, last, hfirst, hlast, rfl⟩ := StepRun.run_append_eq_ok.mp hok
        obtain ⟨-, rfl⟩ := Prod.mk.inj (Except.ok.inj (hok₀.symm.trans hfirst))
        obtain ⟨r, sb₂, tail, hstep, -, rfl⟩ := StepRun.run_cons_eq_ok.mp hlast
        obtain rfl : r = .success :=
          hrs r (List.mem_append_right _ (List.mem_cons_self ..))
        obtain ⟨hlen, htotal⟩ := hready.fits_of_append hstep
        refine ⟨fun text' htext' => ?_, ?_⟩
        · rcases List.mem_append.mp htext' with hmem | hmem
          · exact hfront.each text' hmem
          · rw [List.mem_singleton.mp hmem]
            exact hlen
        · have hpos := hready.valid.length_text
          rw [List.flatten_append, List.flatten_singleton, List.length_append, ← htext, hpos]
          exact htotal
  · intro h front hne hstart
    obtain ⟨rs, sb, hok, hrs, -, -, hlog⟩ := run_of_countable (h.front hstart)
    exact ⟨rs, sb, hok, hrs, hlog hne⟩

/-- **A text of 2147483647 octets.** One more, for the zero octet, is no `int`. -/
theorem longest_text_not_appended :
    nmsgStrbufAppend init (List.replicate intMax 120) = .error .signedOverflow ∧
      ¬ IsLog [List.replicate intMax 120] := by
  have hlen : (List.replicate intMax (120 : UInt8)).length = intMax := List.length_replicate
  have hstatus : vsnprintfStatus (List.replicate intMax 120) = some intMax := by
    rw [vsnprintfStatus, hlen]
    rfl
  have hstep : nmsgStrbufAppend init (List.replicate intMax 120) = .error .signedOverflow := by
    rw [nmsgStrbufAppend, neededOctets, hstatus]
    rfl
  refine ⟨hstep, fun hlog => ?_⟩
  obtain ⟨rs, sb, hok, -⟩ := hlog _ (List.cons_ne_nil _ _) (List.prefix_refl _)
  obtain ⟨r, sb', tail, hok', -⟩ := StepRun.run_cons_eq_ok.mp hok
  cases hstep.symm.trans hok'

end Strbuf

end Nmsg

import Mathlib

/-!
# Cyclic redundancy checks

A check of width `w` shifts a message through a register, least significant bit of each octet first,
and adds the reflected polynomial whenever a one leaves the register. Shifting is linear in exclusive
or, which is what tables and wide steps rest on. As a polynomial over `ZMod 2` the register is the
remainder of the message under division by the generator, so that two messages with one check differ
by a multiple of the generator; no such multiple is a burst as long as the register, and none has an
odd number of terms if the generator has an even number of them.
-/

namespace Crc

open Polynomial

variable {w : Nat}

/-- One bit. -/
def shift (poly r : BitVec w) : BitVec w :=
  if r.getLsbD 0 then (r >>> 1) ^^^ poly else r >>> 1

/-- One octet. -/
def feed (poly r : BitVec w) (b : UInt8) : BitVec w :=
  (shift poly)^[8] (r ^^^ b.toBitVec.setWidth w)

/-- A message. -/
def update (poly r : BitVec w) (bs : List UInt8) : BitVec w := bs.foldl (feed poly) r

/-- Octets as one word, the first octet lowest. -/
def word (w : Nat) : List UInt8 → BitVec w
  | [] => 0#w
  | b :: bs => b.toBitVec.setWidth w ^^^ (word w bs <<< 8)

section Shift

variable (poly : BitVec w)

theorem shift_xor (a b : BitVec w) : shift poly (a ^^^ b) = shift poly a ^^^ shift poly b := by
  unfold shift
  rw [BitVec.getLsbD_xor, BitVec.ushiftRight_xor_distrib]
  cases a.getLsbD 0 <;> cases b.getLsbD 0
  · simp
  · simp [BitVec.xor_assoc]
  · simp only [Bool.xor_false, ↓reduceIte, Bool.false_eq_true]
    rw [BitVec.xor_assoc, BitVec.xor_assoc, BitVec.xor_comm poly]
  · simp only [Bool.xor_true, Bool.not_true, Bool.false_eq_true, ↓reduceIte]
    rw [BitVec.xor_assoc (a >>> 1), ← BitVec.xor_assoc poly, BitVec.xor_comm poly, BitVec.xor_assoc,
      BitVec.xor_self, BitVec.xor_zero]

theorem iterate_shift_xor (n : Nat) (a b : BitVec w) :
    (shift poly)^[n] (a ^^^ b) = (shift poly)^[n] a ^^^ (shift poly)^[n] b := by
  induction n generalizing a b with
  | zero => rfl
  | succ n ih => rw [Function.iterate_succ_apply, shift_xor, ih]; rfl

/-- As long as zeros leave the register they are all that happens. -/
theorem iterate_shift_of_low (n : Nat) {r : BitVec w} (h : ∀ i < n, r.getLsbD i = false) :
    (shift poly)^[n] r = r >>> n := by
  induction n with
  | zero => rw [BitVec.ushiftRight_zero]; rfl
  | succ n ih =>
      have hlow : (r >>> n).getLsbD 0 = false := by
        rw [BitVec.getLsbD_ushiftRight]
        exact h n (Nat.lt_succ_self n)
      rw [Function.iterate_succ_apply', ih fun i hi => h i (Nat.lt_succ_of_lt hi), shift, hlow,
        if_neg Bool.false_ne_true, BitVec.shiftRight_add]

/-- Bits that are moved up by `n` come down again, if none of them is lost. -/
theorem iterate_shift_shiftLeft (n : Nat) {r : BitVec w} (h : ∀ i, w ≤ n + i → r.getLsbD i = false) :
    (shift poly)^[n] (r <<< n) = r := by
  rw [iterate_shift_of_low]
  · refine BitVec.eq_of_getLsbD_eq fun i hi => ?_
    rw [BitVec.getLsbD_ushiftRight, BitVec.getLsbD_shiftLeft]
    by_cases hlt : n + i < w
    · simp [hlt]
    · simp [hlt, h i (Nat.le_of_not_lt hlt)]
  · intro i hi
    rw [BitVec.getLsbD_shiftLeft]
    simp [hi]

theorem iterate_shift_shiftLeft_add (m n : Nat) {r : BitVec w}
    (h : ∀ i, w ≤ n + i → r.getLsbD i = false) :
    (shift poly)^[m + n] (r <<< n) = (shift poly)^[m] r := by
  rw [Function.iterate_add_apply, iterate_shift_shiftLeft poly n h]

/-- The lowest octet of the register by itself, and the rest of it. -/
theorem iterate_shift_octet (m : Nat) (r : BitVec w) :
    (shift poly)^[m + 8] r = (shift poly)^[m + 8] (r &&& 255#w) ^^^ (shift poly)^[m] (r >>> 8) := by
  have hlow : ∀ i, (255#w).getLsbD i = (decide (i < w) && decide (i < 8)) := by
    intro i
    rw [BitVec.getLsbD_ofNat, show 255 = 2 ^ 8 - 1 by rfl, Nat.testBit_two_pow_sub_one]
  have hsplit : r = (r &&& 255#w) ^^^ ((r >>> 8) <<< 8) := by
    refine BitVec.eq_of_getLsbD_eq fun i hi => ?_
    rw [BitVec.getLsbD_xor, BitVec.getLsbD_and, hlow, BitVec.getLsbD_shiftLeft,
      BitVec.getLsbD_ushiftRight]
    by_cases hlt : i < 8
    · simp [hi, hlt]
    · simp [hi, hlt, Nat.add_sub_cancel' (Nat.le_of_not_lt hlt)]
  have hhigh : ∀ i, w ≤ 8 + i → (r >>> 8).getLsbD i = false := by
    intro i hi
    rw [BitVec.getLsbD_ushiftRight]
    exact BitVec.getLsbD_of_ge _ _ hi
  conv_lhs => rw [hsplit]
  rw [iterate_shift_xor, iterate_shift_shiftLeft_add poly m 8 hhigh]

end Shift

theorem update_append (poly r : BitVec w) (as bs : List UInt8) :
    update poly r (as ++ bs) = update poly (update poly r as) bs := List.foldl_append

theorem getLsbD_word (bs : List UInt8) {i : Nat} (h : 8 * bs.length ≤ i) :
    (word w bs).getLsbD i = false := by
  induction bs generalizing i with
  | nil => simp [word]
  | cons b bs ih =>
      rw [List.length_cons] at h
      rw [word, BitVec.getLsbD_xor, BitVec.getLsbD_setWidth, BitVec.getLsbD_shiftLeft,
        ih (by omega), BitVec.getLsbD_of_ge b.toBitVec i (by omega)]
      simp

/-- **Wide steps.** Octets that fit in the register are fed at once. -/
theorem update_eq_iterate (poly r : BitVec w) {bs : List UInt8} (h : 8 * bs.length ≤ w) :
    update poly r bs = (shift poly)^[8 * bs.length] (r ^^^ word w bs) := by
  induction bs generalizing r with
  | nil => rw [word, BitVec.xor_zero]; rfl
  | cons b bs ih =>
      rw [List.length_cons] at h
      have hword : ∀ i, w ≤ 8 + i → (word w bs).getLsbD i = false :=
        fun i hi => getLsbD_word bs (by omega)
      have hfirst : update poly r (b :: bs) = update poly (feed poly r b) bs := rfl
      calc
        update poly r (b :: bs)
          = (shift poly)^[8 * bs.length]
              ((shift poly)^[8] (r ^^^ b.toBitVec.setWidth w) ^^^ word w bs) := by
            rw [hfirst, ih _ (by omega), feed]
        _ = (shift poly)^[8 * bs.length]
              ((shift poly)^[8] (r ^^^ b.toBitVec.setWidth w ^^^ word w bs <<< 8)) := by
            rw [iterate_shift_xor poly 8 (r ^^^ _), iterate_shift_shiftLeft poly 8 hword]
        _ = (shift poly)^[8 * (b :: bs).length] (r ^^^ word w (b :: bs)) := by
            rw [← Function.iterate_add_apply, word, BitVec.xor_assoc, List.length_cons,
              Nat.mul_succ]

/-! ### Polynomials -/

/-- The coefficient of a bit. -/
def ofBit (b : Bool) : ZMod 2 := if b then 1 else 0

theorem ofBit_xor (a b : Bool) : ofBit (a ^^ b) = ofBit a + ofBit b := by
  cases a <;> cases b <;> rfl

/-- A register as a polynomial: its lowest bit stands for the highest power. -/
noncomputable def reflected (r : BitVec w) : (ZMod 2)[X] :=
  ∑ i ∈ Finset.range w, monomial i (ofBit (r.getLsbD (w - 1 - i)))

theorem coeff_reflected (r : BitVec w) (i : Nat) :
    (reflected r).coeff i = if i < w then ofBit (r.getLsbD (w - 1 - i)) else 0 := by
  simp [reflected, coeff_monomial]

theorem reflected_xor (a b : BitVec w) : reflected (a ^^^ b) = reflected a + reflected b := by
  ext i
  simp only [coeff_add, coeff_reflected, BitVec.getLsbD_xor, ofBit_xor]
  split
  · rfl
  · exact (add_zero 0).symm

theorem degree_reflected_lt (r : BitVec w) : (reflected r).degree < w := by
  rw [degree_lt_iff_coeff_zero]
  intro i hi
  rw [coeff_reflected, if_neg (Nat.not_lt.mpr hi)]

theorem reflected_injective : Function.Injective (reflected (w := w)) := by
  intro a b h
  refine BitVec.eq_of_getLsbD_eq fun i hi => ?_
  have hcoeff := congrArg (fun p => p.coeff (w - 1 - i)) h
  simp only [coeff_reflected, if_pos (show w - 1 - i < w by omega),
    show w - 1 - (w - 1 - i) = i by omega] at hcoeff
  cases ha : a.getLsbD i <;> cases hb : b.getLsbD i <;> simp [ofBit, ha, hb] at hcoeff ⊢

theorem X_mul_reflected (hw : 0 < w) (r : BitVec w) :
    X * reflected r = reflected (r >>> 1) + if r.getLsbD 0 then X ^ w else 0 := by
  ext i
  have hlast : (if r.getLsbD 0 then (X : (ZMod 2)[X]) ^ w else 0).coeff i =
      if i = w then ofBit (r.getLsbD 0) else 0 := by
    cases r.getLsbD 0 <;> simp [ofBit, coeff_X_pow]
  rw [coeff_add, hlast]
  cases i with
  | zero =>
      rw [coeff_X_mul_zero, coeff_reflected, if_pos hw, if_neg (Nat.ne_of_lt hw), add_zero,
        BitVec.getLsbD_ushiftRight, BitVec.getLsbD_of_ge _ _ (by omega)]
      rfl
  | succ i =>
      rw [coeff_X_mul, coeff_reflected, coeff_reflected, BitVec.getLsbD_ushiftRight]
      rcases Nat.lt_trichotomy (i + 1) w with hlt | heq | hgt
      · rw [if_pos (by omega), if_pos hlt, if_neg (Nat.ne_of_lt hlt), add_zero]
        congr 2
        omega
      · rw [if_pos (by omega), if_neg (by omega), if_pos heq, zero_add]
        congr 2
        omega
      · rw [if_neg (by omega), if_neg (by omega), if_neg (Nat.ne_of_gt hgt), add_zero]

/-- The generator. Its highest term is not in the register. -/
noncomputable def generator (poly : BitVec w) : (ZMod 2)[X] := X ^ w + reflected poly

theorem monic_generator (poly : BitVec w) : (generator poly).Monic :=
  monic_X_pow_add (degree_reflected_lt poly)

theorem degree_generator (poly : BitVec w) : (generator poly).degree = w := by
  rw [generator, degree_add_eq_left_of_degree_lt, degree_X_pow]
  rw [degree_X_pow]
  exact degree_reflected_lt poly

theorem X_mul_reflected_eq_shift (hw : 0 < w) (poly r : BitVec w) :
    X * reflected r = reflected (shift poly r) + if r.getLsbD 0 then generator poly else 0 := by
  rw [X_mul_reflected hw, shift, generator]
  cases r.getLsbD 0 with
  | false => rfl
  | true =>
      simp only [↓reduceIte, reflected_xor]
      rw [add_assoc, add_left_comm (reflected poly), CharTwo.add_self_eq_zero, add_zero]

theorem generator_dvd_iterate (hw : 0 < w) (poly r : BitVec w) (n : Nat) :
    generator poly ∣ X ^ n * reflected r - reflected ((shift poly)^[n] r) := by
  induction n with
  | zero => rw [pow_zero, one_mul, Function.iterate_zero, id, sub_self]; exact dvd_zero _
  | succ n ih =>
      have hstep : generator poly ∣ X * reflected ((shift poly)^[n] r) -
          reflected ((shift poly)^[n + 1] r) := by
        rw [X_mul_reflected_eq_shift hw poly, Function.iterate_succ_apply', add_sub_cancel_left]
        split
        · exact dvd_rfl
        · exact dvd_zero _
      have hsum := dvd_add (ih.mul_left X) hstep
      rwa [mul_sub, sub_add_sub_cancel, ← mul_assoc, ← pow_succ'] at hsum

theorem reflected_setWidth (hw : 8 ≤ w) (b : BitVec 8) :
    reflected (b.setWidth w) = reflected b * X ^ (w - 8) := by
  ext i
  rw [coeff_reflected, coeff_mul_X_pow', coeff_reflected, BitVec.getLsbD_setWidth]
  by_cases hlow : w - 8 ≤ i
  · rw [if_pos hlow]
    by_cases hlt : i < w
    · rw [if_pos hlt, if_pos (by omega), decide_eq_true (by omega), Bool.true_and]
      congr 2
      omega
    · rw [if_neg hlt, if_neg (by omega)]
  · rw [if_neg hlow, if_pos (by omega), BitVec.getLsbD_of_ge b _ (by omega), Bool.and_false]
    rfl

/-- A message as a polynomial: its first bit stands for the highest power. -/
noncomputable def message : List UInt8 → (ZMod 2)[X]
  | [] => 0
  | b :: bs => reflected b.toBitVec * X ^ (8 * bs.length) + message bs

theorem generator_dvd_feed (hw : 8 ≤ w) (poly r : BitVec w) (b : UInt8) :
    generator poly ∣ X ^ 8 * reflected r + reflected b.toBitVec * X ^ w -
      reflected (feed poly r b) := by
  have h := generator_dvd_iterate (by omega) poly (r ^^^ b.toBitVec.setWidth w) 8
  have hpow : (X : (ZMod 2)[X]) ^ 8 * X ^ (w - 8) = X ^ w := by
    rw [← pow_add, Nat.add_sub_cancel' hw]
  rw [reflected_xor, reflected_setWidth hw, mul_add, mul_left_comm, hpow] at h
  exact h

theorem generator_dvd_update (hw : 8 ≤ w) (poly r : BitVec w) (bs : List UInt8) :
    generator poly ∣ reflected r * X ^ (8 * bs.length) + message bs * X ^ w -
      reflected (update poly r bs) := by
  induction bs generalizing r with
  | nil => simp [message, update]
  | cons b bs ih =>
      have hfeed := (generator_dvd_feed hw poly r b).mul_right (X ^ (8 * bs.length))
      have hsum := dvd_add hfeed (ih (feed poly r b))
      rw [List.length_cons, message]
      convert hsum using 1
      rw [show update poly r (b :: bs) = update poly (feed poly r b) bs from rfl, Nat.mul_succ,
        pow_add]
      ring

/-- **Remainder.** The register holds the remainder of what was in it before, followed by the
message, under division by the generator. -/
theorem reflected_update (hw : 8 ≤ w) (poly r : BitVec w) (bs : List UInt8) :
    reflected (update poly r bs) =
      (reflected r * X ^ (8 * bs.length) + message bs * X ^ w) %ₘ generator poly := by
  rw [modByMonic_eq_of_dvd_sub (monic_generator poly) (generator_dvd_update hw poly r bs)]
  refine ((modByMonic_eq_self_iff (monic_generator poly)).mpr ?_).symm
  rw [degree_generator]
  exact degree_reflected_lt _

/-! ### Damage -/

/-- Bit `i` of a message, in the order in which the register takes them. -/
def bit (bs : List UInt8) (i : Nat) : Bool := (bs.getD (i / 8) 0).toBitVec.getLsbD (i % 8)

/-- In how many bits two messages of one length differ. -/
def differing (a b : List UInt8) : Nat :=
  ((Finset.range (8 * a.length)).filter fun i => bit a i ≠ bit b i).card

/-- The bits that differ lie within `n` of each other. -/
def Burst (n : Nat) (a b : List UInt8) : Prop :=
  a ≠ b ∧ ∃ k, ∀ i, bit a i ≠ bit b i → k ≤ i ∧ i < k + n

theorem bit_cons_lt (b : UInt8) (bs : List UInt8) {i : Nat} (h : i < 8) :
    bit (b :: bs) i = b.toBitVec.getLsbD i := by
  rw [bit, Nat.div_eq_of_lt h, Nat.mod_eq_of_lt h]
  rfl

theorem bit_cons_add (b : UInt8) (bs : List UInt8) (i : Nat) : bit (b :: bs) (i + 8) = bit bs i := by
  rw [bit, Nat.add_div_right i (by decide), Nat.add_mod_right]
  rfl

theorem coeff_message (bs : List UInt8) (i : Nat) :
    (message bs).coeff i =
      if i < 8 * bs.length then ofBit (bit bs (8 * bs.length - 1 - i)) else 0 := by
  induction bs generalizing i with
  | nil => rfl
  | cons b bs ih =>
      rw [message, coeff_add, coeff_mul_X_pow', coeff_reflected, ih, List.length_cons, Nat.mul_succ]
      by_cases hlow : i < 8 * bs.length
      · rw [if_neg (by omega), if_pos hlow, if_pos (by omega), zero_add,
          show 8 * bs.length + 8 - 1 - i = 8 * bs.length - 1 - i + 8 by omega, bit_cons_add]
      · rw [if_pos (by omega), if_neg hlow, add_zero]
        by_cases hhigh : i - 8 * bs.length < 8
        · rw [if_pos hhigh, if_pos (by omega), bit_cons_lt _ _ (by omega)]
          congr 2
          omega
        · rw [if_neg hhigh, if_neg (by omega)]

theorem getLsbD_word_eq_bit (bs : List UInt8) {i : Nat} (h : i < w) :
    (word w bs).getLsbD i = bit bs i := by
  induction bs generalizing i with
  | nil => simp [word, bit]
  | cons b bs ih =>
      rw [word, BitVec.getLsbD_xor, BitVec.getLsbD_setWidth, BitVec.getLsbD_shiftLeft]
      by_cases hlt : i < 8
      · rw [bit_cons_lt _ _ hlt]
        simp [h, hlt]
      · obtain ⟨j, rfl⟩ := Nat.exists_eq_add_of_le' (Nat.le_of_not_lt hlt)
        rw [bit_cons_add, Nat.add_sub_cancel, ih (by omega),
          BitVec.getLsbD_of_ge b.toBitVec _ (Nat.le_add_left 8 j)]
        simp [h]

/-- A word of as many octets as it has room for is the message they make up. -/
theorem reflected_word {bs : List UInt8} (h : 8 * bs.length = w) :
    reflected (word w bs) = message bs := by
  ext i
  rw [coeff_reflected, coeff_message, h]
  split
  · rw [getLsbD_word_eq_bit _ (by omega)]
  · rfl

theorem exists_bit_ne {a b : List UInt8} (hlen : a.length = b.length) (hne : a ≠ b) :
    ∃ i < 8 * a.length, bit a i ≠ bit b i := by
  induction a generalizing b with
  | nil =>
      cases b with
      | nil => exact absurd rfl hne
      | cons => cases hlen
  | cons x a ih =>
      cases b with
      | nil => cases hlen
      | cons y b =>
          by_cases hxy : x = y
          · subst hxy
            obtain ⟨i, hi, hbit⟩ := ih (Nat.succ.inj hlen) fun h => hne (h ▸ rfl)
            refine ⟨i + 8, by rw [List.length_cons]; omega, ?_⟩
            rwa [bit_cons_add, bit_cons_add]
          · by_contra hsame
            push Not at hsame
            refine hxy (UInt8.toBitVec_inj.mp (BitVec.eq_of_getLsbD_eq fun i hi => ?_))
            have := hsame i (by rw [List.length_cons]; omega)
            rwa [bit_cons_lt _ _ hi, bit_cons_lt _ _ hi] at this

theorem coeff_sub_message {a b : List UInt8} (hlen : a.length = b.length) (i : Nat) :
    (message a - message b).coeff i =
      if i < 8 * a.length ∧ bit a (8 * a.length - 1 - i) ≠ bit b (8 * a.length - 1 - i) then 1
      else 0 := by
  rw [coeff_sub, coeff_message, coeff_message, ← hlen]
  by_cases hi : i < 8 * a.length
  · simp only [hi, ↓reduceIte, true_and]
    cases bit a (8 * a.length - 1 - i) <;> cases bit b (8 * a.length - 1 - i) <;> rfl
  · simp only [hi, ↓reduceIte, false_and, sub_zero]

theorem isCoprime_generator (poly : BitVec w) (hw : 0 < w) (htop : poly.getLsbD (w - 1) = true)
    (n : Nat) : IsCoprime (generator poly) (X ^ n) := by
  have hconst : (generator poly).coeff 0 = 1 := by
    rw [generator, coeff_add, coeff_X_pow, if_neg (Nat.ne_of_lt hw), coeff_reflected, if_pos hw,
      Nat.sub_zero, htop, zero_add]
    rfl
  have hsplit := divX_mul_X_add (generator poly)
  rw [hconst, map_one] at hsplit
  refine IsCoprime.pow_right ⟨1, -(generator poly).divX, ?_⟩
  rw [one_mul, neg_mul, ← sub_eq_add_neg, sub_eq_iff_eq_add, add_comm]
  exact hsplit.symm

/-- **Damage.** Two messages of one length have the same check exactly when they differ by a multiple
of the generator. -/
theorem update_eq_iff (hw : 8 ≤ w) {poly : BitVec w} (htop : poly.getLsbD (w - 1) = true)
    (r : BitVec w) {a b : List UInt8} (hlen : a.length = b.length) :
    update poly r a = update poly r b ↔ generator poly ∣ message a - message b := by
  have hdiff : generator poly ∣ message a - message b ↔
      generator poly ∣ (reflected r * X ^ (8 * a.length) + message a * X ^ w) -
        (reflected r * X ^ (8 * b.length) + message b * X ^ w) := by
    rw [hlen, add_sub_add_left_eq_sub, ← sub_mul]
    exact ⟨fun h => h.mul_right _,
      fun h => (isCoprime_generator poly (by omega) htop w).dvd_of_dvd_mul_right h⟩
  rw [hdiff, ← modByMonic_eq_zero_iff_dvd (monic_generator poly), sub_modByMonic, sub_eq_zero,
    ← reflected_update hw, ← reflected_update hw]
  exact reflected_injective.eq_iff.symm

/-- A burst that fits in the register is found. -/
theorem Burst.update_ne (hw : 8 ≤ w) {poly : BitVec w} (htop : poly.getLsbD (w - 1) = true)
    (r : BitVec w) {a b : List UInt8} (hlen : a.length = b.length) (h : Burst w a b) :
    update poly r a ≠ update poly r b := by
  obtain ⟨hne, k, hk⟩ := h
  rw [ne_eq, update_eq_iff hw htop r hlen]
  intro hdvd
  -- the lowest power at which the messages may differ
  let low := 8 * a.length - (k + w)
  have hcoeff := coeff_sub_message hlen
  obtain ⟨q, hq⟩ : X ^ low ∣ message a - message b := by
    refine X_pow_dvd_iff.mpr fun d hd => ?_
    rw [hcoeff, if_neg]
    rintro ⟨hlt, hbit⟩
    have := hk _ hbit
    omega
  have hzero : q = 0 := by
    rw [hq] at hdvd
    refine eq_zero_of_dvd_of_degree_lt
      ((isCoprime_generator poly (by omega) htop low).dvd_of_dvd_mul_left hdvd) ?_
    rw [degree_generator, degree_lt_iff_coeff_zero]
    intro m hm
    have hshifted : q.coeff m = (message a - message b).coeff (m + low) := by
      rw [hq, coeff_X_pow_mul]
    rw [hshifted, hcoeff, if_neg]
    rintro ⟨hlt, hbit⟩
    have := hk _ hbit
    omega
  obtain ⟨i, hi, hbit⟩ := exists_bit_ne hlen hne
  have hone := hcoeff (8 * a.length - 1 - i)
  rw [hq, hzero, mul_zero, coeff_zero, if_pos] at hone
  · exact zero_ne_one hone
  · rw [show 8 * a.length - 1 - (8 * a.length - 1 - i) = i by omega]
    exact ⟨by omega, hbit⟩

theorem eval_one_sub_message {a b : List UInt8} (hlen : a.length = b.length) :
    (message a - message b).eval 1 = (differing a b : ZMod 2) := by
  have hdeg : (message a - message b).natDegree < 8 * a.length + 1 := by
    refine Nat.lt_succ_of_le (natDegree_le_iff_coeff_eq_zero.mpr fun i hi => ?_)
    rw [coeff_sub_message hlen, if_neg fun h => by omega]
  rw [eval_eq_sum_range' hdeg, Finset.sum_range_succ, coeff_sub_message hlen,
    if_neg fun h => Nat.lt_irrefl _ h.1, zero_mul, add_zero, ← Finset.sum_range_reflect,
    differing, Finset.natCast_card_filter]
  refine Finset.sum_congr rfl fun i hi => ?_
  rw [Finset.mem_range] at hi
  rw [coeff_sub_message hlen, one_pow, mul_one,
    show 8 * a.length - 1 - (8 * a.length - 1 - i) = i by omega]
  refine if_congr ⟨fun h => h.2, fun h => ⟨by omega, h⟩⟩ rfl rfl

/-- An odd number of wrong bits is found by a generator with an even number of terms. -/
theorem update_ne_of_odd (hw : 8 ≤ w) {poly : BitVec w} (htop : poly.getLsbD (w - 1) = true)
    (heven : (generator poly).eval 1 = 0) (r : BitVec w) {a b : List UInt8}
    (hlen : a.length = b.length) (h : Odd (differing a b)) :
    update poly r a ≠ update poly r b := by
  rw [ne_eq, update_eq_iff hw htop r hlen]
  rintro ⟨q, hq⟩
  have heval := eval_one_sub_message hlen
  rw [hq, eval_mul, heven, zero_mul] at heval
  exact Nat.not_even_iff_odd.mpr h ((ZMod.natCast_eq_zero_iff_even).mp heval.symm)

end Crc

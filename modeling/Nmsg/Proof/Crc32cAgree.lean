import Nmsg.Proof.Crc32cSlicing

/-!
# One checksum

The checksum is the complement of a remainder under division by Castagnoli's polynomial, whether it
comes from the tables or from the instruction, so that it does not matter which of them `my_crc32c`
points to, nor since when.
-/

namespace Nmsg

open Crc Polynomial

theorem reflected_castagnoliReflected :
    reflected castagnoliReflected =
      1 + X ^ 6 + X ^ 8 + X ^ 9 + X ^ 10 + X ^ 11 + X ^ 13 + X ^ 14 + X ^ 18 + X ^ 19 + X ^ 20 +
        X ^ 22 + X ^ 23 + X ^ 25 + X ^ 26 + X ^ 27 + X ^ 28 := by
  simp [reflected, castagnoliReflected, Finset.sum_range_succ, ofBit, monomial_one_right_eq_X_pow]

theorem generator_castagnoliReflected : generator castagnoliReflected = castagnoli := by
  rw [generator, reflected_castagnoliReflected, castagnoli]
  ring

/-- The generator has an even number of terms. -/
theorem eval_one_castagnoli : castagnoli.eval 1 = 0 := by
  simp only [castagnoli, eval_add, eval_pow, eval_X, eval_one, one_pow]
  rfl

theorem reflected_fed (crc : UInt32) (p : Bytes) :
    reflected (fed crc p).toBitVec =
      (reflected crc.toBitVec * X ^ (8 * p.length) + message p * X ^ 32) %ₘ castagnoli := by
  rw [fed, UInt32.toBitVec_ofBitVec, reflected_update (by decide), generator_castagnoliReflected]

theorem not_crc32c (buf : Bytes) : ~~~crc32c buf = fed 0xFFFFFFFF buf := by
  refine UInt32.toBitVec_inj.mp ?_
  rw [UInt32.toBitVec_not, crc32c, UInt32.toBitVec_ofBitVec, BitVec.not_not]
  rfl

/-- **Slicing.** For every chunk, wherever it lies in memory and in whichever order the machine stores
the octets of a word, `my_crc32c_slicing` reads nothing outside of the chunk and the tables, and
returns the complement of the remainder of the chunk, behind 32 ones, under division by the
generator. -/
theorem myCrc32cSlicing_remainder (order : ByteOrder) (address : Nat) (chunk : Bytes) :
    ∃ crc, myCrc32cSlicing order address chunk = .ok crc ∧
      reflected (~~~crc).toBitVec =
        (reflected (BitVec.allOnes 32) * X ^ (8 * chunk.length) + message chunk * X ^ 32) %ₘ
          castagnoli :=
  ⟨crc32c chunk, myCrc32cSlicing_eq order address chunk, not_crc32c chunk ▸ reflected_fed _ chunk⟩

/-! ### The instruction -/

section Sse42

variable {asm : Crc32Instruction}

theorem Crc32Instruction.Documented.u64_eq (hasm : asm.Documented) (crc : UInt64) {p : Bytes}
    (h : p.length = 8) :
    (asm.u64 crc (.ofBitVec (word 64 p))).toUInt32 = fed crc.toUInt32 p := by
  refine UInt32.toBitVec_inj.mp (reflected_injective ?_)
  rw [hasm.u64, reflected_fed, UInt64.toBitVec_ofBitVec, reflected_word (by rw [h]), h, add_comm]

theorem Crc32Instruction.Documented.u32_eq (hasm : asm.Documented) (crc : UInt32) {p : Bytes}
    (h : p.length = 4) : asm.u32 crc (.ofBitVec (word 32 p)) = fed crc p := by
  refine UInt32.toBitVec_inj.mp (reflected_injective ?_)
  rw [hasm.u32, reflected_fed, UInt32.toBitVec_ofBitVec, reflected_word (by rw [h]), h, add_comm]

theorem Crc32Instruction.Documented.u16_eq (hasm : asm.Documented) (crc : UInt32) {p : Bytes}
    (h : p.length = 2) : asm.u16 crc (.ofBitVec (word 16 p)) = fed crc p := by
  refine UInt32.toBitVec_inj.mp (reflected_injective ?_)
  rw [hasm.u16, reflected_fed, UInt16.toBitVec_ofBitVec, reflected_word (by rw [h]), h, add_comm]

theorem Crc32Instruction.Documented.u8_eq (hasm : asm.Documented) (crc : UInt32) (b : UInt8) :
    asm.u8 crc b = fed crc [b] := by
  refine UInt32.toBitVec_inj.mp (reflected_injective ?_)
  rw [hasm.u8, reflected_fed, message, message, add_zero, List.length_nil, Nat.mul_zero, pow_zero,
    mul_one, List.length_singleton, add_comm]

theorem myAsmCrc32U32_eq (hasm : asm.Documented) (crc : UInt32) {p : Bytes} (h : 4 ≤ p.length) :
    myAsmCrc32U32 asm crc p = .ok (fed crc (p.take 4)) := by
  rw [myAsmCrc32U32, if_neg (by omega), hasm.u32_eq crc (List.length_take_of_le h)]

theorem myAsmCrc32U16_eq (hasm : asm.Documented) (crc : UInt32) {p : Bytes} (h : 2 ≤ p.length) :
    myAsmCrc32U16 asm crc p = .ok (fed crc (p.take 2)) := by
  rw [myAsmCrc32U16, if_neg (by omega), hasm.u16_eq crc (List.length_take_of_le h)]

theorem myAsmCrc32U8_eq (hasm : asm.Documented) (crc : UInt32) {p : Bytes} (h : 1 ≤ p.length) :
    myAsmCrc32U8 asm crc p = .ok (fed crc (p.take 1)) := by
  cases p with
  | nil => exact absurd h (by decide)
  | cons b p =>
      exact congrArg Except.ok (hasm.u8_eq crc b)

theorem sse42Qwords_eq (hasm : asm.Documented) (n : Nat) (crc64bit : UInt64) {p : Bytes}
    (h : 8 * n ≤ p.length) :
    ∃ crc, sse42Qwords asm n crc64bit p = .ok (crc, p.drop (8 * n)) ∧
      crc.toUInt32 = fed crc64bit.toUInt32 (p.take (8 * n)) := by
  induction n generalizing crc64bit p with
  | zero => exact ⟨crc64bit, rfl, rfl⟩
  | succ n ih =>
      have hdrop : 8 * n ≤ (p.drop 8).length := by rw [List.length_drop]; omega
      obtain ⟨crc, hrest, hfed⟩ := ih (asm.u64 crc64bit (.ofBitVec (word 64 (p.take 8)))) hdrop
      refine ⟨crc, ?_, ?_⟩
      · unfold sse42Qwords
        rw [myAsmCrc32U64, if_neg (by omega)]
        refine hrest.trans ?_
        rw [List.drop_drop, Nat.mul_succ, Nat.add_comm 8]
      · rw [hfed, hasm.u64_eq _ (List.length_take_of_le (by omega)), ← fed_append, ← List.take_add,
          Nat.mul_succ, Nat.add_comm 8]

/-- Octets fed one part after the other. -/
theorem fed_take_drop (crc : UInt32) (n m : Nat) (p : Bytes) :
    fed (fed crc (p.take n)) ((p.drop n).take m) = fed crc (p.take (n + m)) := by
  rw [← fed_append, ← List.take_add]

theorem sse42Tail_eq (hasm : asm.Documented) (crc : UInt32) {p : Bytes} (h : p.length < 8) :
    sse42Tail asm p.length crc p = .ok (fed crc p) := by
  have hwhole : fed crc p = fed crc (p.take p.length) := by rw [List.take_length]
  rw [hwhole]
  generalize hlen : p.length = len at h
  have hdrop : ∀ n, (p.drop n).length = len - n := fun n => by rw [List.length_drop, hlen]
  interval_cases len <;> simp only [sse42Tail]
  · rw [List.take_zero]; rfl
  · rw [myAsmCrc32U8_eq hasm crc (by omega)]
  · rw [myAsmCrc32U16_eq hasm crc (by omega)]
  · rw [myAsmCrc32U8_eq hasm crc (by omega)]
    simp only [bind, Except.bind]
    rw [myAsmCrc32U16_eq hasm _ (by rw [hdrop]), fed_take_drop]
  · rw [myAsmCrc32U32_eq hasm crc (by omega)]
  · rw [myAsmCrc32U32_eq hasm crc (by omega)]
    simp only [bind, Except.bind]
    rw [myAsmCrc32U8_eq hasm _ (by rw [hdrop]), fed_take_drop]
  · rw [myAsmCrc32U16_eq hasm crc (by omega)]
    simp only [bind, Except.bind]
    rw [myAsmCrc32U32_eq hasm _ (by rw [hdrop]), fed_take_drop]
  · rw [myAsmCrc32U8_eq hasm crc (by omega)]
    simp only [bind, Except.bind]
    rw [myAsmCrc32U16_eq hasm _ (by rw [hdrop]; omega)]
    simp only
    rw [myAsmCrc32U32_eq hasm _ (by rw [List.drop_drop, hdrop]), fed_take_drop,
      fed_take_drop]

/-- The instruction computes the checksum of every buffer. -/
theorem myCrc32cSse42_eq (hasm : asm.Documented) (buf : Bytes) :
    myCrc32cSse42 asm buf = .ok (crc32c buf) := by
  have hdiv := Nat.div_add_mod buf.length 8
  have hmod : buf.length &&& 7 = (buf.drop (8 * (buf.length / 8))).length := by
    rw [show buf.length &&& 7 = buf.length % 8 from Nat.and_two_pow_sub_one_eq_mod _ 3,
      List.length_drop]
    omega
  obtain ⟨crc, hqwords, hfed⟩ := sse42Qwords_eq hasm (buf.length / 8) 0xFFFFFFFF (p := buf) (by omega)
  have htail := sse42Tail_eq hasm crc.toUInt32 (p := buf.drop (8 * (buf.length / 8)))
    (by rw [List.length_drop]; omega)
  rw [hfed, ← fed_append, List.take_append_drop] at htail
  unfold myCrc32cSse42
  simp only [bind, Except.bind, hqwords, hmod, hfed, htail]
  exact congrArg Except.ok ((congrArg _ (not_crc32c buf).symm).trans (UInt32.not_not ..))

end Sse42

/-- **One checksum.** Whatever `my_crc32c` points to, and whatever the processor supports, every call
of a run of calls returns the same checksum of its buffer. -/
theorem myCrc32c_run (m : Crc32cMachine) (hasm : m.asm.Documented) (fp : Crc32cFp)
    (calls : List Crc32cCall) :
    ∃ fp', StepRun.run (myCrc32c m) fp calls = .ok (calls.map fun call => crc32c call.buf, fp') := by
  have hcall : ∀ fp call, ∃ fp', myCrc32c m fp call = .ok (crc32c call.buf, fp') := by
    intro fp call
    refine ⟨fp.detected m, ?_⟩
    unfold myCrc32c
    generalize fp.detected m = fp'
    cases fp' <;> simp only [myCrc32cSse42_eq hasm, myCrc32cSlicing_eq] <;> rfl
  induction calls generalizing fp with
  | nil => exact ⟨fp, rfl⟩
  | cons call calls ih =>
      obtain ⟨fp₁, hfirst⟩ := hcall fp call
      obtain ⟨fp', hrest⟩ := ih fp₁
      exact ⟨fp', StepRun.run_cons_eq_ok.mpr ⟨_, fp₁, _, hfirst, hrest, rfl⟩⟩

/-! ### Software in place of the instruction -/

/-- The octets of a word, lowest first. -/
def octetsOf {w : Nat} (n : Nat) (value : BitVec w) : Bytes :=
  (List.range n).map fun k => .ofBitVec (value.extractLsb' (8 * k) 8)

theorem word_octetsOf {w n : Nat} (h : 8 * n = w) (value : BitVec w) :
    word w (octetsOf n value) = value := by
  refine BitVec.eq_of_getLsbD_eq fun i hi => ?_
  have hentry : (octetsOf n value).getD (i / 8) 0 = .ofBitVec (value.extractLsb' (8 * (i / 8)) 8) := by
    rw [octetsOf, List.getD_eq_getElem?_getD, List.getElem?_map, List.getElem?_range (by omega)]
    rfl
  rw [getLsbD_word_eq_bit _ hi, bit, hentry, UInt8.toBitVec_ofBitVec, BitVec.getLsbD_extractLsb',
    decide_eq_true (Nat.mod_lt i (by decide)), Bool.true_and, Nat.div_add_mod]

theorem reflected_fed_octetsOf {w n : Nat} (h : 8 * n = w) (crc : UInt32) (value : BitVec w) :
    reflected (fed crc (octetsOf n value)).toBitVec =
      (reflected value * X ^ 32 + reflected crc.toBitVec * X ^ w) %ₘ castagnoli := by
  have hlen : 8 * (octetsOf n value).length = w := by
    rw [octetsOf, List.length_map, List.length_range, h]
  rw [reflected_fed, ← reflected_word hlen, word_octetsOf h, hlen, add_comm]

/-- The instruction, an octet at a time. -/
def softwareCrc32 : Crc32Instruction where
  u64 crc value := (fed crc.toUInt32 (octetsOf 8 value.toBitVec)).toUInt64
  u32 crc value := fed crc (octetsOf 4 value.toBitVec)
  u16 crc value := fed crc (octetsOf 2 value.toBitVec)
  u8 crc value := fed crc (octetsOf 1 value.toBitVec)

theorem softwareCrc32_documented : softwareCrc32.Documented where
  u64 crc value := by
    rw [softwareCrc32, UInt32.toUInt32_toUInt64]
    exact reflected_fed_octetsOf rfl _ _
  u32 crc value := reflected_fed_octetsOf rfl crc _
  u16 crc value := reflected_fed_octetsOf rfl crc _
  u8 crc value := reflected_fed_octetsOf rfl crc _

theorem myCrc32c_run_two :
    ∃ fp', StepRun.run (myCrc32c ⟨.little, true, true, softwareCrc32⟩) .first
      [⟨1, [0x6e, 0x6d, 0x73, 0x67]⟩, ⟨0, []⟩] =
        .ok ([crc32c [0x6e, 0x6d, 0x73, 0x67], crc32c []], fp') :=
  myCrc32c_run ⟨.little, true, true, softwareCrc32⟩ softwareCrc32_documented .first
    [⟨1, [0x6e, 0x6d, 0x73, 0x67]⟩, ⟨0, []⟩]

end Nmsg

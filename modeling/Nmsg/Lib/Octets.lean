import Mathlib.Data.Nat.Basic
import Mathlib.Data.List.Basic
import Mathlib.Tactic.Ring

/-!
# Octet strings and network byte order

An octet string is a list of bytes. Multi-octet integers are stored most significant octet first;
`beBytes` stores a natural number in a fixed number of octets, dropping what does not fit, and
`beNat` loads it back.
-/

abbrev Bytes := List UInt8

namespace Octets

/-- The number an octet string stands for, most significant octet first. -/
def beNat : Bytes → Nat
  | [] => 0
  | b :: rest => b.toNat * 256 ^ rest.length + beNat rest

/-- The low `8 * width` bits of a number, most significant octet first. -/
def beBytes : Nat → Nat → Bytes
  | 0, _ => []
  | width + 1, n => UInt8.ofNat (n / 256 ^ width) :: beBytes width n

@[simp]
theorem length_beBytes (width n : Nat) : (beBytes width n).length = width := by
  induction width with
  | zero => rfl
  | succ width ih => simp [beBytes, ih]

theorem beNat_lt (b : Bytes) : beNat b < 256 ^ b.length := by
  induction b with
  | nil => simp [beNat]
  | cons x rest ih =>
      have hx : x.toNat + 1 ≤ 256 := x.toNat_lt
      calc
        beNat (x :: rest) < x.toNat * 256 ^ rest.length + 256 ^ rest.length := by
          simp only [beNat]
          omega
        _ = (x.toNat + 1) * 256 ^ rest.length := by ring
        _ ≤ 256 * 256 ^ rest.length := Nat.mul_le_mul_right _ hx
        _ = 256 ^ (x :: rest).length := by
          rw [List.length_cons, pow_succ, Nat.mul_comm]

/-- Loading what was stored gives the number back, up to the octets that were dropped. -/
@[simp]
theorem beNat_beBytes (width n : Nat) : beNat (beBytes width n) = n % 256 ^ width := by
  induction width with
  | zero => simp [beBytes, beNat, Nat.mod_one]
  | succ width ih =>
      have hdigit : (UInt8.ofNat (n / 256 ^ width)).toNat = n / 256 ^ width % 256 := by
        simp
      simp only [beBytes, beNat, length_beBytes, ih, hdigit]
      rw [pow_succ, Nat.mod_mul, Nat.mul_comm]
      omega

theorem beNat_beBytes_of_lt {width n : Nat} (h : n < 256 ^ width) :
    beNat (beBytes width n) = n := by
  rw [beNat_beBytes, Nat.mod_eq_of_lt h]

/-- Storing what was loaded gives the octets back. -/
theorem beBytes_beNat (b : Bytes) : beBytes b.length (beNat b) = b := by
  suffices h : ∀ (b : Bytes) (k : Nat), beBytes b.length (beNat b + k * 256 ^ b.length) = b by
    simpa using h b 0
  intro b
  induction b with
  | nil => intro k; rfl
  | cons x rest ih =>
      intro k
      have hlt := beNat_lt rest
      have hpos : 0 < 256 ^ rest.length := Nat.pow_pos (by decide)
      have hsum : beNat (x :: rest) + k * 256 ^ (x :: rest).length =
          beNat rest + (x.toNat + k * 256) * 256 ^ rest.length := by
        simp only [beNat, List.length_cons, pow_succ]
        ring
      rw [hsum, List.length_cons, beBytes, ih]
      have hdigit : (beNat rest + (x.toNat + k * 256) * 256 ^ rest.length) / 256 ^ rest.length =
          x.toNat + k * 256 := by
        rw [Nat.add_mul_div_right _ _ hpos, Nat.div_eq_of_lt hlt, Nat.zero_add]
      rw [hdigit]
      congr 1
      apply UInt8.toNat_inj.mp
      have hx := x.toNat_lt
      simp only [UInt8.toNat_ofNat']
      omega

theorem beNat_append (a b : Bytes) : beNat (a ++ b) = beNat a * 256 ^ b.length + beNat b := by
  induction a with
  | nil => simp [beNat]
  | cons x rest ih =>
      rw [List.cons_append, beNat, beNat, ih, List.length_append, pow_add]
      ring

/-- Cutting a prefix of known length off a concatenation. -/
theorem take_append_of_length {a b : Bytes} {n : Nat} (h : a.length = n) :
    (a ++ b).take n = a := by
  rw [← h, List.take_left]

theorem drop_append_of_length {a b : Bytes} {n : Nat} (h : a.length = n) :
    (a ++ b).drop n = b := by
  rw [← h, List.drop_left]

end Octets

import Nmsg.Lib.Octets
import Mathlib.Data.List.Basic

/-!
# The protocol buffers wire format

A message is a sequence of fields. A field is a key, the field number and a wire type in one
varint, followed by a varint, by four octets, or by a length and that many octets. A varint is a
number in base 128, least significant digit first, with the high bit set on every octet but the
last.

Encoding a sequence of fields and decoding the octets gives the sequence back.
-/

namespace WireFormat

/-- Base 128 digits, least significant first. `fuel` bounds the number of continuation octets. -/
def varintDigits : Nat → Nat → Bytes
  | 0, n => [UInt8.ofNat n]
  | fuel + 1, n =>
      if n < 128 then [UInt8.ofNat n]
      else UInt8.ofNat (n % 128 + 128) :: varintDigits fuel (n / 128)

def varint (n : Nat) : Bytes := varintDigits n n

/-- The number an octet string starts with, and the octets after it. -/
def unvarint : Bytes → Option (Nat × Bytes)
  | [] => none
  | b :: rest =>
      if b.toNat < 128 then some (b.toNat, rest)
      else
        match unvarint rest with
        | none => none
        | some (n, rest') => some (b.toNat - 128 + 128 * n, rest')

theorem unvarint_varintDigits (rest : Bytes) :
    ∀ fuel n, n ≤ fuel → unvarint (varintDigits fuel n ++ rest) = some (n, rest) := by
  intro fuel
  induction fuel with
  | zero =>
      intro n hn
      obtain rfl : n = 0 := by omega
      rfl
  | succ fuel ih =>
      intro n hn
      by_cases hlt : n < 128
      · have hdigit : (UInt8.ofNat n).toNat = n := by
          rw [UInt8.toNat_ofNat']
          omega
        simp [varintDigits, hlt, unvarint, hdigit]
      · have hdigit : (UInt8.ofNat (n % 128 + 128)).toNat = n % 128 + 128 := by
          rw [UInt8.toNat_ofNat']
          omega
        have htail := ih (n / 128) (by omega)
        simp only [varintDigits, hlt, if_false, List.cons_append, unvarint, hdigit, htail]
        rw [if_neg (by omega)]
        congr 2
        omega

@[simp]
theorem unvarint_varint (n : Nat) (rest : Bytes) :
    unvarint (varint n ++ rest) = some (n, rest) :=
  unvarint_varintDigits rest n n le_rfl

/-! ### Encoded sizes -/

/-- Octets a varint takes. -/
def varintSize (n : Nat) : Nat := (varint n).length

theorem length_varintDigits_of_lt :
    ∀ (k fuel n : Nat), n ≤ fuel → n < 128 ^ (k + 1) → (varintDigits fuel n).length ≤ k + 1 := by
  intro k
  induction k with
  | zero =>
      intro fuel n _ hlt
      cases fuel with
      | zero => simp [varintDigits]
      | succ fuel => simp [varintDigits, show n < 128 by simpa using hlt]
  | succ k ih =>
      intro fuel n hle hlt
      cases fuel with
      | zero => simp [varintDigits]
      | succ fuel =>
          by_cases hsmall : n < 128
          · simp [varintDigits, hsmall]
          · have hdiv : n / 128 < 128 ^ (k + 1) := by
              rw [Nat.div_lt_iff_lt_mul (by decide), ← pow_succ]
              exact hlt
            have := ih fuel (n / 128) (by omega) hdiv
            simp only [varintDigits, hsmall, if_false, List.length_cons]
            omega

theorem varintSize_le {k n : Nat} (h : n < 128 ^ (k + 1)) : varintSize n ≤ k + 1 :=
  length_varintDigits_of_lt k n n le_rfl h

theorem length_varintDigits_of_ge :
    ∀ (k fuel n : Nat), n ≤ fuel → 128 ^ k ≤ n → k + 1 ≤ (varintDigits fuel n).length := by
  intro k
  induction k with
  | zero =>
      intro fuel n _ _
      cases fuel with
      | zero => simp [varintDigits]
      | succ fuel =>
          unfold varintDigits
          split <;> simp
  | succ k ih =>
      intro fuel n hle hge
      have hpow : 128 ≤ 128 ^ (k + 1) := by
        calc 128 = 128 ^ 1 := (pow_one _).symm
          _ ≤ 128 ^ (k + 1) := Nat.pow_le_pow_right (by decide) (by omega)
      cases fuel with
      | zero => omega
      | succ fuel =>
          have hdiv : 128 ^ k ≤ n / 128 := by
            rw [Nat.le_div_iff_mul_le (by decide), ← pow_succ]
            exact hge
          have := ih fuel (n / 128) (by omega) hdiv
          rw [varintDigits, if_neg (by omega), List.length_cons]
          omega

theorem le_varintSize {k n : Nat} (h : 128 ^ k ≤ n) : k + 1 ≤ varintSize n :=
  length_varintDigits_of_ge k n n le_rfl h

theorem varintSize_pos (n : Nat) : 0 < varintSize n := by
  have hle := unvarint_varint n []
  rcases Nat.eq_zero_or_pos (varintSize n) with h | h
  · rw [List.append_nil, List.eq_nil_of_length_eq_zero h] at hle
    cases hle
  · exact h

/-! ### Fields -/

/-- A field with its number. -/
inductive Field where
  | varint (number value : Nat)
  | fixed32 (number value : Nat)
  | bytes (number : Nat) (value : Bytes)
deriving DecidableEq

def key (number wireType : Nat) : Bytes := varint (number * 8 + wireType)

/-- Four octets, least significant first. -/
def fixed32Bytes (n : Nat) : Bytes := (Octets.beBytes 4 n).reverse

def Field.encode : Field → Bytes
  | .varint number value => key number 0 ++ WireFormat.varint value
  | .fixed32 number value => key number 5 ++ fixed32Bytes value
  | .bytes number value => key number 2 ++ (WireFormat.varint value.length ++ value)

def encode (fields : List Field) : Bytes := fields.flatMap Field.encode

def decodeField (b : Bytes) : Option (Field × Bytes) :=
  match unvarint b with
  | none => none
  | some (tag, rest) =>
      if tag % 8 = 0 then
        (unvarint rest).map fun out => (.varint (tag / 8) out.1, out.2)
      else if tag % 8 = 5 then
        if rest.length < 4 then none
        else some (.fixed32 (tag / 8) (Octets.beNat (rest.take 4).reverse), rest.drop 4)
      else if tag % 8 = 2 then
        match unvarint rest with
        | none => none
        | some (len, rest) =>
            if rest.length < len then none
            else some (.bytes (tag / 8) (rest.take len), rest.drop len)
      else none

/-- All fields of an octet string; `fuel` bounds their number. -/
def decodeFuel : Nat → Bytes → Option (List Field)
  | _, [] => some []
  | 0, _ :: _ => none
  | fuel + 1, b =>
      match decodeField b with
      | none => none
      | some (f, rest) => (decodeFuel fuel rest).map (f :: ·)

/-- A field takes at least one octet, so the length bounds the number of fields. -/
def decode (b : Bytes) : Option (List Field) := decodeFuel b.length b

/-- A field that four octets can hold, where it has to fit them. -/
def Field.Fits : Field → Prop
  | .fixed32 _ value => value < 2 ^ 32
  | _ => True

theorem Field.encode_ne_nil (f : Field) : f.encode ≠ [] := by
  have hkey : ∀ number wireType, key number wireType ≠ [] := by
    intro number wireType h
    have := varintSize_pos (number * 8 + wireType)
    rw [key] at h
    simp [varintSize, h] at this
  cases f <;> simp [Field.encode, hkey]

theorem decodeField_encode {f : Field} (hf : f.Fits) (rest : Bytes) :
    decodeField (f.encode ++ rest) = some (f, rest) := by
  cases f with
  | varint number value =>
      rw [Field.encode, List.append_assoc, decodeField, key, unvarint_varint]
      dsimp only
      rw [if_pos (by omega), unvarint_varint, Option.map_some,
        show (number * 8 + 0) / 8 = number by omega]
  | fixed32 number value =>
      have hfix : (fixed32Bytes value ++ rest).length ≥ 4 := by simp [fixed32Bytes]
      have hlen : (fixed32Bytes value).length = 4 := by simp [fixed32Bytes]
      have hvalue : Octets.beNat (fixed32Bytes value).reverse = value := by
        rw [fixed32Bytes, List.reverse_reverse, Octets.beNat_beBytes_of_lt hf]
      have htag : (number * 8 + 5) % 8 = 5 := by omega
      rw [Field.encode, List.append_assoc, decodeField, key, unvarint_varint]
      dsimp only
      rw [if_neg (by omega), if_pos htag, if_neg (by omega), Octets.take_append_of_length hlen,
        Octets.drop_append_of_length hlen, show (number * 8 + 5) / 8 = number by omega, hvalue]
  | bytes number value =>
      have htag : (number * 8 + 2) % 8 = 2 := by omega
      rw [Field.encode, List.append_assoc, List.append_assoc, decodeField, key, unvarint_varint]
      dsimp only
      rw [if_neg (by omega), if_neg (by omega), if_pos htag, unvarint_varint]
      dsimp only
      rw [if_neg (by simp), List.take_left, List.drop_left,
        show (number * 8 + 2) / 8 = number by omega]

theorem decodeFuel_encode {fields : List Field} (hfields : ∀ f ∈ fields, f.Fits) :
    ∀ {fuel : Nat}, fields.length ≤ fuel → decodeFuel fuel (encode fields) = some fields := by
  induction fields with
  | nil => intro fuel _; cases fuel <;> rfl
  | cons f fields ih =>
      intro fuel hfuel
      cases fuel with
      | zero => simp at hfuel
      | succ fuel =>
          have hstep := decodeField_encode (hfields f (by simp)) (encode fields)
          have hrest : decodeFuel fuel (encode fields) = some fields :=
            ih (fun g hg => hfields g (by simp [hg])) (by simpa using hfuel)
          rw [encode, List.flatMap_cons]
          change decodeFuel (fuel + 1) (f.encode ++ encode fields) = _
          have hne : f.encode ++ encode fields ≠ [] := by simp [f.encode_ne_nil]
          rw [decodeFuel.eq_3 _ _ (fun h => hne h), hstep]
          simp [hrest]

theorem length_le_length_encode (fields : List Field) :
    fields.length ≤ (encode fields).length := by
  induction fields with
  | nil => simp
  | cons f fields ih =>
      have hpos := List.length_pos_of_ne_nil f.encode_ne_nil
      simp only [encode, List.flatMap_cons, List.length_append, List.length_cons] at ih ⊢
      omega

/-- **Round trip.** Decoding an encoded sequence of fields gives the sequence back. -/
theorem decode_encode {fields : List Field} (hfields : ∀ f ∈ fields, f.Fits) :
    decode (encode fields) = some fields :=
  decodeFuel_encode hfields (length_le_length_encode fields)

/-! ### Reading a message out of its fields -/

/-- The value of a varint field; the last occurrence counts. -/
def findVarint (number : Nat) (fields : List Field) : Option Nat :=
  (fields.filterMap fun
    | .varint k v => if k = number then some v else none
    | _ => none).getLast?

def findFixed32 (number : Nat) (fields : List Field) : Option Nat :=
  (fields.filterMap fun
    | .fixed32 k v => if k = number then some v else none
    | _ => none).getLast?

/-- All values of a repeated varint field, in order. -/
def allVarint (number : Nat) (fields : List Field) : List Nat :=
  fields.filterMap fun
    | .varint k v => if k = number then some v else none
    | _ => none

/-- All values of a repeated field of octet strings, in order. -/
def allBytes (number : Nat) (fields : List Field) : List Bytes :=
  fields.filterMap fun
    | .bytes k v => if k = number then some v else none
    | _ => none

def findBytes (number : Nat) (fields : List Field) : Option Bytes :=
  (allBytes number fields).getLast?

end WireFormat

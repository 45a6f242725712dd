import Mathlib.Data.List.TakeWhile
import Mathlib.Data.Nat.Digits.Lemmas
import Nmsg.Lib.Octets

/-!
# Text in memory

Strings end at a zero octet. A string is cut into tokens from left to right, and a number is read
from the octets of a token and written as such. Strings are compared in any case.
-/

namespace Text

/-! ### Tokens -/

/-- An octet that goes on with a token. -/
def inToken (delim c : UInt8) : Bool := c != delim && c != 0

/-- `strtok_r` with one delimiter, from the rest of a block of memory on: nothing when it reads past
the end of the block, else the token, if there is one, with the memory behind it. -/
def strtok (delim : UInt8) (mem : Bytes) : Option (Option (Bytes × Bytes)) :=
  match mem.dropWhile (· == delim) with
  | [] => none
  | c :: rest =>
      if c = 0 then some none
      else
        match (c :: rest).dropWhile (inToken delim) with
        | [] => none
        | stop :: after =>
            some (some ((c :: rest).takeWhile (inToken delim),
              if stop = 0 then stop :: after else after))

section Token

variable {delim stop : UInt8} {token after : Bytes}

theorem inToken_eq_true {c : UInt8} : inToken delim c = true ↔ c ≠ delim ∧ c ≠ 0 := by
  simp [inToken]

/-- Octets that are a token when a delimiter or the end of the string comes behind them. -/
structure IsToken (delim : UInt8) (token : Bytes) : Prop where
  nonempty : token ≠ []
  octets : ∀ c ∈ token, c ≠ delim ∧ c ≠ 0

/-- The octets up to the first one that does not belong to them. -/
theorem split_while {p : UInt8 → Bool} (hall : ∀ c ∈ token, p c = true) (hstop : ¬ p stop = true) :
    (token ++ stop :: after).takeWhile p = token ∧
      (token ++ stop :: after).dropWhile p = stop :: after := by
  constructor
  · rw [List.takeWhile_append_of_pos hall, List.takeWhile_cons_of_neg hstop, List.append_nil]
  · rw [List.dropWhile_append_of_pos hall, List.dropWhile_cons_of_neg hstop]

theorem IsToken.split (h : IsToken delim token) (hstop : stop = delim ∨ stop = 0) :
    (token ++ stop :: after).takeWhile (inToken delim) = token ∧
      (token ++ stop :: after).dropWhile (inToken delim) = stop :: after := by
  have hall : ∀ c ∈ token, inToken delim c = true :=
    fun c hc => inToken_eq_true.mpr (h.octets c hc)
  have hend : ¬ inToken delim stop = true := by
    rw [inToken_eq_true]
    rintro ⟨hdelim, hzero⟩
    exact hstop.elim hdelim hzero
  exact split_while hall hend

theorem dropWhile_replicate {c : UInt8} (hc : c ≠ delim) (n : Nat) (rest : Bytes) :
    (List.replicate n delim ++ c :: rest).dropWhile (· == delim) = c :: rest := by
  rw [List.dropWhile_append_of_pos fun x hx => beq_iff_eq.mpr (List.eq_of_mem_replicate hx)]
  exact List.dropWhile_cons_of_neg (by simpa using hc)

/-- A token in front of a delimiter or of the end of the string is found, behind delimiters. -/
theorem strtok_token (h : IsToken delim token) (n : Nat) (hstop : stop = delim ∨ stop = 0) :
    strtok delim (List.replicate n delim ++ (token ++ stop :: after)) =
      some (some (token, if stop = 0 then stop :: after else after)) := by
  obtain ⟨htake, hdrop⟩ := @IsToken.split delim stop token after h hstop
  obtain ⟨c, rest, rfl⟩ := List.exists_cons_of_ne_nil h.nonempty
  have hc := h.octets c (List.mem_cons_self ..)
  rw [List.cons_append] at htake hdrop ⊢
  rw [strtok, dropWhile_replicate hc.1]
  simp only [if_neg hc.2, htake, hdrop]

section Stops

variable {mem : Bytes}

/-- Something stops a token, or there is none before the end of the string. -/
def Stops (delim : UInt8) (mem : Bytes) : Prop :=
  ∃ c ∈ mem.dropWhile (· == delim), c = delim ∨ c = 0

theorem strtok_ne_none_iff : strtok delim mem ≠ none ↔ Stops delim mem := by
  have hfirst := List.head?_dropWhile_not (· == delim) mem
  unfold strtok Stops
  cases hrest : mem.dropWhile (· == delim) with
  | nil => exact iff_of_false (absurd rfl) (by rintro ⟨_, ⟨⟩, _⟩)
  | cons c rest =>
      dsimp only
      by_cases hzero : c = 0
      · rw [if_pos hzero]
        exact iff_of_true nofun ⟨c, List.mem_cons_self .., Or.inr hzero⟩
      rw [if_neg hzero]
      cases hafter : (c :: rest).dropWhile (inToken delim) with
      | nil =>
          refine iff_of_false (absurd rfl) ?_
          rintro ⟨d, hd, hstop⟩
          have htoken := inToken_eq_true.mp (List.dropWhile_eq_nil_iff.mp hafter d hd)
          exact hstop.elim htoken.1 htoken.2
      | cons stop after =>
          refine iff_of_true nofun ?_
          have hlast := List.head?_dropWhile_not (inToken delim) (c :: rest)
          rw [hafter, List.head?_cons] at hlast
          refine ⟨stop, List.dropWhile_subset _ (hafter ▸ List.mem_cons_self ..), ?_⟩
          by_contra hne
          rw [not_or] at hne
          simp only [inToken_eq_true.mpr hne] at hlast
          cases hlast

end Stops

end Token

/-! ### Lines -/

/-- `strtok_r` with several delimiters. -/
def strtokAny (delims : List UInt8) (mem : Bytes) : Option (Option (Bytes × Bytes)) :=
  match mem.dropWhile delims.contains with
  | [] => none
  | c :: rest =>
      if c = 0 then some none
      else
        match (c :: rest).dropWhile (fun c => !delims.contains c && c != 0) with
        | [] => none
        | stop :: after =>
            some (some ((c :: rest).takeWhile (fun c => !delims.contains c && c != 0),
              if stop = 0 then stop :: after else after))

/-- The octets of a line, its newline included, and not more than there is room for. -/
def takeLine : Nat → Bytes → Bytes
  | 0, _ => []
  | _ + 1, [] => []
  | room + 1, c :: rest => if c = 10 then [c] else c :: takeLine room rest

/-- `fgets` into a buffer of so many octets: the string that is in the buffer, and what is left of the
file. There is nothing at the end of the file. -/
def fgets (size : Nat) (file : Bytes) : Option (Bytes × Bytes) :=
  if file = [] then none
  else some (takeLine (size - 1) file ++ [0], file.drop (takeLine (size - 1) file).length)

section Line

variable {delims : List UInt8} {lead token after line rest : Bytes} {stop : UInt8} {room size : Nat}

/-- A token in front of a delimiter or of the end of the string is found, behind delimiters. -/
theorem strtokAny_token (hlead : ∀ c ∈ lead, c ∈ delims) (hne : token ≠ [])
    (htoken : ∀ c ∈ token, c ∉ delims ∧ c ≠ 0) (hstop : stop ∈ delims ∨ stop = 0) :
    strtokAny delims (lead ++ (token ++ stop :: after)) =
      some (some (token, if stop = 0 then stop :: after else after)) := by
  have hall : ∀ c ∈ token, (!delims.contains c && c != 0) = true := by
    intro c hc
    simpa using htoken c hc
  have hend : ¬ (!delims.contains stop && stop != 0) = true := by
    simpa [or_iff_not_imp_left] using hstop
  obtain ⟨htake, hdrop⟩ := @split_while stop token after _ hall hend
  obtain ⟨c, rest, rfl⟩ := List.exists_cons_of_ne_nil hne
  have hc := htoken c (List.mem_cons_self ..)
  have hskip : (lead ++ (c :: rest ++ stop :: after)).dropWhile delims.contains =
      c :: rest ++ stop :: after := by
    rw [List.dropWhile_append_of_pos fun x hx => List.elem_eq_true_of_mem (hlead x hx)]
    exact List.dropWhile_cons_of_neg (by simpa using hc.1)
  rw [List.cons_append] at htake hdrop hskip
  rw [List.cons_append, strtokAny, hskip]
  simp only [if_neg hc.2, htake, hdrop]

theorem takeLine_newline (hline : ∀ c ∈ line, c ≠ 10) (hroom : line.length + 1 ≤ room) :
    takeLine room (line ++ 10 :: rest) = line ++ [10] := by
  induction line generalizing room with
  | nil =>
      obtain ⟨room, rfl⟩ : ∃ n, room = n + 1 := ⟨room - 1, by simp at hroom; omega⟩
      rfl
  | cons c line ih =>
      obtain ⟨hc, hline⟩ := List.forall_mem_cons.mp hline
      rw [List.length_cons] at hroom
      obtain ⟨room, rfl⟩ : ∃ n, room = n + 1 := ⟨room - 1, by omega⟩
      rw [List.cons_append, takeLine, if_neg hc, ih hline (by omega), List.cons_append]

theorem takeLine_last (hline : ∀ c ∈ line, c ≠ 10) (hroom : line.length ≤ room) :
    takeLine room line = line := by
  induction line generalizing room with
  | nil => cases room <;> rfl
  | cons c line ih =>
      obtain ⟨hc, hline⟩ := List.forall_mem_cons.mp hline
      rw [List.length_cons] at hroom
      obtain ⟨room, rfl⟩ : ∃ n, room = n + 1 := ⟨room - 1, by omega⟩
      rw [takeLine, if_neg hc, ih hline (by omega)]

theorem fgets_newline (hline : ∀ c ∈ line, c ≠ 10) (hsize : line.length + 2 ≤ size) :
    fgets size (line ++ 10 :: rest) = some (line ++ [10, 0], rest) := by
  have htake : takeLine (size - 1) (line ++ 10 :: rest) = line ++ [10] :=
    takeLine_newline hline (by omega)
  have hdrop : (line ++ 10 :: rest).drop (line ++ [10]).length = rest := by
    rw [List.append_cons line 10 rest]
    exact List.drop_left
  rw [fgets, if_neg (List.append_ne_nil_of_right_ne_nil _ (List.cons_ne_nil _ _)), htake, hdrop,
    List.append_assoc]
  rfl

theorem fgets_last (hne : line ≠ []) (hline : ∀ c ∈ line, c ≠ 10) (hsize : line.length + 1 ≤ size) :
    fgets size line = some (line ++ [0], []) := by
  have htake : takeLine (size - 1) line = line := takeLine_last hline (by omega)
  rw [fgets, if_neg hne, htake, List.drop_length]

end Line

/-! ### Numbers -/

/-- `isspace` -/
def isSpace (c : UInt8) : Bool := c == 32 || (9 ≤ c && c ≤ 13)

/-- The value of a digit, up to that of `f`. -/
def digitVal (c : UInt8) : Option Nat :=
  if 48 ≤ c ∧ c ≤ 57 then some (c.toNat - 48)
  else if 97 ≤ c ∧ c ≤ 102 then some (c.toNat - 87)
  else if 65 ≤ c ∧ c ≤ 70 then some (c.toNat - 55)
  else none

/-- The value of octets that are all digits of the base. -/
def digits (base : Nat) (text : Bytes) : Option Nat :=
  text.foldl (fun acc c => do
    let n ← acc
    let d ← digitVal c
    if d < base then some (n * base + d) else none) (some 0)

/-- A number in base 16, 8 or 10 by its first octets, that takes all of the text. -/
def scanNat : Bytes → Option Nat
  | [] => none
  | [c] => digits 10 [c]
  | c :: d :: rest =>
      if c = 48 ∧ (d = 120 ∨ d = 88) then if rest = [] then none else digits 16 rest
      else if c = 48 then digits 8 (d :: rest)
      else digits 10 (c :: d :: rest)

/-- What the functions of the `strtol` family convert in base 0, if that takes all of the text:
white space, a sign, and a number. -/
def scanInt (text : Bytes) : Option Int :=
  match text.dropWhile isSpace with
  | [] => none
  | c :: rest =>
      if c = 45 then (scanNat rest).map fun n : Nat => -(n : Int)
      else if c = 43 then (scanNat rest).map fun n : Nat => (n : Int)
      else (scanNat (c :: rest)).map fun n : Nat => (n : Int)

/-- A number in decimal. -/
def decimal (n : Nat) : Bytes := (Nat.toDigits 10 n).map fun c => UInt8.ofNat c.toNat

/-- A number with a sign in decimal. -/
def signedDecimal (n : Int) : Bytes :=
  if n < 0 then 45 :: decimal n.natAbs else decimal n.natAbs

section Decimal

theorem ofNat_toNat_digitChar {d : Nat} (hd : d < 10) :
    UInt8.ofNat d.digitChar.toNat = UInt8.ofNat (48 + d) := by
  have hall : ∀ d < 10, UInt8.ofNat d.digitChar.toNat = UInt8.ofNat (48 + d) := by decide
  exact hall d hd

theorem digitVal_ofNat {d : Nat} (hd : d < 10) : digitVal (UInt8.ofNat (48 + d)) = some d := by
  have hall : ∀ d < 10, digitVal (UInt8.ofNat (48 + d)) = some d := by decide
  exact hall d hd

/-- The last digit comes off the end. -/
theorem decimal_eq (n : Nat) :
    decimal n = (if n < 10 then [] else decimal (n / 10)) ++ [UInt8.ofNat (48 + n % 10)] := by
  unfold decimal
  rw [Nat.toDigits_eq_if (by omega)]
  by_cases hn : n < 10
  · rw [if_pos hn, if_pos hn, List.nil_append, List.map_singleton, ofNat_toNat_digitChar hn,
      Nat.mod_eq_of_lt hn]
  · rw [if_neg hn, if_neg hn, List.map_append, List.map_singleton,
      ofNat_toNat_digitChar (Nat.mod_lt n (by omega))]

theorem digits_concat {base : Nat} {text : Bytes} {c : UInt8} :
    digits base (text ++ [c]) = (digits base text).bind fun n =>
      (digitVal c).bind fun d => if d < base then some (n * base + d) else none := by
  rw [digits, List.foldl_append]
  rfl

/-- What is written is read again, in base ten. -/
theorem digits_decimal (n : Nat) : digits 10 (decimal n) = some n := by
  induction n using Nat.strong_induction_on with
  | _ n ih =>
      have hmod := Nat.mod_lt n (show 0 < 10 by omega)
      rw [decimal_eq, digits_concat]
      by_cases hn : n < 10
      · rw [if_pos hn, digitVal_ofNat hmod]
        simp only [digits, List.foldl_nil, Option.bind_some, if_pos hmod]
        rw [Nat.mod_eq_of_lt hn, Nat.zero_mul, Nat.zero_add]
      · rw [if_neg hn, ih (n / 10) (by omega), digitVal_ofNat hmod]
        simp only [Option.bind_some, if_pos hmod]
        rw [Nat.div_add_mod']

theorem decimal_octets (n : Nat) : ∀ c ∈ decimal n, 48 ≤ c ∧ c ≤ 57 := by
  induction n using Nat.strong_induction_on with
  | _ n ih =>
      have hdigit : ∀ d < 10, 48 ≤ UInt8.ofNat (48 + d) ∧ UInt8.ofNat (48 + d) ≤ 57 := by decide
      intro c hc
      rw [decimal_eq] at hc
      rcases List.mem_append.mp hc with hc | hc
      · by_cases hn : n < 10
        · rw [if_pos hn] at hc
          cases hc
        · rw [if_neg hn] at hc
          exact ih (n / 10) (by omega) c hc
      · rw [List.mem_singleton.mp hc]
        exact hdigit _ (Nat.mod_lt n (by omega))

theorem decimal_ne_nil (n : Nat) : decimal n ≠ [] := by
  rw [decimal_eq]
  exact List.append_ne_nil_of_right_ne_nil _ (List.cons_ne_nil _ _)

/-- Only zero is written with a zero in front. -/
theorem decimal_head (n : Nat) : n = 0 ∨ (decimal n).head? ≠ some 48 := by
  induction n using Nat.strong_induction_on with
  | _ n ih =>
      rw [decimal_eq]
      by_cases hn : n < 10
      · have hdigit : ∀ d < 10, d = 0 ∨ [UInt8.ofNat (48 + d % 10)].head? ≠ some 48 := by decide
        rw [if_pos hn, List.nil_append]
        exact hdigit n hn
      · right
        have hhead := (ih (n / 10) (by omega)).resolve_left (by omega)
        rw [if_neg hn, List.head?_append_of_ne_nil _ (decimal_ne_nil _)]
        exact hhead

theorem scanNat_decimal (n : Nat) : scanNat (decimal n) = some n := by
  have hdigits := digits_decimal n
  cases hdecimal : decimal n with
  | nil => exact absurd hdecimal (decimal_ne_nil n)
  | cons c rest =>
      rw [hdecimal] at hdigits
      cases rest with
      | nil => exact hdigits
      | cons d rest =>
          have hc : c ≠ 48 := by
            rintro rfl
            rcases decimal_head n with rfl | hhead
            · have : decimal 0 = [48] := by decide
              rw [hdecimal] at this
              cases this
            · rw [hdecimal] at hhead
              exact hhead rfl
          rw [scanNat, if_neg (fun h => hc h.1), if_neg hc, hdigits]

theorem not_space_of_digit {c : UInt8} (hc : 48 ≤ c) : isSpace c = false ∧ c ≠ 45 ∧ c ≠ 43 := by
  rw [UInt8.le_iff_toNat_le] at hc
  have hc' : 48 ≤ c.toNat := hc
  refine ⟨?_, ?_, ?_⟩
  · have hne : c ≠ 32 := by
      rintro rfl
      exact absurd hc' (by decide)
    have hle : ¬ c ≤ 13 := by
      rw [UInt8.le_iff_toNat_le]
      change ¬ c.toNat ≤ 13
      omega
    simp [isSpace, hne, hle]
  · rintro rfl
    exact absurd hc' (by decide)
  · rintro rfl
    exact absurd hc' (by decide)

end Decimal

/-! ### Case -/

def lower (c : UInt8) : UInt8 := if 65 ≤ c ∧ c ≤ 90 then c + 32 else c

/-- `strcasecmp` finds no difference. -/
def EqIgnoringCase (a b : Bytes) : Prop := a.map lower = b.map lower

instance (a b : Bytes) : Decidable (EqIgnoringCase a b) := inferInstanceAs (Decidable (_ = _))

section Case

variable {a b c : Bytes}

theorem EqIgnoringCase.symm (h : EqIgnoringCase a b) : EqIgnoringCase b a := Eq.symm h

theorem EqIgnoringCase.trans (h : EqIgnoringCase a b) (h' : EqIgnoringCase b c) :
    EqIgnoringCase a c := Eq.trans h h'

end Case

end Text

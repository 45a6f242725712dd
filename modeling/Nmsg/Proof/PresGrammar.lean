import Nmsg.Proof.PresStep

/-!
# The grammar of a line

A line has the name of a field and a token, and the token denotes a value of the type of the field.
Which lines are read as this grammar says is settled here. The conversions check the upper limit of
the types of 16 bits and no other limit, and a key that is no name is taken for that of the last
field.
-/

namespace Nmsg

variable {libc : Libc} {mod : PresModule} {clos clos' : MsgmodClos} {n : Nat} {field : PresField}
  {key token : Bytes}

/-! ### Lines -/

/-- A key, a colon, spaces, a token and a newline. -/
def keyLine (key : Bytes) (spaces : Nat) (token : Bytes) : Bytes :=
  key ++ 58 :: (List.replicate spaces 32 ++ (token ++ [10]))

/-- The octets of a key. -/
structure IsKey (key : Bytes) : Prop extends Text.IsToken 58 key where
  newline : 10 ∉ key

/-- The octets of a value. -/
structure IsValue (token : Bytes) : Prop extends Text.IsToken 32 token where
  newline : 10 ∉ token

theorem copyLine_newline (line : Bytes) : copyLine (line ++ [10]) = .ok (line ++ [0]) := by
  rw [copyLine, List.getLast?_concat]
  simp only [if_true, List.dropLast_concat]

theorem keyLine_head (hkey : IsKey key) (spaces : Nat) (token : Bytes) :
    (keyLine key spaces token).head? ≠ some 10 := by
  rw [keyLine, List.head?_append_of_ne_nil _ hkey.nonempty]
  exact fun h => hkey.newline (List.mem_of_mem_head? h)

/-- The line is split at its colon and at its spaces. -/
theorem splitLine_keyLine (hkey : IsKey key) (htoken : IsValue token) (spaces : Nat)
    (fields : List PresField) :
    splitLine fields (keyLine key spaces token) =
      match fields[lookupKey fields key]? with
      | none => .error .nullPointer
      | some field =>
          .ok (if field.descrId = none then none
            else if field.type = .mlstring then some (lookupKey fields key, none)
            else some (lookupKey fields key, some token)) := by
  have hcopy : copyLine (keyLine key spaces token) =
      .ok (key ++ 58 :: (List.replicate spaces 32 ++ (token ++ [0]))) := by
    have hline : keyLine key spaces token =
        (key ++ 58 :: (List.replicate spaces 32 ++ token)) ++ [10] := by
      simp only [keyLine, List.append_assoc, List.cons_append]
    rw [hline, copyLine_newline]
    simp only [List.append_assoc, List.cons_append]
  have hname : nextToken 58 (key ++ 58 :: (List.replicate spaces 32 ++ (token ++ [0]))) =
      .ok (some (key, List.replicate spaces 32 ++ (token ++ [0]))) := by
    have hfound := @Text.strtok_token 58 58 key (List.replicate spaces 32 ++ (token ++ [0]))
      hkey.toIsToken 0 (Or.inl rfl)
    rw [List.replicate_zero, List.nil_append] at hfound
    rw [nextToken, hfound]
    rfl
  have hvalue : nextToken 32 (List.replicate spaces 32 ++ (token ++ [0])) =
      .ok (some (token, [0])) := by
    rw [nextToken, Text.strtok_token htoken.toIsToken spaces (Or.inr rfl)]
    rfl
  simp only [splitLine, hcopy, hname, hvalue, bind, Except.bind, pure, Except.pure]
  cases fields[lookupKey fields key]? with
  | none => rfl
  | some field =>
      dsimp only
      by_cases hdescr : field.descrId = none
      · rw [if_pos hdescr, if_pos hdescr]
      · rw [if_neg hdescr, if_neg hdescr]
        by_cases hmulti : field.type = .mlstring
        · rw [if_pos hmulti, if_pos hmulti]
        · rw [if_neg hmulti, if_neg hmulti]

/-! ### Names -/

/-- The field named by a key. -/
structure PresModule.Named (mod : PresModule) (key : Bytes) (n : Nat) (field : PresField) :
    Prop where
  field_eq : mod.fields[n]? = some field
  descr : field.descrId ≠ none
  name : field.name = key
  first : ∀ k < n, ∀ earlier, mod.fields[k]? = some earlier → earlier.descrId ≠ none →
    earlier.name ≠ key

/-- The name of a field leads to the field. -/
theorem PresModule.Named.lookupKey_eq (h : mod.Named key n field) :
    lookupKey mod.fields key = n := by
  have hlt : n < mod.fields.length := (List.getElem?_eq_some_iff.mp h.field_eq).1
  have hfound : (mod.fields.findIdx? fun field => field.descrId ≠ none ∧ field.name = key) =
      some n := by
    rw [List.findIdx?_eq_some_iff_getElem]
    have hfield : mod.fields[n] = field := (List.getElem?_eq_some_iff.mp h.field_eq).2
    refine ⟨hlt, ?_, ?_⟩
    · rw [hfield]
      exact decide_eq_true ⟨h.descr, h.name⟩
    · intro k hk
      have hearlier := List.getElem?_eq_getElem (l := mod.fields) (hk.trans hlt)
      rw [Bool.not_eq_true, decide_eq_false_iff_not]
      rintro ⟨hdescr, hname⟩
      exact h.first k hk _ hearlier hdescr hname
  rw [lookupKey, hfound]

/-- Any other key leads to the last field. -/
theorem lookupKey_of_not_named (h : ∀ n field, ¬ mod.Named key n field) :
    lookupKey mod.fields key = mod.fields.length - 1 := by
  unfold lookupKey
  split
  next n hfound =>
    rw [List.findIdx?_eq_some_iff_getElem] at hfound
    obtain ⟨hlt, hmatch, hfirst⟩ := hfound
    rw [decide_eq_true_eq] at hmatch
    refine absurd ⟨List.getElem?_eq_getElem hlt, hmatch.1, hmatch.2, ?_⟩ (h n mod.fields[n])
    intro k hk earlier hearlier hdescr hname
    obtain ⟨hklt, rfl⟩ := List.getElem?_eq_some_iff.mp hearlier
    have := hfirst k hk
    rw [Bool.not_eq_true, decide_eq_false_iff_not] at this
    exact this ⟨hdescr, hname⟩
  next => rfl

/-! ### Values -/

/-- The types that have a token in the line which denotes a number, an address, a name or text. -/
def FieldType.Denoting (type : FieldType) : Prop :=
  type ∈ [FieldType.enum, .ip, .string, .int16, .uint16, .int32, .uint32, .int64, .uint64]

instance (type : FieldType) : Decidable type.Denoting :=
  inferInstanceAs (Decidable (_ ∈ _))

/-- The number in a token, if it is in a range. -/
def numberIn (low high : Int) (token : Bytes) : Option Int :=
  (Text.scanInt token).filter fun n : Int => low ≤ n ∧ n ≤ high

/-- The value that a token denotes, if it denotes one in the range of the type. A number with a sign
is stored in two's complement. -/
def PresField.denoted (libc : Libc) (field : PresField) (token : Bytes) : Option FieldValue :=
  match field.type with
  | .enum => (field.enumValues.find? fun v => v.1 = token).map fun v => .word v.2
  | .ip =>
      ((libc.inetPton4 token).map fun addr => FieldValue.data addr).or
        ((libc.inetPton6 token).map fun addr => FieldValue.data addr)
  | .string => some (.data (token ++ [0]))
  | .uint16 => (numberIn 0 (2 ^ 16 - 1) token).map fun n : Int => .word (.ofNat n.toNat)
  | .uint32 => (numberIn 0 (2 ^ 32 - 1) token).map fun n : Int => .word (.ofNat n.toNat)
  | .uint64 => (numberIn 0 (2 ^ 64 - 1) token).map fun n : Int => .dword (.ofNat n.toNat)
  | .int16 =>
      (numberIn (-2 ^ 15) (2 ^ 15 - 1) token).map fun n : Int => .word (.ofNat (n % 2 ^ 32).toNat)
  | .int32 =>
      (numberIn (-2 ^ 31) (2 ^ 31 - 1) token).map fun n : Int => .word (.ofNat (n % 2 ^ 32).toNat)
  | .int64 =>
      (numberIn (-2 ^ 63) (2 ^ 63 - 1) token).map fun n : Int => .dword (.ofNat (n % 2 ^ 64).toNat)
  | .double | .bool | .bytes | .mlstring => none

/-- The number of the token is in the limits that nothing checks. An unsigned number that is negative
counts from the highest of 64 bits down. -/
def PresField.InLimits (field : PresField) (token : Bytes) : Prop :=
  ∀ n, Text.scanInt token = some n →
    match field.type with
    | .uint16 => n ≤ -2 ^ 64 ∨ 2 ^ 16 - 1 - 2 ^ 64 < n
    | .int16 => 0 ≤ n
    | .uint32 => 0 ≤ n ∧ n < 2 ^ 32
    | .uint64 => 0 ≤ n ∧ n < 2 ^ 64
    | .int32 => -2 ^ 31 ≤ n ∧ n < 2 ^ 31
    | .int64 => -2 ^ 63 ≤ n ∧ n < 2 ^ 63
    | _ => True

/-- What is stored for a token. -/
def converted (libc : Libc) (field : PresField) (old : Slot) (token : Bytes) :
    Except Abort (Option FieldValue) :=
  (convertValue libc field old token).map (Option.map Prod.fst)

/-- Both readings of a number agree where they agree on the number that is in the token. -/
theorem bind_scan_iff (token : Bytes) {f g : Int → Option FieldValue} {L : Int → Prop}
    (h : ∀ n, f n = g n ↔ L n) :
    (Text.scanInt token).bind f = (Text.scanInt token).bind g ↔
      ∀ n, Text.scanInt token = some n → L n := by
  cases hscan : Text.scanInt token with
  | none => exact iff_of_true rfl nofun
  | some n =>
      rw [Option.bind_some, Option.bind_some, h]
      exact ⟨fun hn n' hn' => Option.some.inj hn' ▸ hn, fun hn => hn n rfl⟩

theorem numberIn_map {low high : Int} {token : Bytes} (f : Int → FieldValue) :
    (numberIn low high token).map f =
      (Text.scanInt token).bind fun n => if low ≤ n ∧ n ≤ high then some (f n) else none := by
  unfold numberIn
  cases Text.scanInt token with
  | none => rfl
  | some n =>
      by_cases hn : low ≤ n ∧ n ≤ high
      · simp [hn]
      · simp only [Option.filter_some, Option.bind_some, if_neg hn, decide_eq_false hn]
        rfl

theorem scanned_checked {ν : Type} (f : Int → ν) (P : ν → Prop) [DecidablePred P]
    (g : ν → FieldValue) (token : Bytes) :
    (((Text.scanInt token).map f).bind fun k => if P k then none else some (g k, 0)).map Prod.fst =
      (Text.scanInt token).bind fun n => if P (f n) then none else some (g (f n)) := by
  cases Text.scanInt token with
  | none => rfl
  | some n => simp only [Option.map_some, Option.bind_some, apply_ite (Option.map Prod.fst),
      Option.map_none]

theorem scanned_stored {ν : Type} (f : Int → ν) (g : ν → FieldValue) (token : Bytes) :
    (((Text.scanInt token).map f).map fun k => (g k, 0)).map Prod.fst =
      (Text.scanInt token).bind fun n => some (g (f n)) := by
  cases Text.scanInt token <;> rfl

/-- The number that `strtoul` makes of a number. -/
def strtoulNumber (n : Int) : Nat := if n.natAbs ≥ 2 ^ 64 then 2 ^ 64 - 1 else (n % 2 ^ 64).toNat

/-- The number that `strtol` makes of a number. -/
def strtolNumber (n : Int) : Int := max (-2 ^ 63) (min n (2 ^ 63 - 1))

theorem strtoulNumber_eq {n : Int} (h0 : 0 ≤ n) (hn : n < 2 ^ 64) : strtoulNumber n = n.toNat := by
  rw [strtoulNumber, if_neg (by omega), Int.emod_eq_of_lt h0 hn]

theorem strtolNumber_eq {n : Int} (hlow : -2 ^ 63 ≤ n) (hhigh : n < 2 ^ 63) :
    strtolNumber n = n := by
  rw [strtolNumber, min_eq_left (by omega), max_eq_right hlow]

/-! For each type the limits are those in which the conversion makes what is meant of a number. -/

theorem uint16_iff {old : Slot} (hold : old.Low) (n : Int) :
    (if strtoulNumber n > 65535 then none else some (store16 old (strtoulNumber n))) =
        (if 0 ≤ n ∧ n ≤ 2 ^ 16 - 1 then some (FieldValue.word (.ofNat n.toNat)) else none) ↔
      n ≤ -2 ^ 64 ∨ 2 ^ 16 - 1 - 2 ^ 64 < n := by
  obtain ⟨w, hw, hlow⟩ := store16_low hold (strtoulNumber n)
  by_cases hrange : 0 ≤ n ∧ n ≤ 2 ^ 16 - 1
  · have hnumber := strtoulNumber_eq hrange.1 (by omega)
    rw [if_pos hrange, if_neg (by omega), hw, Option.some.injEq, FieldValue.word.injEq,
      ← UInt32.toNat_inj, hlow, UInt32.toNat_ofNat']
    omega
  · rw [if_neg hrange]
    by_cases hover : strtoulNumber n > 65535
    · rw [if_pos hover]
      refine iff_of_true rfl ?_
      unfold strtoulNumber at hover
      split at hover <;> omega
    · rw [if_neg hover]
      refine iff_of_false nofun ?_
      unfold strtoulNumber at hover
      split at hover <;> omega

theorem int16_iff {old : Slot} (hold : old.Low) (n : Int) :
    (if strtolNumber n > 32767 then none
      else some (store16 old (strtolNumber n % 65536).toNat)) =
        (if -2 ^ 15 ≤ n ∧ n ≤ 2 ^ 15 - 1 then
          some (FieldValue.word (.ofNat (n % 2 ^ 32).toNat)) else none) ↔ 0 ≤ n := by
  obtain ⟨w, hw, hlow⟩ := store16_low hold (strtolNumber n % 65536).toNat
  by_cases hrange : -2 ^ 15 ≤ n ∧ n ≤ 2 ^ 15 - 1
  · have hnumber := strtolNumber_eq (n := n) (by omega) (by omega)
    rw [if_pos hrange, if_neg (by omega), hw, Option.some.injEq, FieldValue.word.injEq,
      ← UInt32.toNat_inj, hlow, UInt32.toNat_ofNat', hnumber]
    omega
  · rw [if_neg hrange]
    by_cases hover : strtolNumber n > 32767
    · rw [if_pos hover]
      refine iff_of_true rfl ?_
      unfold strtolNumber at hover
      omega
    · rw [if_neg hover]
      refine iff_of_false nofun ?_
      unfold strtolNumber at hover
      omega

theorem uint32_iff (n : Int) :
    some (FieldValue.word (.ofNat (strtoulNumber n))) =
        (if 0 ≤ n ∧ n ≤ 2 ^ 32 - 1 then some (FieldValue.word (.ofNat n.toNat)) else none) ↔
      0 ≤ n ∧ n < 2 ^ 32 := by
  by_cases hrange : 0 ≤ n ∧ n ≤ 2 ^ 32 - 1
  · rw [if_pos hrange, strtoulNumber_eq hrange.1 (by omega)]
    exact iff_of_true rfl (by omega)
  · rw [if_neg hrange]
    exact iff_of_false nofun (by omega)

theorem uint64_iff (n : Int) :
    some (FieldValue.dword (.ofNat (strtoulNumber n))) =
        (if 0 ≤ n ∧ n ≤ 2 ^ 64 - 1 then some (FieldValue.dword (.ofNat n.toNat)) else none) ↔
      0 ≤ n ∧ n < 2 ^ 64 := by
  by_cases hrange : 0 ≤ n ∧ n ≤ 2 ^ 64 - 1
  · rw [if_pos hrange, strtoulNumber_eq hrange.1 (by omega)]
    exact iff_of_true rfl (by omega)
  · rw [if_neg hrange]
    exact iff_of_false nofun (by omega)

theorem int32_iff (n : Int) :
    some (FieldValue.word (.ofNat (strtolNumber n % 2 ^ 32).toNat)) =
        (if -2 ^ 31 ≤ n ∧ n ≤ 2 ^ 31 - 1 then
          some (FieldValue.word (.ofNat (n % 2 ^ 32).toNat)) else none) ↔
      -2 ^ 31 ≤ n ∧ n < 2 ^ 31 := by
  by_cases hrange : -2 ^ 31 ≤ n ∧ n ≤ 2 ^ 31 - 1
  · rw [if_pos hrange, strtolNumber_eq (by omega) (by omega)]
    exact iff_of_true rfl (by omega)
  · rw [if_neg hrange]
    exact iff_of_false nofun (by omega)

theorem int64_iff (n : Int) :
    some (FieldValue.dword (.ofNat (strtolNumber n % 2 ^ 64).toNat)) =
        (if -2 ^ 63 ≤ n ∧ n ≤ 2 ^ 63 - 1 then
          some (FieldValue.dword (.ofNat (n % 2 ^ 64).toNat)) else none) ↔
      -2 ^ 63 ≤ n ∧ n < 2 ^ 63 := by
  by_cases hrange : -2 ^ 63 ≤ n ∧ n ≤ 2 ^ 63 - 1
  · rw [if_pos hrange, strtolNumber_eq hrange.1 (by omega)]
    exact iff_of_true rfl (by omega)
  · rw [if_neg hrange]
    exact iff_of_false nofun (by omega)

/-- **Conversions.** What is stored is what the token denotes exactly where its number is in the
limits that nothing checks. -/
theorem converted_eq_denoted_iff {old : Slot} (hdenoting : field.type.Denoting)
    (hlow : field.type.Short → old.Low) :
    converted libc field old token = .ok (field.denoted libc token) ↔ field.InLimits token := by
  have htrue : ∀ {P : Prop}, P → (P ↔ ∀ n, Text.scanInt token = some n → True) :=
    fun h => iff_of_true h fun _ _ => trivial
  unfold converted convertValue PresField.denoted PresField.InLimits
  cases htype : field.type with
  | enum =>
      apply htrue
      simp only [Except.map, Option.map_map]
      rfl
  | ip =>
      apply htrue
      dsimp only
      cases libc.inetPton4 token with
      | some addr => rfl
      | none => simp only [Except.map, Option.map_map]; rfl
  | string => exact htrue rfl
  | uint16 =>
      have hiff := bind_scan_iff token (uint16_iff (hlow (Or.inl htype)))
      rw [← numberIn_map, ← scanned_checked strtoulNumber (· > 65535) (store16 old)] at hiff
      exact (Iff.of_eq (Except.ok.injEq ..)).trans hiff
  | int16 =>
      have hiff := bind_scan_iff token (int16_iff (hlow (Or.inr htype)))
      rw [← numberIn_map, ← scanned_checked strtolNumber (· > 32767)
        (fun k => store16 old (k % 65536).toNat)] at hiff
      exact (Iff.of_eq (Except.ok.injEq ..)).trans hiff
  | uint32 =>
      have hiff := bind_scan_iff token uint32_iff
      rw [← numberIn_map, ← scanned_stored (strtoulNumber) (fun k => .word (.ofNat k))] at hiff
      exact (Iff.of_eq (Except.ok.injEq ..)).trans hiff
  | uint64 =>
      have hiff := bind_scan_iff token uint64_iff
      rw [← numberIn_map, ← scanned_stored (strtoulNumber) (fun k => .dword (.ofNat k))] at hiff
      exact (Iff.of_eq (Except.ok.injEq ..)).trans hiff
  | int32 =>
      have hiff := bind_scan_iff token int32_iff
      have hscan := scanned_stored strtolNumber
        (fun k : Int => FieldValue.word (.ofNat (k % 2 ^ 32).toNat)) token
      rw [← numberIn_map, ← hscan] at hiff
      exact (Iff.of_eq (Except.ok.injEq ..)).trans hiff
  | int64 =>
      have hiff := bind_scan_iff token int64_iff
      have hscan := scanned_stored strtolNumber
        (fun k : Int => FieldValue.dword (.ofNat (k % 2 ^ 64).toNat)) token
      rw [← numberIn_map, ← hscan] at hiff
      exact (Iff.of_eq (Except.ok.injEq ..)).trans hiff
  | double | bool | bytes | mlstring =>
      rw [htype] at hdenoting
      exact absurd hdenoting (by decide)

/-- The conversion of the field's type rejects the token. -/
def PresField.Refuses (libc : Libc) (field : PresField) (token : Bytes) : Prop :=
  match field.type with
  | .enum => ∀ v ∈ field.enumValues, v.1 ≠ token
  | .ip => libc.inetPton4 token = none ∧ libc.inetPton6 token = none
  | .string | .mlstring | .bool | .bytes => False
  | .uint16 => ∀ n, Text.scanInt token = some n →
      n ≤ -2 ^ 64 ∨ (2 ^ 16 - 1 - 2 ^ 64 < n ∧ n < 0) ∨ 2 ^ 16 - 1 < n
  | .int16 => ∀ n, Text.scanInt token = some n → 2 ^ 15 - 1 < n
  | .uint32 | .uint64 | .int32 | .int64 => Text.scanInt token = none
  | .double => libc.strtod token = none

theorem strtoulNumber_gt_iff (n : Int) : strtoulNumber n > 65535 ↔
    n ≤ -2 ^ 64 ∨ (2 ^ 16 - 1 - 2 ^ 64 < n ∧ n < 0) ∨ 2 ^ 16 - 1 < n := by
  unfold strtoulNumber
  split <;> omega

theorem strtolNumber_gt_iff (n : Int) : strtolNumber n > 32767 ↔ 2 ^ 15 - 1 < n := by
  unfold strtolNumber
  omega

theorem ite_eq_none_iff {α : Type} {P : Prop} [Decidable P] {a : α} :
    (if P then none else some a) = none ↔ P := by
  by_cases h : P <;> simp [h]

theorem convertValue_eq_none_iff {old : Slot} (single : field.type ≠ .mlstring) :
    convertValue libc field old token = .ok none ↔ field.Refuses libc token := by
  unfold convertValue PresField.Refuses
  cases htype : field.type with
  | mlstring => exact absurd htype single
  | bool | bytes => exact iff_of_false nofun id
  | enum => simp [List.find?_eq_none]
  | string => exact iff_of_false nofun id
  | ip =>
      dsimp only
      cases libc.inetPton4 token with
      | some addr => exact iff_of_false nofun (fun h => nomatch h.1)
      | none => simp
  | uint16 =>
      simp only [Except.ok.injEq, strtoul]
      cases Text.scanInt token with
      | none => exact iff_of_true rfl nofun
      | some n =>
          simp only [Option.map_some, Option.bind_some, Option.some.injEq, forall_eq',
            ← strtoulNumber_gt_iff]
          exact ite_eq_none_iff
  | int16 =>
      simp only [Except.ok.injEq, strtol]
      cases Text.scanInt token with
      | none => exact iff_of_true rfl nofun
      | some n =>
          simp only [Option.map_some, Option.bind_some, Option.some.injEq, forall_eq',
            ← strtolNumber_gt_iff]
          exact ite_eq_none_iff
  | uint32 | uint64 | int32 | int64 => simp [strtoul, strtol]
  | double => simp

/-! ### The grammar -/

/-- A value is stored behind those that a repeated field has, and is the only one of another field.
It is packed as it is, and nothing else changes but the estimate of the size. -/
structure StoredValue (mod : PresModule) (clos clos' : MsgmodClos) (n : Nat) (field : PresField)
    (v : FieldValue) : Prop where
  message : ∃ m, (clos.start mod).nmsgPbuf = some m ∧ clos'.nmsgPbuf = some (m.set n
    ((if field.label = .repeated then m.getD n [] else []) ++ [.value v]))
  mode : clos'.mode = .keyval
  strbufs : clos'.strbufs = clos.strbufs
  packed : ∀ sb, readSlot sb 0 (.value v) = .ok v

/-- A line is read as the grammar says: the value that the token denotes is stored in the field of
the name, and the line is rejected where there is none. -/
structure ReadAsGrammar (libc : Libc) (mod : PresModule) (clos : MsgmodClos) (key token pres : Bytes) :
    Prop where
  accepted : ∀ n field v, mod.Named key n field → field.denoted libc token = some v →
    ∃ clos', presToPayload libc mod clos pres = .ok (.success, clos') ∧
      StoredValue mod clos clos' n field v
  rejected : (∀ n field, mod.Named key n field → field.denoted libc token = none) →
    ∃ clos', presToPayload libc mod clos pres = .ok (.parseError, clos')

/-- The lines that are read as the grammar says. The number of a field is in the limits that nothing
checks, and where the key is no name the last field has no use for the token. -/
structure WellRead (libc : Libc) (mod : PresModule) (key token : Bytes) : Prop where
  named : ∀ n field, mod.Named key n field → field.InLimits token
  unnamed : (∀ n field, ¬ mod.Named key n field) →
    ∃ field, mod.fields.getLast? = some field ∧
      (field.descrId = none ∨ field.Refuses libc token)

theorem start_strbufs (clos : MsgmodClos) (mod : PresModule) :
    (clos.start mod).strbufs = clos.strbufs := by
  unfold MsgmodClos.start
  split <;> rfl

section Line

variable (hkey : IsKey key) (htoken : IsValue token) (spaces : Nat)
  (hmode : (clos.start mod).mode = .keyval)

include hkey htoken hmode

theorem presToPayload_keyLine :
    presToPayload libc mod clos (keyLine key spaces token) =
      match mod.fields[lookupKey mod.fields key]? with
      | none => .error .nullPointer
      | some field =>
          if field.descrId = none then .ok (.parseError, clos.start mod)
          else loadField libc mod (clos.start mod) (lookupKey mod.fields key)
            (if field.type = .mlstring then none else some token) := by
  have hhead := keyLine_head hkey spaces token
  simp only [presToPayload, hmode, if_neg hhead, splitLine_keyLine hkey htoken]
  cases mod.fields[lookupKey mod.fields key]? with
  | none => rfl
  | some field =>
      dsimp only
      by_cases hdescr : field.descrId = none
      · rw [if_pos hdescr, if_pos hdescr]
      · rw [if_neg hdescr, if_neg hdescr]
        by_cases hmulti : field.type = .mlstring
        · rw [if_pos hmulti, if_pos hmulti]
        · rw [if_neg hmulti, if_neg hmulti]

/-- The line of a field that takes a token. What is stored decides. -/
theorem readAsGrammar_named {m : List (List Slot)} (hm : (clos.start mod).nmsgPbuf = some m)
    (hlt : n < m.length) (hnamed : mod.Named key n field) (hdenoting : field.type.Denoting) :
    ReadAsGrammar libc mod clos key token (keyLine key spaces token) ↔
      converted libc field (placeOf field (makePlace field (m.getD n []))) token =
        .ok (field.denoted libc token) := by
  have hunique : ∀ n' field', mod.Named key n' field' → n' = n ∧ field' = field := by
    intro n' field' hnamed'
    obtain rfl := hnamed'.lookupKey_eq.symm.trans hnamed.lookupKey_eq
    exact ⟨rfl, Option.some.inj (hnamed'.field_eq.symm.trans hnamed.field_eq)⟩
  have single : field.type ≠ .mlstring := fun h => absurd (h ▸ hdenoting) (by decide)
  have hpres := @presToPayload_keyLine libc _ _ _ _ hkey htoken spaces hmode
  rw [hnamed.lookupKey_eq, hnamed.field_eq] at hpres
  dsimp only at hpres
  rw [if_neg hnamed.descr, if_neg single, loadField_single hnamed.field_eq hm single] at hpres
  unfold converted
  cases hconvert : convertValue libc field (placeOf field (makePlace field (m.getD n []))) token with
  | error e =>
      rw [hconvert] at hpres
      refine iff_of_false ?_ nofun
      intro h
      cases hdenoted : field.denoted libc token with
      | none =>
          obtain ⟨clos', hok⟩ := h.rejected fun n' field' hnamed' => by
            rwa [(hunique n' field' hnamed').2]
          rw [hok] at hpres
          cases hpres
      | some v =>
          obtain ⟨clos', hok, -⟩ := h.accepted n field v hnamed hdenoted
          rw [hok] at hpres
          cases hpres
  | ok out =>
      rw [hconvert] at hpres
      dsimp only [Except.map]
      rw [Except.ok.injEq]
      constructor
      · intro h
        cases hdenoted : field.denoted libc token with
        | none =>
            obtain ⟨clos', hok⟩ := h.rejected fun n' field' hnamed' => by
              rwa [(hunique n' field' hnamed').2]
            rw [hok] at hpres
            cases out with
            | none => rfl
            | some out => cases hpres
        | some v =>
            obtain ⟨clos', hok, hstored⟩ := h.accepted n field v hnamed hdenoted
            rw [hok] at hpres
            cases out with
            | none => cases hpres
            | some out =>
                cases hpres
                obtain ⟨m', hm', hset⟩ := hstored.message
                obtain rfl := Option.some.inj (hm.symm.trans hm')
                have hslots := congrArg (·[n]?) (Option.some.inj hset)
                simp only [List.getElem?_set_self hlt, Option.some.injEq, List.append_cancel_left_eq,
                  List.cons.injEq, Slot.value.injEq, and_true] at hslots
                rw [Option.map_some, hslots]
      · intro hout
        constructor
        · intro n' field' v hnamed' hdenoted
          obtain ⟨rfl, rfl⟩ := hunique n' field' hnamed'
          rw [hdenoted] at hout
          obtain ⟨⟨v', size⟩, rfl, rfl⟩ := Option.map_eq_some_iff.mp hout
          exact ⟨_, hpres, ⟨m, hm, rfl⟩, hmode, start_strbufs clos mod, fun _ => rfl⟩
        · intro hdenoted
          rw [hdenoted n field hnamed, Option.map_eq_none_iff] at hout
          subst hout
          exact ⟨_, hpres⟩

/-- The line of a key that is no name. The last field decides. -/
theorem readAsGrammar_unnamed (hnone : ∀ n field, ¬ mod.Named key n field) :
    ReadAsGrammar libc mod clos key token (keyLine key spaces token) ↔
      ∃ field, mod.fields.getLast? = some field ∧
        (field.descrId = none ∨ field.Refuses libc token) := by
  have hread : ReadAsGrammar libc mod clos key token (keyLine key spaces token) ↔
      ∃ clos', presToPayload libc mod clos (keyLine key spaces token) = .ok (.parseError, clos') :=
    ⟨fun h => h.rejected fun n field hnamed => absurd hnamed (hnone n field),
      fun h => ⟨fun n field _ hnamed => absurd hnamed (hnone n field), fun _ => h⟩⟩
  have hpres := @presToPayload_keyLine libc _ _ _ _ hkey htoken spaces hmode
  rw [lookupKey_of_not_named hnone, ← List.getLast?_eq_getElem?] at hpres
  rw [hread, hpres]
  cases hlast : mod.fields.getLast? with
  | none => exact iff_of_false (by rintro ⟨_, ⟨⟩⟩) (by rintro ⟨_, ⟨⟩, _⟩)
  | some field =>
      simp only [Option.some.injEq, exists_eq_left']
      by_cases hdescr : field.descrId = none
      · rw [if_pos hdescr]
        exact iff_of_true ⟨_, rfl⟩ (Or.inl hdescr)
      rw [if_neg hdescr]
      obtain ⟨m, hm⟩ := clos.start_ne_none mod
      have hfield : mod.fields[mod.fields.length - 1]? = some field := by
        rw [← List.getLast?_eq_getElem?, hlast]
      by_cases hmulti : field.type = .mlstring
      · refine iff_of_false ?_ ?_
        · rintro ⟨clos', hload⟩
          rw [if_pos hmulti] at hload
          generalize hres : Res.parseError = res at hload
          cases loadField_step hload with
          | opened => cases hres
        · rintro (h | h)
          · exact hdescr h
          · rw [PresField.Refuses, hmulti] at h
            exact h
      · rw [if_neg hmulti, loadField_single hfield hm hmulti]
        constructor
        · rintro ⟨clos', hload⟩
          right
          split at hload
          next => cases hload
          next hconvert => exact (convertValue_eq_none_iff hmulti).mp hconvert
          next => cases hload
        · rintro (h | h)
          · exact absurd h hdescr
          · rw [(convertValue_eq_none_iff hmulti).mpr h]
            exact ⟨_, rfl⟩

end Line

end Nmsg

import Nmsg.Alias

/-!
# The alias table is a map

The array of a table is a map up to its largest index. A key that fits leaves the largest index below
the last number of 32 bits, so that every loop over the array ends; the keys at the top of the range
fit only where the array has them already, or has them when it is doubled.
-/

namespace Nmsg

open Text (EqIgnoringCase)

/-! ### Growth -/

/-- The largest index that `alias_resize` takes for a key beyond the array. -/
def resizedIdx (maxIdx key : Nat) : Nat :=
  if key + 1 ≤ maxIdx * 2 % 4294967296 then maxIdx * 2 % 4294967296 else (key + 2) % 4294967296

/-- The array has the key, or doubling it gives it the key, or there are indices behind the key. -/
def KeyFits (maxIdx key : Nat) : Prop :=
  key ≤ maxIdx ∨ key + 1 ≤ maxIdx * 2 % 4294967296 ∨ key + 4 ≤ 4294967296

/-- The largest index after a key. -/
def grownIdx (maxIdx key : Nat) : Nat := if key ≤ maxIdx then maxIdx else resizedIdx maxIdx key

/-- The array of the table is the map `f`. -/
structure Alias.Is (al : Alias) (f : Nat → Option Bytes) : Prop where
  value : al.value.Holds (al.maxIdx + 1) f
  width : al.maxIdx + 1 < 4294967296

section Resize

variable {al : Alias} {f : Nat → Option Bytes} {key : UInt32} {maxIdx : Nat}

theorem resizedIdx_of_fits (hkey : maxIdx < key.toNat) (hfits : KeyFits maxIdx key.toNat) :
    key.toNat ≤ resizedIdx maxIdx key.toNat ∧ resizedIdx maxIdx key.toNat + 1 < 4294967296 := by
  unfold resizedIdx
  unfold KeyFits at hfits
  split <;> omega

theorem aliasResize_eq (hkey : al.maxIdx < key.toNat) (hlast : key.toNat + 1 < 4294967296) :
    aliasResize al key =
      match (al.value.realloc ((resizedIdx al.maxIdx key.toNat + 1) % 4294967296)).clearUpTo
          .outOfBounds .divergence (.ofNat (al.maxIdx + 1)) (resizedIdx al.maxIdx key.toNat) with
      | .error e => .error e
      | .ok value => .ok ⟨resizedIdx al.maxIdx key.toNat, value⟩ := by
  have hnext : (key + 1).toNat = key.toNat + 1 := PointerArray.toNat_add_one hlast
  have hdoubled : (UInt32.ofNat (al.maxIdx * 2)).toNat = al.maxIdx * 2 % 4294967296 :=
    UInt32.toNat_ofNat'
  have hidx : (if key + 1 > UInt32.ofNat (al.maxIdx * 2) then key + 1 + 1
      else UInt32.ofNat (al.maxIdx * 2)).toNat = resizedIdx al.maxIdx key.toNat := by
    have hlt : key + 1 > UInt32.ofNat (al.maxIdx * 2) ↔
        al.maxIdx * 2 % 4294967296 < key.toNat + 1 := by
      rw [gt_iff_lt, UInt32.lt_iff_toNat_lt, hnext, hdoubled]
    rw [resizedIdx]
    by_cases hle : key.toNat + 1 ≤ al.maxIdx * 2 % 4294967296
    · rw [if_neg (mt hlt.mp (Nat.not_lt_of_le hle)), if_pos hle, hdoubled]
    · rw [if_pos (hlt.mpr (Nat.lt_of_not_le hle)), if_neg hle, UInt32.toNat_add, hnext]
      rfl
  unfold aliasResize
  dsimp only
  rw [hnext, if_pos (by omega), UInt32.toNat_add, hidx]
  rfl

/-- **A key that fits** is put into the map. -/
theorem Alias.Is.store (h : al.Is f) (hfits : KeyFits al.maxIdx key.toNat) (strValue : Bytes) :
    ∃ al', aliasStore al key strValue = .ok al' ∧
      al'.Is (Function.update f key.toNat (some strValue)) ∧
      al'.maxIdx = grownIdx al.maxIdx key.toNat := by
  obtain ⟨al₁, hresize, hal₁, hidx, hle⟩ : ∃ al₁,
      (if key.toNat > al.maxIdx then aliasResize al key else .ok al) = .ok al₁ ∧ al₁.Is f ∧
        al₁.maxIdx = grownIdx al.maxIdx key.toNat ∧ key.toNat ≤ al₁.maxIdx := by
    by_cases hkey : al.maxIdx < key.toNat
    · obtain ⟨hle, hwidth⟩ := resizedIdx_of_fits hkey hfits
      obtain ⟨value, hclear, hholds⟩ :=
        h.value.grow Abort.outOfBounds .divergence (by omega) hwidth
      refine ⟨⟨resizedIdx al.maxIdx key.toNat, value⟩, ?_, ⟨hholds, hwidth⟩, ?_, hle⟩
      · rw [if_pos hkey, aliasResize_eq hkey (by omega), Nat.mod_eq_of_lt hwidth, hclear]
      · rw [grownIdx, if_neg (Nat.not_le_of_lt hkey)]
    · have hle := Nat.le_of_not_lt hkey
      exact ⟨al, if_neg hkey, h, (if_pos hle).symm, hle⟩
  obtain ⟨value, hstore, hholds⟩ :=
    hal₁.value.storeCell (p := strValue) Abort.outOfBounds (Nat.lt_succ_of_le hle)
  refine ⟨{ al₁ with value }, ?_, ⟨hholds, hal₁.width⟩, hidx⟩
  rw [aliasStore, hresize]
  dsimp only
  rw [hstore]

/-- **A key that does not fit** is stored outside the array, which ends where it was, or has one cell
or none. -/
theorem Alias.Is.store_outside (h : al.Is f) (hnot : ¬ KeyFits al.maxIdx key.toNat)
    (strValue : Bytes) : aliasStore al key strValue = .error .outOfBounds := by
  unfold KeyFits at hnot
  simp only [not_or, Nat.not_le] at hnot
  obtain ⟨hkey, hdoubled, htop⟩ := hnot
  have hwidth := h.width
  have hsize := h.value.written.size
  have hmax : key.toNat < 4294967296 := key.toNat_lt
  have hfirst : (UInt32.ofNat (al.maxIdx + 1)).toNat = al.maxIdx + 1 :=
    PointerArray.toNat_ofNat_of_lt hwidth
  have hidx : resizedIdx al.maxIdx key.toNat = (key.toNat + 2) % 4294967296 :=
    if_neg (Nat.not_le_of_lt hdoubled)
  obtain hlast | hlast | hlast : key.toNat = 4294967293 ∨ key.toNat = 4294967294 ∨
      key.toNat = 4294967295 := by omega
  · -- the size of the array wraps to zero
    have hclear : (al.value.realloc 0).clearUpTo Abort.outOfBounds .divergence
        (.ofNat (al.maxIdx + 1)) 4294967295 = .error .outOfBounds := by
      apply PointerArray.clearUpTo_outside
      · rw [PointerArray.length_realloc]
        exact Nat.zero_le _
      · omega
    rw [aliasStore, if_pos hkey, aliasResize_eq hkey (by omega), hidx, hlast, hclear]
  · -- the largest index wraps to zero
    have hclear : (al.value.realloc 1).clearUpTo Abort.outOfBounds .divergence
        (.ofNat (al.maxIdx + 1)) 0 = .ok (al.value.realloc 1) := by
      apply PointerArray.clearUpTo_of_lt
      omega
    have hstore : (al.value.realloc 1).storeCell Abort.outOfBounds 4294967294 (some strValue) =
        .error .outOfBounds := by
      apply PointerArray.storeCell_outside
      rw [PointerArray.length_realloc]
      decide
    rw [aliasStore, if_pos hkey, aliasResize_eq hkey (by omega), hidx, hlast, hclear]
    dsimp only
    rw [hstore]
  · -- the key and one wraps to zero, and the array stays
    have hnext : ¬ (key + 1).toNat > al.maxIdx := by
      rw [UInt32.toNat_add, hlast]
      exact Nat.not_lt_zero _
    have hresize : aliasResize al key = .ok al := if_neg hnext
    rw [aliasStore, if_pos hkey, hresize]
    dsimp only
    rw [PointerArray.storeCell_outside (by omega)]

end Resize

/-! ### Files -/

/-- A line with a key and a value, which may be followed by anything behind a blank, and has room in
the buffer of `alias_init` with its newline. -/
structure AliasEntry where
  lead : Bytes
  keyText : Bytes
  gap : Bytes
  value : Bytes
  rest : Bytes
  key : UInt32
  blanks : ∀ c ∈ lead ++ gap, c = 32 ∨ c = 9
  apart : gap ≠ []
  keyOctets : keyText ≠ [] ∧ ∀ c ∈ keyText, c ≠ 32 ∧ c ≠ 9 ∧ c ≠ 10 ∧ c ≠ 0
  number : strtoul keyText = some key.toNat
  valueOctets : value ≠ [] ∧ ∀ c ∈ value, c ≠ 32 ∧ c ≠ 9 ∧ c ≠ 10 ∧ c ≠ 0
  restBlank : ∀ c, rest.head? = some c → c = 32 ∨ c = 9
  restOctets : ∀ c ∈ rest, c ≠ 10 ∧ c ≠ 0
  room : (lead ++ keyText ++ gap ++ value ++ rest).length + 2 ≤ maxLineSz

def AliasEntry.text (e : AliasEntry) : Bytes := e.lead ++ e.keyText ++ e.gap ++ e.value ++ e.rest

/-- A file of such lines. The last one may be without a newline. -/
def aliasFile (newline : Bool) : List AliasEntry → Bytes
  | [] => []
  | [e] => e.text ++ if newline then [10] else []
  | e :: entries => e.text ++ 10 :: aliasFile newline entries

/-- The last value that is given for a key. -/
def lastValue (entries : List AliasEntry) (key : Nat) : Option Bytes :=
  (entries.reverse.find? fun e => e.key.toNat = key).map AliasEntry.value

/-- Each key fits when the ones before it have made the array grow. -/
def KeysFit : Nat → List Nat → Prop
  | _, [] => True
  | maxIdx, key :: keys => KeyFits maxIdx key ∧ KeysFit (grownIdx maxIdx key) keys

section File

variable {e : AliasEntry} {entries : List AliasEntry} {al : Alias} {newline : Bool} {fuel : Nat}
  {f : Nat → Option Bytes}

theorem AliasEntry.text_newline (e : AliasEntry) : ∀ c ∈ e.text, c ≠ 10 := by
  have hblank : ∀ c : UInt8, c = 32 ∨ c = 9 → c ≠ 10 := by
    rintro c (rfl | rfl) <;> decide
  intro c hc
  simp only [text, List.mem_append] at hc
  rcases hc with (((hlead | hkey) | hgap) | hvalue) | hrest
  · exact hblank c (e.blanks c (List.mem_append_left _ hlead))
  · exact (e.keyOctets.2 c hkey).2.2.1
  · exact hblank c (e.blanks c (List.mem_append_right _ hgap))
  · exact (e.valueOctets.2 c hvalue).2.2.1
  · exact (e.restOctets c hrest).1

theorem AliasEntry.text_ne_nil (e : AliasEntry) : e.text ≠ [] := by
  simp [text, e.apart]

/-- What stops the value. -/
theorem AliasEntry.rest_stop (e : AliasEntry) {ending : Bytes} (h : ending = [0] ∨ ending = [10, 0]) :
    ∃ stop after, e.rest ++ ending = stop :: after ∧
      (stop ∈ ([32, 9, 10] : List UInt8) ∨ stop = 0) := by
  cases hrest : e.rest with
  | nil =>
      rcases h with rfl | rfl
      · exact ⟨0, [], rfl, Or.inr rfl⟩
      · exact ⟨10, [0], rfl, Or.inl (by decide)⟩
  | cons c rest =>
      have hc := e.restBlank c (by rw [hrest]; rfl)
      exact ⟨c, rest ++ ending, rfl, Or.inl (by rcases hc with rfl | rfl <;> decide)⟩

/-- **A line is read.** -/
theorem aliasLine_text (al : Alias) (e : AliasEntry) {ending : Bytes}
    (h : ending = [0] ∨ ending = [10, 0]) :
    aliasLine al (e.text ++ ending) =
      (aliasStore al e.key e.value).map fun al => (.success, al) := by
  obtain ⟨blank, gap, hgap⟩ := List.exists_cons_of_ne_nil e.apart
  obtain ⟨stop, after, hrest, hstop⟩ := e.rest_stop h
  have hblanks : ∀ c ∈ e.lead ++ blank :: gap, c ∈ ([32, 9] : List UInt8) := by
    intro c hc
    rw [← hgap] at hc
    simpa using e.blanks c hc
  have hkey : aliasToken [32, 9] (e.text ++ ending) =
      .ok (some (e.keyText, gap ++ (e.value ++ stop :: after))) := by
    have htext : e.text ++ ending =
        e.lead ++ (e.keyText ++ blank :: (gap ++ (e.value ++ stop :: after))) := by
      simp only [AliasEntry.text, hgap, List.append_assoc, List.cons_append, hrest]
    have hblank := hblanks blank (List.mem_append_right _ (List.mem_cons_self ..))
    have hzero : blank ≠ 0 := by
      rintro rfl
      exact absurd hblank (by decide)
    rw [aliasToken, htext, Text.strtokAny_token
      (fun c hc => hblanks c (List.mem_append_left _ hc)) e.keyOctets.1
      (fun c hc => ⟨by simp [e.keyOctets.2 c hc], (e.keyOctets.2 c hc).2.2.2⟩) (Or.inl hblank),
      if_neg hzero]
  have hvalue : ∃ next, aliasToken [32, 9, 10] (gap ++ (e.value ++ stop :: after)) =
      .ok (some (e.value, next)) := by
    have hlead : ∀ c ∈ gap, c ∈ ([32, 9, 10] : List UInt8) := by
      intro c hc
      have := hblanks c (List.mem_append_right _ (List.mem_cons_of_mem _ hc))
      simp only [List.mem_cons, List.not_mem_nil, or_false] at this ⊢
      exact this.imp_right Or.inl
    rw [aliasToken, Text.strtokAny_token hlead e.valueOctets.1
      (fun c hc => ⟨by simp [e.valueOctets.2 c hc], (e.valueOctets.2 c hc).2.2.2⟩) hstop]
    exact ⟨_, rfl⟩
  obtain ⟨next, hvalue⟩ := hvalue
  have hnumber : UInt32.ofNat e.key.toNat = e.key := UInt32.ofNat_toNat
  unfold aliasLine
  simp only [hkey, hvalue, e.number, hnumber]

/-- The loop takes the first line from the file. -/
theorem aliasLines_cons :
    aliasLines (fuel + 1) al (aliasFile newline (e :: entries)) =
      match aliasStore al e.key e.value with
      | .error e => .error e
      | .ok al => aliasLines fuel al (aliasFile newline entries) := by
  have hroom : e.text.length + 2 ≤ maxLineSz := e.room
  obtain ⟨ending, hending, hread⟩ : ∃ ending, (ending = [0] ∨ ending = [10, 0]) ∧
      Text.fgets maxLineSz (aliasFile newline (e :: entries)) =
        some (e.text ++ ending, aliasFile newline entries) := by
    have hnewline : ∀ rest, Text.fgets maxLineSz (e.text ++ 10 :: rest) =
        some (e.text ++ [10, 0], rest) := fun _ => Text.fgets_newline e.text_newline hroom
    cases entries with
    | cons e' entries => exact ⟨_, Or.inr rfl, hnewline _⟩
    | nil =>
        cases newline with
        | true => exact ⟨_, Or.inr rfl, hnewline []⟩
        | false =>
            refine ⟨_, Or.inl rfl, ?_⟩
            have htext : aliasFile false [e] = e.text := List.append_nil _
            rw [htext]
            exact Text.fgets_last e.text_ne_nil e.text_newline (by omega)
  rw [aliasLines, hread]
  dsimp only
  rw [aliasLine_text al e hending]
  cases aliasStore al e.key e.value <;> rfl

theorem lastValue_cons (e : AliasEntry) (entries : List AliasEntry) (f : Nat → Option Bytes) :
    (fun key => (lastValue (e :: entries) key).or (f key)) =
      fun key => (lastValue entries key).or (Function.update f e.key.toNat (some e.value) key) := by
  funext key
  rw [lastValue, lastValue, List.reverse_cons, List.find?_append]
  cases entries.reverse.find? fun e => e.key.toNat = key with
  | some e' => rfl
  | none =>
      by_cases hkey : key = e.key.toNat
      · simp [hkey]
      · simp [hkey, Ne.symm hkey]

/-- **Lines whose keys fit.** -/
theorem aliasLines_of_fits (h : al.Is f) (hfuel : entries.length < fuel)
    (hfits : KeysFit al.maxIdx (entries.map fun e => e.key.toNat)) :
    ∃ al', aliasLines fuel al (aliasFile newline entries) = .ok (.success, al') ∧
      al'.Is fun key => (lastValue entries key).or (f key) := by
  induction entries generalizing al f fuel with
  | nil =>
      obtain ⟨fuel, rfl⟩ : ∃ n, fuel = n + 1 := ⟨fuel - 1, by omega⟩
      exact ⟨al, rfl, h⟩
  | cons e entries ih =>
      obtain ⟨fuel, rfl⟩ : ∃ n, fuel = n + 1 := ⟨fuel - 1, by omega⟩
      obtain ⟨hkey, hkeys⟩ := hfits
      obtain ⟨al₁, hstore, hal₁, hidx⟩ := h.store hkey e.value
      rw [aliasLines_cons, hstore, lastValue_cons]
      exact ih hal₁ (Nat.lt_of_succ_lt_succ hfuel) (hidx ▸ hkeys)

/-- **A key that does not fit** ends the program. -/
theorem aliasLines_of_not_fits (h : al.Is f) (hfuel : entries.length < fuel)
    (hnot : ¬ KeysFit al.maxIdx (entries.map fun e => e.key.toNat)) :
    aliasLines fuel al (aliasFile newline entries) = .error .outOfBounds := by
  induction entries generalizing al f fuel with
  | nil => exact absurd trivial hnot
  | cons e entries ih =>
      obtain ⟨fuel, rfl⟩ : ∃ n, fuel = n + 1 := ⟨fuel - 1, by omega⟩
      rw [aliasLines_cons]
      by_cases hkey : KeyFits al.maxIdx e.key.toNat
      · obtain ⟨al₁, hstore, hal₁, hidx⟩ := h.store hkey e.value
        rw [hstore]
        refine ih hal₁ (Nat.lt_of_succ_lt_succ hfuel) fun hkeys => hnot ⟨hkey, hidx ▸ hkeys⟩
      · rw [h.store_outside hkey]

theorem length_le_aliasFile (newline : Bool) :
    ∀ entries, entries.length ≤ (aliasFile newline entries).length
  | [] => Nat.le_refl _
  | [e] => by
      have := List.length_pos_iff.mpr e.text_ne_nil
      rw [aliasFile, List.length_append, List.length_singleton]
      omega
  | e :: e' :: entries => by
      have hle := length_le_aliasFile newline (e' :: entries)
      have hfile : aliasFile newline (e :: e' :: entries) =
          e.text ++ 10 :: aliasFile newline (e' :: entries) := rfl
      rw [hfile, List.length_append]
      simp only [List.length_cons] at hle ⊢
      omega

end File

/-! ### The map -/

section Map

variable {al : Alias} {f : Nat → Option Bytes}

theorem Alias.Is.byKey (h : al.Is f) (key : UInt32) : nmsgAliasByKey al key = .ok (f key.toNat) := by
  unfold nmsgAliasByKey
  by_cases hkey : key.toNat ≤ al.maxIdx
  · rw [if_pos hkey, h.value.loadCell (Nat.lt_succ_of_le hkey)]
  · rw [if_neg hkey, h.value.beyond _ (Nat.lt_of_not_le hkey)]

/-- The least key with this value in any case, or zero. -/
def LeastKey (f : Nat → Option Bytes) (value : Bytes) (key : Nat) : Prop :=
  ((∃ s, f key = some s ∧ EqIgnoringCase value s) ∧
      ∀ k < key, ∀ s, f k = some s → ¬ EqIgnoringCase value s) ∨
    key = 0 ∧ ∀ k s, f k = some s → ¬ EqIgnoringCase value s

/-- **The loop over the values** ends, and finds the least key. -/
theorem Alias.Is.byValue (h : al.Is f) (value : Bytes) :
    ∃ key : UInt32, nmsgAliasByValue al value = .ok key ∧ LeastKey f value key.toNat := by
  have hbody : ∀ i ≤ al.maxIdx, ∃ out, aliasFound al value (.ofNat i) = .ok out ∧
      ((∀ key, out = some key → key.toNat = i ∧ ∃ s, f i = some s ∧ EqIgnoringCase value s) ∧
        (out = none → ∀ s, f i = some s → ¬ EqIgnoringCase value s)) := by
    intro i hi
    have hwidth := h.width
    rw [aliasFound, PointerArray.toNat_ofNat_of_lt (by omega), h.value.loadCell (Nat.lt_succ_of_le hi)]
    cases hs : f i with
    | none => exact ⟨none, rfl, by rintro _ ⟨⟩, by rintro - _ ⟨⟩⟩
    | some s =>
        by_cases heq : EqIgnoringCase value s
        · refine ⟨some (.ofNat i), by simp only [if_pos heq], ?_, by rintro ⟨⟩⟩
          rintro _ ⟨⟩
          exact ⟨PointerArray.toNat_ofNat_of_lt (by omega), s, rfl, heq⟩
        · refine ⟨none, by simp only [if_neg heq], by rintro _ ⟨⟩, ?_⟩
          rintro - _ ⟨⟩
          exact heq
  have hfuel : al.maxIdx + 1 < al.maxIdx + 2 + 0 := Nat.lt_succ_self _
  obtain ⟨out, hok, hsome, hnone⟩ := PointerArray.findUpTo_rule .divergence _ _ h.width hbody
    (Nat.zero_le _) hfuel
  refine ⟨out.getD 0, congrArg (Except.map _) hok, ?_⟩
  cases out with
  | some key =>
      obtain ⟨i, -, -, hfound, hbefore⟩ := hsome key rfl
      obtain ⟨rfl, hs⟩ := hfound.1 key rfl
      exact Or.inl ⟨hs, fun k hk s hsk => (hbefore k (Nat.zero_le _) hk).2 rfl s hsk⟩
  | none =>
      refine Or.inr ⟨rfl, fun k s hsk => ?_⟩
      have hle : k ≤ al.maxIdx := by
        by_contra hgt
        rw [h.value.beyond k (by omega)] at hsk
        cases hsk
      exact (hnone rfl k (Nat.zero_le _) hle).2 rfl s hsk

theorem aliasInit_eq (file : Bytes) : ∃ value,
    aliasInit (some file) = aliasLines (file.length + 1) ⟨aliasSzInit, value⟩ file ∧
      (⟨aliasSzInit, value⟩ : Alias).Is fun _ => none := by
  have hwidth : aliasSzInit + 1 < 4294967296 := by decide
  obtain ⟨value, hclear, hholds⟩ :=
    PointerArray.malloc_clearUpTo (α := Bytes) Abort.outOfBounds .divergence hwidth
  refine ⟨value, ?_, hholds, hwidth⟩
  rw [aliasInit, hclear]

/-- The file is read into a map of its keys. -/
def AliasMap (newline : Bool) (entries : List AliasEntry) : Prop :=
  ∃ al, aliasInit (some (aliasFile newline entries)) = .ok (.success, al) ∧
    (∀ key : UInt32, nmsgAliasByKey al key = .ok (lastValue entries key.toNat)) ∧
    ∀ value, ∃ key : UInt32, nmsgAliasByValue al value = .ok key ∧
      LeastKey (lastValue entries) value key.toNat

theorem aliasInit_of_not_fits {newline : Bool} {entries : List AliasEntry}
    (hnot : ¬ KeysFit aliasSzInit (entries.map fun e => e.key.toNat)) :
    aliasInit (some (aliasFile newline entries)) = .error .outOfBounds := by
  obtain ⟨value, hinit, hal⟩ := aliasInit_eq (aliasFile newline entries)
  rw [hinit]
  exact aliasLines_of_not_fits hal (Nat.lt_succ_of_le (length_le_aliasFile newline entries)) hnot

/-- **An alias table is a map** for exactly the files whose keys fit. -/
theorem aliasMap_iff (newline : Bool) (entries : List AliasEntry) :
    AliasMap newline entries ↔ KeysFit aliasSzInit (entries.map fun e => e.key.toNat) := by
  constructor
  · rintro ⟨al, hok, -⟩
    by_contra hnot
    rw [aliasInit_of_not_fits hnot] at hok
    cases hok
  · intro hfits
    obtain ⟨value, hinit, hal⟩ := aliasInit_eq (aliasFile newline entries)
    have hfuel := Nat.lt_succ_of_le (length_le_aliasFile newline entries)
    obtain ⟨al, hok, his⟩ := aliasLines_of_fits hal hfuel hfits
    have hmap : (fun key => (lastValue entries key).or none) = lastValue entries :=
      funext fun key => Option.or_none
    rw [hmap] at his
    exact ⟨al, hinit.trans hok, his.byKey, his.byValue⟩

/-- `4294967295 x` -/
def topEntry : AliasEntry where
  lead := []
  keyText := [52, 50, 57, 52, 57, 54, 55, 50, 57, 53]
  gap := [32]
  value := [120]
  rest := []
  key := 4294967295
  blanks := by simp
  apart := by decide
  keyOctets := by simp
  number := by decide
  valueOctets := by simp
  restBlank := nofun
  restOctets := nofun
  room := by decide

/-- The key is not below the largest index, and there is no index behind it. -/
theorem topEntry_not_aliasMap : ¬ AliasMap true [topEntry] := by
  have hnot : ¬ KeysFit aliasSzInit ([topEntry].map fun e => e.key.toNat) := by
    rintro ⟨hfits | hfits | hfits, -⟩ <;> exact absurd hfits (by decide)
  rintro ⟨al, hok, -⟩
  rw [aliasInit_of_not_fits hnot] at hok
  cases hok

end Map

end Nmsg

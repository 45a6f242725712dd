import Nmsg.Msgmod.Payload
import Nmsg.Proof.Mirror
import Nmsg.Proof.PresStep

/-!
# What is printed

A message is printed as a text that its values alone determine, with a zero octet behind it, exactly
if the strings among its values end at zero octets of their own and if there is something to print.
-/

namespace Nmsg

variable {libc : Libc} {field : MsgmodField} {endline : Bytes} {v : FieldValue}

/-! ### The text -/

/-- The text of a value. Strings go up to their first zero octet. -/
def renderValue (libc : Libc) (endline : Bytes) (field : MsgmodField) (v : FieldValue) : Bytes :=
  match field.type, v with
  | .string, .data b => fieldLine field (b.takeWhile (· ≠ 0)) endline
  | .mlstring, .data b =>
      field.name ++ ascii ":" ++ endline ++ b.takeWhile (· ≠ 0) ++ ascii "." ++ endline
  | .bytes, .data b =>
      fieldLine field (ascii "<BYTE ARRAY LEN=" ++ Text.decimal b.length ++ ascii ">") endline
  | .bool, .word w => fieldLine field (ascii (if w ≠ 0 then "True" else "False")) endline
  | .enum, .word w => (enumLines field endline w).flatten
  | .ip, .data b => fieldLine field (ipText libc b) endline
  | .uint16, .word w => fieldLine field (Text.decimal (w.toNat % 2 ^ 16)) endline
  | .uint32, .word w => fieldLine field (Text.decimal w.toNat) endline
  | .uint64, .dword w => fieldLine field (Text.decimal w.toNat) endline
  | .int16, .word w => fieldLine field (Text.signedDecimal (signedBits 16 w.toNat)) endline
  | .int32, .word w => fieldLine field (Text.signedDecimal (signedBits 32 w.toNat)) endline
  | .int64, .dword w => fieldLine field (Text.signedDecimal (signedBits 64 w.toNat)) endline
  | .double, .dword w => fieldLine field (libc.formatDouble w) endline
  | _, _ => []

/-- The values that are printed, with their fields. -/
def printedOf (mod : Msgmod) (order : List Nat) (m : FieldMessage) :
    List (MsgmodField × FieldValue) :=
  order.flatMap fun n =>
    match mod.fields[n]? with
    | none => []
    | some field => (printedValues field (m.getD n [])).map fun v => (field, v)

/-- The text of a message. -/
def render (libc : Libc) (mod : Msgmod) (order : List Nat) (endline : Bytes) (m : FieldMessage) :
    Bytes :=
  (printedOf mod order m).flatMap fun p => renderValue libc endline p.1 p.2

/-- A string has a zero octet in it. -/
def HasEnd (field : MsgmodField) (v : FieldValue) : Prop :=
  field.type = .string ∨ field.type = .mlstring → ∀ b, v = .data b → 0 ∈ b

theorem cString_of_mem {b : Bytes} (h : 0 ∈ b) : cString b = .ok (b.takeWhile (· ≠ 0)) := by
  rw [cString, if_neg (List.ne_nil_of_mem h), if_pos h]

theorem cString_of_not_mem {b : Bytes} (h : 0 ∉ b) : ∃ e, cString b = .error e := by
  rw [cString, if_neg h]
  split <;> exact ⟨_, rfl⟩

theorem enumLines_ne_nil (n : UInt32) : enumLines field endline n ≠ [] := by
  unfold enumLines
  dsimp only
  split
  · exact List.cons_ne_nil _ _
  next hnames => exact fun h => hnames (List.map_eq_nil_iff.mp h)

/-- **A value.** The texts that are appended for it make its text, if a string has its end. -/
theorem payloadToPresLoad_of_hasEnd (htype : v.OfType field.type) (hend : HasEnd field v) :
    ∃ texts, payloadToPresLoad libc field endline v = .ok texts ∧ texts ≠ [] ∧
      texts.flatten = renderValue libc endline field v := by
  unfold payloadToPresLoad renderValue
  unfold HasEnd at hend
  cases hfield : field.type with
  | string =>
      rw [hfield] at htype hend
      cases v with
      | word | dword => simp [FieldValue.OfType] at htype
      | data b =>
          dsimp only
          rw [cString_of_mem (hend (Or.inl rfl) b rfl)]
          exact ⟨_, rfl, List.cons_ne_nil _ _, List.append_nil _⟩
  | mlstring =>
      rw [hfield] at htype hend
      cases v with
      | word | dword => simp [FieldValue.OfType] at htype
      | data b =>
          dsimp only
          rw [cString_of_mem (hend (Or.inr rfl) b rfl)]
          exact ⟨_, rfl, List.cons_ne_nil _ _, List.append_nil _⟩
  | enum =>
      rw [hfield] at htype
      cases v with
      | word w => exact ⟨_, rfl, enumLines_ne_nil w, rfl⟩
      | dword | data => simp [FieldValue.OfType] at htype
  | bytes | ip =>
      rw [hfield] at htype
      cases v with
      | word | dword => simp [FieldValue.OfType] at htype
      | data b => exact ⟨_, rfl, List.cons_ne_nil _ _, List.append_nil _⟩
  | uint16 | uint32 | int16 | int32 | bool =>
      rw [hfield] at htype
      cases v with
      | word w => exact ⟨_, rfl, List.cons_ne_nil _ _, List.append_nil _⟩
      | dword | data => simp [FieldValue.OfType] at htype
  | uint64 | int64 | double =>
      rw [hfield] at htype
      cases v with
      | dword w => exact ⟨_, rfl, List.cons_ne_nil _ _, List.append_nil _⟩
      | word | data => simp [FieldValue.OfType] at htype

theorem payloadToPresLoad_of_not_hasEnd (hend : ¬ HasEnd field v) :
    ∃ e, payloadToPresLoad libc field endline v = .error e := by
  unfold HasEnd at hend
  push Not at hend
  obtain ⟨htype, b, rfl, hb⟩ := hend
  obtain ⟨e, he⟩ := cString_of_not_mem hb
  rcases htype with htype | htype
  · simp only [payloadToPresLoad, htype, he]
    exact ⟨e, rfl⟩
  · simp only [payloadToPresLoad, htype, he]
    exact ⟨e, rfl⟩

/-! ### The buffer -/

/-- Texts that are appended are behind what was there, and end at a zero octet. -/
theorem appendAll_text {texts : List Bytes} : ∀ {sb : Strbuf}, sb.Valid → texts ≠ [] →
    ∃ sb', appendAll sb texts = .ok sb' ∧ sb'.Valid ∧ sb'.Terminated ∧
      sb'.text = sb.text ++ texts.flatten := by
  induction texts with
  | nil => exact fun _ h => absurd rfl h
  | cons text texts ih =>
      intro sb hvalid _
      obtain ⟨sb', data, happend, hvalid', -, htext, hdata, hend⟩ := hvalid.append text
      rw [appendAll, happend]
      dsimp only
      cases texts with
      | nil =>
          refine ⟨sb', rfl, hvalid', ⟨data, hdata, hend⟩, ?_⟩
          rw [htext, List.flatten_singleton]
      | cons text' texts =>
          obtain ⟨last, hlast, hvalid'', hend', htext'⟩ := ih hvalid' (List.cons_ne_nil _ _)
          refine ⟨last, hlast, hvalid'', hend', ?_⟩
          rw [htext', htext, List.append_assoc, ← List.flatten_cons]

/-- Values are printed one after the other. -/
def printAll (libc : Libc) (endline : Bytes) (sb : Strbuf) :
    List (MsgmodField × FieldValue) → Except Abort Strbuf
  | [] => .ok sb
  | (field, v) :: ps =>
      match payloadToPresLoad libc field endline v with
      | .error e => .error e
      | .ok texts =>
          match appendAll sb texts with
          | .error e => .error e
          | .ok sb => printAll libc endline sb ps

theorem printAll_append {ps ps' : List (MsgmodField × FieldValue)} : ∀ {sb : Strbuf},
    printAll libc endline sb (ps ++ ps') =
      match printAll libc endline sb ps with
      | .error e => .error e
      | .ok sb => printAll libc endline sb ps' := by
  induction ps with
  | nil => exact rfl
  | cons p ps ih =>
      intro sb
      rw [List.cons_append, printAll, printAll]
      cases payloadToPresLoad libc p.1 endline p.2 with
      | error e => rfl
      | ok texts =>
          dsimp only
          cases appendAll sb texts with
          | error e => rfl
          | ok sb => exact ih

theorem printField_eq {vals : List FieldValue} : ∀ {sb : Strbuf},
    printField libc field endline sb vals =
      printAll libc endline sb (vals.map fun v => (field, v)) := by
  induction vals with
  | nil => exact rfl
  | cons v vals ih =>
      intro sb
      rw [List.map_cons, printField, printAll]
      cases payloadToPresLoad libc field endline v with
      | error e => rfl
      | ok texts =>
          dsimp only
          cases appendAll sb texts with
          | error e => rfl
          | ok sb => exact ih

theorem printFields_eq {mod : Msgmod} {m : FieldMessage} {order : List Nat} : ∀ {sb : Strbuf},
    printFields libc mod endline m sb order = printAll libc endline sb (printedOf mod order m) := by
  induction order with
  | nil => exact rfl
  | cons n order ih =>
      intro sb
      rw [printedOf, List.flatMap_cons, printAll_append, printFields]
      cases mod.fields[n]? with
      | none => exact ih
      | some field =>
          dsimp only
          rw [printField_eq]
          cases printAll libc endline sb ((printedValues field (m.getD n [])).map fun v => (field, v)) with
          | error e => rfl
          | ok sb => exact ih

/-- **Values.** They are printed if their strings have their ends. -/
theorem printAll_of_hasEnd {ps : List (MsgmodField × FieldValue)} : ∀ {sb : Strbuf}, sb.Valid →
    (∀ p ∈ ps, p.2.OfType p.1.type) → (∀ p ∈ ps, HasEnd p.1 p.2) →
    ∃ sb', printAll libc endline sb ps = .ok sb' ∧ (ps = [] → sb' = sb) ∧
      (ps ≠ [] → sb'.Terminated) ∧
      sb'.text = sb.text ++ ps.flatMap fun p => renderValue libc endline p.1 p.2 := by
  induction ps with
  | nil =>
      intro sb hvalid htypes hends
      exact ⟨sb, rfl, fun _ => rfl, fun h => absurd rfl h, (List.append_nil _).symm⟩
  | cons p ps ih =>
      intro sb hvalid htypes hends
      obtain ⟨texts, hload, hne, hflat⟩ := @payloadToPresLoad_of_hasEnd libc _ endline _
        (htypes p (List.mem_cons_self ..)) (hends p (List.mem_cons_self ..))
      obtain ⟨sb', happend, hvalid', hend, htext⟩ := appendAll_text hvalid hne
      obtain ⟨last, hlast, hnone, hsome, htext'⟩ := ih hvalid'
        (fun q hq => htypes q (List.mem_cons_of_mem _ hq))
        (fun q hq => hends q (List.mem_cons_of_mem _ hq))
      refine ⟨last, ?_, nofun, fun _ => ?_, ?_⟩
      · rw [printAll, hload]
        dsimp only
        rw [happend]
        exact hlast
      · by_cases hps : ps = []
        · exact hnone hps ▸ hend
        · exact hsome hps
      · rw [htext', htext, hflat, List.append_assoc, List.flatMap_cons]

theorem printAll_of_not_hasEnd {ps : List (MsgmodField × FieldValue)} : ∀ {sb : Strbuf}, sb.Valid →
    (∀ p ∈ ps, p.2.OfType p.1.type) → (∃ p ∈ ps, ¬ HasEnd p.1 p.2) →
    ∃ e, printAll libc endline sb ps = .error e := by
  induction ps with
  | nil => rintro sb - - ⟨_, ⟨⟩, _⟩
  | cons p ps ih =>
      intro sb hvalid htypes hends
      rw [printAll]
      by_cases hp : HasEnd p.1 p.2
      · obtain ⟨texts, hload, hne, -⟩ := @payloadToPresLoad_of_hasEnd libc _ endline _
          (htypes p (List.mem_cons_self ..)) hp
        obtain ⟨sb', happend, hvalid', -, -⟩ := appendAll_text hvalid hne
        rw [hload]
        dsimp only
        rw [happend]
        refine ih hvalid' (fun q hq => htypes q (List.mem_cons_of_mem _ hq)) ?_
        obtain ⟨q, hq, hnot⟩ := hends
        rcases List.mem_cons.mp hq with rfl | hq
        · exact absurd hp hnot
        · exact ⟨q, hq, hnot⟩
      · obtain ⟨e, he⟩ := @payloadToPresLoad_of_not_hasEnd libc _ endline _ hp
        rw [he]
        exact ⟨e, rfl⟩

/-! ### Messages -/

/-- The values that are printed are of the types of their fields. -/
theorem printedOf_ofType {mod : Msgmod} {m : FieldMessage} {order : List Nat} (hm : mod.Holds m) :
    ∀ p ∈ printedOf mod order m, p.2.OfType p.1.type := by
  intro p hp
  obtain ⟨n, -, hp⟩ := List.mem_flatMap.mp hp
  cases hfield : mod.fields[n]? with
  | none => rw [hfield] at hp; cases hp
  | some field =>
      rw [hfield] at hp
      obtain ⟨v, hv, rfl⟩ := List.mem_map.mp hp
      have hvals : v ∈ m.getD n [] := by
        unfold printedValues at hv
        split_ifs at hv
        · cases hv
        · exact List.mem_of_mem_take hv
        · exact hv
        · cases hv
      have hlt := (List.getElem?_eq_some_iff.mp hfield).1
      have hholds := List.forall₂_iff_get.mp hm
      have hlt' : n < m.length := hholds.1 ▸ hlt
      rw [List.getD_eq_getElem?_getD, List.getElem?_eq_getElem hlt', Option.getD_some] at hvals
      have hget := hholds.2 n hlt hlt'
      rw [List.get_eq_getElem, List.get_eq_getElem, (List.getElem?_eq_some_iff.mp hfield).2] at hget
      exact hget.ofType v hvals

/-- The message is printed as the text that its values make, in a block where a zero octet is behind
the text. -/
def PrintsText (libc : Libc) (mod : Msgmod) (order : List Nat) (endline : Bytes) (m : FieldMessage)
    (msg : FieldObject) : Prop :=
  ∃ block msg', msg.payloadToPres libc order endline = .ok ((.success, some block), msg') ∧
    render libc mod order endline m ++ [0] <+: block

open WireFormat in
/-- A module whose messages have one string. -/
def textModule : Msgmod where
  vid := 1
  msgtype := 2
  fields := [⟨.string, [0x73], .required, false, false, false, []⟩]
  pack
    | [[.data b]] => encode [.bytes 1 b]
    | _ => []
  unpack b := do
    let fields ← decode b
    let text ← findBytes 1 fields
    some [[.data text]]

theorem textModule_holds_iff {m : FieldMessage} :
    textModule.Holds m ↔ ∃ b, m = [[.data b]] := by
  constructor
  · intro h
    obtain ⟨vals, rest, hvals, hrest, rfl⟩ := List.forall₂_cons_left_iff.mp h
    rw [List.forall₂_nil_left_iff] at hrest
    obtain ⟨val, rfl⟩ := List.length_eq_one_iff.mp hvals.count
    have htype := hvals.ofType val (List.mem_singleton_self _)
    cases val with
    | word | dword => simp [FieldValue.OfType] at htype
    | data b => exact ⟨b, by rw [hrest]⟩
  · rintro ⟨b, rfl⟩
    refine List.Forall₂.cons ⟨rfl, ?_⟩ List.Forall₂.nil
    intro val hval
    rw [List.mem_singleton.mp hval]
    simp [FieldValue.OfType]

theorem textModule_lawful : textModule.Lawful where
  unpack_pack := by
    intro m hm
    obtain ⟨b, rfl⟩ := textModule_holds_iff.mp hm
    have hdecode : WireFormat.decode (WireFormat.encode [.bytes 1 b]) = some [.bytes 1 b] := by
      apply WireFormat.decode_encode
      simp [WireFormat.Field.Fits]
    simp [textModule, hdecode, WireFormat.findBytes, WireFormat.allBytes]
  unpack_holds := by
    intro b m h
    simp only [textModule, Option.bind_eq_bind, Option.bind_eq_some_iff, Option.some.injEq] at h
    obtain ⟨_, _, text, _, rfl⟩ := h
    exact textModule_holds_iff.mpr ⟨text, rfl⟩

end Nmsg

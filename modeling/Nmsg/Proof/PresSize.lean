import Mathlib.Data.List.GetD
import Nmsg.Lib.WireFormat
import Nmsg.Proof.PresRecords

/-!
# The size of the payload

The buffer of a payload is allocated from an estimate that grows with the lines. What the lines say
is kept here in a draft: how much of each value there is, and how much of it was counted. The payload
fits its buffer exactly if what the values take on the wire is not more than what was counted makes
room for.
-/

namespace Nmsg

open StepRun

variable {libc : Libc} {mod : PresModule} {clos clos' : MsgmodClos} {n : Nat} {pres : Bytes}
  {res : Res}

/-- What the size of a value depends on: a number, or how many octets there are. -/
inductive Extent where
  | word (v : UInt32)
  | dword (v : UInt64)
  | octets (n : Nat)
deriving DecidableEq

def FieldValue.extent : FieldValue → Extent
  | .word v => .word v
  | .dword v => .dword v
  | .data b => .octets b.length

/-- Some octets more. -/
def Extent.more (k : Nat) : Extent → Extent
  | .octets n => .octets (n + k)
  | e => e

/-- The octets that each field takes on the wire, by the extents of its values. -/
abbrev WireSize := PresField → List Extent → Nat

/-- The packed size of a message is the size of its fields on the wire. -/
def PresModule.PacksTo (mod : PresModule) (size : WireSize) : Prop :=
  ∀ m : FieldMessage, (mod.pack m).length =
    ((mod.fields.zip m).map fun f => size f.1 (f.2.map FieldValue.extent)).sum

/-! ### Drafts -/

/-- What lines say: the values of each field, the text of each multi-line string, the string that is
open, and the octets that are counted. -/
structure Draft where
  values : List (List Extent)
  texts : Nat → Nat
  opened : Option Nat
  counted : Nat

/-- A message of zeros. -/
def Draft.start (mod : PresModule) : Draft where
  values := mod.fields.map fun field =>
    if field.descrId ≠ none ∧ field.label = .required then [field.type.zero.extent] else []
  texts := fun _ => 0
  opened := none
  counted := 0

/-- The values of a field when there is a place for one more, and a value for the place. -/
def Draft.put (d : Draft) (n : Nat) (field : PresField) (value : Option Extent) :
    List (List Extent) :=
  d.values.set n (if field.label = .repeated then
    d.values.getD n [] ++ [value.getD field.type.zero.extent]
  else (value.map fun value => [value]).getD (d.values.getD n []))

/-- What is counted for a value in a line: four octets for a name, the octets of an address and
those of a string. Numbers count for nothing. -/
def countedSize (type : FieldType) (v : FieldValue) : Nat :=
  match type, v with
  | .enum, _ => 4
  | .ip, .data b => b.length
  | .string, .data b => b.length - 1
  | _, _ => 0

/-- What one more line says. -/
def Draft.line (libc : Libc) (mod : PresModule) (d : Draft) (pres : Bytes) : Draft :=
  match d.opened with
  | none =>
      match splitLine mod.fields pres with
      | .ok (some (n, value)) =>
          match mod.fields[n]?, value with
          | some field, none => { d with values := d.put n field none, opened := some n }
          | some field, some value =>
              match convertValue libc field field.type.zeroSlot value with
              | .ok (some (v, _)) => { d with
                  values := d.put n field (some v.extent)
                  counted := d.counted + countedSize field.type v }
              | _ => d
          | none, _ => d
      | _ => d
  | some n =>
      match mod.fields[n]? with
      | none => d
      | some field =>
          let k := field.descrId.getD 0 - 1
          if pres.take 2 = [46, 10] then
            { d with values := d.put n field (some (.octets (d.texts k))), opened := none }
          else { d with
            values := d.put n field none
            texts := Function.update d.texts k (d.texts k + pres.length)
            counted := d.counted + pres.length }

/-- What the lines of a record say. -/
def draftOf (libc : Libc) (mod : PresModule) (lines : List Bytes) : Draft :=
  lines.foldl (Draft.line libc mod) (Draft.start mod)

/-- The extents that are packed. A multi-line string has a zero octet more. -/
def packedExtents (field : PresField) (values : List Extent) : List Extent :=
  if field.descrId = none then []
  else if field.type = .mlstring ∧ (field.label = .required ∨
    (field.label = .optional ∧ values.length = 1)) then values.map (Extent.more 1)
  else values

/-- The octets that the record of a draft takes on the wire. -/
def Draft.wireSize (size : WireSize) (mod : PresModule) (d : Draft) : Nat :=
  ((mod.fields.zip d.values).map fun f => size f.1 (packedExtents f.1 f.2)).sum

/-! ### Slots -/

def Slot.extent : Slot → Extent
  | .value v => v.extent
  | .null => .octets 0
  | .strbuf len => .octets len

theorem zeroSlot_extent (type : FieldType) : type.zeroSlot.extent = type.zero.extent := by
  cases type <;> rfl

/-- What is packed for a slot. An octet more is behind octets only. -/
theorem readSlot_extent {sb : Strbuf} {more : Nat} {slot : Slot} {v : FieldValue}
    (hslot : more = 0 ∨ ∀ v, slot ≠ .value v) (h : readSlot sb more slot = .ok v) :
    v.extent = slot.extent.more more := by
  have hzero : ∀ e : Extent, e.more 0 = e := by
    intro e
    cases e <;> rfl
  cases slot with
  | value w =>
      obtain rfl := hslot.resolve_right fun h => h w rfl
      cases h
      exact (hzero _).symm
  | null =>
      rw [readSlot] at h
      split at h
      next hmore =>
        cases h
        rw [hmore]
        rfl
      next => cases h
  | strbuf len =>
      rw [readSlot] at h
      split at h
      · cases h
      next b hread =>
        cases h
        rw [Memory.read] at hread
        split at hread
        · obtain rfl := Option.some.inj hread
          simp only [FieldValue.extent, Slot.extent, Extent.more, List.length_take, List.drop_zero]
          congr 1
          omega
        · cases hread

theorem mapM_readSlot_extent {sb : Strbuf} {more : Nat} {slots : List Slot} :
    ∀ {vals : List FieldValue}, (∀ s ∈ slots, more = 0 ∨ ∀ v, s ≠ .value v) →
      slots.mapM (readSlot sb more) = .ok vals →
      vals.map FieldValue.extent = (slots.map Slot.extent).map (Extent.more more) := by
  induction slots with
  | nil =>
      intro vals hslots h
      cases h
      rfl
  | cons slot slots ih =>
      intro vals hslots h
      rw [List.mapM_cons] at h
      obtain ⟨v, hv, h⟩ := Outcome.bind_eq_ok.mp h
      obtain ⟨rest, hrest, h⟩ := Outcome.bind_eq_ok.mp h
      cases h
      rw [List.map_cons, List.map_cons, List.map_cons,
        readSlot_extent (hslots slot (List.mem_cons_self ..)) hv,
        ih (fun s hs => hslots s (List.mem_cons_of_mem _ hs)) hrest]

theorem readField_extent {field : PresField} {slots : List Slot} {vals : List FieldValue}
    (hslots : field.type = .mlstring → ∀ s ∈ slots, ∀ v, s ≠ .value v)
    (h : readField clos field slots = .ok vals) :
    vals.map FieldValue.extent = packedExtents field (slots.map Slot.extent) := by
  unfold readField at h
  cases hid : field.descrId with
  | none =>
      rw [hid] at h
      cases h
      rw [packedExtents, if_pos hid]
      rfl
  | some number =>
      rw [hid] at h
      have hone : onePresent field slots = true ↔ field.label = .required ∨
          (field.label = .optional ∧ (slots.map Slot.extent).length = 1) := by
        rw [onePresent, List.length_map, Bool.or_eq_true, Bool.and_eq_true, decide_eq_true_eq,
          decide_eq_true_eq, decide_eq_true_eq]
      have hsome : field.descrId ≠ none := by
        rw [hid]
        rintro ⟨⟩
      rw [packedExtents, if_neg hsome]
      by_cases hterm : field.type = .mlstring ∧ onePresent field slots = true
      · rw [if_pos ⟨hterm.1, hone.mp hterm.2⟩]
        rw [terminator, if_pos hterm] at h
        exact mapM_readSlot_extent (fun s hs => Or.inr (hslots hterm.1 s hs)) h
      · rw [if_neg fun h => hterm ⟨h.1, hone.mpr h.2⟩]
        rw [terminator, if_neg hterm] at h
        have hmap := mapM_readSlot_extent (fun _ _ => Or.inl rfl) h
        have hzero : Extent.more 0 = id := by
          funext e
          cases e <;> rfl
        rwa [hzero, List.map_id] at hmap

/-- The octets of what is packed. -/
theorem readFields_wireSize (size : WireSize) {fields : List PresField} :
    ∀ {m : List (List Slot)} {vals : FieldMessage},
      (∀ (n : Nat) (field : PresField), fields[n]? = some field → field.type = .mlstring →
        ∀ s ∈ m.getD n [], ∀ v, s ≠ .value v) →
      readFields clos fields m = .ok vals →
      ((fields.zip vals).map fun f => size f.1 (f.2.map FieldValue.extent)).sum =
        ((fields.zip (m.map (List.map Slot.extent))).map
          fun f => size f.1 (packedExtents f.1 f.2)).sum := by
  induction fields with
  | nil =>
      intro m vals hslots h
      rfl
  | cons field fields ih =>
      intro m vals hslots h
      cases m with
      | nil =>
          cases h
          rfl
      | cons slots m =>
          rw [readFields] at h
          obtain ⟨first, hfirst, h⟩ := Outcome.bind_eq_ok.mp h
          obtain ⟨rest, hrest, h⟩ := Outcome.bind_eq_ok.mp h
          cases h
          have hslots₀ : field.type = .mlstring → ∀ s ∈ slots, ∀ v, s ≠ .value v :=
            hslots 0 field rfl
          simp only [List.zip_cons_cons, List.map_cons, List.sum_cons]
          rw [readField_extent hslots₀ hfirst,
            ih (fun n field' hfield' => hslots (n + 1) field' hfield') hrest]

/-! ### What a line says -/

/-- The closure holds what the draft says. -/
structure Drafted (mod : PresModule) (clos : MsgmodClos) (m : List (List Slot)) (d : Draft) :
    Prop where
  message : clos.nmsgPbuf = some m
  values : d.values = m.map (List.map Slot.extent)
  multi : ∀ (n : Nat) (field : PresField), mod.fields[n]? = some field → field.type = .mlstring →
    ∀ s ∈ m.getD n [], ∀ v, s ≠ .value v
  texts : ∀ k, d.texts k = (clos.strbufs k).pos
  opened : d.opened = if clos.mode = .multiline then clos.field else none
  counted : d.counted = clos.estsz

theorem Draft.put_makePlace {d : Draft} {m : List (List Slot)} {field : PresField}
    (h : d.values = m.map (List.map Slot.extent)) :
    d.put n field none =
      (m.set n (makePlace field (m.getD n []))).map (List.map Slot.extent) := by
  have hslots : (m.map (List.map Slot.extent)).getD n [] = (m.getD n []).map Slot.extent :=
    List.getD_map _ [] _
  rw [Draft.put, h, List.map_set, hslots, makePlace]
  split
  · rw [List.map_append, List.map_singleton, zeroSlot_extent]
    rfl
  · rfl

theorem Draft.put_storeSlot {d : Draft} {m : List (List Slot)} {field : PresField} (slot : Slot)
    (h : d.values = m.map (List.map Slot.extent)) :
    d.put n field (some slot.extent) =
      (m.set n (storeSlot field (makePlace field (m.getD n [])) slot)).map (List.map Slot.extent) := by
  have hslots : (m.map (List.map Slot.extent)).getD n [] = (m.getD n []).map Slot.extent :=
    List.getD_map _ [] _
  rw [Draft.put, h, List.map_set, hslots, storeSlot_makePlace]
  split
  · rw [List.map_append]
    rfl
  · rfl

/-- A short value does not depend on what was in its place. -/
theorem convertValue_zeroSlot {field : PresField} {old : Slot} {value : Bytes}
    (hlow : field.type.Short → old.Low) :
    convertValue libc field old value = convertValue libc field field.type.zeroSlot value := by
  have hstore : field.type.Short → store16 old = store16 field.type.zeroSlot := by
    intro hshort
    funext k
    obtain ⟨w, hw, hk⟩ := store16_low (hlow hshort) k
    obtain ⟨w', hw', hk'⟩ := store16_low (zeroSlot_low hshort) k
    rw [hw, hw', UInt32.toNat_inj.mp (hk.trans hk'.symm)]
  unfold convertValue
  cases htype : field.type with
  | uint16 =>
      rw [htype] at hstore
      rw [hstore (Or.inl rfl)]
  | int16 =>
      rw [htype] at hstore
      rw [hstore (Or.inr rfl)]
  | enum | bytes | string | mlstring | ip | uint32 | uint64 | int32 | int64 | double | bool => rfl

/-- What the estimate grows by. -/
theorem convertValue_size {field : PresField} {old : Slot} {value : Bytes} {v : FieldValue}
    {k : Nat} (h : convertValue libc field old value = .ok (some (v, k))) :
    k = countedSize field.type v := by
  unfold convertValue at h
  cases htype : field.type with
  | bool | bytes | mlstring => rw [htype] at h; cases h
  | enum =>
      simp only [htype, Except.ok.injEq, Option.map_eq_some_iff] at h
      obtain ⟨_, -, h⟩ := h
      cases h
      rfl
  | string =>
      simp only [htype] at h
      cases h
      simp [countedSize]
  | ip =>
      simp only [htype] at h
      split at h
      next addr _ =>
        cases h
        exact addr.property.symm
      next =>
        simp only [Except.ok.injEq] at h
        cases hfound : libc.inetPton6 value with
        | none => rw [hfound] at h; cases h
        | some addr =>
            rw [hfound] at h
            cases h
            exact addr.property.symm
  | uint16 | int16 =>
      simp only [htype, Except.ok.injEq, Option.bind_eq_some_iff] at h
      obtain ⟨_, -, h⟩ := h
      split at h
      · cases h
      · cases h
        rfl
  | uint32 | uint64 | int32 | int64 | double =>
      simp only [htype, Except.ok.injEq, Option.map_eq_some_iff] at h
      obtain ⟨_, -, h⟩ := h
      cases h
      rfl

/-- Slots of a multi-line string, of which one has been put in place. -/
theorem multi_set {m : List (List Slot)} {slots : List Slot} {field : PresField}
    (hmulti : ∀ (n : Nat) (field : PresField), mod.fields[n]? = some field →
      field.type = .mlstring → ∀ s ∈ m.getD n [], ∀ v, s ≠ .value v)
    (hfield : mod.fields[n]? = some field)
    (hslots : field.type = .mlstring → ∀ s ∈ slots, s ∈ m.getD n [] ∨ ∀ v, s ≠ .value v) :
    ∀ (k : Nat) (field : PresField), mod.fields[k]? = some field → field.type = .mlstring →
      ∀ s ∈ (m.set n slots).getD k [], ∀ v, s ≠ .value v := by
  intro k field' hfield' htype s hs
  rw [getD_set_slots] at hs
  split at hs
  next hk =>
    obtain rfl := hk.1
    obtain rfl := Option.some.inj (hfield.symm.trans hfield')
    exact (hslots htype s hs).elim (hmulti n field hfield htype s) id
  next => exact hmulti k field' hfield' htype s hs

theorem mem_makePlace_multi {field : PresField} {slots : List Slot} (htype : field.type = .mlstring)
    {s : Slot} (hs : s ∈ makePlace field slots) : s ∈ slots ∨ ∀ v, s ≠ .value v := by
  unfold makePlace at hs
  split at hs
  · rcases List.mem_append.mp hs with hs | hs
    · exact Or.inl hs
    · right
      rw [List.mem_singleton.mp hs, htype]
      exact nofun
  · exact Or.inl hs

/-- **A line.** What an accepted line does to the closure, it says. -/
theorem PresStep.drafted {m : List (List Slot)} {d : Draft}
    (h : PresStep libc mod clos pres .success clos') (hsound : clos.Sound mod)
    (hdraft : Drafted mod clos m d) : ∃ m', Drafted mod clos' m' (d.line libc mod pres) := by
  generalize hres : Res.success = res at h
  cases h with
  | ready | unsplit => cases hres
  | @line n value res clos' keyval line hsplit step =>
      have hopened : d.opened = none := by
        rw [hdraft.opened, keyval]
        rfl
      have hmode : clos.mode ≠ .multiline := by
        rw [keyval]
        exact nofun
      cases step with
      | rejected => cases hres
      | closed placed multi multiline => exact absurd multiline hmode
      | appended placed multi multiline => exact absurd multiline hmode
      | @stored field m' slots value v size placed single hconvert =>
          obtain ⟨hfield, hm', rfl⟩ := placed
          obtain rfl := Option.some.inj (hdraft.message.symm.trans hm')
          have placed : FieldPlace mod clos n field m (makePlace field (m.getD n [])) :=
            ⟨hfield, hm', rfl⟩
          have hzero : convertValue libc field (placeOf field (makePlace field (m.getD n []))) value =
              convertValue libc field field.type.zeroSlot value :=
            convertValue_zeroSlot fun hshort => placeOf_low (placed.low hsound hshort) hshort
          have hline : d.line libc mod pres = { d with
              values := d.put n field (some v.extent)
              counted := d.counted + countedSize field.type v } := by
            simp only [Draft.line, hopened, hsplit, hfield, ← hzero, hconvert]
          rw [hline]
          refine ⟨_, rfl, d.put_storeSlot (.value v) hdraft.values, ?_, hdraft.texts, ?_, ?_⟩
          · exact multi_set hdraft.multi hfield fun h => absurd h single
          · exact hdraft.opened
          · rw [convertValue_size hconvert]
            exact congrArg (· + _) hdraft.counted
      | @opened field m' slots value placed multi keyval =>
          obtain ⟨hfield, hm', rfl⟩ := placed
          obtain rfl := Option.some.inj (hdraft.message.symm.trans hm')
          obtain ⟨field', hfield', -, hvalue⟩ := splitLine_field hsplit
          obtain rfl := Option.some.inj (hfield.symm.trans hfield')
          obtain rfl := hvalue.mpr multi
          have hline : d.line libc mod pres = { d with
              values := d.put n field none, opened := some n } := by
            simp only [Draft.line, hopened, hsplit, hfield]
          rw [hline]
          refine ⟨_, rfl, d.put_makePlace hdraft.values, ?_, hdraft.texts, rfl, hdraft.counted⟩
          exact multi_set hdraft.multi hfield fun htype s hs => mem_makePlace_multi htype hs
  | @text n res clos' multiline hn step =>
      have hopened : d.opened = some n := by
        rw [hdraft.opened, if_pos multiline, hn]
      obtain ⟨-, n', field', hn', hfield', hmulti, -⟩ := hsound.multiline multiline
      obtain rfl := Option.some.inj (hn.symm.trans hn')
      cases step with
      | rejected => cases hres
      | stored placed single hconvert =>
          exact absurd (Option.some.inj (hfield'.symm.trans placed.field_eq) ▸ hmulti) single
      | opened placed multi keyval =>
          rw [keyval] at multiline
          cases multiline
      | @closed field m' slots text id placed multi multiline descr stop =>
          obtain ⟨hfield, hm', rfl⟩ := placed
          obtain rfl := Option.some.inj (hdraft.message.symm.trans hm')
          have hextent : (if (clos.strbufs (id - 1)).data = none then Slot.null
              else .strbuf (clos.strbufs (id - 1)).len).extent =
                .octets (d.texts (id - 1)) := by
            rw [hdraft.texts]
            split
            next hnull =>
              rw [(hsound.strbufs _).null hnull]
              rfl
            next => rfl
          have hline : d.line libc mod pres = { d with
              values := d.put n field (some (.octets (d.texts (id - 1)))), opened := none } := by
            simp only [Draft.line, hopened, hfield, descr, Option.getD_some, if_pos stop]
          rw [hline, ← hextent]
          refine ⟨_, rfl, d.put_storeSlot _ hdraft.values, ?_, hdraft.texts, rfl, hdraft.counted⟩
          apply multi_set hdraft.multi hfield
          intro htype s hs
          rcases mem_storeSlot hs with hs | rfl
          · exact mem_makePlace_multi htype hs
          · right
            split <;> exact nofun
      | @appended field m' slots text id sb placed multi multiline descr htext happend =>
          obtain ⟨hfield, hm', rfl⟩ := placed
          obtain rfl := Option.some.inj (hdraft.message.symm.trans hm')
          obtain ⟨sb', -, hok, -, hpos, -⟩ := (hsound.strbufs (id - 1)).append pres
          obtain rfl := Except.ok.inj (happend.symm.trans hok)
          have hline : d.line libc mod pres = { d with
              values := d.put n field none
              texts := Function.update d.texts (id - 1) (d.texts (id - 1) + pres.length)
              counted := d.counted + pres.length } := by
            simp only [Draft.line, hopened, hfield, descr, Option.getD_some, if_neg htext]
          rw [hline]
          refine ⟨_, rfl, d.put_makePlace hdraft.values, ?_, ?_, ?_, ?_⟩
          · exact multi_set hdraft.multi hfield fun htype s hs => mem_makePlace_multi htype hs
          · intro k
            dsimp only
            rw [Function.update_apply, Function.update_apply]
            split
            · rw [hpos, hdraft.texts]
            · exact hdraft.texts k
          · exact hdraft.opened
          · exact congrArg (· + _) hdraft.counted

/-- **Lines.** What accepted lines do to the closure, they say. -/
theorem run_drafted {lines : List Bytes} : ∀ {clos clos' : MsgmodClos} {m : List (List Slot)}
    {d : Draft} {rs : List (Res × Option Bytes)}, clos.Sound mod →
      Drafted mod (clos.start mod) m d → run (presRead libc mod) clos lines = .ok (rs, clos') →
      (∀ answer ∈ rs, answer = (.success, none)) →
      ∃ m', Drafted mod (clos'.start mod) m' (lines.foldl (Draft.line libc mod) d) := by
  induction lines with
  | nil =>
      intro clos clos' m d rs hsound hdraft hrun haccepted
      cases hrun
      exact ⟨m, hdraft⟩
  | cons line lines ih =>
      intro clos clos' m d rs hsound hdraft hrun haccepted
      obtain ⟨answer, next, rs, hstep, hrest, rfl⟩ := run_cons_eq_ok.mp hrun
      have hanswer := haccepted answer (List.mem_cons_self ..)
      have hnext := presRead_sound hstep hsound
      rcases presRead_eq_ok.mp hstep with ⟨res, hpres, -, hres⟩ | ⟨_, payload, _, _, hres⟩
      · obtain ⟨rfl, -⟩ := Prod.mk.inj (hres.symm.trans hanswer)
        obtain ⟨m', hdraft'⟩ := (presToPayload_step hpres).drafted hsound.start hdraft
        rw [← @MsgmodClos.start_of_some mod _ _ hdraft'.message] at hdraft'
        exact ih hnext hdraft' hrest fun answer h => haccepted answer (List.mem_cons_of_mem _ h)
      · rw [hanswer] at hres
        cases hres

/-- **The buffer of a payload.** The accepted lines of a record make a payload that fits its buffer
exactly if what their values take on the wire is not more than twice what was counted, or 128 octets
where that is more. -/
theorem payload_fits_iff {size : WireSize} (hsize : mod.PacksTo size) {before lines : List Bytes}
    {out rs : List (Res × Option Bytes)} {used : MsgmodClos}
    (hbefore : run (presRead libc mod) .init before = .ok (out, used))
    (hbetween : used.nmsgPbuf = none)
    (hlines : run (presRead libc mod) used lines = .ok (rs, clos))
    (haccepted : ∀ answer ∈ rs, answer = (.success, none)) {slots : List (List Slot)}
    {m : FieldMessage} (hslots : (clos.start mod).nmsgPbuf = some slots)
    (hread : readFields (clos.start mod) mod.fields slots = .ok m) :
    (mod.pack m).length ≤ (clos.start mod).allocated ↔
      (draftOf libc mod lines).wireSize size mod ≤
        2 * max 64 (draftOf libc mod lines).counted := by
  have hsound := presRun_sound hbefore
  obtain ⟨hestsz, hpos⟩ := (presRun_owned hbefore).idle hbetween
  have hstart : Drafted mod (used.start mod) mod.zeroSlots (Draft.start mod) := by
    rw [MsgmodClos.start_of_none hbetween]
    refine ⟨rfl, ?_, ?_, fun k => (hpos k).symm, rfl, hestsz.symm⟩
    · rw [Draft.start, PresModule.zeroSlots, List.map_map]
      apply List.map_congr_left
      intro field _
      dsimp only [Function.comp_apply]
      split
      · rw [List.map_singleton, zeroSlot_extent]
      · rfl
    · intro n field hfield htype s hs
      rw [PresModule.zeroSlots, List.getD_eq_getElem?_getD, List.getElem?_map, hfield] at hs
      dsimp only [Option.map_some, Option.getD_some] at hs
      split at hs
      · rw [List.mem_singleton.mp hs, htype]
        rintro _ ⟨⟩
      · cases hs
  obtain ⟨m', hdraft⟩ := run_drafted hsound hstart hlines haccepted
  obtain rfl := Option.some.inj (hdraft.message.symm.trans hslots)
  have hwire : (mod.pack m).length = (draftOf libc mod lines).wireSize size mod := by
    rw [hsize m, readFields_wireSize size hdraft.multi hread, Draft.wireSize, draftOf, hdraft.values]
  rw [hwire, MsgmodClos.allocated, ← hdraft.counted, max_comm]
  rfl

/-- Numbers as varints, of the first field of a message. -/
def packNumbers (m : FieldMessage) : Bytes :=
  (m.headD []).flatMap fun
    | .dword v => 8 :: WireFormat.varint v.toNat
    | _ => []

def numbersSize : WireSize := fun _ values =>
  (values.map fun
    | .dword v => WireFormat.varintSize v.toNat + 1
    | _ => 0).sum

theorem oneField_packsTo (type : FieldType) (label : FieldLabel) :
    (oneField type label packNumbers).PacksTo numbersSize := by
  intro m
  cases m with
  | nil => rfl
  | cons values m =>
      have hvalue : ∀ v : FieldValue, (match v with
          | .dword v => 8 :: WireFormat.varint v.toNat
          | _ => []).length = match v.extent with
            | .dword v => WireFormat.varintSize v.toNat + 1
            | _ => 0 := by
        intro v
        cases v <;> rfl
      have hzip : (oneField type label packNumbers).fields.zip (values :: m) =
          [((oneField type label packNumbers).fields.head (List.cons_ne_nil _ _), values)] := rfl
      rw [hzip, List.map_singleton, List.sum_singleton]
      change (values.flatMap _).length = (List.map _ (List.map _ values)).sum
      rw [List.length_flatMap, List.map_map]
      exact congrArg List.sum (List.map_congr_left fun v _ => hvalue v)

/-- A record of one number. -/
theorem payload_fits_iff_sample :
    ∃ clos slots m, run (presRead plainLibc (oneField .uint64 .repeated packNumbers)) .init
        [[110, 58, 32, 53, 10]] = .ok ([(.success, none)], clos) ∧
      readFields (clos.start (oneField .uint64 .repeated packNumbers))
        (oneField .uint64 .repeated packNumbers).fields slots = .ok m ∧
      ((packNumbers m).length ≤
          (clos.start (oneField .uint64 .repeated packNumbers)).allocated ↔
        (draftOf plainLibc (oneField .uint64 .repeated packNumbers)
            [[110, 58, 32, 53, 10]]).wireSize numbersSize
              (oneField .uint64 .repeated packNumbers) ≤
          2 * max 64 (draftOf plainLibc (oneField .uint64 .repeated packNumbers)
            [[110, 58, 32, 53, 10]]).counted) := by
  have hlines : ∃ clos slots m, run (presRead plainLibc (oneField .uint64 .repeated packNumbers)) .init
      [[110, 58, 32, 53, 10]] = .ok ([(.success, none)], clos) ∧
      (clos.start (oneField .uint64 .repeated packNumbers)).nmsgPbuf = some slots ∧
      readFields (clos.start (oneField .uint64 .repeated packNumbers))
        (oneField .uint64 .repeated packNumbers).fields slots = .ok m := ⟨_, _, _, rfl, rfl, rfl⟩
  obtain ⟨clos, slots, m, hlines, hslots, hread⟩ := hlines
  exact ⟨clos, slots, m, hlines, hread, payload_fits_iff (oneField_packsTo .uint64 .repeated)
    (run_nil _) rfl hlines (by decide) hslots hread⟩

/-- Twelve numbers of ten octets each, with their tags, in a buffer of 128 octets. -/
theorem numbers_overflow :
    ∃ clos slots m, run (presRead plainLibc (oneField .uint64 .repeated packNumbers)) .init
        (List.replicate 12 [110, 58, 32, 57, 50, 50, 51, 51, 55, 50, 48, 51, 54, 56, 53, 52, 55, 55, 53, 56,
          48, 56, 10]) = .ok (List.replicate 12 (.success, none), clos) ∧
      (clos.start (oneField .uint64 .repeated packNumbers)).nmsgPbuf = some slots ∧
      readFields (clos.start (oneField .uint64 .repeated packNumbers))
        (oneField .uint64 .repeated packNumbers).fields slots = .ok m ∧
      ¬ (packNumbers m).length ≤ (clos.start (oneField .uint64 .repeated packNumbers)).allocated := by
  refine ⟨_, _, _, rfl, rfl, rfl, ?_⟩
  decide +kernel

end Nmsg

import Nmsg.Msgmod.Raw
import Nmsg.Proof.FailedSet

/-!
# Messages in memory and their values

How a message lies in memory: what is in the slots of its fields, and which blocks belong to which
field. What a call does to the slots and blocks of one field leaves the other fields as they are.
-/

namespace Nmsg

open Heap Octets

/-! ### Numbers -/

@[simp]
theorem length_leBytes (width n : Nat) : (leBytes width n).length = width := by
  rw [leBytes, List.length_reverse, length_beBytes]

theorem leNat_leBytes {width n : Nat} (h : n < 256 ^ width) : leNat (leBytes width n) = n := by
  rw [leNat, leBytes, List.reverse_reverse, beNat_beBytes_of_lt h]

theorem leBytes_leNat (b : Bytes) : leBytes b.length (leNat b) = b := by
  rw [leBytes, leNat, ← List.length_reverse, beBytes_beNat, List.reverse_reverse]

theorem leNat_lt (b : Bytes) : leNat b < 256 ^ b.length := by
  rw [leNat, ← List.length_reverse]
  exact beNat_lt _

/-! ### Modules -/

/-- The type of protobuf that a field of the type has. -/
def FieldType.protobuf : FieldType → ProtobufCType
  | .enum => .enum
  | .bytes | .string | .mlstring | .ip => .bytes
  | .uint16 | .uint32 => .uint32
  | .uint64 => .uint64
  | .int16 | .int32 => .int32
  | .int64 => .int64
  | .double => .double
  | .bool => .bool

/-- The size of a slot. -/
def FieldType.slotSize (type : FieldType) : Nat :=
  sizeofEltInRepeatedArray type.protobuf

/-- The places in the structure that a field takes up, each with its offset and its size. -/
def regions (field : MsgmodField) (d : FieldDescr) : List (Nat × Nat) :=
  match field.label with
  | .required => [(d.offset, field.type.slotSize)]
  | .optional => [(d.offset, field.type.slotSize), (d.quantifierOffset, 4)]
  | .repeated => [(d.offset, 8), (d.quantifierOffset, 4)]

/-- Two places that do not overlap. -/
def ApartFrom (r r' : Nat × Nat) : Prop :=
  r.1 + r.2 ≤ r'.1 ∨ r'.1 + r'.2 ≤ r.1

/-- The field of the module with the index, and its descriptor. -/
structure RawModule.FieldAt (mod : RawModule) (f : Nat) (field : MsgmodField) (d : FieldDescr) :
    Prop where
  field_eq : mod.mod.fields[f]? = some field
  descr_eq : mod.descrs[f]? = some d
  hasGet : field.hasGet = false

/-- The descriptors are of the types that the module gives, and the fields do not overlap. -/
structure RawModule.LaidOut (mod : RawModule) : Prop where
  descr : ∀ {f : Nat} {field : MsgmodField}, mod.mod.fields[f]? = some field → field.hasGet = false →
    ∃ d, mod.descrs[f]? = some d
  type_eq : ∀ {f field d}, mod.FieldAt f field d → d.type = field.type.protobuf
  within : ∀ {f field d}, mod.FieldAt f field d → (regions field d).Pairwise ApartFrom
  apart : ∀ {f field d f' field' d'}, mod.FieldAt f field d → mod.FieldAt f' field' d' → f' ≠ f →
    ∀ r ∈ regions field d, ∀ r' ∈ regions field' d', ApartFrom r r'

/-! ### What is in memory -/

/-- What a block is for. -/
inductive BlockOwner where
  | message
  | array (f : Nat)
  | octets (f i : Nat)
deriving DecidableEq

/-- The field that a block belongs to. -/
def BlockOwner.field : BlockOwner → Option Nat
  | message => none
  | array f => some f
  | octets f _ => some f

/-- The octets of a value as they are handed to the user. -/
def FieldValue.octets : FieldValue → Bytes
  | word v => leBytes 4 v.toNat
  | dword v => leBytes 8 v.toNat
  | data b => b

/-- The octet string is in a block of its own at the address, or it is empty. -/
def OctetsAt (heap : Heap) (owners : UInt64 → Option BlockOwner) (o : BlockOwner) (a : UInt64) (b : Bytes) :
    Prop :=
  a = 0 ∧ b = [] ∨ a ≠ 0 ∧ owners a = some o ∧ ∃ blk, heap.block a = some blk ∧ b <+: blk

/-- The slot at `p` holds the value. -/
def SlotHolds (heap : Heap) (owners : UInt64 → Option BlockOwner) (o : BlockOwner) (p : Pointer)
    (type : FieldType) : FieldValue → Prop
  | .word w => heap.load p 4 = some (leBytes 4 w.toNat) ∧ (type = .bool → w.toNat < 2)
  | .dword w => heap.load p 8 = some (leBytes 8 w.toNat)
  | .data b => b.length < 2 ^ 64 ∧ ∃ a : UInt64,
      heap.load p 16 = some (leBytes 8 b.length ++ leBytes 8 a.toNat) ∧ OctetsAt heap owners o a b

/-- The array of a repeated field, with at least so many slots. -/
def ArrayAt (heap : Heap) (owners : UInt64 → Option BlockOwner) (f : Nat) (a : UInt64) (n size : Nat) :
    Prop :=
  a = 0 ∧ n = 0 ∨ a ≠ 0 ∧ owners a = some (.array f) ∧
    ∃ blk, heap.block a = some blk ∧ n * size ≤ blk.length

/-- The slots of the field start at `base`, and so many of them count as values. -/
def Based (heap : Heap) (owners : UInt64 → Option BlockOwner) (msg : UInt64) (field : MsgmodField)
    (d : FieldDescr) (f : Nat) (base : Pointer) (slots count : Nat) : Prop :=
  match field.label with
  | .required => base = ⟨msg, d.offset⟩ ∧ slots = 1 ∧ count = 1
  | .optional => base = ⟨msg, d.offset⟩ ∧ slots = 1 ∧ count ≤ 1 ∧
      heap.load ⟨msg, d.quantifierOffset⟩ 4 = some (leBytes 4 count)
  | .repeated => base.offset = 0 ∧ slots = count ∧ count < 2 ^ 32 ∧
      heap.load ⟨msg, d.quantifierOffset⟩ 4 = some (leBytes 4 count) ∧
      heap.load ⟨msg, d.offset⟩ 8 = some (leBytes 8 base.block.toNat) ∧
      ArrayAt heap owners f base.block count field.type.slotSize

/-- The slots of a field, the first `count` of which are its values. -/
structure FieldSlots (heap : Heap) (owners : UInt64 → Option BlockOwner) (msg : UInt64)
    (field : MsgmodField) (d : FieldDescr) (f : Nat) (base : Pointer) (slots : List FieldValue)
    (count : Nat) : Prop where
  based : Based heap owners msg field d f base slots.length count
  ofType : ∀ v ∈ slots, v.OfType field.type
  holds : ∀ i v, slots[i]? = some v →
    SlotHolds heap owners (.octets f i) (base.add (field.type.slotSize * i)) field.type v

/-- The message lies at the address. -/
structure MessageAt (mod : RawModule) (heap : Heap) (owners : UInt64 → Option BlockOwner) (msg : UInt64)
    (m : FieldMessage) : Prop where
  ne : msg ≠ 0
  owner : owners msg = some .message
  holds : mod.mod.Holds m
  fields : ∀ f field d, mod.FieldAt f field d → ∃ base slots,
    FieldSlots heap owners msg field d f base slots (m.getD f []).length ∧
      m.getD f [] = slots.take (m.getD f []).length

section Frame

variable {mod : RawModule} {heap heap' heap'' : Heap} {owners owners' owners'' : UInt64 → Option BlockOwner}
  {msg a : UInt64} {field : MsgmodField} {d : FieldDescr} {f i n count : Nat} {base p q : Pointer}
  {slots : List FieldValue} {o : BlockOwner} {type : FieldType} {v : FieldValue} {m : FieldMessage}
  {src b : Bytes}

/-! ### Slots that stay -/

/-- The blocks of the owner are the same. -/
def SameBlocks (heap : Heap) (owners : UInt64 → Option BlockOwner) (heap' : Heap)
    (owners' : UInt64 → Option BlockOwner) (o : BlockOwner) : Prop :=
  ∀ a, owners a = some o → heap.block a ≠ none → heap'.block a = heap.block a ∧ owners' a = some o

theorem OctetsAt.congr (h : OctetsAt heap owners o a b)
    (hsame : SameBlocks heap owners heap' owners' o) : OctetsAt heap' owners' o a b := by
  rcases h with h | ⟨hne, howner, blk, hblock, hstart⟩
  · exact Or.inl h
  · obtain ⟨hblock', howner'⟩ := hsame a howner (by rw [hblock]; exact Option.some_ne_none blk)
    exact Or.inr ⟨hne, howner', blk, hblock'.trans hblock, hstart⟩

theorem SlotHolds.congr (h : SlotHolds heap owners o p type v) (htype : v.OfType type)
    (hload : heap'.load q type.slotSize = heap.load p type.slotSize)
    (hsame : SameBlocks heap owners heap' owners' o) : SlotHolds heap' owners' o q type v := by
  cases v with
  | word w =>
      have hsize : type.slotSize = 4 := by
        cases type <;> simp [FieldValue.OfType] at htype <;> rfl
      rw [hsize] at hload
      exact ⟨hload.trans h.1, h.2⟩
  | dword w =>
      have hsize : type.slotSize = 8 := by
        cases type <;> simp [FieldValue.OfType] at htype <;> rfl
      rw [hsize] at hload
      exact hload.trans h
  | data b =>
      have hsize : type.slotSize = 16 := by
        cases type <;> simp [FieldValue.OfType] at htype <;> rfl
      rw [hsize] at hload
      obtain ⟨hlength, a, hslot, hoctets⟩ := h
      exact ⟨hlength, a, hload.trans hslot, hoctets.congr hsame⟩

theorem ArrayAt.congr (h : ArrayAt heap owners f a n count)
    (hsame : SameBlocks heap owners heap' owners' (.array f)) :
    ArrayAt heap' owners' f a n count := by
  rcases h with h | ⟨hne, howner, blk, hblock, hlength⟩
  · exact Or.inl h
  · obtain ⟨hblock', howner'⟩ := hsame a howner (by rw [hblock]; exact Option.some_ne_none blk)
    exact Or.inr ⟨hne, howner', blk, hblock'.trans hblock, hlength⟩

/-- The places of a field in the structure hold the same octets. -/
def SameRegions (heap heap' : Heap) (msg : UInt64) (field : MsgmodField) (d : FieldDescr) : Prop :=
  ∀ r ∈ regions field d, heap'.load ⟨msg, r.1⟩ r.2 = heap.load ⟨msg, r.1⟩ r.2

theorem Based.congr {slots : Nat} (h : Based heap owners msg field d f base slots count)
    (hregions : SameRegions heap heap' msg field d)
    (hsame : SameBlocks heap owners heap' owners' (.array f)) :
    Based heap' owners' msg field d f base slots count := by
  unfold Based at h ⊢
  unfold SameRegions regions at hregions
  cases hlabel : field.label with
  | required => simpa only [hlabel] using h
  | optional =>
      simp only [hlabel, List.forall_mem_cons] at h hregions ⊢
      obtain ⟨hbase, hslots, hcount, hflag⟩ := h
      exact ⟨hbase, hslots, hcount, hregions.2.1.trans hflag⟩
  | repeated =>
      simp only [hlabel, List.forall_mem_cons] at h hregions ⊢
      obtain ⟨hbase, hslots, hcount, hload, harray, hat⟩ := h
      exact ⟨hbase, hslots, hcount, hregions.2.1.trans hload, hregions.1.trans harray, hat.congr hsame⟩

/-- What belongs to a field stays, and so do its values. -/
theorem FieldSlots.congr (h : FieldSlots heap owners msg field d f base slots count)
    (hregions : SameRegions heap heap' msg field d)
    (hsame : ∀ o, o.field = some f → SameBlocks heap owners heap' owners' o) :
    FieldSlots heap' owners' msg field d f base slots count := by
  refine ⟨h.based.congr hregions (hsame _ rfl), h.ofType, fun i v hv => ?_⟩
  refine (h.holds i v hv).congr (h.ofType v (List.mem_of_getElem? hv)) ?_ (hsame _ rfl)
  have hlt := (List.getElem?_eq_some_iff.mp hv).1
  have hbased := h.based
  unfold Based at hbased
  unfold SameRegions regions at hregions
  cases hlabel : field.label with
  | required =>
      simp only [hlabel, List.forall_mem_cons] at hbased hregions
      obtain ⟨rfl, hslots, -⟩ := hbased
      obtain rfl : i = 0 := by omega
      exact hregions.1
  | optional =>
      simp only [hlabel, List.forall_mem_cons] at hbased hregions
      obtain ⟨rfl, hslots, -⟩ := hbased
      obtain rfl : i = 0 := by omega
      exact hregions.1
  | repeated =>
      simp only [hlabel] at hbased
      obtain ⟨-, hslots, -, -, -, hat⟩ := hbased
      rcases hat with ⟨-, hcount⟩ | ⟨-, howner, blk, hblock, -⟩
      · omega
      · apply load_congr
        exact (hsame _ rfl _ howner (by rw [hblock]; exact Option.some_ne_none blk)).1

/-! ### Changes of one field -/

/-- Nothing is different but what belongs to the field `f`. -/
structure FieldChange (mod : RawModule) (heap : Heap) (owners : UInt64 → Option BlockOwner) (heap' : Heap)
    (owners' : UInt64 → Option BlockOwner) (msg : UInt64) (f : Nat) : Prop where
  same : ∀ f' field d, mod.FieldAt f' field d → f' ≠ f → SameRegions heap heap' msg field d
  blocks : ∀ o f', o.field = some f' → f' ≠ f → SameBlocks heap owners heap' owners' o
  owner : owners' msg = owners msg

theorem SameBlocks.trans (h : SameBlocks heap owners heap' owners' o)
    (h' : SameBlocks heap' owners' heap'' owners'' o) : SameBlocks heap owners heap'' owners'' o := by
  intro a howner hblock
  obtain ⟨hblock', howner'⟩ := h a howner hblock
  obtain ⟨hblock'', howner''⟩ := h' a howner' (by rwa [hblock'])
  exact ⟨hblock''.trans hblock', howner''⟩

theorem FieldChange.refl : FieldChange mod heap owners heap owners msg f :=
  ⟨fun _ _ _ _ _ _ _ => rfl, fun _ _ _ _ _ howner _ => ⟨rfl, howner⟩, rfl⟩

theorem FieldChange.trans (h : FieldChange mod heap owners heap' owners' msg f)
    (h' : FieldChange mod heap' owners' heap'' owners'' msg f) :
    FieldChange mod heap owners heap'' owners'' msg f where
  same := fun f' field d hfield hne r hr =>
    (h'.same f' field d hfield hne r hr).trans (h.same f' field d hfield hne r hr)
  blocks := fun o f' hf' hne => (h.blocks o f' hf' hne).trans (h'.blocks o f' hf' hne)
  owner := h'.owner.trans h.owner

/-- A store to a place of the field in the structure. -/
theorem FieldChange.store (hlaid : mod.LaidOut) (hfield : mod.FieldAt f field d)
    (howner : owners msg = some .message) {r : Nat × Nat} (hr : r ∈ regions field d) {k : Nat}
    (hstore : heap.store ⟨msg, r.1 + k⟩ src = some heap') (hle : k + src.length ≤ r.2) :
    FieldChange mod heap owners heap' owners msg f where
  same := by
    intro f' field' d' hfield' hne r' hr'
    apply load_of_store_ne hstore
    right
    have hapart := hlaid.apart hfield hfield' hne r hr r' hr'
    unfold ApartFrom at hapart
    dsimp only
    omega
  blocks := by
    intro o f' hf' hne a ha _
    refine ⟨block_of_store hstore ?_, ha⟩
    rintro rfl
    obtain rfl := Option.some.inj (howner.symm.trans ha)
    cases hf'
  owner := rfl

/-- A change of blocks that belong to the field, or that were not in use. -/
theorem FieldChange.of_blocks (howner : owners msg = some .message) (hmsg : heap.block msg ≠ none)
    (h : ∀ a, heap.block a ≠ none → (∀ o, owners a = some o → o.field ≠ some f) →
      heap'.block a = heap.block a ∧ owners' a = owners a) :
    FieldChange mod heap owners heap' owners' msg f := by
  have hmessage := h msg hmsg (by
    intro o ho
    obtain rfl := Option.some.inj (howner.symm.trans ho)
    exact nofun)
  refine ⟨fun f' field d _ _ r _ => load_congr hmessage.1, ?_, hmessage.2⟩
  intro o f' hf' hne a ha hblock
  obtain ⟨hblock', howner'⟩ := h a hblock (by
    intro o' ho'
    obtain rfl := Option.some.inj (ha.symm.trans ho')
    rw [hf']
    exact fun heq => hne (Option.some.inj heq))
  exact ⟨hblock', howner'.trans ha⟩

/-- The message with other values of one field, after a change of that field. -/
theorem MessageAt.change (h : MessageAt mod heap owners msg m)
    (hchange : FieldChange mod heap owners heap' owners' msg f) (hfield : mod.FieldAt f field d)
    {vals : List FieldValue} (hholds : field.Holds vals)
    (hslots : FieldSlots heap' owners' msg field d f base slots vals.length)
    (hvals : vals = slots.take vals.length) : MessageAt mod heap' owners' msg (m.set f vals) := by
  refine ⟨h.ne, hchange.owner.trans h.owner, h.holds.set hfield.field_eq hholds, ?_⟩
  intro f' field' d' hfield'
  by_cases hf : f' = f
  · subst hf
    obtain rfl := Option.some.inj (hfield.field_eq.symm.trans hfield'.field_eq)
    obtain rfl := Option.some.inj (hfield.descr_eq.symm.trans hfield'.descr_eq)
    have hlt : f' < m.length := by
      rw [← h.holds.length_eq]
      exact (List.getElem?_eq_some_iff.mp hfield.field_eq).1
    have hget : (m.set f' vals).getD f' [] = vals := by
      rw [List.getD_eq_getElem?_getD, List.getElem?_set_self hlt, Option.getD_some]
    rw [hget]
    exact ⟨base, slots, hslots, hvals⟩
  · have hget : (m.set f vals).getD f' [] = m.getD f' [] := by
      rw [List.getD_eq_getElem?_getD, List.getElem?_set_ne (Ne.symm hf), ← List.getD_eq_getElem?_getD]
    obtain ⟨base', slots', hslots', hvals'⟩ := h.fields f' field' d' hfield'
    rw [hget]
    refine ⟨base', slots', hslots'.congr (hchange.same f' field' d' hfield' hf) ?_, hvals'⟩
    exact fun o ho => hchange.blocks o f' ho hf

end Frame

end Nmsg

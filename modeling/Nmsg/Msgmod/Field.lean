import Nmsg.Message

/-!
# Fields of message modules

A transparent module describes the fields of its messages. In memory a field is a slot of 32 or 64
bits or an octet string, and which values of it are there depends on its label.
-/

namespace Nmsg

/-- `nmsg_msgmod_field_type` -/
inductive FieldType where
  | enum
  | bytes
  | string
  | mlstring
  | ip
  | uint16
  | uint32
  | uint64
  | int16
  | int32
  | int64
  | double
  | bool
deriving DecidableEq

/-- `ProtobufCLabel` -/
inductive FieldLabel where
  | required
  | optional
  | repeated
deriving DecidableEq

/-- The value in a slot. -/
inductive FieldValue where
  | word (v : UInt32)
  | dword (v : UInt64)
  | data (b : Bytes)
deriving DecidableEq

/-- `struct nmsg_msgmod_field`. `hasGet` tells whether there is a `get` function, and `enumValues`
are the values of the enumeration of the descriptor with their names. -/
structure MsgmodField where
  type : FieldType
  name : Bytes
  label : FieldLabel
  hidden : Bool
  noprint : Bool
  hasGet : Bool
  enumValues : List (Bytes × UInt32)
deriving DecidableEq

/-- The kind of slot a type has. -/
def FieldValue.OfType : FieldValue → FieldType → Prop
  | word _, t => t ∈ [FieldType.enum, .uint16, .uint32, .int16, .int32, .bool]
  | dword _, t => t ∈ [FieldType.uint64, .int64, .double]
  | data _, t => t ∈ [FieldType.bytes, .string, .mlstring, .ip]

/-- A slot of zeros. -/
def FieldType.zero : FieldType → FieldValue
  | bytes | string | mlstring | ip => .data []
  | uint64 | int64 | double => .dword 0
  | _ => .word 0

theorem FieldType.zero_ofType (t : FieldType) : t.zero.OfType t := by
  cases t <;> simp [FieldType.zero, FieldValue.OfType]

/-- The number of values that a label allows. -/
def FieldLabel.Allows : FieldLabel → Nat → Prop
  | required, n => n = 1
  | optional, n => n ≤ 1
  | repeated, _ => True

/-- The values of a field that are there, slots of its type and as many as its label allows. -/
structure MsgmodField.Holds (field : MsgmodField) (vals : List FieldValue) : Prop where
  count : field.label.Allows vals.length
  ofType : ∀ val ∈ vals, val.OfType field.type

/-- A message in memory: for each field the values that are there. -/
abbrev FieldMessage := List (List FieldValue)

/-- `struct nmsg_msgmod` of a transparent module with a descriptor, and the functions of protobuf-c
for that descriptor. -/
structure Msgmod where
  vid : UInt32
  msgtype : UInt32
  fields : List MsgmodField
  pack : FieldMessage → Bytes
  unpack : Bytes → Option FieldMessage

/-- A message of the module, with the octets it packs to. -/
def Msgmod.message (mod : Msgmod) (m : FieldMessage) : ModuleMessage :=
  ⟨mod.vid, mod.msgtype, mod.pack m⟩

/-- A message of the module. -/
def Msgmod.Holds (mod : Msgmod) (m : FieldMessage) : Prop :=
  List.Forall₂ MsgmodField.Holds mod.fields m

/-- What is packed can be unpacked, and what is unpacked is a message of the module. -/
structure Msgmod.Lawful (mod : Msgmod) : Prop where
  unpack_pack : ∀ m, mod.Holds m → mod.unpack (mod.pack m) = some m
  unpack_holds : ∀ b m, mod.unpack b = some m → mod.Holds m

/-- A message of zeros. -/
def Msgmod.zero (mod : Msgmod) : FieldMessage :=
  mod.fields.map fun field => if field.label = .required then [field.type.zero] else []

theorem Msgmod.zero_holds (mod : Msgmod) : mod.Holds mod.zero := by
  unfold Msgmod.Holds Msgmod.zero
  induction mod.fields with
  | nil => exact List.Forall₂.nil
  | cons field fields ih =>
      refine List.Forall₂.cons ⟨?_, ?_⟩ ih
      · cases hlabel : field.label <;> simp [FieldLabel.Allows, hlabel]
      · intro val hval
        by_cases hlabel : field.label = .required
        · simp only [hlabel, if_true, List.mem_singleton] at hval
          exact hval ▸ FieldType.zero_ofType field.type
        · simp [hlabel] at hval

end Nmsg

import Nmsg.Lib.Heap
import Nmsg.Msgmod.Access

/-!
# Messages as they lie in memory

The structure that protobuf-c keeps a message in, reached through the offsets of the descriptors of
its fields: a slot for each required or optional field, a pointer to an array of slots for a repeated
one, and a flag or a count for the last two. The host stores the low octet of a number first.
-/

namespace Nmsg

open Heap Octets

/-- The low octets of a number as the host stores them. -/
def leBytes (width n : Nat) : Bytes := (beBytes width n).reverse

/-- `ProtobufCType` -/
inductive ProtobufCType where
  | int32
  | sint32
  | sfixed32
  | int64
  | sint64
  | sfixed64
  | uint32
  | fixed32
  | uint64
  | fixed64
  | float
  | double
  | bool
  | enum
  | string
  | bytes
  | message
deriving DecidableEq

/-- `sizeof_elt_in_repeated_array` -/
def sizeofEltInRepeatedArray : ProtobufCType → Nat
  | .sint32 | .int32 | .uint32 | .sfixed32 | .fixed32 | .float | .enum => 4
  | .sint64 | .int64 | .uint64 | .sfixed64 | .fixed64 | .double => 8
  | .bool => 4
  | .string | .message => 8
  | .bytes => 16

/-- `ProtobufCFieldDescriptor`, but for the label. -/
structure FieldDescr where
  type : ProtobufCType
  offset : Nat
  quantifierOffset : Nat

/-- A transparent module, with the descriptors of its fields. That of a field with a `get` function
is not looked at. -/
structure RawModule where
  mod : Msgmod
  descrs : List FieldDescr

/-- `struct nmsg_message` of such a module, with the address of the message or the null pointer. -/
structure RawObject where
  module : RawModule
  message : UInt64
  np : Option NmsgPayload
  updated : Bool
  heap : Heap

/-- What a message object is used with: the allocator, `protobuf_c_message_unpack` for the descriptor
of the module, and the `get` functions of its fields. -/
structure RawEnv where
  alloc : Allocator
  unpack : Heap → Bytes → Option (UInt64 × Heap)
  get : RawObject → MsgmodField → UInt32 → Except Abort (Res × Option (Pointer × Nat))

/-! ### Access -/

/-- The octets at `p`. -/
def loadAt (heap : Heap) (p : Pointer) (n : Nat) : Except Abort Bytes :=
  match heap.load p n with
  | none => .error .outOfBounds
  | some b => .ok b

/-- Octets copied to `p`. -/
def storeAt (heap : Heap) (p : Pointer) (src : Bytes) : Except Abort Heap :=
  match heap.store p src with
  | none => .error .outOfBounds
  | some heap => .ok heap

/-- `if (data != NULL) free(data)` -/
def freeAt (heap : Heap) (data : UInt64) : Except Abort Heap :=
  if data = 0 then .ok heap
  else
    match heap.free data with
    | none => .error .outOfBounds
    | some heap => .ok heap

/-- The number at `p`. -/
def loadNat (heap : Heap) (p : Pointer) (n : Nat) : Except Abort Nat :=
  (loadAt heap p n).map leNat

/-- The count or the flag of a field, `(unsigned) *PBFIELD_Q(message, field)`. -/
def loadCount (heap : Heap) (self : UInt64) (d : FieldDescr) : Except Abort UInt32 :=
  (loadNat heap ⟨self, d.quantifierOffset⟩ 4).map .ofNat

/-- The pointer at `p`. -/
def loadPointer (heap : Heap) (p : Pointer) : Except Abort UInt64 :=
  (loadNat heap p 8).map .ofNat

/-! ### Reading a field -/

/-- Where `nmsg_message_get_field_by_idx` finds the value, by the label of the field. -/
def findValue (heap : Heap) (self : UInt64) (field : MsgmodField) (d : FieldDescr)
    (valIdx : UInt32) : Except Abort (Option Pointer) :=
  match field.label with
  | .repeated => do
      let count ← loadCount heap self d
      if valIdx ≥ count then
        return none
      else
        let array ← loadPointer heap ⟨self, d.offset⟩
        return some ⟨array, sizeofEltInRepeatedArray d.type * valIdx.toNat⟩
  | .optional => do
      let count ← loadCount heap self d
      return if valIdx ≥ count ∨ valIdx > 0 then none else some ⟨self, d.offset⟩
  | .required => return if valIdx > 0 then none else some ⟨self, d.offset⟩

/-- What `nmsg_message_get_field_by_idx` hands over of the slot at `p`, by the type of the field:
a pointer to the octets, and their number. -/
def handOver (heap : Heap) (type : FieldType) (p : Pointer) :
    Except Abort (Option (Pointer × Nat)) :=
  if p.block = 0 then .error .assertion
  else
    match type with
    | .ip | .bytes | .string | .mlstring => do
        let len ← loadNat heap p 8
        if type = .ip ∧ len ≠ 4 ∧ len ≠ 16 then
          return none
        else
          let data ← loadPointer heap (p.add 8)
          return some (⟨data, 0⟩, len)
    | .bool | .enum | .int16 | .uint16 | .int32 | .uint32 => return some (p, 4)
    | .int64 | .uint64 | .double => return some (p, 8)

/-! ### Setting a field -/

/-- `(size_t) *qptr`, where the count is an `int`. -/
def sizeOfInt (count : UInt32) : Nat :=
  if count.toNat < 2 ^ 31 then count.toNat else count.toNat + (2 ^ 64 - 2 ^ 32)

/-- Where the value is to go, or the result of the call if it goes nowhere. -/
inductive Room where
  | refused (res : Res)
  | slot (p : Pointer)

/-- The array of a repeated field with `needed` octets, of which those after `used` are zero. Without
memory for it the field is left empty. -/
def reallocArray (A : Allocator) (heap : Heap) (self : UInt64) (d : FieldDescr) (array : UInt64)
    (used needed : Nat) : Except Abort (Option UInt64 × Heap) :=
  if array ≠ 0 ∧ heap.block array = none then .error .outOfBounds
  else
    match realloc A heap array needed with
    | none => do
        let heap ← freeAt heap array
        let heap ← storeAt heap ⟨self, d.quantifierOffset⟩ (leBytes 4 0)
        let heap ← storeAt heap ⟨self, d.offset⟩ (leBytes 8 0)
        return (none, heap)
    | some (array, heap) => do
        let heap ← storeAt heap ⟨self, d.offset⟩ (leBytes 8 array.toNat)
        let heap ← storeAt heap ⟨array, used⟩ (List.replicate (needed - used) 0)
        return (some array, heap)

/-- The array of a repeated field with room for the index. The count is an `int`, which may not be
incremented past its largest value. -/
def growArray (A : Allocator) (heap : Heap) (self : UInt64) (d : FieldDescr) (count valIdx : UInt32) :
    Except Abort (Room × Heap) :=
  if valIdx = count ∧ count.toNat = 2 ^ 31 - 1 then .error .signedOverflow
  else do
    let sz := sizeofEltInRepeatedArray d.type
    let used := sizeOfInt count * sz % 2 ^ 64
    let count' := if valIdx = count then count + 1 else count
    let heap ← if valIdx = count then
        storeAt heap ⟨self, d.quantifierOffset⟩ (leBytes 4 count'.toNat)
      else pure heap
    let needed := sizeOfInt count' * sz % 2 ^ 64
    if used > needed then .error .assertion
    else
      let array ← loadPointer heap ⟨self, d.offset⟩
      let (array, heap) ←
        if used < needed then reallocArray A heap self d array used needed
        else pure (some array, heap)
      match array with
      | none => return (.refused .memfail, heap)
      | some array => return (.slot ⟨array, sz * valIdx.toNat⟩, heap)

/-- How `nmsg_message_set_field_by_idx` makes room for the value, by the label of the field. -/
def makeRoomAt (A : Allocator) (heap : Heap) (self : UInt64) (field : MsgmodField) (d : FieldDescr)
    (valIdx : UInt32) : Except Abort (Room × Heap) :=
  match field.label with
  | .repeated => do
      let count ← loadCount heap self d
      if valIdx ≤ count then
        growArray A heap self d count valIdx
      else
        return (.refused .failure, heap)
  | .optional => do
      let heap ← if valIdx = 0 then storeAt heap ⟨self, d.quantifierOffset⟩ (leBytes 4 1)
        else pure heap
      return (if valIdx > 0 then .refused .failure else .slot ⟨self, d.offset⟩, heap)
  | .required =>
      return (if valIdx > 0 then .refused .failure else .slot ⟨self, d.offset⟩, heap)

/-- The user's octets in the slot at `p`, in place of a pointer to other octets. -/
def storeOctets (A : Allocator) (heap : Heap) (p : Pointer) (data : Bytes) (len : Nat) :
    Except Abort (Res × Heap) := do
  let old ← loadPointer heap (p.add 8)
  let heap ← freeAt heap old
  match malloc A heap len with
  | none =>
      let heap ← storeAt heap (p.add 8) (leBytes 8 0)
      return (.memfail, heap)
  | some (new, heap) =>
      let heap ← storeAt heap (p.add 8) (leBytes 8 new.toNat)
      let heap ← storeAt heap p (leBytes 8 len)
      if data.length < len then
        throw .outOfBounds
      let heap ← storeAt heap ⟨new, 0⟩ (data.take len)
      return (.success, heap)

/-- The user's octets as a number in the slot at `p`. The number takes `n` octets of the user, and is
extended by `f`. -/
def storeNumber (heap : Heap) (p : Pointer) (data : Bytes) (n : Nat) (f : Bytes → Bytes) :
    Except Abort (Res × Heap) := do
  if data.length < n then
    throw .outOfBounds
  let heap ← storeAt heap p (f (data.take n))
  return (.success, heap)

/-- A number of 16 bits as one of 32 bits. -/
def signExtend (b : Bytes) : Bytes :=
  if leNat b < 2 ^ 15 then b ++ [0, 0] else b ++ [0xff, 0xff]

/-- How `nmsg_message_set_field_by_idx` stores the value in the slot at `p`, by the type of the
field. -/
def storeValue (A : Allocator) (heap : Heap) (p : Pointer) (type : FieldType) (data : Bytes)
    (len : Nat) : Except Abort (Res × Heap) :=
  if p.block = 0 then .error .assertion
  else
    match type with
    | .ip =>
        if len ≠ 4 ∧ len ≠ 16 then .ok (.failure, heap) else storeOctets A heap p data len
    | .bytes | .string | .mlstring => storeOctets A heap p data len
    | .bool => storeNumber heap p data 1 id
    | .enum | .int32 | .uint32 => storeNumber heap p data 4 id
    | .int16 => storeNumber heap p data 2 signExtend
    | .uint16 => storeNumber heap p data 2 fun b => b ++ [0, 0]
    | .int64 | .uint64 | .double => storeNumber heap p data 8 id

namespace RawObject

variable (env : RawEnv)

/-- `_nmsg_message_deserialize` -/
def deserialize (s : RawObject) : Res × RawObject :=
  if s.message ≠ 0 then (.success, s)
  else
    match s.np.bind NmsgPayload.payload with
    | none => (.failure, s)
    | some payload =>
        match env.unpack s.heap payload with
        | none => (.memfail, s)
        | some (self, heap) => (.success, { s with message := self, heap := heap })

/-- `nmsg_message_get_field_by_idx` -/
def getFieldByIdx (s : RawObject) (fieldIdx : Nat) (valIdx : UInt32) :
    Except Abort ((Res × Option (Pointer × Nat)) × RawObject) :=
  match s.module.mod.fields[fieldIdx]? with
  | none => .ok ((.failure, none), s)
  | some field =>
      if field.hidden = true then .ok ((.failure, none), s)
      else if (s.deserialize env).1 ≠ .success then
        .ok (((s.deserialize env).1, none), (s.deserialize env).2)
      else
        let s := (s.deserialize env).2
        if field.hasGet = true then (env.get s field valIdx).map fun out => (out, s)
        else
          match s.module.descrs[fieldIdx]? with
          | none => .error .nullPointer
          | some d => do
              match ← findValue s.heap s.message field d valIdx with
              | none => return ((.failure, none), s)
              | some p =>
                  match ← handOver s.heap field.type p with
                  | none => return ((.failure, none), s)
                  | some out => return ((.success, some out), s)

/-- `nmsg_message_set_field_by_idx` -/
def setFieldByIdx (s : RawObject) (fieldIdx : Nat) (valIdx : UInt32) (data : Bytes) (len : Nat) :
    Except Abort (Res × RawObject) :=
  match s.module.mod.fields[fieldIdx]? with
  | none => .ok (.failure, s)
  | some field =>
      if field.hasGet = true ∨ field.hidden = true then .ok (.failure, s)
      else if (s.deserialize env).1 ≠ .success then .ok (s.deserialize env)
      else
        let s := { (s.deserialize env).2 with updated := true }
        match s.module.descrs[fieldIdx]? with
        | none => .error .nullPointer
        | some d => do
            match ← makeRoomAt env.alloc s.heap s.message field d valIdx with
            | (.refused res, heap) => return (res, { s with heap := heap })
            | (.slot p, heap) =>
                let (res, heap) ← storeValue env.alloc heap p field.type data len
                return (res, { s with heap := heap })

end RawObject

end Nmsg

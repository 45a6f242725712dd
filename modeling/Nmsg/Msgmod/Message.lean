import Nmsg.Msgmod.Field

/-!
# Messages with fields

A message object of a transparent module. It is made from a payload, or made empty and filled field
by field; which of its two representations is current is told by its flag.
-/

namespace Nmsg

open Octets

/-- `struct nmsg_message`, with the fields of its message in memory. -/
structure FieldObject where
  mod : Option Msgmod
  message : Option FieldMessage
  np : Option NmsgPayload
  updated : Bool

/-- The number stored in the low octet first. -/
def leNat (b : Bytes) : Nat := beNat b.reverse

/-- The value that the user's octets are loaded as. A number is copied from the start of them; the
length is looked at for octet strings only. `none` is an address of a wrong length. -/
def loadValue (type : FieldType) (data : Bytes) (len : Nat) : Except Abort (Option FieldValue) :=
  let octets (n : Nat) (f : Nat → FieldValue) : Except Abort (Option FieldValue) :=
    if data.length < n then .error .outOfBounds else .ok (some (f (leNat (data.take n))))
  match type with
  | .ip =>
      if len ≠ 4 ∧ len ≠ 16 then .ok none
      else if data.length < len then .error .outOfBounds
      else .ok (some (.data (data.take len)))
  | .bytes | .string | .mlstring =>
      if data.length < len then .error .outOfBounds else .ok (some (.data (data.take len)))
  | .bool => octets 1 fun n => .word (if n = 0 then 0 else 1)
  | .enum | .int32 | .uint32 => octets 4 fun n => .word (.ofNat n)
  | .int16 => octets 2 fun n => .word (if n < 2 ^ 15 then .ofNat n else .ofNat (n + (2 ^ 32 - 2 ^ 16)))
  | .uint16 => octets 2 fun n => .word (.ofNat n)
  | .int64 | .uint64 | .double => octets 8 fun n => .dword (.ofNat n)

/-- How `nmsg_message_set_field_by_idx` makes room for the value, by the label of the field. -/
def makeRoom (field : MsgmodField) (vals : List FieldValue) (valIdx : Nat) :
    Option (List FieldValue) :=
  match field.label with
  | .repeated =>
      if valIdx < vals.length then some vals
      else if valIdx = vals.length then some (vals ++ [field.type.zero])
      else none
  | .optional =>
      if valIdx > 0 then none
      else if vals = [] then some [field.type.zero] else some vals
  | .required => if valIdx > 0 then none else some vals

/-- `nmsg_message_set_field_by_idx`, for the values of the field. -/
def setFieldValue (field : MsgmodField) (vals : List FieldValue) (valIdx : Nat) (data : Bytes)
    (len : Nat) : Except Abort (Res × List FieldValue) :=
  match makeRoom field vals valIdx with
  | none => .ok (.failure, vals)
  | some vals =>
      match loadValue field.type data len with
      | .error e => .error e
      | .ok none => .ok (.failure, vals)
      | .ok (some val) => .ok (.success, vals.set valIdx val)

namespace FieldObject

/-- `nmsg_message_init` -/
def init (mod : Msgmod) (now : WallTime) : FieldObject where
  mod := some mod
  message := some mod.zero
  np := some (messageInitPayload now (mod.message mod.zero))
  updated := false

/-- `_nmsg_message_from_payload`, where `lookup` is `nmsg_msgmod_lookup`. -/
def fromPayload (lookup : UInt32 → UInt32 → Option Msgmod) (np : NmsgPayload) : FieldObject where
  mod := lookup np.vid np.msgtype
  message := none
  np := some np
  updated := false

/-- `_nmsg_message_deserialize` -/
def deserialize (msg : FieldObject) : Res × FieldObject :=
  if msg.message ≠ none then (.success, msg)
  else
    match msg.np, msg.mod with
    | some np, some mod =>
        match np.payload with
        | none => (.failure, msg)
        | some payload =>
            match mod.unpack payload with
            | none => (.memfail, msg)
            | some m => (.success, { msg with message := some m })
    | _, _ => (.failure, msg)

/-- `_nmsg_message_serialize` -/
def serialize (now : WallTime) (msg : FieldObject) : FieldObject :=
  match msg.message, msg.mod with
  | some m, some mod =>
      if msg.updated = true ∨ msg.np = none then
        let np := msg.np.getD (messageInitPayload now (mod.message m))
        { msg with np := some { np with payload := some (mod.pack m) }, updated := false }
      else msg
  | _, _ => msg

/-- `nmsg_message_set_field_by_idx`. From the check of the field on the message counts as updated,
whatever comes of it. -/
def setFieldByIdx (msg : FieldObject) (fieldIdx valIdx : Nat) (data : Bytes) (len : Nat) :
    Except Abort (Res × FieldObject) :=
  match msg.mod.bind fun mod => mod.fields[fieldIdx]? with
  | none => .ok (.failure, msg)
  | some field =>
      if field.hasGet = true ∨ field.hidden = true then .ok (.failure, msg)
      else if msg.deserialize.1 ≠ .success then .ok msg.deserialize
      else
        let msg := msg.deserialize.2
        let m := msg.message.getD []
        match setFieldValue field (m.getD fieldIdx []) valIdx data len with
        | .error e => .error e
        | .ok (res, vals) =>
            .ok (res, { msg with message := some (m.set fieldIdx vals), updated := true })

/-- `nmsg_message_set_field` -/
def setField (msg : FieldObject) (name : Bytes) (valIdx : Nat) (data : Bytes) (len : Nat) :
    Except Abort (Res × FieldObject) :=
  match msg.mod.bind fun mod => mod.fields.findIdx? fun field => field.name = name with
  | none => .ok (.failure, msg)
  | some fieldIdx => msg.setFieldByIdx fieldIdx valIdx data len

/-- `_nmsg_message_dup`, the null pointer when the message cannot be unpacked again. The flag of
the copy is clear. -/
def dup (msg : FieldObject) : Option FieldObject :=
  match msg.message, msg.mod with
  | some m, some mod =>
      match mod.unpack (mod.pack m) with
      | none => none
      | some m => some ⟨some mod, some m, msg.np, false⟩
  | _, mod => some ⟨mod, none, msg.np, false⟩

/-- The message object, with the octets that its message packs to in place of the fields. -/
def toMessage (msg : FieldObject) : Message where
  np := msg.np
  message :=
    match msg.message, msg.mod with
    | some m, some mod => some (mod.message m)
    | _, _ => none
  updated := msg.updated

/-- Serializing only looks at the octets that the message packs to. -/
theorem toMessage_serialize (now : WallTime) (msg : FieldObject) :
    (msg.serialize now).toMessage = messageSerialize now msg.toMessage := by
  obtain ⟨mod, message, np, updated⟩ := msg
  cases message with
  | none => rfl
  | some m =>
      cases mod with
      | none => rfl
      | some mod =>
          by_cases hcond : updated = true ∨ np = none
          · simp only [serialize, toMessage, messageSerialize, hcond, if_true]
            rfl
          · simp only [serialize, toMessage, messageSerialize, hcond, if_false]

/-- A message that an input hands over: made from a payload, or made empty, with fields set. -/
inductive Produced (lookup : UInt32 → UInt32 → Option Msgmod) : FieldObject → Prop where
  | fromPayload (np : NmsgPayload) : Produced lookup (fromPayload lookup np)
  | init (mod : Msgmod) (hmod : mod.Lawful) (now : WallTime) : Produced lookup (init mod now)
  | setField {msg msg' : FieldObject} {name : Bytes} {valIdx : Nat} {data : Bytes} {len : Nat}
      {res : Res} (h : Produced lookup msg)
      (hset : msg.setField name valIdx data len = .ok (res, msg')) : Produced lookup msg'

end FieldObject

end Nmsg

import Nmsg.Container
import Nmsg.Msgmod.Message

/-!
# Access to messages

The calls on a message object: fields are read and set, the message is serialized, and its payload
is written to a container, which takes it away.
-/

namespace Nmsg

/-- What `nmsg_message_get_field_by_idx` finds in the values of a field. An address has to have the
length of one. -/
def getFieldValue (field : MsgmodField) (vals : List FieldValue) (valIdx : Nat) :
    Option FieldValue :=
  let val :=
    match field.label with
    | .repeated => if valIdx ≥ vals.length then none else vals[valIdx]?
    | .optional => if valIdx ≥ vals.length ∨ valIdx > 0 then none else vals[0]?
    | .required => if valIdx > 0 then none else vals[0]?
  match val with
  | some (.data b) =>
      if field.type = .ip ∧ b.length ≠ 4 ∧ b.length ≠ 16 then none else some (.data b)
  | val => val

/-- Calls on a message object. A write comes with the container it goes to. -/
inductive MessageCall where
  | getField (name : Bytes) (valIdx : Nat)
  | setField (name : Bytes) (valIdx : Nat) (data : Bytes) (len : Nat)
  | serialize (now : WallTime)
  | write (now : WallTime) (c : Container)

/-- What a call gives. -/
inductive MessageAnswer where
  | field (res : Res) (val : Option FieldValue)
  | done (res : Res)
  | written (res : Res) (c : Container)

namespace FieldObject

section Get

variable (get : MsgmodField → FieldMessage → Nat → Option FieldValue)

/-- `nmsg_message_get_field_by_idx`, where `get` are the `get` functions of the fields that have
one. -/
def getFieldByIdx (msg : FieldObject) (fieldIdx valIdx : Nat) :
    (Res × Option FieldValue) × FieldObject :=
  match msg.mod.bind fun mod => mod.fields[fieldIdx]? with
  | none => ((.failure, none), msg)
  | some field =>
      if field.hidden = true then ((.failure, none), msg)
      else if msg.deserialize.1 ≠ .success then ((msg.deserialize.1, none), msg.deserialize.2)
      else
        let msg := msg.deserialize.2
        let m := msg.message.getD []
        let val :=
          if field.hasGet = true then get field m valIdx
          else getFieldValue field (m.getD fieldIdx []) valIdx
        match val with
        | none => ((.failure, none), msg)
        | some val => ((.success, some val), msg)

/-- `nmsg_message_get_field` -/
def getField (msg : FieldObject) (name : Bytes) (valIdx : Nat) :
    (Res × Option FieldValue) × FieldObject :=
  match msg.mod.bind fun mod => mod.fields.findIdx? fun field => field.name = name with
  | none => ((.failure, none), msg)
  | some fieldIdx => msg.getFieldByIdx get fieldIdx valIdx

/-- `nmsg_container_add`, on an object whose message is in memory as its fields. -/
def containerAdd (now : WallTime) (c : Container) (msg : FieldObject) :
    Except Abort (Res × Container × FieldObject) :=
  (Nmsg.containerAdd now c msg.toMessage).map fun (res, c, m) =>
    (res, c, { msg with np := m.np, updated := m.updated })

/-- A call on a message object. -/
def call (msg : FieldObject) : MessageCall → Except Abort (MessageAnswer × FieldObject)
  | .getField name valIdx =>
      let ((res, val), msg) := msg.getField get name valIdx
      .ok (.field res val, msg)
  | .setField name valIdx data len =>
      (msg.setField name valIdx data len).map fun (res, msg) => (.done res, msg)
  | .serialize now => .ok (.done .success, msg.serialize now)
  | .write now c => (msg.containerAdd now c).map fun (res, c, msg) => (.written res c, msg)

end Get

/-- `nmsg_message_update` -/
def update (msg : FieldObject) : FieldObject :=
  { msg with updated := true }

/-- `nmsg_message_compact_payload` -/
def compactPayload (msg : FieldObject) : FieldObject :=
  { msg with message := none }

end FieldObject

end Nmsg

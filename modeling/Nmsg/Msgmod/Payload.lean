import Nmsg.Msgmod.Message
import Nmsg.Msgmod.Pres

/-!
# Writing presentation text

The fields of a message are printed in the order in which the plugin has them, each value on a line
of its own, into a string buffer that grows with them. Octet strings are printed as strings, up to
their zero octet; the octets of an empty one are not there at all.
-/

namespace Nmsg

/-- The octets of a text in the source. -/
def ascii (s : String) : Bytes := s.toList.map fun c => .ofNat c.toNat

/-- What `%s` prints of the octets of a value. -/
def cString (b : Bytes) : Except Abort Bytes :=
  if b = [] then .error .nullPointer
  else if 0 ∈ b then .ok (b.takeWhile (· ≠ 0))
  else .error .outOfBounds

/-- A number in two's complement, of the low bits of a slot. -/
def signedBits (bits n : Nat) : Int :=
  if n % 2 ^ bits < 2 ^ (bits - 1) then n % 2 ^ bits else (n % 2 ^ bits : Int) - 2 ^ bits

/-- A line with the name of a field and its value. -/
def fieldLine (field : MsgmodField) (value endline : Bytes) : Bytes :=
  field.name ++ ascii ": " ++ value ++ endline

/-- The enum case of `_nmsg_message_payload_to_pres_load`: a line for each name of the number. -/
def enumLines (field : MsgmodField) (endline : Bytes) (n : UInt32) : List Bytes :=
  let names := field.enumValues.filter fun v => v.2 = n
  if names = [] then
    [fieldLine field (ascii "<UNKNOWN ENUM VAL=" ++ Text.decimal n.toNat ++ ascii ">") endline]
  else names.map fun v => fieldLine field v.1 endline

/-- The ip case of `_nmsg_message_payload_to_pres_load`. -/
def ipText (libc : Libc) (b : Bytes) : Bytes :=
  if b.length = 4 then libc.inetNtop4 b
  else if b.length = 16 then libc.inetNtop6 b
  else ascii "<INVALID IP len=" ++ Text.decimal b.length ++ ascii ">"

/-- `_nmsg_message_payload_to_pres_load`, for a field without a `print` function: the texts that are
appended. The slot is of the kind that the type has. -/
def payloadToPresLoad (libc : Libc) (field : MsgmodField) (endline : Bytes) (v : FieldValue) :
    Except Abort (List Bytes) :=
  match field.type, v with
  | .bytes, .data b =>
      .ok [fieldLine field (ascii "<BYTE ARRAY LEN=" ++ Text.decimal b.length ++ ascii ">") endline]
  | .string, .data b => do
      let s ← cString b
      return [fieldLine field s endline]
  | .mlstring, .data b => do
      let s ← cString b
      return [field.name ++ ascii ":" ++ endline ++ s ++ ascii "." ++ endline]
  | .bool, .word w => .ok [fieldLine field (ascii (if w ≠ 0 then "True" else "False")) endline]
  | .enum, .word w => .ok (enumLines field endline w)
  | .ip, .data b => .ok [fieldLine field (ipText libc b) endline]
  | .uint16, .word w => .ok [fieldLine field (Text.decimal (w.toNat % 2 ^ 16)) endline]
  | .uint32, .word w => .ok [fieldLine field (Text.decimal w.toNat) endline]
  | .uint64, .dword w => .ok [fieldLine field (Text.decimal w.toNat) endline]
  | .int16, .word w => .ok [fieldLine field (Text.signedDecimal (signedBits 16 w.toNat)) endline]
  | .int32, .word w => .ok [fieldLine field (Text.signedDecimal (signedBits 32 w.toNat)) endline]
  | .int64, .dword w => .ok [fieldLine field (Text.signedDecimal (signedBits 64 w.toNat)) endline]
  | .double, .dword w => .ok [fieldLine field (libc.formatDouble w) endline]
  | _, _ => .error .outOfBounds

/-- The values that are printed of a field without a `get` function. -/
def printedValues (field : MsgmodField) (vals : List FieldValue) : List FieldValue :=
  if field.hidden ∨ field.noprint then []
  else if field.label = .required ∨ (field.label = .optional ∧ vals.length = 1) then vals.take 1
  else if field.label = .repeated then vals
  else []

/-- The texts are appended one after the other. -/
def appendAll (sb : Strbuf) : List Bytes → Except Abort Strbuf
  | [] => .ok sb
  | text :: texts =>
      match sb.append text with
      | .error e => .error e
      | .ok sb => appendAll sb texts

/-- The values of a field are printed. -/
def printField (libc : Libc) (field : MsgmodField) (endline : Bytes) (sb : Strbuf) :
    List FieldValue → Except Abort Strbuf
  | [] => .ok sb
  | v :: vals =>
      match payloadToPresLoad libc field endline v with
      | .error e => .error e
      | .ok texts =>
          match appendAll sb texts with
          | .error e => .error e
          | .ok sb => printField libc field endline sb vals

/-- The loop over the fields of the plugin, of which the places in the table are given. -/
def printFields (libc : Libc) (mod : Msgmod) (endline : Bytes) (m : FieldMessage) (sb : Strbuf) :
    List Nat → Except Abort Strbuf
  | [] => .ok sb
  | n :: order =>
      match mod.fields[n]? with
      | none => printFields libc mod endline m sb order
      | some field =>
          match printField libc field endline sb (printedValues field (m.getD n [])) with
          | .error e => .error e
          | .ok sb => printFields libc mod endline m sb order

/-- `_nmsg_message_payload_to_pres`, for a module without `get` and `print` functions: the block with
the text, or the null pointer. The order is that in which the plugin has the fields. -/
def FieldObject.payloadToPres (libc : Libc) (order : List Nat) (endline : Bytes)
    (msg : FieldObject) : Except Abort ((Res × Option Bytes) × FieldObject) :=
  if msg.deserialize.1 ≠ .success then .ok ((msg.deserialize.1, none), msg.deserialize.2)
  else
    match msg.deserialize.2.message, msg.deserialize.2.mod with
    | some m, some mod =>
        match printFields libc mod endline m .init order with
        | .error e => .error e
        | .ok sb => .ok ((.success, sb.data), msg.deserialize.2)
    | _, _ => .error .nullPointer

end Nmsg

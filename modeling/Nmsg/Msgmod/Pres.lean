import Nmsg.Lib.Text
import Nmsg.Msgmod.Field
import Nmsg.Msgmod.Strbuf

/-!
# Reading presentation text

Messages of transparent modules are read from lines of text, each with the name of a field and a
value. A multi-line string has its lines behind the name. The message is built field by field and
packed when a blank line comes. Numbers have the low octet first, and `long` has 64 bits.
-/

namespace Nmsg

/-- A field as the presentation code sees it. `descrId` is `descr->id`, absent where `descr` is the
null pointer, and `hasPrint` tells whether there is a `print` function. The name is the one of the
descriptor too. -/
structure PresField extends MsgmodField where
  descrId : Option Nat
  hasPrint : Bool
deriving DecidableEq

/-- `struct nmsg_msgmod`, as the presentation code sees it: the fields in the order of their names,
and the functions of protobuf-c. -/
structure PresModule where
  fields : List PresField
  pack : FieldMessage → Bytes
  unpack : Bytes → Option FieldMessage

/-- The functions of the C library that text is converted with. `strtod` converts text that is a
number to its end. -/
structure Libc where
  inetPton4 : Bytes → Option { b : Bytes // b.length = 4 }
  inetPton6 : Bytes → Option { b : Bytes // b.length = 16 }
  inetNtop4 : Bytes → Bytes
  inetNtop6 : Bytes → Bytes
  strtod : Bytes → Option UInt64
  formatDouble : UInt64 → Bytes

/-- What is in the place of a value while a message is built. An octet string is in memory of its
own, or it is a null pointer, or points to the string buffer of its field. -/
inductive Slot where
  | value (v : FieldValue)
  | null
  | strbuf (len : Nat)
deriving DecidableEq

/-- `nmsg_msgmod_clos_mode` -/
inductive ClosMode where
  | keyval
  | multiline
deriving DecidableEq

/-- `struct nmsg_msgmod_clos`. The fields of the message in memory have the values that are there,
and `field` is the index of the field. -/
structure MsgmodClos where
  nmsgPbuf : Option (List (List Slot))
  estsz : Nat
  mode : ClosMode
  field : Option Nat
  strbufs : Nat → Strbuf

/-- The closure that `_nmsg_msgmod_module_init` makes. -/
def MsgmodClos.init : MsgmodClos where
  nmsgPbuf := none
  estsz := 0
  mode := .keyval
  field := none
  strbufs := fun _ => .init

/-- A slot of zeros. -/
def FieldType.zeroSlot (type : FieldType) : Slot :=
  match type.zero with
  | .data _ => .null
  | v => .value v

/-- A message of zeros. -/
def PresModule.zeroSlots (mod : PresModule) : List (List Slot) :=
  mod.fields.map fun field =>
    if field.descrId ≠ none ∧ field.label = .required then [field.type.zeroSlot] else []

/-- The in-memory message is initialized if necessary. -/
def MsgmodClos.start (mod : PresModule) (clos : MsgmodClos) : MsgmodClos :=
  match clos.nmsgPbuf with
  | some _ => clos
  | none => { clos with nmsgPbuf := some mod.zeroSlots, mode := .keyval }

/-! ### Conversions -/

/-- `strtoul`, and `strtoull`, in base 0, of text that is a number to its end. -/
def strtoul (text : Bytes) : Option Nat :=
  (Text.scanInt text).map fun n : Int =>
    if n.natAbs ≥ 2 ^ 64 then 2 ^ 64 - 1 else (n % 2 ^ 64).toNat

/-- `strtol`, and `strtoll`, likewise. -/
def strtol (text : Bytes) : Option Int :=
  (Text.scanInt text).map fun n : Int => max (-2 ^ 63) (min n (2 ^ 63 - 1))

/-- A number is stored in the low half of a slot. -/
def store16 (old : Slot) (n : Nat) : FieldValue :=
  match old with
  | .value (.word w) => .word (.ofNat (w.toNat / 65536 * 65536 + n % 65536))
  | _ => .word (.ofNat (n % 65536))

/-- The conversion of a value in `_nmsg_msgmod_pres_to_payload_load`, for the types that have the
value in the line: what is stored, and what `estsz` grows by. There is nothing where the value is no
value of the type. -/
def convertValue (libc : Libc) (field : PresField) (old : Slot) (value : Bytes) :
    Except Abort (Option (FieldValue × Nat)) :=
  match field.type with
  | .bool | .bytes | .mlstring => .error .assertion
  | .enum =>
      .ok ((field.enumValues.find? fun v => v.1 = value).map fun v => (.word v.2, 4))
  | .string => .ok (some (.data (value ++ [0]), value.length))
  | .ip =>
      match libc.inetPton4 value with
      | some addr => .ok (some (.data addr, 4))
      | none => .ok ((libc.inetPton6 value).map fun addr => (.data addr, 16))
  | .uint16 =>
      .ok ((strtoul value).bind fun n => if n > 65535 then none else some (store16 old n, 0))
  | .uint32 => .ok ((strtoul value).map fun n => (.word (.ofNat n), 0))
  | .uint64 => .ok ((strtoul value).map fun n => (.dword (.ofNat n), 0))
  | .int16 =>
      .ok ((strtol value).bind fun n =>
        if n > 32767 then none else some (store16 old (n % 65536).toNat, 0))
  | .int32 => .ok ((strtol value).map fun n => (.word (.ofNat (n % 2 ^ 32).toNat), 0))
  | .int64 => .ok ((strtol value).map fun n => (.dword (.ofNat (n % 2 ^ 64).toNat), 0))
  | .double => .ok ((libc.strtod value).map fun v => (.dword v, 0))

/-! ### Lines -/

/-- The copy of a line, with its newline trimmed. Only the newline makes room for the zero octet. -/
def copyLine (pres : Bytes) : Except Abort Bytes :=
  match pres.getLast? with
  | none => .error .outOfBounds
  | some c => .ok (if c = 10 then pres.dropLast ++ [0] else pres)

/-- `strtok_r` on the copy of a line. -/
def nextToken (delim : UInt8) (mem : Bytes) : Except Abort (Option (Bytes × Bytes)) :=
  match Text.strtok delim mem with
  | none => .error .outOfBounds
  | some found => .ok found

/-- The loop that looks for the field named by a key. Where it finds none it is left with the last
field. -/
def lookupKey (fields : List PresField) (name : Bytes) : Nat :=
  match fields.findIdx? fun field => field.descrId ≠ none ∧ field.name = name with
  | some n => n
  | none => fields.length - 1

/-- The field and the value of a line, without a value for a multi-line string. There is nothing
where the line is rejected. -/
def splitLine (fields : List PresField) (pres : Bytes) :
    Except Abort (Option (Nat × Option Bytes)) := do
  let line ← copyLine pres
  match ← nextToken 58 line with
  | none => return none
  | some (name, rest) =>
      match fields[lookupKey fields name]? with
      | none => throw .nullPointer
      | some field =>
          if field.descrId = none then return none
          else if field.type = .mlstring then return some (lookupKey fields name, none)
          else
            match ← nextToken 32 rest with
            | none => return none
            | some (value, _) => return some (lookupKey fields name, some value)

/-! ### Loading a value -/

/-- The values of a field with a place for the next one. -/
def makePlace (field : PresField) (slots : List Slot) : List Slot :=
  if field.label = .repeated then slots ++ [field.type.zeroSlot] else slots

/-- The values of a field once a value is stored. An optional one is there from now on. -/
def storeSlot (field : PresField) (slots : List Slot) (slot : Slot) : List Slot :=
  if field.label = .repeated then slots.set (slots.length - 1) slot else [slot]

/-- What is in the place. That of an optional field that is not there has zeros. -/
def placeOf (field : PresField) (slots : List Slot) : Slot :=
  slots.getLastD field.type.zeroSlot

/-- The mlstring case of `_nmsg_msgmod_pres_to_payload_load`: what is stored, if something is. -/
def loadMlstring (clos : MsgmodClos) (n : Nat) (field : PresField) (value : Option Bytes) :
    Except Abort (Option Slot × MsgmodClos) :=
  match clos.mode, value, field.descrId with
  | .keyval, _, _ => .ok (none, { clos with field := some n, mode := .multiline })
  | .multiline, some value, some id =>
      let sb := clos.strbufs (id - 1)
      if value.take 2 = [46, 10] then
        .ok (some (if sb.data = none then .null else .strbuf sb.len), { clos with mode := .keyval })
      else do
        let sb ← sb.append value
        return (none, { clos with
          estsz := clos.estsz + value.length
          strbufs := Function.update clos.strbufs (id - 1) sb })
  | .multiline, _, _ => .error .nullPointer

/-- `_nmsg_msgmod_pres_to_payload_load`: the slot to store, if there is one, unless the value is
rejected. -/
def presToPayloadLoad (libc : Libc) (clos : MsgmodClos) (n : Nat) (field : PresField)
    (old : Slot) (value : Option Bytes) : Except Abort (Option (Option Slot × MsgmodClos)) :=
  if field.type = .mlstring then some <$> loadMlstring clos n field value
  else
    match value with
    | none => .error .nullPointer
    | some value =>
        match convertValue libc field old value with
        | .error e => .error e
        | .ok none => .ok none
        | .ok (some (v, size)) =>
            .ok (some (some (.value v), { clos with estsz := clos.estsz + size }))

/-- The last part of `_nmsg_msgmod_pres_to_payload`: there is a place for the value before it is
loaded. -/
def loadField (libc : Libc) (mod : PresModule) (clos : MsgmodClos) (n : Nat)
    (value : Option Bytes) : Except Abort (Res × MsgmodClos) :=
  match mod.fields[n]?, clos.nmsgPbuf with
  | some field, some m =>
      let slots := makePlace field (m.getD n [])
      let clos := { clos with nmsgPbuf := some (m.set n slots) }
      match presToPayloadLoad libc clos n field (placeOf field slots) value with
      | .error e => .error e
      | .ok none => .ok (.parseError, clos)
      | .ok (some (none, clos)) => .ok (.success, clos)
      | .ok (some (some slot, clos)) =>
          .ok (.success, { clos with nmsgPbuf := some (m.set n (storeSlot field slots slot)) })
  | _, _ => .error .nullPointer

/-- `_nmsg_msgmod_pres_to_payload`, on a string without its zero octet. -/
def presToPayload (libc : Libc) (mod : PresModule) (clos : MsgmodClos) (pres : Bytes) :
    Except Abort (Res × MsgmodClos) :=
  let clos := clos.start mod
  match clos.mode with
  | .keyval =>
      if pres.head? = some 10 then .ok (.pbufReady, clos)
      else
        match splitLine mod.fields pres with
        | .error e => .error e
        | .ok none => .ok (.parseError, clos)
        | .ok (some (n, value)) => loadField libc mod clos n value
  | .multiline =>
      match clos.field with
      | none => .error .nullPointer
      | some n => loadField libc mod clos n (some pres)

/-! ### The payload -/

/-- `PBFIELD_ONE_PRESENT` -/
def onePresent (field : PresField) (slots : List Slot) : Bool :=
  field.label = .required || (field.label = .optional && slots.length = 1)

/-- The octets of a field's value, where `more` octets behind its length are counted too. -/
def readSlot (sb : Strbuf) (more : Nat) : Slot → Except Abort FieldValue
  | .value v => .ok v
  | .null => if more = 0 then .ok (.data []) else .error .nullPointer
  | .strbuf len =>
      match Memory.read (sb.data.getD []) 0 (len + more) with
      | none => .error .outOfBounds
      | some b => .ok (.data b)

/-- How many octets `_nmsg_msgmod_pres_to_payload_finalize` adds to the values of a field: one to a
multi-line string, for its zero octet. -/
def terminator (field : PresField) (slots : List Slot) : Nat :=
  if field.type = .mlstring ∧ onePresent field slots then 1 else 0

/-- The values of a field as they are packed. -/
def readField (clos : MsgmodClos) (field : PresField) (slots : List Slot) :
    Except Abort (List FieldValue) :=
  match field.descrId with
  | none => .ok []
  | some id => slots.mapM (readSlot (clos.strbufs (id - 1)) (terminator field slots))

/-- The message as it is packed. -/
def readFields (clos : MsgmodClos) : List PresField → List (List Slot) → Except Abort FieldMessage
  | field :: fields, slots :: m => do
      let vals ← readField clos field slots
      let rest ← readFields clos fields m
      return vals :: rest
  | _, _ => .ok []

/-- The loop that gives memory back. The buffers of multi-line strings are emptied. -/
def deallocate (strbufs : Nat → Strbuf) :
    List PresField → List (List Slot) → Except Abort (Nat → Strbuf)
  | field :: fields, slots :: m =>
      match field.descrId with
      | none => deallocate strbufs fields m
      | some id =>
          if field.type = .mlstring then
            if onePresent field slots then
              deallocate (Function.update strbufs (id - 1) (strbufs (id - 1)).reset) fields m
            else if field.label = .repeated ∧ slots.length ≥ 1 then .error .assertion
            else deallocate strbufs fields m
          else deallocate strbufs fields m
  | _, _ => .ok strbufs

/-- The octets that are allocated for the payload. -/
def MsgmodClos.allocated (clos : MsgmodClos) : Nat := 2 * max clos.estsz 64

/-- `_nmsg_msgmod_pres_to_payload_finalize`: the payload. -/
def presToPayloadFinalize (mod : PresModule) (clos : MsgmodClos) :
    Except Abort (Bytes × MsgmodClos) :=
  match clos.nmsgPbuf with
  | none => .error .nullPointer
  | some slots => do
      let m ← readFields clos mod.fields slots
      let packed := mod.pack m
      if packed.length > clos.allocated then throw .outOfBounds
      else
        let strbufs ← deallocate clos.strbufs mod.fields slots
        return (packed, { clos with nmsgPbuf := none, estsz := 0, strbufs := strbufs })

/-- A line in `_input_pres_read`: the result, with the payload when the line was the end of one. -/
def presRead (libc : Libc) (mod : PresModule) (clos : MsgmodClos) (line : Bytes) :
    Except Abort ((Res × Option Bytes) × MsgmodClos) := do
  let (res, clos) ← presToPayload libc mod clos line
  if res = .pbufReady then
    let (payload, clos) ← presToPayloadFinalize mod clos
    return ((.success, some payload), clos)
  else return ((res, none), clos)

end Nmsg

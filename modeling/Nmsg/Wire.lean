import Nmsg.Proto

/-!
# The generated functions on the wire format

Packing as the protocol buffers library does it: fields in the order of their numbers, repeated
numbers one field each. `wire` is an instance of `ProtobufC` that computes.
-/

namespace Nmsg

open WireFormat

private def varintField (number : Nat) : Option UInt32 → List Field
  | none => []
  | some n => [.varint number n.toNat]

private def varint64Field (number : Nat) : Option UInt64 → List Field
  | none => []
  | some n => [.varint number n.toNat]

private def bytesField (number : Nat) : Option Bytes → List Field
  | none => []
  | some b => [.bytes number b]

def payloadFields (np : NmsgPayload) : List Field :=
  [.varint 1 np.vid.toNat, .varint 2 np.msgtype.toNat, .varint 3 np.timeSec.toUInt64.toNat,
    .fixed32 4 np.timeNsec.toNat] ++ bytesField 5 np.payload ++ varintField 7 np.source ++
    varintField 8 np.operator ++ varintField 9 np.group

def packPayload (np : NmsgPayload) : Bytes := encode (payloadFields np)

def unpackPayload (b : Bytes) : Option NmsgPayload := do
  let fields ← decode b
  let vid ← findVarint 1 fields
  let msgtype ← findVarint 2 fields
  let timeSec ← findVarint 3 fields
  let timeNsec ← findFixed32 4 fields
  some {
    vid := .ofNat vid
    msgtype := .ofNat msgtype
    timeSec := (UInt64.ofNat timeSec).toInt64
    timeNsec := .ofNat timeNsec
    payload := findBytes 5 fields
    source := (findVarint 7 fields).map .ofNat
    operator := (findVarint 8 fields).map .ofNat
    group := (findVarint 9 fields).map .ofNat }

def nmsgFields (nmsg : ProtoNmsg) : List Field :=
  nmsg.payloads.map (fun np => .bytes 1 (packPayload np)) ++
    nmsg.payloadCrcs.map (fun crc => .varint 2 crc.toNat) ++ varintField 3 nmsg.sequence ++
    varint64Field 4 nmsg.sequenceId

def unpackPayloads : List Bytes → Option (List NmsgPayload)
  | [] => some []
  | b :: rest =>
      match unpackPayload b, unpackPayloads rest with
      | some np, some nps => some (np :: nps)
      | _, _ => none

def fragmentFields (nf : NmsgFragment) : List Field :=
  [.varint 1 nf.id.toNat, .varint 2 nf.current.toNat, .varint 3 nf.last.toNat,
    .bytes 4 nf.fragment] ++ varintField 5 nf.crc

def wire : ProtobufC where
  packNmsg nmsg := encode (nmsgFields nmsg)
  unpackNmsg b := do
    let fields ← decode b
    let payloads ← unpackPayloads (allBytes 1 fields)
    some {
      payloads := payloads
      payloadCrcs := (allVarint 2 fields).map .ofNat
      sequence := (findVarint 3 fields).map .ofNat
      sequenceId := (findVarint 4 fields).map .ofNat }
  packFragment nf := encode (fragmentFields nf)
  unpackFragment b := do
    let fields ← decode b
    let id ← findVarint 1 fields
    let current ← findVarint 2 fields
    let last ← findVarint 3 fields
    let fragment ← findBytes 4 fields
    some {
      id := .ofNat id
      current := .ofNat current
      last := .ofNat last
      fragment := fragment
      crc := (findVarint 5 fields).map .ofNat }

/-! ### Laws -/

private theorem fits_varintField (number : Nat) (n : Option UInt32) :
    ∀ f ∈ varintField number n, f.Fits := by
  cases n <;> simp [varintField, Field.Fits]

private theorem fits_varint64Field (number : Nat) (n : Option UInt64) :
    ∀ f ∈ varint64Field number n, f.Fits := by
  cases n <;> simp [varint64Field, Field.Fits]

private theorem fits_bytesField (number : Nat) (b : Option Bytes) :
    ∀ f ∈ bytesField number b, f.Fits := by
  cases b <;> simp [bytesField, Field.Fits]

theorem decode_payloadFields (np : NmsgPayload) :
    decode (packPayload np) = some (payloadFields np) := by
  apply decode_encode
  intro f hf
  simp only [payloadFields, List.mem_append, List.mem_cons, List.not_mem_nil, or_false] at hf
  rcases hf with (((hf | hf) | hf) | hf) | hf
  · rcases hf with rfl | rfl | rfl | rfl
    · trivial
    · trivial
    · trivial
    · exact np.timeNsec.toNat_lt
  · exact fits_bytesField _ _ f hf
  · exact fits_varintField _ _ f hf
  · exact fits_varintField _ _ f hf
  · exact fits_varintField _ _ f hf

@[simp]
theorem int64_ofNat_toUInt64 (n : Int64) : Int64.ofNat n.toUInt64.toNat = n := by
  calc Int64.ofNat n.toUInt64.toNat = (UInt64.ofNat n.toUInt64.toNat).toInt64 := rfl
    _ = n := by rw [UInt64.ofNat_toNat, Int64.toInt64_toUInt64]

theorem unpackPayload_packPayload (np : NmsgPayload) :
    unpackPayload (packPayload np) = some np := by
  obtain ⟨vid, msgtype, timeSec, timeNsec, payload, source, operator, group⟩ := np
  rw [unpackPayload, decode_payloadFields]
  cases payload <;> cases source <;> cases operator <;> cases group <;>
    simp [payloadFields, bytesField, varintField, findVarint, findFixed32, findBytes, allBytes]

theorem unpackPayloads_map (nps : List NmsgPayload) :
    unpackPayloads (nps.map packPayload) = some nps := by
  induction nps with
  | nil => rfl
  | cons np nps ih => simp [unpackPayloads, unpackPayload_packPayload, ih]

theorem decode_nmsgFields (nmsg : ProtoNmsg) :
    decode (encode (nmsgFields nmsg)) = some (nmsgFields nmsg) := by
  apply decode_encode
  intro f hf
  simp only [nmsgFields, List.mem_append, List.mem_map] at hf
  rcases hf with ((⟨np, -, rfl⟩ | ⟨crc, -, rfl⟩) | hf) | hf
  · trivial
  · trivial
  · exact fits_varintField _ _ f hf
  · exact fits_varint64Field _ _ f hf

theorem wire_unpackNmsg_packNmsg (nmsg : ProtoNmsg) :
    wire.unpackNmsg (wire.packNmsg nmsg) = some nmsg := by
  obtain ⟨payloads, crcs, sequence, sequenceId⟩ := nmsg
  have hpayloads : (allBytes 1 (nmsgFields ⟨payloads, crcs, sequence, sequenceId⟩)) =
      payloads.map packPayload := by
    cases sequence <;> cases sequenceId <;>
      simp [nmsgFields, varintField, varint64Field, allBytes, List.filterMap_map]
  have hcrcs : (allVarint 2 (nmsgFields ⟨payloads, crcs, sequence, sequenceId⟩)).map UInt32.ofNat =
      crcs := by
    cases sequence <;> cases sequenceId <;>
      simp [nmsgFields, varintField, varint64Field, allVarint, List.filterMap_map,
        Function.comp_def]
  simp only [wire, decode_nmsgFields, Option.bind_eq_bind, Option.bind_some, hpayloads, hcrcs,
    unpackPayloads_map]
  cases sequence <;> cases sequenceId <;>
    simp [nmsgFields, varintField, varint64Field, findVarint, List.filterMap_map]

theorem wire_unpackFragment_packFragment (nf : NmsgFragment) :
    wire.unpackFragment (wire.packFragment nf) = some nf := by
  have hdecode : decode (encode (fragmentFields nf)) = some (fragmentFields nf) := by
    apply decode_encode
    intro f hf
    simp only [fragmentFields, List.mem_append, List.mem_cons, List.not_mem_nil, or_false] at hf
    rcases hf with hf | hf
    · rcases hf with rfl | rfl | rfl | rfl <;> trivial
    · exact fits_varintField _ _ f hf
  obtain ⟨id, current, last, fragment, crc⟩ := nf
  simp only [wire, hdecode, Option.bind_eq_bind, Option.bind_some]
  cases crc <;> simp [fragmentFields, varintField, findVarint, findBytes, allBytes]

/-! ### Sizes -/

theorem length_key {number wireType : Nat} (h : number * 8 + wireType < 128) :
    (key number wireType).length = 1 := by
  have hle := varintSize_le (k := 0) (n := number * 8 + wireType) (by simpa using h)
  have hpos := varintSize_pos (number * 8 + wireType)
  simp only [varintSize] at hle hpos
  rw [key]
  omega

private theorem length_encode_append (fs gs : List Field) :
    (encode (fs ++ gs)).length = (encode fs).length + (encode gs).length := by
  simp [encode]

private theorem length_encode_varintField {number : Nat} (h : number < 16) (n : Option UInt32) :
    (encode (varintField number n)).length = optionalSize n := by
  cases n with
  | none => simp [varintField, encode, optionalSize]
  | some n =>
      simp [varintField, encode, optionalSize, Field.encode, varintSize,
        length_key (show number * 8 + 0 < 128 by omega)]

private theorem length_encode_varint64Field {number : Nat} (h : number < 16)
    (n : Option UInt64) : (encode (varint64Field number n)).length = optionalSize64 n := by
  cases n with
  | none => simp [varint64Field, encode, optionalSize64]
  | some n =>
      simp [varint64Field, encode, optionalSize64, Field.encode, varintSize,
        length_key (show number * 8 + 0 < 128 by omega)]

private theorem length_encode_bytesField {number : Nat} (h : number < 15) (b : Option Bytes) :
    (encode (bytesField number b)).length = optionalBytesSize b := by
  cases b with
  | none => simp [bytesField, encode, optionalBytesSize]
  | some b =>
      simp [bytesField, encode, optionalBytesSize, Field.encode, varintSize,
        length_key (show number * 8 + 2 < 128 by omega)]
      omega

theorem length_packPayload (np : NmsgPayload) :
    (packPayload np).length = payloadPackedSize np := by
  rw [packPayload, payloadFields]
  simp only [length_encode_append, length_encode_varintField (show 7 < 16 by decide),
    length_encode_varintField (show 8 < 16 by decide),
    length_encode_varintField (show 9 < 16 by decide),
    length_encode_bytesField (show 5 < 15 by decide)]
  have hfixed : (encode [.varint 1 np.vid.toNat, .varint 2 np.msgtype.toNat,
      .varint 3 np.timeSec.toUInt64.toNat, .fixed32 4 np.timeNsec.toNat]).length =
      (1 + varintSize np.vid.toNat) + (1 + varintSize np.msgtype.toNat) +
        (1 + int64Size np.timeSec) + 5 := by
    simp only [encode, List.flatMap_cons, List.flatMap_nil, Field.encode, List.length_append,
      length_key (show 1 * 8 + 0 < 128 by decide), length_key (show 2 * 8 + 0 < 128 by decide),
      length_key (show 3 * 8 + 0 < 128 by decide), length_key (show 4 * 8 + 5 < 128 by decide),
      fixed32Bytes, List.length_reverse, Octets.length_beBytes, List.length_nil, varintSize,
      int64Size]
    omega
  rw [hfixed, payloadPackedSize]

theorem length_wire_packNmsg (nmsg : ProtoNmsg) :
    (wire.packNmsg nmsg).length = nmsgPackedSize nmsg := by
  have hpayloads : ∀ nps : List NmsgPayload,
      (encode (nps.map fun np => Field.bytes 1 (packPayload np))).length =
        (nps.map payloadFieldSize).sum := by
    intro nps
    induction nps with
    | nil => rfl
    | cons np nps ih =>
        rw [List.map_cons, List.map_cons, List.sum_cons, ← ih, encode, List.flatMap_cons,
          List.length_append]
        simp only [Field.encode, List.length_append, length_key (show 1 * 8 + 2 < 128 by decide),
          length_packPayload, payloadFieldSize, varintSize, encode]
        omega
  have hcrcs : ∀ crcs : List UInt32,
      (encode (crcs.map fun crc => Field.varint 2 crc.toNat)).length =
        (crcs.map crcFieldSize).sum := by
    intro crcs
    induction crcs with
    | nil => rfl
    | cons crc crcs ih =>
        rw [List.map_cons, List.map_cons, List.sum_cons, ← ih, encode, List.flatMap_cons,
          List.length_append]
        simp only [Field.encode, List.length_append, length_key (show 2 * 8 + 0 < 128 by decide),
          crcFieldSize, varintSize, encode]
  change (encode (nmsgFields nmsg)).length = _
  rw [nmsgFields, length_encode_append, length_encode_append, length_encode_append, hpayloads,
    hcrcs, length_encode_varint64Field (by decide), length_encode_varintField (by decide),
    nmsgPackedSize, sequenceSize]
  omega

theorem length_wire_packFragment (nf : NmsgFragment) :
    (wire.packFragment nf).length = fragmentPackedSize nf := by
  change (encode (fragmentFields nf)).length = _
  rw [fragmentFields, length_encode_append, length_encode_varintField (by decide),
    fragmentPackedSize]
  simp only [encode, List.flatMap_cons, List.flatMap_nil, Field.encode, List.length_append,
    length_key (show 1 * 8 + 0 < 128 by decide), length_key (show 2 * 8 + 0 < 128 by decide),
    length_key (show 3 * 8 + 0 < 128 by decide), length_key (show 4 * 8 + 2 < 128 by decide),
    List.length_nil, varintSize]
  omega

theorem wire_lawful : wire.Lawful where
  unpackNmsg_packNmsg := wire_unpackNmsg_packNmsg
  unpackFragment_packFragment := wire_unpackFragment_packFragment
  length_packNmsg := length_wire_packNmsg
  length_packFragment := length_wire_packFragment

end Nmsg

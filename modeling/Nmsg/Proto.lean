import Nmsg.Defs
import Nmsg.Lib.WireFormat

/-!
# Protocol messages

The records of `nmsg.proto` and what the code relies on of the functions generated from it: packing
and unpacking are inverse, and the packed size is the one of the wire format.
-/

namespace Nmsg

open WireFormat (varintSize)

/-- `Nmsg__NmsgPayload`. An optional field is its `has_` flag and its value in one. -/
structure NmsgPayload where
  vid : UInt32
  msgtype : UInt32
  timeSec : Int64
  timeNsec : UInt32
  payload : Option Bytes
  source : Option UInt32
  operator : Option UInt32
  group : Option UInt32
deriving DecidableEq

/-- `Nmsg__Nmsg` -/
structure ProtoNmsg where
  payloads : List NmsgPayload
  payloadCrcs : List UInt32
  sequence : Option UInt32
  sequenceId : Option UInt64
deriving DecidableEq

/-- `Nmsg__NmsgFragment`. The library reads an empty octet string as a null pointer, so that
`fragment = []` is the null pointer as well. -/
structure NmsgFragment where
  id : UInt32
  current : UInt32
  last : UInt32
  fragment : Bytes
  crc : Option UInt32
deriving DecidableEq

/-! ### Packed sizes -/

/-- The octets of the varint a signed number is packed as. -/
def int64Size (n : Int64) : Nat := varintSize n.toUInt64.toNat

/-- Key and value of an optional number. -/
def optionalSize : Option UInt32 → Nat
  | none => 0
  | some n => 1 + varintSize n.toNat

def optionalSize64 : Option UInt64 → Nat
  | none => 0
  | some n => 1 + varintSize n.toNat

def optionalBytesSize : Option Bytes → Nat
  | none => 0
  | some b => 1 + varintSize b.length + b.length

/-- `nmsg__nmsg_payload__get_packed_size` -/
def payloadPackedSize (np : NmsgPayload) : Nat :=
  (1 + varintSize np.vid.toNat) + (1 + varintSize np.msgtype.toNat) +
    (1 + int64Size np.timeSec) + 5 + optionalBytesSize np.payload + optionalSize np.source +
    optionalSize np.operator + optionalSize np.group

def sequenceSize (nmsg : ProtoNmsg) : Nat :=
  optionalSize nmsg.sequence + optionalSize64 nmsg.sequenceId

/-- Key, length and octets of a packed payload. -/
def payloadFieldSize (np : NmsgPayload) : Nat :=
  1 + varintSize (payloadPackedSize np) + payloadPackedSize np

def crcFieldSize (crc : UInt32) : Nat := 1 + varintSize crc.toNat

def nmsgPackedSize (nmsg : ProtoNmsg) : Nat :=
  (nmsg.payloads.map payloadFieldSize).sum + (nmsg.payloadCrcs.map crcFieldSize).sum +
    sequenceSize nmsg

def fragmentPackedSize (nf : NmsgFragment) : Nat :=
  (1 + varintSize nf.id.toNat) + (1 + varintSize nf.current.toNat) +
    (1 + varintSize nf.last.toNat) + (1 + varintSize nf.fragment.length + nf.fragment.length) +
    optionalSize nf.crc

/-! ### The generated functions -/

/-- `nmsg__nmsg__pack` and the other functions generated from `nmsg.proto`. -/
structure ProtobufC where
  packNmsg : ProtoNmsg → Bytes
  unpackNmsg : Bytes → Option ProtoNmsg
  packFragment : NmsgFragment → Bytes
  unpackFragment : Bytes → Option NmsgFragment

/-- Packing and unpacking are inverse, and packing fills the size the wire format gives. -/
structure ProtobufC.Lawful (pb : ProtobufC) : Prop where
  unpackNmsg_packNmsg : ∀ nmsg, pb.unpackNmsg (pb.packNmsg nmsg) = some nmsg
  unpackFragment_packFragment : ∀ nf, pb.unpackFragment (pb.packFragment nf) = some nf
  length_packNmsg : ∀ nmsg, (pb.packNmsg nmsg).length = nmsgPackedSize nmsg
  length_packFragment : ∀ nf, (pb.packFragment nf).length = fragmentPackedSize nf

theorem varintSize_uint32 (n : UInt32) : varintSize n.toNat ≤ 5 :=
  WireFormat.varintSize_le (k := 4) (Nat.lt_trans n.toNat_lt (by decide))

theorem varintSize_uint64 (n : UInt64) : varintSize n.toNat ≤ 10 :=
  WireFormat.varintSize_le (k := 9) (Nat.lt_trans n.toNat_lt (by decide))

theorem optionalSize_le (n : Option UInt32) : optionalSize n ≤ 6 := by
  cases n with
  | none => simp [optionalSize]
  | some n =>
      have := varintSize_uint32 n
      simp only [optionalSize]
      omega

theorem crcFieldSize_le (crc : UInt32) : crcFieldSize crc ≤ 6 := by
  have := varintSize_uint32 crc
  simp only [crcFieldSize]
  omega

end Nmsg

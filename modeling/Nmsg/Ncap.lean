import Nmsg.Ipdg
import Nmsg.Proto

/-!
# Captured packets as messages

The module for captured packets parses the packet of a message when the message is made, and keeps
what its getters hand over: places in the packet, and numbers.
-/

namespace Nmsg

/-! ### The message -/

/-- `Nmsg__Base__Ncap`. The decoder takes any number for that of an enumeration. -/
structure Ncap where
  type : UInt32
  payload : Bytes
  ltype : Option UInt32
  srcip : Option Bytes
  dstip : Option Bytes
  lint0 : Option UInt32
  lint1 : Option UInt32
deriving DecidableEq

/-- `NcapType` -/
inductive NcapType where
  | ipv4
  | ipv6
  | legacy
deriving DecidableEq, Repr

/-- `NcapLegacyType` -/
inductive NcapLegacyType where
  | udp
  | tcp
  | icmp
deriving DecidableEq, Repr

/-- The case of `switch (ncap->type)`, none for the default. -/
def NcapType.ofNumber (n : UInt32) : Option NcapType :=
  if n = 0 then some .ipv4 else if n = 1 then some .ipv6 else if n = 2 then some .legacy else none

/-- The case of `switch (ncap->ltype)`. A type that is not there is the first. -/
def NcapLegacyType.ofNumber (n : Option UInt32) : Option NcapLegacyType :=
  let n := n.getD 0
  if n = 0 then some .udp else if n = 1 then some .tcp else if n = 2 then some .icmp else none

open WireFormat in
/-- `nmsg__base__ncap__unpack` on the fields of the wire format. -/
def unpackNcap (b : Bytes) : Option Ncap := do
  let fields ← decode b
  let type ← findVarint 1 fields
  let payload ← findBytes 2 fields
  return {
    type := .ofNat type
    payload := payload
    ltype := (findVarint 3 fields).map .ofNat
    srcip := findBytes 4 fields
    dstip := findBytes 5 fields
    lint0 := (findVarint 6 fields).map .ofNat
    lint1 := (findVarint 7 fields).map .ofNat }

/-! ### Parsing the packet -/

/-- What `nmsg_ipdg_parse` leaves of a datagram in a structure of zeroes, whatever it returns. The
network header is the start of the packet. -/
structure IpdgLeft where
  protoTransport : UInt8
  transport : Option Nat
  payload : Option (Nat × Nat)
deriving DecidableEq

/-- `nmsg_ipdg_parse`, for what it leaves. -/
def nmsgIpdgParseLeft (host : ByteOrder) (etype len : Nat) (pkt : Bytes) :
    Except Abort IpdgLeft := do
  match ← networkHeader (exthdrsReasm host pkt 0 len) etype pkt 0 len with
  | none => return { protoTransport := 0, transport := none, payload := none }
  | some h =>
      if h.isFragment then
        return { protoTransport := h.protoTransport, transport := none, payload := none }
      else if h.protoTransport = ipprotoUdp then
        let payload ← udpPayload pkt h.next h.len
        return { protoTransport := h.protoTransport, transport := some h.next, payload := payload }
      else
        return { protoTransport := h.protoTransport, transport := some h.next, payload := none }

/-- `struct ncap_priv`. Addresses are places in the packet. A port that was not read is zero. -/
structure NcapPriv where
  srcip : Option (Nat × Nat)
  dstip : Option (Nat × Nat)
  srcport : Option UInt32
  dstport : Option UInt32
  proto : UInt32
  dg : IpdgLeft
deriving DecidableEq

/-- The ports that `ncap_msg_load` reads behind the network header. -/
def ncapPorts (pkt : Bytes) (dg : IpdgLeft) : Except Abort (Option (Nat × Nat)) :=
  if dg.protoTransport = ipprotoUdp then
    match dg.transport with
    | none => .error .nullPointer
    | some transport => do
        let srcport ← loadNet16 pkt transport
        let dstport ← loadNet16 pkt (transport + 2)
        return some (srcport, dstport)
  else .ok none

/-- The IPv4 and IPv6 cases of `ncap_msg_load`. The addresses of `addrLen` octets are at `src` and
`dst` of the network header, and the number of the protocol is at `proto`. -/
def ncapLoadPacket (host : ByteOrder) (etype src dst addrLen proto : Nat) (pkt : Bytes) :
    Except Abort NcapPriv := do
  let dg ← nmsgIpdgParseLeft host etype pkt.length pkt
  let proto ← octetAt pkt proto
  let ports ← ncapPorts pkt dg
  return {
    srcip := some (src, addrLen)
    dstip := some (dst, addrLen)
    srcport := ports.map fun p => .ofNat p.1
    dstport := ports.map fun p => .ofNat p.2
    proto := proto.toUInt32
    dg := dg }

/-- The legacy case of `ncap_msg_load`. -/
def ncapLoadLegacy (ncap : Ncap) : Except Abort NcapPriv :=
  match NcapLegacyType.ofNumber ncap.ltype with
  | none => .error .assertion
  | some ltype =>
      .ok {
        srcip := none
        dstip := none
        srcport := if ltype = .icmp then none else ncap.lint0
        dstport := if ltype = .icmp then none else ncap.lint1
        proto :=
          match ltype with
          | .udp => ipprotoUdp.toUInt32
          | .tcp => ipprotoTcp.toUInt32
          | .icmp => ipprotoIcmp.toUInt32
        dg := { protoTransport := 0, transport := none, payload := none } }

/-! ### Message objects -/

/-- `struct nmsg_message` of the module. -/
structure NcapObject where
  np : NmsgPayload
  message : Option Ncap
  priv : Option NcapPriv
deriving DecidableEq

/-- What a getter points at: octets of the packet, an address of the message, a number that was
loaded, or nothing. -/
inductive NcapData where
  | payload (offset : Nat)
  | srcip
  | dstip
  | srcport
  | dstport
  | proto
  | null
deriving DecidableEq, Repr

inductive NcapGetter where
  | srcip
  | dstip
  | srcport
  | dstport
  | proto
  | dns
deriving DecidableEq, Repr

namespace NcapObject

section Unpack

variable (host : ByteOrder) (unpack : Bytes → Option Ncap)

/-- `nmsg_message_get_payload` -/
def getPayload (msg : NcapObject) : Except Abort (Ncap × NcapObject) :=
  match msg.message with
  | some ncap => .ok (ncap, msg)
  | none =>
      match msg.np.payload.bind unpack with
      | none => .error .assertion
      | some ncap => .ok (ncap, { msg with message := some ncap })

/-- `ncap_msg_load` -/
def msgLoad (msg : NcapObject) : Except Abort (Res × NcapObject) := do
  let (ncap, msg) ← msg.getPayload unpack
  if ncap.payload = [] then return (.failure, msg)
  else
    match NcapType.ofNumber ncap.type with
    | some .ipv4 =>
        let priv ← ncapLoadPacket host ethertypeIp 12 16 4 9 ncap.payload
        return (.success, { msg with priv := some priv })
    | some .ipv6 =>
        let priv ← ncapLoadPacket host ethertypeIpv6 8 24 16 6 ncap.payload
        return (.success, { msg with priv := some priv })
    | some .legacy =>
        let priv ← ncapLoadLegacy ncap
        return (.success, { msg with priv := some priv })
    | none => throw .assertion

/-- `_nmsg_message_from_payload` of a payload of the module. What `msg_load` returns is not looked
at. -/
def fromPayload (np : NmsgPayload) : Except Abort NcapObject := do
  let (_, msg) ← msgLoad host unpack { np := np, message := none, priv := none }
  return msg

/-- `ncap_get_srcip` and `ncap_get_dstip`: what was found of the address in the packet, and the
address of the message. -/
def getAddress (place : NcapPriv → Option (Nat × Nat)) (own : Ncap → Option Bytes)
    (data : NcapData) (msg : NcapObject) (valIdx : Nat) :
    Except Abort ((Res × Option (NcapData × Nat)) × NcapObject) := do
  let (ncap, msg) ← msg.getPayload unpack
  match msg.priv with
  | none => return ((.failure, none), msg)
  | some priv =>
      if valIdx = 0 then
        match NcapType.ofNumber ncap.type with
        | some .ipv4 | some .ipv6 =>
            match place priv with
            | none => return ((.success, some (.null, 0)), msg)
            | some (offset, len) => return ((.success, some (.payload offset, len)), msg)
        | some .legacy => return ((.success, (own ncap).map fun b => (data, b.length)), msg)
        | none => throw .assertion
      else return ((.failure, none), msg)

/-- `ncap_get_srcport`, `ncap_get_dstport` and `ncap_get_proto`: a number of four octets, if it was
loaded. -/
def getNumber (loaded : NcapPriv → Bool) (data : NcapData) (msg : NcapObject) (valIdx : Nat) :
    Except Abort ((Res × Option (NcapData × Nat)) × NcapObject) :=
  match msg.priv with
  | none => .ok ((.failure, none), msg)
  | some priv =>
      if valIdx = 0 ∧ loaded priv = true then .ok ((.success, some (data, 4)), msg)
      else .ok ((.failure, none), msg)

/-- A port of DNS. -/
def isDnsPort (port : Option UInt32) : Bool := port.getD 0 = 53 || port.getD 0 = 5353

/-- `ncap_get_dns` -/
def getDns (msg : NcapObject) (valIdx : Nat) :
    Except Abort ((Res × Option (NcapData × Nat)) × NcapObject) := do
  let (ncap, msg) ← msg.getPayload unpack
  match msg.priv with
  | none => return ((.failure, none), msg)
  | some priv =>
      if valIdx ≠ 0 then return ((.failure, none), msg)
      else if isDnsPort priv.srcport || isDnsPort priv.dstport then
        match NcapType.ofNumber ncap.type with
        | some .ipv4 | some .ipv6 =>
            match priv.dg.payload with
            | none => return ((.success, some (.null, 0)), msg)
            | some (offset, len) => return ((.success, some (.payload offset, len)), msg)
        | some .legacy => return ((.success, some (.payload 0, ncap.payload.length)), msg)
        | none => throw .assertion
      else return ((.failure, none), msg)

/-- The `get` function of a field: the result, the data and the length that were set, and the
message. -/
def get (msg : NcapObject) : NcapGetter → Nat →
    Except Abort ((Res × Option (NcapData × Nat)) × NcapObject)
  | .srcip => getAddress unpack NcapPriv.srcip Ncap.srcip .srcip msg
  | .dstip => getAddress unpack NcapPriv.dstip Ncap.dstip .dstip msg
  | .srcport => getNumber (fun priv => priv.srcport.isSome) .srcport msg
  | .dstport => getNumber (fun priv => priv.dstport.isSome) .dstport msg
  | .proto => getNumber (fun _ => true) .proto msg
  | .dns => getDns unpack msg

end Unpack

/-- The octets a getter points at are octets of the message. -/
def Inside (msg : NcapObject) (data : NcapData) (len : Nat) : Prop :=
  match data with
  | .payload offset => ∃ ncap, msg.message = some ncap ∧ offset + len ≤ ncap.payload.length
  | .srcip => ∃ ncap b, msg.message = some ncap ∧ ncap.srcip = some b ∧ len ≤ b.length
  | .dstip => ∃ ncap b, msg.message = some ncap ∧ ncap.dstip = some b ∧ len ≤ b.length
  | .srcport | .dstport | .proto => msg.priv.isSome = true ∧ len ≤ 4
  | .null => len = 0

end NcapObject

end Nmsg

import Nmsg.Message
import Nmsg.Zbuf
import Nmsg.Lib.StepRun

/-!
# Containers

Payloads are collected in a container, with an estimate of its size as the only bound on what is
allocated for packing it. A serialized container is the packed payloads, compressed or not, behind
a header of magic, version with flags, and length.
-/

namespace Nmsg

open Octets

/-- `htonl` and `ntohl` on a machine that stores the least significant octet first. -/
def htonl (n : UInt32) : UInt32 := .ofNat (beNat (beBytes 4 n.toNat).reverse)

def ntohl (n : UInt32) : UInt32 := htonl n

@[simp]
theorem ntohl_htonl (n : UInt32) : ntohl (htonl n) = n := by
  have hlt : ∀ b : Bytes, b.length = 4 → beNat b < 2 ^ 32 := by
    intro b hb
    have := beNat_lt b
    rw [hb] at this
    omega
  have hswap : (beBytes 4 (htonl n).toNat) = (beBytes 4 n.toNat).reverse := by
    have hmod : (htonl n).toNat = beNat (beBytes 4 n.toNat).reverse := by
      rw [htonl, UInt32.toNat_ofNat', Nat.mod_eq_of_lt (hlt _ (by simp))]
    have hback := beBytes_beNat (beBytes 4 n.toNat).reverse
    rw [List.length_reverse, length_beBytes] at hback
    rw [hmod, hback]
  rw [ntohl, htonl, hswap, List.reverse_reverse,
    beNat_beBytes_of_lt (Nat.lt_of_lt_of_le n.toNat_lt (by decide)), UInt32.ofNat_toNat]

/-- `_nmsg_payload_size`. The payload counts as empty in the packed size, and its octets and the
further octets of their length are added. -/
def payloadSize (np : NmsgPayload) : Nat :=
  let len := (np.payload.getD []).length
  payloadPackedSize { np with payload := np.payload.map fun _ => [] } + len +
    (if len ≥ 2 ^ 7 then 1 else 0) + (if len ≥ 2 ^ 14 then 1 else 0)

/-- `_nmsg_payload_calc_crcs`, for the checksum function `my_crc32c`. -/
def payloadCalcCrcs (crc32c : Bytes → UInt32) (nmsg : ProtoNmsg) : ProtoNmsg :=
  { nmsg with payloadCrcs := nmsg.payloads.map fun np => htonl (crc32c (np.payload.getD [])) }

/-- `struct nmsg_container` -/
structure Container where
  nmsg : ProtoNmsg
  bufsz : Nat
  estsz : Nat
  doSequence : Bool
deriving DecidableEq

/-- `nmsg_container_init` -/
def containerInit (bufsz : Nat) : Option Container :=
  if bufsz < wbufszMin then none
  else some {
    nmsg := ⟨[], [], none, none⟩
    bufsz := bufsz
    estsz := hdrlszV2
    doSequence := false }

/-- `nmsg_container_set_sequence` -/
def containerSetSequence (c : Container) (doSequence : Bool) : Container :=
  { c with doSequence := doSequence }

/-- What a payload of size `npLen` adds to `estsz`. -/
def estimate (doSequence : Bool) (npLen : Nat) : Nat :=
  npLen + (1 + 1) + (if npLen ≥ 2 ^ 7 then 1 else 0) + (if npLen ≥ 2 ^ 14 then 1 else 0) +
    (if npLen ≥ 2 ^ 21 then 1 else 0) + 6 + (if doSequence then 6 + 12 else 0)

/-- `nmsg_container_add`: the container takes the payload out of the message. -/
def containerAdd (now : WallTime) (c : Container) (msg : Message) :
    Except Abort (Res × Container × Message) :=
  let msg := messageSerialize now msg
  match msg.np with
  | none => .error .assertion
  | some np =>
      let npLen := payloadSize np
      if c.estsz ≠ hdrlszV2 ∧ c.estsz + npLen + 32 ≥ c.bufsz then .ok (.containerFull, c, msg)
      else
        let c := { c with
          nmsg := { c.nmsg with payloads := c.nmsg.payloads ++ [np] }
          estsz := c.estsz + estimate c.doSequence npLen }
        let msg := { msg with np := none }
        if c.estsz > c.bufsz then .ok (.containerOverfull, c, msg)
        else .ok (.success, c, msg)

/-- A message that is added at some time of day. -/
structure Addition where
  now : WallTime
  msg : Message
deriving DecidableEq

/-- Messages added to a container one after the other: the results and the container. -/
def containerAddAll (c : Container) (adds : List Addition) :
    Except Abort (List Res × Container) :=
  StepRun.run (fun c (add : Addition) =>
    (containerAdd add.now c add.msg).map fun (res, c', _) => (res, c')) c adds

/-- The payloads a container took, given the results of adding them. -/
def acceptedPayloads (adds : List Addition) (results : List Res) : List NmsgPayload :=
  (adds.zip results).filterMap fun (add, res) =>
    if res = .containerFull then none else (messageSerialize add.now add.msg).np

/-- Magic, version with flags, and length. -/
def headerSerialize (flags : UInt8) (len : Nat) : Bytes :=
  magic ++ beBytes 2 (version + flags.toNat * 256) ++ beBytes 4 len

/-- A buffer and the length the code reports for it. -/
structure Serialized where
  buf : Bytes
  bufLen : Nat
deriving DecidableEq

section Serialize

variable (pb : ProtobufC) (z : Zlib) (crc32c : Bytes → UInt32)

/-- The container as it is packed. -/
def containerPrepare (c : Container) (sequence : UInt32) (sequenceId : UInt64) : Container :=
  let nmsg := payloadCalcCrcs crc32c c.nmsg
  { c with
    nmsg :=
      if c.doSequence then
        { nmsg with sequence := some sequence, sequenceId := some sequenceId }
      else nmsg }

/-- `nmsg_container_serialize`, all allocations succeeding. `estsz` octets are allocated for the
packed container and as many, or twice as many when compressing, for the result. -/
def containerSerialize (c : Container) (doHeader doZlib : Bool) (sequence : UInt32)
    (sequenceId : UInt64) : Except Abort (Serialized × Container) :=
  let allocated := if doZlib then 2 * c.estsz else c.estsz
  let hdr := if doHeader then hdrlszV2 else 0
  let flags := if doZlib then flagZlib else 0
  let c := containerPrepare crc32c c sequence sequenceId
  let packed := pb.packNmsg c.nmsg
  let finish (body : Bytes) (len : Nat) : Except Abort (Serialized × Container) :=
    if hdr + body.length > allocated then .error .outOfBounds
    else .ok (⟨(if doHeader then headerSerialize flags len else []) ++ body, hdr + len⟩, c)
  if doZlib then
    if packed.length > c.estsz then .error .outOfBounds
    else
      match nmsgZbufDeflate z packed (2 * c.estsz) with
      | .error e => .error e
      | .ok (body, len) => finish body len
  else finish packed packed.length

/-- How far `nmsg_container_serialize` writes into `zb_tmp` and into the buffer it returns. -/
structure SerializeExtent where
  zbTmp : Nat
  buf : Nat
deriving DecidableEq

/-- The header, if there is one, and the packed container behind it, or four octets of its length
and what `deflate` writes before it runs out of `avail_out`. -/
def serializeExtent (c : Container) (doHeader doZlib : Bool) (sequence : UInt32)
    (sequenceId : UInt64) : SerializeExtent :=
  let hdr := if doHeader then hdrlszV2 else 0
  let packed := pb.packNmsg (containerPrepare crc32c c sequence sequenceId).nmsg
  if doZlib then
    ⟨packed.length,
      hdr + (4 + min (2 * c.estsz % 2 ^ 32)
        (z.deflate (packed.take (packed.length % 2 ^ 32))).length)⟩
  else ⟨0, hdr + packed.length⟩

/-- The writes stay within what was allocated. -/
structure SerializeExtent.Within (estsz : Nat) (doZlib : Bool) (extent : SerializeExtent) : Prop where
  zbTmp : extent.zbTmp ≤ estsz
  buf : extent.buf ≤ if doZlib then 2 * estsz else estsz

/-! ### Reading -/

/-- `_input_nmsg_deserialize_header`: flags and length. `buf` is the memory from the header on, and
only four octets of it have been checked to be there. -/
def inputNmsgDeserializeHeader (buf : Bytes) (bufLen : Nat) :
    Except Abort (Except Res (UInt8 × Nat)) :=
  if bufLen < lenhdrszV2 then .ok (.error .failure)
  else if buf.length < 4 then .error .outOfBounds
  else if buf.take 4 ≠ magic then .ok (.error .magicMismatch)
  else if buf.length < hdrsz then .error .outOfBounds
  else
    let version := beNat ((buf.drop 4).take 2)
    if version % 256 ≠ 2 then .ok (.error .versionMismatch)
    else if buf.length < hdrlszV2 then .error .outOfBounds
    else .ok (.ok (.ofNat (version / 256), beNat ((buf.drop 6).take 4)))

/-- `_input_nmsg_unpack_container2` -/
def inputNmsgUnpackContainer2 (buf past : Bytes) (flags : UInt8) : Res × Option ProtoNmsg :=
  if flags &&& flagFragment ≠ 0 then (.failure, none)
  else if flags &&& flagZlib ≠ 0 then
    match nmsgZbufInflate z z.inflateInit buf past true with
    | (.success, uBuf, _) =>
        match pb.unpackNmsg uBuf with
        | none => (.failure, none)
        | some nmsg => (.success, some nmsg)
    | (res, _, _) => (res, none)
  else
    match pb.unpackNmsg buf with
    | none => (.failure, none)
    | some nmsg => (.success, some nmsg)

/-- `nmsg_container_deserialize`, all allocations succeeding. `past` is the memory behind the
`bufLen` octets of `buf`. -/
def containerDeserialize (buf : Bytes) (bufLen : Nat) (past : Bytes) :
    Except Abort (Res × List Message) :=
  match inputNmsgDeserializeHeader buf bufLen with
  | .error e => .error e
  | .ok (.error res) => .ok (res, [])
  | .ok (.ok (flags, msgsize)) =>
      -- the subtraction wraps for a buffer without a whole header, and then nothing is equal to it
      if bufLen < hdrlszV2 ∨ msgsize ≠ bufLen - hdrlszV2 then .ok (.failure, [])
      else if buf.length < bufLen then .error .outOfBounds
      else
        match inputNmsgUnpackContainer2 pb z ((buf.drop hdrlszV2).take msgsize) past flags with
        | (.success, some nmsg) => .ok (.success, nmsg.payloads.map messageFromPayload)
        | (res, _) => .ok (res, [])

end Serialize

/-- The payload CRC check of `_input_nmsg_filter`: a payload without a CRC passes. -/
def payloadCrcMatches (crc32c : Bytes → UInt32) (nmsg : ProtoNmsg) (idx : Nat)
    (np : NmsgPayload) : Bool :=
  match nmsg.payloadCrcs[idx]? with
  | none => true
  | some wireCrc => ntohl wireCrc == crc32c (np.payload.getD [])

end Nmsg

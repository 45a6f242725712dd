import Nmsg.SockOutput

/-!
# Outputs whose allocations fail

The output of a stream, file or socket, when memory runs out: any allocation of a write may fail. A
container may then be missing, or count a payload pointer that it does not have.
-/

namespace Nmsg

/-- Which of the two functions that write a container out is at work. -/
inductive Writer where
  | container
  | fragments
deriving DecidableEq, Repr

/-- The allocations of a write: the payload of the message and the buffer it is packed to; the array
of payload pointers, when the payload is added or added again; the buffers of a container that is
serialized and its CRCs; the buffer of a fragment; and the two parts of the next container. -/
inductive Allocation where
  | np
  | packed
  | payloads (again : Bool)
  | buf (w : Writer)
  | payloadCrcs (w : Writer)
  | zbTmp (w : Writer)
  | zbuf (w : Writer)
  | fragment (i : Nat)
  | container (w : Writer)
  | nmsg (w : Writer)
deriving DecidableEq, Repr

/-- A stream output. `nPayloads` is what `stream->c` counts; the payload pointers that it has are
those of `output.c`. It is none when `stream->c` is the null pointer. -/
structure FaultyOutput where
  output : StreamOutput
  nPayloads : Option Nat

/-- What a write gives: the result, the buffers handed to `write()`, and whether an allocation
failed. -/
structure WriteAnswer where
  res : Res
  sent : List Bytes
  failed : Bool
deriving DecidableEq

/-- A call of `nmsg_output_write`: which of its buffers cannot be sent, and which of its allocations
fail. -/
structure FaultyWrite where
  now : WallTime
  id : UInt32
  msg : Message
  sendFails : Nat → Bool
  allocFails : Allocation → Bool

section Write

variable (pb : ProtobufC) (z : Zlib) (crc32c : Bytes → UInt32) (allocFails : Allocation → Bool)

/-- `_nmsg_message_serialize`, none for `nmsg_res_memfail`. -/
def messageSerializeFaulty (now : WallTime) (msg : Message) : Option Message :=
  match msg.message with
  | none => some msg
  | some _ =>
      if msg.updated = true ∨ msg.np = none then
        if msg.np = none ∧ allocFails .np = true then none
        else if allocFails .packed = true then none
        else some (messageSerialize now msg)
      else some msg

/-- `nmsg_container_add`, for a message that was serialized: the result, the container and what it
counts, and the message. The count goes up before the array is there. -/
def containerAddFaulty (c : Container) (nPayloads : Option Nat) (msg : Message) (again : Bool) :
    Except Abort (Res × Container × Nat × Message) :=
  match msg.np, nPayloads with
  | none, _ => .error .assertion
  | some _, none => .error .nullPointer
  | some np, some nPayloads =>
      let npLen := payloadSize np
      if c.estsz ≠ hdrlszV2 ∧ c.estsz + npLen + 32 ≥ c.bufsz then
        .ok (.containerFull, c, nPayloads, msg)
      else if allocFails (.payloads again) = true then .ok (.memfail, c, nPayloads + 1, msg)
      else
        let c := { c with
          nmsg := { c.nmsg with payloads := c.nmsg.payloads ++ [np] }
          estsz := c.estsz + estimate c.doSequence npLen }
        let msg := { msg with np := none }
        if c.estsz > c.bufsz then .ok (.containerOverfull, c, nPayloads + 1, msg)
        else .ok (.success, c, nPayloads + 1, msg)

/-- The payload pointers of a container are gone through, as many as it counts. -/
def readPayloads (c : Container) (nPayloads : Nat) : Except Abort Unit :=
  if nPayloads = c.nmsg.payloads.length then .ok () else .error .outOfBounds

/-- `nmsg_container_serialize`, none for `nmsg_res_memfail`. -/
def containerSerializeFaulty (w : Writer) (s : FaultyOutput) (doHeader : Bool) :
    Except Abort (Option Serialized) :=
  match s.nPayloads with
  | none => .error .nullPointer
  | some nPayloads =>
      if allocFails (.buf w) = true then .ok none
      else if allocFails (.payloadCrcs w) = true then .error .assertion
      else
        match readPayloads s.output.c nPayloads with
        | .error e => .error e
        | .ok () =>
            if s.output.config.doZlib = true ∧
                (allocFails (.zbTmp w) = true ∨ allocFails (.zbuf w) = true) then .ok none
            else
              (containerSerialize pb z crc32c s.output.c doHeader s.output.config.doZlib
                s.output.sequence s.output.sequenceId).map fun out => some out.1

/-- `nmsg_container_destroy` -/
def destroyContainer (s : FaultyOutput) : Except Abort Unit :=
  match s.nPayloads with
  | none => .ok ()
  | some nPayloads => readPayloads s.output.c nPayloads

/-- The end of both functions: the container is destroyed and a new one made, which may fail. -/
def renewContainer (w : Writer) (s : FaultyOutput) (octets : Bytes) :
    Except Abort (Bool × FaultyOutput) :=
  match destroyContainer s with
  | .error e => .error e
  | .ok () =>
      if allocFails (.container w) = true ∨ allocFails (.nmsg w) = true then
        .ok (true, ⟨s.output.next octets, none⟩)
      else .ok (false, ⟨s.output.next octets, some 0⟩)

/-- Both functions return `nmsg_res_memfail` if there is no new container, and else what they did. -/
def afterRenewal (answer : WriteAnswer) (renewed : Bool × FaultyOutput) :
    WriteAnswer × FaultyOutput :=
  if renewed.1 then ({ answer with res := .memfail, failed := true }, renewed.2)
  else (answer, renewed.2)

/-- `_output_nmsg_write_container` -/
def writeContainerFaulty (s : FaultyOutput) (sendFails : Bool) :
    Except Abort (WriteAnswer × FaultyOutput) :=
  match containerSerializeFaulty pb z crc32c allocFails .container s true with
  | .error e => .error e
  | .ok none =>
      (renewContainer allocFails .container s []).map
        (afterRenewal { res := .memfail, sent := [], failed := true })
  | .ok (some out) =>
      if out.buf.length < out.bufLen then .error .outOfBounds
      else
        let sent := out.buf.take out.bufLen
        (renewContainer allocFails .container s sent).map
          (afterRenewal { res := outputNmsgWriteSock sendFails, sent := [sent], failed := false })

/-- The loop of `_output_frag_write`: the fragments that are sent, and whether the buffer of one was
not to be had, which ends the loop. -/
def fragDatagramsFaulty (bufsz : Nat) (flags : UInt8) (nf : NmsgFragment) (packed : Bytes) :
    Nat → Nat → Nat → Except Abort (List Bytes × Bool)
  | 0, fragpos, _ => if fragpos < packed.length then .error .divergence else .ok ([], false)
  | fuel + 1, fragpos, i =>
      if fragpos < packed.length then
        if allocFails (.fragment i) = true then .ok ([], true)
        else
          let maxFragsz := bufsz - 32
          let fragsz :=
            if packed.length - fragpos > maxFragsz then maxFragsz else packed.length - fragpos
          let frag := pb.packFragment
            { nf with current := .ofNat i, fragment := (packed.drop fragpos).take fragsz }
          if bufsz + 32 < frag.length then .error .outOfBounds
          else if i + 1 = 2 ^ 31 then .error .signedOverflow
          else
            match fragDatagramsFaulty bufsz flags nf packed fuel (fragpos + maxFragsz) (i + 1) with
            | .error e => .error e
            | .ok (rest, failed) => .ok ((headerSerialize flags frag.length ++ frag) :: rest, failed)
      else .ok ([], false)

/-- `_output_frag_write`. When the container cannot be serialized, it is kept. -/
def fragWriteFaulty (s : FaultyOutput) (id : UInt32) (sendFails : Nat → Bool) :
    Except Abort (WriteAnswer × FaultyOutput) :=
  let maxFragsz := s.output.bufsz - 32
  match containerSerializeFaulty pb z crc32c allocFails .fragments s false with
  | .error e => .error e
  | .ok none =>
      let output := { s.output with
        sequence := if s.output.doSequence then s.output.sequence + 1 else s.output.sequence }
      .ok ({ res := .memfail, sent := [], failed := true }, { s with output := output })
  | .ok (some out) =>
      if out.buf.length < out.bufLen then .error .outOfBounds
      else
        let packed := out.buf.take out.bufLen
        if s.output.config.doZlib = true ∧ packed.length ≤ maxFragsz then
          (renewContainer allocFails .fragments s packed).map
            (afterRenewal
              { res := outputNmsgWriteSock (sendFails 0), sent := [packed], failed := false })
        else
          let flags := (if s.output.config.doZlib then flagZlib else 0) ||| flagFragment
          let nf : NmsgFragment := {
            id := id
            current := 0
            last := .ofNat (packed.length / maxFragsz)
            fragment := []
            crc := some (htonl (crc32c packed)) }
          match fragDatagramsFaulty pb allocFails s.output.bufsz flags nf packed packed.length 0 0
          with
          | .error e => .error e
          | .ok (datagrams, failed) =>
              (renewContainer allocFails .fragments s datagrams.flatten).map
                (afterRenewal {
                  res := if failed then .memfail else sendResult sendFails datagrams
                  sent := datagrams
                  failed := failed })

/-- `_output_nmsg_write`, for a message that was serialized. -/
def outputNmsgWriteFaulty (s : FaultyOutput) (id : UInt32) (msg : Message)
    (sendFails : Nat → Bool) : Except Abort (WriteAnswer × FaultyOutput) :=
  match msg.np with
  | none => .error .assertion
  | some np =>
      match containerAddFaulty allocFails s.output.c s.nPayloads
        { msg with np := some (s.output.config.override np) } false with
      | .error e => .error e
      | .ok (.containerFull, _, _, msg) =>
          match writeContainerFaulty pb z crc32c allocFails s (sendFails 0) with
          | .error e => .error e
          | .ok (answer, s) =>
              if answer.res ≠ .success then .ok (answer, s)
              else
                match containerAddFaulty allocFails s.output.c s.nPayloads msg true with
                | .error e => .error e
                | .ok (.containerOverfull, c, nPayloads, _) =>
                    (fragWriteFaulty pb z crc32c allocFails
                      ⟨{ s.output with c := c }, some nPayloads⟩ id fun k => sendFails (k + 1)).map
                      fun (last, s) => ({ last with sent := answer.sent ++ last.sent }, s)
                | .ok (res, c, nPayloads, _) =>
                    .ok ({ answer with res := res, failed := res = .memfail },
                      ⟨{ s.output with c := c }, some nPayloads⟩)
      | .ok (.success, c, nPayloads, _) =>
          if s.output.config.buffered = false then
            writeContainerFaulty pb z crc32c allocFails
              ⟨{ s.output with c := c }, some nPayloads⟩ (sendFails 0)
          else
            .ok ({ res := .success, sent := [], failed := false },
              ⟨{ s.output with c := c }, some nPayloads⟩)
      | .ok (.containerOverfull, c, nPayloads, _) =>
          fragWriteFaulty pb z crc32c allocFails
            ⟨{ s.output with c := c }, some nPayloads⟩ id sendFails
      | .ok (res, c, nPayloads, _) =>
          .ok ({ res := res, sent := [], failed := res = .memfail },
            ⟨{ s.output with c := c }, some nPayloads⟩)

/-- `nmsg_output_write` -/
def outputWriteFaulty (s : FaultyOutput) (op : FaultyWrite) :
    Except Abort (WriteAnswer × FaultyOutput) :=
  match messageSerializeFaulty op.allocFails op.now op.msg with
  | none => .ok ({ res := .memfail, sent := [], failed := true }, s)
  | some msg =>
      match msg.np with
      | none =>
          if s.output.doFilter then .error .nullPointer
          else outputNmsgWriteFaulty pb z crc32c op.allocFails s op.id msg op.sendFails
      | some np =>
          if s.output.doFilter = true ∧
              (s.output.filterVid ≠ np.vid ∨ s.output.filterMsgtype ≠ np.msgtype) then
            .ok ({ res := .success, sent := [], failed := false }, s)
          else outputNmsgWriteFaulty pb z crc32c op.allocFails s op.id msg op.sendFails

end Write

end Nmsg

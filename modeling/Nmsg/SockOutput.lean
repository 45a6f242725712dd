import Nmsg.Output

/-!
# Socket outputs

A socket output fills containers as a file output does and numbers them. Each container and each
fragment is a datagram of its own. The answer to a call comes with the datagrams that were handed to
the socket.
-/

namespace Nmsg

/-- `nmsg_output_open_sock`, with the settings made and a random `sequence_id`. -/
def StreamOutput.openSock (bufsz : Nat) (config : OutputConfig) (sequenceId : UInt64) :
    StreamOutput where
  bufsz := min (max bufsz wbufszMin) wbufszMax
  le_bufsz := le_clippedBufsz bufsz
  bufsz_le := clippedBufsz_le bufsz
  config := config
  doSequence := true
  sequence := 0
  sequenceId := sequenceId
  doFilter := false
  filterVid := 0
  filterMsgtype := 0
  c := Container.fresh (min (max bufsz wbufszMin) wbufszMax) true
  written := []

/-- `_output_nmsg_write_sock`. A datagram is sent whole, or the call fails. -/
def outputNmsgWriteSock (fails : Bool) : Res := if fails then .errno else .success

section Write

variable (pb : ProtobufC) (z : Zlib) (crc32c : Bytes → UInt32)

/-- `_output_nmsg_write_container` to a socket. -/
def sockWriteContainer (s : StreamOutput) (fails : Bool) :
    Except Abort ((Res × List Bytes) × StreamOutput) :=
  match containerSerialize pb z crc32c s.c true s.config.doZlib s.sequence s.sequenceId with
  | .error e => .error e
  | .ok (out, _) =>
      if out.buf.length < out.bufLen then .error .outOfBounds
      else
        .ok ((outputNmsgWriteSock fails, [out.buf.take out.bufLen]),
          s.next (out.buf.take out.bufLen))

/-- The loop of `_output_frag_write`: the datagrams of the fragments. `i` is an `int`. -/
def fragDatagrams (bufsz : Nat) (flags : UInt8) (nf : NmsgFragment) (packed : Bytes) :
    Nat → Nat → Nat → Except Abort (List Bytes)
  | 0, fragpos, _ => if fragpos < packed.length then .error .divergence else .ok []
  | fuel + 1, fragpos, i =>
      if fragpos < packed.length then
        let maxFragsz := bufsz - 32
        let fragsz :=
          if packed.length - fragpos > maxFragsz then maxFragsz else packed.length - fragpos
        let frag := pb.packFragment
          { nf with current := .ofNat i, fragment := (packed.drop fragpos).take fragsz }
        if bufsz + 32 < frag.length then .error .outOfBounds
        else if i + 1 = 2 ^ 31 then .error .signedOverflow
        else
          match fragDatagrams bufsz flags nf packed fuel (fragpos + maxFragsz) (i + 1) with
          | .error e => .error e
          | .ok rest => .ok ((headerSerialize flags frag.length ++ frag) :: rest)
      else .ok []

/-- The result of sending datagrams one after the other is that of the last. -/
def sendResult (fails : Nat → Bool) (datagrams : List Bytes) : Res :=
  if datagrams = [] then .success else outputNmsgWriteSock (fails (datagrams.length - 1))

/-- `_output_frag_write` to a socket, for the random number `id`. -/
def sockFragWrite (s : StreamOutput) (id : UInt32) (fails : Nat → Bool) :
    Except Abort ((Res × List Bytes) × StreamOutput) :=
  let maxFragsz := s.bufsz - 32
  match containerSerialize pb z crc32c s.c false s.config.doZlib s.sequence s.sequenceId with
  | .error e => .error e
  | .ok (out, _) =>
      if out.buf.length < out.bufLen then .error .outOfBounds
      else
        let packed := out.buf.take out.bufLen
        if s.config.doZlib = true ∧ packed.length ≤ maxFragsz then
          .ok ((outputNmsgWriteSock (fails 0), [packed]), s.next packed)
        else
          let flags := (if s.config.doZlib then flagZlib else 0) ||| flagFragment
          let nf : NmsgFragment := {
            id := id
            current := 0
            last := .ofNat (packed.length / maxFragsz)
            fragment := []
            crc := some (htonl (crc32c packed)) }
          match fragDatagrams pb s.bufsz flags nf packed packed.length 0 0 with
          | .error e => .error e
          | .ok datagrams => .ok ((sendResult fails datagrams, datagrams), s.next datagrams.flatten)

/-- `_output_nmsg_write` to a socket. -/
def sockOutputNmsgWrite (s : StreamOutput) (now : WallTime) (id : UInt32) (msg : Message)
    (fails : Nat → Bool) : Except Abort ((Res × List Bytes) × StreamOutput) :=
  match msg.np with
  | none => .error .assertion
  | some np =>
      match containerAdd now s.c { msg with np := some (s.config.override np) } with
      | .error e => .error e
      | .ok (.containerFull, c, msg) =>
          match sockWriteContainer pb z crc32c { s with c := c } (fails 0) with
          | .error e => .error e
          | .ok ((res, sent), s) =>
              if res ≠ .success then .ok ((res, sent), s)
              else
                match containerAdd now s.c msg with
                | .error e => .error e
                | .ok (.containerOverfull, c, _) =>
                    (sockFragWrite pb z crc32c { s with c := c } id fun k => fails (k + 1)).map
                      fun ((res, datagrams), s) => ((res, sent ++ datagrams), s)
                | .ok (res, c, _) => .ok ((res, sent), { s with c := c })
      | .ok (.success, c, _) =>
          if s.config.buffered = false then
            sockWriteContainer pb z crc32c { s with c := c } (fails 0)
          else .ok ((.success, []), { s with c := c })
      | .ok (.containerOverfull, c, _) => sockFragWrite pb z crc32c { s with c := c } id fails
      | .ok (res, c, _) => .ok ((res, []), { s with c := c })

/-- A call on a socket output, and which of its datagrams cannot be sent. -/
inductive SockOutputOp where
  | write (now : WallTime) (id : UInt32) (msg : Message) (fails : Nat → Bool)
  | flush (fails : Bool)
  | setBuffered (buffered : Bool)

/-- `nmsg_output_write`, `nmsg_output_flush` and `nmsg_output_set_buffered` on a socket output. -/
def sockOutputStep (s : StreamOutput) :
    SockOutputOp → Except Abort ((Res × List Bytes) × StreamOutput)
  | .write now id msg fails =>
      let msg := messageSerialize now msg
      match msg.np with
      | none =>
          if s.doFilter then .error .nullPointer
          else sockOutputNmsgWrite pb z crc32c s now id msg fails
      | some np =>
          if s.doFilter = true ∧ (s.filterVid ≠ np.vid ∨ s.filterMsgtype ≠ np.msgtype) then
            .ok ((.success, []), s)
          else sockOutputNmsgWrite pb z crc32c s now id msg fails
  | .flush fails =>
      if s.c.nmsg.payloads ≠ [] then sockWriteContainer pb z crc32c s fails
      else .ok ((.success, []), s)
  | .setBuffered buffered =>
      .ok ((.success, []), { s with config := { s.config with buffered := buffered } })

end Write

end Nmsg

import Nmsg.Container

/-!
# File outputs

Payloads are collected in a container that is written out when it is full, when the output is
flushed, or with every payload when the output is not buffered. A payload that is too large for a
container is written in fragments.
-/

namespace Nmsg

/-- What `nmsg_output_set_buffered`, `nmsg_output_set_zlibout`, `nmsg_output_set_source`,
`nmsg_output_set_operator` and `nmsg_output_set_group` set. -/
structure OutputConfig where
  buffered : Bool
  doZlib : Bool
  source : UInt32
  operator : UInt32
  group : UInt32
deriving DecidableEq

/-- Setting source, operator and group of a payload. -/
def OutputConfig.override (config : OutputConfig) (np : NmsgPayload) : NmsgPayload :=
  { np with
    source := if config.source ≠ 0 then some config.source else np.source
    operator := if config.operator ≠ 0 then some config.operator else np.operator
    group := if config.group ≠ 0 then some config.group else np.group }

/-- `nmsg_stream_output` of a file, with the filter of its `nmsg_output`; `written` is what went to
the file. The buffer size is clamped when the output is opened. -/
structure StreamOutput where
  bufsz : Nat
  le_bufsz : wbufszMin ≤ bufsz
  bufsz_le : bufsz ≤ wbufszMax
  config : OutputConfig
  doSequence : Bool
  sequence : UInt32
  sequenceId : UInt64
  doFilter : Bool
  filterVid : UInt32
  filterMsgtype : UInt32
  c : Container
  written : Bytes

/-- A container without payloads: `nmsg_container_init` and `nmsg_container_set_sequence`. -/
def Container.fresh (bufsz : Nat) (doSequence : Bool) : Container where
  nmsg := ⟨[], [], none, none⟩
  bufsz := bufsz
  estsz := hdrlszV2
  doSequence := doSequence

theorem containerInit_fresh {bufsz : Nat} (h : wbufszMin ≤ bufsz) (doSequence : Bool) :
    (containerInit bufsz).map (containerSetSequence · doSequence) =
      some (Container.fresh bufsz doSequence) := by
  rw [containerInit, if_neg (by omega)]
  rfl

theorem le_clippedBufsz (bufsz : Nat) : wbufszMin ≤ min (max bufsz wbufszMin) wbufszMax := by
  simp only [wbufszMin, wbufszMax]
  omega

theorem clippedBufsz_le (bufsz : Nat) : min (max bufsz wbufszMin) wbufszMax ≤ wbufszMax := by
  omega

/-- `nmsg_output_open_file`, with the settings made. -/
def StreamOutput.openFile (bufsz : Nat) (config : OutputConfig) : StreamOutput where
  bufsz := min (max bufsz wbufszMin) wbufszMax
  le_bufsz := le_clippedBufsz bufsz
  bufsz_le := clippedBufsz_le bufsz
  config := config
  doSequence := false
  sequence := 0
  sequenceId := 0
  doFilter := false
  filterVid := 0
  filterMsgtype := 0
  c := Container.fresh (min (max bufsz wbufszMin) wbufszMax) false
  written := []

/-- The state behind a container that was written: its number is used up and a new one begun. -/
def StreamOutput.next (s : StreamOutput) (octets : Bytes) : StreamOutput :=
  { s with
    sequence := if s.doSequence then s.sequence + 1 else s.sequence
    c := Container.fresh s.bufsz s.doSequence
    written := s.written ++ octets }

section Write

variable (pb : ProtobufC) (z : Zlib) (crc32c : Bytes → UInt32)

/-- `_output_nmsg_write_container` to a file; writing succeeds. -/
def outputNmsgWriteContainer (s : StreamOutput) : Except Abort (Res × StreamOutput) :=
  match containerSerialize pb z crc32c s.c true s.config.doZlib s.sequence s.sequenceId with
  | .error e => .error e
  | .ok (out, _) =>
      if out.buf.length < out.bufLen then .error .outOfBounds
      else .ok (.success, s.next (out.buf.take out.bufLen))

/-- The loop of `_output_frag_write`: the octets of the fragments. `i` is an `int`. -/
def fragLoop (bufsz : Nat) (flags : UInt8) (nf : NmsgFragment) (packed : Bytes) :
    Nat → Nat → Nat → Except Abort Bytes
  | 0, fragpos, _ => if fragpos < packed.length then .error .divergence else .ok []
  | fuel + 1, fragpos, i =>
      if fragpos < packed.length then
        let maxFragsz := bufsz - 32
        let fragsz :=
          if packed.length - fragpos > maxFragsz then maxFragsz else packed.length - fragpos
        let frag := pb.packFragment
          { nf with current := .ofNat i, fragment := (packed.drop fragpos).take fragsz }
        if bufsz + 32 < frag.length then .error .outOfBounds
        else if i + 1 = 2 ^ 31 then .error .signedOverflow
        else
          match fragLoop bufsz flags nf packed fuel (fragpos + maxFragsz) (i + 1) with
          | .error e => .error e
          | .ok rest => .ok (headerSerialize flags frag.length ++ frag ++ rest)
      else .ok []

/-- `_output_frag_write` to a file, for the random number `id`. -/
def outputFragWrite (s : StreamOutput) (id : UInt32) : Except Abort (Res × StreamOutput) :=
  let maxFragsz := s.bufsz - 32
  match containerSerialize pb z crc32c s.c false s.config.doZlib s.sequence s.sequenceId with
  | .error e => .error e
  | .ok (out, _) =>
      if out.buf.length < out.bufLen then .error .outOfBounds
      else
        let packed := out.buf.take out.bufLen
        if s.config.doZlib = true ∧ packed.length ≤ maxFragsz then .ok (.success, s.next packed)
        else
          let flags := (if s.config.doZlib then flagZlib else 0) ||| flagFragment
          let nf : NmsgFragment := {
            id := id
            current := 0
            last := .ofNat (packed.length / maxFragsz)
            fragment := []
            crc := some (htonl (crc32c packed)) }
          match fragLoop pb s.bufsz flags nf packed packed.length 0 0 with
          | .error e => .error e
          | .ok octets => .ok (.success, s.next octets)

/-- `_output_nmsg_write` -/
def outputNmsgWrite (s : StreamOutput) (now : WallTime) (id : UInt32) (msg : Message) :
    Except Abort (Res × StreamOutput) :=
  match msg.np with
  | none => .error .assertion
  | some np =>
      match containerAdd now s.c { msg with np := some (s.config.override np) } with
      | .error e => .error e
      | .ok (.containerFull, c, msg) =>
          match outputNmsgWriteContainer pb z crc32c { s with c := c } with
          | .error e => .error e
          | .ok (res, s) =>
              if res ≠ .success then .ok (res, s)
              else
                match containerAdd now s.c msg with
                | .error e => .error e
                | .ok (.containerOverfull, c, _) =>
                    outputFragWrite pb z crc32c { s with c := c } id
                | .ok (res, c, _) => .ok (res, { s with c := c })
      | .ok (.success, c, _) =>
          if s.config.buffered = false then outputNmsgWriteContainer pb z crc32c { s with c := c }
          else .ok (.success, { s with c := c })
      | .ok (.containerOverfull, c, _) => outputFragWrite pb z crc32c { s with c := c } id
      | .ok (res, c, _) => .ok (res, { s with c := c })

/-- `nmsg_output_write` -/
def nmsgOutputWrite (s : StreamOutput) (now : WallTime) (id : UInt32) (msg : Message) :
    Except Abort (Res × StreamOutput) :=
  let msg := messageSerialize now msg
  match msg.np with
  | none =>
      if s.doFilter then .error .nullPointer else outputNmsgWrite pb z crc32c s now id msg
  | some np =>
      if s.doFilter = true ∧ (s.filterVid ≠ np.vid ∨ s.filterMsgtype ≠ np.msgtype) then
        .ok (.success, s)
      else outputNmsgWrite pb z crc32c s now id msg

/-- `nmsg_output_flush`, and what `nmsg_output_close` writes. -/
def nmsgOutputFlush (s : StreamOutput) : Except Abort (Res × StreamOutput) :=
  if s.c.nmsg.payloads ≠ [] then outputNmsgWriteContainer pb z crc32c s else .ok (.success, s)

/-- A call on an output. -/
inductive OutputOp where
  | write (now : WallTime) (id : UInt32) (msg : Message)
  | flush
deriving DecidableEq

def outputStep (s : StreamOutput) : OutputOp → Except Abort (Res × StreamOutput)
  | .write now id msg => nmsgOutputWrite pb z crc32c s now id msg
  | .flush => nmsgOutputFlush pb z crc32c s

end Write

end Nmsg

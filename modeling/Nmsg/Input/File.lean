import Nmsg.Input.Frag

/-!
# File inputs

A file is a stream of containers. It is read into a buffer of twice the largest container, and the
octets of a container are handed to the unpacker from there.
-/

namespace Nmsg

open Octets

/-- `struct nmsg_buf`. `mem` is the memory from `data` to `end`, and `pos` is counted from `data`. -/
structure NmsgBuf where
  bufsz : Nat
  mem : Bytes
  pos : Nat
deriving DecidableEq

namespace NmsgBuf

variable (buf : NmsgBuf)

/-- `_nmsg_buf_avail` -/
def avail : Except Abort Nat :=
  if buf.mem.length < buf.pos then .error .assertion else .ok (buf.mem.length - buf.pos)

/-- `_nmsg_buf_reset` -/
def reset : NmsgBuf := { buf with mem := [], pos := 0 }

/-- The memory from `pos` on. -/
def ahead : Bytes := buf.mem.drop buf.pos

def advance (n : Nat) : NmsgBuf := { buf with pos := buf.pos + n }

end NmsgBuf

/-- How `read` behaves: call `n` fails, or returns as many octets as are asked for and there are,
but at most `limit + 1`. The clock is read after `n` calls. -/
structure ReadWorld where
  limit : Nat → Option Nat
  clock : Nat → Timespec

/-- `read` does not fail. -/
def ReadWorld.Reads (world : ReadWorld) : Prop := ∀ n, world.limit n ≠ none

/-- What `read_file` works on: the buffer, the octets of the file that are not read yet, the number
of calls of `read`, and the fields of the stream it sets. -/
structure FileReader where
  buf : NmsgBuf
  rest : Bytes
  calls : Nat
  flags : UInt8
  now : Timespec
deriving DecidableEq

/-- `input_open_stream` of a file with these octets. -/
def FileReader.open (octets : Bytes) : FileReader where
  buf := ⟨rbufsz / 2, [], 0⟩
  rest := octets
  calls := 0
  flags := 0
  now := ⟨0, 0⟩

section Read

variable (world : ReadWorld)

/-- The loop of `do_read_file`. The fuel is the number of octets needed at first. -/
def readLoop : Nat → Nat → Nat → FileReader → Except Abort (Res × FileReader)
  | _, 0, _, r => .ok (.success, { r with now := world.clock r.calls })
  | 0, _ + 1, _, _ => .error .divergence
  | fuel + 1, needed + 1, max, r =>
      match world.limit r.calls with
      | none => .ok (.failure, { r with calls := r.calls + 1 })
      | some limit =>
          let data := r.rest.take (min (limit + 1) max)
          if data = [] then .ok (.eof, { r with calls := r.calls + 1 })
          else
            readLoop fuel (needed + 1 - data.length) (max - data.length) { r with
              buf := { r.buf with mem := r.buf.mem ++ data }
              rest := r.rest.drop data.length
              calls := r.calls + 1 }

/-- `do_read_file` -/
def doReadFile (needed max : Nat) (r : FileReader) : Except Abort (Res × FileReader) :=
  if max < needed then .error .assertion
  else if rbufsz < r.buf.mem.length + max then .error .assertion
  else readLoop world needed needed max r

/-- How `read_file` makes sure of a header field of `size` octets; the flag is `reset_buf`. -/
def fillField (size : Nat) (r : FileReader) : Except Abort (Res × Bool × FileReader) :=
  match r.buf.avail with
  | .error e => .error e
  | .ok avail =>
      if size ≤ avail then .ok (.success, false, r)
      else if avail = 0 then
        (doReadFile world size r.buf.bufsz { r with buf := r.buf.reset }).map
          fun (res, r) => (res, false, r)
      else
        -- the field was split
        (doReadFile world (size - avail) (size - avail) r).map fun (res, r) => (res, true, r)

/-- The buffer is reset behind a field that was split. -/
def resetIf (resetBuf : Bool) (r : FileReader) : FileReader :=
  if resetBuf then { r with buf := r.buf.reset } else r

/-- The half of `read_file` behind the version: the length. Whether more could be read is only seen
from the octets available. -/
def readLength (lenhdrsz : Nat) (r : FileReader) : Except Abort (Nat × FileReader) :=
  match fillField world lenhdrsz r with
  | .error e => .error e
  | .ok (_, resetBuf, r) =>
      match r.buf.avail with
      | .error e => .error e
      | .ok avail =>
          if avail < lenhdrsz then .error .assertion
          else .ok (beNat (r.buf.ahead.take lenhdrsz),
            resetIf resetBuf { r with buf := r.buf.advance lenhdrsz })

/-- `read_file`: the length of the next container. The flags of the stream are set by a container
of version 2 only. -/
def readFile (r : FileReader) : Except Abort (Except Res Nat × FileReader) :=
  match fillField world hdrsz r with
  | .error e => .error e
  | .ok (res, resetBuf, r) =>
      if res ≠ .success then .ok (.error res, r)
      else
        match r.buf.avail with
        | .error e => .error e
        | .ok avail =>
            if avail < hdrsz then .error .assertion
            else if r.buf.ahead.take 4 ≠ magic then .ok (.error .magicMismatch, r)
            else
              let version := beNat ((r.buf.ahead.drop 4).take 2)
              let r := resetIf resetBuf { r with buf := r.buf.advance hdrsz }
              if version = 1 then
                (readLength world lenhdrszV1 r).map fun (msgsize, r) => (.ok msgsize, r)
              else if version % 256 = 2 then
                (readLength world lenhdrszV2 { r with flags := .ofNat (version / 256) }).map
                  fun (msgsize, r) => (.ok msgsize, r)
              else .ok (.error .versionMismatch, r)

/-- The part of `_input_nmsg_read_container_file` before unpacking: the octets of the next
container, which are then passed over. -/
def fetchContainer (r : FileReader) : Except Abort (Except Res Bytes × FileReader) :=
  match readFile world r with
  | .error e => .error e
  | .ok (.error res, r) => .ok (.error res, r)
  | .ok (.ok msgsize, r) =>
      match r.buf.avail with
      | .error e => .error e
      | .ok avail =>
          let body (r : FileReader) : Except Res Bytes × FileReader :=
            (.ok (r.buf.ahead.take msgsize), { r with buf := r.buf.advance msgsize })
          if avail < msgsize then
            match doReadFile world (msgsize - avail) (msgsize - avail) r with
            | .error e => .error e
            | .ok (res, r) => if res ≠ .success then .ok (.error res, r) else .ok (body r)
          else .ok (body r)

end Read

/-- The octets that were read and not yet passed over, and those not yet read. -/
def FileReader.stream (r : FileReader) : Bytes := r.buf.ahead ++ r.rest

/-- The unpacker of a stream: what surrounds the call, the stream, the unpacker's own state and the
octets. -/
abbrev Unpacker (D : Type*) :=
  CallEnv → Arrival → D → Bytes → Except Abort (Res × Option ProtoNmsg × D)

/-- `_input_nmsg_read_container_file`, for some unpacker. -/
def readContainerFile {D : Type*} (unpack : Unpacker D) (world : ReadWorld) (s : FileReader × D)
    (env : CallEnv) : Except Abort ((Res × Option ProtoNmsg) × FileReader × D) :=
  match fetchContainer world s.1 with
  | .error e => .error e
  | .ok (.error res, r) => .ok ((res, none), r, s.2)
  | .ok (.ok body, r) =>
      match unpack env ⟨r.flags, r.now, .other 0 []⟩ s.2 body with
      | .error e => .error e
      | .ok (res, nmsg, d) => .ok ((res, nmsg), r, d)

/-- `_input_nmsg_read_container_file` -/
def inputNmsgReadContainerFile (pb : ProtobufC) {z : Zlib} (world : ReadWorld)
    (s : FileReader × Decoder z) (env : CallEnv) :
    Except Abort ((Res × Option ProtoNmsg) × FileReader × Decoder z) :=
  readContainerFile (fun env arrival d body => inputNmsgUnpackContainer pb env arrival d body)
    world s env

/-! ### The same stream in memory -/

/-- A container in a file. -/
inductive FileContainer where
  | v1 (body : Bytes)
  | v2 (flags : UInt8) (body : Bytes)
deriving DecidableEq

namespace FileContainer

def body : FileContainer → Bytes
  | v1 body => body
  | v2 _ body => body

/-- The flags of the stream behind the header. A header of version 1 has none, and the stream keeps
those it had. -/
def streamFlags (flags : UInt8) : FileContainer → UInt8
  | v1 _ => flags
  | v2 flags _ => flags

def header : FileContainer → Bytes
  | v1 body => magic ++ beBytes 2 1 ++ beBytes 2 body.length
  | v2 flags body => headerSerialize flags body.length

def encode (c : FileContainer) : Bytes := c.header ++ c.body

/-- The length field holds the length, which is at most that of the largest container. -/
def Fits : FileContainer → Prop
  | v1 body => body.length < 2 ^ 16
  | v2 _ body => body.length ≤ wbufszMax

end FileContainer

/-- The containers of a stream that are left, the flags of the stream, and the state of its
unpacker. -/
structure ParsedStream (D : Type*) where
  containers : List FileContainer
  flags : UInt8
  unpacker : D

/-- A call that hands the next container to the unpacker, at some time. -/
def handContainer {D : Type*} (unpack : Unpacker D) (s : ParsedStream D)
    (call : CallEnv × Timespec) :
    Except Abort ((Res × Option ProtoNmsg) × ParsedStream D) :=
  match s.containers with
  | [] => .ok ((.eof, none), s)
  | c :: rest =>
      let flags := c.streamFlags s.flags
      match unpack call.1 ⟨flags, call.2, .other 0 []⟩ s.unpacker c.body with
      | .error e => .error e
      | .ok (res, nmsg, d) => .ok ((res, nmsg), ⟨rest, flags, d⟩)

end Nmsg

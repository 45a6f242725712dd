import Nmsg.Input.Seqsrc

/-!
# Socket inputs

Each datagram holds one container, or one fragment of a container.
-/

namespace Nmsg

/-- What waiting for a datagram and receiving it comes to. The clock is read whenever the receive
call was made. -/
inductive RecvEvent where
  | pollAgain
  | pollFailure
  | recvAgain (now : Timespec)
  | recvFailure (now : Timespec)
  | datagram (now : Timespec) (addrSs : SockaddrStorage) (bytes : Bytes)
deriving DecidableEq

/-- `nmsg_stream_input` of a socket, without the fields that only the file reader uses. The
counters are 64 bits wide. -/
structure SockInput (z : Zlib) where
  decoder : Decoder z
  flags : UInt8
  now : Timespec
  lastgc : Timespec
  addrSs : SockaddrStorage
  verifySeqsrc : Bool
  seqsrcs : List Seqsrc
  countRecv : Nat
  countDrop : Nat

/-- `nmsg_input_open_sock` -/
def SockInput.open (z : Zlib) : SockInput z where
  decoder := Decoder.open z
  flags := 0
  now := ⟨0, 0⟩
  lastgc := ⟨0, 0⟩
  addrSs := .other 0 []
  verifySeqsrc := true
  seqsrcs := []
  countRecv := 0
  countDrop := 0

/-- A receive call and its surroundings. -/
structure RecvCall where
  event : RecvEvent
  env : CallEnv

variable (pb : ProtobufC) {z : Zlib}

/-- The counters of a container that was unpacked. -/
def sockCount (s : SockInput z) (nmsg : ProtoNmsg) : SockInput z :=
  let s := { s with countRecv := s.countRecv + 1 }
  if s.verifySeqsrc then
    let (src, put) := inputSeqsrcGet ⟨s.flags, s.now, s.addrSs⟩ s.seqsrcs nmsg
    let (drop, src) := inputSeqsrcUpdate src nmsg
    { s with seqsrcs := put src, countDrop := s.countDrop + drop }
  else s

/-- Garbage collection of fragments, at the end of a call. -/
def sockGc (s : SockInput z) : SockInput z :=
  let (lastgc, decoder) := inputFragGc s.now s.lastgc s.decoder
  { s with lastgc := lastgc, decoder := decoder }

/-- The part of `_input_nmsg_read_container_sock` behind the receive call, for the octets in the
buffer. -/
def sockUnpack (env : CallEnv) (s : SockInput z) (buf : Bytes) :
    Except Abort ((Res × Option ProtoNmsg) × SockInput z) :=
  if buf.length < hdrlszV2 then .ok ((.failure, none), s)
  else
    match inputNmsgDeserializeHeader buf buf.length with
    | .error e => .error e
    | .ok (.error res) => .ok ((res, none), s)
    | .ok (.ok (flags, msgsize)) =>
        let s := { s with flags := flags }
        if buf.length - hdrlszV2 ≠ msgsize then .ok ((.parseError, none), s)
        else
          match inputNmsgUnpackContainer pb env ⟨s.flags, s.now, s.addrSs⟩ s.decoder
              (buf.drop hdrlszV2) with
          | .error e => .error e
          | .ok (res, nmsg, decoder) =>
              let s := { s with decoder := decoder }
              let s :=
                match nmsg with
                | none => s
                | some nmsg => sockCount s nmsg
              .ok ((res, nmsg), sockGc s)

/-- `_input_nmsg_read_container_sock`. A datagram longer than the buffer is cut off, and one
without octets is taken for the end of the input, which is not reported. -/
def inputNmsgReadContainerSock (s : SockInput z) (call : RecvCall) :
    Except Abort ((Res × Option ProtoNmsg) × SockInput z) :=
  match call.event with
  | .pollAgain => .ok ((.again, none), s)
  | .pollFailure => .ok ((.readFailure, none), s)
  | .recvAgain now => .ok ((.again, none), { s with now := now })
  | .recvFailure now => .ok ((.readFailure, none), { s with now := now })
  | .datagram now addrSs bytes =>
      let s := { s with now := now, addrSs := addrSs }
      if bytes = [] then .ok ((.again, none), s)
      else sockUnpack pb call.env s (bytes.take (rbufsz / 2))

end Nmsg

import Nmsg.Input.Loop
import Nmsg.Input.Sock

/-!
# Containers in the caller's memory

A null input is handed the octets of a datagram by its caller, and `nmsg_container_deserialize`
takes them without an input. A socket input receives the same octets itself.
-/

namespace Nmsg

/-- `nmsg_input` of type null. -/
structure NullInput (z : Zlib) where
  decoder : Decoder z
  flags : UInt8
  now : Timespec
  lastgc : Timespec
  filter : InputFilter

/-- `nmsg_input_open_null`, with filters set. -/
def NullInput.open (z : Zlib) (filter : InputFilter) : NullInput z where
  decoder := Decoder.open z
  flags := 0
  now := ⟨0, 0⟩
  lastgc := ⟨0, 0⟩
  filter := filter

section Read

variable (pb : ProtobufC) (crc32c : Bytes → UInt32) {z : Zlib}

/-- `nmsg_input_read_null` of `bufLen` octets at `buf`, the array of messages being allocated. The
subtraction from `bufLen` wraps for a buffer without a whole header. -/
def nmsgInputReadNull (s : NullInput z) (env : CallEnv) (now : Timespec) (buf : Bytes)
    (bufLen : Nat) : Except Abort ((Res × List Message) × NullInput z) :=
  let s := { s with now := now }
  match inputNmsgDeserializeHeader buf bufLen with
  | .error e => .error e
  | .ok (.error res) => .ok ((res, []), s)
  | .ok (.ok (flags, msgsize)) =>
      let s := { s with flags := flags }
      if bufLen < hdrlszV2 ∨ msgsize ≠ bufLen - hdrlszV2 then .ok ((.parseError, []), s)
      else
        match inputNmsgUnpackContainer pb env ⟨s.flags, s.now, .other 0 []⟩ s.decoder
            ((buf.drop hdrlszV2).take msgsize) with
        | .error e => .error e
        | .ok (res, nmsg, decoder) =>
            let (lastgc, decoder) := inputFragGc s.now s.lastgc decoder
            let s := { s with lastgc := lastgc, decoder := decoder }
            match nmsg with
            | none => .ok ((res, []), s)
            | some nmsg =>
                match loopPayloads crc32c s.filter nmsg 0 nmsg.payloads.length with
                | .error e => .error e
                | .ok msgs => .ok ((res, msgs), s)

/-- `_input_nmsg_read_container_sock` as the `stream_read_fp` of a socket that meets with these
receive calls; polling it fails from then on. -/
def sockFetch : StreamReadFp (SockInput z × List RecvCall) := fun (s, calls) =>
  match calls with
  | [] => .ok ((.readFailure, none), (s, []))
  | call :: rest =>
      (inputNmsgReadContainerSock pb s call).map fun (answer, s) => (answer, (s, rest))

/-- The container in a datagram whose header is right and whose length is the one in the header.
`past` is the memory behind the datagram. -/
def datagramContainer (z : Zlib) (datagram past : Bytes) : Option ProtoNmsg :=
  match inputNmsgDeserializeHeader datagram datagram.length with
  | .ok (.ok (flags, msgsize)) =>
      if msgsize ≠ datagram.length - hdrlszV2 then none
      else (inputNmsgUnpackContainer2 pb z (datagram.drop hdrlszV2) past flags).2
  | _ => none

/-- The payloads that `nmsg_container_deserialize` delivers, restricted to those that pass
`_input_nmsg_filter`. -/
def containerDeserializePassing (z : Zlib) (filter : InputFilter) (datagram past : Bytes) :
    Except Abort (Res × List Message) :=
  (containerDeserialize pb z datagram datagram.length past).map fun (res, msgs) =>
    (res, msgs.zipIdx.filterMap fun (msg, idx) =>
      match datagramContainer pb z datagram past, msg.np with
      | some nmsg, some np =>
          if inputNmsgFilter crc32c filter nmsg idx np then some msg else none
      | _, _ => none)

end Read

/-! ### Agreement -/

/-- Whatever lies behind the datagram in the memory of each of them, the socket input, the null
input and `nmsg_container_deserialize` deliver the same payloads of it, and none when one of them
reports an error. The loop of the socket input only ends with an error; it is one about the datagram
if it is not the failure to poll behind it. -/
def DecodersAgree (pb : ProtobufC) (z : Zlib) (crc32c : Bytes → UInt32) (filter : InputFilter)
    (datagram : Bytes) : Prop :=
  ∀ (now now' : Timespec) (addrSs : SockaddrStorage) (env env' : CallEnv) (past : Bytes),
    env.Succeeds → env'.Succeeds →
    ∃ fuel msgs resSock resNull resContainer s,
      inputNmsgLoop crc32c (sockFetch pb) fuel
          (.fresh filter (SockInput.open z, [⟨.datagram now addrSs datagram, env⟩])) =
        .ok (resSock, msgs) ∧
      nmsgInputReadNull pb crc32c (NullInput.open z filter) env' now' datagram datagram.length =
        .ok ((resNull, msgs), s) ∧
      containerDeserializePassing pb crc32c z filter datagram past = .ok (resContainer, msgs) ∧
      (resSock ≠ .readFailure ∨ resNull ≠ .success ∨ resContainer ≠ .success → msgs = [])

/-- The datagram is not a fragment. -/
def Unfragmented (datagram : Bytes) : Prop :=
  ∀ flags msgsize, inputNmsgDeserializeHeader datagram datagram.length =
    .ok (.ok (flags, msgsize)) → flags &&& flagFragment = 0

end Nmsg

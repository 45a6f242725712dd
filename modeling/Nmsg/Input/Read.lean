import Nmsg.Input.File
import Nmsg.Message

/-!
# Reading payloads

An input hands out the payloads of a container one by one and asks for the next container behind
the last of them.
-/

namespace Nmsg

/-- What a payload has to match: `do_filter` with its ids, and the source, operator and group of the
stream where they are set. -/
structure InputFilter where
  doFilter : Bool
  vid : UInt32
  msgtype : UInt32
  source : UInt32
  operator : UInt32
  group : UInt32
deriving DecidableEq

/-- `_input_nmsg_filter` -/
def inputNmsgFilter (crc32c : Bytes → UInt32) (filter : InputFilter) (nmsg : ProtoNmsg)
    (idx : Nat) (np : NmsgPayload) : Bool :=
  if payloadCrcMatches crc32c nmsg idx np = false then false
  else if filter.doFilter = true ∧ (filter.vid ≠ np.vid ∨ filter.msgtype ≠ np.msgtype) then false
  else if filter.source > 0 ∧ filter.source ≠ np.source.getD 0 then false
  else if filter.operator > 0 ∧ filter.operator ≠ np.operator.getD 0 then false
  else if filter.group > 0 ∧ filter.group ≠ np.group.getD 0 then false
  else true

/-- `nmsg_input` of a file. `nmsg` is the container whose payloads are handed out, up to the one at
`npIndex`. -/
structure FileInput (z : Zlib) where
  reader : FileReader
  decoder : Decoder z
  nmsg : Option ProtoNmsg
  npIndex : Nat
  filter : InputFilter

/-- `nmsg_input_open_file` of a file with these octets. -/
def FileInput.open (z : Zlib) (octets : Bytes) : FileInput z where
  reader := FileReader.open octets
  decoder := Decoder.open z
  nmsg := none
  npIndex := 0
  filter := ⟨false, 0, 0, 0, 0, 0⟩

section Read

variable (pb : ProtobufC) (crc32c : Bytes → UInt32) {z : Zlib} (world : ReadWorld)

/-- The half of `_input_nmsg_read` that detaches and filters the payload at `npIndex`. -/
def handPayload (s : FileInput z) (nmsg : ProtoNmsg) :
    Except Abort ((Res × Option Message) × FileInput z) :=
  match nmsg.payloads[s.npIndex]? with
  | none => .error .nullPointer
  | some np =>
      let s := { s with nmsg := some nmsg }
      if inputNmsgFilter crc32c s.filter nmsg s.npIndex np = false then .ok ((.again, none), s)
      else .ok ((.success, some (messageFromPayload np)), s)

/-- `_input_nmsg_read` of a file. A container without payloads is never behind its last one, and
reading it goes wrong. -/
def inputNmsgRead (s : FileInput z) (env : CallEnv) :
    Except Abort ((Res × Option Message) × FileInput z) :=
  let s :=
    match s.nmsg with
    | some nmsg =>
        if nmsg.payloads.length ≠ 0 ∧ s.npIndex ≥ nmsg.payloads.length - 1 then
          { s with nmsg := none }
        else { s with npIndex := s.npIndex + 1 }
    | none => { s with npIndex := s.npIndex + 1 }
  match s.nmsg with
  | some nmsg => handPayload crc32c s nmsg
  | none =>
      match inputNmsgReadContainerFile pb world (s.reader, s.decoder) env with
      | .error e => .error e
      | .ok ((res, nmsg), reader, decoder) =>
          let s := { s with reader := reader, decoder := decoder, nmsg := nmsg }
          if res ≠ .success then .ok ((res, none), s)
          else
            match nmsg with
            | none => .error .nullPointer
            | some nmsg => handPayload crc32c { s with npIndex := 0 } nmsg

end Read

end Nmsg

import Nmsg.Input.Read

/-!
# Looping over an input

`nmsg_input_loop` passes the payloads of each container on as the container arrives, while
`nmsg_input_read` keeps an index into the container it is in. Both are given here for any
`stream_read_fp`.
-/

namespace Nmsg

/-- A `stream_read_fp` on some state of its own. -/
abbrev StreamReadFp (S : Type*) := S → Except Abort ((Res × Option ProtoNmsg) × S)

/-- `nmsg_stream_input`, over the state of its `stream_read_fp`. -/
structure StreamInput (S : Type*) where
  source : S
  nmsg : Option ProtoNmsg
  npIndex : Nat
  filter : InputFilter

/-- An input that nothing was read from. -/
def StreamInput.fresh {S : Type*} (filter : InputFilter) (source : S) : StreamInput S :=
  ⟨source, none, 0, filter⟩

section Read

variable {S : Type*} (crc32c : Bytes → UInt32) (fetch : StreamReadFp S)

/-- The half of `_input_nmsg_read` that detaches and filters the payload at `np_index`. -/
def streamHandPayload (s : StreamInput S) (nmsg : ProtoNmsg) :
    Except Abort ((Res × Option Message) × StreamInput S) :=
  match nmsg.payloads[s.npIndex]? with
  | none => .error .nullPointer
  | some np =>
      let s := { s with nmsg := some nmsg }
      if inputNmsgFilter crc32c s.filter nmsg s.npIndex np = false then .ok ((.again, none), s)
      else .ok ((.success, some (messageFromPayload np)), s)

/-- How `_input_nmsg_read` moves on. The comparison is one of unsigned numbers: no index is behind
the last payload of a container that has none. -/
def streamAdvance (s : StreamInput S) : StreamInput S :=
  match s.nmsg with
  | some nmsg =>
      if nmsg.payloads.length ≠ 0 ∧ s.npIndex ≥ nmsg.payloads.length - 1 then
        { s with nmsg := none }
      else { s with npIndex := s.npIndex + 1 }
  | none => { s with npIndex := s.npIndex + 1 }

/-- `_input_nmsg_read` -/
def streamRead (s : StreamInput S) : Except Abort ((Res × Option Message) × StreamInput S) :=
  let s := streamAdvance s
  match s.nmsg with
  | some nmsg => streamHandPayload crc32c s nmsg
  | none =>
      match fetch s.source with
      | .error e => .error e
      | .ok ((res, nmsg), source) =>
          let s := { s with source := source, nmsg := nmsg }
          if res ≠ .success then .ok ((res, none), s)
          else
            match nmsg with
            | none => .error .nullPointer
            | some nmsg => streamHandPayload crc32c { s with npIndex := 0 } nmsg

/-- Calls of `nmsg_input_read` until one returns neither a message nor `nmsg_res_again`: what that
one returns, and the messages before it. -/
def readAll : Nat → StreamInput S → Except Abort (Res × List Message)
  | 0, _ => .error .divergence
  | fuel + 1, s =>
      match streamRead crc32c fetch s with
      | .error e => .error e
      | .ok ((res, msg), s) =>
          if res = .success then
            (readAll fuel s).map fun (res, msgs) => (res, msg.toList ++ msgs)
          else if res = .again then readAll fuel s
          else .ok (res, [])

/-- The payload loop of `_input_nmsg_loop`, from the payload at `n` on, with `left` to come. -/
def loopPayloads (filter : InputFilter) (nmsg : ProtoNmsg) :
    Nat → Nat → Except Abort (List Message)
  | _, 0 => .ok []
  | n, left + 1 =>
      match nmsg.payloads[n]? with
      | none => .error .nullPointer
      | some np =>
          (loopPayloads filter nmsg (n + 1) left).map fun msgs =>
            if inputNmsgFilter crc32c filter nmsg n np then messageFromPayload np :: msgs else msgs

/-- `_input_nmsg_loop` with a negative count, for a callback that does not stop it: what it returns,
and the messages passed to the callback. -/
def inputNmsgLoop : Nat → StreamInput S → Except Abort (Res × List Message)
  | 0, _ => .error .divergence
  | fuel + 1, s =>
      match fetch s.source with
      | .error e => .error e
      | .ok ((res, nmsg), source) =>
          if res = .again then inputNmsgLoop fuel { s with source := source, nmsg := nmsg }
          else if res ≠ .success then .ok (res, [])
          else
            match nmsg with
            | none => .error .nullPointer
            | some nmsg =>
                match loopPayloads crc32c s.filter nmsg 0 nmsg.payloads.length with
                | .error e => .error e
                | .ok msgs =>
                    (inputNmsgLoop fuel { s with source := source, nmsg := none }).map
                      fun (res, rest) => (res, msgs ++ rest)

end Read

/-! ### The file reader is an instance -/

section File

variable (pb : ProtobufC) (crc32c : Bytes → UInt32) {z : Zlib} (world : ReadWorld)

/-- A file input as one of any stream. -/
def FileInput.stream (s : FileInput z) : StreamInput (FileReader × Decoder z) :=
  ⟨(s.reader, s.decoder), s.nmsg, s.npIndex, s.filter⟩

theorem streamHandPayload_stream (s : FileInput z) (nmsg : ProtoNmsg) :
    streamHandPayload crc32c s.stream nmsg =
      (handPayload crc32c s nmsg).map fun (answer, s) => (answer, s.stream) := by
  simp only [streamHandPayload, handPayload, FileInput.stream]
  cases nmsg.payloads[s.npIndex]? with
  | none => rfl
  | some np =>
      by_cases hpass : inputNmsgFilter crc32c s.filter nmsg s.npIndex np = false
      · simp only [hpass, if_true]
        rfl
      · simp only [hpass]
        rfl

/-- How `_input_nmsg_read` moves on in a file. -/
def FileInput.advance (s : FileInput z) : FileInput z :=
  match s.nmsg with
  | some nmsg =>
      if nmsg.payloads.length ≠ 0 ∧ s.npIndex ≥ nmsg.payloads.length - 1 then
        { s with nmsg := none }
      else { s with npIndex := s.npIndex + 1 }
  | none => { s with npIndex := s.npIndex + 1 }

theorem streamAdvance_stream (s : FileInput z) : streamAdvance s.stream = s.advance.stream := by
  unfold streamAdvance FileInput.advance FileInput.stream
  cases s.nmsg with
  | none => rfl
  | some nmsg =>
      simp only
      split
      · rfl
      · rfl

theorem inputNmsgRead_eq (s : FileInput z) (env : CallEnv) :
    inputNmsgRead pb crc32c world s env =
      match s.advance.nmsg with
      | some nmsg => handPayload crc32c s.advance nmsg
      | none =>
          match inputNmsgReadContainerFile pb world (s.advance.reader, s.advance.decoder) env with
          | .error e => .error e
          | .ok ((res, nmsg), reader, decoder) =>
              let s := { s.advance with reader := reader, decoder := decoder, nmsg := nmsg }
              if res ≠ .success then .ok ((res, none), s)
              else
                match nmsg with
                | none => .error .nullPointer
                | some nmsg => handPayload crc32c { s with npIndex := 0 } nmsg := rfl

/-- **Files.** Reading a file is reading from `_input_nmsg_read_container_file`. -/
theorem streamRead_stream (s : FileInput z) (env : CallEnv) :
    streamRead crc32c (fun source => inputNmsgReadContainerFile pb world source env) s.stream =
      (inputNmsgRead pb crc32c world s env).map fun (answer, s) => (answer, s.stream) := by
  simp only [streamRead, streamAdvance_stream, inputNmsgRead_eq]
  generalize s.advance = t
  obtain ⟨reader, decoder, nmsg, npIndex, filter⟩ := t
  cases nmsg with
  | some nmsg => exact streamHandPayload_stream crc32c ⟨reader, decoder, some nmsg, _, _⟩ nmsg
  | none =>
      simp only [FileInput.stream]
      cases inputNmsgReadContainerFile pb world (reader, decoder) env with
      | error e => rfl
      | ok out =>
          obtain ⟨⟨res, nmsg⟩, reader, decoder⟩ := out
          by_cases hres : res = .success
          · simp only [hres, ne_eq, not_true_eq_false, if_false]
            cases nmsg with
            | none => rfl
            | some nmsg =>
                exact streamHandPayload_stream crc32c ⟨reader, decoder, some nmsg, 0, filter⟩ nmsg
          · simp only [ne_eq, hres, not_false_eq_true, if_true]
            rfl

end File

/-! ### Sources -/

/-- What a call of `stream_read_fp` on a source that has not ended comes to. -/
inductive Fetched where
  | again
  | container (nmsg : ProtoNmsg)
deriving DecidableEq

/-- What a source delivers, and what it returns from then on. -/
structure StreamSource where
  fetched : List Fetched
  last : Res
  ends : last ≠ .success ∧ last ≠ .again

theorem eof_ends : Res.eof ≠ .success ∧ Res.eof ≠ .again := ⟨nofun, nofun⟩

/-- The `stream_read_fp` of a source. -/
def StreamSource.fetch : StreamReadFp StreamSource := fun source =>
  match source.fetched with
  | [] => .ok ((source.last, none), source)
  | .again :: rest => .ok ((.again, none), { source with fetched := rest })
  | .container nmsg :: rest => .ok ((.success, some nmsg), { source with fetched := rest })

/-- A fresh input on this source hands over the same messages in the same order, until the source
ends, whether it is read one message at a time or looped over, and no index is out of range. -/
def ReadsAsLoop (crc32c : Bytes → UInt32) (filter : InputFilter) (source : StreamSource) : Prop :=
  ∃ fuel msgs,
    inputNmsgLoop crc32c StreamSource.fetch fuel (.fresh filter source) =
      .ok (source.last, msgs) ∧
    readAll crc32c StreamSource.fetch fuel (.fresh filter source) = .ok (source.last, msgs)

end Nmsg

import Nmsg.Input.Loop

/-!
# Looping over a number of payloads

`nmsg_input_loop` can be told how many payloads to pass to its callback. A stream takes containers
until it has passed that many; presentation, pcap and callback inputs are read message by message.
-/

namespace Nmsg

/-- A `read_fp` on some state of its own. -/
abbrev ReadFp (S : Type*) := S → Except Abort ((Res × Option Message) × S)

section Loop

variable {S : Type*} (crc32c : Bytes → UInt32) (fetch : StreamReadFp S) (read : ReadFp S)

/-- The payload loop of `_input_nmsg_loop` with a count, from the payload at `n` on, with `left` to
come and `nPayloads` passed so far: the messages passed, and `n_payloads` behind them. -/
def boundedPayloads (filter : InputFilter) (nmsg : ProtoNmsg) (cnt : Nat) :
    Nat → Nat → Nat → Except Abort (List Message × Nat)
  | _, 0, nPayloads => .ok ([], nPayloads)
  | n, left + 1, nPayloads =>
      match nmsg.payloads[n]? with
      | none => .error .nullPointer
      | some np =>
          if inputNmsgFilter crc32c filter nmsg n np then
            if nPayloads = cnt then .ok ([], nPayloads)
            else
              (boundedPayloads filter nmsg cnt (n + 1) left (nPayloads + 1)).map
                fun (msgs, nPayloads) => (messageFromPayload np :: msgs, nPayloads)
          else boundedPayloads filter nmsg cnt (n + 1) left nPayloads

/-- `_input_nmsg_loop` with a count that is not negative, for an input that is not stopped. -/
def inputNmsgLoopBounded (cnt : Nat) :
    Nat → Nat → StreamInput S → Except Abort ((Res × List Message) × StreamInput S)
  | 0, _, _ => .error .divergence
  | fuel + 1, nPayloads, s =>
      match fetch s.source with
      | .error e => .error e
      | .ok ((res, nmsg), source) =>
          let s := { s with source := source, nmsg := nmsg }
          if res = .again then inputNmsgLoopBounded cnt fuel nPayloads s
          else if res ≠ .success then .ok ((res, []), s)
          else
            match nmsg with
            | none => .error .nullPointer
            | some nmsg =>
                match boundedPayloads crc32c s.filter nmsg cnt 0 nmsg.payloads.length
                    nPayloads with
                | .error e => .error e
                | .ok (msgs, nPayloads) =>
                    let s := { s with nmsg := none }
                    if nPayloads = cnt then .ok ((.success, msgs), s)
                    else
                      (inputNmsgLoopBounded cnt fuel nPayloads s).map
                        fun ((res, rest), s) => ((res, msgs ++ rest), s)

/-- The loop of `nmsg_input_loop` over `read_fp`, with a count that is not negative, for an input
that is not stopped. The message that is read when enough were passed goes nowhere. -/
def inputLoopRead (cnt : Nat) : Nat → Nat → S → Except Abort ((Res × List Message) × S)
  | 0, _, _ => .error .divergence
  | fuel + 1, nPayloads, s =>
      match read s with
      | .error e => .error e
      | .ok ((res, msg), s) =>
          if res = .again then inputLoopRead cnt fuel nPayloads s
          else if res ≠ .success then .ok ((res, []), s)
          else if nPayloads = cnt then .ok ((.success, []), s)
          else
            (inputLoopRead cnt fuel (nPayloads + 1) s).map
              fun ((res, rest), s) => ((res, msg.toList ++ rest), s)

end Loop

/-- What the `read_fp` of a presentation, pcap or callback input comes to, call by call: a message,
or `nmsg_res_again`. -/
structure MessageSource where
  delivered : List (Option Message)
  last : Res
  ends : last ≠ .success ∧ last ≠ .again

/-- The `read_fp` of a source of messages. -/
def MessageSource.read : ReadFp MessageSource := fun source =>
  match source.delivered with
  | [] => .ok ((source.last, none), source)
  | none :: rest => .ok ((.again, none), { source with delivered := rest })
  | some msg :: rest => .ok ((.success, some msg), { source with delivered := rest })

/-- An input with what it has still to deliver: a stream, or one of the other inputs. -/
inductive Input where
  | stream (filter : InputFilter) (source : StreamSource)
  | other (source : MessageSource)

/-- `nmsg_input_loop`, in as many rounds as the source needs. -/
def nmsgInputLoop (crc32c : Bytes → UInt32) (cnt : Nat) :
    Input → Except Abort ((Res × List Message) × Input)
  | .stream filter source =>
      (inputNmsgLoopBounded crc32c StreamSource.fetch cnt (source.fetched.length + 1) 0
        (.fresh filter source)).map fun (answer, s) => (answer, .stream s.filter s.source)
  | .other source =>
      (inputLoopRead MessageSource.read cnt (source.delivered.length + 1) 0 source).map
        fun (answer, source) => (answer, .other source)

end Nmsg

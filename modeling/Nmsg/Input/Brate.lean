import Nmsg.Input.Loop

/-!
# Rate control

An input can be told to deliver its payloads at a rate of octets a second. `_nmsg_brate_sleep` is
called for every payload that is handed over: the first one of a container sets how many of them are
one quantum, and behind every quantum of the others it sleeps.
-/

namespace Nmsg

/-- `struct nmsg_brate`, without the times, which only say how long to sleep. -/
structure Brate where
  qu : Nat
  targetByteRate : Nat
deriving DecidableEq

/-- `_nmsg_brate_init` -/
def brateInit (targetByteRate : Nat) : Brate := ⟨0, targetByteRate⟩

/-- `_nmsg_brate_sleep`. A tenth of the payloads, rounded down, is a quantum. -/
def brateSleep (b : Brate) (nPayloads n : Nat) : Except Abort Brate :=
  if n = 0 then
    let qu := nPayloads / 10
    .ok { b with qu := if qu < 1 then 1 else qu }
  else if b.qu = 0 then .error .divideByZero
  -- whether `n % qu` is 0 decides about sleeping only
  else .ok b

/-- `nmsg_stream_input` with its `brate`. -/
structure RatedInput (S : Type*) where
  stream : StreamInput S
  brate : Option Brate

/-- An input that nothing was read from and that has no rate. -/
def RatedInput.fresh {S : Type*} (filter : InputFilter) (source : S) : RatedInput S :=
  ⟨.fresh filter source, none⟩

/-- `nmsg_input_set_byte_rate` -/
def inputSetByteRate {S : Type*} (s : RatedInput S) (targetByteRate : Nat) : RatedInput S :=
  { s with brate := if targetByteRate > 0 then some (brateInit targetByteRate) else none }

/-- A call on an input. -/
inductive RatedOp where
  | read
  | setByteRate (targetByteRate : Nat)
deriving DecidableEq

section Read

variable {S : Type*} (crc32c : Bytes → UInt32) (fetch : StreamReadFp S)

/-- `_input_nmsg_read` with rate control. -/
def ratedRead (s : RatedInput S) : Except Abort ((Res × Option Message) × RatedInput S) :=
  match streamRead crc32c fetch s.stream with
  | .error e => .error e
  | .ok ((res, msg), stream) =>
      if res ≠ .success then .ok ((res, msg), { s with stream := stream })
      else
        match s.brate, stream.nmsg with
        | none, _ => .ok ((res, msg), { s with stream := stream })
        | some _, none => .error .nullPointer
        | some b, some nmsg =>
            match brateSleep b nmsg.payloads.length stream.npIndex with
            | .error e => .error e
            | .ok b => .ok ((res, msg), ⟨stream, some b⟩)

def ratedStep (s : RatedInput S) : RatedOp → Except Abort ((Res × Option Message) × RatedInput S)
  | .read => ratedRead crc32c fetch s
  | .setByteRate targetByteRate => .ok ((.success, none), inputSetByteRate s targetByteRate)

end Read

end Nmsg

import Nmsg.Defs
import Nmsg.Lib.Prefixes
import Nmsg.Lib.StepRun

/-!
# Input threads

A thread of an `nmsg_io` reads messages from its input and writes each to the output whose turn it
is, or a copy of it to every output. Outputs are closed when they have received a number of
payloads or have been open for some time; the `close_fp` of the user may open them again.
-/

namespace Nmsg

/-- `nmsg_io_output_mode` -/
inductive IoOutputMode where
  | stripe
  | mirror
deriving DecidableEq

/-- `nmsg_io_close_type` of an output that is not at its end. -/
inductive IoCloseType where
  | count
  | interval
deriving DecidableEq

/-- `struct nmsg_io`, as it is set up. -/
structure Io where
  count : Nat
  interval : Nat
  outputMode : IoOutputMode
  /-- Whether there is a `close_fp`. -/
  closeFp : Bool

/-- `struct nmsg_io_output`. The counter is 64 bits wide, and `last` is in seconds. -/
structure IoOutput where
  /-- Whether the pointer to the output is not null. -/
  isOpen : Bool
  last : Int
  countNmsgPayloadOut : Nat
deriving DecidableEq

/-- A thread and what it works on. `ioOutput` is the place of the output whose turn it is. -/
structure IoThr where
  outputs : List IoOutput
  ioOutput : Nat
  stop : Bool
  running : Bool
  res : Res
deriving DecidableEq

/-- A thread that starts with `n` outputs. -/
def IoThr.start (n : Nat) : IoThr where
  outputs := List.replicate n ⟨true, 0, 0⟩
  ioOutput := 0
  stop := false
  running := n ≠ 0
  res := if n = 0 then .failure else .success

/-- What one round of the loop meets with: the time, what `nmsg_input_read` and the
`nmsg_output_write` of each output return, and whether `close_fp` opens the output again. -/
structure IoRound (M : Type*) where
  now : Int
  read : Res
  msg : Option M
  write : Nat → Res
  reopens : Nat → IoCloseType → Bool

/-- What a round does to an output. -/
inductive IoAction (M : Type*) where
  | wrote (output : Nat) (msg : M)
  | closed (output : Nat) (type : IoCloseType)
deriving DecidableEq

section Thread

variable {M : Type*} (io : Io) (dup : M → M) (round : IoRound M)

/-- `io_write` -/
def ioWrite (s : IoThr) (j : Nat) (msg : M) : Except Abort (Res × List (IoAction M) × IoThr) :=
  match s.outputs[j]? with
  | none => .error .nullPointer
  | some out =>
      if out.isOpen = false then
        if io.closeFp then .ok (.stop, [], s) else .error .nullPointer
      else if round.write j ≠ .success then .ok (round.write j, [], s)
      else
        .ok (.success, [.wrote j msg], { s with
          outputs := s.outputs.modify j fun out =>
            { out with countNmsgPayloadOut := out.countNmsgPayloadOut + 1 } })

/-- `io_write_mirrored`, for the outputs at these places. -/
def writeEach (msg : M) : List Nat → IoThr → Except Abort (Res × List (IoAction M) × IoThr)
  | [], s => .ok (.success, [], s)
  | j :: rest, s =>
      match ioWrite io round s j (dup msg) with
      | .error e => .error e
      | .ok (res, actions, s) =>
          if res ≠ .success then .ok (res, actions, s)
          else
            (writeEach msg rest s).map fun (res, actions', s) => (res, actions ++ actions', s)

/-- `io_write_mirrored` -/
def ioWriteMirrored (s : IoThr) (msg : M) : Except Abort (Res × List (IoAction M) × IoThr) :=
  writeEach io dup round msg (List.range s.outputs.length) s

/-- A close event of `check_close_event`: whether the output stays closed, and the actions. Without
a `close_fp` everything stops. -/
def closeEvent (s : IoThr) (j : Nat) (type : IoCloseType) : Bool × List (IoAction M) × IoThr :=
  if io.closeFp then
    let s := { s with
      outputs := s.outputs.modify j fun out => { out with isOpen := round.reopens j type } }
    if round.reopens j type then (false, [.closed j type], s)
    else (true, [.closed j type], { s with stop := true })
  else (true, [], { s with stop := true })

/-- `check_close_event` -/
def checkCloseEvent (s : IoThr) (j : Nat) : Except Abort (Res × List (IoAction M) × IoThr) :=
  match s.outputs[j]? with
  | none => .error .nullPointer
  | some out =>
      if out.isOpen = false then .ok (.stop, [], s)
      else
        let (gone, actions, s) :=
          if io.count > 0 ∧ out.countNmsgPayloadOut > 0 ∧ out.countNmsgPayloadOut % io.count = 0
          then closeEvent io round s j .count
          else (false, [], s)
        if gone then .ok (.stop, actions, s)
        else if io.interval > 0 ∧ round.now - out.last ≥ io.interval then
          let s :=
            if io.closeFp then { s with
              outputs := s.outputs.modify j fun out =>
                { out with last := round.now - round.now.tmod io.interval } }
            else s
          let (gone, actions', s) := closeEvent io round s j .interval
          .ok (if gone then .stop else .success, actions ++ actions', s)
        else .ok (.success, actions, s)

/-- `ISC_LIST_NEXT`, and the head behind the tail. -/
def nextOutput (s : IoThr) : IoThr :=
  { s with ioOutput := if s.ioOutput + 1 < s.outputs.length then s.ioOutput + 1 else 0 }

/-- A round of the loop of `io_thr_input`: what it does to the outputs. Only this thread sets
`stop`. -/
def ioThrInput (s : IoThr) : Except Abort (List (IoAction M) × IoThr) :=
  if s.running = false then .ok ([], s)
  else if round.read = .again then
    match checkCloseEvent io round s s.ioOutput with
    | .error e => .error e
    | .ok (_, actions, s) => .ok (actions, { s with running := !s.stop })
  else if round.read ≠ .success then .ok ([], { s with res := round.read, running := false })
  else
    match round.msg with
    | none => .error .assertion
    | some msg =>
        let written :=
          match io.outputMode with
          | .stripe => ioWrite io round s s.ioOutput msg
          | .mirror => ioWriteMirrored io dup round s msg
        match written with
        | .error e => .error e
        | .ok (res, actions, s) =>
            if res ≠ .success then .ok (actions, { s with res := res, running := false })
            else
              match checkCloseEvent io round s s.ioOutput with
              | .error e => .error e
              | .ok (_, actions', s) =>
                  if s.stop then .ok (actions ++ actions', { s with running := false })
                  else .ok (actions ++ actions', nextOutput s)

end Thread

/-! ### Rotation -/

section Rotation

open Prefixes

variable {M : Type*}

/-- Payloads that an output received since its last close event of type count. -/
def sinceClose (j : Nat) (log : List (IoAction M)) : Nat :=
  log.foldl (fun since action =>
    match action with
    | .wrote i _ => if i = j then since + 1 else since
    | .closed i .count => if i = j then 0 else since
    | .closed _ .interval => since) 0

/-- Rotation by count is exact: a close event of type count comes for an output that has received
`n` payloads since the one before it, or since the start, and no output receives more than that
without one. -/
def RotatesExactly (n : Nat) (log : List (IoAction M)) : Prop :=
  EachAfter (fun before action =>
    match action with
    | .wrote j _ => sinceClose j before < n
    | .closed j .count => sinceClose j before = n
    | .closed _ .interval => True) log

/-- The input delivers a message or asks to try again, every output takes what is written to it, and
`close_fp` opens every output again. -/
structure IoRound.Proceeds (round : IoRound M) : Prop where
  read : round.read = .again ∨ (round.read = .success ∧ round.msg ≠ none)
  write : ∀ j, round.write j = .success
  reopens : ∀ j type, round.reopens j type = true

/-- The messages that were read. -/
def messagesRead (rounds : List (IoRound M)) : Nat :=
  rounds.countP fun round => round.read ≠ .again

/-- The empty reads since the last message. -/
def idleReads (rounds : List (IoRound M)) : Nat :=
  rounds.foldl (fun idle round => if round.read = .again then idle + 1 else 0) 0

/-- What must not happen in a round for rotation to be exact, with `k` outputs. The output whose
turn it is has received `messagesRead before / k` payloads in stripe mode, and every output
`messagesRead before` in mirror mode. -/
def RotatesAt (mode : IoOutputMode) (n k : Nat) (before : List (IoRound M)) (round : IoRound M) :
    Prop :=
  let m := messagesRead before
  match mode with
  | .stripe => round.read = .again → ¬ (0 < m / k ∧ n ∣ m / k)
  | .mirror => 0 < m → n ∣ m →
      if round.read = .again then 2 ≤ k ∧ idleReads before = 0
      else k = 1 ∨ (k = 2 ∧ 0 < idleReads before)

end Rotation

end Nmsg

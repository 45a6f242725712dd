import Nmsg.Io
import Nmsg.Lib.Interleave

/-!
# The threads of an `nmsg_io`

`nmsg_io_loop` starts a thread for every input. They share the outputs, the counters and the flag
`stop`, and what they do to these comes in any order. A turn of a thread is one access to what it
shares: a lock taken or released, a counter loaded or stored, a call of `nmsg_output_write` (which
locks the output for itself) or of `close_fp`. The other half of the order is with
`nmsg_io_breakloop`, which may come at any time.
-/

namespace Nmsg

/-- Where a thread is in `io_thr_input` and the functions it calls, and what it carries. `todo` are
the outputs that the message in hand still goes to, each with the message or its copy, and those that
it does not reach any more when the thread is done; `wrote` says that `check_close_event` follows a
message and not an empty read. -/
inductive IoPc (M : Type*) where
  | read
  | received (res : Res) (msg : Option M)
  | lockOutput (todo : List (Nat × M))
  | write (j : Nat) (msg : M) (todo : List (Nat × M))
  | unlockOutput (res : Res) (j : Nat) (msg : M) (todo : List (Nat × M))
  | loadCount (j : Nat) (todo : List (Nat × M))
  | storeCount (count j : Nat) (todo : List (Nat × M))
  | lockIo (todo : List (Nat × M))
  | loadTotal (todo : List (Nat × M))
  | storeTotal (total : Nat) (todo : List (Nat × M))
  | unlockIo (todo : List (Nat × M))
  | lockClose (wrote : Bool)
  | countCheck (wrote : Bool)
  | intervalCheck (wrote : Bool)
  | setStop (wrote : Bool)
  | unlockClose (wrote : Bool)
  | testStop (wrote : Bool)
  | nextOutput
  | done (todo : List (Nat × M))
deriving DecidableEq

/-- The outputs that the message in hand has not reached. -/
def IoPc.pending {M : Type*} : IoPc M → List (Nat × M)
  | .lockOutput todo => todo
  | .write j msg todo => (j, msg) :: todo
  | .unlockOutput res j msg todo => if res = .success then todo else (j, msg) :: todo
  | .loadCount _ todo => todo
  | .storeCount _ _ todo => todo
  | .lockIo todo => todo
  | .loadTotal todo => todo
  | .storeTotal _ todo => todo
  | .unlockIo todo => todo
  | .done todo => todo
  | _ => []

def IoPc.ended {M : Type*} : IoPc M → Bool
  | .done _ => true
  | _ => false

/-- `struct nmsg_io_thr` with its `struct nmsg_io_input`. `taken` are the messages that
`count_nmsg_payload_in` counts. -/
structure IoWorker (M : Type*) where
  pc : IoPc M
  ioOutput : Nat
  now : Int
  res : Res
  taken : List M
deriving DecidableEq

def IoWorker.countNmsgPayloadIn {M : Type*} (w : IoWorker M) : Nat := w.taken.length

variable {M : Type*}

/-- The output that a thread has locked, if there is a `close_fp`. -/
def IoWorker.holds (w : IoWorker M) : Option Nat :=
  match w.pc with
  | .write j _ _ => some j
  | .unlockOutput _ j _ _ => some j
  | .countCheck _ => some w.ioOutput
  | .intervalCheck _ => some w.ioOutput
  | .setStop _ => some w.ioOutput
  | .unlockClose _ => some w.ioOutput
  | _ => none

/-- Whether a thread has locked the `nmsg_io`. -/
def IoWorker.holdsIo (w : IoWorker M) : Prop :=
  match w.pc with
  | .loadTotal _ => True
  | .storeTotal _ _ => True
  | .unlockIo _ => True
  | _ => False

/-- A payload that a thread has written and not yet counted for the `nmsg_io`. -/
def IoWorker.uncounted (w : IoWorker M) : Nat :=
  match w.pc with
  | .unlockOutput res _ _ _ => if res = .success then 1 else 0
  | .loadCount _ _ => 1
  | .storeCount _ _ _ => 1
  | .lockIo _ => 1
  | .loadTotal _ => 1
  | .storeTotal _ _ => 1
  | _ => 0

/-- A payload that a thread has written to output `j` and not yet counted there. -/
def IoWorker.uncountedOn (j : Nat) (w : IoWorker M) : Nat :=
  match w.pc with
  | .unlockOutput res i _ _ => if res = .success ∧ i = j then 1 else 0
  | .loadCount i _ => if i = j then 1 else 0
  | .storeCount _ i _ => if i = j then 1 else 0
  | _ => 0

/-- What the threads share: the outputs with their locks, `stop`, and the counter of the `nmsg_io`
with its lock. `log` is what they did to the outputs, each entry with the thread that did it. -/
structure IoShared (M : Type*) where
  outputs : List IoOutput
  outputLock : Nat → Option Nat
  ioLock : Option Nat
  stop : Bool
  countNmsgPayloadOut : Nat
  log : List (Nat × IoAction M)

abbrev IoSystem (M : Type*) := Interleave.System (IoShared M) (IoWorker M)

/-- The outputs that a message goes to: the one whose turn it is, or a copy to each. -/
def targets (mode : IoOutputMode) (dup : M → M) (n ioOutput : Nat) (msg : M) : List (Nat × M) :=
  match mode with
  | .stripe => [(ioOutput, msg)]
  | .mirror => (List.range n).map fun j => (j, dup msg)

/-- What an input of these messages brings about when none is refused: in stripe mode message `i`
goes to output `i % n`, in mirror mode a copy of each goes to every output. -/
def planned (mode : IoOutputMode) (dup : M → M) (n : Nat) (taken : List M) : List (Nat × M) :=
  (taken.zipIdx.map fun (msg, i) => targets mode dup n (i % n) msg).flatten

/-- What a thread has written, and to which outputs. -/
def writesBy (t : Nat) (log : List (Nat × IoAction M)) : List (Nat × M) :=
  log.filterMap fun (u, action) =>
    match action with
    | .wrote j msg => if u = t then some (j, msg) else none
    | .closed _ _ => none

/-- Messages that an output has received. -/
def writesTo (j : Nat) (log : List (Nat × IoAction M)) : Nat :=
  log.countP fun (_, action) =>
    match action with
    | .wrote i _ => i = j
    | .closed _ _ => false

/-- Messages that all outputs have received. -/
def writesAll (log : List (Nat × IoAction M)) : Nat :=
  log.countP fun (_, action) =>
    match action with
    | .wrote _ _ => true
    | .closed _ _ => false

section Worker

variable (io : Io) (dup : M → M) (t : Nat) (env : IoRound M)

/-- `io_write`: the pointer to the output and `nmsg_output_write`. -/
def turnWrite (j : Nat) (msg : M) (todo : List (Nat × M)) (w : IoWorker M) (s : IoShared M) :
    Except Abort (IoWorker M × IoShared M) :=
  match s.outputs[j]? with
  | none => .error .nullPointer
  | some out =>
      if out.isOpen = false then
        if io.closeFp then .ok ({ w with pc := .unlockOutput .stop j msg todo }, s)
        else .error .nullPointer
      else if env.write j ≠ .success then
        .ok ({ w with pc := .unlockOutput (env.write j) j msg todo }, s)
      else
        .ok ({ w with pc := .unlockOutput .success j msg todo },
          { s with log := s.log ++ [(t, .wrote j msg)] })

/-- A close event in `check_close_event`. -/
def turnClose (type : IoCloseType) (next : IoPc M) (wrote : Bool) (w : IoWorker M)
    (s : IoShared M) : IoWorker M × IoShared M :=
  if io.closeFp then
    ({ w with pc := if env.reopens w.ioOutput type then next else .setStop wrote },
      { s with
        outputs := s.outputs.modify w.ioOutput fun out =>
          { out with isOpen := env.reopens w.ioOutput type }
        log := s.log ++ [(t, .closed w.ioOutput type)] })
  else ({ w with pc := .setStop wrote }, s)

/-- `check_close_event`: the pointer to the output and the check of the count. -/
def turnCountCheck (wrote : Bool) (w : IoWorker M) (s : IoShared M) :
    Except Abort (IoWorker M × IoShared M) :=
  match s.outputs[w.ioOutput]? with
  | none => .error .nullPointer
  | some out =>
      if out.isOpen = false then .ok ({ w with pc := .unlockClose wrote }, s)
      else if io.count > 0 ∧ out.countNmsgPayloadOut > 0 ∧ out.countNmsgPayloadOut % io.count = 0
      then .ok (turnClose io t env .count (.intervalCheck wrote) wrote w s)
      else .ok ({ w with pc := .intervalCheck wrote }, s)

/-- `check_close_event`: the check of the interval. -/
def turnIntervalCheck (wrote : Bool) (w : IoWorker M) (s : IoShared M) :
    Except Abort (IoWorker M × IoShared M) :=
  match s.outputs[w.ioOutput]? with
  | none => .error .nullPointer
  | some out =>
      if io.interval > 0 ∧ w.now - out.last ≥ io.interval then
        let s :=
          if io.closeFp then { s with
            outputs := s.outputs.modify w.ioOutput fun out =>
              { out with last := w.now - w.now.tmod io.interval } }
          else s
        .ok (turnClose io t env .interval (.unlockClose wrote) wrote w s)
      else .ok ({ w with pc := .unlockClose wrote }, s)

/-- One turn of a thread. A thread that finds a lock taken stays where it is. -/
def ioTurn (w : IoWorker M) (s : IoShared M) : Except Abort (IoWorker M × IoShared M) :=
  match w.pc with
  | .read => .ok ({ w with pc := .received env.read env.msg, now := env.now }, s)
  | .received res msg =>
      if s.stop then .ok ({ w with pc := .done [] }, s)
      else if res = .again then .ok ({ w with pc := .lockClose false }, s)
      else if res ≠ .success then .ok ({ w with pc := .done [], res := res }, s)
      else
        match msg with
        | none => .error .assertion
        | some msg =>
            .ok ({ w with
              pc := .lockOutput (targets io.outputMode dup s.outputs.length w.ioOutput msg)
              taken := w.taken ++ [msg] }, s)
  | .lockOutput [] => .ok ({ w with pc := .lockClose true }, s)
  | .lockOutput ((j, msg) :: todo) =>
      if io.closeFp then
        match s.outputLock j with
        | some _ => .ok (w, s)
        | none =>
            .ok ({ w with pc := .write j msg todo },
              { s with outputLock := Function.update s.outputLock j (some t) })
      else .ok ({ w with pc := .write j msg todo }, s)
  | .write j msg todo => turnWrite io t env j msg todo w s
  | .unlockOutput res j msg todo =>
      let s :=
        if io.closeFp then { s with outputLock := Function.update s.outputLock j none } else s
      if res ≠ .success then .ok ({ w with pc := .done ((j, msg) :: todo), res := res }, s)
      else .ok ({ w with pc := .loadCount j todo }, s)
  | .loadCount j todo =>
      match s.outputs[j]? with
      | none => .error .nullPointer
      | some out => .ok ({ w with pc := .storeCount out.countNmsgPayloadOut j todo }, s)
  | .storeCount count j todo =>
      .ok ({ w with pc := .lockIo todo }, { s with
        outputs := s.outputs.modify j fun out => { out with countNmsgPayloadOut := count + 1 } })
  | .lockIo todo =>
      match s.ioLock with
      | some _ => .ok (w, s)
      | none => .ok ({ w with pc := .loadTotal todo }, { s with ioLock := some t })
  | .loadTotal todo => .ok ({ w with pc := .storeTotal s.countNmsgPayloadOut todo }, s)
  | .storeTotal total todo =>
      .ok ({ w with pc := .unlockIo todo }, { s with countNmsgPayloadOut := total + 1 })
  | .unlockIo todo => .ok ({ w with pc := .lockOutput todo }, { s with ioLock := none })
  | .lockClose wrote =>
      if io.closeFp then
        match s.outputLock w.ioOutput with
        | some _ => .ok (w, s)
        | none =>
            .ok ({ w with pc := .countCheck wrote },
              { s with outputLock := Function.update s.outputLock w.ioOutput (some t) })
      else .ok ({ w with pc := .countCheck wrote }, s)
  | .countCheck wrote => turnCountCheck io t env wrote w s
  | .intervalCheck wrote => turnIntervalCheck io t env wrote w s
  | .setStop wrote => .ok ({ w with pc := .unlockClose wrote }, { s with stop := true })
  | .unlockClose wrote =>
      .ok ({ w with pc := .testStop wrote },
        if io.closeFp then { s with outputLock := Function.update s.outputLock w.ioOutput none }
        else s)
  | .testStop wrote =>
      .ok ({ w with pc := if s.stop then .done [] else if wrote then .nextOutput else .read }, s)
  | .nextOutput =>
      .ok ({ w with
        pc := if s.stop then .done [] else .read
        ioOutput := if w.ioOutput + 1 < s.outputs.length then w.ioOutput + 1 else 0 }, s)
  | .done _ => .ok (w, s)

end Worker

/-- `nmsg_io_breakloop`. What it tells the outputs shows in what `nmsg_output_write` returns. -/
def nmsgIoBreakloop (_ : Unit) (s : IoShared M) : IoShared M := { s with stop := true }

abbrev IoEvent (M : Type*) := Interleave.Event (IoRound M) Unit

/-- The system takes a turn. -/
def ioStep (io : Io) (dup : M → M) (s : IoSystem M) (e : IoEvent M) :
    Except Abort (Unit × IoSystem M) :=
  Interleave.turn (ioTurn io dup) nmsgIoBreakloop s e

/-- A thread that starts with `n` outputs. -/
def IoWorker.start (n : Nat) : IoWorker M where
  pc := if n = 0 then .done [] else .read
  ioOutput := 0
  now := 0
  res := if n = 0 then .failure else .success
  taken := []

/-- `nmsg_io_loop` with one output for every entry of `lasts`, the times that
`init_timespec_intervals` sets. -/
def IoSystem.start (inputs : Nat) (lasts : List Int) : IoSystem M where
  shared :=
    { outputs := lasts.map fun last => ⟨true, last, 0⟩
      outputLock := fun _ => none
      ioLock := none
      stop := false
      countNmsgPayloadOut := 0
      log := [] }
  threads := List.replicate inputs (IoWorker.start lasts.length)

/-- A round in which the input has a message and all outputs take it. -/
def IoRound.delivering (msg : M) : IoRound M where
  now := 0
  read := .success
  msg := some msg
  write _ := .success
  reopens _ _ := true

/-- What `nmsg_io_loop` returns when all threads are joined. -/
def ioLoopResult (s : IoSystem M) : Res :=
  if s.threads.all fun w => w.res = .success ∨ w.res = .eof ∨ w.res = .stop then .success
  else .failure

end Nmsg

import Nmsg.Input.Null
import Nmsg.Lib.Chunks
import Nmsg.Proof.DatagramSize
import Nmsg.Proof.FragSafety
import Nmsg.Stream

/-!
# Payloads through a network

What socket outputs and socket inputs are for: senders number their containers and send them in
datagrams, the network delivers some of the datagrams in some order, and the receiver hands over the
payloads of the containers that arrive whole.
-/

namespace Nmsg

/-! ### What is sent -/

namespace FragmentedContainer

variable (c : FragmentedContainer)

/-- The pieces of a container that is not cut up are sent as they are, and then there is but one. -/
def cut : Bool := c.flags &&& flagFragment ≠ 0

/-- What a datagram carries behind its header. -/
def packedPiece (pb : ProtobufC) (k : Nat) : Bytes :=
  if c.cut then pb.packFragment (c.fragment k) else c.pieces.getD k []

def datagram (pb : ProtobufC) (k : Nat) : Bytes :=
  headerSerialize c.flags (c.packedPiece pb k).length ++ c.packedPiece pb k

def datagrams (pb : ProtobufC) : List Bytes := (List.range c.pieces.length).map (c.datagram pb)

/-- A receiver with all datagrams has the container. -/
structure Readable (pb : ProtobufC) (z : Zlib) : Prop where
  pieces_ne : c.pieces ≠ []
  piece_ne : c.cut = true → [] ∉ c.pieces
  few : c.pieces.length < 2 ^ 32
  one : c.cut = false → c.pieces.length = 1
  sized : ∀ k < c.pieces.length, (c.datagram pb k).length ≤ rbufsz / 2
  carries : Carries pb z c.zlib c.pieces.flatten c.nmsg

end FragmentedContainer

/-! ### The network -/

/-- A datagram that arrives at some time. -/
structure Arrived (n : Nat) where
  now : Timespec
  piece : Piece n
deriving DecidableEq

/-- The datagrams of a list of events, of which some are that nothing arrives in time. -/
def arrivedPieces {n : Nat} (events : List (Option (Arrived n))) : List (Piece n) :=
  events.reduceOption.map Arrived.piece

section Network

variable {n : Nat} (cs : Fin n → FragmentedContainer)

/-- Containers that are cut up can be told apart. -/
def KeysApart : Prop :=
  ∀ i j, (cs i).cut = true → (cs j).cut = true → (cs i).key = (cs j).key → i = j

/-- The call of a receiver to which a datagram arrives, or nothing. -/
def RecvCall.Meets (pb : ProtobufC) (call : RecvCall) : Option (Arrived n) → Prop
  | none => call.event = .pollAgain ∨ ∃ now, call.event = .recvAgain now
  | some a =>
      call.event = .datagram a.now (cs a.piece.1).addrSs ((cs a.piece.1).datagram pb a.piece.2) ∧
        a.piece.2 < (cs a.piece.1).pieces.length ∧ call.env.Succeeds

/-- Datagrams may be lost and arrive in any order. None arrives when its container has already
arrived whole, and the datagrams of a container that does arrive whole are not kept so long that the
receiver has dropped the first of them. -/
structure NetworkDelivers (events : List (Option (Arrived n))) : Prop where
  before : BeforeCompletion cs [] (arrivedPieces events)
  inTime : ∀ earlier a between b later, events.reduceOption = earlier ++ a :: between ++ b :: later →
    a.piece.1 = b.piece.1 → Complete cs (arrivedPieces events) a.piece.1 →
      ∀ x ∈ between, x.now.sec - a.now.sec < (fragGcInterval : Int)

/-- The containers in the order in which they become complete. -/
def completions : List (Piece n) → List (Piece n) → List (Fin n)
  | _, [] => []
  | seen, a :: rest =>
      if Complete cs (seen ++ [a]) a.1 then a.1 :: completions (seen ++ [a]) rest
      else completions (seen ++ [a]) rest

end Network

/-! ### Senders -/

/-- The payload a call writes. -/
def SockOutputOp.payload (config : OutputConfig) : SockOutputOp → Option NmsgPayload
  | .write now _ msg _ => (messageSerialize now msg).np.map config.override
  | .flush _ => none
  | .setBuffered _ => none

/-- No datagram of the call is refused. -/
def SockOutputOp.Sends : SockOutputOp → Prop
  | .write _ _ _ fails => ∀ k, fails k = false
  | .flush fails => fails = false
  | .setBuffered _ => True

/-- Payloads that are sent together. If they are cut up, under this number. -/
structure Parcel where
  payloads : List NmsgPayload
  cut : Option UInt32
deriving DecidableEq

/-- The size `nmsg_container_add` estimates for a numbered container of these payloads. -/
def numberedSize (nps : List NmsgPayload) : Nat := hdrlszV2 + estimates true nps

/-- What waits in the container of a sender, and whether it may wait. -/
structure Pending where
  buffered : Bool
  waiting : List NmsgPayload
deriving DecidableEq

/-- A payload joins those that wait. -/
def Pending.join (bufsz : Nat) (w : Pending) (id : UInt32) (np : NmsgPayload) :
    List Parcel × Pending :=
  if bufsz < numberedSize (w.waiting ++ [np]) then
    ([⟨w.waiting ++ [np], some id⟩], { w with waiting := [] })
  else if w.buffered then ([], { w with waiting := w.waiting ++ [np] })
  else ([⟨w.waiting ++ [np], none⟩], { w with waiting := [] })

/-- What a call sends, and what waits then. A payload for which there was no room waits in any
case. -/
def Pending.step (bufsz : Nat) (config : OutputConfig) (w : Pending) :
    SockOutputOp → List Parcel × Pending
  | .write now id msg _ =>
      match (messageSerialize now msg).np.map config.override with
      | none => ([], w)
      | some np =>
          if w.waiting ≠ [] ∧ bufsz ≤ numberedSize w.waiting + payloadSize np + 32 then
            (⟨w.waiting, none⟩ :: (Pending.join bufsz ⟨true, []⟩ id np).1,
              ⟨w.buffered, (Pending.join bufsz ⟨true, []⟩ id np).2.waiting⟩)
          else w.join bufsz id np
  | .flush _ => (if w.waiting = [] then [] else [⟨w.waiting, none⟩], { w with waiting := [] })
  | .setBuffered buffered => ([], { w with buffered := buffered })

/-- What calls send. -/
def parcels (bufsz : Nat) (config : OutputConfig) : Pending → List SockOutputOp → List Parcel
  | _, [] => []
  | w, op :: ops =>
      (w.step bufsz config op).1 ++ parcels bufsz config (w.step bufsz config op).2 ops

/-- A socket output, from where its datagrams seem to come, and the calls on it. -/
structure SockSender where
  bufsz : Nat
  config : OutputConfig
  sequenceId : UInt64
  addrSs : SockaddrStorage
  ops : List SockOutputOp

section Sender

variable (pb : ProtobufC) (z : Zlib) (crc32c : Bytes → UInt32)

/-- A container with the number of its place. -/
def numbered (sequenceId : UInt64) (number : Nat) (nps : List NmsgPayload) : ProtoNmsg :=
  { payloadCalcCrcs crc32c ⟨nps, [], none, none⟩ with
    sequence := some (.ofNat number)
    sequenceId := some sequenceId }

/-- The same packed, and compressed or not. -/
def numberedBody (doZlib : Bool) (sequenceId : UInt64) (number : Nat) (nps : List NmsgPayload) :
    Bytes :=
  if doZlib then deflated z (pb.packNmsg (numbered crc32c sequenceId number nps))
  else pb.packNmsg (numbered crc32c sequenceId number nps)

namespace SockSender

variable (x : SockSender)

/-- The output as it is opened. -/
def output : StreamOutput := StreamOutput.openSock x.bufsz x.config x.sequenceId

/-- What is sent, up to what is sent when the output is closed. -/
def parcels : List Parcel :=
  Nmsg.parcels x.output.bufsz x.config ⟨x.config.buffered, []⟩ (x.ops ++ [.flush false])

/-- The container of a parcel. -/
def container (number : Nat) (p : Parcel) : FragmentedContainer where
  id := p.cut.getD 0
  crc := some (htonl (crc32c (numberedBody pb z crc32c x.config.doZlib x.sequenceId number
    p.payloads)))
  addrSs := x.addrSs
  flags := (if x.config.doZlib then flagZlib else 0) ||| (if p.cut.isSome then flagFragment else 0)
  pieces :=
    if p.cut.isSome then
      Chunks.chunks (x.output.bufsz - 32)
        (numberedBody pb z crc32c x.config.doZlib x.sequenceId number p.payloads)
    else [numberedBody pb z crc32c x.config.doZlib x.sequenceId number p.payloads]
  nmsg := numbered crc32c x.sequenceId number p.payloads

/-- All containers of a sender, numbered from zero. -/
def containers : List FragmentedContainer :=
  x.parcels.mapIdx fun number p => x.container pb z crc32c number p

/-- A parcel is sent as it can be read. Compressing does not make a container longer than a reader
takes. What is cut up does not fit in one datagram, and is no multiple of what fits in one. -/
structure ParcelFits (number : Nat) (p : Parcel) : Prop where
  whole : p.cut = none → x.config.doZlib = true →
    hdrlszV2 + (numberedBody pb z crc32c true x.sequenceId number p.payloads).length ≤ rbufsz / 2
  long : p.cut ≠ none → x.config.doZlib = true → x.output.bufsz - 32 <
    (numberedBody pb z crc32c true x.sequenceId number p.payloads).length
  uneven : p.cut ≠ none → (numberedBody pb z crc32c x.config.doZlib x.sequenceId number
    p.payloads).length % (x.output.bufsz - 32) ≠ 0

/-- What is asked of a sender: it writes payloads of less than two mebibytes, its datagrams are
sent, and they can be read. -/
structure Fits : Prop where
  small : ∀ op ∈ x.ops, op.Small
  sends : ∀ op ∈ x.ops, op.Sends
  parcels : ∀ number p, x.parcels[number]? = some p → x.ParcelFits pb z crc32c number p

/-- The calls on the output succeed, and hand the datagrams of the containers to the socket, one
after the other; the containers hold the payloads that are written, each once and in order. -/
def SendsContainers : Prop :=
  ∃ answers s,
    StepRun.run (sockOutputStep pb z crc32c) x.output (x.ops ++ [.flush false]) =
      .ok (answers, s) ∧
    (∀ answer ∈ answers, answer.1 = .success) ∧
    answers.flatMap Prod.snd =
      (x.containers pb z crc32c).flatMap (fun c => c.datagrams pb) ∧
    (x.containers pb z crc32c).flatMap (fun c => c.nmsg.payloads) =
      x.ops.filterMap (SockOutputOp.payload x.config)

end SockSender

/-- The containers of some senders. -/
def sentContainers (senders : List SockSender) : List FragmentedContainer :=
  senders.flatMap fun x => x.containers pb z crc32c

end Sender

end Nmsg

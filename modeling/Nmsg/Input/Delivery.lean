import Mathlib.Data.List.Forall2
import Nmsg.Proof.FragSafety

/-!
# Containers in pieces

What defragmentation is for: containers are cut into pieces, the pieces arrive in any order, and
the piece that completes a container delivers it.
-/

namespace Nmsg

/-- The octets of a serialized container that unpacks to `nmsg`. -/
def Carries (pb : ProtobufC) (z : Zlib) (zlib : Bool) (body : Bytes) (nmsg : ProtoNmsg) : Prop :=
  if zlib then
    ∃ packed, body = deflated z packed ∧ packed.length < 2 ^ 32 ∧ body.length < 2 ^ 32 ∧
      pb.unpackNmsg packed = some nmsg
  else pb.unpackNmsg body = some nmsg

/-- A container that one sender sends in pieces, with the flags of its datagrams. -/
structure FragmentedContainer where
  id : UInt32
  crc : Option UInt32
  addrSs : SockaddrStorage
  flags : UInt8
  pieces : List Bytes
  nmsg : ProtoNmsg

namespace FragmentedContainer

variable (c : FragmentedContainer)

def key : FragKey := ⟨c.id, c.crc.getD 0, c.addrSs⟩

def last : UInt32 := .ofNat (c.pieces.length - 1)

/-- The message that carries a piece. -/
def fragment (k : Nat) : NmsgFragment := ⟨c.id, .ofNat k, c.last, c.pieces.getD k [], c.crc⟩

def zlib : Bool := c.flags &&& flagZlib ≠ 0

/-- The pieces are those of a serialized container, and fragments can number them. -/
structure Valid (pb : ProtobufC) (z : Zlib) : Prop where
  pieces_ne : c.pieces ≠ []
  piece_ne : [] ∉ c.pieces
  length_le : c.pieces.length ≤ 2 ^ 32
  flagged : c.flags &&& flagFragment ≠ 0
  carries : Carries pb z c.zlib c.pieces.flatten c.nmsg

end FragmentedContainer

/-- Piece `k` of container `i`. -/
abbrev Piece (n : Nat) := Fin n × Nat

section Delivery

variable {n : Nat} (cs : Fin n → FragmentedContainer)

/-- All pieces of a container have been seen. -/
def Complete (seen : List (Piece n)) (i : Fin n) : Prop :=
  ∀ k < (cs i).pieces.length, (i, k) ∈ seen

instance (seen : List (Piece n)) (i : Fin n) : Decidable (Complete cs seen i) :=
  inferInstanceAs (Decidable (∀ k < (cs i).pieces.length, (i, k) ∈ seen))

/-- The answer to a piece: the container, if the piece completes it. -/
def outcome (seen : List (Piece n)) (a : Piece n) : Res × Option ProtoNmsg :=
  if Complete cs (seen ++ [a]) a.1 then (.success, some (cs a.1).nmsg) else (.again, none)

/-- The answers to pieces that arrive after those seen. -/
def outcomes : List (Piece n) → List (Piece n) → List (Res × Option ProtoNmsg)
  | _, [] => []
  | seen, a :: rest => outcome cs seen a :: outcomes (seen ++ [a]) rest

/-- How often container `i` is handed over. -/
def deliveries (i : Fin n) (arrivals : List (Piece n)) (answers : List (Res × Option ProtoNmsg)) :
    Nat :=
  (arrivals.zip answers).countP fun (a, answer) =>
    a.1 = i ∧ answer = (.success, some (cs i).nmsg)

/-- A call that receives a piece, at some time, while every allocation succeeds. -/
def Receives (pb : ProtobufC) (call : RecvCall) (a : Piece n) : Prop :=
  (∃ now, call.fragment pb =
    some (⟨(cs a.1).flags, now, (cs a.1).addrSs⟩, (cs a.1).fragment a.2)) ∧
  a.2 < (cs a.1).pieces.length ∧ call.env.Succeeds

end Delivery

/-- When a fragment arrives no node is thirty seconds old. -/
def CallTimely (pb : ProtobufC) {z : Zlib} (s : SockInput z) (call : RecvCall) : Prop :=
  ∀ arrival nfrag, call.fragment pb = some (arrival, nfrag) →
    ∀ fent ∈ s.decoder.nft.nodes, arrival.now.sec - fent.ts.sec < fragGcInterval

/-- When a fragment opens a node, the node can be counted. -/
def CallCounted (pb : ProtobufC) {z : Zlib} (s : SockInput z) (call : RecvCall) : Prop :=
  ∀ arrival nfrag, call.fragment pb = some (arrival, nfrag) →
    s.decoder.nft.find (fragKey arrival nfrag) = none → s.decoder.nft.size + 1 < 2 ^ 32

/-- No piece arrives after its container was completed. -/
def BeforeCompletion {n : Nat} (cs : Fin n → FragmentedContainer) (seen arrivals : List (Piece n)) :
    Prop :=
  ∀ earlier a later, arrivals = earlier ++ a :: later → ¬ Complete cs (seen ++ earlier) a.1

/-- All pieces of the containers arrive at a socket input, in some order, perhaps more than once
before they complete a container. -/
structure PiecesArrive (pb : ProtobufC) (z : Zlib) {n : Nat} (cs : Fin n → FragmentedContainer)
    (arrivals : List (Piece n)) (calls : List RecvCall) : Prop where
  valid : ∀ i, (cs i).Valid pb z
  keys : Function.Injective fun i => (cs i).key
  before : BeforeCompletion cs [] arrivals
  all : ∀ i, Complete cs arrivals i
  received : List.Forall₂ (Receives cs pb) calls arrivals
  timely : StepRun.Along (inputNmsgReadContainerSock pb) (CallTimely pb) (SockInput.open z) calls

/-- `nfrags` is the number of nodes in the tree. -/
def SockInput.FragsNumbered {z : Zlib} (s : SockInput z) : Prop :=
  s.decoder.nfrags.toNat = s.decoder.nft.size

/-- Every call answers as it should, every container is handed over once, and `nfrags` is right
throughout. -/
def Delivers (pb : ProtobufC) (z : Zlib) {n : Nat} (cs : Fin n → FragmentedContainer)
    (arrivals : List (Piece n)) (calls : List RecvCall) : Prop :=
  StepRun.Safe (inputNmsgReadContainerSock pb) SockInput.FragsNumbered (SockInput.open z) calls ∧
    (∃ s, StepRun.run (inputNmsgReadContainerSock pb) (SockInput.open z) calls =
      .ok (outcomes cs [] arrivals, s)) ∧
    ∀ i, deliveries cs i arrivals (outcomes cs [] arrivals) = 1

end Nmsg

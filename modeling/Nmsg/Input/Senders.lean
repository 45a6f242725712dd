import Nmsg.Input.Sock
import Nmsg.Lib.Gaps

/-!
# Senders that lose containers

What counting drops is for: every sender numbers its containers one after the other, some of them
are lost on the way, and the numbers left out are those that were lost.
-/

namespace Nmsg

/-- A container that a call delivered. -/
structure Delivered where
  now : Timespec
  addrSs : SockaddrStorage
  nmsg : ProtoNmsg

/-- The containers that a run delivered. -/
def delivered (calls : List RecvCall) (results : List (Res × Option ProtoNmsg)) :
    List Delivered :=
  (calls.zip results).filterMap fun (call, result) =>
    match call.event, result.2 with
    | .datagram now addrSs _, some nmsg => some ⟨now, addrSs, nmsg⟩
    | _, _ => none

/-- A container as its sender knows it: the sender, its place among all that the sender sent, and
the second of its arrival. -/
structure Numbered where
  sender : SeqsrcKey
  position : Nat
  now : Int
deriving DecidableEq

/-- An IPv4 or IPv6 address. -/
def SeqsrcOrigin.IsInternet : SeqsrcOrigin → Prop
  | .inet _ _ => True
  | .inet6 _ _ => True
  | .unspec => False
  | .other _ => False

/-- The container carries the number of its place, counted from `start` modulo `2 ^ 32`. -/
structure CarriesNumber (start : SeqsrcKey → Nat) (x : Delivered) (a : Numbered) : Prop where
  now : x.now.sec = a.now
  origin : originOf x.addrSs = a.sender.origin
  internet : a.sender.origin.IsInternet
  sequenceId : x.nmsg.sequenceId = some a.sender.sequenceId
  sequence : x.nmsg.sequence = some (.ofNat (start a.sender + a.position))

/-- `a` and `b` are received from one sender, and between them nothing from that sender. -/
structure Successive (arrivals : List Numbered) (a : Numbered) (between : List Numbered)
    (b : Numbered) : Prop where
  received : ∃ before after, arrivals = before ++ a :: between ++ b :: after
  sender : b.sender = a.sender
  others : ∀ x ∈ between, x.sender ≠ a.sender

/-- Containers of each sender arrive in order, not too many of them are lost in a row, and no
sender is silent for too long. -/
structure LossyStreams (arrivals : List Numbered) : Prop where
  inOrder : ∀ a between b, Successive arrivals a between b → a.position < b.position
  losses : ∀ a between b, Successive arrivals a between b →
    b.position ≤ a.position + 1048576 + 1
  spoken : ∀ a between b, Successive arrivals a between b →
    ∀ x ∈ between ++ [b], x.now ≤ a.now + seqsrcGcInterval

/-- The places of the containers received from a sender. -/
def positions (arrivals : List Numbered) (sender : SeqsrcKey) : List Nat :=
  (arrivals.filter fun a => a.sender = sender).map Numbered.position

/-- The containers missing between the first and the last received, over all senders. -/
def missingContainers (arrivals : List Numbered) : Nat :=
  ∑ sender ∈ (arrivals.map Numbered.sender).toFinset, Gaps.missing (positions arrivals sender)

end Nmsg

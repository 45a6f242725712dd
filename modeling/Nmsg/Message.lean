import Nmsg.Proto

/-!
# Message objects

A message object holds a payload, or a message of its module that is packed into the payload when
the payload is needed, or both.
-/

namespace Nmsg

/-- The time of day as it goes into a payload. -/
structure WallTime where
  sec : Int64
  nsec : UInt32
deriving DecidableEq

/-- A module's message: the ids of its module and the octets it packs to. -/
structure ModuleMessage where
  vid : UInt32
  msgtype : UInt32
  packed : Bytes
deriving DecidableEq

/-- `struct nmsg_message` -/
structure Message where
  np : Option NmsgPayload
  message : Option ModuleMessage
  updated : Bool
deriving DecidableEq

/-- `_nmsg_message_from_payload` -/
def messageFromPayload (np : NmsgPayload) : Message where
  np := some np
  message := none
  updated := false

/-- `_nmsg_message_init_payload` -/
def messageInitPayload (now : WallTime) (message : ModuleMessage) : NmsgPayload where
  vid := message.vid
  msgtype := message.msgtype
  timeSec := now.sec
  timeNsec := now.nsec
  payload := none
  source := none
  operator := none
  group := none

/-- `_nmsg_message_serialize` -/
def messageSerialize (now : WallTime) (msg : Message) : Message :=
  match msg.message with
  | none => msg
  | some message =>
      if msg.updated = true ∨ msg.np = none then
        let np := msg.np.getD (messageInitPayload now message)
        { msg with np := some { np with payload := some message.packed }, updated := false }
      else msg

/-- Serializing twice is serializing once. -/
theorem messageSerialize_messageSerialize (now now' : WallTime) (msg : Message) :
    messageSerialize now' (messageSerialize now msg) = messageSerialize now msg := by
  unfold messageSerialize
  cases hmessage : msg.message with
  | none => simp only [hmessage]
  | some message =>
      by_cases hcond : msg.updated = true ∨ msg.np = none
      · simp [hcond]
      · simp only [hcond, if_false, hmessage]

end Nmsg

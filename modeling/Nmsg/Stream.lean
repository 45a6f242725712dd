import Nmsg.Input.Delivery
import Nmsg.Input.Read
import Nmsg.Output
import Nmsg.Proof.ContainerSize

/-!
# Payloads through a file

What file outputs and file inputs are for: the payloads that are written are read back. In between
they travel in batches, each written as one container or, if a payload is too large for a container,
in fragments.
-/

namespace Nmsg

/-- The payload a call writes. -/
def OutputOp.payload (config : OutputConfig) : OutputOp → Option NmsgPayload
  | .write now _ msg => (messageSerialize now msg).np.map config.override
  | .flush => none

/-- A message that is written has a payload, or a message of its module to make one of. -/
def OutputOp.Ready : OutputOp → Prop
  | .write now _ msg => (messageSerialize now msg).np ≠ none
  | .flush => True

/-! ### Batches -/

/-- Payloads that are written together, in one container or in fragments. -/
structure Batch where
  payloads : List NmsgPayload
  fragmented : Bool
deriving DecidableEq

/-- The size `nmsg_container_add` estimates for a container of these payloads. -/
def estimatedSize (nps : List NmsgPayload) : Nat := hdrlszV2 + estimates false nps

/-- A payload joins those that wait, which leaves batches to write and payloads that wait. -/
def joinBatch (bufsz : Nat) (buffered : Bool) (waiting : List NmsgPayload) (np : NmsgPayload) :
    List Batch × List NmsgPayload :=
  if bufsz < estimatedSize (waiting ++ [np]) then ([⟨waiting ++ [np], true⟩], [])
  else if buffered then ([], waiting ++ [np])
  else ([⟨waiting ++ [np], false⟩], [])

/-- What a call does to the payloads that wait. -/
def batchStep (bufsz : Nat) (config : OutputConfig) (waiting : List NmsgPayload) (op : OutputOp) :
    List Batch × List NmsgPayload :=
  match op.payload config with
  | none => (if waiting = [] then [] else [⟨waiting, false⟩], [])
  | some np =>
      if waiting ≠ [] ∧ bufsz ≤ estimatedSize waiting + payloadSize np + 32 then
        (⟨waiting, false⟩ :: (joinBatch bufsz true [] np).1, (joinBatch bufsz true [] np).2)
      else joinBatch bufsz config.buffered waiting np

/-- The batches that calls write. -/
def batches (bufsz : Nat) (config : OutputConfig) : List NmsgPayload → List OutputOp → List Batch
  | _, [] => []
  | waiting, op :: ops =>
      (batchStep bufsz config waiting op).1 ++
        batches bufsz config (batchStep bufsz config waiting op).2 ops

section Fits

variable (pb : ProtobufC) (z : Zlib) (crc32c : Bytes → UInt32)

/-- The packed payloads of a container with their CRCs. -/
def packedPayloads (nps : List NmsgPayload) : Bytes :=
  pb.packNmsg (payloadCalcCrcs crc32c ⟨nps, [], none, none⟩)

/-- The same compressed or not: what is behind the header of a container, or cut up. -/
def containerBody (doZlib : Bool) (nps : List NmsgPayload) : Bytes :=
  if doZlib then deflated z (packedPayloads pb crc32c nps) else packedPayloads pb crc32c nps

/-- A batch is written as it can be read. Compressing does not make a container longer than the
buffer of a reader is made for. What is cut up does not fit in one fragment and is no multiple of
what fits in one, and the code can count its octets, when they are compressed, and its
fragments. -/
structure Batch.Fits (bufsz : Nat) (doZlib : Bool) (b : Batch) : Prop where
  whole : b.fragmented = false → doZlib = true →
    (containerBody pb z crc32c doZlib b.payloads).length ≤ wbufszMax
  long : b.fragmented = true → doZlib = true →
    bufsz - 32 < (containerBody pb z crc32c doZlib b.payloads).length
  uneven : b.fragmented = true →
    (containerBody pb z crc32c doZlib b.payloads).length % (bufsz - 32) ≠ 0
  counted : b.fragmented = true →
    if doZlib then 2 * estimatedSize b.payloads < 2 ^ 32
    else (containerBody pb z crc32c doZlib b.payloads).length / (bufsz - 32) + 1 < 2 ^ 31

end Fits

/-! ### In the file -/

/-- A container holds these payloads, each with a CRC that matches. -/
structure Loaded (crc32c : Bytes → UInt32) (nmsg : ProtoNmsg) (nps : List NmsgPayload) : Prop where
  payloads : nmsg.payloads = nps
  ne : nps ≠ []
  crcs : ∀ idx np, nps[idx]? = some np → payloadCrcMatches crc32c nmsg idx np = true

/-- A fragment of a container in a file. -/
def FragmentedContainer.inFile (pb : ProtobufC) (c : FragmentedContainer) (k : Nat) :
    FileContainer :=
  .v2 c.flags (pb.packFragment (c.fragment k))

/-- The containers that a batch is written as, whole or in fragments, in the order of these. -/
inductive Emission (pb : ProtobufC) (z : Zlib) (crc32c : Bytes → UInt32) :
    List NmsgPayload → List FileContainer → Prop where
  | whole {flags : UInt8} {body : Bytes} {nmsg : ProtoNmsg} {nps : List NmsgPayload}
      (hflags : flags &&& flagFragment = 0) (hlen : body.length ≤ wbufszMax)
      (hcarries : Carries pb z (flags &&& flagZlib ≠ 0) body nmsg)
      (hloaded : Loaded crc32c nmsg nps) :
      Emission pb z crc32c nps [.v2 flags body]
  | fragments {c : FragmentedContainer} {nps : List NmsgPayload} (hvalid : c.Valid pb z)
      (hfew : c.pieces.length < 2 ^ 32) (haddr : c.addrSs = .other 0 [])
      (hlen : ∀ k < c.pieces.length, (pb.packFragment (c.fragment k)).length ≤ wbufszMax)
      (hloaded : Loaded crc32c c.nmsg nps) :
      Emission pb z crc32c nps ((List.range c.pieces.length).map (c.inFile pb))

/-- The payloads and the containers of batches. -/
abbrev Emissions := List (List NmsgPayload × List FileContainer)

/-! ### Reading back -/

/-- The messages that calls of a reader hand over. -/
def handedOver (answers : List (Res × Option Message)) : List Message :=
  answers.filterMap fun answer => if answer.1 = .success then answer.2 else none

/-- Every call on the output succeeds, and whoever reads what is written gets, until the end of the
file is reported, the payloads that were written, each once and in order. -/
def ReadsBack (pb : ProtobufC) (z : Zlib) (crc32c : Bytes → UInt32) (bufsz : Nat)
    (config : OutputConfig) (ops : List OutputOp) : Prop :=
  ∃ results s,
    StepRun.run (outputStep pb z crc32c) (StreamOutput.openFile bufsz config) (ops ++ [.flush]) =
      .ok (results, s) ∧
    (∀ res ∈ results, res = .success) ∧
    ∃ n, ∀ world : ReadWorld, world.Reads → ∀ envs : List CallEnv, envs.length = n →
      (∀ env ∈ envs, env.Succeeds) →
      ∃ answers t,
        StepRun.run (inputNmsgRead pb crc32c world) (FileInput.open z s.written) envs =
          .ok (answers ++ [(.eof, none)], t) ∧
        (∀ answer ∈ answers, answer.1 = .success ∨ answer.1 = .again) ∧
        handedOver answers = (ops.filterMap (OutputOp.payload config)).map messageFromPayload

end Nmsg

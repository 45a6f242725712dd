import Nmsg.Dnsqr.Capture

/-!
# How parsing a packet can end

Parsing a packet, reassembling it, filtering a record and making a message of it can stop only at a
fault of memory: no assertion of this code fails and its loops terminate.
-/

namespace Nmsg

/-! ### Loops over headers -/

theorem exthdrLen_ge (host : ByteOrder) (length : UInt8) : 8 ≤ exthdrLen host length := by
  have hlength := length.toNat_lt
  unfold exthdrLen ntohs
  cases host with
  | little =>
      simp only
      omega
  | big =>
      simp only
      omega

theorem passExthdr_outcome (host : ByteOrder) (pkt : Bytes) (network : Nat) (w : ExthdrWalk) :
    Outcome MemoryFault (fun w' => ∀ v, w' = some v → v.payloadLen + 8 ≤ w.payloadLen)
      (passExthdr host pkt network w) := by
  unfold passExthdr
  refine (octetAt_outcome _ _).bind fun nexthdr _ => ?_
  refine (octetAt_outcome _ _).bind fun length _ => ?_
  have hlen := exthdrLen_ge host length
  dsimp only
  split
  case isTrue hshort => simp
  case isFalse hfits =>
    intro v hv
    cases hv
    simp only
    omega

theorem exthdrsRaw_outcome (host : ByteOrder) (pkt : Bytes) (network len : Nat) :
    ∀ (fuel : Nat) (w : ExthdrWalk), w.payloadLen < fuel →
      Outcome MemoryFault (fun _ => True) (exthdrsRaw host pkt network len fuel w) := by
  intro fuel
  induction fuel with
  | zero =>
      intro w hfuel
      exact absurd hfuel (Nat.not_lt_zero _)
  | succ fuel ih =>
      intro w hfuel
      rw [exthdrsRaw]
      split
      case isFalse => trivial
      case isTrue =>
        split
        case isTrue => trivial
        case isFalse =>
          split
          case isTrue =>
            refine (loadNet16_outcome _ _).bind fun offlg _ => ?_
            exact (passExthdr_outcome _ _ _ _).imp fun _ _ => trivial
          case isFalse =>
            refine (passExthdr_outcome _ _ _ _).bind fun w' hw => ?_
            cases w' with
            | none => trivial
            | some w' =>
                have := hw w' rfl
                exact ih w' (by omega)

theorem exthdrsReasm_outcome (host : ByteOrder) (pkt : Bytes) (network len : Nat) :
    ∀ (fuel : Nat) (w : ExthdrWalk), w.payloadLen < fuel →
      Outcome MemoryFault (fun _ => True) (exthdrsReasm host pkt network len fuel w) := by
  intro fuel
  induction fuel with
  | zero =>
      intro w hfuel
      exact absurd hfuel (Nat.not_lt_zero _)
  | succ fuel ih =>
      intro w hfuel
      rw [exthdrsReasm]
      split
      case isFalse => trivial
      case isTrue =>
        split
        case isTrue => trivial
        case isFalse =>
          split
          case isTrue => trivial
          case isFalse =>
            refine (passExthdr_outcome _ _ _ _).bind fun w' hw => ?_
            cases w' with
            | none => trivial
            | some w' =>
                have := hw w' rfl
                exact ih w' (by omega)

theorem fragHeader_outcome (packet : Bytes) (totalLen : Nat) :
    ∀ (fuel : Nat) (nxt : UInt8) (lastNxt offset : Nat), 0 < fuel → totalLen < fuel + offset →
      Outcome MemoryFault (fun _ => True) (fragHeader packet totalLen fuel nxt lastNxt offset) := by
  intro fuel
  induction fuel with
  | zero =>
      intro nxt lastNxt offset hpos
      exact absurd hpos (Nat.lt_irrefl 0)
  | succ fuel ih =>
      intro nxt lastNxt offset _ hfuel
      rw [fragHeader]
      split
      case isFalse =>
        split <;> trivial
      case isTrue =>
        split
        case isTrue => trivial
        case isFalse =>
          refine (octetAt_outcome _ _).bind fun length _ => ?_
          dsimp only
          split
          case isTrue => trivial
          case isFalse =>
            refine (octetAt_outcome _ _).bind fun nxt _ => ?_
            exact ih _ _ _ (by omega) (by omega)

/-! ### Datagrams -/

theorem datalinkHeader_outcome (datalink : Datalink) (pkt : Bytes) (len : Nat) :
    Outcome MemoryFault (fun _ => True) (datalinkHeader datalink pkt len) := by
  unfold datalinkHeader
  cases datalink with
  | en10mb =>
      dsimp only
      split
      case isTrue => trivial
      case isFalse =>
        refine (loadNet16_outcome _ _).bind fun etype _ => ?_
        split
        case isFalse => trivial
        case isTrue =>
          split
          case isTrue => trivial
          case isFalse => exact (loadNet16_outcome _ _).bind fun _ _ => trivial
  | raw =>
      dsimp only
      split
      case isTrue => trivial
      case isFalse =>
        refine (octetAt_outcome _ _).bind fun first _ => ?_
        split
        case isTrue => trivial
        case isFalse =>
          split <;> trivial
  | linuxSll =>
      dsimp only
      split
      case isTrue => trivial
      case isFalse => exact (loadNet16_outcome _ _).bind fun _ _ => trivial
  | other => trivial

theorem ipv4Header_outcome (pkt : Bytes) (network len : Nat) :
    Outcome MemoryFault (fun _ => True) (ipv4Header pkt network len) := by
  unfold ipv4Header
  refine (octetAt_outcome _ _).bind fun first _ => ?_
  refine (loadNet16_outcome _ _).bind fun ipOff _ => ?_
  exact (octetAt_outcome _ _).bind fun ipP _ => trivial

theorem networkHeader_outcome
    {walk : Nat → ExthdrWalk → Except Abort (Option ExthdrWalk)}
    (hwalk : ∀ fuel w, w.payloadLen < fuel → Outcome MemoryFault (fun _ => True) (walk fuel w))
    (etype : Nat) (pkt : Bytes) (network len : Nat) :
    Outcome MemoryFault (fun _ => True) (networkHeader walk etype pkt network len) := by
  unfold networkHeader
  split
  case isTrue => exact ((ipv4Header_outcome _ _ _).imp fun _ _ => trivial).map
  case isFalse =>
    split
    case isFalse => trivial
    case isTrue =>
      unfold ipv6Header
      split
      case isTrue => trivial
      case isFalse =>
        refine (octetAt_outcome _ _).bind fun first _ => ?_
        split
        case isTrue => trivial
        case isFalse =>
          refine (octetAt_outcome _ _).bind fun nexthdr _ => ?_
          refine (loadNet16_outcome _ _).bind fun payloadLen _ => ?_
          refine (hwalk (payloadLen + 1) _ (Nat.lt_succ_self payloadLen)).bind fun w _ => ?_
          cases w with
          | none => trivial
          | some w =>
              dsimp only
              split <;> trivial

theorem udpPayload_outcome (pkt : Bytes) (transport len : Nat) :
    Outcome MemoryFault (fun _ => True) (udpPayload pkt transport len) := by
  unfold udpPayload
  split
  case isTrue => trivial
  case isFalse => exact (loadNet16_outcome _ _).bind fun _ _ => trivial

theorem transportPayloadRaw_outcome (pkt : Bytes) (proto : UInt8)
    (lenNetwork transport len : Nat) :
    Outcome MemoryFault (fun _ => True)
      (transportPayloadRaw pkt proto lenNetwork transport len) := by
  unfold transportPayloadRaw
  split
  case isTrue => exact udpPayload_outcome _ _ _
  case isFalse =>
    split
    case isTrue =>
      unfold tcpPayload
      split
      case isTrue => trivial
      case isFalse => exact (octetAt_outcome _ _).bind fun _ _ => trivial
    case isFalse =>
      split <;> trivial

theorem nmsgIpdgParsePcapRaw_outcome (host : ByteOrder) (datalink : Datalink) (pkt : Bytes)
    (len : Nat) :
    Outcome MemoryFault (fun _ => True) (nmsgIpdgParsePcapRaw host datalink pkt len) := by
  unfold nmsgIpdgParsePcapRaw
  refine (datalinkHeader_outcome _ _ _).bind fun link _ => ?_
  match link with
  | none => trivial
  | some (etype, network, lenNetwork) =>
      refine (networkHeader_outcome (exthdrsRaw_outcome _ _ _ _) _ _ _ _).bind fun h _ => ?_
      match h with
      | none => trivial
      | some h =>
          dsimp only
          split
          case isTrue => trivial
          case isFalse =>
            exact (transportPayloadRaw_outcome _ _ _ _ _).bind fun _ _ => trivial

theorem nmsgIpdgParse_outcome (host : ByteOrder) (etype len : Nat) (pkt : Bytes) :
    Outcome MemoryFault (fun _ => True) (nmsgIpdgParse host etype len pkt) := by
  unfold nmsgIpdgParse
  refine (networkHeader_outcome (exthdrsReasm_outcome _ _ _ _) _ _ _ _).bind fun h _ => ?_
  match h with
  | none => trivial
  | some h =>
      dsimp only
      split
      case isTrue => trivial
      case isFalse =>
        split
        case isTrue => exact (udpPayload_outcome _ _ _).bind fun _ _ => trivial
        case isFalse => trivial

/-! ### Reassembly -/

theorem parseIpv4Fragment_outcome (packet : Bytes) (len : Nat) :
    Outcome MemoryFault (fun _ => True) (parseIpv4Fragment packet len) := by
  unfold parseIpv4Fragment
  refine (loadNet16_outcome _ _).bind fun offset _ => ?_
  refine (loadNet16_outcome _ _).bind fun ipLen _ => ?_
  split
  case isFalse => trivial
  case isTrue =>
    refine (octetAt_outcome _ _).bind fun first _ => ?_
    refine (copyAt_outcome _ _ _).bind fun data _ => ?_
    refine (copyAt_outcome _ _ _).bind fun ipSrc _ => ?_
    refine (copyAt_outcome _ _ _).bind fun ipDst _ => ?_
    refine (loadNet16_outcome _ _).bind fun ipId _ => ?_
    exact (octetAt_outcome _ _).bind fun ipProto _ => trivial

theorem baseFragFromIpv6_outcome (packet : Bytes) (ts : Timespec) :
    Outcome MemoryFault (fun _ => True) (baseFragFromIpv6 packet ts) := by
  unfold baseFragFromIpv6
  refine (octetAt_outcome _ _).bind fun nxt _ => ?_
  refine (loadNet16_outcome _ _).bind fun plen _ => ?_
  dsimp only
  refine (fragHeader_outcome _ _ _ _ _ _ (by omega) (by omega)).bind fun header _ => ?_
  match header with
  | none => trivial
  | some (offset, lastNxt) =>
      dsimp only
      split
      case isTrue => trivial
      case isFalse =>
        refine (octetAt_outcome _ _).bind fun ip6fNxt _ => ?_
        refine (loadNet16_outcome _ _).bind fun offlg _ => ?_
        refine (loadNet32_outcome _ _).bind fun ident _ => ?_
        exact (copyAt_outcome _ _ _).bind fun data _ => trivial

theorem reasmParsePacket_outcome (packet : Bytes) (len : Nat) (ts : Timespec) :
    Outcome MemoryFault (fun _ => True) (reasmParsePacket packet len ts) := by
  unfold reasmParsePacket
  refine (octetAt_outcome _ _).bind fun first _ => ?_
  split
  case isTrue =>
    refine (parseIpv4Fragment_outcome _ _).bind fun f _ => ?_
    cases f <;> trivial
  case isFalse =>
    split
    case isFalse => trivial
    case isTrue =>
      refine (loadNet16_outcome _ _).bind fun plen _ => ?_
      split
      case isFalse => trivial
      case isTrue =>
        refine (baseFragFromIpv6_outcome _ _).bind fun f _ => ?_
        match f with
        | none => trivial
        | some (frag, ident, lastFrag) =>
            refine (copyAt_outcome _ _ _).bind fun ipSrc _ => ?_
            exact (copyAt_outcome _ _ _).bind fun ipDst _ => trivial

theorem reasmIpNext_outcome (reasm : ReasmIp BaseFrag) (packet : Bytes) (len : Nat)
    (timestamp : Timespec) :
    Outcome MemoryFault (fun _ => True) (reasmIpNext reasm packet len timestamp) := by
  unfold reasmIpNext
  refine (reasmParsePacket_outcome _ _ _).bind fun p _ => ?_
  cases p <;> trivial

theorem joinFragments_outcome {F : Type} [ReasmFrag F] (offset0 : Nat) (frags : List F) :
    ∀ buf : Bytes, Outcome MemoryFault (fun b => b.length = buf.length)
      (joinFragments buf offset0 frags) := by
  induction frags with
  | nil => intro buf; exact rfl
  | cons frag rest ih =>
      intro buf
      rw [joinFragments]
      refine (copyAt_outcome _ _ _).bind fun src _ => ?_
      refine (writeAt_outcome _ _ _).bind fun buf' hlen => ?_
      exact (ih buf').imp fun b hb => hb.trans hlen

theorem headerSum_outcome (buf : Bytes) (n : Nat) :
    ∀ i : Nat, Outcome MemoryFault (fun _ => True) (headerSum buf n i) := by
  induction n with
  | zero => intro i; trivial
  | succ n ih =>
      intro i
      rw [headerSum]
      refine (loadNet16_outcome _ _).bind fun cur _ => ?_
      exact (ih _).bind fun sum _ => trivial

theorem finishIpv4_outcome (buf : Bytes) (totalLen : Nat) :
    Outcome MemoryFault (fun b => b.length = buf.length) (finishIpv4 buf totalLen) := by
  unfold finishIpv4
  refine (octetAt_outcome _ _).bind fun first _ => ?_
  refine (writeAt_outcome _ _ _).bind fun buf₁ h₁ => ?_
  refine (writeAt_outcome _ _ _).bind fun buf₂ h₂ => ?_
  refine (writeAt_outcome _ _ _).bind fun buf₃ h₃ => ?_
  refine (headerSum_outcome _ _ _).bind fun sum _ => ?_
  refine (writeAt_outcome _ _ _).imp fun b hb => ?_
  rw [hb, h₃, h₂, h₁]

theorem finishHeader_outcome (id : ReasmId) (buf : Bytes) (totalLen : Nat) :
    Outcome MemoryFault (fun b => b.length = buf.length) (finishHeader id buf totalLen) := by
  cases id with
  | ipv4 ipSrc ipDst ipId ipProto => exact finishIpv4_outcome _ _
  | ipv6 ipSrc ipDst ipId => exact writeAt_outcome _ _ _

theorem restoreNxt_outcome (id : ReasmId) (first : BaseFrag) (buf : Bytes) :
    Outcome MemoryFault (fun b => b.length = buf.length) (restoreNxt id first buf) := by
  cases id with
  | ipv4 ipSrc ipDst ipId ipProto => exact rfl
  | ipv6 ipSrc ipDst ipId => exact writeAt_outcome _ _ _

/-- A datagram that was put together had a fragment. -/
theorem reasmAssemble_outcome (entry : ReasmIpEntry BaseFrag) (outputLen : Nat) :
    Outcome MemoryFault (fun _ => entry.frags ≠ []) (reasmAssemble entry outputLen) := by
  unfold reasmAssemble
  cases hfrags : entry.frags with
  | nil => exact Or.inr rfl
  | cons first rest =>
      have hne : first :: rest ≠ [] := List.cons_ne_nil _ _
      generalize headerLen entry.id first.dataOffset = offset0
      dsimp only
      split
      case isTrue => exact hne
      case isFalse =>
        refine (copyAt_outcome _ _ _).bind fun header _ => ?_
        refine (writeAt_outcome _ _ _).bind fun buf _ => ?_
        refine (restoreNxt_outcome _ _ _).bind fun buf _ => ?_
        refine (joinFragments_outcome _ _ _).bind fun buf _ => ?_
        exact (finishHeader_outcome _ _ _).bind fun buf _ => hne

end Nmsg

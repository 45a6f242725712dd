import Nmsg.Proof.CrcDamage
import Nmsg.Proof.NetworkRead
import Nmsg.Proof.NetworkSend

/-!
# From sender to receiver

Socket outputs write to a network, and a socket input reads from it. A container is handed over when
its last datagram arrives, and its payloads pass the checksums they were sent with.
-/

namespace Nmsg

variable {pb : ProtobufC} {z : Zlib}

/-- With the checksums it was sent with, a container hands over all payloads that are asked for. -/
theorem passing_of_crcs (filter : InputFilter) {nmsg : ProtoNmsg}
    (hcrcs : nmsg.payloadCrcs = (payloadCalcCrcs crc32c nmsg).payloadCrcs) :
    passing crc32c filter nmsg 0 =
      (nmsg.payloads.filter filter.matches).map messageFromPayload := by
  have hsame : List.Forall₂ Arrives nmsg.payloads nmsg.payloads :=
    List.forall₂_same.mpr fun _ _ => Or.inl rfl
  have hintact := passing_intact filter nmsg 0 hsame rfl fun i np hnp => by
    rw [hcrcs, Nat.zero_add, payloadCalcCrcs, List.getElem?_map, hnp]
    rfl
  rw [hintact, List.zipWith_self, List.filterMap_map, ← List.filterMap_eq_filter,
    List.map_filterMap]
  refine List.filterMap_congr fun np _ => ?_
  simp only [Function.comp_apply, handed, true_and, id_eq, Option.guard]
  split <;> rfl

theorem crcs_of_sent {senders : List SockSender} {c : FragmentedContainer}
    (hc : c ∈ sentContainers pb z crc32c senders) :
    c.nmsg.payloadCrcs = (payloadCalcCrcs crc32c c.nmsg).payloadCrcs := by
  obtain ⟨x, -, hc⟩ := List.mem_flatMap.mp hc
  obtain ⟨number, hnumber, rfl⟩ := List.mem_mapIdx.mp hc
  rfl

/-- **Round trip.** Senders hand every payload they write to the network, in one container each. Of
what the network delivers, in whatever order and whatever it loses, a receiver hands over the
payloads that are asked for of exactly the containers whose datagrams all arrive, each container
once, in the order in which the last datagrams of the containers arrive. -/
theorem network_round_trip (hpb : pb.Lawful) (hz : z.Lawful) (senders : List SockSender)
    (hsenders : ∀ x ∈ senders, x.Fits pb z crc32c) {n : Nat} (cs : Fin n → FragmentedContainer)
    (hcs : List.ofFn cs = sentContainers pb z crc32c senders) (hkeys : KeysApart cs)
    (events : List (Option (Arrived n))) (hnetwork : NetworkDelivers cs events)
    (calls : List RecvCall) (hcalls : List.Forall₂ (RecvCall.Meets cs pb) calls events)
    (filter : InputFilter) (fuel : Nat) (hfuel : calls.length < fuel) :
    (∀ x ∈ senders, x.SendsContainers pb z crc32c) ∧
    inputNmsgLoop crc32c (sockFetch pb) fuel (.fresh filter (SockInput.open z, calls)) =
      .ok (.readFailure, (completions cs [] (arrivedPieces events)).flatMap fun i =>
        ((cs i).nmsg.payloads.filter filter.matches).map messageFromPayload) ∧
    (completions cs [] (arrivedPieces events)).Nodup ∧
    ∀ i, i ∈ completions cs [] (arrivedPieces events) ↔ Complete cs (arrivedPieces events) i := by
  have hsends := fun x hx => sends_containers hpb hz x (hsenders x hx)
  have hsent : ∀ i, cs i ∈ sentContainers pb z crc32c senders :=
    fun i => hcs ▸ List.mem_ofFn.mpr ⟨i, rfl⟩
  have hreadable : ∀ i, (cs i).Readable pb z := by
    intro i
    obtain ⟨x, hx, hc⟩ := List.mem_flatMap.mp (hsent i)
    exact (hsends x hx).2 _ hc
  have hnotyet : ∀ i, ¬ Complete cs [] i := by
    intro i hcomplete
    exact List.not_mem_nil (hcomplete 0 (List.length_pos_of_ne_nil (hreadable i).pieces_ne))
  refine ⟨fun x hx => (hsends x hx).1, ?_, nodup_completions hnetwork.before, fun i => ?_⟩
  · obtain ⟨s', hrun⟩ := run_network hpb hz hreadable hkeys hnetwork.before hnetwork.inTime hcalls
      (List.nil_append _) (gathered_open z _ _)
    rw [StreamInput.fresh, inputNmsgLoop_sockFetch crc32c filter hrun
      (networkAnswers_cases _ events) hfuel none 0, List.map_nil, flatMap_networkAnswers]
    refine congrArg (fun msgs => Except.ok (Res.readFailure, msgs)) ?_
    exact List.flatMap_congr fun i _ => passing_of_crcs filter (crcs_of_sent (hsent i))
  · rw [mem_completions hnetwork.before, List.nil_append]
    exact and_iff_right (hnotyet i)

/-- A payload like `samplePayload` for another vendor. -/
def otherPayload : NmsgPayload := { samplePayload with vid := 2 }

/-- A sender of two payloads. -/
def sampleSockSender : SockSender where
  bufsz := 512
  config := ⟨false, false, 0, 0, 0⟩
  sequenceId := 6
  addrSs := .inet 8430 0 []
  ops := [
    .write ⟨0, 0⟩ 3 (messageFromPayload samplePayload) fun _ => false,
    .write ⟨0, 0⟩ 4 (messageFromPayload otherPayload) fun _ => false]

def sampleParcel : Fin 2 → Parcel
  | 0 => ⟨[samplePayload], none⟩
  | 1 => ⟨[otherPayload], none⟩

theorem parcels_sampleSockSender : sampleSockSender.parcels = List.ofFn sampleParcel := by
  decide +kernel

theorem fits_sampleSockSender : sampleSockSender.Fits wire storedZlib crc32c := by
  refine ⟨?_, ?_, fun number p hp => ?_⟩
  · refine List.forall_mem_cons.mpr ⟨⟨samplePayload, rfl, by decide⟩, ?_⟩
    exact List.forall_mem_singleton.mpr ⟨otherPayload, rfl, by decide⟩
  · exact List.forall_mem_cons.mpr ⟨fun _ => rfl, List.forall_mem_singleton.mpr fun _ => rfl⟩
  · have hwhole : p.cut = none := by
      rw [parcels_sampleSockSender] at hp
      have hall : ∀ p ∈ List.ofFn sampleParcel, p.cut = none := by decide
      exact hall p (List.mem_of_getElem? hp)
    exact ⟨fun _ hzlib => Bool.noConfusion hzlib, fun hcut => absurd hwhole hcut,
      fun hcut => absurd hwhole hcut⟩

/-- The containers of the sender. -/
def sampleSent (i : Fin 2) : FragmentedContainer :=
  sampleSockSender.container wire storedZlib crc32c i (sampleParcel i)

theorem ofFn_sampleSent :
    List.ofFn sampleSent = sentContainers wire storedZlib crc32c [sampleSockSender] := by
  simp only [sentContainers, SockSender.containers, parcels_sampleSockSender,
    List.flatMap_singleton]
  rfl

theorem sampleSent_cut (i : Fin 2) : (sampleSent i).cut = false := by
  rw [sampleSent, container_cut]
  revert i
  decide

theorem complete_sampleSent_iff (seen : List (Piece 2)) (i : Fin 2) :
    Complete sampleSent seen i ↔ (i, 0) ∈ seen := by
  have hpieces : (sampleSent i).pieces.length = 1 := by
    have hcut := sampleSent_cut i
    rw [sampleSent, container_cut] at hcut
    simp only [sampleSent, SockSender.container, hcut, Bool.false_eq_true, if_false,
      List.length_singleton]
  rw [Complete, hpieces]
  refine ⟨fun h => h 0 Nat.one_pos, fun h k hk => ?_⟩
  rwa [Nat.lt_one_iff.mp hk]

/-- The first container is lost, and nothing more arrives behind the second. -/
def sampleEvents : List (Option (Arrived 2)) := [some ⟨⟨5, 0⟩, (1, 0)⟩, none]

def sampleRecvCalls : List RecvCall := [
  ⟨.datagram ⟨5, 0⟩ sampleSockSender.addrSs ((sampleSent 1).datagram wire 0),
    ⟨[], true, true, true, true⟩⟩,
  ⟨.pollAgain, ⟨[], true, true, true, true⟩⟩]

theorem networkDelivers_sample : NetworkDelivers sampleSent sampleEvents := by
  have hpieces : arrivedPieces sampleEvents = [(1, 0)] := rfl
  refine ⟨fun earlier a later hsplit => ?_, fun earlier a between b later hsplit => ?_⟩
  · rw [hpieces] at hsplit
    have hlength := congrArg List.length hsplit
    simp only [List.length_append, List.length_cons, List.length_nil] at hlength
    obtain rfl : earlier = [] := List.length_eq_zero_iff.mp (by omega)
    rw [complete_sampleSent_iff]
    exact List.not_mem_nil
  · have hone : sampleEvents.reduceOption.length = 1 := rfl
    have hlength := congrArg List.length hsplit
    simp only [hone, List.length_append, List.length_cons] at hlength
    omega

theorem completions_sample : completions sampleSent [] (arrivedPieces sampleEvents) = [1] := by
  have hpieces : arrivedPieces sampleEvents = [(1, 0)] := rfl
  have hcomplete : Complete sampleSent ([] ++ [(1, 0)]) 1 :=
    (complete_sampleSent_iff _ _).mpr (List.mem_singleton_self _)
  rw [hpieces, completions, if_pos hcomplete, completions]

theorem network_round_trip_sample :
    sampleSockSender.SendsContainers wire storedZlib crc32c ∧
    inputNmsgLoop crc32c (sockFetch wire) 3
        (.fresh ⟨false, 0, 0, 0, 0, 0⟩ (SockInput.open storedZlib, sampleRecvCalls)) =
      .ok (.readFailure, [messageFromPayload otherPayload]) := by
  have hkeys : KeysApart sampleSent := by
    intro i j hi
    rw [sampleSent_cut] at hi
    cases hi
  have hcalls : List.Forall₂ (RecvCall.Meets sampleSent wire) sampleRecvCalls sampleEvents := by
    refine .cons ⟨rfl, ?_, rfl, rfl, rfl, rfl⟩ (.cons (Or.inl rfl) .nil)
    exact Nat.one_pos
  have hpasses : InputFilter.matches ⟨false, 0, 0, 0, 0, 0⟩ otherPayload = true := by
    simp [InputFilter.matches, inputNmsgFilter, payloadCrcMatches]
  obtain ⟨hsends, hloop, -⟩ := network_round_trip wire_lawful storedZlib_lawful [sampleSockSender]
    (List.forall_mem_singleton.mpr fits_sampleSockSender) sampleSent ofFn_sampleSent hkeys
    sampleEvents networkDelivers_sample sampleRecvCalls hcalls ⟨false, 0, 0, 0, 0, 0⟩ 3
    (by decide : 2 < 3)
  refine ⟨hsends _ (List.mem_singleton_self _), ?_⟩
  have hpayloads : (sampleSent 1).nmsg.payloads = [otherPayload] := rfl
  rw [hloop, completions_sample, List.flatMap_singleton, hpayloads,
    List.filter_cons_of_pos hpasses]
  rfl

end Nmsg

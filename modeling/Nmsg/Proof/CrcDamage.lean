import Nmsg.Proof.Crc32cAgree
import Nmsg.Proof.LoopRead

/-!
# Damaged payloads

A payload arrives with the checksum of the payload that was sent. The checksum tells the two apart if
they differ within 32 bits, or in an odd number of bits, and the payload is dropped.
-/

namespace Nmsg

open Crc

/-- Damage that the checksum is made for. -/
def Damaged (sent got : Bytes) : Prop :=
  sent.length = got.length ∧ (Burst 32 sent got ∨ Odd (differing sent got))

theorem Damaged.crc32c_ne {sent got : Bytes} (h : Damaged sent got) : crc32c sent ≠ crc32c got := by
  obtain ⟨hlen, hdamage⟩ := h
  have hupdate : Crc.update castagnoliReflected (BitVec.allOnes 32) sent ≠
      Crc.update castagnoliReflected (BitVec.allOnes 32) got := by
    rcases hdamage with hburst | hodd
    · exact hburst.update_ne (by decide) (by decide) _ hlen
    · refine update_ne_of_odd (by decide) (by decide) ?_ _ hlen hodd
      rw [generator_castagnoliReflected, eval_one_castagnoli]
  intro h
  refine hupdate (BitVec.not_inj.mp ?_)
  have hbits := congrArg UInt32.toBitVec h
  rwa [crc32c, crc32c, UInt32.toBitVec_ofBitVec, UInt32.toBitVec_ofBitVec] at hbits

/-- A payload on its way. Whatever else changes with its octets is of no account. -/
def Arrives (sent got : NmsgPayload) : Prop :=
  got = sent ∨ Damaged (sent.payload.getD []) (got.payload.getD [])

theorem Arrives.crc_eq_iff {sent got : NmsgPayload} (h : Arrives sent got) :
    crc32c (sent.payload.getD []) = crc32c (got.payload.getD []) ↔ got = sent := by
  refine ⟨fun heq => ?_, fun heq => heq ▸ rfl⟩
  rcases h with rfl | hdamaged
  · rfl
  · exact absurd heq hdamaged.crc32c_ne

/-- A container on its way. -/
def ContainerArrives (sent got : ProtoNmsg) : Prop :=
  got.payloadCrcs = (payloadCalcCrcs crc32c sent).payloadCrcs ∧
    List.Forall₂ Arrives sent.payloads got.payloads

/-- Whether a payload has the ids and the source, operator and group that an input asks for. -/
def InputFilter.matches (filter : InputFilter) (np : NmsgPayload) : Bool :=
  inputNmsgFilter crc32c filter ⟨[np], [], none, none⟩ 0 np

theorem inputNmsgFilter_eq (filter : InputFilter) (nmsg : ProtoNmsg) (idx : Nat) (np : NmsgPayload) :
    inputNmsgFilter crc32c filter nmsg idx np =
      (payloadCrcMatches crc32c nmsg idx np && filter.matches np) := by
  unfold InputFilter.matches inputNmsgFilter
  cases payloadCrcMatches crc32c nmsg idx np <;> rfl

/-- A payload that an input hands over, if it arrived as it was sent. -/
def handed (filter : InputFilter) (sent got : NmsgPayload) : Option Message :=
  if got = sent ∧ filter.matches sent = true then some (messageFromPayload sent) else none

/-- What arrives, as the source delivers it. -/
def arrival : Option (ProtoNmsg × ProtoNmsg) → Fetched
  | none => .again
  | some (_, got) => .container got

/-- What is handed over of it. -/
def intact (filter : InputFilter) : Option (ProtoNmsg × ProtoNmsg) → List Message
  | none => []
  | some (sent, got) => (List.zipWith (handed filter) sent.payloads got.payloads).filterMap id

theorem passing_intact (filter : InputFilter) (nmsg : ProtoNmsg) (n : Nat)
    {sent got : List NmsgPayload} (harrives : List.Forall₂ Arrives sent got)
    (hgot : nmsg.payloads.drop n = got)
    (hcrcs : ∀ i np, sent[i]? = some np →
      nmsg.payloadCrcs[n + i]? = some (htonl (crc32c (np.payload.getD [])))) :
    passing crc32c filter nmsg n = (List.zipWith (handed filter) sent got).filterMap id := by
  induction harrives generalizing n with
  | nil => rw [passing_of_length_le (List.drop_eq_nil_iff.mp hgot)]; rfl
  | @cons s g sent got hfirst _ ih =>
      have hnp : nmsg.payloads[n]? = some g := by
        have := congrArg List.head? hgot
        rwa [List.head?_drop] at this
      have hcrc : payloadCrcMatches crc32c nmsg n g = decide (g = s) := by
        have hwire := hcrcs 0 s rfl
        rw [Nat.add_zero] at hwire
        simp only [payloadCrcMatches, hwire, ntohl_htonl]
        rw [Bool.eq_iff_iff, beq_iff_eq, decide_eq_true_iff]
        exact hfirst.crc_eq_iff
      have htail : nmsg.payloads.drop (n + 1) = got := by
        rw [← List.drop_drop, hgot, List.drop_one, List.tail_cons]
      have hrest := ih (n + 1) htail fun i np hnp => by
        rw [Nat.add_right_comm, Nat.add_assoc]
        exact hcrcs (i + 1) np hnp
      rw [passing_eq hnp, hrest, List.zipWith_cons_cons, List.filterMap_cons, inputNmsgFilter_eq, hcrc,
        handed]
      by_cases heq : g = s
      · subst heq
        cases hmatch : filter.matches g <;> simp
      · simp [heq]

/-- **Damage.** Of the containers that arrive, an input hands over the payloads that are as they were
sent and that its filter lets pass, in their order, and no other: every payload that was hit by a
burst of up to 32 bits, or in an odd number of bits, is dropped. -/
theorem inputNmsgLoop_intact (filter : InputFilter) (arrivals : List (Option (ProtoNmsg × ProtoNmsg)))
    (harrives : ∀ sent got, some (sent, got) ∈ arrivals → ContainerArrives sent got)
    (last : Res) (ends : last ≠ .success ∧ last ≠ .again) (fuel : Nat)
    (hfuel : arrivals.length < fuel) :
    inputNmsgLoop crc32c StreamSource.fetch fuel (.fresh filter ⟨arrivals.map arrival, last, ends⟩) =
      .ok (last, arrivals.flatMap (intact filter)) := by
  rw [StreamInput.fresh, inputNmsgLoop_eq _ _ (by rwa [List.length_map])]
  refine congrArg (fun msgs => Except.ok (last, msgs)) ?_
  rw [loopMessages, List.flatMap_map]
  refine List.flatMap_congr fun pair hmem => ?_
  cases pair with
  | none => rfl
  | some pair =>
      obtain ⟨sent, got⟩ := pair
      obtain ⟨hcrcs, hpayloads⟩ := harrives sent got hmem
      refine passing_intact filter got 0 hpayloads rfl fun i np hnp => ?_
      rw [hcrcs, Nat.zero_add, payloadCalcCrcs, List.getElem?_map, hnp]
      rfl

/-- A payload of two octets. -/
def sentPayload (payload : Bytes) : NmsgPayload := ⟨1, 1, 0, 0, some payload, none, none, none⟩

/-- The container in which payloads arrive. -/
def gotContainer (sent : ProtoNmsg) (got : List NmsgPayload) : ProtoNmsg :=
  { payloadCalcCrcs crc32c sent with payloads := got }

theorem inputNmsgLoop_intact_two :
    inputNmsgLoop crc32c StreamSource.fetch 3 (.fresh ⟨false, 0, 0, 0, 0, 0⟩
        ⟨[none, some (⟨[sentPayload [7, 9], sentPayload [8, 8]], [], none, none⟩,
          gotContainer ⟨[sentPayload [7, 9], sentPayload [8, 8]], [], none, none⟩
            [sentPayload [7, 13], sentPayload [8, 8]])].map arrival, .eof, eof_ends⟩) =
      .ok (.eof, [none, some (⟨[sentPayload [7, 9], sentPayload [8, 8]], [], none, none⟩,
        gotContainer ⟨[sentPayload [7, 9], sentPayload [8, 8]], [], none, none⟩
          [sentPayload [7, 13], sentPayload [8, 8]])].flatMap (intact ⟨false, 0, 0, 0, 0, 0⟩)) := by
  refine inputNmsgLoop_intact ⟨false, 0, 0, 0, 0, 0⟩ _ (fun sent got hmem => ?_) .eof eof_ends 3
    (by decide)
  simp only [List.mem_cons, reduceCtorEq, Option.some.injEq, Prod.mk.injEq, List.not_mem_nil,
    or_false, false_or] at hmem
  obtain ⟨rfl, rfl⟩ := hmem
  refine ⟨rfl, .cons (Or.inr ⟨rfl, Or.inr ?_⟩) (.cons (Or.inl rfl) .nil)⟩
  decide

end Nmsg

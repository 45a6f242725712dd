import Nmsg.Proof.ContainerRoundTrip

/-!
# What adding to a container promises

The test before a payload is added leaves 32 octets. The estimate counts at most 29 for what goes
with a payload, so a container that was not empty is never overfull.
-/

namespace Nmsg

/-- The message has a payload, or a message of its module to make one of. -/
def Addition.Ready (add : Addition) : Prop := (messageSerialize add.now add.msg).np ≠ none

/-- What a result of `nmsg_container_add` says of the container before and after the call, and of
the message. -/
structure AddContract (c : Container) (add : Addition) (res : Res) (c' : Container)
    (msg : Message) : Prop where
  results : res = .success ∨ res = .containerOverfull ∨ res = .containerFull
  bufsz : c'.bufsz = c.bufsz
  success : res = .success → c'.estsz ≤ c'.bufsz
  overfull : res = .containerOverfull → c.nmsg.payloads = [] ∧
    ∃ np, (messageSerialize add.now add.msg).np = some np ∧ c'.nmsg.payloads = [np]
  full : res = .containerFull → c.nmsg.payloads ≠ [] ∧ c' = c ∧
    msg = messageSerialize add.now add.msg ∧ msg.np ≠ none

/-- The estimate for a payload, beyond its packed size. -/
theorem estimate_bounds (doSequence : Bool) (npLen : Nat) :
    0 < estimate doSequence npLen ∧ estimate doSequence npLen ≤ npLen + 29 := by
  unfold estimate
  constructor
  · omega
  · split <;> split <;> split <;> split <;> omega

/-- A container has its first size exactly while it is empty. -/
def Container.SizeKnown (c : Container) : Prop := c.estsz = hdrlszV2 ↔ c.nmsg.payloads = []

theorem containerAdd_contract {c : Container} (hc : c.SizeKnown) {add : Addition}
    (hready : add.Ready) :
    ∃ res c' msg, containerAdd add.now c add.msg = .ok (res, c', msg) ∧
      AddContract c add res c' msg := by
  obtain ⟨np, hnp⟩ := Option.ne_none_iff_exists'.mp hready
  obtain ⟨hpos, hle⟩ := estimate_bounds c.doSequence (payloadSize np)
  simp only [containerAdd, hnp]
  by_cases hfull : c.estsz ≠ hdrlszV2 ∧ c.estsz + payloadSize np + 32 ≥ c.bufsz
  · rw [if_pos hfull]
    have hne : c.nmsg.payloads ≠ [] := fun hnil => hfull.1 (hc.mpr hnil)
    refine ⟨_, _, _, rfl, ⟨Or.inr (Or.inr rfl), rfl, by rintro ⟨⟩, by rintro ⟨⟩, fun _ => ?_⟩⟩
    exact ⟨hne, rfl, rfl, hready⟩
  · rw [if_neg hfull]
    by_cases hover : c.estsz + estimate c.doSequence (payloadSize np) > c.bufsz
    · rw [if_pos hover]
      -- the 32 octets left by the test cover what the estimate adds
      have hempty : c.nmsg.payloads = [] := by
        apply hc.mp
        by_contra hne
        exact hfull ⟨hne, by omega⟩
      refine ⟨_, _, _, rfl, ⟨Or.inr (Or.inl rfl), rfl, by rintro ⟨⟩, fun _ => ?_, by rintro ⟨⟩⟩⟩
      exact ⟨hempty, np, hnp, by rw [hempty, List.nil_append]⟩
    · rw [if_neg hover]
      refine ⟨_, _, _, rfl, ⟨Or.inl rfl, rfl, fun _ => ?_, by rintro ⟨⟩, by rintro ⟨⟩⟩⟩
      exact Nat.le_of_not_lt hover

theorem containerAdd_sizeKnown {c c' : Container} {add : Addition} {res : Res} {msg : Message}
    (hc : c.SizeKnown) (hlow : hdrlszV2 ≤ c.estsz)
    (h : containerAdd add.now c add.msg = .ok (res, c', msg)) :
    c'.SizeKnown ∧ hdrlszV2 ≤ c'.estsz := by
  cases hnp : (messageSerialize add.now add.msg).np with
  | none => simp [containerAdd, hnp] at h
  | some np =>
      have hpos := (estimate_bounds c.doSequence (payloadSize np)).1
      simp only [containerAdd, hnp] at h
      split at h
      · cases h
        exact ⟨hc, hlow⟩
      · have hc' : c'.estsz = c.estsz + estimate c.doSequence (payloadSize np) ∧
            c'.nmsg.payloads = c.nmsg.payloads ++ [np] := by
          split at h <;>
          · cases h
            exact ⟨rfl, rfl⟩
        refine ⟨⟨fun hsize => ?_, fun hnil => ?_⟩, by omega⟩
        · omega
        · rw [hc'.2] at hnil
          simp at hnil

/-- Adding messages one after the other goes on to the end, and the results count the payloads. -/
theorem containerAddAll_count {c : Container} (hc : c.SizeKnown) (hlow : hdrlszV2 ≤ c.estsz)
    {adds : List Addition} (hready : ∀ add ∈ adds, add.Ready) :
    ∃ results c', containerAddAll c adds = .ok (results, c') ∧ c'.SizeKnown ∧
      (acceptedPayloads adds results).length =
        results.countP (fun res => res = .success ∨ res = .containerOverfull) := by
  unfold containerAddAll
  induction adds generalizing c with
  | nil => exact ⟨[], c, rfl, hc, rfl⟩
  | cons add rest ih =>
      have hadd := hready add (List.mem_cons_self ..)
      obtain ⟨res, c₁, msg, hstep, hcontract⟩ := containerAdd_contract hc hadd
      obtain ⟨hc₁, hlow₁⟩ := containerAdd_sizeKnown hc hlow hstep
      obtain ⟨results, c', hrun, hc', hcount⟩ :=
        ih hc₁ hlow₁ fun add' h => hready add' (List.mem_cons_of_mem _ h)
      obtain ⟨np, hnp⟩ := Option.ne_none_iff_exists'.mp hadd
      refine ⟨res :: results, c', ?_, hc', ?_⟩
      · exact StepRun.run_cons_eq_ok.mpr
          ⟨res, c₁, results, by rw [hstep]; rfl, hrun, rfl⟩
      · rcases hcontract.results with rfl | rfl | rfl <;>
          simp [acceptedPayloads, hnp] at hcount ⊢ <;> omega

/-- **What `nmsg_container_add` promises.** In every container that additions lead to, the payloads
are those of the additions that succeeded or made it overfull, in their order, and the next addition
keeps the contract. -/
theorem containers_keep_contract {bufsz : Nat} (hbufsz : wbufszMin ≤ bufsz) (doSequence : Bool)
    (adds : List Addition) (hready : ∀ add ∈ adds, add.Ready) :
    ∃ c₀ results c, containerInit bufsz = some c₀ ∧
      containerAddAll (containerSetSequence c₀ doSequence) adds = .ok (results, c) ∧
      c.bufsz = bufsz ∧ c.nmsg.payloads = acceptedPayloads adds results ∧
      c.nmsg.payloads.length =
        results.countP (fun res => res = .success ∨ res = .containerOverfull) ∧
      ∀ add : Addition, add.Ready →
        ∃ res c' msg, containerAdd add.now c add.msg = .ok (res, c', msg) ∧
          AddContract c add res c' msg := by
  have hinit : containerInit bufsz = some ⟨⟨[], [], none, none⟩, bufsz, hdrlszV2, false⟩ := by
    rw [containerInit, if_neg (by omega)]
  have hempty : (containerSetSequence ⟨⟨[], [], none, none⟩, bufsz, hdrlszV2, false⟩
      doSequence).SizeKnown := ⟨fun _ => rfl, fun _ => rfl⟩
  obtain ⟨results, c, hrun, hc, hcount⟩ := containerAddAll_count hempty le_rfl hready
  obtain ⟨hnmsg, -, hsize, -⟩ := containerAddAll_spec hrun
  have hpayloads : c.nmsg.payloads = acceptedPayloads adds results := by
    rw [hnmsg]
    exact List.nil_append _
  refine ⟨_, results, c, hinit, hrun, hsize, hpayloads, ?_, ?_⟩
  · rw [hpayloads, hcount]
  · exact fun add hadd => containerAdd_contract hc hadd

theorem containers_keep_contract_sample :
    ∃ c₀ results c, containerInit 512 = some c₀ ∧
      containerAddAll (containerSetSequence c₀ true)
        [⟨⟨0, 0⟩, messageFromPayload samplePayload⟩] = .ok (results, c) ∧
      c.bufsz = 512 ∧ c.nmsg.payloads =
        acceptedPayloads [⟨⟨0, 0⟩, messageFromPayload samplePayload⟩] results ∧
      c.nmsg.payloads.length =
        results.countP (fun res => res = .success ∨ res = .containerOverfull) ∧
      ∀ add : Addition, add.Ready →
        ∃ res c' msg, containerAdd add.now c add.msg = .ok (res, c', msg) ∧
          AddContract c add res c' msg := by
  apply containers_keep_contract (by decide)
  intro add hadd
  rw [List.mem_singleton.mp hadd]
  exact Option.some_ne_none _

end Nmsg

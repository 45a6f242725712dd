import Nmsg.Container

/-!
# The estimated size of a container

What packing takes is at most what was estimated, for payloads below two mebibytes. The estimate
counts the sequence fields with every payload and not at all for an empty container, which is the
one that does not fit.
-/

namespace Nmsg

open WireFormat (varintSize varintSize_le)

theorem varintSize_le_digits {n : Nat} (h : n < 2 ^ 28) :
    varintSize n ≤ 1 + (if n ≥ 2 ^ 7 then 1 else 0) + (if n ≥ 2 ^ 14 then 1 else 0) +
      (if n ≥ 2 ^ 21 then 1 else 0) := by
  have hone : n < 2 ^ 7 → varintSize n ≤ 1 := fun h => varintSize_le (k := 0) (by simpa using h)
  have htwo : n < 2 ^ 14 → varintSize n ≤ 2 := fun h => varintSize_le (k := 1) (by simpa using h)
  have hthree : n < 2 ^ 21 → varintSize n ≤ 3 := fun h => varintSize_le (k := 2) (by simpa using h)
  have hfour : varintSize n ≤ 4 := varintSize_le (k := 3) (by simpa using h)
  split <;> split <;> split <;> omega

/-- The octets of a payload. -/
def NmsgPayload.size (np : NmsgPayload) : Nat := (np.payload.getD []).length

theorem payloadPackedSize_le {np : NmsgPayload} (h : np.size < 2 ^ 21) :
    payloadPackedSize np ≤ payloadSize np := by
  unfold payloadSize payloadPackedSize
  cases hpayload : np.payload with
  | none => simp [optionalBytesSize]
  | some b =>
      have hb : b.length < 2 ^ 21 := by simpa [NmsgPayload.size, hpayload] using h
      have hdigits := varintSize_le_digits (n := b.length) (by omega)
      have hzero := WireFormat.varintSize_pos 0
      simp only [optionalBytesSize, Option.map_some, Option.getD_some, List.length_nil]
      rw [if_neg (by omega : ¬ b.length ≥ 2 ^ 21)] at hdigits
      omega

theorem payloadSize_lt {np : NmsgPayload} (h : np.size < 2 ^ 21) : payloadSize np < 2 ^ 22 := by
  have hvid := varintSize_uint32 np.vid
  have hmsgtype := varintSize_uint32 np.msgtype
  have hsec : int64Size np.timeSec ≤ 10 := varintSize_uint64 _
  have hsource := optionalSize_le np.source
  have hoperator := optionalSize_le np.operator
  have hgroup := optionalSize_le np.group
  have hempty : optionalBytesSize (np.payload.map fun _ => []) ≤ 2 := by
    cases np.payload with
    | none => simp [optionalBytesSize]
    | some b =>
        have := varintSize_le (k := 0) (n := 0) (by decide)
        simp only [Option.map_some, optionalBytesSize, List.length_nil]
        omega
  have hlen : (np.payload.getD []).length < 2 ^ 21 := h
  unfold payloadSize payloadPackedSize
  simp only
  split <;> split <;> omega

/-- A payload field and its CRC field take at most what was added to the estimate. -/
theorem payloadFieldSize_le_estimate {np : NmsgPayload} (h : np.size < 2 ^ 21)
    (doSequence : Bool) (crc : UInt32) :
    payloadFieldSize np + crcFieldSize crc + (if doSequence then 18 else 0) ≤
      estimate doSequence (payloadSize np) := by
  have hsize := payloadPackedSize_le h
  have hlt := payloadSize_lt h
  have hcrc := crcFieldSize_le crc
  have hdigits := varintSize_le_digits (n := payloadPackedSize np) (by omega)
  have hmono : ∀ k, (if payloadPackedSize np ≥ k then 1 else 0) ≤
      (if payloadSize np ≥ k then 1 else 0) := by
    intro k
    split <;> split <;> omega
  have h7 := hmono (2 ^ 7)
  have h14 := hmono (2 ^ 14)
  have h21 := hmono (2 ^ 21)
  unfold payloadFieldSize estimate
  cases doSequence <;> simp only [if_true, Bool.false_eq_true, if_false] <;> omega

/-! ### Containers that were filled -/

/-- The estimate for a list of payloads. -/
def estimates (doSequence : Bool) (nps : List NmsgPayload) : Nat :=
  (nps.map fun np => estimate doSequence (payloadSize np)).sum

/-- What adding messages makes of a container. -/
theorem containerAddAll_spec {c c' : Container} {adds : List Addition} {results : List Res}
    (h : containerAddAll c adds = .ok (results, c')) :
    c'.nmsg = { c.nmsg with payloads := c.nmsg.payloads ++ acceptedPayloads adds results } ∧
      c'.estsz = c.estsz + estimates c.doSequence (acceptedPayloads adds results) ∧
      c'.bufsz = c.bufsz ∧ c'.doSequence = c.doSequence := by
  unfold containerAddAll at h
  induction adds generalizing c results with
  | nil =>
      simp only [StepRun.run_nil, Except.ok.injEq, Prod.mk.injEq] at h
      obtain ⟨rfl, rfl⟩ := h
      simp [acceptedPayloads, estimates]
  | cons add adds ih =>
      obtain ⟨res, c₁, rest, hstep, hrest, rfl⟩ := StepRun.run_cons_eq_ok.mp h
      obtain ⟨hnmsg, hestsz, hbufsz, hseq⟩ := ih hrest
      cases hnp : (messageSerialize add.now add.msg).np with
      | none => simp [containerAdd, hnp, Except.map] at hstep
      | some np =>
          have hlater : acceptedPayloads (add :: adds) (res :: rest) =
              (if res = .containerFull then [] else [np]) ++ acceptedPayloads adds rest := by
            by_cases hres : res = .containerFull <;>
              simp [acceptedPayloads, hnp, hres]
          simp only [containerAdd, hnp] at hstep
          split at hstep
          · simp only [Except.map, Except.ok.injEq, Prod.mk.injEq] at hstep
            obtain ⟨rfl, rfl⟩ := hstep
            rw [hlater]
            exact ⟨hnmsg, hestsz, hbufsz, hseq⟩
          · have hc₁ : c₁ = { c with
                nmsg := { c.nmsg with payloads := c.nmsg.payloads ++ [np] }
                estsz := c.estsz + estimate c.doSequence (payloadSize np) } ∧
                res ≠ .containerFull := by
              split at hstep <;>
              · simp only [Except.map, Except.ok.injEq, Prod.mk.injEq] at hstep
                obtain ⟨rfl, rfl⟩ := hstep
                exact ⟨rfl, by decide⟩
            obtain ⟨rfl, hres⟩ := hc₁
            rw [hlater, if_neg hres]
            refine ⟨?_, ?_, hbufsz, hseq⟩
            · rw [hnmsg]
              simp
            · rw [hestsz]
              simp [estimates, Nat.add_assoc]

end Nmsg

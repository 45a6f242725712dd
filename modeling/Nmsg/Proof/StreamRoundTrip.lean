import Nmsg.Proof.OutputStream
import Nmsg.Proof.ReadBack

/-!
# Payloads survive a file

What is written is read back whenever the batches are written as they can be read; a payload whose
container is cut exactly is not.
-/

namespace Nmsg

open WireFormat

variable {pb : ProtobufC} {z : Zlib} {crc32c : Bytes → UInt32}

/-- The containers of emissions fit in a file. -/
theorem emissions_fit {es : Emissions} (hes : ∀ e ∈ es, Emission pb z crc32c e.1 e.2) :
    ∀ c ∈ es.flatMap Prod.snd, c.Fits := by
  intro c hc
  obtain ⟨e, he, hmem⟩ := List.mem_flatMap.mp hc
  exact (hes e he).fits c hmem

theorem flatMap_fst_eq {es : Emissions} {bs : List Batch}
    (h : es.map Prod.fst = bs.map Batch.payloads) :
    es.flatMap Prod.fst = bs.flatMap Batch.payloads := by
  rw [List.flatMap_def, List.flatMap_def, h]

/-- **Stream round trip.** Calls of an output whose batches fit succeed, and reading what they wrote
gives the payloads back, with source, operator and group as the output sets them, each once and in
order. -/
theorem stream_round_trip (hpb : pb.Lawful) (hz : z.Lawful) (bufsz : Nat) (config : OutputConfig)
    (ops : List OutputOp) (hready : ∀ op ∈ ops, op.Ready)
    (hfits : ∀ b ∈ batches (StreamOutput.openFile bufsz config).bufsz config [] (ops ++ [.flush]),
      b.Fits pb z crc32c (StreamOutput.openFile bufsz config).bufsz config.doZlib) :
    ReadsBack pb z crc32c bufsz config ops := by
  have hready' : ∀ op ∈ ops ++ [.flush], op.Ready := by
    intro op hop
    rcases List.mem_append.mp hop with hop | hop
    · exact hready op hop
    · rw [List.mem_singleton.mp hop]
      trivial
  obtain ⟨results, s, hrun, hresults, -, -, es, hes, hpayloads, hwritten⟩ :=
    run_writes hpb hz (waiting_openFile bufsz config) hready' hfits
  refine ⟨results, s, hrun, hresults, es.calls + 1, ?_⟩
  intro world hworld envs hlen henvs
  have hoctets : s.written = (es.flatMap Prod.snd).flatMap FileContainer.encode := hwritten
  obtain ⟨all, t, hread, answers, rfl, hanswered⟩ := yields_emissions crc32c hpb hz
    hworld hes (between_open (emissions_fit hes)) envs hlen henvs
  rw [hoctets]
  refine ⟨answers, t, hread, hanswered.res, ?_⟩
  rw [hanswered.messages, flatMap_fst_eq hpayloads]
  exact congrArg _ (batches_payloads _ _ [] ops)

/-! ### Two files -/

/-- Payloads are collected, and marked with a source. -/
def sourceConfig : OutputConfig := ⟨true, false, 9, 0, 0⟩

/-- Writing one payload after the other. -/
def writeAll (nps : List NmsgPayload) : List OutputOp :=
  nps.map fun np => .write ⟨0, 0⟩ 7 (messageFromPayload np)

theorem stream_round_trip_sample :
    ReadsBack wire storedZlib (fun _ => 7) 512 sourceConfig
      (writeAll [samplePayload, longPayload 900]) := by
  refine stream_round_trip wire_lawful storedZlib_lawful 512 sourceConfig _ ?_ ?_
  · intro op hop
    obtain ⟨np, -, rfl⟩ := List.mem_map.mp hop
    simp [OutputOp.Ready, messageSerialize, messageFromPayload]
  · have hbatches : batches 512 sourceConfig []
        (writeAll [samplePayload, longPayload 900] ++ [.flush]) =
          [⟨[sourceConfig.override samplePayload], false⟩,
            ⟨[sourceConfig.override (longPayload 900)], true⟩] := by decide +kernel
    have hlen : (containerBody wire storedZlib (fun _ => 7) false
        [sourceConfig.override (longPayload 900)]).length = 924 := by
      rw [containerBody, if_neg Bool.false_ne_true, length_packedPayloads wire_lawful]
      decide +kernel
    intro b hb
    rw [show (StreamOutput.openFile 512 sourceConfig).bufsz = 512 from rfl, hbatches] at hb
    rcases List.mem_cons.mp hb with rfl | hb
    · exact ⟨fun _ hzlib => (by cases hzlib), fun hcut => (by cases hcut),
        fun hcut => (by cases hcut), fun hcut => (by cases hcut)⟩
    · rw [List.mem_singleton.mp hb]
      refine ⟨fun hwhole => (by cases hwhole), fun _ hzlib => (by cases hzlib), fun _ => ?_,
        fun _ => ?_⟩
      · simp only [sourceConfig] at hlen ⊢
        rw [hlen]
        decide
      · simp only [sourceConfig, Bool.false_eq_true, if_false] at hlen ⊢
        rw [hlen]
        decide

/-- `read` returns what there is. -/
def wholeWorld : ReadWorld := ⟨fun _ => some rbufsz, fun _ => ⟨0, 0⟩⟩

/-- A call that finds enough memory. -/
def plentyEnv : CallEnv := ⟨[], true, true, true, true⟩

/-- A payload that takes a container of 960 octets. -/
def evenOps : List OutputOp := writeAll [longPayload 936]

/-- What a run of an output wrote. -/
def writtenOctets (out : Except Abort (List Res × StreamOutput)) : Bytes :=
  match out with
  | .error _ => []
  | .ok (_, s) => s.written

/-- Two fragments of three. -/
def evenOctets : Bytes :=
  writtenOctets (StepRun.run (outputStep wire storedZlib fun _ => 7)
    (StreamOutput.openFile 512 sourceConfig) (evenOps ++ [.flush]))

theorem run_evenOctets :
    (StepRun.run (inputNmsgRead wire (fun _ => 7) wholeWorld) (FileInput.open storedZlib evenOctets)
      (List.replicate 3 plentyEnv)).map Prod.fst =
        .ok [(.again, none), (.again, none), (.eof, none)] := by decide +kernel

/-- Calls that begin like those end with the first end that is reported. -/
theorem answers_of_take {answers : List (Res × Option Message)}
    (hres : ∀ answer ∈ answers, answer.1 = .success ∨ answer.1 = .again)
    (hsame : (answers ++ [(Res.eof, none)]).take 3 =
      [(Res.again, none), (.again, none), (.eof, none)].take (answers.length + 1)) :
    answers = [(.again, none), (.again, none)] := by
  match answers with
  | [] => simp at hsame
  | [_] => simp at hsame
  | [a, b] =>
      simp at hsame
      rw [hsame.1, hsame.2]
  | a :: b :: c :: more =>
      simp at hsame
      have hfailed := hres c (by simp)
      rw [hsame.2.2] at hfailed
      simp at hfailed

/-- **A payload is lost** whose container is cut exactly. -/
theorem even_payload_lost :
    (∀ op ∈ evenOps, op.Ready) ∧
      ¬ ReadsBack wire storedZlib (fun _ => 7) 512 sourceConfig evenOps := by
  constructor
  · intro op hop
    obtain ⟨np, -, rfl⟩ := List.mem_map.mp hop
    simp [OutputOp.Ready, messageSerialize, messageFromPayload]
  rintro ⟨results, s, hwrite, -, n, hread⟩
  have hwritten : evenOctets = s.written := congrArg writtenOctets hwrite
  obtain ⟨answers, t, hrun, hres, hmessages⟩ := hread wholeWorld (fun _ h => by cases h)
    (List.replicate n plentyEnv) (List.length_replicate ..)
    (fun env henv => by
      rw [List.eq_of_mem_replicate henv]
      exact ⟨rfl, rfl, rfl, rfl⟩)
  rw [← hwritten] at hrun
  obtain ⟨three, hthree⟩ : ∃ three, StepRun.run (inputNmsgRead wire (fun _ => 7) wholeWorld)
      (FileInput.open storedZlib evenOctets) (List.replicate 3 plentyEnv) =
        .ok ([(.again, none), (.again, none), (.eof, none)], three) := by
    have hmap := run_evenOctets
    cases hcalls : StepRun.run (inputNmsgRead wire (fun _ => 7) wholeWorld)
        (FileInput.open storedZlib evenOctets) (List.replicate 3 plentyEnv) with
    | error e => rw [hcalls] at hmap; cases hmap
    | ok out =>
        rw [hcalls, Except.map, Except.ok.injEq] at hmap
        exact ⟨out.2, by rw [← hmap]⟩
  have hlen : answers.length + 1 = n := by simpa using StepRun.length_of_run hrun
  have hsame : (answers ++ [(Res.eof, none)]).take 3 =
      [(Res.again, none), (.again, none), (.eof, none)].take n := by
    obtain ⟨t₁, htake⟩ := StepRun.run_take hrun 3
    obtain ⟨t₂, htake'⟩ := StepRun.run_take hthree n
    rw [List.take_replicate, Nat.min_comm] at htake
    rw [List.take_replicate, htake, Except.ok.injEq, Prod.mk.injEq] at htake'
    exact htake'.1
  rw [← hlen] at hsame
  rw [answers_of_take hres hsame] at hmessages
  cases hmessages

end Nmsg

import Mathlib.Data.List.ReduceOption
import Nmsg.Input.Bounded
import Nmsg.Proof.LoopRead

/-!
# Loops one after the other

A loop with a count passes the first payloads that its source has to deliver. What it leaves in the
source is another matter: a stream gives up the rest of the container it stops in, and the other
inputs give up the message behind the last one passed. So a second loop goes on where the first one
stopped only for a stream, and only when the count is used up by the last payload of a container.
-/

namespace Nmsg

variable {crc32c : Bytes → UInt32} {filter : InputFilter}

/-- The messages that an input has to deliver. -/
def Input.deliverable (crc32c : Bytes → UInt32) : Input → List Message
  | .stream filter source => loopMessages crc32c filter source.fetched
  | .other source => source.delivered.reduceOption

/-- A loop over `n` payloads and one over `m` pass what one over `n + m` passes, and the first
passes all that it takes. -/
def Input.LoopsCompose (crc32c : Bytes → UInt32) (input : Input) (n m : Nat) : Prop :=
  ∃ res₁ res₂ res₃ first second whole input₁ input₂ input₃,
    nmsgInputLoop crc32c n input = .ok ((res₁, first), input₁) ∧
    nmsgInputLoop crc32c m input₁ = .ok ((res₂, second), input₂) ∧
    nmsgInputLoop crc32c (n + m) input = .ok ((res₃, whole), input₃) ∧
    first ++ second = whole ∧
    first ++ input₁.deliverable crc32c = input.deliverable crc32c

/-- The input is a stream, and `n` is the number of payloads that its first containers deliver, one
or more of them. -/
def Input.EndsContainer (crc32c : Bytes → UInt32) (n : Nat) : Input → Prop
  | .stream filter source =>
      ∃ front rest, source.fetched = front ++ rest ∧ (∃ nmsg, .container nmsg ∈ front) ∧
        (loopMessages crc32c filter front).length = n
  | .other _ => False

/-! ### Streams -/

theorem loopMessages_again (rest : List Fetched) :
    loopMessages crc32c filter (.again :: rest) = loopMessages crc32c filter rest := by
  rw [loopMessages, List.flatMap_cons, List.nil_append]
  rfl

theorem loopMessages_container (nmsg : ProtoNmsg) (rest : List Fetched) :
    loopMessages crc32c filter (.container nmsg :: rest) =
      passing crc32c filter nmsg 0 ++ loopMessages crc32c filter rest := by
  rw [loopMessages, List.flatMap_cons]
  rfl

theorem loopMessages_of_no_container {fetched : List Fetched}
    (h : ∀ nmsg, Fetched.container nmsg ∉ fetched) : loopMessages crc32c filter fetched = [] := by
  induction fetched with
  | nil => rfl
  | cons first rest ih =>
      cases first with
      | again =>
          rw [loopMessages_again]
          exact ih fun nmsg hmem => h nmsg (List.mem_cons_of_mem _ hmem)
      | container nmsg => exact absurd List.mem_cons_self (h nmsg)

/-- What is left of a source when `need` payloads are passed. -/
def restAfter (crc32c : Bytes → UInt32) (filter : InputFilter) :
    Nat → List Fetched → List Fetched
  | _, [] => []
  | need, .again :: rest => restAfter crc32c filter need rest
  | need, .container nmsg :: rest =>
      if need ≤ (passing crc32c filter nmsg 0).length then rest
      else restAfter crc32c filter (need - (passing crc32c filter nmsg 0).length) rest

theorem boundedPayloads_eq {nmsg : ProtoNmsg} {cnt n left nPayloads : Nat}
    (h : n + left = nmsg.payloads.length) (hle : nPayloads ≤ cnt) :
    boundedPayloads crc32c filter nmsg cnt n left nPayloads =
      .ok ((passing crc32c filter nmsg n).take (cnt - nPayloads),
        min cnt (nPayloads + (passing crc32c filter nmsg n).length)) := by
  induction left generalizing n nPayloads with
  | zero =>
      rw [passing_of_length_le (by omega), boundedPayloads, List.take_nil, List.length_nil,
        Nat.add_zero, Nat.min_eq_right hle]
  | succ left ih =>
      have hlt : n < nmsg.payloads.length := by omega
      have hget : nmsg.payloads[n]? = some nmsg.payloads[n] := List.getElem?_eq_getElem hlt
      rw [boundedPayloads, hget, passing_eq hget]
      dsimp only
      by_cases hpass : inputNmsgFilter crc32c filter nmsg n nmsg.payloads[n] = true
      · rw [if_pos hpass, if_pos hpass]
        by_cases hcnt : nPayloads = cnt
        · rw [if_pos hcnt, hcnt, Nat.sub_self, List.take_zero, Nat.min_eq_left (by omega)]
        · have hsucc : cnt - nPayloads = cnt - (nPayloads + 1) + 1 := by omega
          rw [if_neg hcnt, ih (by omega) (by omega), hsucc]
          simp only [Except.map, List.singleton_append, List.take_succ_cons, List.length_cons]
          rw [Nat.add_right_comm, Nat.add_assoc]
      · rw [if_neg hpass, if_neg hpass, ih (by omega) hle, List.nil_append]

/-- A loop over a stream passes the first payloads. -/
theorem inputNmsgLoopBounded_eq {cnt fuel nPayloads : Nat} (source : StreamSource) (idx : Nat)
    (nmsg : Option ProtoNmsg) (hfuel : source.fetched.length < fuel) (hle : nPayloads ≤ cnt) :
    ∃ res s,
      inputNmsgLoopBounded crc32c StreamSource.fetch cnt fuel nPayloads ⟨source, nmsg, idx, filter⟩ =
        .ok ((res, (loopMessages crc32c filter source.fetched).take (cnt - nPayloads)), s) ∧
      s.filter = filter ∧
      s.source.fetched = restAfter crc32c filter (cnt - nPayloads) source.fetched := by
  obtain ⟨fetched, last, hends⟩ := source
  induction fetched generalizing fuel nPayloads nmsg with
  | nil =>
      obtain ⟨fuel, rfl⟩ := Nat.exists_eq_add_one.mpr hfuel
      refine ⟨last, ⟨⟨[], last, hends⟩, none, idx, filter⟩, ?_, rfl, rfl⟩
      simp only [inputNmsgLoopBounded, StreamSource.fetch]
      rw [if_neg hends.2, if_pos hends.1]
      simp [loopMessages]
  | cons first rest ih =>
      obtain ⟨fuel, rfl⟩ := Nat.exists_eq_add_one.mpr (Nat.zero_lt_of_lt hfuel)
      have hfuel' : rest.length < fuel := by simpa using hfuel
      cases first with
      | again =>
          obtain ⟨res, s, hloop, hfilter, hrest⟩ := ih none hle hfuel'
          refine ⟨res, s, ?_, hfilter, hrest⟩
          simp only [inputNmsgLoopBounded, StreamSource.fetch]
          rw [if_pos trivial, hloop, loopMessages_again]
      | container found =>
          simp only [inputNmsgLoopBounded, StreamSource.fetch]
          rw [if_neg (by rintro ⟨⟩), if_neg (not_not_intro rfl),
            boundedPayloads_eq (Nat.zero_add _) hle]
          simp only [loopMessages, List.flatMap_cons, restAfter]
          generalize passing crc32c filter found 0 = msgs
          by_cases henough : cnt - nPayloads ≤ msgs.length
          · refine ⟨.success, ⟨⟨rest, last, hends⟩, none, idx, filter⟩, ?_, rfl, ?_⟩
            · rw [if_pos (by omega), List.take_append_of_le_length henough]
            · rw [if_pos henough]
          · have hmin : min cnt (nPayloads + msgs.length) = nPayloads + msgs.length := by omega
            have hleft : cnt - (nPayloads + msgs.length) = cnt - nPayloads - msgs.length := by omega
            obtain ⟨res, s, hloop, hfilter, hrest⟩ := @ih fuel (nPayloads + msgs.length) none
              (by omega) hfuel'
            rw [hleft] at hloop hrest
            refine ⟨res, s, ?_, hfilter, ?_⟩
            · rw [hmin, if_neg (by omega), hloop, List.take_append,
                List.take_of_length_le (by omega)]
              rfl
            · rw [if_neg henough]
              exact hrest

/-- What is left behind a loop is what was not passed exactly when the loop ends with a
container. -/
theorem loopMessages_restAfter_iff {need : Nat} {fetched : List Fetched}
    (hmore : need < (loopMessages crc32c filter fetched).length) :
    loopMessages crc32c filter (restAfter crc32c filter need fetched) =
        (loopMessages crc32c filter fetched).drop need ↔
      ∃ front rest, fetched = front ++ rest ∧ (∃ nmsg, .container nmsg ∈ front) ∧
        (loopMessages crc32c filter front).length = need := by
  induction fetched generalizing need with
  | nil => exact absurd hmore (Nat.not_lt_zero need)
  | cons first rest ih =>
      cases first with
      | again =>
          rw [restAfter, loopMessages_again] at *
          rw [ih hmore]
          constructor
          · rintro ⟨front, back, rfl, ⟨nmsg, hmem⟩, hlen⟩
            exact ⟨.again :: front, back, rfl, ⟨nmsg, List.mem_cons_of_mem _ hmem⟩, hlen⟩
          · rintro ⟨front, back, hsplit, ⟨nmsg, hmem⟩, hlen⟩
            cases front with
            | nil => exact (List.not_mem_nil hmem).elim
            | cons first front =>
                rw [List.cons_append, List.cons.injEq] at hsplit
                obtain ⟨rfl, rfl⟩ := hsplit
                refine ⟨front, back, rfl, ⟨nmsg, ?_⟩, hlen⟩
                exact (List.mem_cons.mp hmem).resolve_left nofun
      | container found =>
          rw [loopMessages_container] at hmore ⊢
          rw [restAfter]
          by_cases henough : need ≤ (passing crc32c filter found 0).length
          · rw [if_pos henough, List.drop_append_of_le_length henough]
            constructor
            · intro hkept
              have hlen := congrArg List.length hkept
              rw [List.length_append, List.length_drop] at hlen
              refine ⟨[.container found], rest, rfl, ⟨found, List.mem_singleton_self _⟩, ?_⟩
              rw [loopMessages_container, List.length_append]
              simp only [loopMessages, List.flatMap_nil, List.length_nil]
              omega
            · rintro ⟨front, back, hsplit, ⟨nmsg, hmem⟩, hlen⟩
              cases front with
              | nil => exact (List.not_mem_nil hmem).elim
              | cons first front =>
                  rw [List.cons_append, List.cons.injEq] at hsplit
                  obtain ⟨rfl, -⟩ := hsplit
                  rw [loopMessages_container, List.length_append] at hlen
                  rw [List.drop_eq_nil_of_le (by omega), List.nil_append]
          · rw [List.length_append] at hmore
            have hdrop : (passing crc32c filter found 0 ++ loopMessages crc32c filter rest).drop need =
                (loopMessages crc32c filter rest).drop
                  (need - (passing crc32c filter found 0).length) := by
              rw [List.drop_append, List.drop_eq_nil_of_le (by omega), List.nil_append]
            rw [if_neg henough, hdrop, ih (by omega)]
            constructor
            · rintro ⟨front, back, rfl, -, hlen⟩
              refine ⟨.container found :: front, back, rfl, ⟨found, List.mem_cons_self⟩, ?_⟩
              rw [loopMessages_container, List.length_append, hlen]
              omega
            · rintro ⟨front, back, hsplit, ⟨nmsg, hmem⟩, hlen⟩
              cases front with
              | nil => exact (List.not_mem_nil hmem).elim
              | cons first front =>
                  rw [List.cons_append, List.cons.injEq] at hsplit
                  obtain ⟨rfl, rfl⟩ := hsplit
                  rw [loopMessages_container, List.length_append] at hlen
                  refine ⟨front, back, rfl, ?_, by omega⟩
                  by_contra hnone
                  rw [loopMessages_of_no_container fun nmsg hmem => hnone ⟨nmsg, hmem⟩,
                    List.length_nil] at hlen
                  omega

/-! ### Inputs that are read message by message -/

/-- What is left of a source when `need` messages are passed. -/
def restRead : Nat → List (Option Message) → List (Option Message)
  | _, [] => []
  | need, none :: rest => restRead need rest
  | 0, some _ :: rest => rest
  | need + 1, some _ :: rest => restRead need rest

theorem inputLoopRead_eq {cnt fuel nPayloads : Nat} (source : MessageSource)
    (hfuel : source.delivered.length < fuel) (hle : nPayloads ≤ cnt) :
    ∃ res source',
      inputLoopRead MessageSource.read cnt fuel nPayloads source =
        .ok ((res, source.delivered.reduceOption.take (cnt - nPayloads)), source') ∧
      source'.delivered = restRead (cnt - nPayloads) source.delivered := by
  obtain ⟨delivered, last, hends⟩ := source
  induction delivered generalizing fuel nPayloads with
  | nil =>
      obtain ⟨fuel, rfl⟩ := Nat.exists_eq_add_one.mpr hfuel
      refine ⟨last, ⟨[], last, hends⟩, ?_, by rw [restRead]⟩
      simp only [inputLoopRead, MessageSource.read]
      rw [if_neg hends.2, if_pos hends.1]
      simp [List.reduceOption]
  | cons first rest ih =>
      obtain ⟨fuel, rfl⟩ := Nat.exists_eq_add_one.mpr (Nat.zero_lt_of_lt hfuel)
      have hfuel' : rest.length < fuel := by simpa using hfuel
      cases first with
      | none =>
          obtain ⟨res, source', hloop, hrest⟩ := ih hle hfuel'
          refine ⟨res, source', ?_, ?_⟩
          · simp only [inputLoopRead, MessageSource.read]
            rw [if_pos trivial, hloop, List.reduceOption_cons_of_none]
          · rw [hrest, restRead]
      | some msg =>
          simp only [inputLoopRead, MessageSource.read]
          rw [if_neg nofun, if_neg (not_not_intro rfl), List.reduceOption_cons_of_some]
          by_cases hcnt : nPayloads = cnt
          · refine ⟨.success, ⟨rest, last, hends⟩, ?_, ?_⟩
            · rw [if_pos hcnt, hcnt, Nat.sub_self, List.take_zero]
            · rw [hcnt, Nat.sub_self, restRead]
          · have hsucc : cnt - nPayloads = cnt - (nPayloads + 1) + 1 := by omega
            obtain ⟨res, source', hloop, hrest⟩ := @ih fuel (nPayloads + 1) (by omega) hfuel'
            refine ⟨res, source', ?_, ?_⟩
            · rw [if_neg hcnt, hloop, hsucc, List.take_succ_cons]
              rfl
            · rw [hsucc, restRead, hrest]

/-- A message is lost when there is another one to deliver. -/
theorem reduceOption_restRead (need : Nat) (delivered : List (Option Message)) :
    (restRead need delivered).reduceOption = delivered.reduceOption.drop (need + 1) := by
  induction delivered generalizing need with
  | nil =>
      rw [restRead]
      simp [List.reduceOption]
  | cons first rest ih =>
      cases first with
      | none => rw [restRead, ih, List.reduceOption_cons_of_none]
      | some msg =>
          rw [List.reduceOption_cons_of_some, List.drop_succ_cons]
          cases need with
          | zero => rw [restRead, List.drop_zero]
          | succ need => rw [restRead, ih]

/-! ### Two loops -/

/-- What an input has left behind a loop. -/
def Input.after (crc32c : Bytes → UInt32) (cnt : Nat) : Input → List Message
  | .stream filter source => loopMessages crc32c filter (restAfter crc32c filter cnt source.fetched)
  | .other source => source.delivered.reduceOption.drop (cnt + 1)

/-- **A loop** passes the first messages. -/
theorem nmsgInputLoop_eq (crc32c : Bytes → UInt32) (cnt : Nat) (input : Input) :
    ∃ res input', nmsgInputLoop crc32c cnt input =
        .ok ((res, (input.deliverable crc32c).take cnt), input') ∧
      input'.deliverable crc32c = input.after crc32c cnt := by
  cases input with
  | stream filter source =>
      obtain ⟨res, s, hloop, hfilter, hrest⟩ := @inputNmsgLoopBounded_eq crc32c filter cnt
        (source.fetched.length + 1) 0 source 0 none (Nat.lt_succ_self _) (Nat.zero_le cnt)
      rw [Nat.sub_zero] at hloop hrest
      refine ⟨res, .stream s.filter s.source, ?_, ?_⟩
      · rw [nmsgInputLoop, StreamInput.fresh, hloop]
        rfl
      · rw [Input.deliverable, hfilter, hrest, Input.after]
  | other source =>
      obtain ⟨res, source', hloop, hrest⟩ := @inputLoopRead_eq cnt (source.delivered.length + 1) 0
        source (Nat.lt_succ_self _) (Nat.zero_le cnt)
      rw [Nat.sub_zero] at hloop hrest
      refine ⟨res, .other source', ?_, ?_⟩
      · rw [nmsgInputLoop, hloop]
        rfl
      · rw [Input.deliverable, hrest, reduceOption_restRead, Input.after]

/-- Nothing is lost behind a loop exactly when it ends with a container of a stream. -/
theorem after_eq_drop_iff {input : Input} {cnt : Nat}
    (hmore : cnt < (input.deliverable crc32c).length) :
    input.after crc32c cnt = (input.deliverable crc32c).drop cnt ↔
      input.EndsContainer crc32c cnt := by
  cases input with
  | stream filter source => exact loopMessages_restAfter_iff hmore
  | other source =>
      refine iff_of_false (fun hkept => ?_) id
      have hlen := congrArg List.length hkept
      rw [Input.after, Input.deliverable, List.length_drop, List.length_drop] at hlen
      rw [Input.deliverable] at hmore
      omega

/-- **Bounded loops compose** exactly when the input is a stream and the first loop ends with the
last payload of a container. -/
theorem loops_compose_iff {input : Input} {n m : Nat}
    (hmore : n + m < (input.deliverable crc32c).length) :
    input.LoopsCompose crc32c n m ↔ input.EndsContainer crc32c n := by
  have hn : n < (input.deliverable crc32c).length := by omega
  rw [← after_eq_drop_iff hn]
  obtain ⟨res₁, input₁, hfirst, hleft⟩ := nmsgInputLoop_eq crc32c n input
  constructor
  · rintro ⟨_, _, _, first, _, _, input', _, _, hloop, -, -, -, hkept⟩
    rw [hfirst] at hloop
    cases hloop
    rw [hleft] at hkept
    rw [← List.append_right_inj ((input.deliverable crc32c).take n), hkept, List.take_append_drop]
  · intro hafter
    obtain ⟨res₂, input₂, hsecond, -⟩ := nmsgInputLoop_eq crc32c m input₁
    obtain ⟨res₃, input₃, hwhole, -⟩ := nmsgInputLoop_eq crc32c (n + m) input
    refine ⟨_, _, _, _, _, _, _, _, _, hfirst, hsecond, hwhole, ?_, ?_⟩
    · rw [hleft, hafter, List.take_add]
    · rw [hleft, hafter, List.take_append_drop]

/-! ### Three payloads in two containers -/

/-- A stream whose containers hold these payloads, without a filter. -/
def streamOf (containers : List (List NmsgPayload)) : Input :=
  .stream ⟨false, 0, 0, 0, 0, 0⟩
    ⟨containers.map fun nps => .container ⟨nps, [], none, none⟩, .eof, eof_ends⟩

/-- A payload of the module with this id. -/
def bareNp (vid : UInt32) : NmsgPayload := ⟨vid, 1, 0, 0, none, none, none, none⟩

theorem loops_compose_iff_sample :
    (streamOf [[bareNp 1], [bareNp 2, bareNp 3]]).LoopsCompose (fun _ => 7) 1 1 ↔
      (streamOf [[bareNp 1], [bareNp 2, bareNp 3]]).EndsContainer (fun _ => 7) 1 :=
  loops_compose_iff (show 2 < 3 by decide)

/-- **A payload is lost** between two loops over one payload each, when the first container holds
two. -/
theorem loops_do_not_compose :
    1 + 1 < ((streamOf [[bareNp 1, bareNp 2], [bareNp 3]]).deliverable fun _ => 7).length ∧
      ¬ (streamOf [[bareNp 1, bareNp 2], [bareNp 3]]).LoopsCompose (fun _ => 7) 1 1 := by
  refine ⟨show 2 < 3 by decide, ?_⟩
  rintro ⟨_, _, _, first, second, whole, _, _, _, hfirst, hsecond, hwhole, htrace, -⟩
  cases hfirst
  cases hsecond
  cases hwhole
  exact absurd htrace (by decide)

end Nmsg

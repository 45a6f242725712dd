import Nmsg.Io
import Mathlib.Data.List.Induction

/-!
# Rotation by count

While rounds proceed, the counters of the outputs are a function of the number of messages read, and
so are the payloads each output received since its last close event, as long as rotation is exact. A
round keeps it exact or breaks it, depending on these numbers only.
-/

namespace Nmsg

open Prefixes

variable {M : Type*} {n k m : Nat} {log : List (IoAction M)} {rounds : List (IoRound M)}
  {round : IoRound M}

/-! ### The log -/

theorem sinceClose_wrote (j i : Nat) (msg : M) :
    sinceClose j (log ++ [.wrote i msg]) = sinceClose j log + if i = j then 1 else 0 := by
  rw [sinceClose, List.foldl_append]
  by_cases h : i = j
  · simp [sinceClose, h]
  · simp [sinceClose, h]

theorem sinceClose_closed (j i : Nat) :
    sinceClose j (log ++ [.closed i .count]) = if i = j then 0 else sinceClose j log := by
  rw [sinceClose, List.foldl_append]
  rfl

theorem rotatesExactly_wrote (j : Nat) (msg : M) :
    RotatesExactly n (log ++ [.wrote j msg]) ↔ RotatesExactly n log ∧ sinceClose j log < n :=
  eachAfter_concat

theorem rotatesExactly_closed (j : Nat) :
    RotatesExactly n (log ++ [.closed j .count]) ↔
      RotatesExactly n log ∧ sinceClose j log = n :=
  eachAfter_concat

/-- A message written to the first `k` outputs. -/
def writes (k : Nat) (msg : M) : List (IoAction M) := (List.range k).map fun j => .wrote j msg

theorem writes_succ (k : Nat) (msg : M) : writes (k + 1) msg = writes k msg ++ [.wrote k msg] := by
  simp [writes, List.range_succ]

theorem sinceClose_writes (j : Nat) (msg : M) :
    sinceClose j (log ++ writes k msg) = sinceClose j log + if j < k then 1 else 0 := by
  induction k with
  | zero => simp [writes]
  | succ k ih =>
      rw [writes_succ, ← List.append_assoc, sinceClose_wrote, ih]
      by_cases hlast : k = j
      · simp [hlast]
      · have hiff : j < k + 1 ↔ j < k := by omega
        simp [hlast, hiff]

theorem rotatesExactly_writes (msg : M) :
    RotatesExactly n (log ++ writes k msg) ↔
      RotatesExactly n log ∧ ∀ j < k, sinceClose j log < n := by
  induction k with
  | zero => simp [writes]
  | succ k ih =>
      rw [writes_succ, ← List.append_assoc, rotatesExactly_wrote, ih, sinceClose_writes,
        if_neg (Nat.lt_irrefl k), Nat.add_zero, and_assoc]
      refine and_congr_right fun _ => ⟨fun ⟨hall, hk⟩ j hj => ?_, fun hall => ?_⟩
      · rcases Nat.lt_succ_iff_lt_or_eq.mp hj with hlt | rfl
        · exact hall j hlt
        · exact hk
      · exact ⟨fun j hj => hall j (by omega), hall k (by omega)⟩

/-- The close event that is due when an output has received `received` payloads. -/
def closes (n received j : Nat) : List (IoAction M) :=
  if 0 < received ∧ n ∣ received then [.closed j .count] else []

theorem sinceClose_closes (received j i : Nat) :
    sinceClose j (log ++ closes n received i) =
      if (0 < received ∧ n ∣ received) ∧ i = j then 0 else sinceClose j log := by
  by_cases hdue : 0 < received ∧ n ∣ received
  · rw [closes, if_pos hdue, sinceClose_closed]
    simp only [hdue, and_self, true_and]
  · simp [closes, hdue]

theorem rotatesExactly_closes (received j : Nat) :
    RotatesExactly n (log ++ closes n received j) ↔
      RotatesExactly n log ∧ (0 < received ∧ n ∣ received → sinceClose j log = n) := by
  by_cases hdue : 0 < received ∧ n ∣ received
  · rw [closes, if_pos hdue, rotatesExactly_closed]
    simp only [hdue, and_self, true_imp_iff]
  · simp [closes, hdue]

/-! ### A round of the thread -/

/-- A running thread whose outputs have received these numbers of payloads. -/
def threadAt (k p : Nat) (received : Nat → Nat) : IoThr where
  outputs := (List.range k).map fun j => ⟨true, 0, received j⟩
  ioOutput := p
  stop := false
  running := true
  res := .success

section Thread

variable {mode : IoOutputMode} {p j : Nat} {received received' : Nat → Nat}

@[simp]
theorem threadAt_running : (threadAt k p received).running = true := rfl

@[simp]
theorem threadAt_stop : (threadAt k p received).stop = false := rfl

@[simp]
theorem threadAt_ioOutput : (threadAt k p received).ioOutput = p := rfl

theorem threadAt_congr (h : ∀ j < k, received j = received' j) :
    threadAt k p received = threadAt k p received' := by
  simp only [threadAt, IoThr.mk.injEq, and_true]
  apply List.map_congr_left
  intro j hj
  rw [h j (List.mem_range.mp hj)]

theorem threadAt_outputs (hj : j < k) :
    (threadAt k p received).outputs[j]? = some ⟨true, 0, received j⟩ := by
  simp [threadAt, hj]

theorem threadAt_modify (f : IoOutput → IoOutput) (g : Nat → Nat)
    (hf : f ⟨true, 0, received j⟩ = ⟨true, 0, g j⟩) (hg : ∀ i, i ≠ j → received i = g i) :
    { threadAt k p received with outputs := (threadAt k p received).outputs.modify j f } =
      threadAt k p g := by
  simp only [threadAt, IoThr.mk.injEq, and_true]
  apply List.ext_getElem?
  intro i
  rw [List.getElem?_modify]
  by_cases hi : i < k
  · by_cases hij : j = i
    · subst hij
      simp [hi, hf]
    · simp [hi, hij, hg i (Ne.symm hij)]
  · simp [hi]

theorem ioWrite_eq (hround : round.Proceeds) (hj : j < k) (msg : M) :
    ioWrite ⟨n, 0, mode, true⟩ round (threadAt k p received) j msg =
      .ok (.success, [.wrote j msg],
        threadAt k p fun i => received i + if j = i then 1 else 0) := by
  simp only [ioWrite, threadAt_outputs hj, hround.write, ne_eq, not_true_eq_false, if_false,
    Bool.true_eq_false]
  rw [threadAt_modify _ (fun i => received i + if j = i then 1 else 0)]
  · simp
  · intro i hi
    simp [Ne.symm hi]

theorem writeEach_eq (dup : M → M) (hround : round.Proceeds) (msg : M) {js : List Nat}
    (hjs : ∀ j ∈ js, j < k) :
    writeEach ⟨n, 0, mode, true⟩ dup round msg js (threadAt k p received) =
      .ok (.success, js.map fun j => .wrote j (dup msg),
        threadAt k p fun i => received i + js.count i) := by
  induction js generalizing received with
  | nil => rfl
  | cons j js ih =>
      rw [writeEach, ioWrite_eq hround (hjs j (by simp))]
      simp only [ne_eq, not_true_eq_false, if_false]
      rw [ih fun i hi => hjs i (by simp [hi])]
      simp only [Except.map, List.map_cons, List.singleton_append, Except.ok.injEq,
        Prod.mk.injEq, true_and]
      apply threadAt_congr
      intro i _
      rw [List.count_cons]
      simp only [beq_iff_eq]
      omega

theorem ioWriteMirrored_eq (dup : M → M) (hround : round.Proceeds) (msg : M) :
    ioWriteMirrored ⟨n, 0, mode, true⟩ dup round (threadAt k p received) msg =
      .ok (.success, writes k (dup msg), threadAt k p fun i => received i + 1) := by
  have hlen : (threadAt k p received).outputs.length = k := by simp [threadAt]
  rw [ioWriteMirrored, hlen, writeEach_eq dup hround msg fun j hj => List.mem_range.mp hj]
  simp only [writes, Except.ok.injEq, Prod.mk.injEq, true_and]
  apply threadAt_congr
  intro i hi
  rw [List.nodup_range.count, if_pos (List.mem_range.mpr hi)]

theorem checkCloseEvent_eq (hn : 0 < n) (hround : round.Proceeds) (hj : j < k) :
    checkCloseEvent ⟨n, 0, mode, true⟩ round (threadAt k p received) j =
      .ok (.success, closes n (received j) j, threadAt k p received) := by
  have hreopen : { threadAt k p received with
      outputs := (threadAt k p received).outputs.modify j fun out =>
        { out with isOpen := true } } = threadAt k p received :=
    threadAt_modify _ received rfl fun _ _ => rfl
  simp only [checkCloseEvent, threadAt_outputs hj, closeEvent, hround.reopens, if_true, hreopen]
  by_cases hdue : 0 < received j ∧ n ∣ received j
  · have hcount : n > 0 ∧ received j > 0 ∧ received j % n = 0 :=
      ⟨hn, hdue.1, Nat.mod_eq_zero_of_dvd hdue.2⟩
    simp [hcount, closes, hdue]
  · have hcount : ¬ (n > 0 ∧ received j > 0 ∧ received j % n = 0) := fun h =>
      hdue ⟨h.2.1, Nat.dvd_of_mod_eq_zero h.2.2⟩
    rw [if_neg hcount]
    simp [closes, hdue]

end Thread

/-! ### Counting -/

section Count

/-- Payloads that output `j` of `k` has received after `m` messages. -/
def received (mode : IoOutputMode) (k m j : Nat) : Nat :=
  match mode with
  | .stripe => m / k + if j < m % k then 1 else 0
  | .mirror => m

theorem succ_mod_eq (hk : 0 < k) (m : Nat) :
    (m + 1) % k = if m % k + 1 < k then m % k + 1 else 0 := by
  have hlt := Nat.mod_lt m hk
  rw [Nat.add_mod m 1 k]
  by_cases hlast : m % k + 1 < k
  · rw [if_pos hlast, Nat.mod_eq_of_lt (by omega : 1 < k), Nat.mod_eq_of_lt hlast]
  · have heq : m % k + 1 = k := by omega
    rw [if_neg hlast]
    by_cases hone : k = 1
    · rw [hone, Nat.mod_one]
    · rw [Nat.mod_eq_of_lt (by omega : 1 < k), heq, Nat.mod_self]

theorem succ_div_eq (hk : 0 < k) (m : Nat) :
    (m + 1) / k = if m % k + 1 < k then m / k else m / k + 1 := by
  have hdiv := Nat.div_add_mod m k
  have hdiv' := Nat.div_add_mod (m + 1) k
  rw [succ_mod_eq hk] at hdiv'
  apply Nat.eq_of_mul_eq_mul_left hk
  by_cases hlast : m % k + 1 < k
  · rw [if_pos hlast] at hdiv' ⊢
    omega
  · have hlt := Nat.mod_lt m hk
    rw [if_neg hlast] at hdiv' ⊢
    rw [Nat.mul_add, Nat.mul_one]
    omega

theorem received_stripe_succ (hk : 0 < k) {j : Nat} (hj : j < k) :
    received .stripe k (m + 1) j = received .stripe k m j + if m % k = j then 1 else 0 := by
  have hlt := Nat.mod_lt m hk
  simp only [received, succ_mod_eq hk, succ_div_eq hk]
  by_cases hlast : m % k + 1 < k
  · rw [if_pos hlast, if_pos hlast]
    split_ifs <;> omega
  · rw [if_neg hlast, if_neg hlast, if_neg (Nat.not_lt_zero j)]
    split_ifs <;> omega

theorem received_stripe_turn : received .stripe k m (m % k) = m / k := by
  simp [received]

end Count

/-! ### A run -/

/-- What reading a message does to the outputs, behind `m` messages. -/
def messageActions (mode : IoOutputMode) (n k m : Nat) (msg : M) : List (IoAction M) :=
  (match mode with
    | .stripe => [.wrote (m % k) msg]
    | .mirror => writes k msg) ++
  closes n (received mode k (m + 1) (m % k)) (m % k)

section Run

variable {mode : IoOutputMode} {dup : M → M}

variable (mode dup) in
theorem ioThrInput_again (hn : 0 < n) (hk : 0 < k) (hround : round.Proceeds)
    (hread : round.read = .again) :
    ioThrInput ⟨n, 0, mode, true⟩ dup round (threadAt k (m % k) (received mode k m)) =
      .ok (closes n (received mode k m (m % k)) (m % k),
        threadAt k (m % k) (received mode k m)) := by
  simp only [ioThrInput, threadAt_running, Bool.true_eq_false, if_false, hread, if_true,
    threadAt_ioOutput, checkCloseEvent_eq hn hround (Nat.mod_lt m hk)]
  rfl

variable (mode dup) in
theorem ioThrInput_message (hn : 0 < n) (hk : 0 < k) (hround : round.Proceeds)
    (hread : round.read ≠ .again) :
    ∃ msg, ioThrInput ⟨n, 0, mode, true⟩ dup round (threadAt k (m % k) (received mode k m)) =
      .ok (messageActions mode n k m msg,
        threadAt k ((m + 1) % k) (received mode k (m + 1))) := by
  have hturn := Nat.mod_lt m hk
  obtain ⟨hsuccess, hmsg⟩ := hround.read.resolve_left hread
  obtain ⟨msg, hmsg⟩ := Option.ne_none_iff_exists'.mp hmsg
  have hnext : ∀ counts, nextOutput (threadAt k (m % k) counts) =
      threadAt k ((m + 1) % k) counts := by
    intro counts
    simp [nextOutput, threadAt, succ_mod_eq hk]
  cases mode with
  | stripe =>
      have hcounts : ∀ p, threadAt k p
            (fun i => received .stripe k m i + if m % k = i then 1 else 0) =
          threadAt k p (received .stripe k (m + 1)) :=
        fun p => threadAt_congr fun i hi => (received_stripe_succ hk hi).symm
      refine ⟨msg, ?_⟩
      simp only [ioThrInput, threadAt_running, Bool.true_eq_false, if_false, hsuccess,
        reduceCtorEq, ne_eq, not_true_eq_false, hmsg, threadAt_ioOutput,
        ioWrite_eq hround hturn, hcounts, checkCloseEvent_eq hn hround hturn, threadAt_stop, hnext]
      rfl
  | mirror =>
      refine ⟨dup msg, ?_⟩
      simp only [ioThrInput, threadAt_running, Bool.true_eq_false, if_false, hsuccess,
        reduceCtorEq, ne_eq, not_true_eq_false, hmsg, threadAt_ioOutput,
        ioWriteMirrored_eq dup hround, checkCloseEvent_eq hn hround hturn, threadAt_stop, hnext]
      rfl

end Run

/-! ### Exactness, round by round -/

/-- Payloads since the last close event while rotation is exact. In mirror mode, behind a multiple
of `n` messages, the output that was checked last and, after an empty read, the one whose turn it is
were closed, and the others are full. -/
def exactSince (mode : IoOutputMode) (n k : Nat) (rounds : List (IoRound M)) (j : Nat) : Nat :=
  let m := messagesRead rounds
  match mode with
  | .stripe => received .stripe k m j % n
  | .mirror =>
      if 0 < m ∧ n ∣ m then
        if j = (m - 1) % k ∨ (j = m % k ∧ 0 < idleReads rounds) then 0 else n
      else m % n

/-- Rotation is exact as long as nothing happened that must not, and then the payloads since the
last close event are known. -/
structure RotationTracks (mode : IoOutputMode) (n k : Nat) (rounds : List (IoRound M))
    (log : List (IoAction M)) : Prop where
  exact_iff : RotatesExactly n log ↔ EachAfter (RotatesAt mode n k) rounds
  since : RotatesExactly n log → ∀ j < k, sinceClose j log = exactSince mode n k rounds j

section RotationTracks

theorem messagesRead_again (hread : round.read = .again) :
    messagesRead (rounds ++ [round]) = messagesRead rounds := by
  simp [messagesRead, hread]

theorem messagesRead_message (hread : round.read ≠ .again) :
    messagesRead (rounds ++ [round]) = messagesRead rounds + 1 := by
  simp [messagesRead, hread]

theorem idleReads_again (hread : round.read = .again) :
    idleReads (rounds ++ [round]) = idleReads rounds + 1 := by
  simp [idleReads, hread]

theorem idleReads_message (hread : round.read ≠ .again) : idleReads (rounds ++ [round]) = 0 := by
  simp [idleReads, hread]

/-- A counter moves on by one, to a multiple of `n` or not. -/
theorem succ_mod_of_dvd (hn : 0 < n) {c : Nat} (h : n ∣ c + 1) : c % n + 1 = n := by
  have hmod := succ_mod_eq hn c
  rw [Nat.mod_eq_zero_of_dvd h] at hmod
  have hlt := Nat.mod_lt c hn
  split_ifs at hmod
  omega

theorem succ_mod_of_not_dvd (hn : 0 < n) {c : Nat} (h : ¬ n ∣ c + 1) :
    (c + 1) % n = c % n + 1 := by
  have hmod := succ_mod_eq hn c
  split_ifs at hmod with hlast
  · exact hmod
  · exact absurd (Nat.dvd_of_mod_eq_zero hmod) h

theorem RotationTracks.stripe_again (hn : 0 < n) (hk : 0 < k) (h : RotationTracks .stripe n k rounds log)
    (hread : round.read = .again) (hm : messagesRead rounds = m) :
    RotationTracks .stripe n k (rounds ++ [round])
      (log ++ closes n (received .stripe k m (m % k)) (m % k)) := by
  have hturn : RotatesExactly n log → sinceClose (m % k) log = m / k % n := by
    intro hexact
    rw [h.since hexact _ (Nat.mod_lt m hk), exactSince, hm, received_stripe_turn]
  have hiff : RotatesExactly n log → ((0 < m / k ∧ n ∣ m / k → sinceClose (m % k) log = n) ↔
      RotatesAt .stripe n k rounds round) := by
    intro hexact
    simp only [RotatesAt, hm, hread, true_imp_iff, hturn hexact]
    refine ⟨fun hdue hclose => ?_, fun hclose hdue => absurd hdue hclose⟩
    have hfull := hdue hclose
    rw [Nat.mod_eq_zero_of_dvd hclose.2] at hfull
    omega
  rw [received_stripe_turn]
  constructor
  · rw [rotatesExactly_closes, eachAfter_concat, ← h.exact_iff]
    exact and_congr_right hiff
  · intro hexact j hj
    obtain ⟨hexact, hdue⟩ := (rotatesExactly_closes _ _).mp hexact
    have hclose : ¬ (0 < m / k ∧ n ∣ m / k) := by
      simpa only [RotatesAt, hm, hread, true_imp_iff] using (hiff hexact).mp hdue
    rw [sinceClose_closes, if_neg fun hc => hclose hc.1, h.since hexact j hj, exactSince,
      exactSince, messagesRead_again hread]

theorem RotationTracks.stripe_message (hn : 0 < n) (hk : 0 < k) (h : RotationTracks .stripe n k rounds log)
    (hread : round.read ≠ .again) (hm : messagesRead rounds = m) (msg : M) :
    RotationTracks .stripe n k (rounds ++ [round])
      (log ++ ([.wrote (m % k) msg] ++
        closes n (received .stripe k (m + 1) (m % k)) (m % k))) := by
  have hturn := Nat.mod_lt m hk
  have hcount : received .stripe k (m + 1) (m % k) = m / k + 1 := by
    rw [received_stripe_succ hk hturn, received_stripe_turn, if_pos rfl]
  have hsince : RotatesExactly n log → sinceClose (m % k) log = m / k % n := by
    intro hexact
    rw [h.since hexact _ hturn, exactSince, hm, received_stripe_turn]
  rw [hcount, ← List.append_assoc]
  constructor
  · rw [rotatesExactly_closes, rotatesExactly_wrote, eachAfter_concat, ← h.exact_iff, and_assoc]
    refine and_congr_right fun hexact => ⟨fun _ hagain => absurd hagain hread, fun _ => ?_⟩
    rw [sinceClose_wrote, if_pos rfl, hsince hexact]
    exact ⟨Nat.mod_lt _ hn, fun hdue => succ_mod_of_dvd hn hdue.2⟩
  · intro hexact j hj
    rw [rotatesExactly_closes, rotatesExactly_wrote] at hexact
    obtain ⟨⟨hexact, -⟩, -⟩ := hexact
    rw [sinceClose_closes, sinceClose_wrote, h.since hexact j hj, exactSince, exactSince,
      messagesRead_message hread, hm, received_stripe_succ hk hj]
    by_cases hj' : m % k = j
    · subst hj'
      rw [received_stripe_turn, if_pos rfl]
      by_cases hdue : n ∣ m / k + 1
      · rw [if_pos ⟨⟨Nat.succ_pos _, hdue⟩, rfl⟩, Nat.mod_eq_zero_of_dvd hdue]
      · rw [if_neg fun hc => hdue hc.1.2, succ_mod_of_not_dvd hn hdue]
    · rw [if_neg hj', if_neg fun hc => hj' hc.2, Nat.add_zero, Nat.add_zero]

/-- The output whose turn it is was checked last only if there is no other. -/
theorem turn_eq_iff (hk : 0 < k) (hm : 0 < m) : m % k = (m - 1) % k ↔ k = 1 := by
  have hsucc := succ_mod_eq hk (m - 1)
  rw [Nat.sub_add_cancel hm] at hsucc
  constructor
  · intro heq
    rw [heq] at hsucc
    split_ifs at hsucc with hlast
    · omega
    · omega
  · rintro rfl
    rw [Nat.mod_one, Nat.mod_one]

theorem RotationTracks.mirror_again (hn : 0 < n) (hk : 0 < k) (h : RotationTracks .mirror n k rounds log)
    (hread : round.read = .again) (hm : messagesRead rounds = m) :
    RotationTracks .mirror n k (rounds ++ [round])
      (log ++ closes n (received .mirror k m (m % k)) (m % k)) := by
  have hiff : RotatesExactly n log → ((0 < m ∧ n ∣ m → sinceClose (m % k) log = n) ↔
      RotatesAt .mirror n k rounds round) := by
    intro hexact
    simp only [RotatesAt, hm, hread, if_true, h.since hexact _ (Nat.mod_lt m hk), exactSince]
    rw [← and_imp]
    refine imp_congr_right fun hfull => ?_
    have hlast := turn_eq_iff hk hfull.1
    simp only [if_pos hfull, true_and]
    split_ifs with hclosed
    · omega
    · omega
  constructor
  · rw [rotatesExactly_closes, eachAfter_concat, ← h.exact_iff]
    exact and_congr_right hiff
  · intro hexact j hj
    obtain ⟨hexact, hdue⟩ := (rotatesExactly_closes _ _).mp hexact
    have hat := (hiff hexact).mp hdue
    simp only [RotatesAt, hm, hread, if_true] at hat
    rw [sinceClose_closes, h.since hexact j hj, exactSince, exactSince, messagesRead_again hread,
      idleReads_again hread, hm]
    simp only [received]
    by_cases hfull : 0 < m ∧ n ∣ m
    · obtain ⟨-, hidle⟩ := hat hfull.1 hfull.2
      simp only [hfull, and_self, true_and, if_true, hidle]
      by_cases hj' : j = m % k
      · simp [hj']
      · simp [hj', Ne.symm hj']
    · simp only [hfull, false_and, if_false]

/-- Every output has room after a multiple of `n` messages exactly if every output was closed. -/
theorem all_closed_iff (hk : 0 < k) (hm : 0 < m) (idle : Nat) :
    (∀ j < k, j = (m - 1) % k ∨ (j = m % k ∧ 0 < idle)) ↔ k = 1 ∨ (k = 2 ∧ 0 < idle) := by
  constructor
  · intro hall
    by_contra hne
    have hzero := hall 0 hk
    have hone := hall 1 (by omega)
    by_cases hidle : 0 < idle
    · have htwo := hall 2 (by omega)
      omega
    · omega
  · rintro (rfl | ⟨rfl, hidle⟩) j hj
    · exact Or.inl (by rw [Nat.mod_one]; omega)
    · omega

theorem RotationTracks.mirror_message (hn : 0 < n) (hk : 0 < k) (h : RotationTracks .mirror n k rounds log)
    (hread : round.read ≠ .again) (hm : messagesRead rounds = m) (msg : M) :
    RotationTracks .mirror n k (rounds ++ [round])
      (log ++ (writes k msg ++ closes n (received .mirror k (m + 1) (m % k)) (m % k))) := by
  have hturn := Nat.mod_lt m hk
  have hroom : RotatesExactly n log → ((∀ j < k, sinceClose j log < n) ↔
      RotatesAt .mirror n k rounds round) := by
    intro hexact
    simp only [RotatesAt, hm, hread, if_false]
    rw [← and_imp]
    by_cases hfull : 0 < m ∧ n ∣ m
    · rw [← all_closed_iff hk hfull.1 (idleReads rounds), imp_iff_right hfull]
      refine forall₂_congr fun j hj => ?_
      rw [h.since hexact j hj, exactSince, hm]
      simp only [hfull, and_self, if_true]
      split_ifs with hclosed
      · exact iff_of_true hn hclosed
      · exact iff_of_false (Nat.lt_irrefl n) hclosed
    · refine iff_of_true (fun j hj => ?_) (fun hc => absurd hc hfull)
      rw [h.since hexact j hj, exactSince, hm]
      simp only [hfull, if_false]
      exact Nat.mod_lt m hn
  -- an output that has room received as many payloads as the remainder says
  have hsince : RotatesExactly n log → ∀ j < k, sinceClose j log < n →
      sinceClose j log = m % n := by
    intro hexact j hj hlt
    rw [h.since hexact j hj, exactSince, hm] at hlt ⊢
    by_cases hfull : 0 < m ∧ n ∣ m
    · simp only [if_pos hfull] at hlt ⊢
      split_ifs at hlt ⊢
      · rw [Nat.mod_eq_zero_of_dvd hfull.2]
      · omega
    · simp only [if_neg hfull]
  rw [← List.append_assoc]
  constructor
  · rw [rotatesExactly_closes, rotatesExactly_writes, eachAfter_concat, ← h.exact_iff, and_assoc]
    refine and_congr_right fun hexact => ?_
    rw [← hroom hexact]
    refine and_iff_left_of_imp fun hall hdue => ?_
    rw [sinceClose_writes, if_pos hturn, hsince hexact _ hturn (hall _ hturn)]
    exact succ_mod_of_dvd hn hdue.2
  · intro hexact j hj
    rw [rotatesExactly_closes, rotatesExactly_writes] at hexact
    obtain ⟨⟨hexact, hall⟩, -⟩ := hexact
    rw [sinceClose_closes, sinceClose_writes, if_pos hj, hsince hexact j hj (hall j hj),
      exactSince, messagesRead_message hread, idleReads_message hread, hm]
    simp only [received, Nat.succ_pos, true_and, Nat.add_sub_cancel, Nat.lt_irrefl, and_false,
      or_false]
    by_cases hdue : n ∣ m + 1
    · simp only [hdue, true_and, if_true, eq_comm, succ_mod_of_dvd hn hdue]
    · simp only [hdue, false_and, if_false, succ_mod_of_not_dvd hn hdue]

end RotationTracks

/-! ### The result -/

section Result

variable {mode : IoOutputMode} {dup : M → M}

theorem tracks_nil : RotationTracks mode n k ([] : List (IoRound M)) [] := by
  constructor
  · exact iff_of_true eachAfter_nil eachAfter_nil
  · intro _ j _
    cases mode with
    | stripe => simp [exactSince, messagesRead, received, sinceClose]
    | mirror => simp [exactSince, messagesRead, sinceClose]

variable (mode) in
theorem threadAt_start (hk : 0 < k) :
    IoThr.start k = threadAt k (0 % k) (received mode k 0) := by
  have hne : k ≠ 0 := by omega
  have hzero : ∀ j, received mode k 0 j = 0 := by
    intro j
    cases mode <;> simp [received]
  simp [IoThr.start, threadAt, hne, hzero, List.map_const']

variable (mode dup) in
/-- A run, and what is known behind it. -/
theorem run_tracks (hn : 0 < n) (hk : 0 < k) (hrounds : ∀ round ∈ rounds, round.Proceeds) :
    ∃ log, StepRun.run (fun s round => ioThrInput ⟨n, 0, mode, true⟩ dup round s)
        (IoThr.start k) rounds =
        .ok (log, threadAt k (messagesRead rounds % k) (received mode k (messagesRead rounds))) ∧
      RotationTracks mode n k rounds log.flatten := by
  induction rounds using List.reverseRecOn with
  | nil =>
      refine ⟨[], ?_, tracks_nil⟩
      rw [StepRun.run_nil, threadAt_start mode hk]
      rfl
  | append_singleton rounds round ih =>
      obtain ⟨log, hrun, htracks⟩ := ih fun r hr => hrounds r (by simp [hr])
      have hround := hrounds round (by simp)
      by_cases hread : round.read = .again
      · have hstep := ioThrInput_again mode dup (m := messagesRead rounds)
          hn hk hround hread
        refine ⟨log ++ [closes n (received mode k (messagesRead rounds) (messagesRead rounds % k))
          (messagesRead rounds % k)], ?_, ?_⟩
        · rw [messagesRead_again hread]
          exact StepRun.run_append hrun (StepRun.run_cons_eq_ok.mpr ⟨_, _, [], hstep, rfl, rfl⟩)
        · rw [List.flatten_append, List.flatten_singleton]
          cases mode with
          | stripe => exact htracks.stripe_again hn hk hread rfl
          | mirror => exact htracks.mirror_again hn hk hread rfl
      · obtain ⟨msg, hstep⟩ := ioThrInput_message mode dup
          (m := messagesRead rounds) hn hk hround hread
        refine ⟨log ++ [messageActions mode n k (messagesRead rounds) msg], ?_, ?_⟩
        · rw [messagesRead_message hread]
          exact StepRun.run_append hrun (StepRun.run_cons_eq_ok.mpr ⟨_, _, [], hstep, rfl, rfl⟩)
        · rw [List.flatten_append, List.flatten_singleton]
          cases mode with
          | stripe => exact htracks.stripe_message hn hk hread rfl msg
          | mirror => exact htracks.mirror_message hn hk hread rfl msg

end Result

/-- **Rotation by count.** A thread that proceeds rotates its outputs exactly if, in stripe mode, no
read comes back empty while the output whose turn it is has received a positive multiple of `n`
payloads, and if, in mirror mode, after every positive multiple of `n` messages there is no empty
read with one output, one empty read before the next message with two, and with more than two no
next message and at most one empty read. -/
theorem rotation_exact_iff (dup : M → M) (mode : IoOutputMode) (n : Nat) (hn : 0 < n) (k : Nat)
    (hk : 0 < k) (rounds : List (IoRound M)) (hrounds : ∀ round ∈ rounds, round.Proceeds) :
    ∃ log s, StepRun.run (fun s round => ioThrInput ⟨n, 0, mode, true⟩ dup round s)
        (IoThr.start k) rounds = .ok (log, s) ∧
      (RotatesExactly n log.flatten ↔ EachAfter (RotatesAt mode n k) rounds) := by
  obtain ⟨log, hrun, htracks⟩ := run_tracks mode dup hn hk hrounds
  exact ⟨log, _, hrun, htracks.exact_iff⟩

/-- A round that delivers a message, or none. -/
def sampleRound (msg : Option Nat) : IoRound Nat where
  now := 0
  read := if msg = none then .again else .success
  msg := msg
  write := fun _ => .success
  reopens := fun _ _ => true

theorem sampleRound_proceeds (msg : Option Nat) : (sampleRound msg).Proceeds where
  read := by
    cases msg with
    | none => exact Or.inl rfl
    | some msg => exact Or.inr ⟨rfl, by simp [sampleRound]⟩
  write := fun _ => rfl
  reopens := fun _ _ => rfl

theorem rotation_exact_sample :
    ∃ log s, StepRun.run (fun s round => ioThrInput ⟨2, 0, .stripe, true⟩ id round s)
        (IoThr.start 1) [sampleRound (some 7), sampleRound none] = .ok (log, s) ∧
      (RotatesExactly 2 log.flatten ↔
        EachAfter (RotatesAt .stripe 2 1) [sampleRound (some 7), sampleRound none]) := by
  apply rotation_exact_iff id .stripe 2 (by decide) 1 (by decide)
  intro round hround
  simp only [List.mem_cons, List.not_mem_nil, or_false] at hround
  rcases hround with rfl | rfl
  · exact sampleRound_proceeds (some 7)
  · exact sampleRound_proceeds none

/-- **An empty read closes again.** The output was closed when it had received its payload, and the
empty read behind it closes it once more, with nothing received in between. -/
theorem idle_read_closes_again :
    ∃ log s, StepRun.run (fun s round => ioThrInput ⟨1, 0, .stripe, true⟩ id round s)
        (IoThr.start 1) [sampleRound (some 7), sampleRound none] = .ok (log, s) ∧
      log.flatten = [.wrote 0 7, .closed 0 .count, .closed 0 .count] ∧
      ¬ RotatesExactly 1 log.flatten := by
  refine ⟨[[.wrote 0 7, .closed 0 .count], [.closed 0 .count]], _, rfl, rfl, ?_⟩
  intro h
  have hsince := h [.wrote 0 7, .closed 0 .count] (.closed 0 .count) [] rfl
  revert hsince
  decide

end Nmsg

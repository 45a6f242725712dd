import Mathlib.Data.List.Basic

/-!
# Runs of a machine that may abort

A machine answers each input with an output and a new state, or aborts. `run` feeds it a list of
inputs and collects the answers. The rules below turn what one step does into what a whole run
does: `Safe` says that a run never aborts and that an invariant holds in every state it reaches,
`Along` that every input finds the machine in a state it is allowed in.
-/

namespace StepRun

variable {ε σ ι ρ : Type*} (step : σ → ι → Except ε (ρ × σ))

/-- The answers to a list of inputs and the state after them. -/
def run : σ → List ι → Except ε (List ρ × σ)
  | s, [] => .ok ([], s)
  | s, i :: rest =>
      match step s i with
      | .error e => .error e
      | .ok (r, s') =>
          match run s' rest with
          | .error e => .error e
          | .ok (rs, s'') => .ok (r :: rs, s'')

/-- Every input of the list meets `P` in the state it finds. -/
def Along (P : σ → ι → Prop) : σ → List ι → Prop
  | _, [] => True
  | s, i :: rest => P s i ∧ ∀ r s', step s i = .ok (r, s') → Along P s' rest

/-- The run does not abort and `Inv` holds before and after every step of it. -/
def Safe (Inv : σ → Prop) : σ → List ι → Prop
  | s, [] => Inv s
  | s, i :: rest => Inv s ∧ ∃ r s', step s i = .ok (r, s') ∧ Safe Inv s' rest

variable {step}

@[simp]
theorem run_nil (s : σ) : run step s [] = .ok ([], s) := rfl

theorem run_cons (s : σ) (i : ι) (rest : List ι) :
    run step s (i :: rest) =
      match step s i with
      | .error e => .error e
      | .ok (r, s') =>
          match run step s' rest with
          | .error e => .error e
          | .ok (rs, s'') => .ok (r :: rs, s'') := rfl

theorem run_cons_of_ok {s s' : σ} {i : ι} {rest : List ι} {r : ρ}
    (h : step s i = .ok (r, s')) :
    run step s (i :: rest) = (run step s' rest).map (fun out => (r :: out.1, out.2)) := by
  simp only [run_cons, h]
  cases run step s' rest <;> rfl

theorem run_cons_eq_ok {s s'' : σ} {i : ι} {rest : List ι} {out : List ρ} :
    run step s (i :: rest) = .ok (out, s'') ↔
      ∃ r s' rs, step s i = .ok (r, s') ∧ run step s' rest = .ok (rs, s'') ∧ out = r :: rs := by
  constructor
  · intro h
    cases hstep : step s i with
    | error e =>
        rw [run_cons, hstep] at h
        cases h
    | ok first =>
        obtain ⟨r, s'⟩ := first
        rw [run_cons_of_ok hstep] at h
        cases hrest : run step s' rest with
        | error e => simp [hrest, Except.map] at h
        | ok tail =>
            obtain ⟨rs, t⟩ := tail
            simp only [hrest, Except.map, Except.ok.injEq, Prod.mk.injEq] at h
            exact ⟨r, s', rs, rfl, h.2 ▸ hrest, h.1.symm⟩
  · rintro ⟨r, s', rs, hstep, hrest, rfl⟩
    rw [run_cons_of_ok hstep, hrest]
    rfl

theorem run_append {s s' s'' : σ} {is js : List ι} {rs ts : List ρ}
    (hfirst : run step s is = .ok (rs, s')) (hsecond : run step s' js = .ok (ts, s'')) :
    run step s (is ++ js) = .ok (rs ++ ts, s'') := by
  induction is generalizing s rs with
  | nil =>
      simp only [run_nil, Except.ok.injEq, Prod.mk.injEq] at hfirst
      obtain ⟨rfl, rfl⟩ := hfirst
      exact hsecond
  | cons i is ih =>
      obtain ⟨r, t, rs', hstep, hrest, rfl⟩ := run_cons_eq_ok.mp hfirst
      exact run_cons_eq_ok.mpr ⟨r, t, rs' ++ ts, hstep, ih hrest, rfl⟩

theorem run_append_eq_ok {s s'' : σ} {is js : List ι} {out : List ρ} :
    run step s (is ++ js) = .ok (out, s'') ↔
      ∃ s' rs ts, run step s is = .ok (rs, s') ∧ run step s' js = .ok (ts, s'') ∧
        out = rs ++ ts := by
  constructor
  · intro h
    induction is generalizing s out with
    | nil => exact ⟨s, [], out, rfl, h, rfl⟩
    | cons i is ih =>
        obtain ⟨r, t, rs', hstep, hrest, rfl⟩ := run_cons_eq_ok.mp h
        obtain ⟨s', rs, ts, hleft, hright, rfl⟩ := ih hrest
        exact ⟨s', r :: rs, ts, run_cons_eq_ok.mpr ⟨r, t, rs, hstep, hleft, rfl⟩, hright, rfl⟩
  · rintro ⟨s', rs, ts, hleft, hright, rfl⟩
    exact run_append hleft hright

/-- A run goes on from where its first inputs lead. -/
theorem run_append_of_ok {s s' : σ} {is js : List ι} {rs : List ρ}
    (h : run step s is = .ok (rs, s')) :
    run step s (is ++ js) = (run step s' js).map fun out => (rs ++ out.1, out.2) := by
  induction is generalizing s rs with
  | nil =>
      cases h
      rw [List.nil_append]
      cases hjs : run step s' js with
      | error e => rfl
      | ok out => rfl
  | cons i is ih =>
      obtain ⟨r, t, rs', hstep, hrest, rfl⟩ := run_cons_eq_ok.mp h
      rw [List.cons_append, run_cons_of_ok hstep, ih hrest]
      cases run step s' js <;> rfl

theorem run_singleton (s : σ) (i : ι) :
    run step s [i] = (step s i).map fun out => ([out.1], out.2) := by
  rw [run_cons]
  cases step s i <;> rfl

/-- Inputs that are made from others. -/
theorem run_comp {κ : Type*} (g : κ → ι) (s : σ) (is : List κ) :
    run (fun s i => step s (g i)) s is = run step s (is.map g) := by
  induction is generalizing s with
  | nil => rfl
  | cons i rest ih =>
      rw [List.map_cons, run_cons, run_cons]
      cases step s (g i) with
      | error e => rfl
      | ok out => simp only [ih]

/-- The first inputs are answered as they are alone. -/
theorem run_take {s s' : σ} {is : List ι} {rs : List ρ} (h : run step s is = .ok (rs, s'))
    (m : Nat) : ∃ t, run step s (is.take m) = .ok (rs.take m, t) := by
  induction m generalizing s is rs with
  | zero => exact ⟨s, rfl⟩
  | succ m ih =>
      cases is with
      | nil =>
          simp only [run_nil, Except.ok.injEq, Prod.mk.injEq] at h
          obtain ⟨rfl, rfl⟩ := h
          exact ⟨s, rfl⟩
      | cons i rest =>
          obtain ⟨r, t, rs', hstep, hrest, rfl⟩ := run_cons_eq_ok.mp h
          obtain ⟨t', htake⟩ := ih hrest
          exact ⟨t', run_cons_eq_ok.mpr ⟨r, t, rs'.take m, hstep, htake, rfl⟩⟩

theorem length_of_run {s s' : σ} {is : List ι} {rs : List ρ}
    (h : run step s is = .ok (rs, s')) : rs.length = is.length := by
  induction is generalizing s rs with
  | nil =>
      simp only [run_nil, Except.ok.injEq, Prod.mk.injEq] at h
      simp [← h.1]
  | cons i is ih =>
      obtain ⟨r, t, rs', _, hrest, rfl⟩ := run_cons_eq_ok.mp h
      simp [ih hrest]

/-- **Invariant rule.** When every allowed input is answered and preserves the invariant, a run
all of whose inputs are allowed is safe. -/
theorem safe_of_along {P : σ → ι → Prop} {Inv : σ → Prop}
    (hstep : ∀ s i, Inv s → P s i → ∃ r s', step s i = .ok (r, s') ∧ Inv s')
    {s : σ} {is : List ι} (hinv : Inv s) (halong : Along step P s is) :
    Safe step Inv s is := by
  induction is generalizing s with
  | nil => exact hinv
  | cons i rest ih =>
      obtain ⟨r, s', hok, hinv'⟩ := hstep s i hinv halong.1
      exact ⟨hinv, r, s', hok, ih hinv' (halong.2 r s' hok)⟩

theorem Safe.mono {Inv Inv' : σ → Prop} (himp : ∀ s, Inv s → Inv' s) {s : σ} {is : List ι}
    (h : Safe step Inv s is) : Safe step Inv' s is := by
  induction is generalizing s with
  | nil => exact himp s h
  | cons i rest ih =>
      obtain ⟨hinv, r, t, hok, hrest⟩ := h
      exact ⟨himp s hinv, r, t, hok, ih hrest⟩

/-- An invariant that every step keeps holds in the last state of a run. -/
theorem run_invariant {Inv : σ → Prop}
    (hstep : ∀ s i r s', Inv s → step s i = .ok (r, s') → Inv s')
    {s s' : σ} {is : List ι} {rs : List ρ} (hinv : Inv s)
    (hrun : run step s is = .ok (rs, s')) : Inv s' := by
  induction is generalizing s rs with
  | nil =>
      simp only [run_nil, Except.ok.injEq, Prod.mk.injEq] at hrun
      exact hrun.2 ▸ hinv
  | cons i rest ih =>
      obtain ⟨r, t, rs', hok, hrest, rfl⟩ := run_cons_eq_ok.mp hrun
      exact ih (hstep s i r t hinv hok) hrest

/-- **Invariant rule with a history.** An invariant may speak of the inputs taken so far. -/
theorem run_history {P : σ → ι → Prop} {Inv : List ι → σ → Prop}
    (hstep : ∀ seen s i r s', Inv seen s → P s i → step s i = .ok (r, s') → Inv (seen ++ [i]) s')
    {seen : List ι} {s s' : σ} {is : List ι} {rs : List ρ} (hinv : Inv seen s)
    (halong : Along step P s is) (hrun : run step s is = .ok (rs, s')) :
    Inv (seen ++ is) s' := by
  induction is generalizing seen s rs with
  | nil =>
      simp only [run_nil, Except.ok.injEq, Prod.mk.injEq] at hrun
      rw [List.append_nil]
      exact hrun.2 ▸ hinv
  | cons i rest ih =>
      obtain ⟨r, t, rs', hok, hrest, rfl⟩ := run_cons_eq_ok.mp hrun
      have h := ih (hstep seen s i r t hinv halong.1 hok) (halong.2 r t hok) hrest
      rwa [List.append_assoc] at h

/-- **Invariant rule with a history**, for machines that need it in order to answer. -/
theorem answers_of_history {P : List ι → ι → Prop} (Inv : List ι → σ → Prop) (Q : ρ → Prop)
    (hstep : ∀ seen s i, Inv seen s → P seen i →
      ∃ r s', step s i = .ok (r, s') ∧ Q r ∧ Inv (seen ++ [i]) s')
    {seen : List ι} {s : σ} {is : List ι} (hinv : Inv seen s)
    (hinputs : ∀ front i rest, is = front ++ i :: rest → P (seen ++ front) i) :
    ∃ rs s', run step s is = .ok (rs, s') ∧ Inv (seen ++ is) s' ∧ ∀ r ∈ rs, Q r := by
  induction is generalizing seen s with
  | nil => exact ⟨[], s, rfl, by rwa [List.append_nil], fun _ h => (List.not_mem_nil h).elim⟩
  | cons i rest ih =>
      have hi := hinputs [] i rest rfl
      rw [List.append_nil] at hi
      obtain ⟨r, t, hok, hr, hinv'⟩ := hstep seen s i hinv hi
      have hrest : ∀ front j last, rest = front ++ j :: last → P (seen ++ [i] ++ front) j := by
        intro front j last hsplit
        rw [List.append_assoc]
        exact hinputs (i :: front) j last (by rw [hsplit]; rfl)
      obtain ⟨rs, s', hrun, hlast, hrs⟩ := ih hinv' hrest
      rw [List.append_assoc] at hlast
      exact ⟨r :: rs, s', run_cons_eq_ok.mpr ⟨r, t, rs, hok, hrun, rfl⟩, hlast,
        List.forall_mem_cons.mpr ⟨hr, hrs⟩⟩

/-- What holds of every answer that is given where an invariant holds. -/
theorem answers_of_invariant {P : ι → Prop} (Inv : σ → Prop) (Q : ρ → Prop)
    (hstep : ∀ s i, Inv s → P i → ∃ r s', step s i = .ok (r, s') ∧ Q r ∧ Inv s')
    {s : σ} {is : List ι} (hinv : Inv s) (hinputs : ∀ i ∈ is, P i) :
    ∃ rs s', run step s is = .ok (rs, s') ∧ Inv s' ∧ ∀ r ∈ rs, Q r := by
  induction is generalizing s with
  | nil => exact ⟨[], s, rfl, hinv, fun _ h => (List.not_mem_nil h).elim⟩
  | cons i rest ih =>
      obtain ⟨r, t, hok, hr, hinv'⟩ := hstep s i hinv (hinputs i (List.mem_cons_self ..))
      obtain ⟨rs, s', hrun, hlast, hrs⟩ :=
        ih hinv' fun j hj => hinputs j (List.mem_cons_of_mem _ hj)
      refine ⟨r :: rs, s', run_cons_eq_ok.mpr ⟨r, t, rs, hok, hrun, rfl⟩, hlast, ?_⟩
      intro r' hr'
      rcases List.mem_cons.mp hr' with rfl | hr'
      · exact hr
      · exact hrs r' hr'

/-- Every input of the list is answered, and `Q` holds of it, of the answer and of the states before
and after. -/
def Always (step : σ → ι → Except ε (ρ × σ)) (Q : σ → ι → ρ → σ → Prop) : σ → List ι → Prop
  | _, [] => True
  | s, i :: rest => ∃ r s', step s i = .ok (r, s') ∧ Q s i r s' ∧ Always step Q s' rest

theorem Always.mono {Q Q' : σ → ι → ρ → σ → Prop} (himp : ∀ s i r s', Q s i r s' → Q' s i r s')
    {s : σ} {is : List ι} (h : Always step Q s is) : Always step Q' s is := by
  induction is generalizing s with
  | nil => trivial
  | cons i rest ih =>
      obtain ⟨r, s', hok, hq, hrest⟩ := h
      exact ⟨r, s', hok, himp s i r s' hq, ih hrest⟩

/-- **Invariant rule for inputs in order.** What a state allows of the inputs to come, by `B`, is
kept for the inputs that may follow this one. -/
theorem always_of_ordered {P : ι → Prop} {R : ι → ι → Prop} {B : σ → ι → Prop}
    {Q : σ → ι → ρ → σ → Prop} (Inv : σ → Prop)
    (hstep : ∀ s i, Inv s → P i → B s i →
      ∃ r s', step s i = .ok (r, s') ∧ Q s i r s' ∧ Inv s' ∧ ∀ j, R i j → B s' j)
    {s : σ} {is : List ι} (hinv : Inv s) (hinputs : ∀ i ∈ is, P i) (horder : is.Pairwise R)
    (hallowed : ∀ i ∈ is, B s i) : Always step Q s is := by
  induction is generalizing s with
  | nil => trivial
  | cons i rest ih =>
      rw [List.pairwise_cons] at horder
      obtain ⟨r, s', hok, hq, hinv', hnext⟩ := hstep s i hinv (hinputs i (List.mem_cons_self ..))
        (hallowed i (List.mem_cons_self ..))
      exact ⟨r, s', hok, hq, ih hinv' (fun j hj => hinputs j (List.mem_cons_of_mem _ hj)) horder.2
        fun j hj => hnext j (horder.1 j hj)⟩

/-- What follows from an invariant holds wherever a run gets to. -/
theorem along_of_invariant {P : σ → ι → Prop} (Inv : σ → Prop)
    (hstep : ∀ s i r s', Inv s → step s i = .ok (r, s') → Inv s')
    (hP : ∀ s i, Inv s → P s i) {s : σ} {is : List ι} (hinv : Inv s) : Along step P s is := by
  induction is generalizing s with
  | nil => trivial
  | cons i rest ih => exact ⟨hP s i hinv, fun r t hok => ih (hstep s i r t hinv hok)⟩

/-- The state after one input; a machine that aborts stays where it is. -/
def next (step : σ → ι → Except ε (ρ × σ)) (s : σ) (i : ι) : σ :=
  match step s i with
  | .error _ => s
  | .ok (_, s') => s'

theorem next_of_ok {s s' : σ} {i : ι} {r : ρ} (h : step s i = .ok (r, s')) :
    next step s i = s' := by
  simp only [next, h]

theorem along_cons {P : σ → ι → Prop} {s : σ} {i : ι} {rest : List ι} (hallowed : P s i)
    (hrest : Along step P (next step s i) rest) : Along step P s (i :: rest) :=
  ⟨hallowed, fun _ _ hok => next_of_ok hok ▸ hrest⟩

/-- A condition on every step is met where the first inputs lead. -/
theorem Along.at {P : σ → ι → Prop} {s s' : σ} {front rest : List ι} {i : ι} {rs : List ρ}
    (h : Along step P s (front ++ i :: rest)) (hrun : run step s front = .ok (rs, s')) :
    P s' i := by
  induction front generalizing s rs with
  | nil =>
      simp only [run_nil, Except.ok.injEq, Prod.mk.injEq] at hrun
      exact hrun.2 ▸ h.1
  | cons j front ih =>
      obtain ⟨r, t, rs', hok, hrest, rfl⟩ := run_cons_eq_ok.mp hrun
      exact ih (h.2 r t hok) hrest

theorem along_of_inputs {Q : ι → Prop} {s : σ} {is : List ι} (hinputs : ∀ i ∈ is, Q i) :
    Along step (fun _ i => Q i) s is := by
  induction is generalizing s with
  | nil => trivial
  | cons i rest ih =>
      exact ⟨hinputs i (List.mem_cons_self ..), fun _ _ _ =>
        ih fun j hj => hinputs j (List.mem_cons_of_mem _ hj)⟩

/-- A condition on the inputs alone, met by every input of the list, joins one on the states. -/
theorem along_and {P : σ → ι → Prop} {Q : ι → Prop} {s : σ} {is : List ι}
    (hinputs : ∀ i ∈ is, Q i) (halong : Along step P s is) :
    Along step (fun s i => Q i ∧ P s i) s is := by
  induction is generalizing s with
  | nil => trivial
  | cons i rest ih =>
      exact ⟨⟨hinputs i (by simp), halong.1⟩, fun r t hok =>
        ih (fun j hj => hinputs j (by simp [hj])) (halong.2 r t hok)⟩

/-- What follows from an invariant, if the condition that keeps it is met all along. -/
theorem along_mono_of_kept {P Q : σ → ι → Prop} (Inv : σ → Prop)
    (hstep : ∀ s i r s', Inv s → P s i → step s i = .ok (r, s') → Inv s')
    (h : ∀ s i, Inv s → P s i → Q s i) {s : σ} {is : List ι} (hinv : Inv s)
    (halong : Along step P s is) : Along step Q s is := by
  induction is generalizing s with
  | nil => trivial
  | cons i rest ih =>
      exact ⟨h s i hinv halong.1, fun r t hok =>
        ih (hstep s i r t hinv halong.1 hok) (halong.2 r t hok)⟩

theorem along_mono_of_invariant {P Q : σ → ι → Prop} (Inv : σ → Prop)
    (hstep : ∀ s i r s', Inv s → step s i = .ok (r, s') → Inv s')
    (h : ∀ s i, Inv s → P s i → Q s i) {s : σ} {is : List ι} (hinv : Inv s)
    (halong : Along step P s is) : Along step Q s is :=
  along_mono_of_kept Inv (fun s i r s' hinv _ => hstep s i r s' hinv) h hinv halong

/-- In a run that does not abort only the steps that are answered count. -/
theorem along_mono_of_run {P Q : σ → ι → Prop} (Inv : σ → Prop)
    (hstep : ∀ s i r s', Inv s → step s i = .ok (r, s') → Inv s')
    (h : ∀ s i r s', Inv s → step s i = .ok (r, s') → P s i → Q s i) {s s' : σ} {is : List ι}
    {rs : List ρ} (hinv : Inv s) (hrun : run step s is = .ok (rs, s'))
    (halong : Along step P s is) : Along step Q s is := by
  induction is generalizing s rs with
  | nil => trivial
  | cons i rest ih =>
      obtain ⟨r, t, rs', hok, hrest, rfl⟩ := run_cons_eq_ok.mp hrun
      refine ⟨h s i r t hinv hok halong.1, fun r' t' hok' => ?_⟩
      rw [hok] at hok'
      cases hok'
      exact ih (hstep s i r t hinv hok) hrest (halong.2 r t hok)

theorem along_congr_of_invariant {P Q : σ → ι → Prop} (Inv : σ → Prop)
    (hstep : ∀ s i r s', Inv s → step s i = .ok (r, s') → Inv s')
    (h : ∀ s i, Inv s → (P s i ↔ Q s i)) {s : σ} {is : List ι} (hinv : Inv s) :
    Along step P s is ↔ Along step Q s is := by
  induction is generalizing s with
  | nil => exact Iff.rfl
  | cons i rest ih =>
      exact and_congr (h s i hinv) (forall₂_congr fun r t => forall_congr' fun hok =>
        ih (hstep s i r t hinv hok))

theorem along_congr {P Q : σ → ι → Prop} (h : ∀ s i, P s i ↔ Q s i) {s : σ} {is : List ι} :
    Along step P s is ↔ Along step Q s is :=
  along_congr_of_invariant (fun _ => True) (fun _ _ _ _ _ _ => trivial) (fun s i _ => h s i) trivial

/-- **Simulation rule.** When related states answer every allowed input alike and stay related, a
run of one machine is a run of the other, with the same answers. -/
theorem run_simulation {ε' τ : Type*} {spec : τ → ι → Except ε' (ρ × τ)} {R : σ → τ → Prop}
    {P : σ → ι → Prop}
    (hstep : ∀ s q i, R s q → P s i →
      ∃ r s' q', step s i = .ok (r, s') ∧ spec q i = .ok (r, q') ∧ R s' q')
    {s : σ} {q : τ} {is : List ι} (hrel : R s q) (halong : Along step P s is) :
    ∃ rs s' q', run step s is = .ok (rs, s') ∧ run spec q is = .ok (rs, q') ∧ R s' q' := by
  induction is generalizing s q with
  | nil => exact ⟨[], s, q, rfl, rfl, hrel⟩
  | cons i rest ih =>
      obtain ⟨r, t, u, hok, hspec, hrel'⟩ := hstep s q i hrel halong.1
      obtain ⟨rs, s', q', hrun, hrun', hlast⟩ := ih hrel' (halong.2 r t hok)
      exact ⟨r :: rs, s', q', run_cons_eq_ok.mpr ⟨r, t, rs, hok, hrun, rfl⟩,
        run_cons_eq_ok.mpr ⟨r, u, rs, hspec, hrun', rfl⟩, hlast⟩

/-- **Forward simulation.** When what one machine does in a step the other does as well, with the
same answer, so it is for what always holds. -/
theorem Always.simulation {τ : Type*} {step' : τ → ι → Except ε (ρ × τ)} {R : τ → σ → Prop}
    {Q : σ → ι → ρ → σ → Prop}
    (hstep : ∀ q s i r s', R q s → step s i = .ok (r, s') →
      ∃ q', step' q i = .ok (r, q') ∧ R q' s')
    {q : τ} {s : σ} {is : List ι} (hrel : R q s) (h : Always step Q s is) :
    Always step' (fun q i r q' => ∃ s s', R q s ∧ R q' s' ∧ Q s i r s') q is := by
  induction is generalizing q s with
  | nil => trivial
  | cons i rest ih =>
      obtain ⟨r, s', hok, hq, hrest⟩ := h
      obtain ⟨q', hok', hrel'⟩ := hstep q s i r s' hrel hok
      exact ⟨r, q', hok', ⟨s, s', hrel, hrel', hq⟩, ih hrel' hrest⟩

theorem run_forward_simulation {τ : Type*} {step' : τ → ι → Except ε (ρ × τ)} {R : τ → σ → Prop}
    (hstep : ∀ q s i r s', R q s → step s i = .ok (r, s') →
      ∃ q', step' q i = .ok (r, q') ∧ R q' s')
    {q : τ} {s s' : σ} {is : List ι} {rs : List ρ} (hrel : R q s)
    (hrun : run step s is = .ok (rs, s')) :
    ∃ q', run step' q is = .ok (rs, q') ∧ R q' s' := by
  induction is generalizing q s rs with
  | nil =>
      simp only [run_nil, Except.ok.injEq, Prod.mk.injEq] at hrun
      obtain ⟨rfl, rfl⟩ := hrun
      exact ⟨q, rfl, hrel⟩
  | cons i rest ih =>
      obtain ⟨r, t, rs', hok, hrest, rfl⟩ := run_cons_eq_ok.mp hrun
      obtain ⟨q', hok', hrel'⟩ := hstep q s i r t hrel hok
      obtain ⟨q'', hrun', hlast⟩ := ih hrel' hrest
      exact ⟨q'', run_cons_eq_ok.mpr ⟨r, q', rs', hok', hrun', rfl⟩, hlast⟩

/-- **Abstraction rule.** When a step of one machine is, through a map of the states, a step of the
other, so is a run. -/
theorem run_map {τ : Type*} {step' : τ → ι → Except ε (ρ × τ)} {g : σ → τ} {Inv : σ → Prop}
    {P : ι → Prop}
    (hstep : ∀ s i, Inv s → P i → step' (g s) i = (step s i).map fun out => (out.1, g out.2))
    (hinv : ∀ s i r s', Inv s → P i → step s i = .ok (r, s') → Inv s')
    {s : σ} {is : List ι} (h : Inv s) (hinputs : ∀ i ∈ is, P i) :
    run step' (g s) is = (run step s is).map fun out => (out.1, g out.2) := by
  induction is generalizing s with
  | nil => rfl
  | cons i rest ih =>
      have hi := hinputs i (List.mem_cons_self ..)
      have hrest : ∀ j ∈ rest, P j := fun j hj => hinputs j (List.mem_cons_of_mem _ hj)
      rw [run_cons, run_cons, hstep s i h hi]
      cases hok : step s i with
      | error e => rfl
      | ok out =>
          obtain ⟨r, s'⟩ := out
          simp only [Except.map]
          rw [ih (hinv s i r s' h hi hok) hrest]
          cases run step s' rest <;> rfl

/-- Whatever `n` inputs meet `P`, the machine answers them, and `Q` holds of the answers and the
last state. -/
def Yields (step : σ → ι → Except ε (ρ × σ)) (P : ι → Prop) (n : Nat) (s : σ)
    (Q : List ρ → σ → Prop) : Prop :=
  ∀ is : List ι, is.length = n → (∀ i ∈ is, P i) → ∃ rs s', run step s is = .ok (rs, s') ∧ Q rs s'

section Yields

variable {P : ι → Prop} {s : σ} {m n : Nat} {Q R : List ρ → σ → Prop}

theorem yields_zero (h : Q [] s) : Yields step P 0 s Q := by
  intro is hlen _
  rw [List.length_eq_zero_iff] at hlen
  exact ⟨[], s, by rw [hlen]; rfl, h⟩

theorem yields_one (h : ∀ i, P i → ∃ r s', step s i = .ok (r, s') ∧ Q [r] s') :
    Yields step P 1 s Q := by
  intro is hlen hP
  obtain ⟨i, rfl⟩ := List.length_eq_one_iff.mp hlen
  obtain ⟨r, s', hok, hQ⟩ := h i (hP i (by simp))
  exact ⟨[r], s', run_cons_eq_ok.mpr ⟨r, s', [], hok, rfl, rfl⟩, hQ⟩

/-- **Sequencing rule.** -/
theorem Yields.append (hfirst : Yields step P m s Q)
    (hsecond : ∀ rs s', Q rs s' → Yields step P n s' fun ts t => R (rs ++ ts) t) :
    Yields step P (m + n) s R := by
  intro is hlen hP
  have htake : (is.take m).length = m := by
    rw [List.length_take]
    omega
  have hdrop : (is.drop m).length = n := by
    rw [List.length_drop]
    omega
  obtain ⟨rs, s', hrun, hQ⟩ := hfirst (is.take m) htake fun i hi => hP i (List.mem_of_mem_take hi)
  obtain ⟨ts, t, hrun', hR⟩ := hsecond rs s' hQ (is.drop m) hdrop fun i hi =>
    hP i (List.mem_of_mem_drop hi)
  refine ⟨rs ++ ts, t, ?_, hR⟩
  rw [← List.take_append_drop m is]
  exact run_append hrun hrun'

theorem Yields.mono (h : Yields step P n s Q) (himp : ∀ rs s', Q rs s' → R rs s') :
    Yields step P n s R := by
  intro is hlen hP
  obtain ⟨rs, s', hrun, hQ⟩ := h is hlen hP
  exact ⟨rs, s', hrun, himp rs s' hQ⟩

end Yields

end StepRun

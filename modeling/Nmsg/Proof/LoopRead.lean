import Nmsg.Input.Loop

/-!
# Reading one message at a time

An input that rests in front of a source reads from it next; one that handed over a payload hands
over the next one of the same container, if there is one, and rests in front of the source
otherwise. A run of reads is an induction on the source, and inside a container on the payloads
left. A container without payloads is the one that neither case covers: it is read as if it had
some.
-/

namespace Nmsg

variable {crc32c : Bytes → UInt32} {filter : InputFilter}

/-! ### The loop -/

/-- The messages of a container from the payload at `n` on. -/
def passing (crc32c : Bytes → UInt32) (filter : InputFilter) (nmsg : ProtoNmsg) (n : Nat) :
    List Message :=
  ((nmsg.payloads.drop n).zipIdx n).filterMap fun (np, idx) =>
    if inputNmsgFilter crc32c filter nmsg idx np then some (messageFromPayload np) else none

/-- The messages of the containers that a source delivers. -/
def loopMessages (crc32c : Bytes → UInt32) (filter : InputFilter) (fetched : List Fetched) :
    List Message :=
  fetched.flatMap fun
    | .again => []
    | .container nmsg => passing crc32c filter nmsg 0

section Passing

variable {nmsg : ProtoNmsg} {n : Nat} {np : NmsgPayload}

theorem passing_of_length_le (h : nmsg.payloads.length ≤ n) :
    passing crc32c filter nmsg n = [] := by
  rw [passing, List.drop_eq_nil_of_le h]
  rfl

theorem passing_eq (h : nmsg.payloads[n]? = some np) :
    passing crc32c filter nmsg n =
      (if inputNmsgFilter crc32c filter nmsg n np then [messageFromPayload np] else []) ++
        passing crc32c filter nmsg (n + 1) := by
  obtain ⟨hlt, hget⟩ := List.getElem?_eq_some_iff.mp h
  rw [passing, List.drop_eq_getElem_cons hlt, hget, List.zipIdx_cons, List.filterMap_cons]
  by_cases hpass : inputNmsgFilter crc32c filter nmsg n np = true
  · simp only [hpass, if_true]
    rfl
  · simp only [hpass]
    rfl

variable (crc32c filter) in
theorem loopPayloads_eq {left : Nat} (h : n + left = nmsg.payloads.length) :
    loopPayloads crc32c filter nmsg n left = .ok (passing crc32c filter nmsg n) := by
  induction left generalizing n with
  | zero =>
      rw [passing_of_length_le (by omega)]
      rfl
  | succ left ih =>
      have hlt : n < nmsg.payloads.length := by omega
      have hget : nmsg.payloads[n]? = some nmsg.payloads[n] := List.getElem?_eq_getElem hlt
      rw [loopPayloads, hget, ih (by omega), passing_eq hget]
      by_cases hpass : inputNmsgFilter crc32c filter nmsg n nmsg.payloads[n] = true
      · simp [hpass, Except.map]
      · simp [hpass, Except.map]

/-- The loop never goes wrong and ends with its source. -/
theorem inputNmsgLoop_eq {fuel : Nat} (source : StreamSource) (idx : Nat)
    (hfuel : source.fetched.length < fuel) :
    inputNmsgLoop crc32c StreamSource.fetch fuel ⟨source, none, idx, filter⟩ =
      .ok (source.last, loopMessages crc32c filter source.fetched) := by
  obtain ⟨fetched, last, hsuccess, hagain⟩ := source
  induction fetched generalizing fuel with
  | nil =>
      obtain ⟨fuel, rfl⟩ := Nat.exists_eq_add_one.mpr hfuel
      simp [inputNmsgLoop, StreamSource.fetch, hsuccess, hagain, loopMessages]
  | cons first rest ih =>
      obtain ⟨fuel, rfl⟩ := Nat.exists_eq_add_one.mpr (Nat.zero_lt_of_lt hfuel)
      have hrest := @ih fuel (by simpa using hfuel)
      cases first with
      | again => simpa [inputNmsgLoop, StreamSource.fetch, loopMessages] using hrest
      | container nmsg =>
          have hpayloads := loopPayloads_eq crc32c filter
            (Nat.zero_add nmsg.payloads.length)
          simp only [inputNmsgLoop, StreamSource.fetch, reduceCtorEq, if_false, ne_eq,
            not_true_eq_false, hpayloads, hrest]
          rfl

end Passing

/-! ### One read -/

/-- The input reads from its source next. -/
def Rests (s : StreamInput StreamSource) : Prop := (streamAdvance s).nmsg = none

section Step

variable {s : StreamInput StreamSource} {nmsg : ProtoNmsg}

theorem streamAdvance_source (s : StreamInput StreamSource) :
    (streamAdvance s).source = s.source ∧ (streamAdvance s).filter = s.filter := by
  unfold streamAdvance
  cases s.nmsg with
  | none => exact ⟨rfl, rfl⟩
  | some nmsg =>
      simp only
      split
      · exact ⟨rfl, rfl⟩
      · exact ⟨rfl, rfl⟩

theorem rests_of_none (h : s.nmsg = none) : Rests s := by
  simp [Rests, streamAdvance, h]

theorem rests_of_last (h : s.nmsg = some nmsg) (hlast : s.npIndex + 1 = nmsg.payloads.length) :
    Rests s := by
  have hcond : nmsg.payloads.length ≠ 0 ∧ s.npIndex ≥ nmsg.payloads.length - 1 := by omega
  simp only [Rests, streamAdvance, h]
  rw [if_pos hcond]

theorem streamRead_of_rests (h : Rests s) :
    streamRead crc32c StreamSource.fetch s =
      match s.source.fetch with
      | .error e => .error e
      | .ok ((res, nmsg), source) =>
          if res ≠ .success then
            .ok ((res, none), { streamAdvance s with source := source, nmsg := nmsg })
          else
            match nmsg with
            | none => .error .nullPointer
            | some nmsg => streamHandPayload crc32c ⟨source, some nmsg, 0, s.filter⟩ nmsg := by
  have hnone : (streamAdvance s).nmsg = none := h
  obtain ⟨hsource, hfilter⟩ := streamAdvance_source s
  simp only [streamRead, hnone, hsource, ← hfilter]
  cases s.source.fetch with
  | error e => rfl
  | ok out =>
      obtain ⟨⟨res, nmsg⟩, source⟩ := out
      cases nmsg <;> rfl

variable (crc32c) in
theorem streamRead_end (h : Rests s) (hend : s.source.fetched = []) :
    ∃ t, streamRead crc32c StreamSource.fetch s = .ok ((s.source.last, none), t) := by
  refine ⟨{ streamAdvance s with source := s.source, nmsg := none }, ?_⟩
  rw [streamRead_of_rests h, StreamSource.fetch, hend]
  exact if_pos s.source.ends.1

variable (crc32c) in
theorem streamRead_again {rest : List Fetched} (h : Rests s)
    (hagain : s.source.fetched = .again :: rest) :
    ∃ t, streamRead crc32c StreamSource.fetch s = .ok ((.again, none), t) ∧ t.nmsg = none ∧
      t.source = { s.source with fetched := rest } ∧ t.filter = s.filter := by
  refine ⟨{ streamAdvance s with source := { s.source with fetched := rest }, nmsg := none }, ?_,
    rfl, rfl, (streamAdvance_source s).2⟩
  rw [streamRead_of_rests h, StreamSource.fetch, hagain]
  rfl

variable (crc32c) in
theorem streamRead_container {rest : List Fetched} (h : Rests s)
    (hcontainer : s.source.fetched = .container nmsg :: rest) :
    streamRead crc32c StreamSource.fetch s =
      streamHandPayload crc32c
        ⟨{ s.source with fetched := rest }, some nmsg, 0, s.filter⟩ nmsg := by
  rw [streamRead_of_rests h, StreamSource.fetch, hcontainer]
  rfl

/-- Inside a container the next payload is handed over. -/
theorem streamRead_inside {source : StreamSource} {idx : Nat}
    (h : idx + 1 < nmsg.payloads.length) :
    streamRead crc32c StreamSource.fetch ⟨source, some nmsg, idx, filter⟩ =
      streamHandPayload crc32c ⟨source, some nmsg, idx + 1, filter⟩ nmsg := by
  have hcond : ¬ (nmsg.payloads.length ≠ 0 ∧ idx ≥ nmsg.payloads.length - 1) := by omega
  simp only [streamRead, streamAdvance]
  rw [if_neg hcond]

/-- What handing over a payload comes to. -/
theorem streamHandPayload_eq {source : StreamSource} {idx : Nat} {np : NmsgPayload}
    (h : nmsg.payloads[idx]? = some np) :
    streamHandPayload crc32c ⟨source, some nmsg, idx, filter⟩ nmsg =
      .ok (if inputNmsgFilter crc32c filter nmsg idx np then
          (.success, some (messageFromPayload np)) else (.again, none),
        ⟨source, some nmsg, idx, filter⟩) := by
  simp only [streamHandPayload, h]
  by_cases hpass : inputNmsgFilter crc32c filter nmsg idx np = true
  · simp [hpass]
  · simp [hpass]

end Step

/-! ### Repeated reads -/

section ReadAll

variable {s t : StreamInput StreamSource} {last : Res} {msgs : List Message}

/-- Reading until the source ends with `last` hands over these messages. -/
def Reads (crc32c : Bytes → UInt32) (s : StreamInput StreamSource) (last : Res)
    (msgs : List Message) : Prop :=
  ∃ fuel, readAll crc32c StreamSource.fetch fuel s = .ok (last, msgs)

theorem readAll_mono {fuel fuel' : Nat} {out : Res × List Message}
    (h : readAll crc32c StreamSource.fetch fuel s = .ok out) (hle : fuel ≤ fuel') :
    readAll crc32c StreamSource.fetch fuel' s = .ok out := by
  induction fuel generalizing s fuel' out with
  | zero => cases h
  | succ fuel ih =>
      obtain ⟨fuel', rfl⟩ := Nat.exists_eq_add_one.mpr (Nat.zero_lt_of_lt hle)
      have hle' : fuel ≤ fuel' := Nat.le_of_succ_le_succ hle
      unfold readAll at h ⊢
      cases hread : streamRead crc32c StreamSource.fetch s with
      | error e => simp [hread] at h
      | ok answer =>
          obtain ⟨⟨res, msg⟩, t⟩ := answer
          simp only [hread] at h ⊢
          by_cases hsuccess : res = .success
          · rw [if_pos hsuccess] at h ⊢
            cases hrest : readAll crc32c StreamSource.fetch fuel t with
            | error e => simp [hrest, Except.map] at h
            | ok rest => rw [ih hrest hle', ← hrest, h]
          · rw [if_neg hsuccess] at h ⊢
            by_cases hagain : res = .again
            · rw [if_pos hagain] at h ⊢
              exact ih h hle'
            · rw [if_neg hagain] at h ⊢
              exact h

variable (crc32c) in
theorem reads_end (h : Rests s) (hend : s.source.fetched = []) :
    Reads crc32c s s.source.last [] := by
  obtain ⟨t, hread⟩ := streamRead_end crc32c h hend
  refine ⟨1, ?_⟩
  rw [readAll, hread]
  simp only [s.source.ends.1, s.source.ends.2, if_false]

/-- A message, or none for a payload that is filtered out, and then what is read behind it. -/
theorem Reads.cons (msg : Option Message) (hread : streamRead crc32c StreamSource.fetch s =
      .ok ((if msg.isSome then .success else .again, msg), t))
    (hrest : Reads crc32c t last msgs) : Reads crc32c s last (msg.toList ++ msgs) := by
  obtain ⟨fuel, hrest⟩ := hrest
  refine ⟨fuel + 1, ?_⟩
  rw [readAll, hread]
  cases msg with
  | none => simpa using hrest
  | some msg => simp [hrest, Except.map]

/-- A payload is handed over, and then what is read behind it. -/
theorem Reads.handed {nmsg : ProtoNmsg} {source : StreamSource} {idx : Nat}
    (hread : streamRead crc32c StreamSource.fetch s =
      streamHandPayload crc32c ⟨source, some nmsg, idx, filter⟩ nmsg)
    (hidx : idx < nmsg.payloads.length)
    (hrest : Reads crc32c ⟨source, some nmsg, idx, filter⟩ last
      (passing crc32c filter nmsg (idx + 1) ++ msgs)) :
    Reads crc32c s last (passing crc32c filter nmsg idx ++ msgs) := by
  have hget : nmsg.payloads[idx]? = some nmsg.payloads[idx] := List.getElem?_eq_getElem hidx
  rw [streamHandPayload_eq hget] at hread
  rw [passing_eq hget, List.append_assoc]
  by_cases hpass : inputNmsgFilter crc32c filter nmsg idx nmsg.payloads[idx] = true
  · rw [if_pos hpass] at hread ⊢
    exact Reads.cons (some (messageFromPayload nmsg.payloads[idx])) hread hrest
  · rw [if_neg hpass] at hread ⊢
    exact Reads.cons none hread hrest

/-- The payloads of a container behind the one at `idx`, and then what is read behind them. -/
theorem reads_inside {nmsg : ProtoNmsg} {source : StreamSource} {idx : Nat}
    (hbehind : ∀ s, Rests s → s.source = source → s.filter = filter → Reads crc32c s last msgs)
    (hidx : idx < nmsg.payloads.length) :
    Reads crc32c ⟨source, some nmsg, idx, filter⟩ last
      (passing crc32c filter nmsg (idx + 1) ++ msgs) := by
  obtain ⟨left, hleft⟩ := Nat.exists_eq_add_of_lt hidx
  induction left generalizing idx with
  | zero =>
      rw [passing_of_length_le (by omega), List.nil_append]
      exact hbehind _ (rests_of_last rfl hleft.symm) rfl rfl
  | succ left ih =>
      have hlt : idx + 1 < nmsg.payloads.length := by omega
      exact Reads.handed (streamRead_inside hlt) hlt (ih hlt (by omega))

variable (crc32c) in
/-- An input in front of containers that all have payloads reads what the loop passes on. -/
theorem reads_of_rests {fetched : List Fetched} {ends : last ≠ .success ∧ last ≠ .again}
    (hne : ∀ nmsg, .container nmsg ∈ fetched → nmsg.payloads ≠ []) (h : Rests s)
    (hsource : s.source = ⟨fetched, last, ends⟩) (hfilter : s.filter = filter) :
    Reads crc32c s last (loopMessages crc32c filter fetched) := by
  induction fetched generalizing s with
  | nil =>
      have hlast := reads_end crc32c h (by rw [hsource])
      rwa [hsource] at hlast
  | cons first rest ih =>
      have hne' : ∀ nmsg, .container nmsg ∈ rest → nmsg.payloads ≠ [] :=
        fun nmsg hmem => hne nmsg (List.mem_cons_of_mem _ hmem)
      cases first with
      | again =>
          obtain ⟨t, hread, hnone, hsource', hfilter'⟩ :=
            streamRead_again crc32c h (by rw [hsource])
          rw [hsource] at hsource'
          exact Reads.cons none hread
            (ih hne' (rests_of_none hnone) hsource' (hfilter'.trans hfilter))
      | container nmsg =>
          have hpos : 0 < nmsg.payloads.length :=
            List.length_pos_iff.mpr (hne nmsg List.mem_cons_self)
          have hread := streamRead_container crc32c h (by rw [hsource])
          rw [hsource, hfilter] at hread
          exact Reads.handed hread hpos
            (reads_inside (fun s hrests hsource hfilter => ih hne' hrests hsource hfilter) hpos)

end ReadAll

/-! ### A container without payloads -/

/-- The container is still to come, and the index of the input is one of the container it is in. -/
structure Toward (nmsg : ProtoNmsg) (s : StreamInput StreamSource) : Prop where
  inRange : ∀ other, s.nmsg = some other → s.npIndex < other.payloads.length
  mem : .container nmsg ∈ s.source.fetched

/-- A read goes wrong, or returns a message or `nmsg_res_again` with the container still to come. -/
def ReadToward (crc32c : Bytes → UInt32) (nmsg : ProtoNmsg) (s : StreamInput StreamSource) :
    Prop :=
  (∃ e, streamRead crc32c StreamSource.fetch s = .error e) ∨
    ∃ res msg t, streamRead crc32c StreamSource.fetch s = .ok ((res, msg), t) ∧
      (res = .success ∨ res = .again) ∧ Toward nmsg t

section Empty

variable {s : StreamInput StreamSource} {nmsg : ProtoNmsg}

theorem readToward_hand {other : ProtoNmsg} {source : StreamSource} {idx : Nat}
    (hread : streamRead crc32c StreamSource.fetch s =
      streamHandPayload crc32c ⟨source, some other, idx, filter⟩ other)
    (hidx : idx < other.payloads.length) (hmem : .container nmsg ∈ source.fetched) :
    ReadToward crc32c nmsg s := by
  rw [streamHandPayload_eq (List.getElem?_eq_getElem hidx)] at hread
  have htoward : Toward nmsg ⟨source, some other, idx, filter⟩ := by
    refine ⟨?_, hmem⟩
    rintro _ ⟨⟩
    exact hidx
  by_cases hpass : inputNmsgFilter crc32c filter other idx other.payloads[idx] = true
  · rw [if_pos hpass] at hread
    exact Or.inr ⟨_, _, _, hread, Or.inl rfl, htoward⟩
  · rw [if_neg hpass] at hread
    exact Or.inr ⟨_, _, _, hread, Or.inr rfl, htoward⟩

theorem readToward_of_rests (h : Toward nmsg s) (hempty : nmsg.payloads = []) (hrests : Rests s) :
    ReadToward crc32c nmsg s := by
  cases hfetched : s.source.fetched with
  | nil =>
      have hmem := h.mem
      rw [hfetched] at hmem
      exact absurd hmem List.not_mem_nil
  | cons first rest =>
      have hmem := h.mem
      rw [hfetched] at hmem
      cases first with
      | again =>
          obtain ⟨t, hread, hnone, hsource, -⟩ :=
            streamRead_again crc32c hrests hfetched
          refine Or.inr ⟨_, _, t, hread, Or.inr rfl, ?_, ?_⟩
          · intro other hother
            rw [hnone] at hother
            cases hother
          · rw [hsource]
            simpa using hmem
      | container other =>
          have hread := streamRead_container crc32c hrests hfetched
          by_cases hother : other.payloads = []
          · refine Or.inl ⟨.nullPointer, ?_⟩
            rw [hread, streamHandPayload, hother]
            rfl
          · refine readToward_hand hread (List.length_pos_iff.mpr hother) ?_
            have hne : nmsg ≠ other := fun heq => hother (heq ▸ hempty)
            simpa [hne] using hmem

variable (crc32c) in
theorem readToward (h : Toward nmsg s) (hempty : nmsg.payloads = []) :
    ReadToward crc32c nmsg s := by
  by_cases hrests : Rests s
  · exact readToward_of_rests h hempty hrests
  · obtain ⟨source, current, idx, filter⟩ := s
    cases current with
    | none => exact absurd (rests_of_none rfl) hrests
    | some other =>
        have hidx : idx < other.payloads.length := h.inRange other rfl
        have hnext : idx + 1 < other.payloads.length := by
          by_contra hlast
          exact hrests (rests_of_last rfl (show idx + 1 = _ by omega))
        exact readToward_hand (streamRead_inside hnext) hnext h.mem

/-- Reading never ends behind a container without payloads. -/
theorem Toward.readAll_ne_ok (h : Toward nmsg s) (hempty : nmsg.payloads = []) (fuel : Nat)
    (out : Res × List Message) : readAll crc32c StreamSource.fetch fuel s ≠ .ok out := by
  induction fuel generalizing s out with
  | zero => exact fun hout => nomatch hout
  | succ fuel ih =>
      intro hout
      rw [readAll] at hout
      rcases readToward crc32c h hempty with ⟨e, hread⟩ | ⟨_, msg, t, hread, hres, ht⟩
      · rw [hread] at hout
        cases hout
      · rw [hread] at hout
        rcases hres with rfl | rfl
        · cases hrest : readAll crc32c StreamSource.fetch fuel t with
          | error e => simp [hrest, Except.map] at hout
          | ok rest => exact ih ht rest hrest
        · exact ih ht out (by simpa using hout)

end Empty

/-! ### The result -/

/-- **One at a time or in a loop.** Reading one message at a time hands over what the loop passes
to its callback, in the same order and without an index out of range, exactly if every container
that is delivered has payloads. -/
theorem reads_as_loop_iff (crc32c : Bytes → UInt32) (filter : InputFilter)
    (source : StreamSource) :
    ReadsAsLoop crc32c filter source ↔
      ∀ nmsg, .container nmsg ∈ source.fetched → nmsg.payloads ≠ [] := by
  constructor
  · rintro ⟨fuel, msgs, -, hread⟩ nmsg hmem hempty
    have htoward : Toward nmsg (.fresh filter source) := ⟨(fun _ h => nomatch h), hmem⟩
    exact htoward.readAll_ne_ok hempty fuel _ hread
  · intro hne
    obtain ⟨fuel, hread⟩ := reads_of_rests crc32c hne
      (s := .fresh filter source) (rests_of_none rfl) rfl rfl
    refine ⟨max fuel (source.fetched.length + 1), _, ?_,
      readAll_mono hread (le_max_left _ _)⟩
    exact inputNmsgLoop_eq source 0 (Nat.lt_of_succ_le (le_max_right _ _))

/-- A container without payloads is read as if it had one. -/
theorem empty_container_not_read :
    ¬ ReadsAsLoop (fun _ => 0) ⟨false, 0, 0, 0, 0, 0⟩
        ⟨[.container ⟨[], [], none, none⟩], .eof, by decide⟩ := by
  rintro ⟨fuel, msgs, -, hread⟩
  cases fuel with
  | zero => cases hread
  | succ fuel => cases hread

end Nmsg

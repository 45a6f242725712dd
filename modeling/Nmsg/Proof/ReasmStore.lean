import Nmsg.Ipreasm.Core

/-!
# The store of incomplete datagrams, for any kind of fragment

What is true of each fragment stays true in the store, and the store looks at a fragment only
through its length and its offset: kinds of fragments that agree on these are stored alike.
-/

namespace Nmsg

open ReasmFrag

/-! ### What is true of each fragment -/

section Stored

variable {F : Type} {P : ReasmId → F → Prop}

/-- Every fragment of an entry satisfies `P` with the identification of the entry. -/
def ReasmIpEntry.Stores (P : ReasmId → F → Prop) (entry : ReasmIpEntry F) : Prop :=
  ∀ frag ∈ entry.frags, P entry.id frag

def ReasmIp.Stores (P : ReasmId → F → Prop) (reasm : ReasmIp F) : Prop :=
  ∀ entry, (reasm.entry entry).Stores P

theorem reasmIpNew_stores (P : ReasmId → F → Prop) : (reasmIpNew : ReasmIp F).Stores P := by
  intro entry frag hfrag
  cases hfrag

theorem ReasmIp.Stores.set {reasm : ReasmIp F} (h : reasm.Stores P) {e : ReasmIpEntry F}
    (he : e.Stores P) (entry : Nat) : (setEntry reasm entry e).Stores P := by
  intro k
  by_cases hk : k = entry
  · rw [hk, setEntry_self]
    exact he
  · rw [setEntry_of_ne _ _ hk]
    exact h k

theorem processTimeouts_entry (reasm : ReasmIp F) (now : Int) :
    (processTimeouts reasm now).entry = reasm.entry := by
  unfold processTimeouts
  generalize reasm.time.takeWhile _ = expired
  induction expired generalizing reasm with
  | nil => rfl
  | cons entry rest ih =>
      rw [List.foldl_cons, ih]
      rfl

theorem ReasmIp.Stores.processTimeouts {reasm : ReasmIp F} (h : reasm.Stores P) (now : Int) :
    (Nmsg.processTimeouts reasm now).Stores P := by
  intro entry
  rw [processTimeouts_entry]
  exact h entry

/-- The entry found has the identification it was looked for with. -/
theorem getEntry_id (reasm : ReasmIp F) (id : ReasmId) (timestamp : Int) :
    ((getEntry reasm id timestamp).2.entry (getEntry reasm id timestamp).1).id = id := by
  unfold getEntry
  dsimp only
  split
  · next entry hfind =>
      unfold findEntry at hfind
      simpa using List.find?_some hfind
  · simp only [newEntry, setEntry_self, ReasmIpEntry.init]

theorem getEntry_stores {reasm : ReasmIp F} (h : reasm.Stores P) (id : ReasmId)
    (timestamp : Int) : (getEntry reasm id timestamp).2.Stores P := by
  unfold getEntry
  dsimp only
  split
  · exact h
  · refine h.set ?_ _
    intro frag hfrag
    cases hfrag

variable [ReasmFrag F]

/-- An insertion adds the fragment or nothing. -/
theorem insertFrag_frags (entry : ReasmIpEntry F) (frag : F) (lastFrag fitLeft fitRight : Bool) :
    ∀ f ∈ (insertFrag entry frag lastFrag fitLeft fitRight).frags, f ∈ entry.frags ∨ f = frag := by
  intro f hf
  simp only [insertFrag, apply_ite ReasmIpEntry.frags, ite_self] at hf
  split at hf
  · rcases List.mem_append.mp hf with hbefore | hafter
    · exact Or.inl ((List.takeWhile_sublist _).subset hbefore)
    · rcases List.mem_cons.mp hafter with rfl | hafter
      · exact Or.inr rfl
      · exact Or.inl ((List.dropWhile_sublist _).subset hafter)
  · exact Or.inl hf

/-- An insertion keeps what neither the length nor the list of fragments says. -/
theorem reasmAddFragment_frame {α : Type} (g : ReasmIpEntry F → α)
    (hlen : ∀ entry frag lastFrag, g (withPacketLen entry frag lastFrag) = g entry)
    (hinsert : ∀ entry frag lastFrag fitLeft fitRight,
      g (insertFrag entry frag lastFrag fitLeft fitRight) = g entry)
    (entry : ReasmIpEntry F) (frag : F) (lastFrag : Bool) :
    g (reasmAddFragment entry frag lastFrag).2 = g entry := by
  unfold reasmAddFragment
  split
  · rfl
  split
  · rfl
  split
  · rfl
  dsimp only
  split
  · exact hlen _ _ _
  · rw [hinsert, hlen]

theorem reasmAddFragment_id (entry : ReasmIpEntry F) (frag : F) (lastFrag : Bool) :
    (reasmAddFragment entry frag lastFrag).2.id = entry.id := by
  apply reasmAddFragment_frame ReasmIpEntry.id <;> intros
  · simp only [withPacketLen, apply_ite ReasmIpEntry.id, ite_self]
  · simp only [insertFrag, apply_ite ReasmIpEntry.id, ite_self]

theorem reasmAddFragment_hash (entry : ReasmIpEntry F) (frag : F) (lastFrag : Bool) :
    (reasmAddFragment entry frag lastFrag).2.hash = entry.hash := by
  apply reasmAddFragment_frame ReasmIpEntry.hash <;> intros
  · simp only [withPacketLen, apply_ite ReasmIpEntry.hash, ite_self]
  · simp only [insertFrag, apply_ite ReasmIpEntry.hash, ite_self]

theorem reasmAddFragment_timeout (entry : ReasmIpEntry F) (frag : F) (lastFrag : Bool) :
    (reasmAddFragment entry frag lastFrag).2.timeout = entry.timeout := by
  apply reasmAddFragment_frame ReasmIpEntry.timeout <;> intros
  · simp only [withPacketLen, apply_ite ReasmIpEntry.timeout, ite_self]
  · simp only [insertFrag, apply_ite ReasmIpEntry.timeout, ite_self]

theorem reasmAddFragment_frags (entry : ReasmIpEntry F) (frag : F) (lastFrag : Bool) :
    ∀ f ∈ (reasmAddFragment entry frag lastFrag).2.frags, f ∈ entry.frags ∨ f = frag := by
  have hlen : (withPacketLen entry frag lastFrag).frags = entry.frags := by
    unfold withPacketLen
    split <;> rfl
  intro f hf
  unfold reasmAddFragment at hf
  split at hf
  · exact Or.inl hf
  split at hf
  · exact Or.inl hf
  split at hf
  · exact Or.inl hf
  dsimp only at hf
  split at hf
  · exact Or.inl (hlen ▸ hf)
  · rw [← hlen]
    exact insertFrag_frags _ _ _ _ _ f hf

theorem reasmAddFragment_stores {entry : ReasmIpEntry F} (h : entry.Stores P) {frag : F}
    (hfrag : P entry.id frag) (lastFrag : Bool) :
    (reasmAddFragment entry frag lastFrag).2.Stores P := by
  intro f hf
  rw [reasmAddFragment_id]
  rcases reasmAddFragment_frags entry frag lastFrag f hf with hold | rfl
  · exact h f hold
  · exact hfrag

/-- **What is true of each fragment put into the store is true of each fragment handed back.** -/
theorem reasmIpFragment_stores {reasm : ReasmIp F} (h : reasm.Stores P) {frag : F} {id : ReasmId}
    (hfrag : P id frag) (lastFrag : Bool) (timestamp : Int) :
    (∀ e, (reasmIpFragment reasm frag id lastFrag timestamp).1 = some e → e.Stores P) ∧
      (reasmIpFragment reasm frag id lastFrag timestamp).2.Stores P := by
  unfold reasmIpFragment
  have hid := getEntry_id reasm id timestamp
  have hstores := getEntry_stores h id timestamp
  revert hid hstores
  generalize getEntry reasm id timestamp = found
  intro hid hstores
  obtain ⟨entry, reasm'⟩ := found
  dsimp only at hid hstores ⊢
  unfold putFragment
  split
  · exact ⟨fun e he => (by cases he), hstores⟩
  · have hadd := reasmAddFragment_stores (hstores entry) (hid ▸ hfrag) lastFrag
    revert hadd
    generalize reasmAddFragment (reasm'.entry entry) frag lastFrag = added
    intro hadd
    obtain ⟨accepted, e⟩ := added
    have he : e.Stores P := hadd
    have hinvalid : ({ e with state := .invalid } : ReasmIpEntry F).Stores P := hadd
    cases accepted with
    | false => exact ⟨fun e' he' => (by cases he'), hstores.set hinvalid entry⟩
    | true =>
        dsimp only
        split
        · refine ⟨?_, hstores.set he entry⟩
          intro e' he'
          cases he'
          exact he
        · exact ⟨fun e' he' => (by cases he'), hstores.set he entry⟩

end Stored

/-! ### Kinds of fragments that agree on length and offset -/

/-- A map of fragments that keeps what the store looks at. -/
structure FragMap {F G : Type} [ReasmFrag F] [ReasmFrag G] (f : F → G) : Prop where
  len : ∀ a, len (f a) = len a
  offset : ∀ a, offset (f a) = offset a

section Map

variable {F G : Type}

def ReasmIpEntry.map (f : F → G) (entry : ReasmIpEntry F) : ReasmIpEntry G where
  id := entry.id
  len := entry.len
  holes := entry.holes
  fragCount := entry.fragCount
  hash := entry.hash
  timeout := entry.timeout
  state := entry.state
  frags := entry.frags.map f

def ReasmIp.map (f : F → G) (reasm : ReasmIp F) : ReasmIp G where
  entry := fun entry => (reasm.entry entry).map f
  fresh := reasm.fresh
  table := reasm.table
  time := reasm.time
  waiting := reasm.waiting
  maxWaiting := reasm.maxWaiting
  timedOut := reasm.timedOut
  droppedFrags := reasm.droppedFrags
  timeout := reasm.timeout

variable {f : F → G}

theorem setEntry_map (reasm : ReasmIp F) (entry : Nat) (e : ReasmIpEntry F) :
    setEntry (reasm.map f) entry (e.map f) = (setEntry reasm entry e).map f := by
  have hentry : (setEntry (reasm.map f) entry (e.map f)).entry =
      ((setEntry reasm entry e).map f).entry := by
    funext k
    by_cases h : k = entry
    · simp only [h, setEntry_self, ReasmIp.map]
    · simp only [setEntry_of_ne _ _ h, ReasmIp.map]
  exact congrArg (fun entry => { reasm.map f with entry := entry }) hentry

theorem removeEntry_map (reasm : ReasmIp F) (entry : Nat) :
    removeEntry (reasm.map f) entry = (removeEntry reasm entry).map f := rfl

theorem processTimeouts_map (reasm : ReasmIp F) (now : Int) :
    processTimeouts (reasm.map f) now = (processTimeouts reasm now).map f := by
  unfold processTimeouts
  change List.foldl _ (reasm.map f)
    (reasm.time.takeWhile fun entry => (reasm.entry entry).timeout < now) = _
  generalize reasm.time.takeWhile _ = expired
  induction expired generalizing reasm with
  | nil => rfl
  | cons entry rest ih =>
      rw [List.foldl_cons, List.foldl_cons]
      exact ih { removeEntry reasm entry with timedOut := reasm.timedOut + 1 }

theorem newEntry_map (reasm : ReasmIp F) (id : ReasmId) (hash : Nat) (timestamp : Int) :
    newEntry (reasm.map f) id hash timestamp = (newEntry reasm id hash timestamp).map f :=
  congrArg
    (fun r : ReasmIp G => { r with
      fresh := reasm.fresh + 1
      table := Function.update reasm.table hash (reasm.fresh :: reasm.table hash)
      time := reasm.time ++ [reasm.fresh]
      waiting := reasm.waiting + 1
      maxWaiting := max reasm.maxWaiting (reasm.waiting + 1) })
    (setEntry_map reasm reasm.fresh (.init id hash (timestamp + reasm.timeout)))

theorem getEntry_map (reasm : ReasmIp F) (id : ReasmId) (timestamp : Int) :
    getEntry (reasm.map f) id timestamp =
      ((getEntry reasm id timestamp).1, (getEntry reasm id timestamp).2.map f) := by
  unfold getEntry
  have hfind : findEntry (reasm.map f) id ((reasmHash id).toNat % reasmIpHashSize) =
      findEntry reasm id ((reasmHash id).toNat % reasmIpHashSize) := rfl
  dsimp only
  rw [hfind]
  cases findEntry reasm id ((reasmHash id).toNat % reasmIpHashSize) with
  | some entry => rfl
  | none =>
      dsimp only
      rw [newEntry_map]
      rfl

variable [ReasmFrag F] [ReasmFrag G] (hf : FragMap f)

include hf

theorem fragsBefore_map (frags : List F) (frag : F) :
    fragsBefore (frags.map f) (f frag) = (fragsBefore frags frag).map f := by
  unfold fragsBefore
  rw [List.takeWhile_map]
  simp only [Function.comp_def, hf.offset]

theorem fragsAfter_map (frags : List F) (frag : F) :
    fragsAfter (frags.map f) (f frag) = (fragsAfter frags frag).map f := by
  unfold fragsAfter
  rw [List.dropWhile_map]
  simp only [Function.comp_def, hf.offset]

theorem fragsEnd_map (frags : List F) : fragsEnd (frags.map f) = fragsEnd frags := by
  unfold fragsEnd
  rw [List.getLast?_map]
  cases frags.getLast? with
  | none => rfl
  | some cur =>
      simp only [Option.map_some, hf.offset, hf.len]

theorem fragPlace_map (frags : List F) (frag : F) (lastFrag : Bool) :
    fragPlace (frags.map f) (f frag) lastFrag = fragPlace frags frag lastFrag := by
  unfold fragPlace
  rw [fragsBefore_map hf, fragsAfter_map hf, fragsEnd_map hf, hf.offset, hf.len]
  cases fragsAfter frags frag with
  | nil => rfl
  | cons next rest => simp only [List.map_cons, hf.offset]

theorem reasmAddFragment_map (entry : ReasmIpEntry F) (frag : F) (lastFrag : Bool) :
    reasmAddFragment (entry.map f) (f frag) lastFrag =
      ((reasmAddFragment entry frag lastFrag).1,
        (reasmAddFragment entry frag lastFrag).2.map f) := by
  have hlen : withPacketLen (entry.map f) (f frag) lastFrag =
      (withPacketLen entry frag lastFrag).map f := by
    unfold withPacketLen
    rw [hf.len, hf.offset]
    split <;> rfl
  have hinsert : ∀ (e : ReasmIpEntry F) (fitLeft fitRight : Bool),
      insertFrag (e.map f) (f frag) lastFrag fitLeft fitRight =
        (insertFrag e frag lastFrag fitLeft fitRight).map f := by
    intro e fitLeft fitRight
    have hframe : (e.map f).frags = e.frags.map f := rfl
    unfold insertFrag
    rw [hf.len, hframe, fragsBefore_map hf, fragsAfter_map hf]
    split
    · simp only [ReasmIpEntry.map, List.map_append, List.map_cons]
    · split <;> rfl
  have hplace : fragPlace (withPacketLen (entry.map f) (f frag) lastFrag).frags (f frag) lastFrag =
      fragPlace (withPacketLen entry frag lastFrag).frags frag lastFrag := by
    rw [hlen]
    exact fragPlace_map hf _ _ _
  have hentry : (entry.map f).len = entry.len := rfl
  unfold reasmAddFragment
  dsimp only
  rw [hplace, hlen, hf.len, hf.offset, hentry]
  split
  · rfl
  split
  · rfl
  split
  · rfl
  cases fragPlace (withPacketLen entry frag lastFrag).frags frag lastFrag with
  | none => rfl
  | some place =>
      dsimp only
      rw [hinsert]

theorem putFragment_map (reasm : ReasmIp F) (entry : Nat) (frag : F) (lastFrag : Bool) :
    putFragment (reasm.map f) entry (f frag) lastFrag =
      ((putFragment reasm entry frag lastFrag).1.map (·.map f),
        (putFragment reasm entry frag lastFrag).2.map f) := by
  have hget : (reasm.map f).entry entry = (reasm.entry entry).map f := rfl
  have hstate : ((reasm.entry entry).map f).state = (reasm.entry entry).state := rfl
  unfold putFragment
  rw [hget, hstate, reasmAddFragment_map hf]
  split
  · rfl
  · generalize reasmAddFragment (reasm.entry entry) frag lastFrag = added
    obtain ⟨accepted, e⟩ := added
    cases accepted with
    | false =>
        exact congrArg
          (fun r : ReasmIp G =>
            (none, { r with droppedFrags := reasm.droppedFrags + e.fragCount + 1 }))
          (setEntry_map reasm entry { e with state := .invalid })
    | true =>
        have hcomplete : reasmIsComplete (e.map f) = reasmIsComplete e := rfl
        dsimp only
        rw [hcomplete, setEntry_map]
        split
        · rw [removeEntry_map, Option.map_some]
        · rfl

/-- **The store keeps kinds of fragments alike that agree on length and offset.** -/
theorem reasmIpFragment_map (reasm : ReasmIp F) (frag : F) (id : ReasmId) (lastFrag : Bool)
    (timestamp : Int) :
    reasmIpFragment (reasm.map f) (f frag) id lastFrag timestamp =
      ((reasmIpFragment reasm frag id lastFrag timestamp).1.map (·.map f),
        (reasmIpFragment reasm frag id lastFrag timestamp).2.map f) := by
  unfold reasmIpFragment
  rw [getEntry_map]
  exact putFragment_map hf _ _ _ _

end Map

end Nmsg

import Nmsg.Lib.StepRun
import Nmsg.Proof.ReasmParse
import Nmsg.Proof.ReasmStore

/-!
# The order of the store

The chains of the table and the time list hold the same entries, each in its chain and once; no two
are for one datagram, and the time list is in the order in which they time out. A call keeps this,
while the clock does not go back.
-/

namespace Nmsg

open ReasmFrag StepRun

section Store

variable {F : Type}

/-- The chain a datagram belongs to. -/
def bucketOf (id : ReasmId) : Nat := (reasmHash id).toNat % reasmIpHashSize

/-- The stored entries are those of the time list, each in its chain. -/
structure WellLinked (s : ReasmIp F) : Prop where
  once : s.time.Nodup
  allocated : ∀ k ∈ s.time, k < s.fresh
  hashed : ∀ k ∈ s.time, (s.entry k).hash = bucketOf (s.entry k).id
  chains : ∀ b, (s.table b).Nodup
  linked : ∀ b k, k ∈ s.table b ↔ k ∈ s.time ∧ (s.entry k).hash = b
  distinct : ∀ k ∈ s.time, ∀ k' ∈ s.time, (s.entry k).id = (s.entry k').id → k = k'
  counted : s.waiting = s.time.length

/-- The entries are linked, and listed in the order in which they time out. -/
structure Consistent (s : ReasmIp F) : Prop extends WellLinked s where
  sorted : s.time.Pairwise fun k k' => (s.entry k).timeout ≤ (s.entry k').timeout

/-- An entry is in neither structure. -/
def Unlinked (s : ReasmIp F) (k : Nat) : Prop := k ∉ s.time ∧ ∀ b, k ∉ s.table b

variable {s s' : ReasmIp F} {k : Nat}

/-- The counters that no one follows do not matter. -/
theorem WellLinked.congr (h : WellLinked s) (hentry : s'.entry = s.entry)
    (hfresh : s'.fresh = s.fresh) (htable : s'.table = s.table) (htime : s'.time = s.time)
    (hwaiting : s'.waiting = s.waiting) : WellLinked s' := by
  constructor <;> simp only [hentry, hfresh, htable, htime, hwaiting]
  exacts [h.once, h.allocated, h.hashed, h.chains, h.linked, h.distinct, h.counted]

theorem reasmIpNew_linked : WellLinked (reasmIpNew : ReasmIp F) := by
  refine ⟨List.nodup_nil, nofun, nofun, fun _ => List.nodup_nil, fun b k => ?_, nofun, rfl⟩
  exact iff_of_false (List.not_mem_nil) fun h => List.not_mem_nil h.1

/-! ### An entry is removed -/

theorem removeEntry_linked (h : WellLinked s) (hk : k ∈ s.time) : WellLinked (removeEntry s k) := by
  have hsub : ∀ {k'}, k' ∈ s.time.erase k → k' ∈ s.time := List.mem_of_mem_erase
  refine ⟨h.once.erase k, fun k' hk' => h.allocated k' (hsub hk'),
    fun k' hk' => h.hashed k' (hsub hk'), fun b => ?_, fun b k' => ?_,
    fun k' hk' k'' hk'' => h.distinct k' (hsub hk') k'' (hsub hk''), ?_⟩
  · by_cases hb : b = (s.entry k).hash
    · subst hb
      simp only [removeEntry, Function.update_self]
      exact (h.chains _).erase k
    · simp only [removeEntry, Function.update_of_ne hb]
      exact h.chains b
  · change k' ∈ Function.update s.table _ _ b ↔ k' ∈ s.time.erase k ∧ (s.entry k').hash = b
    rw [h.once.mem_erase_iff]
    by_cases hb : b = (s.entry k).hash
    · subst hb
      rw [Function.update_self, (h.chains _).mem_erase_iff, h.linked, and_assoc]
    · rw [Function.update_of_ne hb, h.linked, and_assoc, iff_and_self]
      rintro ⟨-, hhash⟩ rfl
      exact hb hhash.symm
  · change s.waiting - 1 = (s.time.erase k).length
    rw [List.length_erase_of_mem hk, h.counted]

theorem removeEntry_unlinked (h : WellLinked s) (hk : k ∈ s.time) :
    Unlinked (removeEntry s k) k := by
  have htime : k ∉ (removeEntry s k).time := h.once.not_mem_erase
  exact ⟨htime, fun b hb => htime (((removeEntry_linked h hk).linked b k).mp hb).1⟩

/-! ### Time-outs -/

theorem processTimeouts_expired {rest : List Nat} {now : Int} (htime : s.time = k :: rest)
    (hexpired : (s.entry k).timeout < now) :
    processTimeouts s now =
      processTimeouts { removeEntry s k with timedOut := s.timedOut + 1 } now := by
  have hrest : (removeEntry s k).time = rest := by
    rw [removeEntry, htime, List.erase_cons_head]
  unfold processTimeouts
  rw [htime, List.takeWhile_cons_of_pos (by exact decide_eq_true hexpired), List.foldl_cons]
  exact congrArg (fun l => List.foldl _ _ (List.takeWhile _ l)) hrest.symm

theorem processTimeouts_kept {now : Int} (hkept : ∀ k ∈ s.time.head?, now ≤ (s.entry k).timeout) :
    processTimeouts s now = s := by
  unfold processTimeouts
  cases htime : s.time with
  | nil => rfl
  | cons k rest =>
      have hnot : ¬ (s.entry k).timeout < now := not_lt.mpr (hkept k (by rw [htime]; rfl))
      rw [List.takeWhile_cons_of_neg (by simpa using hnot)]
      rfl

/-- What the time-outs leave: a part of the list, the first of which has not expired. -/
structure TimedOut (s s' : ReasmIp F) (now : Int) : Prop where
  linked : WellLinked s'
  sublist : s'.time.Sublist s.time
  first : ∀ k ∈ s'.time.head?, now ≤ (s'.entry k).timeout
  entry : s'.entry = s.entry
  timeout : s'.timeout = s.timeout
  maxWaiting : s'.maxWaiting = s.maxWaiting
  waiting : s'.waiting ≤ s.waiting

theorem processTimeouts_timedOut (h : WellLinked s) (now : Int) :
    TimedOut s (processTimeouts s now) now := by
  generalize htime : s.time = time
  induction time generalizing s with
  | nil =>
      rw [processTimeouts_kept (by simp [htime])]
      exact ⟨h, List.Sublist.refl _, by simp [htime], rfl, rfl, rfl, Nat.le_refl _⟩
  | cons k rest ih =>
      by_cases hexpired : (s.entry k).timeout < now
      · have hk : k ∈ s.time := htime ▸ List.mem_cons_self ..
        rw [processTimeouts_expired htime hexpired]
        have hlinked : WellLinked { removeEntry s k with timedOut := s.timedOut + 1 } :=
          (removeEntry_linked h hk).congr rfl rfl rfl rfl rfl
        have := ih hlinked (by rw [removeEntry, htime, List.erase_cons_head])
        exact ⟨this.linked, this.sublist.trans List.erase_sublist, this.first, this.entry,
          this.timeout, this.maxWaiting, Nat.le_trans this.waiting (Nat.sub_le _ _)⟩
      · have hfirst : ∀ k ∈ s.time.head?, now ≤ (s.entry k).timeout := by
          simpa [htime] using not_lt.mp hexpired
        rw [processTimeouts_kept hfirst]
        exact ⟨h, List.Sublist.refl _, hfirst, rfl, rfl, rfl, Nat.le_refl _⟩

/-- **Time-outs.** The list is sorted, so when its first entry has not expired none has. -/
theorem TimedOut.current {now : Int} (h : TimedOut s s' now) (hs : Consistent s) :
    Consistent s' ∧ ∀ k ∈ s'.time, now ≤ (s'.entry k).timeout := by
  have hsorted : s'.time.Pairwise fun k k' => (s'.entry k).timeout ≤ (s'.entry k').timeout := by
    rw [h.entry]
    exact hs.sorted.sublist h.sublist
  refine ⟨⟨h.linked, hsorted⟩, fun k hk => ?_⟩
  have hfirst := h.first
  cases htime : s'.time with
  | nil =>
      rw [htime] at hk
      cases hk
  | cons k₀ rest =>
      rw [htime] at hfirst hsorted hk
      have hk₀ := hfirst k₀ rfl
      rcases List.mem_cons.mp hk with rfl | hk
      · exact hk₀
      · exact le_trans hk₀ ((List.pairwise_cons.mp hsorted).1 k hk)

/-! ### The entry of a fragment -/

/-- An entry is written to and keeps its place. -/
structure SamePlace (e e' : ReasmIpEntry F) : Prop where
  id : e'.id = e.id
  hash : e'.hash = e.hash
  timeout : e'.timeout = e.timeout

theorem setEntry_place {e : ReasmIpEntry F} (h : SamePlace (s.entry k) e) (k' : Nat) :
    SamePlace (s.entry k') ((setEntry s k e).entry k') := by
  by_cases hk : k' = k
  · subst hk
    rw [setEntry_self]
    exact h
  · rw [setEntry_of_ne _ _ hk]
    exact ⟨rfl, rfl, rfl⟩

theorem setEntry_linked (h : WellLinked s) {e : ReasmIpEntry F} (he : SamePlace (s.entry k) e) :
    WellLinked (setEntry s k e) := by
  have hkeep := setEntry_place he
  refine ⟨h.once, h.allocated, fun k' hk' => ?_, h.chains, fun b k' => ?_,
    fun k' hk' k'' hk'' => ?_, h.counted⟩
  · rw [(hkeep k').id, (hkeep k').hash]
    exact h.hashed k' hk'
  · rw [(hkeep k').hash]
    exact h.linked b k'
  · rw [(hkeep k').id, (hkeep k'').id]
    exact h.distinct k' hk' k'' hk''

/-- An entry that was not found is not there. -/
theorem findEntry_none (h : WellLinked s) {id : ReasmId}
    (hnone : findEntry s id (bucketOf id) = none) : ∀ k ∈ s.time, (s.entry k).id ≠ id := by
  intro k hk hid
  have hlinked : k ∈ s.table (bucketOf id) := (h.linked _ k).mpr ⟨hk, by rw [h.hashed k hk, hid]⟩
  have := List.find?_eq_none.mp hnone k hlinked
  simp [hid] at this

theorem findEntry_some (h : WellLinked s) {id : ReasmId}
    (hsome : findEntry s id (bucketOf id) = some k) : k ∈ s.time :=
  ((h.linked _ k).mp (List.mem_of_find?_eq_some hsome)).1

theorem newEntry_fresh (s : ReasmIp F) (id : ReasmId) (hash : Nat) (timestamp : Int) :
    (newEntry s id hash timestamp).entry s.fresh = .init id hash (timestamp + s.timeout) :=
  setEntry_self ..

theorem newEntry_old (h : WellLinked s) (id : ReasmId) (hash : Nat) (timestamp : Int) :
    ∀ k ∈ s.time, (newEntry s id hash timestamp).entry k = s.entry k :=
  fun k hk => setEntry_of_ne _ _ (Nat.ne_of_lt (h.allocated k hk))

theorem mem_newEntry {id : ReasmId} {hash : Nat} {timestamp : Int} :
    k ∈ (newEntry s id hash timestamp).time ↔ k ∈ s.time ∨ k = s.fresh := by
  rw [newEntry, List.mem_append, List.mem_singleton]

theorem newEntry_linked (h : WellLinked s) {id : ReasmId}
    (hnone : ∀ k ∈ s.time, (s.entry k).id ≠ id) (timestamp : Int) :
    WellLinked (newEntry s id (bucketOf id) timestamp) := by
  have hnew := newEntry_fresh s id (bucketOf id) timestamp
  have hold := newEntry_old h id (bucketOf id) timestamp
  have hfresh : s.fresh ∉ s.time := fun hk => Nat.lt_irrefl _ (h.allocated _ hk)
  refine ⟨?_, ?_, ?_, ?_, ?_, ?_, ?_⟩
  · have := h.once.concat hfresh
    rwa [List.concat_eq_append] at this
  · intro k hk
    rcases mem_newEntry.mp hk with hk | rfl
    · exact Nat.lt_succ_of_lt (h.allocated k hk)
    · exact Nat.lt_succ_self _
  · intro k hk
    rcases mem_newEntry.mp hk with hk | rfl
    · rw [hold k hk]
      exact h.hashed k hk
    · rw [hnew]
      rfl
  · intro b
    by_cases hb : b = bucketOf id
    · subst hb
      simp only [newEntry, Function.update_self]
      exact List.nodup_cons.mpr ⟨fun hk => hfresh ((h.linked _ _).mp hk).1, h.chains _⟩
    · simp only [newEntry, Function.update_of_ne hb]
      exact h.chains b
  · intro b k
    rw [mem_newEntry]
    have hchain : k ∈ (newEntry s id (bucketOf id) timestamp).table b ↔
        k ∈ s.table b ∨ k = s.fresh ∧ bucketOf id = b := by
      by_cases hb : b = bucketOf id
      · subst hb
        simp only [newEntry, Function.update_self]
        rw [List.mem_cons, or_comm, and_true]
      · simp only [newEntry, Function.update_of_ne hb]
        rw [or_iff_left fun h => hb h.2.symm]
    rw [hchain, h.linked, or_and_right]
    refine or_congr (and_congr_right fun hk => ?_) (and_congr_right ?_)
    · rw [hold k hk]
    · rintro rfl
      rw [hnew]
      rfl
  · intro k hk k' hk' hid
    rcases mem_newEntry.mp hk with hk | rfl <;> rcases mem_newEntry.mp hk' with hk' | rfl
    · rw [hold k hk, hold k' hk'] at hid
      exact h.distinct k hk k' hk' hid
    · rw [hold k hk, hnew] at hid
      exact absurd hid (hnone k hk)
    · rw [hold k' hk', hnew] at hid
      exact absurd hid.symm (hnone k' hk')
    · rfl
  · change s.waiting + 1 = (s.time ++ [s.fresh]).length
    rw [List.length_append, List.length_singleton, h.counted]

theorem newEntry_consistent (h : Consistent s) {id : ReasmId} {timestamp : Int}
    (hnone : ∀ k ∈ s.time, (s.entry k).id ≠ id)
    (hlast : ∀ k ∈ s.time, (s.entry k).timeout ≤ timestamp + s.timeout) :
    Consistent (newEntry s id (bucketOf id) timestamp) := by
  have hold := newEntry_old h.toWellLinked id (bucketOf id) timestamp
  refine ⟨newEntry_linked h.toWellLinked hnone timestamp,
    List.pairwise_append.mpr ⟨?_, List.pairwise_singleton _ _, ?_⟩⟩
  · refine h.sorted.imp_of_mem fun {k k'} hk hk' hle => ?_
    rw [hold k hk, hold k' hk']
    exact hle
  · intro k hk k' hk'
    rw [List.mem_singleton.mp hk', hold k hk, newEntry_fresh]
    exact hlast k hk

/-- What it takes to have the entry of a fragment. -/
structure EntryFound (s s' : ReasmIp F) (id : ReasmId) (k : Nat) (timestamp : Int) : Prop where
  linked : WellLinked s'
  sorted : Consistent s → (∀ k ∈ s.time, (s.entry k).timeout ≤ timestamp + s.timeout) →
    Consistent s'
  stored : k ∈ s'.time
  entry : ∀ k' ∈ s'.time, (k' ∈ s.time ∧ s'.entry k' = s.entry k') ∨
    s'.entry k' = .init id (bucketOf id) (timestamp + s.timeout)
  timeout : s'.timeout = s.timeout
  maxWaiting : s.waiting ≤ s.maxWaiting →
    s'.waiting ≤ s'.maxWaiting ∧ s.maxWaiting ≤ s'.maxWaiting ∧
      (s'.maxWaiting = s.maxWaiting ∨ s'.maxWaiting = s'.waiting)

theorem getEntry_found (h : WellLinked s) (id : ReasmId) (timestamp : Int) :
    EntryFound s (getEntry s id timestamp).2 id (getEntry s id timestamp).1 timestamp := by
  unfold getEntry
  dsimp only
  split
  · next k hfind =>
      exact ⟨h, fun h _ => h, findEntry_some h hfind, fun k' hk' => Or.inl ⟨hk', rfl⟩, rfl,
        fun hmax => ⟨hmax, Nat.le_refl _, Or.inl rfl⟩⟩
  · next hfind =>
      have hnone := findEntry_none h hfind
      refine ⟨newEntry_linked h hnone timestamp, fun h hlast => newEntry_consistent h hnone hlast,
        mem_newEntry.mpr (Or.inr rfl), fun k' hk' => ?_, rfl, fun hmax => ?_⟩
      · rcases mem_newEntry.mp hk' with hk' | rfl
        · exact Or.inl ⟨hk', newEntry_old h _ _ _ k' hk'⟩
        · exact Or.inr (newEntry_fresh ..)
      · simp only [newEntry]
        omega

/-! ### The fragment is put into it -/

variable [ReasmFrag F]

/-- What putting a fragment into an entry leaves. -/
structure FragmentPut (s s' : ReasmIp F) (k : Nat) (frag : F) (lastFrag : Bool)
    (out : Option (ReasmIpEntry F)) : Prop where
  linked : WellLinked s'
  sublist : s'.time.Sublist s.time
  timeouts : ∀ k', (s'.entry k').timeout = (s.entry k').timeout
  timeout : s'.timeout = s.timeout
  maxWaiting : s'.maxWaiting = s.maxWaiting
  waiting : s'.waiting ≤ s.waiting
  entry : ∀ k' ∈ s'.time, s'.entry k' = s.entry k' ∨ (s'.entry k').state = .invalid ∨
    k' = k ∧ (s.entry k).state = .active ∧
      reasmAddFragment (s.entry k) frag lastFrag = (true, s'.entry k) ∧
      reasmIsComplete (s'.entry k) = false
  handed : ∀ e, out = some e → s'.entry k = e ∧ Unlinked s' k ∧ (s.entry k).state = .active ∧
    reasmAddFragment (s.entry k) frag lastFrag = (true, e) ∧ reasmIsComplete e = true

theorem FragmentPut.consistent {frag : F} {lastFrag : Bool} {out : Option (ReasmIpEntry F)}
    (h : FragmentPut s s' k frag lastFrag out) (hs : Consistent s) : Consistent s' := by
  refine ⟨h.linked, (hs.sorted.sublist h.sublist).imp fun {k' k''} hle => ?_⟩
  rw [h.timeouts, h.timeouts]
  exact hle

theorem reasmAddFragment_place (e : ReasmIpEntry F) (frag : F) (lastFrag : Bool) :
    SamePlace e (reasmAddFragment e frag lastFrag).2 :=
  ⟨reasmAddFragment_id e frag lastFrag, reasmAddFragment_hash e frag lastFrag,
    reasmAddFragment_timeout e frag lastFrag⟩

theorem putFragment_put (h : WellLinked s) (hk : k ∈ s.time) (frag : F) (lastFrag : Bool) :
    FragmentPut s (putFragment s k frag lastFrag).2 k frag lastFrag
      (putFragment s k frag lastFrag).1 := by
  have hplace := reasmAddFragment_place (s.entry k) frag lastFrag
  unfold putFragment
  split
  · exact ⟨h.congr rfl rfl rfl rfl rfl, List.Sublist.refl _, fun _ => rfl, rfl, rfl, Nat.le_refl _,
      fun _ _ => Or.inl rfl, nofun⟩
  · next hstate =>
    have hactive : (s.entry k).state = .active := not_not.mp hstate
    cases hadd : reasmAddFragment (s.entry k) frag lastFrag with
    | mk accepted e =>
    rw [hadd] at hplace
    cases accepted with
    | false =>
        -- the entry is kept, and takes no fragment any more
        have hinvalid : SamePlace (s.entry k) { e with state := .invalid } :=
          ⟨hplace.id, hplace.hash, hplace.timeout⟩
        refine ⟨(setEntry_linked h hinvalid).congr rfl rfl rfl rfl rfl, List.Sublist.refl _,
          fun k' => (setEntry_place hinvalid k').timeout, rfl, rfl, Nat.le_refl _, fun k' _ => ?_,
          nofun⟩
        by_cases hk' : k' = k
        · subst hk'
          exact Or.inr (Or.inl (congrArg ReasmIpEntry.state (setEntry_self ..)))
        · exact Or.inl (setEntry_of_ne _ _ hk')
    | true =>
        have hset := setEntry_linked h hplace
        have hentry : (setEntry s k e).entry k = e := setEntry_self ..
        dsimp only
        split
        · next hcomplete =>
          refine ⟨removeEntry_linked hset hk, List.erase_sublist,
            fun k' => (setEntry_place hplace k').timeout, rfl, rfl, Nat.sub_le _ _, fun k' hk' => ?_,
            ?_⟩
          · have hne : k' ≠ k := fun heq => (removeEntry_unlinked hset hk).1 (heq ▸ hk')
            exact Or.inl (setEntry_of_ne _ _ hne)
          · rintro _ ⟨⟩
            exact ⟨hentry, removeEntry_unlinked hset hk, hactive, hadd, hcomplete⟩
        · next hopen =>
          refine ⟨hset, List.Sublist.refl _, fun k' => (setEntry_place hplace k').timeout, rfl, rfl,
            Nat.le_refl _, fun k' _ => ?_, nofun⟩
          by_cases hk' : k' = k
          · refine Or.inr (Or.inr ⟨hk', hactive, ?_, ?_⟩)
            · rw [hentry]
              exact hadd
            · rw [hentry]
              exact Bool.of_not_eq_true hopen
          · exact Or.inl (setEntry_of_ne _ _ hk')

end Store

/-! ### Calls -/

/-- The arguments of a call of `reasm_ip_next`. -/
structure ReasmCall where
  packet : Bytes
  timestamp : Timespec

def reasmCall (s : ReasmIp BaseFrag) (c : ReasmCall) :
    Except Abort ((Bool × Option (ReasmIpEntry BaseFrag)) × ReasmIp BaseFrag) :=
  reasmIpNext s c.packet c.packet.length c.timestamp

/-- A new store with its time-out set. -/
def storeWith (timeout : Int) : ReasmIp BaseFrag := (reasmIpSetTimeout reasmIpNew timeout).2

/-- What holds after a call: the store is consistent, no stored entry has expired, and an entry
handed to the caller is linked nowhere. -/
structure AfterCall (c : ReasmCall) (out : Bool × Option (ReasmIpEntry BaseFrag))
    (s : ReasmIp BaseFrag) : Prop where
  consistent : Consistent s
  current : ∀ k ∈ s.time, c.timestamp.sec ≤ (s.entry k).timeout
  handed : ∀ e, out.2 = some e → ∃ k, s.entry k = e ∧ Unlinked s k

/-- How many entries wait in the course of a call: behind the time-outs, with the entry of the
fragment, and at its end. -/
def waitingDuring (s : ReasmIp BaseFrag) (c : ReasmCall) : List Nat :=
  let s₁ := processTimeouts s c.timestamp.sec
  match reasmParsePacket c.packet c.packet.length c.timestamp with
  | .ok (some p) =>
      let found := getEntry s₁ p.id c.timestamp.sec
      [s₁.waiting, found.2.waiting, (putFragment found.2 found.1 p.frag p.lastFrag).2.waiting]
  | _ => [s₁.waiting]

/-- How many entries wait in the course of a run. -/
def waitingOver (s : ReasmIp BaseFrag) : List ReasmCall → List Nat
  | [] => [s.waiting]
  | c :: rest => s.waiting :: waitingDuring s c ++ waitingOver (next reasmCall s c) rest

/-- What a call does to the maximum. -/
structure MaxKept (s : ReasmIp BaseFrag) (c : ReasmCall) (s' : ReasmIp BaseFrag) : Prop where
  bound : ∀ w ∈ waitingDuring s c, w ≤ s'.maxWaiting
  grows : s.maxWaiting ≤ s'.maxWaiting
  reached : s'.maxWaiting = s.maxWaiting ∨ s'.maxWaiting ∈ waitingDuring s c
  within : s'.waiting ≤ s'.maxWaiting

section Calls

variable {s s' : ReasmIp BaseFrag} {c : ReasmCall}

/-- A fragment is put into a store without expired entries. -/
theorem reasmIpFragment_after {s₁ : ReasmIp BaseFrag} (h : Consistent s₁)
    (hmax : s₁.waiting ≤ s₁.maxWaiting) {now : Int} (htimeout : 0 ≤ s₁.timeout)
    (hcurrent : ∀ k ∈ s₁.time, now ≤ (s₁.entry k).timeout)
    (hlast : ∀ k ∈ s₁.time, (s₁.entry k).timeout ≤ now + s₁.timeout)
    (p : ParsedFrag BaseFrag) :
    let found := getEntry s₁ p.id now
    let put := putFragment found.2 found.1 p.frag p.lastFrag
    Consistent put.2 ∧ (∀ k ∈ put.2.time, now ≤ (put.2.entry k).timeout ∧
        (put.2.entry k).timeout ≤ now + s₁.timeout) ∧
      (∀ e, put.1 = some e → ∃ k, put.2.entry k = e ∧ Unlinked put.2 k) ∧
      put.2.timeout = s₁.timeout ∧ put.2.waiting ≤ found.2.waiting ∧
      found.2.waiting ≤ put.2.maxWaiting ∧ s₁.maxWaiting ≤ put.2.maxWaiting ∧
      (put.2.maxWaiting = s₁.maxWaiting ∨ put.2.maxWaiting = found.2.waiting) := by
  intro found put
  have hfound := getEntry_found h.toWellLinked p.id now
  have hput := putFragment_put hfound.linked hfound.stored p.frag p.lastFrag
  obtain ⟨hbound, hgrows, hreached⟩ := hfound.maxWaiting hmax
  rw [← hput.maxWaiting] at hbound hgrows hreached
  refine ⟨hput.consistent (hfound.sorted h hlast), fun k hk => ?_, fun e he => ?_,
    hput.timeout.trans hfound.timeout, hput.waiting, hbound, hgrows, hreached⟩
  · rw [show (put.2.entry k).timeout = (found.2.entry k).timeout from hput.timeouts k]
    rcases hfound.entry k (hput.sublist.subset hk) with ⟨hold, hsame⟩ | hnew
    · rw [hsame]
      exact ⟨hcurrent k hold, hlast k hold⟩
    · rw [hnew]
      dsimp only [ReasmIpEntry.init]
      exact ⟨by omega, le_refl _⟩
  · obtain ⟨hentry, hunlinked, -⟩ := hput.handed e he
    exact ⟨found.1, hentry, hunlinked⟩

/-- **A call.** -/
theorem reasmCall_after (h : Consistent s) (hmax : s.waiting ≤ s.maxWaiting)
    (hpacket : HasFixedHeader c.packet) (htimeout : 0 ≤ s.timeout)
    (hlast : ∀ k ∈ s.time, (s.entry k).timeout ≤ c.timestamp.sec + s.timeout) :
    ∃ out s', reasmCall s c = .ok (out, s') ∧ AfterCall c out s' ∧ MaxKept s c s' ∧
      s'.timeout = s.timeout ∧
      ∀ k ∈ s'.time, (s'.entry k).timeout ≤ c.timestamp.sec + s.timeout := by
  have hout := processTimeouts_timedOut h.toWellLinked c.timestamp.sec
  obtain ⟨hconsistent, hcurrent⟩ := hout.current h
  have hlast' : ∀ k ∈ (processTimeouts s c.timestamp.sec).time,
      ((processTimeouts s c.timestamp.sec).entry k).timeout ≤ c.timestamp.sec + s.timeout := by
    intro k hk
    rw [hout.entry]
    exact hlast k (hout.sublist.subset hk)
  have hmax' : (processTimeouts s c.timestamp.sec).waiting ≤ s.maxWaiting :=
    Nat.le_trans hout.waiting hmax
  have hparse := reasmParsePacket_within hpacket c.timestamp
  unfold reasmCall reasmIpNext
  cases hp : reasmParsePacket c.packet c.packet.length c.timestamp with
  | error e => exact (hparse.of_error hp).elim
  | ok p =>
      cases p with
      | none =>
          have hduring : waitingDuring s c = [(processTimeouts s c.timestamp.sec).waiting] := by
            simp only [waitingDuring, hp]
          refine ⟨(false, none), _, rfl, ⟨hconsistent, hcurrent, nofun⟩, ⟨?_, ?_, ?_, ?_⟩,
            hout.timeout, hlast'⟩
          · rw [hduring, List.forall_mem_singleton, hout.maxWaiting]
            exact hmax'
          · exact Nat.le_of_eq hout.maxWaiting.symm
          · exact Or.inl hout.maxWaiting
          · rw [hout.maxWaiting]
            exact hmax'
      | some p =>
          rw [← hout.timeout] at hlast' htimeout
          rw [← hout.maxWaiting] at hmax'
          obtain ⟨hcons, htimes, hhanded, hsame, hless, hbound, hgrows, hreached⟩ :=
            reasmIpFragment_after hconsistent hmax' htimeout hcurrent hlast' p
          rw [hout.timeout] at htimes hsame
          rw [hout.maxWaiting] at hgrows hreached hmax'
          refine ⟨(true, _), _, rfl, ⟨hcons, fun k hk => (htimes k hk).1, hhanded⟩,
            ⟨?_, hgrows, ?_, Nat.le_trans hless hbound⟩, hsame, fun k hk => (htimes k hk).2⟩
          · simp only [waitingDuring, hp, List.forall_mem_cons]
            exact ⟨Nat.le_trans hmax' hgrows, hbound, Nat.le_trans hless hbound, nofun⟩
          · refine hreached.imp_right fun h => ?_
            simp only [waitingDuring, hp, List.mem_cons]
            exact Or.inr (Or.inl h)

/-- The maximum over a run, from that of each call. -/
theorem maxWaiting_of_always {calls : List ReasmCall}
    (h : Always reasmCall (fun s c _ s' => MaxKept s c s') s calls)
    (hmax : s.waiting ≤ s.maxWaiting) :
    ∃ outs s', run reasmCall s calls = .ok (outs, s') ∧
      (∀ w ∈ waitingOver s calls, w ≤ s'.maxWaiting) ∧ s.maxWaiting ≤ s'.maxWaiting ∧
      (s'.maxWaiting = s.maxWaiting ∨ s'.maxWaiting ∈ waitingOver s calls) := by
  induction calls generalizing s with
  | nil => exact ⟨[], s, rfl, List.forall_mem_singleton.mpr hmax, Nat.le_refl _, Or.inl rfl⟩
  | cons c rest ih =>
      obtain ⟨out, t, hok, hkept, hrest⟩ := h
      obtain ⟨outs, s', hrun, hbound, hgrows, hreached⟩ := ih hrest hkept.within
      have hnext : next reasmCall s c = t := next_of_ok hok
      have hstart := Nat.le_trans hkept.grows hgrows
      refine ⟨out :: outs, s', run_cons_eq_ok.mpr ⟨out, t, outs, hok, hrun, rfl⟩, ?_, hstart, ?_⟩
      · rw [waitingOver, hnext, List.cons_append, List.forall_mem_cons, List.forall_mem_append]
        exact ⟨Nat.le_trans hmax hstart, fun w hw => Nat.le_trans (hkept.bound w hw) hgrows, hbound⟩
      · rw [waitingOver, hnext, List.cons_append, List.mem_cons, List.mem_append]
        rcases hreached with heq | hmem
        · rw [heq]
          exact hkept.reached.imp_right fun h => Or.inr (Or.inl h)
        · exact Or.inr (Or.inr (Or.inr hmem))

end Calls

/-- **The store over a run.** Whatever packets it is given while the clock does not go back, every
call leaves it consistent, without expired entries and with the entry it hands out unlinked; and the
maximum it keeps is the largest number of entries that ever waited. -/
theorem store_consistent {timeout : Int} (htimeout : 0 ≤ timeout) {calls : List ReasmCall}
    (hpackets : ∀ c ∈ calls, HasFixedHeader c.packet)
    (hclock : calls.Pairwise fun c d => c.timestamp.sec ≤ d.timestamp.sec) :
    Always reasmCall (fun _ c out s => AfterCall c out s) (storeWith timeout) calls ∧
      ∃ outs s, run reasmCall (storeWith timeout) calls = .ok (outs, s) ∧
        s.maxWaiting ∈ waitingOver (storeWith timeout) calls ∧
        ∀ w ∈ waitingOver (storeWith timeout) calls, w ≤ s.maxWaiting := by
  have hnew : Consistent (storeWith timeout) :=
    ⟨reasmIpNew_linked.congr rfl rfl rfl rfl rfl, List.Pairwise.nil⟩
  have hruns : Always reasmCall (fun s c out s' => AfterCall c out s' ∧ MaxKept s c s')
      (storeWith timeout) calls := by
    apply always_of_ordered
      (fun s => Consistent s ∧ s.waiting ≤ s.maxWaiting ∧ s.timeout = timeout)
      (B := fun s c => ∀ k ∈ s.time, (s.entry k).timeout ≤ c.timestamp.sec + timeout) _
      ⟨hnew, Nat.le_refl _, rfl⟩ hpackets hclock fun c _ k hk => absurd hk List.not_mem_nil
    rintro s c ⟨hcons, hmax, rfl⟩ hpacket hlast
    obtain ⟨out, s', hok, hafter, hkept, hsame, htimes⟩ :=
      reasmCall_after hcons hmax hpacket htimeout hlast
    refine ⟨out, s', hok, ⟨hafter, hkept⟩, ⟨hafter.consistent, hkept.within, hsame⟩, ?_⟩
    intro d hd k hk
    have := htimes k hk
    omega
  obtain ⟨outs, s, hrun, hbound, -, hreached⟩ :=
    maxWaiting_of_always (hruns.mono fun _ _ _ _ h => h.2) (Nat.le_refl _)
  refine ⟨hruns.mono fun _ _ _ _ h => h.1, outs, s, hrun, ?_, hbound⟩
  rcases hreached with heq | hmem
  · rw [heq]
    cases calls <;> exact List.mem_cons_self ..
  · exact hmem

/-- The first half of an IPv4 datagram. -/
def firstHalf : Bytes :=
  [0x45, 0, 0, 28, 0, 1, 0x20, 0, 64, 17, 0, 0, 1, 2, 3, 4, 5, 6, 7, 8, 0, 1, 2, 3, 4, 5, 6, 7]

theorem firstHalf_header : HasFixedHeader firstHalf := by
  refine ⟨List.cons_ne_nil _ _, fun _ _ _ => by decide, fun first hfirst hv => ?_⟩
  cases hfirst
  exact absurd hv (by decide)

end Nmsg

import Nmsg.Ipreasm.Links
import Nmsg.Proof.StoreOrder

/-!
# The links spell the lists

Whatever the calls patch, the pointers visit the entries of each chain and of the time list one by
one, forwards and backwards. So the store in memory does what the store of lists does, and is as
consistent.
-/

namespace Nmsg

open LinkedList StepRun

/-- The pointers visit the lists of the store. -/
structure Represents {F : Type} (ls : LinkedReasmIp F) (s : ReasmIp F) : Prop where
  entry : ls.entry = s.entry
  fresh : ls.fresh = s.fresh
  table : ∀ b, ls.table b = (s.table b).head?
  chain : ∀ b, Seg ls.chain none (s.table b) none
  timeFirst : ls.timeFirst = s.time.head?
  timeLast : ls.timeLast = s.time.getLast?
  time : Seg ls.time none s.time none
  waiting : ls.waiting = s.waiting
  maxWaiting : ls.maxWaiting = s.maxWaiting
  timedOut : ls.timedOut = s.timedOut
  droppedFrags : ls.droppedFrags = s.droppedFrags
  timeout : ls.timeout = s.timeout

/-- Two chains have no entry in common. -/
theorem WellLinked.disjoint {F : Type} {s : ReasmIp F} (hs : WellLinked s) {b b' : Nat}
    (hne : b ≠ b') : ∀ k ∈ s.table b, k ∉ s.table b' := by
  intro k hk hk'
  exact hne (((hs.linked b k).mp hk).2.symm.trans ((hs.linked b' k).mp hk').2)

namespace Represents

variable {F : Type} {ls : LinkedReasmIp F} {s : ReasmIp F} {k : Nat}

theorem new : Represents (LinkedReasmIp.new : LinkedReasmIp F) reasmIpNew where
  entry := rfl
  fresh := rfl
  table _ := rfl
  chain _ := trivial
  timeFirst := rfl
  timeLast := rfl
  time := trivial
  waiting := rfl
  maxWaiting := rfl
  timedOut := rfl
  droppedFrags := rfl
  timeout := rfl

theorem setTimeout (h : Represents ls s) (timeout : Int) :
    (ls.setTimeout timeout).1 = (reasmIpSetTimeout s timeout).1 ∧
      Represents (ls.setTimeout timeout).2 (reasmIpSetTimeout s timeout).2 := by
  have hiff : ls.timeFirst ≠ none ↔ s.time ≠ [] := by
    rw [h.timeFirst, ne_eq, List.head?_eq_none_iff]
  unfold LinkedReasmIp.setTimeout reasmIpSetTimeout
  by_cases htime : s.time = []
  · rw [if_neg fun hc => hiff.mp hc htime, if_neg (not_not.mpr htime)]
    exact ⟨rfl, { h with timeout := rfl }⟩
  · rw [if_pos (hiff.mpr htime), if_pos htime]
    exact ⟨rfl, h⟩

/-- **Removing.** Patching the neighbours of an entry takes it out of both lists. -/
theorem removeEntry (h : Represents ls s) (hs : WellLinked s) (hk : k ∈ s.time) :
    Represents (ls.removeEntry k) (Nmsg.removeEntry s k) := by
  have hchain : k ∈ s.table (s.entry k).hash := (hs.linked _ k).mpr ⟨hk, rfl⟩
  obtain ⟨xs, ys, -, htable, htable'⟩ := List.exists_erase_eq hchain
  obtain ⟨us, vs, -, htime, htime'⟩ := List.exists_erase_eq hk
  have hseg := h.chain (s.entry k).hash
  have hnodup := hs.chains (s.entry k).hash
  have htimeSeg := h.time
  have htimeNodup := hs.once
  rw [htable] at hseg hnodup
  rw [htime] at htimeSeg htimeNodup
  refine ⟨h.entry, h.fresh, fun b => ?_, fun b => ?_, ?_, ?_, ?_, congrArg (· - 1) h.waiting,
    h.maxWaiting, h.timedOut, h.droppedFrags, h.timeout⟩ <;>
    simp only [LinkedReasmIp.removeEntry, Nmsg.removeEntry, h.entry]
  · by_cases hb : b = (s.entry k).hash
    · subst hb
      rw [Function.update_self, Function.update_self, h.table, htable', htable]
      exact hseg.firstWithout
    · rw [Function.update_of_ne hb, Function.update_of_ne hb]
      exact h.table b
  · by_cases hb : b = (s.entry k).hash
    · subst hb
      rw [Function.update_self, htable']
      exact hseg.unlink hnodup
    · rw [Function.update_of_ne hb]
      apply hseg.unlink_of_disjoint (h.chain b)
      rw [← htable]
      exact hs.disjoint hb
  · rw [htime', h.timeFirst, htime]
    exact htimeSeg.firstWithout
  · rw [htime', h.timeLast, htime]
    exact htimeSeg.lastWithout
  · rw [htime']
    exact htimeSeg.unlink htimeNodup

/-- The counter of time-outs is in no list. -/
theorem countTimedOut (h : Represents ls s) :
    Represents { ls with timedOut := ls.timedOut + 1 } { s with timedOut := s.timedOut + 1 } :=
  { h with timedOut := congrArg (· + 1) h.timedOut }

/-- **Time-outs.** The loop ends, and has removed the entries that have expired. -/
theorem processTimeouts (h : Represents ls s) (hs : WellLinked s) (now : Int) {fuel : Nat}
    (hfuel : s.time.length < fuel) :
    ∃ ls', ls.processTimeouts fuel now = .ok ls' ∧
      Represents ls' (Nmsg.processTimeouts s now) := by
  generalize htime : s.time = time at hfuel
  induction time generalizing s ls fuel with
  | nil =>
      obtain ⟨fuel, rfl⟩ := Nat.exists_eq_add_one_of_ne_zero (Nat.ne_of_gt hfuel)
      have hfirst : ls.timeFirst = none := by rw [h.timeFirst, htime, List.head?_nil]
      rw [processTimeouts_kept (by simp [htime]), LinkedReasmIp.processTimeouts, hfirst]
      exact ⟨ls, rfl, h⟩
  | cons k rest ih =>
      rw [List.length_cons] at hfuel
      obtain ⟨fuel, rfl⟩ := Nat.exists_eq_add_one_of_ne_zero (Nat.ne_of_gt
        (Nat.lt_of_le_of_lt (Nat.zero_le _) hfuel))
      have hfirst : ls.timeFirst = some k := by rw [h.timeFirst, htime, List.head?_cons]
      have hk : k ∈ s.time := htime ▸ List.mem_cons_self ..
      rw [LinkedReasmIp.processTimeouts, hfirst]
      by_cases hexpired : (s.entry k).timeout < now
      · rw [processTimeouts_expired htime hexpired]
        have hnext : Represents { ls.removeEntry k with timedOut := ls.timedOut + 1 }
            { Nmsg.removeEntry s k with timedOut := s.timedOut + 1 } :=
          (h.removeEntry hs hk).countTimedOut
        have hlinked : WellLinked { Nmsg.removeEntry s k with timedOut := s.timedOut + 1 } :=
          (removeEntry_linked hs hk).congr rfl rfl rfl rfl rfl
        have hrest : (Nmsg.removeEntry s k).time = rest := by
          rw [Nmsg.removeEntry, htime, List.erase_cons_head]
        obtain ⟨ls', hls', hrep⟩ := ih hnext hlinked hrest (Nat.lt_of_succ_lt_succ hfuel)
        have hexpired' : (ls.entry k).timeout < now := by
          rw [h.entry]
          exact hexpired
        exact ⟨ls', (if_pos hexpired').trans hls', hrep⟩
      · have hkept : ∀ k ∈ s.time.head?, now ≤ (s.entry k).timeout := by
          simpa [htime] using not_lt.mp hexpired
        rw [processTimeouts_kept hkept]
        have hkept' : ¬ (ls.entry k).timeout < now := by
          rw [h.entry]
          exact hexpired
        exact ⟨ls, if_neg hkept', h⟩

/-- The chain of a hash value has no more entries than wait. -/
theorem length_table_le (hs : WellLinked s) (b : Nat) : (s.table b).length ≤ s.waiting := by
  rw [hs.counted]
  apply ((hs.chains b).subperm _).length_le
  exact fun k hk => ((hs.linked b k).mp hk).1

theorem findEntry (h : Represents ls s) (hs : WellLinked s) (id : ReasmId) (hash : Nat) :
    ls.findEntry id hash = .ok (Nmsg.findEntry s id hash) := by
  have hfind := (h.chain hash).find (fun entry => (s.entry entry).id = id)
    (length_table_le hs hash)
  rw [LinkedReasmIp.findEntry, h.entry, h.table, h.waiting, hfind]
  rfl

theorem setEntry (h : Represents ls s) (k : Nat) (e : ReasmIpEntry F) :
    Represents (ls.setEntry k e) (Nmsg.setEntry s k e) := by
  refine { h with entry := ?_ }
  rw [LinkedReasmIp.setEntry, Nmsg.setEntry, h.entry]

/-- **A new entry** is linked at the front of its chain and at the end of the time list. -/
theorem newEntry (h : Represents ls s) (hs : WellLinked s) (id : ReasmId) (hash : Nat)
    (timestamp : Int) :
    Represents (ls.newEntry id hash timestamp) (Nmsg.newEntry s id hash timestamp) := by
  have hfresh : s.fresh ∉ s.time := fun hk => Nat.lt_irrefl _ (hs.allocated _ hk)
  have hfresh' : ∀ b, s.fresh ∉ s.table b := fun b hk => hfresh ((hs.linked b _).mp hk).1
  refine ⟨?_, congrArg (· + 1) h.fresh, fun b => ?_, fun b => ?_, ?_, ?_, ?_,
    congrArg (· + 1) h.waiting, ?_, h.timedOut, h.droppedFrags, h.timeout⟩ <;>
    simp only [LinkedReasmIp.newEntry, Nmsg.newEntry, LinkedReasmIp.setEntry, Nmsg.setEntry,
      h.entry, h.fresh, h.timeout, h.table, h.timeFirst, h.timeLast, h.waiting, h.maxWaiting]
  · by_cases hb : b = hash
    · subst hb
      rw [Function.update_self, Function.update_self, List.head?_cons]
    · rw [Function.update_of_ne hb, Function.update_of_ne hb, h.table]
  · by_cases hb : b = hash
    · subst hb
      rw [Function.update_self]
      exact (h.chain b).pushFront (hs.chains b) (hfresh' b)
    · rw [Function.update_of_ne hb]
      exact (h.chain b).pushFront_of_disjoint (hfresh' b) (hs.disjoint hb)
  · cases s.time with
    | nil => rfl
    | cons k rest => rw [List.getLast?_cons]; rfl
  · rw [List.getLast?_concat]
  · exact h.time.pushBack hs.once hfresh

theorem getEntry (h : Represents ls s) (hs : WellLinked s) (id : ReasmId) (timestamp : Int) :
    ∃ ls', ls.getEntry id timestamp = .ok ((Nmsg.getEntry s id timestamp).1, ls') ∧
      Represents ls' (Nmsg.getEntry s id timestamp).2 := by
  have hfind := h.findEntry hs id ((reasmHash id).toNat % reasmIpHashSize)
  unfold LinkedReasmIp.getEntry Nmsg.getEntry
  dsimp only
  rw [hfind]
  cases Nmsg.findEntry s id ((reasmHash id).toNat % reasmIpHashSize) with
  | some k => exact ⟨ls, rfl, h⟩
  | none =>
      refine ⟨_, ?_, h.newEntry hs id _ timestamp⟩
      rw [← h.fresh]
      rfl

variable [ReasmFrag F]

theorem putFragment (h : Represents ls s) (hs : WellLinked s) (hk : k ∈ s.time) (frag : F)
    (lastFrag : Bool) :
    (ls.putFragment k frag lastFrag).1 = (Nmsg.putFragment s k frag lastFrag).1 ∧
      Represents (ls.putFragment k frag lastFrag).2 (Nmsg.putFragment s k frag lastFrag).2 := by
  have hplace := reasmAddFragment_place (s.entry k) frag lastFrag
  unfold LinkedReasmIp.putFragment Nmsg.putFragment
  rw [congrFun h.entry k]
  split
  · exact ⟨rfl, { h with droppedFrags := congrArg (· + 1) h.droppedFrags }⟩
  · cases hadd : reasmAddFragment (s.entry k) frag lastFrag with
    | mk accepted e =>
    rw [hadd] at hplace
    have hset := h.setEntry k e
    cases accepted with
    | false =>
        have hinvalid := h.setEntry k { e with state := .invalid }
        refine ⟨rfl, { hinvalid with droppedFrags := ?_ }⟩
        dsimp only
        rw [h.droppedFrags]
    | true =>
        dsimp only
        split
        · exact ⟨rfl, hset.removeEntry (setEntry_linked hs hplace) hk⟩
        · exact ⟨rfl, hset⟩

end Represents

/-! ### Calls -/

def linkedCall (ls : LinkedReasmIp BaseFrag) (c : ReasmCall) :
    Except Abort ((Bool × Option (ReasmIpEntry BaseFrag)) × LinkedReasmIp BaseFrag) :=
  ls.reasmIpNext c.packet c.packet.length c.timestamp

/-- A new store with its time-out set. -/
def linkedStoreWith (timeout : Int) : LinkedReasmIp BaseFrag :=
  (LinkedReasmIp.new.setTimeout timeout).2

/-- How many entries wait in the course of a call: behind the time-outs, with the entry of the
fragment, and at its end. -/
def linkedWaitingDuring (ls : LinkedReasmIp BaseFrag) (c : ReasmCall) : List Nat :=
  match ls.processTimeouts (ls.waiting + 1) c.timestamp.sec with
  | .error _ => []
  | .ok ls₁ =>
      match reasmParsePacket c.packet c.packet.length c.timestamp with
      | .ok (some p) =>
          match ls₁.getEntry p.id c.timestamp.sec with
          | .error _ => [ls₁.waiting]
          | .ok (k, ls₂) =>
              [ls₁.waiting, ls₂.waiting, (ls₂.putFragment k p.frag p.lastFrag).2.waiting]
      | _ => [ls₁.waiting]

/-- How many entries wait in the course of a run. -/
def linkedWaitingOver (ls : LinkedReasmIp BaseFrag) : List ReasmCall → List Nat
  | [] => [ls.waiting]
  | c :: rest =>
      ls.waiting :: linkedWaitingDuring ls c ++ linkedWaitingOver (next linkedCall ls c) rest

section Calls

variable {ls : LinkedReasmIp BaseFrag} {s s' : ReasmIp BaseFrag} {c : ReasmCall}

/-- The pointers visit lists that are well linked. -/
def LinkedTo (ls : LinkedReasmIp BaseFrag) (s : ReasmIp BaseFrag) : Prop :=
  Represents ls s ∧ WellLinked s

/-- **A call** patches the pointers as it would change the lists. -/
theorem linkedCall_simulates (h : LinkedTo ls s)
    {out : Bool × Option (ReasmIpEntry BaseFrag)} (hok : reasmCall s c = .ok (out, s')) :
    linkedWaitingDuring ls c = waitingDuring s c ∧
      ∃ ls', linkedCall ls c = .ok (out, ls') ∧ LinkedTo ls' s' := by
  obtain ⟨hrep, hs⟩ := h
  have hfuel : s.time.length < ls.waiting + 1 := by
    rw [hrep.waiting, hs.counted]
    exact Nat.lt_succ_self _
  obtain ⟨ls₁, hout, hrep₁⟩ := hrep.processTimeouts hs c.timestamp.sec hfuel
  have hs₁ := (processTimeouts_timedOut hs c.timestamp.sec).linked
  unfold reasmCall reasmIpNext at hok
  unfold linkedCall LinkedReasmIp.reasmIpNext linkedWaitingDuring waitingDuring
  rw [hout]
  cases hp : reasmParsePacket c.packet c.packet.length c.timestamp with
  | error e =>
      rw [hp] at hok
      cases hok
  | ok p =>
      rw [hp] at hok
      cases p with
      | none =>
          cases hok
          exact ⟨congrArg ([·]) hrep₁.waiting, ls₁, rfl, hrep₁, hs₁⟩
      | some p =>
          obtain ⟨ls₂, hget, hrep₂⟩ := hrep₁.getEntry hs₁ p.id c.timestamp.sec
          have hfound := getEntry_found hs₁ p.id c.timestamp.sec
          obtain ⟨hentry, hrep₃⟩ :=
            hrep₂.putFragment hfound.linked hfound.stored p.frag p.lastFrag
          have hs₃ := (putFragment_put hfound.linked hfound.stored p.frag p.lastFrag).linked
          cases hok
          dsimp only
          rw [hget]
          refine ⟨?_, _, ?_, hrep₃, hs₃⟩
          · dsimp only
            rw [hrep₁.waiting, hrep₂.waiting, hrep₃.waiting]
          · simp only [LinkedReasmIp.reasmIpFragment, hget, bind, Except.bind, pure, Except.pure,
              hentry]
            rfl

theorem linkedWaitingOver_eq {calls : List ReasmCall}
    {Q : ReasmIp BaseFrag → ReasmCall → Bool × Option (ReasmIpEntry BaseFrag) →
      ReasmIp BaseFrag → Prop}
    (h : LinkedTo ls s) (hcalls : Always reasmCall Q s calls) :
    linkedWaitingOver ls calls = waitingOver s calls := by
  induction calls generalizing ls s with
  | nil => exact congrArg ([·]) h.1.waiting
  | cons c rest ih =>
      obtain ⟨out, t, hok, -, hrest⟩ := hcalls
      obtain ⟨hduring, ls', hok', hlinked⟩ := linkedCall_simulates h hok
      rw [linkedWaitingOver, waitingOver, hduring, h.1.waiting, next_of_ok hok, next_of_ok hok',
        ih hlinked hrest]

end Calls

end Nmsg

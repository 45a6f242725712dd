import Nmsg.Dnsqr.Queue
import Nmsg.Lib.StepRun

/-!
# The table of outstanding queries is a queue

`TableInvariant` ties slots, list and pointers together and holds of every reachable table. Under
it, each operation does to the table what it does to the queue the table stands for.
-/

namespace Nmsg

open LinearProbe

/-! ### Slots and list nodes -/

/-- Slots and list nodes point at each other, and the node `le` leads to the record `f le`. -/
structure Linked (n : Nat) (list : List Nat) (f : Nat → Option DnsQR)
    (table : Nat → Option HashEntry) (he : Nat → Nat) : Prop where
  bound : ∀ p e, table p = some e → p < n
  back : ∀ p e, table p = some e → e.le ∈ list ∧ he e.le = p
  slot : ∀ le ∈ list, ∃ e, table (he le) = some e ∧ e.le = le ∧ f le = some e.dnsqr

section Linked

variable {n : Nat} {list : List Nat} {f : Nat → Option DnsQR} {table : Nat → Option HashEntry}
  {he : Nat → Nat}

theorem Linked.record_eq (h : Linked n list f table he) {p : Nat} {e : HashEntry}
    (hp : table p = some e) : f e.le = some e.dnsqr := by
  obtain ⟨hmem, hback⟩ := h.back p e hp
  obtain ⟨e', he', -, hf⟩ := h.slot e.le hmem
  rw [hback, hp, Option.some.injEq] at he'
  rw [hf, he']

/-- Taking an entry out of the table and off the list. -/
theorem Linked.erase (h : Linked n list f table he) {p : Nat} {e : HashEntry}
    (hp : table p = some e) (hnodup : list.Nodup) :
    Linked n (list.erase e.le) f (Function.update table p none) he := by
  have hold : ∀ {q g}, Function.update table p none q = some g → q ≠ p ∧ table q = some g := by
    intro q g hq
    by_cases hqp : q = p
    · simp [hqp] at hq
    · exact ⟨hqp, by rwa [Function.update_of_ne hqp] at hq⟩
  refine ⟨fun q g hq => h.bound q g (hold hq).2, ?_, ?_⟩
  · intro q g hq
    obtain ⟨hqp, hq⟩ := hold hq
    obtain ⟨hmem, hback⟩ := h.back q g hq
    refine ⟨(hnodup.mem_erase_iff).mpr ⟨?_, hmem⟩, hback⟩
    intro heq
    apply hqp
    rw [← hback, heq, (h.back p e hp).2]
  · intro le hle
    obtain ⟨hne, hmem⟩ := (hnodup.mem_erase_iff).mp hle
    obtain ⟨g, hg, hgle, hf⟩ := h.slot le hmem
    refine ⟨g, ?_, hgle, hf⟩
    rw [Function.update_of_ne, hg]
    intro heq
    rw [heq, hp, Option.some.injEq] at hg
    exact hne (by rw [← hgle, hg])

/-- Moving an entry to a free slot, with its list node corrected. -/
theorem Linked.move (h : Linked n list f table he) {i k : Nat} {e : HashEntry} (hi : i < n)
    (hne : k ≠ i) (hfree : table i = none) (hk : table k = some e) :
    Linked n list f (Function.update (Function.update table i (some e)) k none)
      (Function.update he e.le i) := by
  obtain ⟨hmem, hback⟩ := h.back k e hk
  have hold : ∀ {q g}, Function.update (Function.update table i (some e)) k none q = some g →
      (q = i ∧ g = e) ∨ (q ≠ k ∧ q ≠ i ∧ table q = some g) := by
    intro q g hq
    by_cases hqk : q = k
    · simp [hqk] at hq
    rw [Function.update_of_ne hqk] at hq
    by_cases hqi : q = i
    · rw [hqi, Function.update_self, Option.some.injEq] at hq
      exact Or.inl ⟨hqi, hq.symm⟩
    · rw [Function.update_of_ne hqi] at hq
      exact Or.inr ⟨hqk, hqi, hq⟩
  refine ⟨?_, ?_, ?_⟩
  · intro q g hq
    rcases hold hq with ⟨rfl, -⟩ | ⟨-, -, hq⟩
    · exact hi
    · exact h.bound q g hq
  · intro q g hq
    rcases hold hq with ⟨rfl, rfl⟩ | ⟨hqk, -, hq⟩
    · exact ⟨hmem, by simp⟩
    · obtain ⟨hgmem, hgback⟩ := h.back q g hq
      have hle : g.le ≠ e.le := fun heq => hqk (by rw [← hgback, heq, hback])
      exact ⟨hgmem, by rw [Function.update_of_ne hle, hgback]⟩
  · intro le hle
    by_cases heq : le = e.le
    · subst heq
      refine ⟨e, ?_, rfl, h.record_eq hk⟩
      rw [Function.update_self, Function.update_of_ne hne.symm, Function.update_self]
    · obtain ⟨g, hg, hgle, hf⟩ := h.slot le hle
      refine ⟨g, ?_, hgle, hf⟩
      rw [Function.update_of_ne heq]
      have hki : he le ≠ k := by
        intro hslot
        rw [hslot, hk, Option.some.injEq] at hg
        exact heq (by rw [← hgle, hg])
      have hii : he le ≠ i := by
        intro hslot
        rw [hslot, hfree] at hg
        cases hg
      rw [Function.update_of_ne hki, Function.update_of_ne hii, hg]

end Linked

/-! ### The invariant -/

variable (hash : DnsqrKey → UInt32)

structure TableInvariant (t : DnsqrTable) : Prop where
  linked : Linked t.numSlots t.list t.entryAt t.table t.he
  order : t.list.Pairwise (· < ·)
  allocated : ∀ le ∈ t.list, le < t.fresh
  counted : t.count = t.list.length
  reach : Reachable t.numSlots (fun e => naturalSlot hash t.numSlots e.dnsqr) t.table
  fifo : Fifo t.numSlots (fun e => naturalSlot hash t.numSlots e.dnsqr) HashEntry.le t.table
  timed : ∀ p e, t.table p = some e →
    e.dnsqr.queryTimeSec ≠ [] ∧ e.dnsqr.queryTimeNsec ≠ []

theorem tableInvariant_empty (numSlots maxValues queryTimeout : Nat) :
    TableInvariant hash (DnsqrTable.empty numSlots maxValues queryTimeout) where
  linked := ⟨by simp [DnsqrTable.empty], by simp [DnsqrTable.empty], by simp [DnsqrTable.empty]⟩
  order := List.Pairwise.nil
  allocated := by simp [DnsqrTable.empty]
  counted := rfl
  reach := by simp [DnsqrTable.empty, Reachable]
  fifo := by simp [DnsqrTable.empty, Fifo]
  timed := by simp [DnsqrTable.empty]

variable {hash}

theorem naturalSlot_lt (hash : DnsqrKey → UInt32) {n : Nat} (hn : n ≠ 0) (d : DnsQR) :
    naturalSlot hash n d < n :=
  Nat.mod_lt _ (Nat.pos_of_ne_zero hn)

theorem TableInvariant.nodup {t : DnsqrTable} (h : TableInvariant hash t) : t.list.Nodup :=
  h.order.imp Nat.ne_of_lt

theorem TableInvariant.consistent {t : DnsqrTable} (h : TableInvariant hash t) :
    t.Consistent hash where
  oneSlot := by
    intro p q e f hp hq heq
    rw [← (h.linked.back p e hp).2, heq, (h.linked.back q f hq).2]
  reachable := h.reach
  pointsBack := fun p e hp => ⟨h.linked.bound p e hp, h.linked.back p e hp⟩
  listed := by
    intro le hle
    obtain ⟨e, he, hle', -⟩ := h.linked.slot le hle
    exact ⟨e, he, hle'⟩
  counted := by
    have hinj : ∀ le ∈ t.list, ∀ le' ∈ t.list, t.he le = t.he le' → le = le' := by
      intro le hle le' hle' heq
      obtain ⟨e, he, hel, -⟩ := h.linked.slot le hle
      obtain ⟨e', he', hel', -⟩ := h.linked.slot le' hle'
      rw [heq, he', Option.some.injEq] at he
      rw [← hel, ← hel', he]
    have hnodup : (t.list.map t.he).Nodup := List.Nodup.map_on hinj h.nodup
    have hperm : (t.list.map t.he).Perm
        ((List.range t.numSlots).filter fun p => (t.table p).isSome) := by
      rw [List.perm_ext_iff_of_nodup hnodup (List.nodup_range.filter _)]
      intro p
      simp only [List.mem_map, List.mem_filter, List.mem_range, Option.isSome_iff_exists]
      constructor
      · rintro ⟨le, hle, rfl⟩
        obtain ⟨e, he, -⟩ := h.linked.slot le hle
        exact ⟨h.linked.bound _ e he, e, he⟩
      · rintro ⟨-, e, hp⟩
        exact ⟨e.le, h.linked.back p e hp⟩
    rw [h.counted, ← List.length_map t.he, hperm.length_eq, List.length_filterMap_eq_countP,
      List.countP_eq_length_filter]

/-! ### Removal -/

theorem Linked.congr {n : Nat} {list : List Nat} {f g : Nat → Option DnsQR}
    {table : Nat → Option HashEntry} {he : Nat → Nat} (h : Linked n list f table he)
    (hfg : ∀ le ∈ list, f le = g le) : Linked n list g table he := by
  refine ⟨h.bound, h.back, ?_⟩
  intro le hle
  obtain ⟨e, he', hel, hf⟩ := h.slot le hle
  exact ⟨e, he', hel, by rw [← hfg le hle, hf]⟩

/-- The queue a table stands for after a record has been taken out. -/
def DnsqrTable.queueWithout (t : DnsqrTable) (le : Nat) : DnsqrQueue :=
  { t.toQueue with entries := (t.list.erase le).filterMap t.entryAt }

theorem dnsqrRemove_spec {t : DnsqrTable} (h : TableInvariant hash t) {slot : Nat}
    {e : HashEntry} (hslot : t.table slot = some e) :
    ∃ t', dnsqrRemove hash t slot = .ok t' ∧ TableInvariant hash t' ∧
      t'.toQueue = t.queueWithout e.le := by
  have hlt := h.linked.bound slot e hslot
  have hn : t.numSlots ≠ 0 := by omega
  have hhomes : ∀ p < t.numSlots, ∀ f, t.table p = some f →
      naturalSlot hash t.numSlots f.dnsqr < t.numSlots := fun _ _ f _ => naturalSlot_lt hash hn _
  have hhole := h.reach.hole hhomes hlt
  have hfuel : displacement t.numSlots (fun f => naturalSlot hash t.numSlots f.dnsqr)
      (Function.update t.table slot none) * t.numSlots +
        (t.numSlots - dist t.numSlots slot slot) ≤ removeFuel t.numSlots := by
    have hdisp := displacement_le hhole.homes
    have := Nat.mul_le_mul_right t.numSlots hdisp
    rw [dist_self, removeFuel]
    omega
  obtain ⟨table, he, hshift, hhomes', hreach, hfifo, hlinked⟩ :=
    shift_spec (fun he f i => Function.update he f.le i)
      (Q := Linked t.numSlots (t.list.erase e.le) t.entryAt)
      (fun table he i k f hi _ hne hfree hk hQ => hQ.move hi hne hfree hk)
      hhole (h.fifo.erase slot) (h.linked.erase hslot h.nodup) hfuel
  have hentry : ∀ le ∈ t.list.erase e.le,
      t.entryAt le = (table (he le)).map (fun f => f.dnsqr) := by
    intro le hle
    obtain ⟨f, hf, -, hrecord⟩ := hlinked.slot le hle
    rw [hrecord, hf, Option.map_some]
  have hremove : dnsqrRemove hash t slot = .ok { t with
      table := table
      he := he
      count := t.count - 1
      list := t.list.erase e.le } := by
    simp only [dnsqrRemove, hslot, hshift]
  refine ⟨_, hremove, ?_, ?_⟩
  · exact {
      linked := hlinked.congr hentry
      order := h.order.sublist List.erase_sublist
      allocated := fun le hle => h.allocated le (List.mem_of_mem_erase hle)
      counted := by
        have hmem := (h.linked.back slot e hslot).1
        change t.count - 1 = (t.list.erase e.le).length
        rw [h.counted, List.length_erase_of_mem hmem]
      reach := hreach
      fifo := hfifo
      timed := by
        intro p f hp
        have hf := hlinked.record_eq hp
        rw [DnsqrTable.entryAt, Option.map_eq_some_iff] at hf
        obtain ⟨g, hg, heq⟩ := hf
        rw [← heq]
        exact h.timed _ g hg }
  · simp only [DnsqrTable.toQueue, DnsqrTable.queueWithout, DnsqrQueue.mk.injEq, and_true]
    apply List.filterMap_congr
    intro le hle
    exact (hentry le hle).symm

/-! ### Insertion -/

theorem dnsqrInsertQuery_spec {t : DnsqrTable} (h : TableInvariant hash t) {d : DnsQR}
    (hhash : d.Hashable) (hsec : d.queryTimeSec ≠ []) (hnsec : d.queryTimeNsec ≠ [])
    (hroom : ∃ s < t.numSlots, t.table s = none) :
    ∃ t', dnsqrInsertQuery hash t d = .ok t' ∧ TableInvariant hash t' ∧
      t'.toQueue = t.toQueue.insertQuery d := by
  obtain ⟨s, hs, hfree⟩ := hroom
  have hn : t.numSlots ≠ 0 := by omega
  obtain ⟨slot, hslot, hprobe, hhit, hpath⟩ :=
    exists_probe (fun s => (t.table s).isNone) (naturalSlot_lt hash hn d)
      ⟨s, hs, by simp [hfree]⟩
  have hempty : t.table slot = none := by simpa using hhit
  have hcross : ∀ q < t.numSlots, dist t.numSlots (naturalSlot hash t.numSlots d) q <
      dist t.numSlots (naturalSlot hash t.numSlots d) slot → t.table q ≠ none := by
    intro q hq hlt hnone
    simpa [hnone] using hpath q hq hlt
  have hfresh : t.fresh ∉ t.list := fun hmem => Nat.lt_irrefl _ (h.allocated _ hmem)
  have hold : ∀ {p f}, Function.update t.table slot (some ⟨d, hhash, t.fresh⟩) p = some f →
      (p = slot ∧ f = ⟨d, hhash, t.fresh⟩) ∨ (p ≠ slot ∧ t.table p = some f) := by
    intro p f hp
    by_cases hps : p = slot
    · rw [hps, Function.update_self, Option.some.injEq] at hp
      exact Or.inl ⟨hps, hp.symm⟩
    · exact Or.inr ⟨hps, by rwa [Function.update_of_ne hps] at hp⟩
  -- an old node keeps its pointer and its slot
  have hkeep : ∀ le ∈ t.list, Function.update t.he t.fresh slot le = t.he le ∧
      Function.update t.table slot (some ⟨d, hhash, t.fresh⟩) (t.he le) = t.table (t.he le) := by
    intro le hle
    have hne : le ≠ t.fresh := fun heq => hfresh (heq ▸ hle)
    obtain ⟨e, he, -⟩ := h.linked.slot le hle
    have hslot' : t.he le ≠ slot := by
      intro heq
      rw [heq, hempty] at he
      cases he
    exact ⟨Function.update_of_ne hne _ _, Function.update_of_ne hslot' _ _⟩
  have hinsert : dnsqrInsertQuery hash t d = .ok { t with
      count := t.count + 1
      table := Function.update t.table slot (some ⟨d, hhash, t.fresh⟩)
      he := Function.update t.he t.fresh slot
      list := t.list ++ [t.fresh]
      fresh := t.fresh + 1 } := by
    rw [naturalSlot] at hprobe
    simp only [dnsqrInsertQuery, dnsqrHash_of_hashable hash hhash, if_neg hn, hprobe]
  refine ⟨_, hinsert, ?_, ?_⟩
  · exact {
      linked := by
        refine ⟨?_, ?_, ?_⟩
        · intro p f hp
          rcases hold hp with ⟨rfl, -⟩ | ⟨-, hp⟩
          · exact hslot
          · exact h.linked.bound p f hp
        · intro p f hp
          rcases hold hp with ⟨rfl, rfl⟩ | ⟨-, hp⟩
          · exact ⟨by simp, by simp⟩
          · obtain ⟨hmem, hback⟩ := h.linked.back p f hp
            exact ⟨by simp [hmem], by simp only [(hkeep _ hmem).1, hback]⟩
        · intro le hle
          rcases List.mem_append.mp hle with hle | hle
          · obtain ⟨e, he, hel, -⟩ := h.linked.slot le hle
            obtain ⟨hpointer, hstored⟩ := hkeep le hle
            refine ⟨e, ?_, hel, ?_⟩
            · simp only [hpointer, hstored, he]
            · simp only [DnsqrTable.entryAt, hpointer, hstored, he, Option.map_some]
          · rw [List.mem_singleton] at hle
            subst hle
            exact ⟨⟨d, hhash, t.fresh⟩, by simp, rfl, by simp [DnsqrTable.entryAt]⟩
      order := by
        refine List.pairwise_append.mpr ⟨h.order, List.pairwise_singleton _ _, ?_⟩
        intro a ha b hb
        rw [List.mem_singleton] at hb
        exact hb ▸ h.allocated a ha
      allocated := by
        intro le hle
        change le < t.fresh + 1
        rcases List.mem_append.mp hle with hle | hle
        · exact Nat.lt_succ_of_lt (h.allocated le hle)
        · rw [List.mem_singleton] at hle
          omega
      counted := by
        change t.count + 1 = (t.list ++ [t.fresh]).length
        rw [h.counted, List.length_append, List.length_singleton]
      reach := h.reach.insert hslot hcross
      fifo := h.fifo.insert h.reach hempty
        (fun p _ e hp => h.allocated e.le (h.linked.back p e hp).1)
      timed := by
        intro p f hp
        rcases hold hp with ⟨rfl, rfl⟩ | ⟨-, hp⟩
        · exact ⟨hsec, hnsec⟩
        · exact h.timed p f hp }
  · simp only [DnsqrTable.toQueue, DnsqrQueue.insertQuery, DnsqrQueue.mk.injEq, and_true,
      List.filterMap_append]
    congr 1
    · apply List.filterMap_congr
      intro le hle
      simp only [DnsqrTable.entryAt, (hkeep le hle).1, (hkeep le hle).2]
    · simp [DnsqrTable.entryAt]

/-! ### Retrieval -/

/-- The first of a list of nodes whose record satisfies `P`, found and taken out. -/
theorem find?_eraseP_filterMap {list : List Nat} {f : Nat → Option DnsQR} {P : DnsQR → Bool}
    {le : Nat} {d : DnsQR} (horder : list.Pairwise (· < ·)) (hmem : le ∈ list)
    (hle : f le = some d) (hP : P d = true)
    (hfirst : ∀ k ∈ list, k < le → ∀ g, f k = some g → P g = false) :
    (list.filterMap f).find? P = some d ∧
      (list.filterMap f).eraseP P = (list.erase le).filterMap f := by
  induction list with
  | nil => cases hmem
  | cons k rest ih =>
      rw [List.pairwise_cons] at horder
      by_cases hk : k = le
      · subst hk
        simp [hle, hP]
      · have hrest : le ∈ rest := by
          rcases List.mem_cons.mp hmem with h | h
          · exact absurd h.symm hk
          · exact h
        have hlt := horder.1 le hrest
        have htail := ih horder.2 hrest
          (fun j hj hjlt g hg => hfirst j (List.mem_cons_of_mem _ hj) hjlt g hg)
        have herase : (k :: rest).erase le = k :: rest.erase le := by
          rw [List.erase_cons_tail]
          simpa using hk
        rw [herase]
        cases hfk : f k with
        | none => simpa [List.filterMap_cons, hfk] using htail
        | some g =>
            have hPg := hfirst k (by simp) hlt g hfk
            simpa [List.filterMap_cons, hfk, hPg] using htail

/-- Of the entries equal to a response, the one nearest to their natural slot came first. -/
theorem TableInvariant.first_of_near {t : DnsqrTable} (h : TableInvariant hash t)
    {response : DnsQR} {rcode : UInt16} {slot : Nat} {e : HashEntry}
    (hslot : t.table slot = some e) (heq : dnsqrEq response e.dnsqr rcode = true)
    (hnear : ∀ q < t.numSlots, ∀ g, t.table q = some g →
      dist t.numSlots (naturalSlot hash t.numSlots response) q <
        dist t.numSlots (naturalSlot hash t.numSlots response) slot →
      dnsqrEq response g.dnsqr rcode = false) :
    ∀ k ∈ t.list, k < e.le → ∀ g, t.entryAt k = some g → dnsqrEq response g rcode = false := by
  intro k hk hlt g hg
  obtain ⟨f, hf, hfle, hrecord⟩ := h.linked.slot k hk
  obtain rfl : f.dnsqr = g := by rwa [hrecord, Option.some.injEq] at hg
  by_contra hmatch
  rw [Bool.not_eq_false] at hmatch
  have hhome : ∀ {d : DnsQR}, dnsqrEq response d rcode = true →
      naturalSlot hash t.numSlots d = naturalSlot hash t.numSlots response := by
    intro d hd
    rw [naturalSlot, naturalSlot, dnsqrKey_eq_of_dnsqrEq hd]
  have hfar : ¬ dist t.numSlots (naturalSlot hash t.numSlots response) (t.he k) <
      dist t.numSlots (naturalSlot hash t.numSlots response) slot := by
    intro hcloser
    rw [hnear _ (h.linked.bound _ f hf) f hf hcloser] at hmatch
    cases hmatch
  have hslots := h.linked.bound slot e hslot
  have hne : dist t.numSlots (naturalSlot hash t.numSlots response) slot ≠
      dist t.numSlots (naturalSlot hash t.numSlots response) (t.he k) := by
    intro hsame
    have := eq_of_dist_eq (naturalSlot_lt hash (by omega) response) hslots
      (h.linked.bound _ f hf) hsame
    rw [← this, hslot, Option.some.injEq] at hf
    rw [← hf] at hfle
    omega
  have hstamp := h.fifo slot hslots (t.he k) (h.linked.bound _ f hf) e f hslot hf
    (by simp only [hhome heq, hhome hmatch]) (by simp only [hhome heq]; omega)
  omega

theorem dnsqrRetrieve_spec {t : DnsqrTable} (h : TableInvariant hash t) {response : DnsQR}
    (rcode : UInt16) (hhash : response.Hashable) (hroom : ∃ s < t.numSlots, t.table s = none) :
    ∃ r t', dnsqrRetrieve hash t response rcode = .ok (r, t') ∧ TableInvariant hash t' ∧
      t.toQueue.retrieve response rcode = (r, t'.toQueue) := by
  obtain ⟨s, hs, hfree⟩ := hroom
  have hn : t.numSlots ≠ 0 := by omega
  have hit_some : ∀ {q g}, t.table q = some g →
      emptyOrEqual t response rcode q = dnsqrEq response g.dnsqr rcode := by
    intro q g hg
    simp only [emptyOrEqual, hg]
  obtain ⟨slot, hslot, hprobe, hhit, hpath⟩ :=
    exists_probe (emptyOrEqual t response rcode) (naturalSlot_lt hash hn response)
      ⟨s, hs, by simp only [emptyOrEqual, hfree]⟩
  have hnear : ∀ q < t.numSlots, ∀ g, t.table q = some g →
      dist t.numSlots (naturalSlot hash t.numSlots response) q <
        dist t.numSlots (naturalSlot hash t.numSlots response) slot →
      dnsqrEq response g.dnsqr rcode = false := by
    intro q hq g hg hlt
    rw [← hit_some hg]
    exact hpath q hq hlt
  have hhead := hprobe
  rw [naturalSlot] at hhead
  cases hentry : t.table slot with
  | none =>
      refine ⟨none, t, ?_, h, ?_⟩
      · simp [dnsqrRetrieve, dnsqrHash_of_hashable hash hhash, hn, hhead, hentry]
      have hmiss : ∀ d ∈ t.toQueue.entries, dnsqrEq response d rcode = false := by
        intro d hd
        obtain ⟨le, hle, hrecord⟩ := List.mem_filterMap.mp hd
        obtain ⟨g, hg, -, hgd⟩ := h.linked.slot le hle
        obtain rfl : g.dnsqr = d := by rwa [hgd, Option.some.injEq] at hrecord
        by_contra hmatch
        rw [Bool.not_eq_false] at hmatch
        have hhome : naturalSlot hash t.numSlots g.dnsqr =
            naturalSlot hash t.numSlots response := by
          rw [naturalSlot, naturalSlot, dnsqrKey_eq_of_dnsqrEq hmatch]
        have hbound := h.linked.bound _ g hg
        by_cases hcloser : dist t.numSlots (naturalSlot hash t.numSlots response) (t.he le) <
            dist t.numSlots (naturalSlot hash t.numSlots response) slot
        · rw [hnear _ hbound g hg hcloser] at hmatch
          cases hmatch
        · have hne : dist t.numSlots (naturalSlot hash t.numSlots response) slot ≠
              dist t.numSlots (naturalSlot hash t.numSlots response) (t.he le) := by
            intro hsame
            rw [← eq_of_dist_eq (naturalSlot_lt hash hn response) hslot hbound hsame, hentry] at hg
            cases hg
          exact h.reach _ hbound g hg slot hslot (by simp only [hhome]; omega) hentry
      have hfind : (t.toQueue.entries.find? fun d => dnsqrEq response d rcode) = none := by
        simpa using hmiss
      have herase : (t.toQueue.entries.eraseP fun d => dnsqrEq response d rcode) =
          t.toQueue.entries :=
        List.eraseP_of_forall_not (by simpa using hmiss)
      simp only [DnsqrQueue.retrieve, hfind, herase]
  | some e =>
      have heq : dnsqrEq response e.dnsqr rcode = true := by rw [← hit_some hentry, hhit]
      obtain ⟨t', hremove, hinv, hqueue⟩ := dnsqrRemove_spec h hentry
      obtain ⟨hfind, herase⟩ := find?_eraseP_filterMap h.order
        (h.linked.back slot e hentry).1 (h.linked.record_eq hentry) heq
        (h.first_of_near hentry heq hnear)
      refine ⟨some e.dnsqr, t', ?_, hinv, ?_⟩
      · simp [dnsqrRetrieve, dnsqrHash_of_hashable hash hhash, hn, hhead, hentry, hremove]
      rw [hqueue]
      simp only [DnsqrQueue.retrieve, DnsqrTable.queueWithout, DnsqrTable.toQueue] at hfind herase ⊢
      rw [hfind, herase]

/-! ### Expiry -/

theorem dnsqrTrim_spec {t : DnsqrTable} (h : TableInvariant hash t) :
    ∃ r t', dnsqrTrim hash t = .ok (r, t') ∧ TableInvariant hash t' ∧
      t.toQueue.trim = (r, t'.toQueue) := by
  cases hlist : t.list with
  | nil =>
      refine ⟨none, t, by simp only [dnsqrTrim, hlist], h, ?_⟩
      simp only [DnsqrQueue.trim, DnsqrTable.toQueue, hlist, List.filterMap_nil]
  | cons le rest =>
      obtain ⟨e, he, hle, hrecord⟩ := h.linked.slot le (by simp [hlist])
      obtain ⟨hsec, hnsec⟩ := h.timed _ e he
      obtain ⟨sec, secs, hsecs⟩ := List.exists_cons_of_ne_nil hsec
      obtain ⟨nsec, nsecs, hnsecs⟩ := List.exists_cons_of_ne_nil hnsec
      have hentries : t.toQueue.entries = e.dnsqr :: rest.filterMap t.entryAt := by
        simp only [DnsqrTable.toQueue, hlist, List.filterMap_cons, hrecord]
      have hcount : t.count = t.toQueue.entries.length := by
        have hall : ∀ k ∈ t.list, (t.entryAt k).isSome = true := by
          intro k hk
          obtain ⟨g, -, -, hg⟩ := h.linked.slot k hk
          rw [hg]
          rfl
        rw [h.counted, DnsqrTable.toQueue, List.length_filterMap_eq_countP,
          List.countP_eq_length.mpr hall]
      have hexpires : (t.count > t.maxValues ∨ t.stop = true ∨
          t.now.sec - sec > t.queryTimeout) ↔ t.toQueue.Expires e.dnsqr := by
        simp only [DnsqrQueue.Expires, hcount, hsecs, List.headD_cons]
        rfl
      by_cases hexp : t.toQueue.Expires e.dnsqr
      · obtain ⟨t', hremove, hinv, hqueue⟩ := dnsqrRemove_spec h he
        refine ⟨some (DnsqrQueue.timedOut t.now e.dnsqr), t', ?_, hinv, ?_⟩
        · simp only [dnsqrTrim, hlist, he, hsecs, hnsecs, if_pos (hexpires.mpr hexp), hremove,
            DnsqrQueue.timedOut, List.headD_cons]
        · have hrest : t.queueWithout e.le = { t.toQueue with
              entries := rest.filterMap t.entryAt } := by
            simp only [DnsqrTable.queueWithout, hlist, hle, List.erase_cons_head]
          rw [DnsqrQueue.trim, hqueue, hrest, hentries]
          simp only [if_pos hexp, DnsqrQueue.timedOut, hsecs, hnsecs, List.headD_cons]
          rfl
      · refine ⟨none, t, ?_, h, ?_⟩
        · simp only [dnsqrTrim, hlist, he, hsecs, hnsecs,
            if_neg (fun hcond => hexp (hexpires.mp hcond))]
        · rw [DnsqrQueue.trim, hentries]
          simp only [if_neg hexp]

/-! ### Runs -/

/-- Every operation does to the table what it does to the queue. -/
theorem tableStep_spec {t : DnsqrTable} (h : TableInvariant hash t) {op : TableOp}
    (hop : op.WellFormed) (hroom : op.HasRoom t) :
    ∃ r t', tableStep hash t op = .ok (r, t') ∧ TableInvariant hash t' ∧
      t.toQueue.step op = .ok (r, t'.toQueue) := by
  cases op with
  | insertQuery d =>
      obtain ⟨t', hok, hinv, hqueue⟩ := dnsqrInsertQuery_spec h hop.1 hop.2.1 hop.2.2 hroom
      exact ⟨none, t', by rw [tableStep, hok]; rfl, hinv, by rw [DnsqrQueue.step, hqueue]⟩
  | retrieve d rcode =>
      obtain ⟨r, t', hok, hinv, hqueue⟩ := dnsqrRetrieve_spec h _ hop hroom
      exact ⟨r, t', hok, hinv, by rw [DnsqrQueue.step, hqueue]⟩
  | trim =>
      obtain ⟨r, t', hok, hinv, hqueue⟩ := dnsqrTrim_spec h
      exact ⟨r, t', hok, hinv, by rw [DnsqrQueue.step, hqueue]⟩
  | setNow now => exact ⟨none, _, rfl, ⟨h.1, h.2, h.3, h.4, h.5, h.6, h.7⟩, rfl⟩
  | setStop stop => exact ⟨none, _, rfl, ⟨h.1, h.2, h.3, h.4, h.5, h.6, h.7⟩, rfl⟩

/-- **The table is a queue.** From an empty table, any sequence of calls that finds an empty slot
when it inserts or retrieves gives the results of the queue, and table, list and count agree after
every call. -/
theorem dnsqrTable_refines_queue (hash : DnsqrKey → UInt32)
    (numSlots maxValues queryTimeout : Nat) (ops : List TableOp)
    (hops : ∀ op ∈ ops, op.WellFormed)
    (hroom : StepRun.Along (tableStep hash) (fun t op => op.HasRoom t)
      (DnsqrTable.empty numSlots maxValues queryTimeout) ops) :
    StepRun.Safe (tableStep hash) (DnsqrTable.Consistent hash)
        (DnsqrTable.empty numSlots maxValues queryTimeout) ops ∧
      ∃ results t q,
        StepRun.run (tableStep hash) (DnsqrTable.empty numSlots maxValues queryTimeout) ops =
          .ok (results, t) ∧
        StepRun.run DnsqrQueue.step (DnsqrQueue.empty maxValues queryTimeout) ops =
          .ok (results, q) ∧
        t.toQueue = q := by
  have hboth : StepRun.Along (tableStep hash) (fun t op => op.WellFormed ∧ op.HasRoom t)
      (DnsqrTable.empty numSlots maxValues queryTimeout) ops :=
    StepRun.along_and hops hroom
  have hempty := tableInvariant_empty hash numSlots maxValues queryTimeout
  constructor
  · refine StepRun.Safe.mono (fun t ht => ht.consistent)
      (StepRun.safe_of_along ?_ hempty hboth)
    intro t op hinv hop
    obtain ⟨r, t', hok, hinv', -⟩ := tableStep_spec hinv hop.1 hop.2
    exact ⟨r, t', hok, hinv'⟩
  · have hsim : ∀ (t : DnsqrTable) (q : DnsqrQueue) (op : TableOp),
        TableInvariant hash t ∧ t.toQueue = q → op.WellFormed ∧ op.HasRoom t →
        ∃ r t' q', tableStep hash t op = .ok (r, t') ∧ DnsqrQueue.step q op = .ok (r, q') ∧
          TableInvariant hash t' ∧ t'.toQueue = q' := by
      rintro t q op ⟨hinv, rfl⟩ hop
      obtain ⟨r, t', hok, hinv', hqueue⟩ := tableStep_spec hinv hop.1 hop.2
      exact ⟨r, t', _, hok, hqueue, hinv', rfl⟩
    obtain ⟨results, t, q, hrun, hspec, hrel⟩ :=
      StepRun.run_simulation hsim ⟨hempty, rfl⟩ hboth
    exact ⟨results, t, q, hrun, hspec, hrel.2⟩

/-- A query and its retransmission. -/
def sampleQuery : DnsQR :=
  { DnsQR.init with
    queryIp := [10, 0, 0, 1]
    responseIp := [10, 0, 0, 2]
    proto := 17
    queryPort := 1024
    responsePort := 53
    queryTimeSec := [1]
    queryTimeNsec := [0] }

/-- Three slots and one natural slot, the last: the second query wraps to the front, and is moved
back when the response takes the first. -/
theorem dnsqrTable_refines_queue_wrapped :
    StepRun.Safe (tableStep fun _ => 2) (DnsqrTable.Consistent fun _ => 2)
        (DnsqrTable.empty 3 1 60)
        [.insertQuery sampleQuery, .insertQuery sampleQuery, .retrieve sampleQuery 5, .trim] ∧
      ∃ results t q,
        StepRun.run (tableStep fun _ => 2) (DnsqrTable.empty 3 1 60)
          [.insertQuery sampleQuery, .insertQuery sampleQuery, .retrieve sampleQuery 5, .trim] =
            .ok (results, t) ∧
        StepRun.run DnsqrQueue.step (DnsqrQueue.empty 1 60)
          [.insertQuery sampleQuery, .insertQuery sampleQuery, .retrieve sampleQuery 5, .trim] =
            .ok (results, q) ∧
        t.toQueue = q := by
  apply dnsqrTable_refines_queue
  · intro op hop
    simp only [List.mem_cons, List.not_mem_nil, or_false] at hop
    rcases hop with rfl | rfl | rfl | rfl <;> decide
  · refine StepRun.along_cons ⟨0, by decide, rfl⟩ ?_
    refine StepRun.along_cons ⟨0, by decide, rfl⟩ ?_
    refine StepRun.along_cons ⟨1, by decide, rfl⟩ ?_
    exact StepRun.along_cons trivial trivial

end Nmsg

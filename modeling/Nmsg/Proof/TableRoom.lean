import Nmsg.Proof.DnsqrTable
import Nmsg.Proof.RecordFaults
import Nmsg.Lib.StepRun

/-!
# The table of queries never fills

Each call takes a query out of the table before it may put one in, so that a packet always finds
at most `max_values` queries in twice as many slots.
-/

namespace Nmsg

/-! ### The size of the table -/

section Table

variable {hash : DnsqrKey → UInt32} {t t' : DnsqrTable}

theorem TableInvariant.count_eq (h : TableInvariant hash t) :
    t.count = t.toQueue.entries.length := by
  have hsome : ∀ le ∈ t.list, (t.entryAt le).isSome = true := by
    intro le hle
    obtain ⟨e, -, -, hrecord⟩ := h.linked.slot le hle
    rw [hrecord, Option.isSome_some]
  rw [h.counted, DnsqrTable.toQueue, List.length_filterMap_eq_countP, List.countP_eq_length.mpr hsome]

/-- With fewer queries than slots, a slot is free. -/
theorem TableInvariant.exists_free (h : TableInvariant hash t) (hcount : t.count < t.numSlots) :
    ∃ s < t.numSlots, t.table s = none := by
  by_contra hfull
  push Not at hfull
  have hsome : ∀ s ∈ List.range t.numSlots, (t.table s).isSome = true := by
    intro s hs
    exact Option.isSome_iff_ne_none.mpr (hfull s (List.mem_range.mp hs))
  have hcounted := h.consistent.counted
  rw [List.length_filterMap_eq_countP, List.countP_eq_length.mpr hsome, List.length_range]
    at hcounted
  omega

theorem dnsqrInsertQuery_numSlots {d : DnsQR} (h : dnsqrInsertQuery hash t d = .ok t') :
    t'.numSlots = t.numSlots := by
  unfold dnsqrInsertQuery at h
  split at h
  · cases h
  · split at h
    · cases h
    · dsimp only at h
      split at h
      · cases h
      · cases h
        rfl

theorem dnsqrRemove_numSlots {slot : Nat} (h : dnsqrRemove hash t slot = .ok t') :
    t'.numSlots = t.numSlots := by
  unfold dnsqrRemove at h
  split at h
  · cases h
  · split at h
    · cases h
    · cases h
      rfl

theorem dnsqrTrim_numSlots {r : Option DnsQR} (h : dnsqrTrim hash t = .ok (r, t')) :
    t'.numSlots = t.numSlots := by
  unfold dnsqrTrim at h
  split at h
  · cases h
    rfl
  · split at h
    · cases h
    · split at h
      · split at h
        · split at h
          · cases h
          · next hremove =>
              cases h
              exact dnsqrRemove_numSlots hremove
        · cases h
          rfl
      · cases h

theorem dnsqrRetrieve_numSlots {d : DnsQR} {rcode : UInt16} {r : Option DnsQR}
    (h : dnsqrRetrieve hash t d rcode = .ok (r, t')) : t'.numSlots = t.numSlots := by
  unfold dnsqrRetrieve at h
  split at h
  · cases h
  · split at h
    · cases h
    · dsimp only at h
      split at h
      · cases h
      · split at h
        · cases h
          rfl
        · split at h
          · cases h
          · next hremove =>
              cases h
              exact dnsqrRemove_numSlots hremove

end Table

/-- A query too many is the one that leaves. -/
theorem DnsqrQueue.trim_bound {q q' : DnsqrQueue} {r : Option DnsQR} (h : q.trim = (r, q'))
    (hlen : q.entries.length ≤ q.maxValues + 1) :
    q'.maxValues = q.maxValues ∧ q'.entries.length ≤ q.maxValues := by
  unfold DnsqrQueue.trim at h
  split at h
  · next hnil =>
      cases h
      simp [hnil]
  · next head rest hentries =>
      rw [hentries, List.length_cons] at hlen
      split at h
      · cases h
        exact ⟨rfl, Nat.le_of_succ_le_succ hlen⟩
      · next hstay =>
          cases h
          refine ⟨rfl, ?_⟩
          by_contra hlong
          exact hstay (Or.inl (Nat.not_le.mp hlong))

/-- A table of `m` queries in twice as many slots, that holds at most `n` now. -/
structure TableHolds (hash : DnsqrKey → UInt32) (m n : Nat) (t : DnsqrTable) : Prop where
  inv : TableInvariant hash t
  slots : t.numSlots = 2 * m
  bound : t.maxValues = m
  count : t.count ≤ n

section Holds

variable {hash : DnsqrKey → UInt32} {m n : Nat} {t : DnsqrTable}

theorem tableHolds_empty (hash : DnsqrKey → UInt32) (m n queryTimeout : Nat) :
    TableHolds hash m n (DnsqrTable.empty (2 * m) m queryTimeout) :=
  ⟨tableInvariant_empty hash _ _ _, rfl, rfl, Nat.zero_le n⟩

theorem TableHolds.mono {n' : Nat} (h : TableHolds hash m n t) (hle : n ≤ n') :
    TableHolds hash m n' t :=
  ⟨h.inv, h.slots, h.bound, Nat.le_trans h.count hle⟩

/-- The clock and the stop mode are no part of what the table holds. -/
theorem TableHolds.set (h : TableHolds hash m n t) (now : Timespec) (stop : Bool) :
    TableHolds hash m n { t with now := now, stop := stop } := by
  refine ⟨?_, h.slots, h.bound, h.count⟩
  exact ⟨h.inv.linked, h.inv.order, h.inv.allocated, h.inv.counted, h.inv.reach, h.inv.fifo,
    h.inv.timed⟩

theorem TableHolds.exists_free (h : TableHolds hash m n t) (hlt : n < 2 * m) :
    ∃ s < t.numSlots, t.table s = none := by
  apply h.inv.exists_free
  have := h.count
  have := h.slots
  omega

/-- One query too many leaves the table before a packet is read. -/
theorem dnsqrTrim_holds (h : TableHolds hash m (m + 1) t) :
    ∃ r t', dnsqrTrim hash t = .ok (r, t') ∧ TableHolds hash m m t' := by
  obtain ⟨r, t', htrim, hinv, hqueue⟩ := dnsqrTrim_spec h.inv
  have hbefore : t.toQueue.entries.length ≤ t.toQueue.maxValues + 1 := by
    rw [← h.inv.count_eq]
    exact h.count.trans (Nat.succ_le_succ h.bound.ge)
  obtain ⟨hmax, hlen⟩ := DnsqrQueue.trim_bound hqueue hbefore
  refine ⟨r, t', htrim, hinv, ?_, ?_, ?_⟩
  · rw [dnsqrTrim_numSlots htrim, h.slots]
  · exact hmax.trans h.bound
  · rw [hinv.count_eq]
    exact hlen.trans h.bound.le

theorem dnsqrInsertQuery_holds (h : TableHolds hash m m t) (hpos : 1 ≤ m) {d : DnsQR}
    (hhash : d.Hashable) (hsec : d.queryTimeSec ≠ []) (hnsec : d.queryTimeNsec ≠ []) :
    ∃ t', dnsqrInsertQuery hash t d = .ok t' ∧ TableHolds hash m (m + 1) t' := by
  obtain ⟨t', hinsert, hinv, hqueue⟩ :=
    dnsqrInsertQuery_spec h.inv hhash hsec hnsec (h.exists_free (by omega))
  refine ⟨t', hinsert, hinv, ?_, ?_, ?_⟩
  · rw [dnsqrInsertQuery_numSlots hinsert, h.slots]
  · have hmax : t'.toQueue.maxValues = t.toQueue.maxValues := by
      rw [hqueue]
      rfl
    exact hmax.trans h.bound
  · have hle := h.count
    have hcount := h.inv.count_eq
    rw [hinv.count_eq, hqueue, DnsqrQueue.insertQuery, List.length_append, List.length_singleton]
    omega

theorem dnsqrRetrieve_holds (h : TableHolds hash m m t) (hpos : 1 ≤ m) {response : DnsQR}
    (rcode : UInt16) (hhash : response.Hashable) :
    ∃ r t', dnsqrRetrieve hash t response rcode = .ok (r, t') ∧ TableHolds hash m m t' := by
  obtain ⟨r, t', hretrieve, hinv, hqueue⟩ :=
    dnsqrRetrieve_spec h.inv rcode hhash (h.exists_free (by omega))
  rw [DnsqrQueue.retrieve, Prod.mk.injEq] at hqueue
  refine ⟨r, t', hretrieve, hinv, ?_, ?_, ?_⟩
  · rw [dnsqrRetrieve_numSlots hretrieve, h.slots]
  · have hmax : t'.toQueue.maxValues = t.toQueue.maxValues := by
      rw [← hqueue.2]
    exact hmax.trans h.bound
  · have hle := h.count
    have hcount := h.inv.count_eq
    have herase : (t.toQueue.entries.eraseP fun d => dnsqrEq response d rcode).length ≤
        t.toQueue.entries.length := List.eraseP_sublist.length_le
    rw [hinv.count_eq, ← hqueue.2]
    dsimp only
    omega

end Holds

/-! ### One call -/

section Call

variable (env : DnsqrEnv) {m : Nat} {ctx : DnsqrCtx}

/-- Up to the read, a call only takes from the table, and leaves room for one query more. -/
theorem dnsqrExpire_outcome (h : TableHolds env.hash m (m + 1) ctx.state) :
    Outcome MemoryFault (fun r => TableHolds env.hash m m r.2.state) (dnsqrExpire env ctx) := by
  obtain ⟨r, t', htrim, hholds⟩ := dnsqrTrim_holds h
  unfold dnsqrExpire
  rw [htrim]
  cases r with
  | none => exact hholds
  | some dnsqr =>
      refine (doFilter_outcome env { ctx with state := t' } dnsqr).bind fun drop _ => ?_
      split
      case isTrue => exact hholds
      case isFalse => exact (dnsqrToMessage_outcome _ _ _).bind fun msg _ => hholds

/-- Where a query is inserted or searched for, a slot is free, and the walk ends there. -/
theorem captureQuery_outcome (h : TableHolds env.hash m m ctx.state) (hpos : 1 ≤ m)
    {dnsqr : DnsQR} {d : Datagram} (hentry : ∀ entry, d.entry = some entry → entry.frags ≠ [])
    (hhash : dnsqr.Hashable) (ts : Timespec) :
    Outcome MemoryFault (fun ctx' => TableHolds env.hash m (m + 1) ctx'.state)
      (captureQuery env ctx dnsqr d ts) := by
  unfold captureQuery
  refine (appendDatagram_query { dnsqr with type := .udpUnansweredQuery }
    hentry ts hhash).bind fun q hq => ?_
  obtain ⟨hhash', hsec, hnsec⟩ := hq
  obtain ⟨t', hinsert, hholds⟩ := dnsqrInsertQuery_holds h hpos hhash' hsec hnsec
  rw [hinsert]
  exact hholds

theorem captureResponse_outcome (h : TableHolds env.hash m m ctx.state) (hpos : 1 ≤ m)
    {dnsqr : DnsQR} {d : Datagram} (hentry : ∀ entry, d.entry = some entry → entry.frags ≠ [])
    (hquery : dnsqr.NoQuery) (hhash : dnsqr.Hashable) (flags : Nat) (ts : Timespec) :
    Outcome MemoryFault (fun r => TableHolds env.hash m m r.2.state)
      (captureResponse env ctx dnsqr flags d ts) := by
  unfold captureResponse
  refine (appendDatagram_response
    { dnsqr with rcode := some (UInt32.ofNat (dnsFlagRcode flags)) } hentry ts
    ⟨hquery.packet, hquery.sec, hquery.nsec⟩ hhash).bind fun r hr => ?_
  obtain ⟨hnone, hhash'⟩ := hr
  obtain ⟨q, t', hretrieve, hholds⟩ :=
    dnsqrRetrieve_holds h hpos (UInt16.ofNat (dnsFlagRcode flags)) hhash'
  rw [hretrieve]
  cases q with
  | none =>
      dsimp only [bind, Except.bind]
      split
      case isTrue => exact hholds
      case isFalse => exact (dnsqrToMessage_outcome _ _ _).bind fun msg _ => hholds
  | some query =>
      have hmerge : dnsqrMerge query { r with type := .udpQueryResponse } = .ok { r with
          type := .udpQueryResponse
          queryPacket := query.queryPacket
          queryTimeSec := query.queryTimeSec
          queryTimeNsec := query.queryTimeNsec
          qname := r.qname.or query.qname
          qtype := r.qtype.or query.qtype
          qclass := r.qclass.or query.qclass } := by
        rw [dnsqrMerge, if_pos ⟨hnone.packet, hnone.sec, hnone.nsec⟩]
      dsimp only [bind, Except.bind]
      rw [hmerge]
      refine (doFilter_outcome env _ _).bind fun drop _ => ?_
      split
      case isTrue => exact hholds
      case isFalse => exact (dnsqrToMessage_outcome _ _ _).bind fun msg _ => hholds

/-- A packet puts at most one query into the table. -/
theorem doPacketCapture_outcome (h : TableHolds env.hash m m ctx.state) (hpos : 1 ≤ m)
    {dnsqr : DnsQR} {d : Datagram} (hentry : ∀ entry, d.entry = some entry → entry.frags ≠ [])
    (hudp : d.dg.protoTransport = ipprotoUdp → dnsqr.NoQuery ∧ dnsqr.Hashable)
    (flags : Nat) (ts : Timespec) :
    Outcome MemoryFault (fun r => TableHolds env.hash m (m + 1) r.2.state)
      (doPacketCapture env ctx d dnsqr flags ts) := by
  have hkeep : TableHolds env.hash m (m + 1) ctx.state := h.mono (Nat.le_succ m)
  unfold doPacketCapture
  split
  case isFalse => exact (dnsqrToMessage_outcome _ _ _).bind fun msg _ => hkeep
  case isTrue hproto =>
    obtain ⟨hquery, hhash⟩ := hudp hproto
    cases ctx.captureQr with
    | some responses =>
        have hone : Outcome MemoryFault (fun _ => True)
            (captureOneWay env ctx responses dnsqr flags d ts) := by
          unfold captureOneWay
          split
          case isTrue =>
            refine (copyAt_outcome _ _ _).bind fun network _ => ?_
            exact (dnsqrToMessage_outcome _ _ _).bind fun msg _ => trivial
          case isFalse =>
            split
            case isFalse => trivial
            case isTrue =>
              refine (appendDatagram_response _ hentry ts ?_ ?_).bind fun r _ => ?_
              · exact ⟨hquery.packet, hquery.sec, hquery.nsec⟩
              · exact hhash
              · exact (dnsqrToMessage_outcome _ _ _).bind fun msg _ => trivial
        exact hone.bind fun msg _ => hkeep
    | none =>
        dsimp only
        split
        case isTrue =>
          exact (captureQuery_outcome env h hpos hentry hhash ts).bind fun ctx' hholds => hholds
        case isFalse =>
          exact (captureResponse_outcome env h hpos hentry hquery hhash flags ts).imp
            fun r hholds => hholds.mono (Nat.le_succ m)

theorem doPacket_outcome (h : TableHolds env.hash m m ctx.state) (hpos : 1 ≤ m) (f : PcapFrame) :
    Outcome MemoryFault (fun r => TableHolds env.hash m (m + 1) r.2.state)
      (doPacket env ctx f) := by
  unfold doPacket
  refine (doPacketDatagram_outcome env ctx f).bind fun r hr => ?_
  obtain ⟨d, ctx'⟩ := r
  obtain ⟨hentry, now, reasm, hctx⟩ := hr
  dsimp only at hctx
  subst hctx
  have hholds : TableHolds env.hash m m { ctx.state with now := now } := h.set now ctx.state.stop
  cases d with
  | none => exact hholds.mono (Nat.le_succ m)
  | some d =>
      refine (doPacketRecord_outcome env d).bind fun r hr => ?_
      match r with
      | none => exact hholds.mono (Nat.le_succ m)
      | some (dnsqr, flags) =>
          exact doPacketCapture_outcome env hholds hpos (hentry d rfl) (hr dnsqr flags rfl) flags
            f.ts

/-- **Step lemma.** A call that finds at most one query too many leaves at most one too many. -/
theorem dnsqrPktToPayload_outcome (h : TableHolds env.hash m (m + 1) ctx.state) (hpos : 1 ≤ m)
    (reads : List PcapRead) :
    Outcome MemoryFault (fun r => TableHolds env.hash m (m + 1) r.2.1.state)
      (dnsqrPktToPayload env ctx reads) := by
  unfold dnsqrPktToPayload
  refine (dnsqrExpire_outcome env h).bind fun b hb => ?_
  obtain ⟨b, ctx'⟩ := b
  have hkeep : TableHolds env.hash m (m + 1) ctx'.state := hb.mono (Nat.le_succ m)
  cases b with
  | message msg => exact hkeep
  | eof => exact hkeep
  | read =>
      dsimp only
      cases reads.headD .eof with
      | frame f => exact (doPacket_outcome env hb hpos f).bind fun r hr => hr
      | again => exact hkeep
      | pcapError => exact hkeep
      | eof => exact hkeep.set ctx'.state.now true

end Call

/-! ### Whole runs -/

def DnsqrTable.HasFreeSlot (t : DnsqrTable) : Prop := ∃ slot < t.numSlots, t.table slot = none

/-- The walks of `do_packet` through the table end at a slot. -/
structure ProbesEnd (env : DnsqrEnv) (ctx : DnsqrCtx) (f : PcapFrame) : Prop where
  /-- When a datagram has been parsed, a slot is free. -/
  free : ∀ d ctx', doPacketDatagram env ctx f = .ok (some d, ctx') →
    ctx'.state.count ≤ ctx'.state.maxValues ∧ ctx'.state.HasFreeSlot
  /-- A query made of it can be inserted. -/
  insertQuery : ∀ d ctx' dnsqr flags q, doPacketDatagram env ctx f = .ok (some d, ctx') →
    doPacketRecord env d = .ok (some (dnsqr, flags)) → d.dg.protoTransport = ipprotoUdp →
    appendDatagram dnsqrAppendQueryPacket { dnsqr with type := .udpUnansweredQuery } d f.ts =
      .ok q →
    ∃ t, dnsqrInsertQuery env.hash ctx'.state q = .ok t
  /-- The query of a response made of it can be looked for. -/
  retrieve : ∀ d ctx' dnsqr flags r, doPacketDatagram env ctx f = .ok (some d, ctx') →
    doPacketRecord env d = .ok (some (dnsqr, flags)) → d.dg.protoTransport = ipprotoUdp →
    appendDatagram dnsqrAppendResponsePacket
      { dnsqr with rcode := some (UInt32.ofNat (dnsFlagRcode flags)) } d f.ts = .ok r →
    ∃ q t, dnsqrRetrieve env.hash ctx'.state r (UInt16.ofNat (dnsFlagRcode flags)) = .ok (q, t)

/-- The table as a call finds it, and what the call does with it. -/
structure TableNeverFills (env : DnsqrEnv) (ctx : DnsqrCtx) (reads : List PcapRead) : Prop where
  slots : ctx.state.numSlots = 2 * ctx.state.maxValues
  /-- Slots and counters are numbers of 32 bits. -/
  width : ctx.state.numSlots < 2 ^ 32 ∧ ctx.state.count < 2 ^ 32
  count : ctx.state.count ≤ ctx.state.maxValues + 1
  /-- The call returns or stops at a fault of memory: no assertion fails and every loop ends. -/
  returns : Outcome MemoryFault (fun _ => True) (dnsqrPktToPayload env ctx reads)
  /-- `do_packet` starts with a free slot, leaves at most one query too many, and its walks end. -/
  packet : ∀ ctx', dnsqrExpire env ctx = .ok (.read, ctx') →
    ctx'.state.count ≤ ctx'.state.maxValues ∧ ctx'.state.HasFreeSlot ∧
      ∀ f, ProbesEnd env ctx' f ∧
        Outcome MemoryFault (fun r => r.2.state.count ≤ r.2.state.maxValues + 1)
          (doPacket env ctx' f)
  /-- An entry can be deleted, from a full table too. -/
  remove : ∀ slot e, ctx.state.table slot = some e →
    ∃ t, dnsqrRemove env.hash ctx.state slot = .ok t

section Run

variable {env : DnsqrEnv} {m : Nat} {ctx : DnsqrCtx}

theorem probesEnd_of_holds (h : TableHolds env.hash m m ctx.state) (hpos : 1 ≤ m)
    (f : PcapFrame) : ProbesEnd env ctx f := by
  have hdatagram : ∀ d ctx', doPacketDatagram env ctx f = .ok (some d, ctx') →
      (∀ entry, d.entry = some entry → entry.frags ≠ []) ∧
        TableHolds env.hash m m ctx'.state := by
    intro d ctx' hd
    obtain ⟨hentry, now, reasm, hctx⟩ := (doPacketDatagram_outcome env ctx f).of_ok hd
    dsimp only at hctx
    refine ⟨hentry d rfl, ?_⟩
    rw [hctx]
    exact h.set now ctx.state.stop
  refine ⟨?_, ?_, ?_⟩
  · intro d ctx' hd
    have hholds := (hdatagram d ctx' hd).2
    refine ⟨?_, hholds.exists_free (by omega)⟩
    rw [hholds.bound]
    exact hholds.count
  · intro d ctx' dnsqr flags q hd hrecord hudp hq
    obtain ⟨hentry, hholds⟩ := hdatagram d ctx' hd
    have hhash := ((doPacketRecord_outcome env d).of_ok hrecord dnsqr flags rfl hudp).2
    obtain ⟨hhash', hsec, hnsec⟩ := (appendDatagram_query
      { dnsqr with type := .udpUnansweredQuery } hentry f.ts hhash).of_ok hq
    obtain ⟨t, hinsert, -⟩ := dnsqrInsertQuery_holds hholds hpos hhash' hsec hnsec
    exact ⟨t, hinsert⟩
  · intro d ctx' dnsqr flags r hd hrecord hudp hr
    obtain ⟨hentry, hholds⟩ := hdatagram d ctx' hd
    obtain ⟨hquery, hhash⟩ := (doPacketRecord_outcome env d).of_ok hrecord dnsqr flags rfl hudp
    have hhash' := ((appendDatagram_response
      { dnsqr with rcode := some (UInt32.ofNat (dnsFlagRcode flags)) } hentry f.ts
      ⟨hquery.packet, hquery.sec, hquery.nsec⟩ hhash).of_ok hr).2
    obtain ⟨q, t, hretrieve, -⟩ :=
      dnsqrRetrieve_holds hholds hpos (UInt16.ofNat (dnsFlagRcode flags)) hhash'
    exact ⟨q, t, hretrieve⟩

theorem tableNeverFills_of_holds (h : TableHolds env.hash m (m + 1) ctx.state) (hpos : 1 ≤ m)
    (hwidth : m < 2 ^ 31) (reads : List PcapRead) : TableNeverFills env ctx reads := by
  have hslots := h.slots
  have hbound := h.bound
  have hcount := h.count
  refine ⟨by omega, ⟨by omega, by omega⟩, by omega, ?_, ?_, ?_⟩
  · exact (dnsqrPktToPayload_outcome env h hpos reads).imp fun _ _ => trivial
  · intro ctx' hexpire
    have hholds : TableHolds env.hash m m ctx'.state := (dnsqrExpire_outcome env h).of_ok hexpire
    refine ⟨?_, hholds.exists_free (by omega), fun f => ⟨probesEnd_of_holds hholds hpos f, ?_⟩⟩
    · rw [hholds.bound]
      exact hholds.count
    · refine (doPacket_outcome env hholds hpos f).imp fun r hr => ?_
      rw [hr.bound]
      exact hr.count
  · intro slot e hslot
    obtain ⟨t, hremove, -⟩ := dnsqrRemove_spec h.inv hslot
    exact ⟨t, hremove⟩

end Run

/-! ### A table of one query -/

def sampleEnv : DnsqrEnv where
  host := .little
  hash := fun _ => 7
  hashName := fun _ => 0
  wdns := {
    skipName := List.length
    downcase := id
    leftChop := fun _ => none
    leftChop_lt := by simp }
  datalink := .raw
  filter := fun _ => true

/-- A query with identifier `id` from 10.0.0.1 to 10.0.0.2, without a question. -/
def sampleQueryFrame (id : UInt8) : PcapRead :=
  .frame {
    data := [0x45, 0, 0, 40, 0, 1, 0, 0, 64, 17, 0, 0, 10, 0, 0, 1, 10, 0, 0, 2,
      0x30, 0x39, 0, 53, 0, 20, 0, 0, 0, id, 1, 0, 0, 0, 0, 0, 0, 0, 0, 0]
    len := 40
    ts := ⟨100, 0⟩ }

/-- With room for one query, the second fills both slots; the next call takes the first out. -/
example :
    ((StepRun.run (captureStep sampleEnv) (dnsqrInit 1 60 none none false none none,
      [sampleQueryFrame 1, sampleQueryFrame 2]) [(), ()]).map fun r => r.2.1.state.count) =
      .ok 2 := by
  decide +kernel

end Nmsg

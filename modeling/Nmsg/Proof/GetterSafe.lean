import Nmsg.Proof.ResponseAssembly

/-!
# Getters of received messages

A message is received, its getters are called in any order, and it is destroyed. Nothing but the
packets decides whether this goes well: the delay compares all counts before it is computed, and
what the getters allocate is freed with the message. The exception is the buffer of a response that
cannot be put together, which is freed at once and again with the message.
-/

namespace Nmsg

open StepRun

/-! ### Delay -/

section Delay

variable {dnsqr : DnsQR} {payload : DecodedDnsqr}

theorem timeAt_ok {secs nsecs : List Int} {i : Nat} (hsecs : i < secs.length)
    (hnsecs : i < nsecs.length) : ∃ ts, timeAt secs nsecs i = .ok ts := by
  rw [timeAt, List.getElem?_eq_getElem hsecs, List.getElem?_eq_getElem hnsecs]
  exact ⟨_, rfl⟩

/-- The counts that are compared before a delay is computed. -/
structure TimesAlike (dnsqr : DnsQR) : Prop where
  query : dnsqr.queryTimeSec.length = 1 ∧ dnsqr.queryTimeNsec.length = 1
  response : dnsqr.responseTimeSec.length = dnsqr.responseTimeNsec.length

theorem TimesAlike.delayAt (h : TimesAlike dnsqr) {i : Nat} (hi : i < dnsqr.responseTimeSec.length) :
    ∃ delay, delayAt dnsqr i = .ok delay := by
  obtain ⟨response, hresponse⟩ := timeAt_ok hi (h.response ▸ hi)
  obtain ⟨query, hquery⟩ := timeAt_ok (show 0 < dnsqr.queryTimeSec.length by rw [h.query.1]; decide)
    (show 0 < dnsqr.queryTimeNsec.length by rw [h.query.2]; decide)
  rw [Nmsg.delayAt, hresponse, hquery]
  simp only [bind, Except.bind]
  split <;> exact ⟨_, rfl⟩

theorem TimesAlike.maxDelay (h : TimesAlike dnsqr) : ∀ (left i : Nat) (longest : Int),
    i + left ≤ dnsqr.responseTimeSec.length → ∃ delay, maxDelay dnsqr left i longest = .ok delay := by
  intro left
  induction left with
  | zero => exact fun i longest _ => ⟨longest, rfl⟩
  | succ left ih =>
      intro i longest hle
      obtain ⟨delay, hdelay⟩ := h.delayAt (show i < dnsqr.responseTimeSec.length by omega)
      obtain ⟨last, hlast⟩ := ih (i + 1) (if delay > longest then delay else longest) (by omega)
      exact ⟨last, Outcome.bind_eq_ok.mpr ⟨delay, hdelay, hlast⟩⟩

/-- **The delay** of any message is computed. -/
theorem dnsqrGetDelay_total (payload : DecodedDnsqr) (valIdx : Nat) :
    ∃ delay, dnsqrGetDelay payload valIdx = .ok delay := by
  unfold dnsqrGetDelay
  dsimp only
  split
  · exact ⟨none, rfl⟩
  split
  · exact ⟨none, rfl⟩
  split
  · exact ⟨none, rfl⟩
  next hquery hresponse =>
  have halike : TimesAlike payload.fields := ⟨by omega, by omega⟩
  split
  · obtain ⟨delay, hdelay⟩ := halike.delayAt (show 0 < _ by omega)
    exact ⟨some delay, Outcome.map_eq_ok.mpr ⟨delay, hdelay, rfl⟩⟩
  · obtain ⟨delay, hdelay⟩ := halike.maxDelay _ 0 0 (Nat.le_of_eq (Nat.zero_add _))
    exact ⟨some delay, Outcome.map_eq_ok.mpr ⟨delay, hdelay, rfl⟩⟩

end Delay

/-! ### Packets and checksums -/

section Reads

variable {host : ByteOrder} {ip pkt : Bytes} {payload : DecodedDnsqr} {valIdx : Nat}

/-- A packet is read within when its address says that it is one of IPv4. -/
def PacketReadable (ip pkt : Bytes) : Prop := ip.length = 4 → Ipv4Readable pkt

theorem packetPayload_ok_iff :
    (∃ answer, packetPayload host ip pkt = .ok answer) ↔ PacketReadable ip pkt := by
  unfold packetPayload PacketReadable
  by_cases hfour : ip.length = 4
  · rw [if_pos hfour, ipdgPayload_ipv4_iff]
    exact ⟨fun h _ => h, fun h => h hfour⟩
  · rw [if_neg hfour]
    refine ⟨fun _ h => absurd h hfour, fun _ => ?_⟩
    split
    · exact ipdgPayload_ipv6 host pkt
    · exact ⟨_, rfl⟩

theorem dnsqrGetQuery_total
    (hquery : ∀ pkt, payload.fields.queryPacket = [pkt] → PacketReadable payload.fields.queryIp pkt) :
    ∃ answer, dnsqrGetQuery host payload valIdx = .ok answer := by
  unfold dnsqrGetQuery
  split
  · exact ⟨_, rfl⟩
  · split
    · next pkt hpkt => exact packetPayload_ok_iff.mpr (hquery pkt hpkt)
    · exact ⟨_, rfl⟩

theorem dnsqrGetUdpChecksum_total
    (hpackets : payload.udpChecksum = none → payload.fields.resolverAddressZeroed ≠ some true →
      ChecksumPacketsReadable host payload.fields.responsePacket) :
    ∃ number, dnsqrGetUdpChecksum host payload valIdx = .ok number := by
  unfold dnsqrGetUdpChecksum
  split
  · exact ⟨none, rfl⟩
  · cases hnumber : payload.udpChecksum with
    | some number => exact ⟨some number, rfl⟩
    | none =>
        obtain ⟨sum, hsum⟩ : ∃ sum, dnsqrChecksumVerify host payload.fields = .ok sum := by
          unfold dnsqrChecksumVerify
          split
          · exact ⟨.error, rfl⟩
          · next hzeroed => exact checksumLoop_ok_iff.mpr (hpackets hnumber hzeroed)
        exact ⟨some sum.number, Outcome.map_eq_ok.mpr ⟨sum, hsum, rfl⟩⟩

end Reads

/-! ### What a message owns -/

/-- What the message owns is what it has allocated and not freed. -/
structure Owned (payload : DecodedDnsqr) (msg : DnsqrObject) : Prop where
  payload : msg.payload = payload
  nodup : msg.allocs.Nodup
  allocated : ∀ ptr ∈ msg.allocs, ptr < msg.fresh
  freed : ∀ ptr ∈ msg.freed, ptr < msg.fresh
  apart : ∀ ptr ∈ msg.allocs, ptr ∉ msg.freed

section Owned

variable {payload : DecodedDnsqr} {msg : DnsqrObject}

theorem owned_received (payload : DecodedDnsqr) : Owned payload (.received payload) :=
  ⟨rfl, List.nodup_nil, by rintro ptr ⟨⟩, by rintro ptr ⟨⟩, by rintro ptr ⟨⟩⟩

/-- A new object is recorded. -/
theorem Owned.recorded (h : Owned payload msg) :
    Owned payload (msg.malloc.2.addAllocation msg.malloc.1 true).2 := by
  have hnew : msg.fresh ∉ msg.allocs := fun hin => absurd (h.allocated _ hin) (Nat.lt_irrefl _)
  refine ⟨h.payload, ?_, fun ptr hptr => ?_, fun ptr hptr => Nat.lt_succ_of_lt (h.freed ptr hptr),
    fun ptr hptr hfreed => ?_⟩
  · exact List.nodup_append'.mpr ⟨h.nodup, List.nodup_singleton _, by
      rintro ptr hptr hnewest
      rw [List.mem_singleton.mp hnewest] at hptr
      exact hnew hptr⟩
  · rcases List.mem_append.mp hptr with hold | hnewest
    · exact Nat.lt_succ_of_lt (h.allocated ptr hold)
    · rw [List.mem_singleton.mp hnewest]
      exact Nat.lt_succ_self _
  · rcases List.mem_append.mp hptr with hold | hnewest
    · exact h.apart ptr hold hfreed
    · rw [List.mem_singleton.mp hnewest] at hfreed
      exact absurd (h.freed _ hfreed) (Nat.lt_irrefl _)

/-- A new object that is not recorded stays allocated, or is freed at once. -/
theorem Owned.unrecorded (h : Owned payload msg) : Owned payload msg.malloc.2 :=
  ⟨h.payload, h.nodup, fun ptr hptr => Nat.lt_succ_of_lt (h.allocated ptr hptr),
    fun ptr hptr => Nat.lt_succ_of_lt (h.freed ptr hptr), h.apart⟩

theorem Owned.freed_new (h : Owned payload msg) :
    ∃ msg', msg.malloc.2.free msg.malloc.1 = .ok msg' ∧ Owned payload msg' := by
  have hnew : msg.fresh ∉ msg.freed := fun hin => absurd (h.freed _ hin) (Nat.lt_irrefl _)
  have hkept := h.unrecorded
  refine ⟨_, if_neg hnew, hkept.payload, hkept.nodup, hkept.allocated, fun ptr hptr => ?_,
    fun ptr hptr hfreed => ?_⟩
  · rcases List.mem_cons.mp hptr with rfl | hold
    · exact Nat.lt_succ_self _
    · exact hkept.freed ptr hold
  · rcases List.mem_cons.mp hfreed with rfl | hold
    · exact absurd (h.allocated _ hptr) (Nat.lt_irrefl _)
    · exact hkept.apart ptr hptr hold

theorem freeAllocations_ok : ∀ {ptrs : List Nat} {msg : DnsqrObject}, ptrs.Nodup →
    (∀ ptr ∈ ptrs, ptr ∉ msg.freed) → ∃ msg', msg.freeAllocations ptrs = .ok msg' := by
  intro ptrs
  induction ptrs with
  | nil => exact fun _ _ => ⟨_, rfl⟩
  | cons ptr ptrs ih =>
      intro msg hnodup hapart
      obtain ⟨hnot, hrest⟩ := List.nodup_cons.mp hnodup
      have hfree : msg.free ptr = .ok { msg with freed := ptr :: msg.freed } :=
        if_neg (hapart ptr (List.mem_cons_self ..))
      obtain ⟨msg', hmsg'⟩ := @ih { msg with freed := ptr :: msg.freed } hrest fun q hq hfreed => by
        rcases List.mem_cons.mp hfreed with rfl | hfreed
        · exact hnot hq
        · exact hapart q (List.mem_cons_of_mem _ hq) hfreed
      exact ⟨msg', Outcome.bind_eq_ok.mpr ⟨_, hfree, hmsg'⟩⟩

/-- What has been freed is not freed again. -/
theorem freeAllocations_freed : ∀ {ptrs : List Nat} {msg msg' : DnsqrObject},
    msg.freeAllocations ptrs = .ok msg' → ∀ ptr ∈ ptrs, ptr ∉ msg.freed := by
  intro ptrs
  induction ptrs with
  | nil =>
      rintro msg msg' - ptr ⟨⟩
  | cons first ptrs ih =>
      intro msg msg' hok ptr hptr hfreed
      obtain ⟨_, hfree, hok⟩ := Outcome.bind_eq_ok.mp hok
      unfold DnsqrObject.free at hfree
      split at hfree
      · cases hfree
      · next hnot =>
          cases hfree
          rcases List.mem_cons.mp hptr with rfl | hptr
          · exact hnot hfreed
          · exact ih hok ptr hptr (List.mem_cons_of_mem _ hfreed)

end Owned

/-! ### The response -/

/-- The entry the packets of a response go into. -/
def responseEntry : ReasmIpEntry BaseFrag := .init (.ipv4 [] [] 0 0) 0 0

/-- The packets of a response are read within, and a datagram that they complete is put together and
read again. -/
structure ResponseFits (dnsqr : DnsQR) : Prop where
  single : ∀ pkt, dnsqr.responsePacket = [pkt] → PacketReadable dnsqr.responseIp pkt
  fragments : 2 ≤ dnsqr.responsePacket.length →
    FramesReadable responseEntry dnsqr.responsePacket dnsqr.responseTimeSec dnsqr.responseTimeNsec
  datagram : 2 ≤ dnsqr.responsePacket.length → ∀ e,
    acceptFrames responseEntry (timedFrames dnsqr.responsePacket dnsqr.responseTimeSec
      dnsqr.responseTimeNsec) = some e → reasmIsComplete e = true →
    ∃ first, e.frags.head? = some first ∧ AssemblyFits e first

section Response

variable {host : ByteOrder} {payload : DecodedDnsqr} {msg : DnsqrObject}
  {e : ReasmIpEntry BaseFrag} {frames : List (Bytes × Timespec)} {room : Bool}

theorem takenEntry_response (hall : acceptFrames responseEntry frames = some e) :
    FragsWithin e → TakenEntry e :=
  TakenEntry.acceptAll (fun _ => takenEntry_init _ _ _) hall

/-- A complete datagram that fits is answered with its payload. -/
theorem Owned.assembled (h : Owned payload msg) (htaken : FragsWithin e → TakenEntry e)
    (hfits : ∃ first, e.frags.head? = some first ∧ AssemblyFits e first) :
    ∃ out, msg.assembled host e room = .ok out ∧ Owned payload out.2 := by
  obtain ⟨pkt, answer, hpkt, hne, hanswer⟩ := (@assembleResponse_read_iff host e htaken).mpr hfits
  cases room with
  | false =>
      obtain ⟨msg', hfree, hkept⟩ := h.freed_new
      exact ⟨_, Outcome.bind_eq_ok.mpr ⟨msg', hfree, rfl⟩, hkept⟩
  | true =>
      refine ⟨(answer, (msg.malloc.2.addAllocation msg.malloc.1 true).2), ?_, h.recorded⟩
      refine Outcome.bind_eq_ok.mpr ⟨pkt, Outcome.mapError_eq_ok.mpr hpkt, ?_⟩
      rw [if_neg hne]
      exact Outcome.bind_eq_ok.mpr ⟨answer, Outcome.mapError_eq_ok.mpr hanswer, rfl⟩

/-- **The buffer** that is freed at once is freed again with the message. -/
theorem fits_of_assembled {out : (Res × Option Bytes) × DnsqrObject} {msg' : DnsqrObject}
    (hok : msg.assembled host e true = .ok out)
    (hdestroy : out.2.freeAllocations out.2.allocs = .ok msg')
    (htaken : FragsWithin e → TakenEntry e) :
    ∃ first, e.frags.head? = some first ∧ AssemblyFits e first := by
  obtain ⟨pkt, hpkt, hok⟩ := Outcome.bind_eq_ok.mp hok
  split at hok
  · obtain ⟨msg₁, hfree, hok⟩ := Outcome.bind_eq_ok.mp hok
    cases hok
    unfold DnsqrObject.free at hfree
    split at hfree
    · cases hfree
    · cases hfree
      exact absurd (List.mem_cons_self ..) (freeAllocations_freed hdestroy msg.fresh
        (List.mem_append_right _ (List.mem_singleton_self _)))
  · next hne =>
      obtain ⟨answer, hanswer, -⟩ := Outcome.bind_eq_ok.mp hok
      exact (assembleResponse_read_iff htaken).mp
        ⟨pkt, answer, Outcome.mapError_eq_ok.mp hpkt, hne, Outcome.mapError_eq_ok.mp hanswer⟩

/-- The loop of a response that is fragmented, with what comes behind it. -/
theorem getResponse_several (hpayload : msg.payload = payload) (hip : payload.fields.responseIp ≠ [])
    (hlen : 2 ≤ payload.fields.responsePacket.length) :
    msg.getResponse host 0 room = (do
      match ← orAbort (rereadFragments responseEntry payload.fields.responsePacket
          payload.fields.responseTimeSec payload.fields.responseTimeNsec) with
      | none => return ((.memfail, none), msg)
      | some entry =>
          if reasmIsComplete entry then msg.assembled host entry room
          else return ((.failure, none), msg)) := by
  subst hpayload
  unfold DnsqrObject.getResponse
  dsimp only
  rw [if_neg (by simp [hip])]
  cases hpkts : msg.payload.fields.responsePacket with
  | nil =>
      rw [hpkts] at hlen
      cases hlen
  | cons pkt pkts =>
      cases pkts with
      | nil =>
          rw [hpkts] at hlen
          exact absurd hlen (Nat.not_succ_le_self 1)
      | cons pkt' pkts => rfl

/-- The response of a message is looked for within its packets. -/
theorem Owned.getResponse (h : Owned payload msg)
    (hfits : payload.fields.responseIp ≠ [] → ResponseFits payload.fields) (valIdx : Nat) :
    ∃ out, msg.getResponse host valIdx room = .ok out ∧ Owned payload out.2 := by
  by_cases hasked : valIdx ≠ 0 ∨ payload.fields.responseIp = []
  · refine ⟨((.failure, none), msg), ?_, h⟩
    rw [DnsqrObject.getResponse, h.payload]
    exact if_pos hasked
  obtain ⟨hidx, hip⟩ := not_or.mp hasked
  obtain rfl : valIdx = 0 := not_not.mp hidx
  have hresponse := hfits hip
  by_cases hlen : 2 ≤ payload.fields.responsePacket.length
  · rw [getResponse_several h.payload hip hlen]
    obtain ⟨r, hr⟩ := rereadFragments_ok_iff.mpr (hresponse.fragments hlen)
    have hall := rereadFragments_ok hr
    rw [hr]
    cases r with
    | none => exact ⟨_, rfl, h⟩
    | some e =>
        cases hcomplete : reasmIsComplete e with
        | false =>
            refine ⟨((.failure, none), msg), ?_, h⟩
            change (if reasmIsComplete e = true then _ else _) = _
            rw [hcomplete]
            rfl
        | true =>
            obtain ⟨out, hout, hkept⟩ :=
              h.assembled (takenEntry_response hall) (hresponse.datagram hlen e hall hcomplete)
            refine ⟨out, ?_, hkept⟩
            change (if reasmIsComplete e = true then _ else _) = _
            rw [hcomplete]
            exact hout
  · rw [DnsqrObject.getResponse, h.payload, if_neg hasked]
    cases hpkts : payload.fields.responsePacket with
    | nil => exact ⟨_, rfl, h⟩
    | cons pkt pkts =>
        cases pkts with
        | nil =>
            obtain ⟨answer, hanswer⟩ : ∃ answer,
                packetPayload host payload.fields.responseIp pkt = .ok answer :=
              packetPayload_ok_iff.mpr (hresponse.single pkt hpkts)
            exact ⟨_, Outcome.map_eq_ok.mpr ⟨answer, Outcome.mapError_eq_ok.mpr hanswer, rfl⟩, h⟩
        | cons pkt' pkts =>
            rw [hpkts] at hlen
            exact absurd (Nat.le_add_left 2 _) hlen

end Response

/-! ### Runs -/

/-- The packets that the getters of a message come to are there to be read. -/
structure GettersFit (host : ByteOrder) (payload : DecodedDnsqr) : Prop where
  query : ∀ pkt, payload.fields.queryPacket = [pkt] → PacketReadable payload.fields.queryIp pkt
  checksum : payload.udpChecksum = none → payload.fields.resolverAddressZeroed ≠ some true →
    ChecksumPacketsReadable host payload.fields.responsePacket
  response : payload.fields.responseIp ≠ [] → ResponseFits payload.fields

section Runs

variable {host : ByteOrder} {payload : DecodedDnsqr} {msg msg' : DnsqrObject} {call : GetterCall}

theorem Owned.getDelay (h : Owned payload msg) (valIdx : Nat) (room : Bool) :
    ∃ out, msg.getDelay valIdx room = .ok out ∧ Owned payload out.2 := by
  obtain ⟨delay, hdelay⟩ := dnsqrGetDelay_total msg.payload valIdx
  unfold DnsqrObject.getDelay
  rw [hdelay]
  cases delay with
  | none => exact ⟨_, rfl, h⟩
  | some delay =>
      cases room with
      | false => exact ⟨_, rfl, h.unrecorded⟩
      | true => exact ⟨_, rfl, h.recorded⟩

/-- **One call** of any getter returns, and the message still owns what it has allocated. -/
theorem Owned.get (h : Owned payload msg) (hfits : GettersFit host payload) (call : GetterCall) :
    ∃ out msg', dnsqrGet host msg call = .ok (out, msg') ∧ Owned payload msg' := by
  obtain ⟨field, valIdx, room⟩ := call
  unfold dnsqrGet
  dsimp only
  rw [h.payload]
  cases field with
  | delay =>
      obtain ⟨⟨out, msg'⟩, hout, hkept⟩ := h.getDelay valIdx room
      exact ⟨out, msg', hout, hkept⟩
  | udpChecksum =>
      obtain ⟨number, hnumber⟩ : ∃ number, dnsqrGetUdpChecksum host payload valIdx = .ok number :=
        dnsqrGetUdpChecksum_total hfits.checksum
      exact ⟨_, msg, Outcome.map_eq_ok.mpr ⟨number, Outcome.mapError_eq_ok.mpr hnumber, rfl⟩, h⟩
  | query =>
      obtain ⟨answer, hanswer⟩ : ∃ answer, dnsqrGetQuery host payload valIdx = .ok answer :=
        dnsqrGetQuery_total hfits.query
      exact ⟨_, msg, Outcome.map_eq_ok.mpr ⟨answer, Outcome.mapError_eq_ok.mpr hanswer, rfl⟩, h⟩
  | response =>
      obtain ⟨out, hout, hkept⟩ : ∃ out, msg.getResponse host valIdx room = .ok out ∧ _ :=
        h.getResponse hfits.response valIdx
      exact ⟨_, out.2, Outcome.map_eq_ok.mpr ⟨out, hout, rfl⟩, hkept⟩

/-- What a message owns is freed with it. -/
theorem Owned.destroy (h : Owned payload msg) : ∃ msg', msg.freeAllocations msg.allocs = .ok msg' :=
  freeAllocations_ok h.nodup h.apart

/-- A single call and the end of the message. -/
theorem life_of_call {msg : DnsqrObject} (h : dnsqrLife host payload [call] = .ok msg) :
    ∃ out msg', dnsqrGet host (.received payload) call = .ok (out, msg') ∧
      msg'.freeAllocations msg'.allocs = .ok msg := by
  obtain ⟨⟨outs, msg'⟩, hrun, hdestroy⟩ := Outcome.bind_eq_ok.mp h
  obtain ⟨out, msg₁, _, hcall, hrest, _⟩ := run_cons_eq_ok.mp hrun
  cases hrest
  exact ⟨out, msg', hcall, hdestroy⟩

/-- What the response getter comes to is there. -/
theorem responseFits_of_get {out : (Res × Option GetterData) × DnsqrObject}
    (hcall : dnsqrGet host (.received payload) ⟨.response, 0, true⟩ = .ok out)
    (hdestroy : out.2.freeAllocations out.2.allocs = .ok msg')
    (hip : payload.fields.responseIp ≠ []) : ResponseFits payload.fields := by
  obtain ⟨answer, hget, rfl⟩ := Outcome.map_eq_ok.mp hcall
  dsimp only at hget hdestroy
  have hreceived : (DnsqrObject.received payload).payload = payload := rfl
  refine ⟨fun pkt hpkt => ?_, fun hlen => ?_, fun hlen e hall hcomplete => ?_⟩
  · rw [DnsqrObject.getResponse, if_neg (by simp [DnsqrObject.received, hip])] at hget
    simp only [DnsqrObject.received, hpkt] at hget
    obtain ⟨out, hout, -⟩ := Outcome.map_eq_ok.mp hget
    exact packetPayload_ok_iff.mp ⟨out, Outcome.mapError_eq_ok.mp hout⟩
  · rw [getResponse_several hreceived hip hlen] at hget
    obtain ⟨r, hr, -⟩ := Outcome.bind_eq_ok.mp hget
    exact rereadFragments_ok_iff.mp ⟨r, Outcome.mapError_eq_ok.mp hr⟩
  · rw [getResponse_several hreceived hip hlen] at hget
    obtain ⟨r, hr, hget⟩ := Outcome.bind_eq_ok.mp hget
    have hsame := rereadFragments_ok (Outcome.mapError_eq_ok.mp hr)
    rw [hall] at hsame
    subst hsame
    dsimp only at hget
    rw [if_pos hcomplete] at hget
    exact fits_of_assembled hget hdestroy (takenEntry_response hall)

/-- **Getters of a received message.** Whatever getters are called, in any order and at any index,
each of them returns and the message is destroyed without an object freed twice, just when the
packets they come to are there to be read. -/
theorem gettersSafe_iff (host : ByteOrder) (payload : DecodedDnsqr) :
    (∀ calls, ∃ msg, dnsqrLife host payload calls = .ok msg) ↔ GettersFit host payload := by
  constructor
  · intro hall
    refine ⟨fun pkt hpkt => ?_, fun hnumber hzeroed => ?_, fun hip => ?_⟩
    · obtain ⟨_, hlife⟩ := hall [⟨.query, 0, true⟩]
      obtain ⟨out, _, hcall, -⟩ := life_of_call hlife
      obtain ⟨answer, hanswer, -⟩ := Outcome.map_eq_ok.mp hcall
      have hget := Outcome.mapError_eq_ok.mp hanswer
      rw [dnsqrGetQuery, if_neg (not_not_intro rfl)] at hget
      simp only [DnsqrObject.received, hpkt] at hget
      exact packetPayload_ok_iff.mp ⟨answer, hget⟩
    · obtain ⟨_, hlife⟩ := hall [⟨.udpChecksum, 0, true⟩]
      obtain ⟨out, _, hcall, -⟩ := life_of_call hlife
      obtain ⟨number, hnumber', -⟩ := Outcome.map_eq_ok.mp hcall
      have hget := Outcome.mapError_eq_ok.mp hnumber'
      by_cases hnone : payload.fields.responsePacket = []
      · rw [hnone]
        exact Prefixes.eachAfter_nil
      · rw [dnsqrGetUdpChecksum, if_neg (by simp [DnsqrObject.received, hnone])] at hget
        simp only [DnsqrObject.received, hnumber] at hget
        obtain ⟨sum, hsum, -⟩ := Outcome.map_eq_ok.mp hget
        rw [dnsqrChecksumVerify, if_neg hzeroed] at hsum
        exact checksumLoop_ok_iff.mp ⟨sum, hsum⟩
    · obtain ⟨_, hlife⟩ := hall [⟨.response, 0, true⟩]
      obtain ⟨out, msg', hcall, hdestroy⟩ := life_of_call hlife
      exact responseFits_of_get hcall hdestroy hip
  · intro hfits calls
    have hstep : ∀ msg call, Owned payload msg → True →
        ∃ out msg', dnsqrGet host msg call = .ok (out, msg') ∧ True ∧ Owned payload msg' := by
      intro msg call h _
      obtain ⟨out, msg', hcall, hkept⟩ := h.get hfits call
      exact ⟨out, msg', hcall, trivial, hkept⟩
    obtain ⟨outs, msg', hrun, hkept, -⟩ : ∃ outs msg',
        run (dnsqrGet host) (.received payload) calls = .ok (outs, msg') ∧ Owned payload msg' ∧ _ :=
      answers_of_invariant (Owned payload) (fun _ => True) hstep (owned_received payload)
        fun _ _ => trivial
    obtain ⟨msg'', hdestroy⟩ := hkept.destroy
    exact ⟨msg'', Outcome.bind_eq_ok.mpr ⟨(outs, msg'), hrun, hdestroy⟩⟩

end Runs

end Nmsg

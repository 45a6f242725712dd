import Nmsg.Proof.PacketFaults

/-!
# How making a record and a message can end

The records made of packets are fit for the table: a UDP record has addresses that can be hashed,
and it carries the packets it is made of with their times.
-/

namespace Nmsg

/-! ### Filters -/

theorem dnsqrFilterLookup_outcome (hashName : Bytes → UInt32) (table : NameTable) (name : Bytes) :
    Outcome MemoryFault (fun _ => True) (dnsqrFilterLookup hashName table name) := by
  obtain ⟨s, hs, hfree⟩ := table.room
  have hhome : (hashName name).toNat % table.numSlots < table.numSlots :=
    Nat.mod_lt _ (Nat.lt_of_le_of_lt (Nat.zero_le s) hs)
  obtain ⟨t, -, hprobe, -⟩ :=
    LinearProbe.exists_probe
      (fun s => (table.slot s).isNone || decide (table.slot s = some name)) hhome
      ⟨s, hs, by simp [hfree]⟩
  unfold dnsqrFilterLookup
  simp only [hprobe]
  trivial

theorem suffixListed_outcome (hashName : Bytes → UInt32) (wdns : Wdns) (table : NameTable) :
    ∀ (fuel : Nat) (name : Bytes), name.length < fuel →
      Outcome MemoryFault (fun _ => True) (suffixListed hashName wdns table fuel name) := by
  intro fuel
  induction fuel with
  | zero =>
      intro name hfuel
      exact absurd hfuel (Nat.not_lt_zero _)
  | succ fuel ih =>
      intro name hfuel
      rw [suffixListed]
      refine (dnsqrFilterLookup_outcome _ _ _).bind fun listed _ => ?_
      split
      case isTrue => trivial
      case isFalse =>
        split
        case isTrue => trivial
        case isFalse hlen =>
          cases hchop : wdns.leftChop name with
          | none => trivial
          | some name' =>
              have := wdns.leftChop_lt name name' hlen hchop
              exact ih name' (by omega)

theorem doFilterQueryName_outcome (hashName : Bytes → UInt32) (wdns : Wdns)
    (qnamesInclude qnamesExclude : Option NameTable) (dnsqr : DnsQR) :
    Outcome MemoryFault (fun _ => True)
      (doFilterQueryName hashName wdns qnamesInclude qnamesExclude dnsqr) := by
  have hlisted : ∀ table name,
      Outcome MemoryFault (fun _ => True) (listedIn hashName wdns table name) := by
    intro table name
    cases table with
    | none => trivial
    | some table => exact suffixListed_outcome _ _ _ _ _ (Nat.lt_succ_self _)
  unfold doFilterQueryName
  cases dnsqr.qname with
  | none => trivial
  | some qname =>
      refine (hlisted qnamesInclude _).bind fun included _ => ?_
      split
      case isTrue => trivial
      case isFalse => exact hlisted qnamesExclude _

theorem getQueryFlags_outcome (host : ByteOrder) (dnsqr : DnsQR) :
    Outcome MemoryFault (fun _ => True) (getQueryFlags host dnsqr) := by
  unfold getQueryFlags
  cases dnsqr.queryPacket with
  | nil => trivial
  | cons pkt rest =>
      have hparse : Outcome MemoryFault (fun _ => True) (parseQueryPacket host dnsqr pkt) := by
        unfold parseQueryPacket
        split
        case isTrue => exact nmsgIpdgParse_outcome _ _ _ _
        case isFalse =>
          split
          case isTrue => exact nmsgIpdgParse_outcome _ _ _ _
          case isFalse => trivial
      refine hparse.bind fun dg _ => ?_
      cases dg with
      | none => trivial
      | some dg =>
          dsimp only
          split
          case isTrue => exact (loadNet16_outcome _ _).bind fun _ _ => trivial
          case isFalse => trivial

theorem doFilter_outcome (env : DnsqrEnv) (ctx : DnsqrCtx) (dnsqr : DnsQR) :
    Outcome MemoryFault (fun _ => True) (doFilter env ctx dnsqr) := by
  have hrd : Outcome MemoryFault (fun _ => True)
      (doFilterQueryRd env.host ctx.captureRd dnsqr) := by
    unfold doFilterQueryRd
    cases ctx.captureRd with
    | none => trivial
    | some rd =>
        refine (getQueryFlags_outcome _ _).bind fun qflags _ => ?_
        cases qflags <;> trivial
  unfold doFilter
  refine hrd.bind fun drop _ => ?_
  split
  case isTrue => trivial
  case isFalse => exact doFilterQueryName_outcome _ _ _ _ _

/-! ### Messages -/

theorem checksumPacket_outcome (host : ByteOrder) (pkt : Bytes) :
    Outcome MemoryFault (fun _ => True) (checksumPacket host pkt) := by
  unfold checksumPacket
  refine (nmsgIpdgParsePcapRaw_outcome _ _ _ _).bind fun dg _ => ?_
  cases dg with
  | none => trivial
  | some dg =>
      dsimp only
      split
      case isTrue => trivial
      case isFalse =>
        cases dg.transport with
        | none => exact (copyAt_outcome _ _ _).bind fun _ _ => trivial
        | some transport =>
            dsimp only
            split
            case isTrue => trivial
            case isFalse =>
              refine (loadNet16_outcome _ _).bind fun uhSum _ => ?_
              split
              case isTrue => trivial
              case isFalse =>
                have hpseudo : Outcome MemoryFault (fun _ => True)
                    (checksumPacket.pseudoHeader host pkt dg transport) := by
                  unfold checksumPacket.pseudoHeader
                  refine (copyAt_outcome _ _ _).bind fun ports _ => ?_
                  refine (copyAt_outcome _ _ _).bind fun ulen _ => ?_
                  refine (copyAt_outcome _ _ _).bind fun sum _ => ?_
                  cases dg.protoNetwork with
                  | inet =>
                      refine (copyAt_outcome _ _ _).bind fun addresses _ => ?_
                      exact (octetAt_outcome _ _).bind fun proto _ => trivial
                  | inet6 => exact (copyAt_outcome _ _ _).bind fun addresses _ => trivial
                refine hpseudo.bind fun pseudo _ => ?_
                exact (copyAt_outcome _ _ _).bind fun _ _ => trivial

theorem checksumLoop_outcome (host : ByteOrder) (pkts : List Bytes) :
    ∀ (pseudo : Option Bytes) (sum : Nat),
      Outcome MemoryFault (fun _ => True) (checksumLoop host pkts pseudo sum) := by
  induction pkts with
  | nil =>
      intro pseudo sum
      cases pseudo <;> trivial
  | cons pkt rest ih =>
      intro pseudo sum
      rw [checksumLoop]
      refine (checksumPacket_outcome _ _).bind fun result _ => ?_
      match result with
      | .inl result => trivial
      | .inr (pseudo', n) => exact ih _ _

theorem zeroAddress_outcome (at4 at6 : Nat) (pkt : Bytes) :
    Outcome MemoryFault (fun _ => True) (zeroAddress at4 at6 pkt) := by
  unfold zeroAddress
  refine (octetAt_outcome _ _).bind fun first _ => ?_
  have hwrite : ∀ i n, Outcome MemoryFault (fun _ => True) (writeAt pkt i (List.replicate n 0)) :=
    fun i n => (writeAt_outcome _ _ _).imp fun _ _ => trivial
  split
  case isTrue =>
    split
    case isTrue => exact hwrite _ _
    case isFalse => trivial
  case isFalse =>
    split
    case isFalse => trivial
    case isTrue =>
      split
      case isTrue => exact hwrite _ _
      case isFalse => trivial

theorem mapM_outcome {α β : Type} {f : α → Except Abort β}
    (hf : ∀ a, Outcome MemoryFault (fun _ => True) (f a)) (l : List α) :
    Outcome MemoryFault (fun _ => True) (l.mapM f) := by
  induction l with
  | nil => trivial
  | cons a l ih =>
      rw [List.mapM_cons]
      refine (hf a).bind fun b _ => ?_
      exact ih.bind fun bs _ => trivial

theorem dnsqrToMessage_outcome (host : ByteOrder) (zeroResolverAddress : Bool) (dnsqr : DnsQR) :
    Outcome MemoryFault (fun _ => True) (dnsqrToMessage host zeroResolverAddress dnsqr) := by
  have hzero : ∀ dnsqr, Outcome MemoryFault (fun _ => True) (dnsqrZeroResolverAddress dnsqr) := by
    intro dnsqr
    unfold dnsqrZeroResolverAddress
    refine (mapM_outcome (zeroAddress_outcome _ _) _).bind fun queryPacket _ => ?_
    exact (mapM_outcome (zeroAddress_outcome _ _) _).bind fun responsePacket _ => trivial
  have htime : ∀ dnsqr, Outcome MemoryFault (fun _ => True) (dnsqrTime dnsqr) := by
    intro dnsqr
    unfold dnsqrTime
    split
    · split
      · trivial
      · exact Or.inl rfl
    · split
      · trivial
      · exact Or.inl rfl
    · trivial
  have hverify : Outcome MemoryFault (fun _ => True) (dnsqrChecksumVerify host dnsqr) := by
    unfold dnsqrChecksumVerify
    split
    case isTrue => trivial
    case isFalse => exact checksumLoop_outcome _ _ _ _
  have hsum : Outcome MemoryFault (fun _ => True) (withUdpChecksum host dnsqr) := by
    unfold withUdpChecksum
    split
    case isTrue => exact hverify.bind fun _ _ => trivial
    case isFalse => trivial
  have hscrub : ∀ dnsqr, Outcome MemoryFault (fun _ => True)
      (withZeroedAddress zeroResolverAddress dnsqr) := by
    intro dnsqr
    unfold withZeroedAddress
    split
    case isTrue => exact hzero dnsqr
    case isFalse => trivial
  unfold dnsqrToMessage
  refine hsum.bind fun dnsqr _ => ?_
  refine (hscrub dnsqr).bind fun dnsqr _ => ?_
  exact (htime dnsqr).bind fun time _ => trivial

/-! ### Records -/

/-- A record that has no query packets yet. -/
structure DnsQR.NoQuery (d : DnsQR) : Prop where
  packet : d.queryPacket = []
  sec : d.queryTimeSec = []
  nsec : d.queryTimeNsec = []

/-- A record that has no packets yet. -/
structure DnsQR.NoPackets (d : DnsQR) : Prop extends d.NoQuery where
  responsePacket : d.responsePacket = []
  responseSec : d.responseTimeSec = []
  responseNsec : d.responseTimeNsec = []

theorem noPackets_init (proto : UInt32) : { DnsQR.init with proto := proto }.NoPackets :=
  ⟨⟨rfl, rfl, rfl⟩, rfl, rfl, rfl⟩

/-- What else a record says does not matter to it. -/
theorem DnsQR.NoPackets.congr {d d' : DnsQR} (h : d.NoPackets) (hq : d'.queryPacket = d.queryPacket)
    (hqs : d'.queryTimeSec = d.queryTimeSec) (hqn : d'.queryTimeNsec = d.queryTimeNsec)
    (hr : d'.responsePacket = d.responsePacket) (hrs : d'.responseTimeSec = d.responseTimeSec)
    (hrn : d'.responseTimeNsec = d.responseTimeNsec) : d'.NoPackets :=
  ⟨⟨hq.trans h.packet, hqs.trans h.sec, hqn.trans h.nsec⟩, hr.trans h.responsePacket,
    hrs.trans h.responseSec, hrn.trans h.responseNsec⟩

section Record

variable (wdns : Wdns) (host : ByteOrder) (pkt : Bytes) (dg : Ipdg) {d : DnsQR}

theorem doPacketDns_outcome (hd : d.NoPackets) :
    Outcome MemoryFault (fun r => ∀ d' flags, r = some (d', flags) → d'.NoPackets)
      (doPacketDns wdns pkt dg d) := by
  unfold doPacketDns
  split
  case isTrue =>
    intro d' flags hr
    cases hr
  case isFalse =>
    refine (loadNet16_outcome _ _).bind fun id _ => ?_
    refine (loadNet16_outcome _ _).bind fun flags _ => ?_
    refine (loadNet16_outcome _ _).bind fun qdcount _ => ?_
    dsimp only
    split
    case isFalse =>
      intro d' flags hr
      cases hr
      exact hd.congr rfl rfl rfl rfl rfl rfl
    case isTrue =>
      refine (copyAt_outcome _ _ _).bind fun rest _ => ?_
      generalize subSize (dg.lenPayload - 12) (wdns.skipName rest) = left
      split
      case isTrue =>
        intro d' flags hr
        cases hr
      case isFalse =>
        refine (copyAt_outcome _ _ _).bind fun qname _ => ?_
        refine (loadNet16_outcome _ _).bind fun qtype _ => ?_
        refine (loadNet16_outcome _ _).bind fun qclass _ => ?_
        intro d' flags hr
        cases hr
        exact hd.congr rfl rfl rfl rfl rfl rfl

theorem loadPorts_outcome (transport : Nat) :
    Outcome MemoryFault (fun _ => True) (loadPorts pkt transport) := by
  unfold loadPorts
  refine (loadNet16_outcome _ _).bind fun srcPort _ => ?_
  exact (loadNet16_outcome _ _).bind fun dstPort _ => trivial

theorem doPacketUdp_outcome (hd : d.NoPackets) :
    Outcome MemoryFault (fun r => ∀ d' flags, r = some (d', flags) → d'.NoPackets)
      (doPacketUdp wdns pkt dg d) := by
  unfold doPacketUdp
  cases dg.transport with
  | none =>
      intro d' flags hr
      cases hr
  | some transport =>
      refine (loadPorts_outcome _ _).bind fun ports _ => ?_
      dsimp only
      split
      case isTrue =>
        intro d' flags hr
        cases hr
      case isFalse =>
        refine (doPacketDns_outcome wdns pkt dg hd).bind fun r hr => ?_
        match r with
        | none =>
            intro d' flags hr
            cases hr
        | some (d₁, flags₁) =>
            have h₁ := hr d₁ flags₁ rfl
            dsimp only
            split
            · intro d' flags heq
              cases heq
              exact h₁.congr rfl rfl rfl rfl rfl rfl
            · intro d' flags heq
              cases heq
              exact h₁.congr rfl rfl rfl rfl rfl rfl

theorem doPacketTcp_outcome (hd : d.NoPackets) :
    Outcome MemoryFault (fun r => ∀ d', r = some d' → d'.NoPackets) (doPacketTcp pkt dg d) := by
  unfold doPacketTcp
  cases dg.transport with
  | none =>
      intro d' hr
      cases hr
  | some transport =>
      refine (loadPorts_outcome _ _).bind fun ports _ => ?_
      dsimp only
      split
      case isTrue =>
        refine (copyAt_outcome _ _ _).bind fun tcp _ => ?_
        rintro d' ⟨⟩
        exact hd.congr rfl rfl rfl rfl rfl rfl
      case isFalse =>
        intro d' hr
        cases hr

theorem doPacketIcmp_outcome (hd : d.NoPackets) :
    Outcome MemoryFault (fun r => ∀ d', r = some d' → d'.NoPackets)
      (doPacketIcmp host pkt dg d) := by
  unfold doPacketIcmp
  refine (nmsgIpdgParsePcapRaw_outcome _ _ _ _).bind fun icmpDg _ => ?_
  cases icmpDg with
  | none =>
      intro d' hr
      cases hr
  | some icmpDg =>
      dsimp only
      cases icmpDg.transport with
      | none =>
          intro d' hr
          cases hr
      | some transport =>
          dsimp only
          split
          case isFalse =>
            intro d' hr
            cases hr
          case isTrue =>
            refine (loadPorts_outcome _ _).bind fun ports _ => ?_
            generalize (if icmpDg.protoTransport = ipprotoUdp then
              isDnsPort ports.1 || isDnsPort ports.2
              else decide (ports.1 = 53) || decide (ports.2 = 53)) = accepted
            split
            case isTrue =>
              refine (copyAt_outcome _ _ _).bind fun icmp _ => ?_
              rintro d' ⟨⟩
              exact hd.congr rfl rfl rfl rfl rfl rfl
            case isFalse =>
              intro d' hr
              cases hr

/-- The addresses of a record have the length of those in the IP header. -/
theorem withAddresses_outcome {src dst len : Nat} (hlen : len = 4 ∨ len = 16) (flags : Nat)
    (hd : d.NoPackets) :
    Outcome MemoryFault (fun d' => d'.NoPackets ∧ d'.Hashable ∧ d'.responseIp.length = len)
      (withAddresses pkt dg src dst len d flags) := by
  unfold withAddresses
  refine (copyAt_outcome _ _ _).bind fun ipSrc hsrc => ?_
  refine (copyAt_outcome _ _ _).bind fun ipDst hdst => ?_
  have hhash : ∀ a b : Bytes, a.length = len → b.length = len →
      (a.length = 4 ∨ a.length = 16) ∧ (b.length = 4 ∨ b.length = 16) ∧ a.length ≤ b.length := by
    intro a b ha hb
    rw [ha, hb]
    exact ⟨hlen, hlen, Nat.le_refl len⟩
  split
  case isTrue => exact ⟨hd.congr rfl rfl rfl rfl rfl rfl, hhash _ _ hsrc hdst, hdst⟩
  case isFalse => exact ⟨hd.congr rfl rfl rfl rfl rfl rfl, hhash _ _ hdst hsrc, hsrc⟩

theorem doPacketIp_outcome {src dst len : Nat} (hlen : len = 4 ∨ len = 16) (hd : d.NoPackets) :
    Outcome MemoryFault (fun r => ∀ d' flags, r = some (d', flags) → d'.NoPackets ∧
      (dg.protoTransport = ipprotoUdp → d'.Hashable ∧ d'.responseIp.length = len))
      (doPacketIp wdns host pkt dg src dst len d) := by
  have hmap : ∀ r : Option DnsQR, (∀ d', r = some d' → d'.NoPackets) → ∀ d' flags,
      r.map (fun dnsqr => (dnsqr, 0)) = some (d', flags) → d'.NoPackets := by
    intro r hr d' flags heq
    obtain ⟨d₁, rfl, hd₁⟩ := Option.map_eq_some_iff.mp heq
    cases hd₁
    exact hr d' rfl
  unfold doPacketIp
  split
  case isTrue =>
    refine (doPacketUdp_outcome wdns pkt dg hd).bind fun r hr => ?_
    match r with
    | none =>
        intro d' flags hr
        cases hr
    | some (d₁, flags₁) =>
        refine (withAddresses_outcome pkt dg hlen flags₁ (hr d₁ flags₁ rfl)).bind fun d₂ h₂ => ?_
        intro d' flags heq
        cases heq
        exact ⟨h₂.1, fun _ => h₂.2⟩
  case isFalse hudp =>
    split
    case isTrue =>
      exact (doPacketTcp_outcome pkt dg hd).bind fun r hr d' flags heq =>
        ⟨hmap r hr d' flags heq, fun h => absurd h hudp⟩
    case isFalse =>
      split
      case isTrue =>
        exact (doPacketIcmp_outcome host pkt dg hd).bind fun r hr d' flags heq =>
          ⟨hmap r hr d' flags heq, fun h => absurd h hudp⟩
      case isFalse =>
        intro d' flags hr
        cases hr

end Record

/-- Octets of an address. -/
def ProtoNetwork.addressLen : ProtoNetwork → Nat
  | .inet => 4
  | .inet6 => 16

/-- A record is made without packets, and that of a UDP datagram with its addresses. -/
theorem doPacketRecord_made (env : DnsqrEnv) (d : Datagram) :
    Outcome MemoryFault (fun r => ∀ dnsqr flags, r = some (dnsqr, flags) →
      dnsqr.NoPackets ∧ d.dg.transport ≠ none ∧ (d.dg.protoTransport = ipprotoUdp →
        dnsqr.Hashable ∧ dnsqr.responseIp.length = d.dg.protoNetwork.addressLen))
      (doPacketRecord env d) := by
  unfold doPacketRecord
  split
  case isTrue =>
    intro d' flags hr
    cases hr
  case isFalse htransport =>
    cases d.dg.protoNetwork with
    | inet =>
        exact (doPacketIp_outcome _ _ _ _ (Or.inl rfl) (noPackets_init _)).imp
          fun r hr dnsqr flags heq => ⟨(hr dnsqr flags heq).1, htransport, (hr dnsqr flags heq).2⟩
    | inet6 =>
        refine (copyAt_outcome _ _ _).bind fun network _ => ?_
        split
        case isTrue =>
          exact (doPacketIp_outcome _ _ _ _ (Or.inr rfl) (noPackets_init _)).imp
            fun r hr dnsqr flags heq => ⟨(hr dnsqr flags heq).1, htransport, (hr dnsqr flags heq).2⟩
        case isFalse =>
          intro d' flags hr
          cases hr

/-- The record of a UDP datagram can be put into the table or searched for. -/
theorem doPacketRecord_outcome (env : DnsqrEnv) (d : Datagram) :
    Outcome MemoryFault (fun r => ∀ dnsqr flags, r = some (dnsqr, flags) →
      d.dg.protoTransport = ipprotoUdp → dnsqr.NoQuery ∧ dnsqr.Hashable)
      (doPacketRecord env d) := by
  refine (doPacketRecord_made env d).imp fun r hr dnsqr flags heq hudp => ?_
  obtain ⟨hpackets, -, hmade⟩ := hr dnsqr flags heq
  exact ⟨hpackets.toNoQuery, (hmade hudp).1⟩

/-! ### The packets of a record -/

/-- What every append keeps holds after all packets of a datagram have been appended, and what an
append establishes holds as well, since a datagram has a packet. -/
theorem appendDatagram_outcome {append : DnsQR → Bytes → Timespec → DnsQR} {P Q : DnsQR → Prop}
    (happend : ∀ dnsqr pkt ts, P dnsqr → P (append dnsqr pkt ts) ∧ Q (append dnsqr pkt ts))
    {dnsqr : DnsQR} {d : Datagram} (hentry : ∀ entry, d.entry = some entry → entry.frags ≠ [])
    (ts : Timespec) (hP : P dnsqr) :
    Outcome MemoryFault (fun dnsqr' => P dnsqr' ∧ Q dnsqr')
      (appendDatagram append dnsqr d ts) := by
  have hfrags : ∀ (frags : List BaseFrag) dnsqr, P dnsqr → (frags = [] → Q dnsqr) →
      Outcome MemoryFault (fun dnsqr' => P dnsqr' ∧ Q dnsqr')
        (dnsqrAppendFrag append dnsqr frags) := by
    intro frags
    induction frags with
    | nil => exact fun dnsqr hP hQ => ⟨hP, hQ rfl⟩
    | cons frag rest ih =>
        intro dnsqr hP _
        rw [dnsqrAppendFrag]
        refine (copyAt_outcome _ _ _).bind fun pkt _ => ?_
        obtain ⟨hP', hQ'⟩ := happend dnsqr pkt frag.ts hP
        exact ih _ hP' fun _ => hQ'
  unfold appendDatagram
  cases hd : d.entry with
  | some entry => exact hfrags _ _ hP fun hnil => absurd hnil (hentry entry hd)
  | none =>
      refine (copyAt_outcome _ _ _).bind fun network _ => ?_
      exact happend dnsqr network ts hP

/-- A query waits with its packets and their times. -/
theorem appendDatagram_query (dnsqr : DnsQR) {d : Datagram}
    (hentry : ∀ entry, d.entry = some entry → entry.frags ≠ []) (ts : Timespec)
    (hhash : dnsqr.Hashable) :
    Outcome MemoryFault
      (fun q => q.Hashable ∧ q.queryTimeSec ≠ [] ∧ q.queryTimeNsec ≠ [])
      (appendDatagram dnsqrAppendQueryPacket dnsqr d ts) := by
  have happend : ∀ (dnsqr : DnsQR) (pkt : Bytes) (ts : Timespec), dnsqr.Hashable →
      (dnsqrAppendQueryPacket dnsqr pkt ts).Hashable ∧
        (dnsqrAppendQueryPacket dnsqr pkt ts).queryTimeSec ≠ [] ∧
        (dnsqrAppendQueryPacket dnsqr pkt ts).queryTimeNsec ≠ [] := by
    intro dnsqr pkt ts h
    exact ⟨h, by simp [dnsqrAppendQueryPacket], by simp [dnsqrAppendQueryPacket]⟩
  exact appendDatagram_outcome (Q := fun q => q.queryTimeSec ≠ [] ∧ q.queryTimeNsec ≠ [])
    happend hentry ts hhash

/-- A response looks for its query without query packets of its own. -/
theorem appendDatagram_response (dnsqr : DnsQR) {d : Datagram}
    (hentry : ∀ entry, d.entry = some entry → entry.frags ≠ []) (ts : Timespec)
    (hquery : dnsqr.NoQuery) (hhash : dnsqr.Hashable) :
    Outcome MemoryFault (fun r => r.NoQuery ∧ r.Hashable)
      (appendDatagram dnsqrAppendResponsePacket dnsqr d ts) := by
  have happend : ∀ (dnsqr : DnsQR) (pkt : Bytes) (ts : Timespec),
      dnsqr.NoQuery ∧ dnsqr.Hashable →
        ((dnsqrAppendResponsePacket dnsqr pkt ts).NoQuery ∧
          (dnsqrAppendResponsePacket dnsqr pkt ts).Hashable) ∧ True :=
    fun _ _ _ h => ⟨⟨⟨h.1.packet, h.1.sec, h.1.nsec⟩, h.2⟩, trivial⟩
  exact (appendDatagram_outcome (Q := fun _ => True) happend hentry ts ⟨hquery, hhash⟩).imp
    fun _ h => h.1

/-- A datagram that was put together has fragments. -/
theorem doPacketDatagram_outcome (env : DnsqrEnv) (ctx : DnsqrCtx) (f : PcapFrame) :
    Outcome MemoryFault
      (fun r => (∀ d, r.1 = some d → ∀ entry, d.entry = some entry → entry.frags ≠ []) ∧
        ∃ now reasm, r.2 = { ctx with
          state := { ctx.state with now := now }
          reasm := reasm })
      (doPacketDatagram env ctx f) := by
  have hsame : ctx = { ctx with
      state := { ctx.state with now := ctx.state.now }
      reasm := ctx.reasm } := rfl
  unfold doPacketDatagram
  split
  case isTrue => exact ⟨fun d hd => (by cases hd), ctx.state.now, ctx.reasm, hsame⟩
  case isFalse =>
    refine (nmsgIpdgParsePcapRaw_outcome _ _ _ _).bind fun dg _ => ?_
    cases dg with
    | none => exact ⟨fun d hd => (by cases hd), ctx.state.now, ctx.reasm, hsame⟩
    | some dg =>
        dsimp only
        refine (reasmIpNext_outcome _ _ _ _).bind fun next _ => ?_
        obtain ⟨⟨isFrag, entry⟩, reasm⟩ := next
        match isFrag, entry with
        | false, _ =>
            refine ⟨?_, f.ts, reasm, rfl⟩
            rintro d hd entry hentry
            cases hd
            cases hentry
        | true, none => exact ⟨fun d hd => (by cases hd), f.ts, reasm, rfl⟩
        | true, some entry =>
            dsimp only
            refine (reasmAssemble_outcome entry _).bind fun newPkt hfrags => ?_
            refine (nmsgIpdgParsePcapRaw_outcome _ _ _ _).bind fun dg _ => ?_
            cases dg with
            | none => exact ⟨fun d hd => (by cases hd), f.ts, reasm, rfl⟩
            | some dg =>
                refine (copyAt_outcome _ _ _).bind fun network _ => ?_
                split
                case isFalse => exact ⟨fun d hd => (by cases hd), f.ts, reasm, rfl⟩
                case isTrue =>
                  refine ⟨?_, f.ts, reasm, rfl⟩
                  rintro d hd entry' hentry
                  cases hd
                  cases hentry
                  exact hfrags

end Nmsg

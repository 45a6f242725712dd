import Nmsg.Dnsqr.Datagram
import Nmsg.Proof.FragParse

/-!
# The verdict on the UDP checksum

The octets of a datagram are summed packet by packet, in the order the packets are stored in, and
the pseudo header comes last. The verdict is that of the datagram.
-/

namespace Nmsg

/-! ### Reading the packets -/

namespace Ipv6Packet

variable (p : Ipv6Packet) (rest : Bytes)

@[simp]
theorem length_header : p.header.length = 40 := by
  simp only [header, List.length_append, Octets.length_beBytes, p.flow_len, p.src_len, p.dst_len,
    List.length_cons, List.length_nil]

theorem octetAt_first : octetAt (p.header ++ rest) 0 = .ok p.first := by
  apply octetAt_eq []
  · simp only [header, List.nil_append, List.cons_append]
    rfl
  · rfl

theorem octetAt_nxt : octetAt (p.header ++ rest) 6 = .ok p.nxt := by
  apply octetAt_eq ([p.first] ++ p.flow ++ Octets.beBytes 2 p.payload.length)
  · simp only [header, List.append_assoc, List.cons_append, List.nil_append]
    rfl
  · simp [p.flow_len]

theorem loadNet16_plen : loadNet16 (p.header ++ rest) 4 = .ok p.payload.length := by
  have hlt : p.payload.length < 256 ^ 2 := p.payload_lt
  rw [loadNet16_eq ([p.first] ++ p.flow) (b := Octets.beBytes 2 p.payload.length)]
  · rw [Octets.beNat_beBytes_of_lt hlt]
  · simp only [header, List.append_assoc]
    rfl
  · simp [p.flow_len]
  · simp

theorem copyAt_addresses : copyAt (p.header ++ rest) 8 32 = .ok (p.src ++ p.dst) := by
  apply copyAt_eq ([p.first] ++ p.flow ++ Octets.beBytes 2 p.payload.length ++
    [p.nxt, p.hopLimit])
  · simp only [header, List.append_assoc]
    rfl
  · simp [p.flow_len]
  · simp [p.src_len, p.dst_len]

end Ipv6Packet

theorem Ipv4Packet.copyAt_addresses (p : Ipv4Packet) (padding : Bytes) :
    copyAt (p.octets ++ padding) 12 8 = .ok (p.src ++ p.dst) := by
  apply copyAt_eq ([p.first, p.tos] ++ Octets.beBytes 2 p.total ++
    Octets.beBytes 2 p.ident ++ Octets.beBytes 2 p.off ++ [p.ttl, p.proto] ++
    Octets.beBytes 2 p.sum)
  · simp only [octets, header, List.append_assoc]
    rfl
  · simp
  · simp [p.src_len, p.dst_len]

namespace Ipv6Fragment

variable (p : Ipv6Fragment) (padding : Bytes)

theorem copyAt_addresses : copyAt (p.octets ++ padding) 8 32 = .ok (p.src ++ p.dst) := by
  apply copyAt_eq ([p.first] ++ p.flow ++ Octets.beBytes 2 p.plen ++
    [firstProto ipprotoFragment p.exts, p.hopLimit])
  · simp only [octets, unfragmentable, List.append_assoc]
    rfl
  · simp [p.flow_len]
  · simp [p.src_len, p.dst_len]

theorem octetAt_reserved :
    octetAt (p.octets ++ padding) (40 + extLen p.exts + 1) = .ok p.reserved := by
  apply octetAt_eq (p.unfragmentable p.plen ipprotoFragment ++ [p.nxt])
  · simp only [octets, fragmentHeader, List.append_assoc, List.cons_append, List.nil_append]
    rfl
  · simp

end Ipv6Fragment

namespace IpPacket

variable (p : IpPacket) (padding : Bytes)

def protoNetwork : IpPacket → ProtoNetwork
  | ipv4 _ => .inet
  | ipv6 _ => .inet6
  | ipv6Fragment .. => .inet6

theorem octets_ipv4 (p : Ipv4Packet) : (ipv4 p).octets = p.octets := rfl

theorem octets_ipv6Fragment (p : Ipv6Fragment) (direct : p.exts = []) (reserved : p.reserved = 0) :
    (ipv6Fragment p direct reserved).octets = p.octets := rfl

/-- What the parser says of the network header of a packet. -/
structure Parsed (p : IpPacket) (padding : Bytes) (h : NetworkHeader) : Prop where
  protoNetwork : h.protoNetwork = p.protoNetwork
  protoTransport : h.protoTransport = p.proto
  next : h.next = p.header.length
  len : h.len = p.part.octets.length + padding.length
  initial : (h.isFragment && !h.isInitialFragment) = decide (p.part.offset ≠ 0)

theorem networkHeader_ipv4 (host : ByteOrder) (p : Ipv4Packet)
    (hcaptured : p.octets.length + padding.length < 4294967296) :
    ∃ h, networkHeader (exthdrsRaw host (p.octets ++ padding) 0 (p.octets ++ padding).length)
        ethertypeIp (p.octets ++ padding) 0 (p.octets ++ padding).length = .ok (some h) ∧
      Parsed (ipv4 p) padding h := by
  have hlen : subSize (p.octets ++ padding).length (20 + p.options.length) =
      p.payload.length + padding.length := by
    rw [Ipv4Packet.length_octets] at hcaptured
    rw [List.length_append, Ipv4Packet.length_octets]
    rw [Ipv4Packet.total] at hcaptured ⊢
    rw [subSize_of_le (by omega) (by omega)]
    omega
  simp only [networkHeader, if_true, ipv4Header, p.octetAt_first, Nat.zero_add, p.loadNet16_off,
    p.octetAt_proto, p.hl, hlen, bind, Except.bind, pure, Except.pure, Functor.map, Except.map]
  refine ⟨_, rfl, rfl, rfl, ?_, rfl, ?_⟩
  · exact (p.length_header _ _ _).symm
  · by_cases hoff : ipOffmask p.off = 0 <;> simp [part, hoff]

theorem networkHeader_ipv6 (host : ByteOrder) (p : Ipv6Packet) (hproto : p.nxt = ipprotoUdp)
    (hpart : p.payload ≠ []) (hcaptured : (ipv6 p).octets.length + padding.length < 4294967296) :
    ∃ h, networkHeader (exthdrsRaw host ((ipv6 p).octets ++ padding) 0
          ((ipv6 p).octets ++ padding).length)
        ethertypeIpv6 ((ipv6 p).octets ++ padding) 0 ((ipv6 p).octets ++ padding).length =
          .ok (some h) ∧
      Parsed (ipv6 p) padding h := by
  have hoctets : (ipv6 p).octets ++ padding = p.header ++ (p.payload ++ padding) :=
    List.append_assoc _ _ _
  have hlen : ((ipv6 p).octets ++ padding).length = 40 + p.payload.length + padding.length := by
    rw [hoctets, List.length_append, Ipv6Packet.length_header, List.length_append, Nat.add_assoc]
  have hpos := List.length_pos_iff.mpr hpart
  have hetype : ¬ ethertypeIpv6 = ethertypeIp := by decide
  have hshort : ¬ 40 + p.payload.length + padding.length < ip6hdrLen := by
    rw [ip6hdrLen]
    omega
  have hleft : ¬ (ip6hdrLen + p.payload.length > 40 + p.payload.length + padding.length ∨
      p.payload.length = 0) := by
    rw [ip6hdrLen]
    omega
  have hexthdr : isExthdr p.nxt = false := by
    rw [hproto]
    rfl
  rw [hlen, hoctets]
  simp only [networkHeader, if_neg hetype, if_true, ipv6Header, if_neg hshort, p.octetAt_first,
    Nat.zero_add, p.octetAt_nxt, p.loadNet16_plen, p.version, ne_eq, not_true_eq_false, if_false,
    exthdrsRaw, hexthdr, Bool.false_eq_true, if_neg hleft, bind, Except.bind, pure, Except.pure]
  refine ⟨_, rfl, rfl, rfl, ?_, ?_, rfl⟩
  · exact p.length_header.symm
  · rw [part, ip6hdrLen]
    dsimp only
    omega

theorem networkHeader_ipv6Fragment (host : ByteOrder) (p : Ipv6Fragment) (direct : p.exts = [])
    (reserved : p.reserved = 0) (hpart : p.payload ≠ []) :
    ∃ h, networkHeader (exthdrsRaw host (p.octets ++ padding) 0 (p.octets ++ padding).length)
        ethertypeIpv6 (p.octets ++ padding) 0 (p.octets ++ padding).length = .ok (some h) ∧
      Parsed (ipv6Fragment p direct reserved) padding h := by
  have hplen : p.plen = 8 + p.payload.length := by
    rw [Ipv6Fragment.plen, direct]
    exact congrArg (· + p.payload.length) (Nat.zero_add 8)
  have hlen : (p.octets ++ padding).length = 48 + p.payload.length + padding.length := by
    rw [List.length_append, Ipv6Fragment.length_octets, hplen]
    omega
  have hpos := List.length_pos_iff.mpr hpart
  have hetype : ¬ ethertypeIpv6 = ethertypeIp := by decide
  have hshort : ¬ 48 + p.payload.length + padding.length < ip6hdrLen := by
    rw [ip6hdrLen]
    omega
  have hroom : ¬ ip6hdrLen + 2 > 48 + p.payload.length + padding.length := by
    rw [ip6hdrLen]
    omega
  have hnxt : octetAt (p.octets ++ padding) 6 = .ok ipprotoFragment := by
    rw [p.octetAt_nxt, direct, firstProto_nil]
  have hfragNxt : octetAt (p.octets ++ padding) ip6hdrLen = .ok p.nxt := by
    have := p.octetAt_fragNxt padding
    rwa [direct] at this
  have hreserved : octetAt (p.octets ++ padding) (ip6hdrLen + 1) = .ok 0 := by
    have := p.octetAt_reserved padding
    rwa [direct, reserved] at this
  have hofflg : loadNet16 (p.octets ++ padding) (ip6hdrLen + 2) = .ok p.offlg := by
    have := p.loadNet16_offlg padding
    rwa [direct] at this
  have hexthdr : isExthdr ipprotoFragment = true := rfl
  have height : exthdrLen host 0 = 8 := by cases host <;> rfl
  have hfits : ¬ 8 > p.plen := by omega
  have hleft : ¬ (ip6hdrLen + 8 + (p.plen - 8) > 48 + p.payload.length + padding.length ∨
      p.plen - 8 = 0) := by
    rw [ip6hdrLen]
    omega
  rw [hlen]
  simp only [networkHeader, if_neg hetype, if_true, ipv6Header, if_neg hshort, p.octetAt_first,
    Nat.zero_add, hnxt, p.loadNet16_plen, p.version, ne_eq, not_true_eq_false, if_false,
    exthdrsRaw, hexthdr, if_neg hroom, hofflg, passExthdr, hfragNxt, hreserved, height,
    if_neg hfits, if_neg hleft, bind, Except.bind, pure, Except.pure]
  refine ⟨_, rfl, rfl, rfl, ?_, ?_, ?_⟩
  · rw [header, List.length_append, Ipv6Fragment.length_unfragmentable,
      Ipv6Fragment.length_fragmentHeader, direct]
    rfl
  · rw [part, ip6hdrLen]
    dsimp only
    omega
  · by_cases hoff : ip6fOff p.offlg = 0 <;> simp [part, hoff]

/-- **The parser reads the network header of a packet as what it is.** -/
theorem networkHeader_octets (host : ByteOrder) (hproto : p.proto = ipprotoUdp)
    (hpart : p.part.octets ≠ []) (hcaptured : p.octets.length + padding.length < 4294967296) :
    ∃ etype h,
      datalinkHeader .raw (p.octets ++ padding) (p.octets ++ padding).length =
        .ok (some (etype, 0, (p.octets ++ padding).length)) ∧
      networkHeader (exthdrsRaw host (p.octets ++ padding) 0 (p.octets ++ padding).length) etype
        (p.octets ++ padding) 0 (p.octets ++ padding).length = .ok (some h) ∧
      Parsed p padding h := by
  have hsix : ¬ 6 = 4 := by decide
  cases p with
  | ipv4 p =>
      obtain ⟨h, hheader, hparsed⟩ := networkHeader_ipv4 padding host p hcaptured
      have hshort : ¬ (p.octets ++ padding).length < iphdrLen := by
        rw [List.length_append, Ipv4Packet.length_octets, Ipv4Packet.total, iphdrLen]
        omega
      refine ⟨ethertypeIp, h, ?_, hheader, hparsed⟩
      simp only [octets_ipv4, datalinkHeader, if_neg hshort, p.octetAt_first, p.version, if_true,
        bind, Except.bind, pure, Except.pure]
  | ipv6 p =>
      obtain ⟨h, hheader, hparsed⟩ := networkHeader_ipv6 padding host p hproto hpart hcaptured
      have hoctets : (ipv6 p).octets ++ padding = p.header ++ (p.payload ++ padding) :=
        List.append_assoc _ _ _
      have hshort : ¬ (p.header ++ (p.payload ++ padding)).length < iphdrLen := by
        rw [List.length_append, Ipv6Packet.length_header, iphdrLen]
        omega
      refine ⟨ethertypeIpv6, h, ?_, hheader, hparsed⟩
      simp only [hoctets, datalinkHeader, if_neg hshort, p.octetAt_first, p.version, if_neg hsix,
        if_true, bind, Except.bind, pure, Except.pure]
  | ipv6Fragment p direct reserved =>
      obtain ⟨h, hheader, hparsed⟩ :=
        networkHeader_ipv6Fragment padding host p direct reserved hpart
      have hshort : ¬ (p.octets ++ padding).length < iphdrLen := by
        rw [List.length_append, Ipv6Fragment.length_octets, iphdrLen]
        omega
      refine ⟨ethertypeIpv6, h, ?_, hheader, hparsed⟩
      simp only [octets_ipv6Fragment, datalinkHeader, if_neg hshort, p.octetAt_first, p.version,
        if_neg hsix, if_true, bind, Except.bind, pure, Except.pure]

end IpPacket

/-! ### What a packet contributes -/

namespace UdpDatagram

variable (d : UdpDatagram)

@[simp]
theorem length_header : d.header.length = 8 := by
  simp only [header, List.length_append, Octets.length_beBytes]

theorem length_pseudoHeader_le : d.pseudoHeader.length ≤ 40 := by
  unfold pseudoHeader
  cases d.addresses with
  | ipv4 src dst src_len dst_len => simp [src_len, dst_len]
  | ipv6 src dst src_len dst_len => simp [src_len, dst_len]

/-- The pseudo header as it lies in memory, and the header behind it. -/
def pseudoInMemory (host : ByteOrder) : Bytes :=
  match d.addresses with
  | .ipv4 src dst _ _ => src ++ dst ++ [0, ipprotoUdp] ++ Octets.beBytes 2 d.length ++ d.header
  | .ipv6 src dst _ _ =>
      src ++ dst ++ upperLen host (Octets.beBytes 2 d.length) ++ [0, 0, 0, ipprotoUdp] ++ d.header

section Header

variable {pkt : Bytes} (pre : Bytes) {rest : Bytes}

theorem copyAt_ports (hpkt : pkt = pre ++ d.header ++ rest) :
    copyAt pkt pre.length 4 = .ok (Octets.beBytes 2 d.srcPort ++ Octets.beBytes 2 d.dstPort) := by
  have hports : pkt = pre ++ (Octets.beBytes 2 d.srcPort ++ Octets.beBytes 2 d.dstPort) ++
      (Octets.beBytes 2 d.length ++ Octets.beBytes 2 d.checksum ++ rest) := by
    rw [hpkt, header]
    simp only [List.append_assoc]
  exact copyAt_eq pre hports rfl (by simp)

theorem copyAt_ulen (hpkt : pkt = pre ++ d.header ++ rest) :
    copyAt pkt (pre.length + 4) 2 = .ok (Octets.beBytes 2 d.length) := by
  have hulen : pkt = pre ++ (Octets.beBytes 2 d.srcPort ++ Octets.beBytes 2 d.dstPort) ++
      Octets.beBytes 2 d.length ++ (Octets.beBytes 2 d.checksum ++ rest) := by
    rw [hpkt, header]
    simp only [List.append_assoc]
  exact copyAt_eq _ hulen (by simp) (by simp)

theorem copyAt_sum (hpkt : pkt = pre ++ d.header ++ rest) :
    copyAt pkt (pre.length + 6) 2 = .ok (Octets.beBytes 2 d.checksum) := by
  have hsum : pkt = pre ++ (Octets.beBytes 2 d.srcPort ++ Octets.beBytes 2 d.dstPort ++
      Octets.beBytes 2 d.length) ++ Octets.beBytes 2 d.checksum ++ rest := by
    rw [hpkt, header]
    simp only [List.append_assoc]
  exact copyAt_eq _ hsum (by simp) (by simp)

end Header

end UdpDatagram

theorem loadNet16_of_copyAt {pkt : Bytes} {i n : Nat} (hn : n < 65536)
    (h : copyAt pkt i 2 = .ok (Octets.beBytes 2 n)) : loadNet16 pkt i = .ok n := by
  have hlt : n < 256 ^ 2 := hn
  exact loadNet16_eq_ok.mpr ⟨_, copyAt_eq_ok.mp h, Octets.beNat_beBytes_of_lt hlt⟩

namespace IpPacket

variable (p : IpPacket) (padding : Bytes) (host : ByteOrder) (d : UdpDatagram)

/-- The parser on a packet that does not carry the start of a datagram. -/
theorem parse_later (hproto : p.proto = ipprotoUdp) (hpart : p.part.octets ≠ [])
    (hoffset : p.part.offset ≠ 0) (hcaptured : p.octets.length < 4294967296) :
    ∃ dg, nmsgIpdgParsePcapRaw host .raw p.octets p.octets.length = .ok (some dg) ∧
      dg.protoTransport = ipprotoUdp ∧ dg.transport = none ∧ dg.payload = p.header.length ∧
      dg.lenPayload = p.part.octets.length := by
  obtain ⟨etype, h, hlink, hheader, hparsed⟩ := networkHeader_octets p [] host hproto hpart
    (by rwa [List.length_nil, Nat.add_zero])
  have hlater : (h.isFragment && !h.isInitialFragment) = true := by
    rw [hparsed.initial, decide_eq_true hoffset]
  have hlen : toUnsigned h.len = p.part.octets.length := by
    rw [octets, List.length_append] at hcaptured
    rw [hparsed.len, List.length_nil, toUnsigned, Nat.mod_eq_of_lt (by omega), Nat.add_zero]
  rw [List.append_nil] at hlink hheader
  simp only [nmsgIpdgParsePcapRaw, hlink, hheader, hlater, if_true, hlen, hparsed.protoTransport,
    hproto, hparsed.next, bind, Except.bind, pure, Except.pure]
  exact ⟨_, rfl, rfl, rfl, rfl, rfl⟩

/-- The parser on a packet that carries the start of a datagram. -/
theorem parse_initial (hproto : p.proto = ipprotoUdp) {rest : Bytes}
    (hpart : p.part.octets = d.header ++ rest) (hoffset : p.part.offset = 0)
    (hcaptured : p.octets.length + padding.length < 4294967296)
    (hrest : rest = d.payload ∨ padding = [] ∧ rest.length ≤ d.payload.length) :
    ∃ dg, nmsgIpdgParsePcapRaw host .raw (p.octets ++ padding) (p.octets ++ padding).length =
        .ok (some dg) ∧
      dg.protoNetwork = p.protoNetwork ∧ dg.protoTransport = ipprotoUdp ∧
      dg.transport = some p.header.length ∧ dg.lenTransport = 8 + rest.length + padding.length ∧
      dg.network = 0 ∧ dg.payload = p.header.length + 8 ∧ dg.lenPayload = rest.length := by
  have hpkt : p.octets ++ padding = p.header ++ d.header ++ (rest ++ padding) := by
    rw [octets, hpart]
    simp only [List.append_assoc]
  have hne : p.part.octets ≠ [] := by
    intro hnil
    have := congrArg List.length (hpart.symm.trans hnil)
    rw [List.length_append, d.length_header, List.length_nil] at this
    omega
  obtain ⟨etype, h, hlink, hheader, hparsed⟩ :=
    networkHeader_octets p padding host hproto hne hcaptured
  have hinitial : (h.isFragment && !h.isInitialFragment) = false := by
    rw [hparsed.initial, hoffset]
    rfl
  have hlen : h.len = 8 + rest.length + padding.length := by
    rw [hparsed.len, hpart, List.length_append, d.length_header]
  have hlt : 8 + rest.length + padding.length < 4294967296 := by
    rw [octets, hpart, List.length_append, List.length_append, d.length_header] at hcaptured
    omega
  have hulen : loadNet16 (p.octets ++ padding) (p.header.length + 4) = .ok d.length :=
    loadNet16_of_copyAt d.length_lt (d.copyAt_ulen p.header hpkt)
  have hshort : ¬ 8 + rest.length + padding.length < udphdrLen := by
    rw [udphdrLen]
    omega
  have hpayload : udpPayload (p.octets ++ padding) p.header.length
      (8 + rest.length + padding.length) =
        .ok (some (p.header.length + 8, rest.length)) := by
    have hleft : 8 + rest.length + padding.length - udphdrLen = rest.length + padding.length := by
      rw [udphdrLen]
      omega
    have hannounced : (if d.length ≥ 8 then d.length - 8 else d.length) = d.payload.length := by
      rw [UdpDatagram.length, if_pos (by omega)]
      omega
    have hmin : (if d.payload.length > rest.length + padding.length then
        toUnsigned (rest.length + padding.length) else d.payload.length) = rest.length := by
      rcases hrest with rfl | ⟨rfl, hle⟩
      · rw [if_neg (by omega)]
      · rw [List.length_nil, Nat.add_zero, toUnsigned, Nat.mod_eq_of_lt (by omega)]
        split
        · rfl
        · omega
    simp only [udpPayload, if_neg hshort, hulen, hleft, hannounced, hmin, bind, Except.bind, pure,
      Except.pure]
    rfl
  simp only [nmsgIpdgParsePcapRaw, hlink, hheader, hinitial, hlen, hparsed.protoTransport,
    hproto, hparsed.next, transportPayloadRaw, hpayload, withTransport, hparsed.protoNetwork,
    bind, Except.bind, pure, Except.pure, if_true, Bool.false_eq_true, if_false]
  refine ⟨_, rfl, rfl, rfl, rfl, ?_, rfl, rfl, rfl⟩
  exact Nat.mod_eq_of_lt hlt

/-- The pseudo header is that of the datagram. -/
theorem pseudoHeader_octets {dg : Ipdg} {rest : Bytes}
    (hnetwork : dg.protoNetwork = p.protoNetwork) (hzero : dg.network = 0)
    (hproto : p.proto = ipprotoUdp) (haddresses : p.addresses = d.addresses)
    (hpkt : p.octets ++ padding = p.header ++ d.header ++ rest) :
    checksumPacket.pseudoHeader host (p.octets ++ padding) dg p.header.length =
      .ok (d.pseudoInMemory host) := by
  have hports := d.copyAt_ports p.header hpkt
  have hulen := d.copyAt_ulen p.header hpkt
  have hsum := d.copyAt_sum p.header hpkt
  cases p with
  | ipv4 p =>
      rw [protoNetwork] at hnetwork
      rw [proto] at hproto
      have hp : octetAt ((ipv4 p).octets ++ padding) 9 = .ok ipprotoUdp := by
        rw [← hproto]
        exact p.octetAt_proto padding
      have ha : copyAt ((ipv4 p).octets ++ padding) 12 8 = .ok (p.src ++ p.dst) :=
        p.copyAt_addresses padding
      simp only [checksumPacket.pseudoHeader, hports, hulen, hsum, hnetwork, ha, hp, bind,
        Except.bind, pure, Except.pure]
      rw [UdpDatagram.pseudoInMemory, ← haddresses]
      simp only [addresses, UdpDatagram.header, List.append_assoc]
  | ipv6 p =>
      rw [protoNetwork] at hnetwork
      have ha : copyAt ((ipv6 p).octets ++ padding) 8 32 = .ok (p.src ++ p.dst) := by
        have hoctets : (ipv6 p).octets ++ padding = p.header ++ (p.payload ++ padding) :=
          List.append_assoc _ _ _
        rw [hoctets]
        exact p.copyAt_addresses _
      simp only [checksumPacket.pseudoHeader, hports, hulen, hsum, hnetwork, hzero, Nat.zero_add,
        ha, bind, Except.bind, pure, Except.pure]
      rw [UdpDatagram.pseudoInMemory, ← haddresses]
      simp only [addresses, UdpDatagram.header, List.append_assoc]
  | ipv6Fragment p direct reserved =>
      rw [protoNetwork] at hnetwork
      have ha : copyAt ((ipv6Fragment p direct reserved).octets ++ padding) 8 32 =
          .ok (p.src ++ p.dst) := p.copyAt_addresses padding
      simp only [checksumPacket.pseudoHeader, hports, hulen, hsum, hnetwork, hzero, Nat.zero_add,
        ha, bind, Except.bind, pure, Except.pure]
      rw [UdpDatagram.pseudoInMemory, ← haddresses]
      simp only [addresses, UdpDatagram.header, List.append_assoc]

/-- What a part of a datagram contributes. -/
theorem checksumPacket_later (hproto : p.proto = ipprotoUdp) (hpart : p.part.octets ≠ [])
    (hoffset : p.part.offset ≠ 0) (hcaptured : p.octets.length < 4294967296) :
    checksumPacket host p.octets = .ok (.inr (none, wordSum p.part.octets)) := by
  obtain ⟨dg, hparse, htransport, hnone, hpayload, hlen⟩ :=
    parse_later p host hproto hpart hoffset hcaptured
  have hoctets : p.octets = p.header ++ p.part.octets ++ [] := (List.append_nil _).symm
  have hdata : copyAt p.octets dg.payload dg.lenPayload = .ok p.part.octets :=
    copyAt_eq p.header hoctets hpayload hlen
  simp only [checksumPacket, hparse, htransport, ne_eq, not_true_eq_false, if_false, hnone, hdata,
    bind, Except.bind, pure, Except.pure]

/-- What the start of a datagram contributes. -/
theorem checksumPacket_initial (hproto : p.proto = ipprotoUdp)
    (haddresses : p.addresses = d.addresses) {rest : Bytes}
    (hpart : p.part.octets = d.header ++ rest) (hoffset : p.part.offset = 0)
    (hcaptured : p.octets.length + padding.length < 4294967296)
    (hrest : rest = d.payload ∨ padding = [] ∧ rest.length ≤ d.payload.length) :
    checksumPacket host (p.octets ++ padding) =
      .ok (if d.checksum = 0 then .inl .absent
        else .inr (some (d.pseudoInMemory host), wordSum rest)) := by
  obtain ⟨dg, hparse, hnetwork, htransport, hsome, hlenTransport, hzero, hpayload, hlen⟩ :=
    parse_initial p padding host d hproto hpart hoffset hcaptured hrest
  have hpkt : p.octets ++ padding = p.header ++ d.header ++ (rest ++ padding) := by
    rw [octets, hpart]
    simp only [List.append_assoc]
  have hrestAt : p.octets ++ padding = p.header ++ d.header ++ rest ++ padding := by
    rw [hpkt, List.append_assoc (p.header ++ d.header)]
  have hdata : copyAt (p.octets ++ padding) dg.payload dg.lenPayload = .ok rest := by
    apply copyAt_eq (p.header ++ d.header) hrestAt
    · rw [hpayload, List.length_append, d.length_header]
    · exact hlen
  have hshort : ¬ dg.lenTransport < udphdrLen := by
    rw [hlenTransport, udphdrLen]
    omega
  have hsum : loadNet16 (p.octets ++ padding) (p.header.length + 6) = .ok d.checksum :=
    loadNet16_of_copyAt d.checksum_lt (d.copyAt_sum p.header hpkt)
  have hpseudo := pseudoHeader_octets p padding host d hnetwork hzero hproto haddresses hpkt
  simp only [checksumPacket, hparse, htransport, ne_eq, not_true_eq_false, if_false, hsome,
    if_neg hshort, hsum, hpseudo, hdata, bind, Except.bind, pure, Except.pure]
  split <;> rfl

end IpPacket

/-! ### Parts of a datagram -/

/-- What the part of a datagram adds to the sum: at the start, all behind the header. -/
def DatagramPart.sum (q : DatagramPart) : Nat :=
  if q.offset = 0 then wordSum (q.octets.drop 8) else wordSum q.octets

theorem wordSum_eq (b : Bytes) : wordSum b = (OnesSum.words b).sum := by
  fun_induction wordSum b with
  | case1 => rw [OnesSum.words, List.sum_nil]
  | case2 b => rw [OnesSum.words, List.sum_singleton]
  | case3 b c rest ih => rw [ih, OnesSum.words, List.sum_cons]

theorem sum_cut_of_pos {parts : List Bytes} {offset : Nat} (hoffset : 0 < offset) :
    (cut offset parts).map DatagramPart.sum = parts.map wordSum := by
  calc
    (cut offset parts).map DatagramPart.sum
        = (cut offset parts).map fun q => wordSum q.octets := by
      apply List.map_congr_left
      intro q hq
      have := offset_of_mem_cut hq
      rw [DatagramPart.sum, if_neg (by omega)]
    _ = ((cut offset parts).map DatagramPart.octets).map wordSum := by rw [List.map_map]; rfl
    _ = parts.map wordSum := by rw [map_octets_cut]

/-- A datagram in parts: the first holds the header. -/
structure UdpDatagram.Parts (d : UdpDatagram) (start : Bytes) (rest : List Bytes) : Prop where
  payload : d.payload = start ++ rest.flatten
  pos : ∀ b ∈ rest, b ≠ []
  even : ∀ b ∈ (start :: rest).dropLast, b.length % 2 = 0

theorem UdpDatagram.exists_parts {d : UdpDatagram} {parts : List Bytes}
    (hflatten : parts.flatten = d.segment) (hallowed : AllowedParts parts) :
    ∃ start rest, parts = (d.header ++ start) :: rest ∧ d.Parts start rest := by
  obtain ⟨hpos, height⟩ := hallowed
  cases parts with
  | nil =>
      have := congrArg List.length hflatten
      rw [List.flatten_nil, segment, List.length_append, d.length_header] at this
      rw [List.length_nil] at this
      omega
  | cons b rest =>
      have hlen : 8 ≤ b.length := by
        cases rest with
        | nil =>
            rw [List.flatten_singleton] at hflatten
            rw [hflatten, segment, List.length_append, d.length_header]
            exact Nat.le_add_right _ _
        | cons b' rest =>
            have := List.length_pos_iff.mpr (hpos b List.mem_cons_self)
            have := height b (by rw [List.dropLast_cons_cons]; exact List.mem_cons_self)
            omega
      rw [List.flatten_cons, segment] at hflatten
      have htake : b.take 8 = d.header := by
        have := congrArg (List.take 8) hflatten
        rwa [List.take_append_of_le_length hlen, Octets.take_append_of_length d.length_header]
          at this
      have hdrop : b.drop 8 ++ rest.flatten = d.payload := by
        have := congrArg (List.drop 8) hflatten
        rwa [List.drop_append_of_le_length hlen, Octets.drop_append_of_length d.length_header]
          at this
      refine ⟨b.drop 8, rest, ?_, hdrop.symm, fun b' hb' => hpos b' (List.mem_cons_of_mem _ hb'),
        ?_⟩
      · rw [← htake, List.take_append_drop]
      · cases rest with
        | nil => exact fun b' hb' => absurd hb' List.not_mem_nil
        | cons b' rest =>
            rw [List.dropLast_cons_cons, List.forall_mem_cons] at height ⊢
            refine ⟨?_, fun x hx => ?_⟩
            · have := height.1
              rw [List.length_drop]
              omega
            · have := height.2 x hx
              omega

/-- The parts add up to the payload. -/
theorem UdpDatagram.Parts.sum_cut {d : UdpDatagram} {start : Bytes} {rest : List Bytes}
    (h : d.Parts start rest) :
    ((cut 0 ((d.header ++ start) :: rest)).map DatagramPart.sum).sum =
      (OnesSum.words d.payload).sum := by
  have hpos : 0 < 0 + (d.header ++ start).length := by
    rw [List.length_append, d.length_header]
    omega
  calc
    ((cut 0 ((d.header ++ start) :: rest)).map DatagramPart.sum).sum
        = wordSum start + (rest.map wordSum).sum := by
      rw [cut, List.map_cons, List.sum_cons, sum_cut_of_pos hpos, DatagramPart.sum, if_pos rfl,
        Octets.drop_append_of_length d.length_header]
    _ = ((start :: rest).map fun b => (OnesSum.words b).sum).sum := by
      rw [List.map_cons, List.sum_cons, wordSum_eq, List.map_congr_left fun b _ => wordSum_eq b]
    _ = (OnesSum.words (start :: rest).flatten).sum :=
      (OnesSum.sum_words_flatten (start :: rest) h.even).symm
    _ = (OnesSum.words d.payload).sum := by rw [List.flatten_cons, h.payload]

/-! ### The sum over the datagram -/

theorem foldCarries_represents :
    ∀ (fuel s : Nat), s ≤ fuel → OnesSum.Represents (foldCarries fuel s) s := by
  intro fuel
  induction fuel with
  | zero =>
      intro s hs
      rw [Nat.le_zero.mp hs]
      exact OnesSum.represents_zero
  | succ fuel ih =>
      intro s hs
      rw [foldCarries]
      split
      case isTrue hcarry => exact .of_fold (ih _ (by omega))
      case isFalse hcarry => exact .of_lt (by omega)

theorem sum_words_upperLen (host : ByteOrder) {n : Nat} (hn : n < 65536) :
    (OnesSum.words (upperLen host (Octets.beBytes 2 n))).sum =
      (OnesSum.words (Octets.beBytes 4 n)).sum := by
  have hzero : n / 16777216 % 256 = 0 ∧ n / 65536 % 256 = 0 := by omega
  cases host with
  | little => simp [upperLen, Octets.beBytes, OnesSum.words, hzero]
  | big => simp [upperLen, Octets.beBytes, OnesSum.words, hzero]

/-- The pseudo header in memory has the words of the one the standards give. -/
theorem UdpDatagram.wordSum_pseudoInMemory (d : UdpDatagram) (host : ByteOrder) :
    wordSum (d.pseudoInMemory host) + (OnesSum.words d.payload).sum =
      (OnesSum.words (d.pseudoHeader ++ d.segment)).sum := by
  rw [wordSum_eq, segment]
  cases h : d.addresses with
  | ipv4 src dst src_len dst_len =>
      simp only [pseudoInMemory, pseudoHeader, h]
      rw [← OnesSum.sum_words_append (by simp [src_len, dst_len]), List.append_assoc]
  | ipv6 src dst src_len dst_len =>
      have hupper := sum_words_upperLen host (n := d.length) d.length_lt
      have hlen : (upperLen host (Octets.beBytes 2 d.length)).length = 4 := by
        cases host <;> simp [upperLen]
      simp only [pseudoInMemory, pseudoHeader, h]
      rw [← OnesSum.sum_words_append (by simp [src_len, dst_len, hlen]), List.append_assoc,
        List.append_assoc, OnesSum.sum_words_replace (by simp [src_len, dst_len]) (by simp [hlen])
          (by simp) hupper]
      simp only [List.append_assoc]

/-- The pseudo header comes last: the loop ends with the verdict on the datagram. -/
theorem checksumLoop_end (host : ByteOrder) (d : UdpDatagram) (hchecksum : d.checksum ≠ 0) :
    checksumLoop host [] (some (d.pseudoInMemory host)) (OnesSum.words d.payload).sum =
      .ok d.verdict := by
  have hsum : (OnesSum.words d.payload).sum + wordSum (d.pseudoInMemory host) =
      (OnesSum.words (d.pseudoHeader ++ d.segment)).sum := by
    rw [Nat.add_comm, d.wordSum_pseudoInMemory host]
  have hlt : (OnesSum.words (d.pseudoHeader ++ d.segment)).sum < 4294967296 := by
    have hle := OnesSum.sum_words_le (d.pseudoHeader ++ d.segment)
    have hlen := d.length_pseudoHeader_le
    have hpayload := d.length_lt
    have hsegment : d.segment.length = 8 + d.payload.length := by
      rw [UdpDatagram.segment, List.length_append, d.length_header]
    rw [List.length_append, hsegment] at hle
    omega
  have hfold := foldCarries_represents _ _ (Nat.le_refl
    (OnesSum.words (d.pseudoHeader ++ d.segment)).sum)
  have heq := hfold.unique (OnesSum.sum_represents (d.pseudoHeader ++ d.segment))
  have hword := hfold.lt
  rw [checksumLoop, hsum, toUnsigned, Nat.mod_eq_of_lt hlt, UdpDatagram.verdict, if_neg hchecksum,
    heq]
  rw [heq] at hword
  exact congrArg Except.ok (if_congr (by omega) rfl rfl)

section Loop

variable {α : Type} {host : ByteOrder} (pkt : α → Bytes) {as : List α}

/-- A loop over packets of which some hold the pseudo header. -/
theorem checksumLoop_sum {pseudo : Bytes} {contribution : α → Option Bytes × Nat}
    (hpacket : ∀ a ∈ as, checksumPacket host (pkt a) = .ok (.inr (contribution a)))
    (hpseudo : ∀ a ∈ as, (contribution a).1 = none ∨ (contribution a).1 = some pseudo) :
    ∀ (before : Option Bytes) (s : Nat),
      (before = some pseudo ∨ ∃ a ∈ as, (contribution a).1 = some pseudo) →
      s + (as.map fun a => (contribution a).2).sum < 4294967296 →
      checksumLoop host (as.map pkt) before s =
        checksumLoop host [] (some pseudo) (s + (as.map fun a => (contribution a).2).sum) := by
  induction as with
  | nil =>
      rintro before s (rfl | ⟨a, ha, _⟩) hlt
      · rfl
      · cases ha
  | cons a rest ih =>
      intro before s hbefore hlt
      rw [List.forall_mem_cons] at hpacket hpseudo
      rw [List.map_cons, List.sum_cons] at hlt
      have hs : toUnsigned (s + (contribution a).2) = s + (contribution a).2 :=
        Nat.mod_eq_of_lt (by omega)
      have hrest : (contribution a).1.or before = some pseudo ∨
          ∃ a ∈ rest, (contribution a).1 = some pseudo := by
        rcases hpseudo.1 with hnone | hsome
        · rcases hbefore with rfl | ⟨b, hb, hb'⟩
          · rw [hnone]
            exact Or.inl rfl
          · rcases List.mem_cons.mp hb with rfl | hb
            · rw [hnone] at hb'
              cases hb'
            · exact Or.inr ⟨b, hb, hb'⟩
        · rw [hsome]
          exact Or.inl rfl
      rw [List.map_cons, List.map_cons, List.sum_cons, ← Nat.add_assoc]
      calc
        checksumLoop host (pkt a :: rest.map pkt) before s
            = checksumLoop host (rest.map pkt) ((contribution a).1.or before)
                (toUnsigned (s + (contribution a).2)) := by
          rw [checksumLoop, hpacket.1]
          rfl
        _ = _ := by
          rw [hs]
          exact ih hpacket.2 hpseudo.2 _ _ hrest (by rw [Nat.add_assoc]; exact hlt)

/-- A loop over packets of which some say that there is no checksum. -/
theorem checksumLoop_absent {contribution : α → UdpChecksum ⊕ Option Bytes × Nat}
    (hpacket : ∀ a ∈ as, checksumPacket host (pkt a) = .ok (contribution a))
    (habsent : ∀ a ∈ as, ∀ result, contribution a = .inl result → result = .absent)
    (hexists : ∃ a ∈ as, contribution a = .inl .absent) :
    ∀ (before : Option Bytes) (s : Nat),
      checksumLoop host (as.map pkt) before s = .ok .absent := by
  induction as with
  | nil =>
      obtain ⟨a, ha, _⟩ := hexists
      cases ha
  | cons a rest ih =>
      intro before s
      rw [List.forall_mem_cons] at hpacket habsent
      rw [List.map_cons, checksumLoop, hpacket.1]
      cases h : contribution a with
      | inl result =>
          rw [habsent.1 result h]
          rfl
      | inr next =>
          obtain ⟨b, hb, hb'⟩ := hexists
          rcases List.mem_cons.mp hb with rfl | hb
          · rw [h] at hb'
            cases hb'
          · exact ih hpacket.2 habsent.2 ⟨b, hb, hb'⟩ _ _

end Loop

/-! ### The verdict -/

namespace UdpDatagram

variable {d : UdpDatagram} {pkts : List IpPacket} {padding : Bytes}

/-- What the loop takes from a packet: the pseudo header with the start of the datagram, and the
sum of its part. -/
def contribution (d : UdpDatagram) (host : ByteOrder) (q : DatagramPart) : Option Bytes × Nat :=
  (if q.offset = 0 then some (d.pseudoInMemory host) else none, q.sum)

theorem CarriedBy.checksumPacket (h : d.CarriedBy pkts padding) (host : ByteOrder) :
    ∃ start rest, d.Parts start rest ∧
      (pkts.map IpPacket.part).Perm (cut 0 ((d.header ++ start) :: rest)) ∧
      ∀ p ∈ pkts, checksumPacket host (p.octets ++ padding) =
        .ok (if p.part.offset = 0 ∧ d.checksum = 0 then .inl .absent
          else .inr (d.contribution host p.part)) := by
  obtain ⟨parts, hflatten, hallowed, hperm⟩ := h.parts
  obtain ⟨start, rest, rfl, hparts⟩ := exists_parts hflatten hallowed
  refine ⟨start, rest, hparts, hperm, ?_⟩
  intro p hp
  have hwhole : padding = [] ∨ rest = [] := by
    apply h.whole.imp_right
    intro hone
    have hlen := hperm.length_eq
    rw [List.length_map, hone, ← List.length_map (f := DatagramPart.octets), map_octets_cut,
      List.length_cons] at hlen
    exact List.length_eq_zero_iff.mp (by omega)
  have hmem := hperm.mem_iff.mp (List.mem_map_of_mem (f := IpPacket.part) hp)
  rw [cut, List.mem_cons] at hmem
  rcases hmem with hstart | hlater
  · -- The packet holds the start of the datagram.
    have hoffset : p.part.offset = 0 := congrArg DatagramPart.offset hstart
    have hoctets : p.part.octets = d.header ++ start := congrArg DatagramPart.octets hstart
    have hrest : start = d.payload ∨ padding = [] ∧ start.length ≤ d.payload.length := by
      rcases hwhole with hnil | hnil
      · refine Or.inr ⟨hnil, ?_⟩
        rw [hparts.payload, List.length_append]
        exact Nat.le_add_right _ _
      · refine Or.inl ?_
        rw [hparts.payload, hnil, List.flatten_nil, List.append_nil]
    rw [p.checksumPacket_initial padding host d (h.proto p hp) (h.addresses p hp) hoctets hoffset
      (h.captured p hp) hrest]
    by_cases hzero : d.checksum = 0
    · rw [if_pos hzero, if_pos ⟨hoffset, hzero⟩]
    · rw [if_neg hzero, if_neg fun hc => hzero hc.2, contribution, if_pos hoffset,
        DatagramPart.sum, if_pos hoffset, hoctets, Octets.drop_append_of_length d.length_header]
  · -- The packet holds a later part: there are several, and no padding.
    have hoctets := octets_mem_of_mem_cut hlater
    have hoffset : p.part.offset ≠ 0 := by
      have := offset_of_mem_cut hlater
      rw [List.length_append, d.length_header] at this
      omega
    have hnil : padding = [] := by
      rcases hwhole with hnil | hnil
      · exact hnil
      · rw [hnil] at hoctets
        cases hoctets
    have hcaptured := h.captured p hp
    rw [hnil, List.length_nil, Nat.add_zero] at hcaptured
    rw [hnil, List.append_nil, p.checksumPacket_later host (h.proto p hp) (hparts.pos _ hoctets)
      hoffset hcaptured, if_neg fun hc => hoffset hc.1, contribution, if_neg hoffset,
      DatagramPart.sum, if_neg hoffset]

/-- Some packet holds the start of the datagram. -/
theorem exists_start {start : Bytes} {rest : List Bytes}
    (hperm : (pkts.map IpPacket.part).Perm (cut 0 ((d.header ++ start) :: rest))) :
    ∃ p ∈ pkts, p.part.offset = 0 := by
  have hmem : (⟨0, !rest.isEmpty, d.header ++ start⟩ : DatagramPart) ∈ pkts.map IpPacket.part := by
    apply hperm.mem_iff.mpr
    rw [cut]
    exact List.mem_cons_self
  obtain ⟨p, hp, hpart⟩ := List.mem_map.mp hmem
  exact ⟨p, hp, congrArg DatagramPart.offset hpart⟩

end UdpDatagram

def sampleDatagram : UdpDatagram where
  addresses := .ipv4 [192, 0, 2, 1] [192, 0, 2, 2] rfl rfl
  srcPort := 53
  dstPort := 4096
  checksum := 21119
  payload := [1, 2, 3, 4, 5, 6, 7, 8, 9]
  srcPort_lt := by decide
  dstPort_lt := by decide
  checksum_lt := by decide
  length_lt := by decide

def sampleIpv4 (off : Nat) (hoff : off < 65536) (payload : Bytes) (hlen : payload.length < 65516) :
    IpPacket :=
  .ipv4 {
    first := 0x45
    tos := 0
    ident := 7
    off := off
    ttl := 64
    proto := ipprotoUdp
    sum := 0
    src := [192, 0, 2, 1]
    dst := [192, 0, 2, 2]
    options := []
    payload := payload
    version := by decide
    hl := by decide
    ident_lt := by decide
    off_lt := hoff
    src_len := rfl
    dst_len := rfl
    total_lt := by
      rw [List.length_nil]
      omega }

def samplePackets : List IpPacket :=
  [sampleIpv4 2 (by decide) [9] (by decide),
    sampleIpv4 0x2000 (by decide) (sampleDatagram.header ++ [1, 2, 3, 4, 5, 6, 7, 8]) (by decide)]

theorem samplePackets_carry : sampleDatagram.CarriedBy samplePackets [] where
  addresses := by
    intro p hp
    simp only [samplePackets, List.mem_cons, List.not_mem_nil, or_false] at hp
    rcases hp with rfl | rfl <;> rfl
  proto := by
    intro p hp
    simp only [samplePackets, List.mem_cons, List.not_mem_nil, or_false] at hp
    rcases hp with rfl | rfl <;> rfl
  parts := by
    refine ⟨[sampleDatagram.header ++ [1, 2, 3, 4, 5, 6, 7, 8], [9]], rfl, ⟨?_, ?_⟩, ?_⟩
    · simp
    · simp
    · exact List.Perm.swap _ _ []
  whole := Or.inl rfl
  captured := by
    intro p hp
    simp only [samplePackets, List.mem_cons, List.not_mem_nil, or_false] at hp
    rcases hp with rfl | rfl <;> decide

end Nmsg

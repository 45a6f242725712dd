import Nmsg.Dnsqr.Message
import Nmsg.Dnsqr.Response
import Nmsg.Lib.Prefixes
import Nmsg.Proof.ReasmParse

/-!
# Packets that are read within

What the parsers look at of a packet, and which packets they look beyond. An IPv4 packet is not
compared with its header before the header is read, and a header may say that it is longer than the
packet; an IPv6 packet is looked at within, but for the flags of a Fragment header.
-/

namespace Nmsg

open Prefixes (EachAfter eachAfter_cons eachAfter_nil)

section Parse

variable {host : ByteOrder} {pkt : Bytes} {etype : Nat}

/-! ### Headers -/

theorem passExthdr_total {network : Nat} {w : ExthdrWalk}
    (hroom : network + w.thusfar + 2 ≤ pkt.length) :
    ∃ passed, passExthdr host pkt network w = .ok passed := by
  obtain ⟨nxt, hnxt⟩ := octetAt_ok (show network + w.thusfar < pkt.length by omega)
  obtain ⟨length, hlength⟩ := octetAt_ok (show network + w.thusfar + 1 < pkt.length by omega)
  rw [passExthdr, hnxt, hlength]
  simp only [bind, Except.bind]
  split <;> exact ⟨_, rfl⟩

/-- The walk over the headers of a packet that is there comes to an end. -/
theorem exthdrsReasm_total (host : ByteOrder) {network len : Nat} (hlen : network + len ≤ pkt.length) :
    ∀ (fuel : Nat) (w : ExthdrWalk), w.payloadLen < fuel →
      ∃ out, exthdrsReasm host pkt network len fuel w = .ok out := by
  intro fuel
  induction fuel with
  | zero => exact fun w h => absurd h (Nat.not_lt_zero _)
  | succ fuel ih =>
      intro w hfuel
      rw [exthdrsReasm]
      by_cases hexthdr : isExthdr w.nexthdr = true
      swap
      · exact ⟨some w, if_neg hexthdr⟩
      rw [if_pos hexthdr]
      by_cases hbroken : w.thusfar + 2 > len
      · exact ⟨none, if_pos hbroken⟩
      rw [if_neg hbroken]
      by_cases hfragment : w.nexthdr = ipprotoFragment
      · rw [if_pos hfragment]
        exact ⟨_, rfl⟩
      rw [if_neg hfragment]
      obtain ⟨passed, hpass⟩ : ∃ passed, passExthdr host pkt network w = .ok passed :=
        passExthdr_total (by omega)
      have hshrink := (passExthdr_outcome host pkt network w).of_ok hpass
      rw [hpass]
      cases passed with
      | none => exact ⟨none, rfl⟩
      | some w' =>
          have := hshrink w' rfl
          exact ih w' (by omega)

/-- The walk that passes a Fragment header looks at its flags, which may be behind the packet. -/
theorem exthdrsRaw_ok_iff (host : ByteOrder) {network len : Nat} (hlen : network + len = pkt.length) :
    ∀ (fuel : Nat) (w : ExthdrWalk), w.payloadLen < fuel → w.isFragment = false →
      ((∃ out, exthdrsRaw host pkt network len fuel w = .ok out) ↔
        ∀ v, exthdrsReasm host pkt network len fuel w = .ok (some v) → v.isFragment = true →
          v.fragHdrOffset + 4 ≤ len) := by
  intro fuel
  induction fuel with
  | zero => exact fun w h => absurd h (Nat.not_lt_zero _)
  | succ fuel ih =>
      intro w hfuel hnot
      rw [exthdrsRaw, exthdrsReasm]
      by_cases hexthdr : isExthdr w.nexthdr = true
      swap
      · rw [if_neg hexthdr, if_neg hexthdr]
        refine ⟨?_, fun _ => ⟨_, rfl⟩⟩
        rintro - v ⟨⟩ hfrag
        rw [hnot] at hfrag
        cases hfrag
      rw [if_pos hexthdr, if_pos hexthdr]
      by_cases hbroken : w.thusfar + 2 > len
      · rw [if_pos hbroken, if_pos hbroken]
        exact ⟨by rintro - v ⟨⟩, fun _ => ⟨_, rfl⟩⟩
      rw [if_neg hbroken, if_neg hbroken]
      by_cases hfragment : w.nexthdr = ipprotoFragment
      · rw [if_pos hfragment, if_pos hfragment]
        constructor
        · rintro ⟨out, hok⟩ v hv -
          obtain ⟨offlg, hofflg, -⟩ := Outcome.bind_eq_ok.mp hok
          have := loadNet16_le hofflg
          cases hv
          dsimp only
          omega
        · intro hflags
          have hroom := hflags _ rfl rfl
          dsimp only at hroom
          obtain ⟨offlg, hofflg⟩ :=
            loadNet16_ok (show network + w.thusfar + 2 + 2 ≤ pkt.length by omega)
          rw [hofflg]
          exact passExthdr_total (by dsimp only; omega)
      · rw [if_neg hfragment, if_neg hfragment]
        obtain ⟨passed, hpass⟩ : ∃ passed, passExthdr host pkt network w = .ok passed :=
          passExthdr_total (by omega)
        have hshrink := (passExthdr_outcome host pkt network w).of_ok hpass
        rw [hpass]
        cases passed with
        | none => exact ⟨by rintro - v ⟨⟩, fun _ => ⟨none, rfl⟩⟩
        | some next =>
            have := hshrink next rfl
            exact ih next (by omega) ((passExthdr_isFragment hpass).trans hnot)

/-- Where the walk over the headers of an IPv6 packet starts. -/
def walkStart (type : UInt8) (payloadLen : Nat) : ExthdrWalk where
  nexthdr := type
  thusfar := ip6hdrLen
  payloadLen := payloadLen
  isFragment := false
  isInitialFragment := false
  fragHdrOffset := 0

/-- The header of an IPv6 packet that is long enough is what the walk finds. -/
theorem networkHeader_ipv6 {walk : Nat → ExthdrWalk → Except Abort (Option ExthdrWalk)}
    {first type : UInt8} {payloadLen : Nat} (hlen : ip6hdrLen ≤ pkt.length)
    (hfirst : octetAt pkt 0 = .ok first) (hversion : ipV first = 6)
    (htype : octetAt pkt 6 = .ok type) (hcount : loadNet16 pkt 4 = .ok payloadLen)
    {walked : Option ExthdrWalk}
    (hwalk : walk (payloadLen + 1) (walkStart type payloadLen) = .ok walked) :
    networkHeader walk ethertypeIpv6 pkt 0 pkt.length =
      .ok (walked.bind fun w =>
        if w.thusfar + w.payloadLen > pkt.length ∨ w.payloadLen = 0 then none
        else some {
          protoNetwork := .inet6
          protoTransport := w.nexthdr
          next := w.thusfar
          len := pkt.length - w.thusfar
          isFragment := w.isFragment
          isInitialFragment := w.isInitialFragment
          fragHdrOffset := w.fragHdrOffset }) := by
  have hfour : ¬ ethertypeIpv6 = ethertypeIp := by decide
  unfold walkStart at hwalk
  rw [networkHeader, if_neg hfour, if_pos rfl, ipv6Header, if_neg (Nat.not_lt.mpr hlen)]
  simp only [hfirst, htype, hcount, Nat.zero_add, bind, Except.bind, hversion, ne_eq, not_true,
    if_false, hwalk]
  cases walked with
  | none => rfl
  | some w =>
      simp only [Option.bind]
      split <;> rfl

/-- The header of an IPv4 packet, from the octets it is read from. -/
theorem networkHeader_ipv4 (walk : Nat → ExthdrWalk → Except Abort (Option ExthdrWalk))
    {first ipP : UInt8} {ipOff : Nat} (hfirst : octetAt pkt 0 = .ok first)
    (hipOff : loadNet16 pkt 6 = .ok ipOff) (hipP : octetAt pkt 9 = .ok ipP) :
    networkHeader walk ethertypeIp pkt 0 pkt.length = .ok (some {
      protoNetwork := .inet
      protoTransport := ipP
      next := 4 * ipHl first
      len := subSize pkt.length (4 * ipHl first)
      isFragment := ipOffmask ipOff ≠ 0 || ipMf ipOff
      isInitialFragment := ipOffmask ipOff = 0
      fragHdrOffset := 0 }) := by
  rw [networkHeader, if_pos rfl, ipv4Header, hfirst]
  simp only [Nat.zero_add, hipOff, hipP, bind, Except.bind]
  rfl

/-- Behind a header that ends in the packet there are no more octets than the packet has left. -/
theorem networkHeader_room {h : NetworkHeader}
    (hheader : networkHeader (exthdrsReasm host pkt 0 pkt.length) etype pkt 0 pkt.length =
      .ok (some h)) (hnext : h.next ≤ pkt.length) : h.len ≤ pkt.length - h.next := by
  have hmem : networkHeader (exthdrsReasm host (pkt ++ []) 0 pkt.length) etype (pkt ++ []) 0
      pkt.length = .ok (some h) := by
    rw [List.append_nil]
    exact hheader
  have hplaced :=
    (networkHeader_local (Nat.zero_add _) (exthdrsReasm_local host pkt [] 0 pkt.length) hmem).1
  by_cases hip : etype = ethertypeIp
  · rw [hplaced.ipv4 hip, subSize]
    omega
  · have := hplaced.ipv6 hip
    omega

/-- A payload that is found behind a UDP header lies in the packet. -/
theorem udpPayload_inside {transport left offset len : Nat}
    (hleft : transport ≤ pkt.length → left ≤ pkt.length - transport)
    (hudp : udpPayload pkt transport left = .ok (some (offset, len))) :
    offset + len ≤ pkt.length := by
  have height : udphdrLen = 8 := rfl
  rw [udpPayload] at hudp
  split at hudp
  · cases hudp
  obtain ⟨uhUlen, hread, hplace⟩ := Outcome.bind_eq_ok.mp hudp
  have hnext := loadNet16_le hread
  have hroom := hleft (by omega)
  have htruncated := Nat.mod_le (left - udphdrLen) 4294967296
  simp only at hplace
  generalize (if uhUlen ≥ 8 then uhUlen - 8 else uhUlen) = tpPayloadLen at hplace
  cases hplace
  split
  · rw [toUnsigned]
    omega
  · omega

theorem udpPayload_total {transport left : Nat} (hleft : left ≤ pkt.length - transport) :
    ∃ out, udpPayload pkt transport left = .ok out := by
  have height : udphdrLen = 8 := rfl
  by_cases hshort : left < udphdrLen
  · exact ⟨none, by rw [udpPayload, if_pos hshort]⟩
  · obtain ⟨out, hout⟩ := udpPayload_ok (Nat.le_of_not_lt hshort)
      (show transport + 6 ≤ pkt.length by omega)
    exact ⟨some out, hout⟩

/-! ### The parser that discards fragments -/

/-- An IPv4 packet has the octets of its header that are looked at, and a UDP header where its own
header ends. -/
structure Ipv4Readable (pkt : Bytes) : Prop where
  fixed : 10 ≤ pkt.length
  header : ∀ first ipOff, octetAt pkt 0 = .ok first → loadNet16 pkt 6 = .ok ipOff →
    octetAt pkt 9 = .ok ipprotoUdp → ipOffmask ipOff = 0 → ipMf ipOff = false →
      4 * ipHl first ≤ pkt.length

/-- Behind a header that is longer than its packet there seem to be octets. -/
theorem subSize_of_lt {n k : Nat} (h : n < k) (hk : k ≤ 60) : 20 ≤ subSize n k := by
  unfold subSize
  omega

theorem ipHl_le (first : UInt8) : 4 * ipHl first ≤ 60 := by
  have : ipHl first < 16 := Nat.mod_lt _ (by decide)
  omega

theorem udpPayload_beyond {transport left : Nat} (hleft : 8 ≤ left)
    (hbeyond : pkt.length < transport) : ∀ out, udpPayload pkt transport left ≠ .ok out := by
  have height : udphdrLen = 8 := rfl
  intro out hudp
  rw [udpPayload, if_neg (by omega)] at hudp
  obtain ⟨uhUlen, hread, -⟩ := Outcome.bind_eq_ok.mp hudp
  have := loadNet16_le hread
  omega

/-- The payload is read where the parser returns. -/
theorem ipdgPayload_of_parse {r : Option Ipdg}
    (hparse : nmsgIpdgParse host etype pkt.length pkt = .ok r)
    (hinside : ∀ dg, r = some dg → dg.payload + dg.lenPayload ≤ pkt.length) :
    ∃ answer, ipdgPayload host etype pkt = .ok answer := by
  rw [ipdgPayload, hparse]
  cases r with
  | none => exact ⟨_, rfl⟩
  | some dg =>
      obtain ⟨b, hcopy⟩ := copyAt_of_le (hinside dg rfl)
      simp only [bind, Except.bind, hcopy]
      exact ⟨_, rfl⟩

theorem ipdgPayload_of_header {h : NetworkHeader}
    (hheader : networkHeader (exthdrsReasm host pkt 0 pkt.length) etype pkt 0 pkt.length =
      .ok (some h))
    (hnext : h.isFragment = false → h.protoTransport = ipprotoUdp → h.next ≤ pkt.length) :
    ∃ answer, ipdgPayload host etype pkt = .ok answer := by
  have hparse := nmsgIpdgParse_eq hheader
  by_cases hfrag : h.isFragment = true
  · rw [if_pos hfrag] at hparse
    exact ipdgPayload_of_parse hparse (by rintro dg ⟨⟩)
  rw [if_neg hfrag] at hparse
  by_cases hudp : h.protoTransport = ipprotoUdp
  swap
  · rw [if_neg hudp] at hparse
    exact ipdgPayload_of_parse hparse (by rintro dg ⟨⟩)
  rw [if_pos hudp] at hparse
  have hroom := networkHeader_room hheader (hnext (Bool.eq_false_iff.mpr hfrag) hudp)
  obtain ⟨payload, hpayload⟩ := udpPayload_total hroom
  rw [hpayload] at hparse
  refine ipdgPayload_of_parse hparse ?_
  intro dg hdg
  cases payload with
  | none => cases hdg
  | some place =>
      cases hdg
      exact udpPayload_inside (fun _ => hroom) hpayload

/-- **IPv4.** The payload of a packet is read just when the packet is there to be read. -/
theorem ipdgPayload_ipv4_iff :
    (∃ answer, ipdgPayload host ethertypeIp pkt = .ok answer) ↔ Ipv4Readable pkt := by
  constructor
  · rintro ⟨answer, hok⟩
    obtain ⟨dg, hparse, -⟩ := Outcome.bind_eq_ok.mp hok
    have hfixed : 10 ≤ pkt.length := by
      obtain ⟨header, hheader, -⟩ := Outcome.bind_eq_ok.mp hparse
      rw [networkHeader, if_pos rfl] at hheader
      cases hipv4 : ipv4Header pkt 0 pkt.length with
      | error e =>
          rw [hipv4] at hheader
          cases hheader
      | ok h =>
          obtain ⟨first, -, hipv4⟩ := Outcome.bind_eq_ok.mp hipv4
          obtain ⟨ipOff, -, hipv4⟩ := Outcome.bind_eq_ok.mp hipv4
          obtain ⟨ipP, hipP, -⟩ := Outcome.bind_eq_ok.mp hipv4
          exact octetAt_lt hipP
    refine ⟨hfixed, fun first ipOff hfirst hipOff hipP hoffset hmf => ?_⟩
    have hheader := networkHeader_ipv4 (exthdrsReasm host pkt 0 pkt.length) hfirst hipOff hipP
    rw [nmsgIpdgParse_eq hheader, if_neg (by simp [hoffset, hmf]), if_pos rfl] at hparse
    obtain ⟨payload, hpayload, -⟩ := Outcome.bind_eq_ok.mp hparse
    by_contra hlong
    have hleft := subSize_of_lt (Nat.lt_of_not_le hlong) (ipHl_le first)
    exact udpPayload_beyond (by dsimp only; omega) (Nat.lt_of_not_le hlong) payload hpayload
  · rintro ⟨hfixed, hfits⟩
    obtain ⟨first, hfirst⟩ := octetAt_ok (show 0 < pkt.length by omega)
    obtain ⟨ipOff, hipOff⟩ := loadNet16_ok (show 6 + 2 ≤ pkt.length by omega)
    obtain ⟨ipP, hipP⟩ := octetAt_ok (show 9 < pkt.length by omega)
    have hheader := networkHeader_ipv4 (exthdrsReasm host pkt 0 pkt.length) hfirst hipOff hipP
    refine ipdgPayload_of_header hheader fun hfrag hudp => ?_
    dsimp only at hfrag hudp
    simp only [Bool.or_eq_false_iff, decide_eq_false_iff_not, not_not] at hfrag
    exact hfits first ipOff hfirst hipOff (hipP.trans (congrArg Except.ok hudp)) hfrag.1 hfrag.2

/-- **IPv6.** Every packet is read within. -/
theorem ipdgPayload_ipv6 (host : ByteOrder) (pkt : Bytes) :
    ∃ answer, ipdgPayload host ethertypeIpv6 pkt = .ok answer := by
  have hsize : ip6hdrLen = 40 := rfl
  have hfour : ¬ ethertypeIpv6 = ethertypeIp := by decide
  have hrefused : networkHeader (exthdrsReasm host pkt 0 pkt.length) ethertypeIpv6 pkt 0 pkt.length =
      .ok none → ∃ answer, ipdgPayload host ethertypeIpv6 pkt = .ok answer := by
    intro hheader
    refine ipdgPayload_of_parse (r := none) ?_ (by rintro dg ⟨⟩)
    rw [nmsgIpdgParse, hheader]
    rfl
  by_cases hshort : pkt.length < ip6hdrLen
  · apply hrefused
    rw [networkHeader, if_neg hfour, if_pos rfl, ipv6Header, if_pos hshort]
  obtain ⟨first, hfirst⟩ := octetAt_ok (show 0 < pkt.length by omega)
  obtain ⟨payloadLen, hcount⟩ := loadNet16_ok (show 4 + 2 ≤ pkt.length by omega)
  obtain ⟨type, htype⟩ := octetAt_ok (show 6 < pkt.length by omega)
  by_cases hversion : ipV first = 6
  swap
  · apply hrefused
    rw [networkHeader, if_neg hfour, if_pos rfl, ipv6Header, if_neg hshort, hfirst]
    simp only [bind, Except.bind, ne_eq, hversion, not_false_eq_true, if_true]
    rfl
  obtain ⟨walked, hwalk⟩ := exthdrsReasm_total host (Nat.le_of_eq (Nat.zero_add _))
    (payloadLen + 1) (walkStart type payloadLen) (Nat.lt_succ_self _)
  have hheader := networkHeader_ipv6 (Nat.le_of_not_lt hshort) hfirst hversion htype hcount hwalk
  cases walked with
  | none => exact hrefused hheader
  | some w =>
      rw [Option.bind] at hheader
      by_cases hleft : w.thusfar + w.payloadLen > pkt.length ∨ w.payloadLen = 0
      · rw [if_pos hleft] at hheader
        exact hrefused hheader
      rw [if_neg hleft] at hheader
      refine ipdgPayload_of_header hheader fun _ _ => ?_
      dsimp only
      omega

/-! ### The verdict on the checksum -/

/-- An IPv4 packet has the transport header it announces where its own header ends, and the Fragment
header of an IPv6 packet has its flags in the packet. -/
structure ChecksumReadable (host : ByteOrder) (pkt : Bytes) : Prop where
  ipv4 : ∀ first ipOff proto, iphdrLen ≤ pkt.length → octetAt pkt 0 = .ok first → ipV first = 4 →
    loadNet16 pkt 6 = .ok ipOff → octetAt pkt 9 = .ok proto →
    (proto = ipprotoUdp ∨ proto = ipprotoTcp ∧ ipOffmask ipOff = 0) → 4 * ipHl first ≤ pkt.length
  ipv6 : ∀ first type payloadLen v, ip6hdrLen ≤ pkt.length → octetAt pkt 0 = .ok first →
    ipV first = 6 → octetAt pkt 6 = .ok type → loadNet16 pkt 4 = .ok payloadLen →
    exthdrsReasm host pkt 0 pkt.length (payloadLen + 1) (walkStart type payloadLen) =
      .ok (some v) → v.isFragment = true → v.fragHdrOffset + 4 ≤ pkt.length

theorem transportPayloadRaw_total {transport left : Nat} (hleft : left ≤ pkt.length - transport)
    (proto : UInt8) (lenNetwork : Nat) :
    ∃ out, transportPayloadRaw pkt proto lenNetwork transport left = .ok out := by
  have htwenty : tcphdrLen = 20 := rfl
  rw [transportPayloadRaw]
  by_cases hudp : proto = ipprotoUdp
  · rw [if_pos hudp]
    exact udpPayload_total hleft
  rw [if_neg hudp]
  by_cases htcp : proto = ipprotoTcp
  · rw [if_pos htcp, tcpPayload]
    by_cases hshort : left < tcphdrLen
    · exact ⟨none, if_pos hshort⟩
    · obtain ⟨thOff, hread⟩ := octetAt_ok (show transport + 12 < pkt.length by omega)
      rw [if_neg hshort, hread]
      exact ⟨_, rfl⟩
  · rw [if_neg htcp]
    split <;> exact ⟨_, rfl⟩

/-- The pseudo header is made of octets of the packet. -/
theorem pseudoHeader_total {dg : Ipdg} {transport : Nat} (hnetwork : dg.network = 0)
    (haddresses : match dg.protoNetwork with
      | .inet => iphdrLen ≤ pkt.length
      | .inet6 => ip6hdrLen ≤ pkt.length)
    (htransport : transport + 8 ≤ pkt.length) :
    ∃ b, checksumPacket.pseudoHeader host pkt dg transport = .ok b := by
  have hsize : iphdrLen = 20 := rfl
  have hsize6 : ip6hdrLen = 40 := rfl
  obtain ⟨ports, hports⟩ := copyAt_of_le (show transport + 4 ≤ pkt.length by omega)
  obtain ⟨ulen, hulen⟩ := copyAt_of_le (show transport + 4 + 2 ≤ pkt.length by omega)
  obtain ⟨sum, hsum⟩ := copyAt_of_le (show transport + 6 + 2 ≤ pkt.length by omega)
  rw [checksumPacket.pseudoHeader, hports, hulen, hsum]
  simp only [bind, Except.bind, hnetwork]
  cases hnet : dg.protoNetwork with
  | inet =>
      rw [hnet] at haddresses
      obtain ⟨proto, hproto⟩ := octetAt_ok (show 9 < pkt.length by omega)
      obtain ⟨addresses, hcopy⟩ := copyAt_of_le (show 12 + 8 ≤ pkt.length by omega)
      rw [hcopy, hproto]
      exact ⟨_, rfl⟩
  | inet6 =>
      rw [hnet] at haddresses
      obtain ⟨addresses, hcopy⟩ := copyAt_of_le (show 0 + 8 + 32 ≤ pkt.length by omega)
      rw [hcopy]
      exact ⟨_, rfl⟩

section Verify

variable {h : NetworkHeader}

/-- Behind the header of a packet, whether or not the packet goes that far. -/
structure Behind (pkt : Bytes) (etype : Nat) (host : ByteOrder) (h : NetworkHeader) : Prop where
  link : datalinkHeader .raw pkt pkt.length = .ok (some (etype, 0, pkt.length))
  header : networkHeader (exthdrsRaw host pkt 0 pkt.length) etype pkt 0 pkt.length = .ok (some h)
  room : h.next ≤ pkt.length → h.len ≤ pkt.length - h.next
  addresses : match h.protoNetwork with
    | .inet => iphdrLen ≤ pkt.length
    | .inet6 => ip6hdrLen ≤ pkt.length

/-- The headers that are looked behind. -/
def NetworkHeader.LookedBehind (h : NetworkHeader) : Prop :=
  h.protoTransport = ipprotoUdp ∨
    h.protoTransport = ipprotoTcp ∧ (h.isFragment && !h.isInitialFragment) = false

theorem checksumPacket_refused {r : Option Ipdg}
    (hparse : nmsgIpdgParsePcapRaw host .raw pkt pkt.length = .ok r)
    (hother : ∀ dg, r = some dg → dg.protoTransport ≠ ipprotoUdp) :
    checksumPacket host pkt = .ok (.inl .error) := by
  rw [checksumPacket, hparse]
  cases r with
  | none => rfl
  | some dg =>
      simp only [bind, Except.bind]
      rw [if_pos (hother dg rfl)]
      rfl

/-- A fragment that is not the first one adds its payload to the sum. -/
theorem Behind.later_total (hbehind : Behind pkt etype host h)
    (hlater : (h.isFragment && !h.isInitialFragment) = true)
    (hnext : h.protoTransport = ipprotoUdp → h.next ≤ pkt.length) :
    ∃ r, checksumPacket host pkt = .ok r := by
  have hparse := nmsgIpdgParsePcapRaw_eq hbehind.link hbehind.header
  rw [if_pos hlater] at hparse
  by_cases hudp : h.protoTransport = ipprotoUdp
  swap
  · refine ⟨_, checksumPacket_refused hparse ?_⟩
    rintro dg ⟨⟩
    exact hudp
  have hroom := hbehind.room (hnext hudp)
  have hcounted : toUnsigned h.len ≤ h.len := Nat.mod_le _ _
  have hinside := hnext hudp
  obtain ⟨data, hcopy⟩ := copyAt_of_le (show h.next + toUnsigned h.len ≤ pkt.length by omega)
  rw [checksumPacket, hparse]
  simp only [bind, Except.bind, fragmentDatagram, hudp, ne_eq, not_true, if_false, hcopy]
  exact ⟨_, rfl⟩

/-- A packet with its transport header adds its payload and the pseudo header. -/
theorem Behind.initial_total (hbehind : Behind pkt etype host h)
    (hinitial : (h.isFragment && !h.isInitialFragment) = false)
    (hudp : h.protoTransport = ipprotoUdp) (hnext : h.next ≤ pkt.length) :
    ∃ r, checksumPacket host pkt = .ok r := by
  have height : udphdrLen = 8 := rfl
  have hparse := nmsgIpdgParsePcapRaw_eq hbehind.link hbehind.header
  rw [if_neg (Bool.eq_false_iff.mp hinitial), transportPayloadRaw, if_pos hudp] at hparse
  have hroom := hbehind.room hnext
  obtain ⟨payload, hpayload⟩ := udpPayload_total hroom
  rw [hpayload] at hparse
  rcases payload with _ | ⟨payload, lenPayload⟩
  · exact ⟨_, checksumPacket_refused hparse (by rintro dg ⟨⟩)⟩
  · have hroom' := (udpPayload_some hpayload).1
    have hinside := udpPayload_inside (fun _ => hroom) hpayload
    obtain ⟨data, hcopy⟩ := copyAt_of_le hinside
    obtain ⟨uhSum, hsum⟩ := loadNet16_ok (show h.next + 6 + 2 ≤ pkt.length by omega)
    rw [checksumPacket, hparse]
    simp only [bind, Except.bind, withTransport, hudp, ne_eq, not_true, if_false]
    split
    · exact ⟨_, rfl⟩
    rw [hsum]
    dsimp only
    split
    · exact ⟨_, rfl⟩
    obtain ⟨pseudo, hpseudo⟩ : ∃ pseudo, checksumPacket.pseudoHeader host pkt {
        protoNetwork := h.protoNetwork
        protoTransport := ipprotoUdp
        lenNetwork := toUnsigned pkt.length
        lenTransport := toUnsigned h.len
        lenPayload := lenPayload
        network := 0
        transport := some h.next
        payload := payload } h.next = .ok pseudo :=
      pseudoHeader_total rfl hbehind.addresses (by omega)
    rw [hpseudo, hcopy]
    exact ⟨_, rfl⟩

theorem Behind.total (hbehind : Behind pkt etype host h)
    (hnext : h.LookedBehind → h.next ≤ pkt.length) : ∃ r, checksumPacket host pkt = .ok r := by
  cases hlater : (h.isFragment && !h.isInitialFragment) with
  | true => exact hbehind.later_total hlater fun hudp => hnext (Or.inl hudp)
  | false =>
      by_cases hudp : h.protoTransport = ipprotoUdp
      · exact hbehind.initial_total hlater hudp (hnext (Or.inl hudp))
      -- another transport header is looked at, and the packet is refused
      have hparse := nmsgIpdgParsePcapRaw_eq hbehind.link hbehind.header
      rw [if_neg (Bool.eq_false_iff.mp hlater)] at hparse
      obtain ⟨payload, hpayload⟩ : ∃ payload, transportPayloadRaw pkt h.protoTransport
          (toUnsigned pkt.length) h.next h.len = .ok payload := by
        by_cases htcp : h.protoTransport = ipprotoTcp
        · exact transportPayloadRaw_total (hbehind.room (hnext (Or.inr ⟨htcp, hlater⟩))) _ _
        · rw [transportPayloadRaw, if_neg hudp, if_neg htcp]
          split <;> exact ⟨_, rfl⟩
      rw [hpayload] at hparse
      refine ⟨_, checksumPacket_refused hparse ?_⟩
      intro dg hdg
      rcases payload with _ | ⟨payload, lenPayload⟩
      · cases hdg
      · cases hdg
        exact hudp

/-- A header that is longer than its packet is looked behind. -/
theorem Behind.beyond (hbehind : Behind pkt etype host h) (hlooked : h.LookedBehind)
    (hlong : pkt.length < h.next) (hleft : 20 ≤ h.len) :
    ∀ r, checksumPacket host pkt ≠ .ok r := by
  have htwenty : tcphdrLen = 20 := rfl
  intro r hok
  have hparse := nmsgIpdgParsePcapRaw_eq hbehind.link hbehind.header
  obtain ⟨dg, hdg, hok⟩ := Outcome.bind_eq_ok.mp hok
  rw [hparse] at hdg
  cases hlater : (h.isFragment && !h.isInitialFragment) with
  | true =>
      have hudp : h.protoTransport = ipprotoUdp := by
        rcases hlooked with hudp | ⟨-, hinitial⟩
        · exact hudp
        · rw [hlater] at hinitial
          cases hinitial
      rw [if_pos hlater] at hdg
      cases hdg
      simp only [fragmentDatagram, hudp, ne_eq, not_true, if_false] at hok
      obtain ⟨data, hdata, -⟩ := Outcome.bind_eq_ok.mp hok
      have := copyAt_le hdata
      omega
  | false =>
      rw [if_neg (Bool.eq_false_iff.mp hlater)] at hdg
      obtain ⟨payload, hpayload, -⟩ := Outcome.bind_eq_ok.mp hdg
      rw [transportPayloadRaw] at hpayload
      rcases hlooked with hudp | ⟨htcp, -⟩
      · rw [if_pos hudp] at hpayload
        exact udpPayload_beyond (by omega) hlong payload hpayload
      · rw [if_neg (by rw [htcp]; decide), if_pos htcp, tcpPayload, if_neg (by omega)] at hpayload
        obtain ⟨thOff, hread, -⟩ := Outcome.bind_eq_ok.mp hpayload
        have := octetAt_lt hread
        omega

theorem Behind.ok_iff (hbehind : Behind pkt etype host h)
    (hleft : pkt.length < h.next → 20 ≤ h.len) :
    (∃ r, checksumPacket host pkt = .ok r) ↔ (h.LookedBehind → h.next ≤ pkt.length) := by
  refine ⟨?_, hbehind.total⟩
  rintro ⟨r, hok⟩ hlooked
  by_contra hlong
  have hlt := Nat.lt_of_not_le hlong
  exact hbehind.beyond hlooked hlt (hleft hlt) r hok

end Verify

/-- A packet without a header that is known is refused. -/
theorem checksumPacket_unlinked (hlink : datalinkHeader .raw pkt pkt.length = .ok none) :
    ∃ r, checksumPacket host pkt = .ok r := by
  refine ⟨_, checksumPacket_refused (r := none) ?_ (by rintro dg ⟨⟩)⟩
  rw [nmsgIpdgParsePcapRaw, hlink]
  rfl

theorem checksumPacket_ipv4_iff {first proto : UInt8} {ipOff : Nat} (hlen : iphdrLen ≤ pkt.length)
    (hfirst : octetAt pkt 0 = .ok first) (hversion : ipV first = 4)
    (hipOff : loadNet16 pkt 6 = .ok ipOff) (hproto : octetAt pkt 9 = .ok proto) :
    (∃ r, checksumPacket host pkt = .ok r) ↔
      ((proto = ipprotoUdp ∨ proto = ipprotoTcp ∧ ipOffmask ipOff = 0) →
        4 * ipHl first ≤ pkt.length) := by
  have hlink : datalinkHeader .raw pkt pkt.length = .ok (some (ethertypeIp, 0, pkt.length)) := by
    rw [datalinkHeader, if_neg (Nat.not_lt_of_le hlen), hfirst]
    exact if_pos hversion
  have hheader := networkHeader_ipv4 (exthdrsRaw host pkt 0 pkt.length) hfirst hipOff hproto
  have hbehind : Behind pkt ethertypeIp host _ := {
    link := hlink
    header := hheader
    room := fun hnext => by
      dsimp only at hnext ⊢
      rw [subSize]
      omega
    addresses := hlen }
  rw [hbehind.ok_iff fun hlong => subSize_of_lt hlong (ipHl_le first)]
  simp only [NetworkHeader.LookedBehind, Bool.and_eq_false_iff, Bool.or_eq_false_iff,
    Bool.not_eq_false', decide_eq_false_iff_not, decide_eq_true_eq, not_not]
  have hinitial : (ipOffmask ipOff = 0 ∧ ipMf ipOff = false) ∨ ipOffmask ipOff = 0 ↔
      ipOffmask ipOff = 0 :=
    ⟨fun h => h.elim And.left id, Or.inr⟩
  rw [hinitial]

theorem datalinkHeader_raw_ipv6 {first : UInt8} (hlen : iphdrLen ≤ pkt.length)
    (hfirst : octetAt pkt 0 = .ok first) (hversion : ipV first = 6) :
    datalinkHeader .raw pkt pkt.length = .ok (some (ethertypeIpv6, 0, pkt.length)) := by
  rw [datalinkHeader, if_neg (Nat.not_lt_of_le hlen), hfirst]
  simp only [bind, Except.bind, hversion]
  rfl

/-- A packet whose header is not found is refused. -/
theorem checksumPacket_headless
    (hlink : datalinkHeader .raw pkt pkt.length = .ok (some (etype, 0, pkt.length)))
    (hnone : networkHeader (exthdrsRaw host pkt 0 pkt.length) etype pkt 0 pkt.length = .ok none) :
    ∃ r, checksumPacket host pkt = .ok r := by
  refine ⟨_, checksumPacket_refused (r := none) ?_ (by rintro dg ⟨⟩)⟩
  rw [nmsgIpdgParsePcapRaw, hlink]
  simp only [bind, Except.bind]
  rw [hnone]
  rfl

theorem checksumPacket_ipv6_iff {first type : UInt8} {payloadLen : Nat}
    (hlen : ip6hdrLen ≤ pkt.length) (hfirst : octetAt pkt 0 = .ok first) (hversion : ipV first = 6)
    (htype : octetAt pkt 6 = .ok type) (hcount : loadNet16 pkt 4 = .ok payloadLen) :
    (∃ r, checksumPacket host pkt = .ok r) ↔
      ∀ v, exthdrsReasm host pkt 0 pkt.length (payloadLen + 1) (walkStart type payloadLen) =
        .ok (some v) → v.isFragment = true → v.fragHdrOffset + 4 ≤ pkt.length := by
  have hsize : ip6hdrLen = 40 := rfl
  have hlink := datalinkHeader_raw_ipv6 (Nat.le_trans (by decide) hlen) hfirst hversion
  have hwalk := exthdrsRaw_ok_iff host (Nat.zero_add pkt.length) (payloadLen + 1)
    (walkStart type payloadLen) (Nat.lt_succ_self _) rfl
  rw [← hwalk]
  constructor
  · rintro ⟨r, hok⟩
    obtain ⟨dg, hparse, -⟩ := Outcome.bind_eq_ok.mp hok
    rw [nmsgIpdgParsePcapRaw, hlink] at hparse
    obtain ⟨_, hsome, hparse⟩ := Outcome.bind_eq_ok.mp hparse
    cases hsome
    obtain ⟨header, hheader, -⟩ := Outcome.bind_eq_ok.mp hparse
    rw [networkHeader, if_neg (by decide), if_pos rfl, ipv6Header,
      if_neg (Nat.not_lt_of_le hlen)] at hheader
    simp only [Nat.zero_add, hfirst, htype, hcount, bind, Except.bind, hversion, ne_eq, not_true,
      if_false] at hheader
    cases hraw : exthdrsRaw host pkt 0 pkt.length (payloadLen + 1) (walkStart type payloadLen) with
    | error e =>
        unfold walkStart at hraw
        rw [hraw] at hheader
        cases hheader
    | ok walked => exact ⟨walked, rfl⟩
  · rintro ⟨walked, hraw⟩
    have hheader := networkHeader_ipv6 hlen hfirst hversion htype hcount hraw
    cases walked with
    | none => exact checksumPacket_headless hlink hheader
    | some w =>
        rw [Option.bind] at hheader
        by_cases hleft : w.thusfar + w.payloadLen > pkt.length ∨ w.payloadLen = 0
        · rw [if_pos hleft] at hheader
          exact checksumPacket_headless hlink hheader
        rw [if_neg hleft] at hheader
        have hbehind : Behind pkt ethertypeIpv6 host _ :=
          ⟨hlink, hheader, fun _ => Nat.le_refl _, hlen⟩
        exact hbehind.total fun _ => by dsimp only; omega

/-- **The checksum.** A packet is read within just when it is there to be read. -/
theorem checksumPacket_ok_iff :
    (∃ r, checksumPacket host pkt = .ok r) ↔ ChecksumReadable host pkt := by
  have hsize : iphdrLen = 20 := rfl
  have hsize6 : ip6hdrLen = 40 := rfl
  by_cases hshort : pkt.length < iphdrLen
  · have hlink : datalinkHeader .raw pkt pkt.length = .ok none := if_pos hshort
    refine ⟨fun _ => ⟨?_, ?_⟩, fun _ => checksumPacket_unlinked hlink⟩
    · intro _ _ _ hlen
      omega
    · intro _ _ _ _ hlen
      omega
  obtain ⟨first, hfirst⟩ := octetAt_ok (show 0 < pkt.length by omega)
  obtain ⟨ipOff, hipOff⟩ := loadNet16_ok (show 6 + 2 ≤ pkt.length by omega)
  obtain ⟨proto, hproto⟩ := octetAt_ok (show 9 < pkt.length by omega)
  obtain ⟨type, htype⟩ := octetAt_ok (show 6 < pkt.length by omega)
  obtain ⟨payloadLen, hcount⟩ := loadNet16_ok (show 4 + 2 ≤ pkt.length by omega)
  by_cases hfour : ipV first = 4
  · rw [checksumPacket_ipv4_iff (Nat.le_of_not_lt hshort) hfirst hfour hipOff hproto]
    constructor
    · intro h
      refine ⟨fun first' ipOff' proto' _ hfirst' _ hipOff' hproto' hknown => ?_, ?_⟩
      · cases hfirst.symm.trans hfirst'
        cases hipOff.symm.trans hipOff'
        cases hproto.symm.trans hproto'
        exact h hknown
      · intro first' _ _ _ _ hfirst' hsix
        cases hfirst.symm.trans hfirst'
        omega
    · rintro ⟨hipv4, -⟩
      exact hipv4 first ipOff proto (Nat.le_of_not_lt hshort) hfirst hfour hipOff hproto
  have hnot : ∀ first', octetAt pkt 0 = .ok first' → ipV first' ≠ 4 := by
    intro first' hfirst'
    cases hfirst.symm.trans hfirst'
    exact hfour
  by_cases hsix : ipV first = 6
  · by_cases hlen : ip6hdrLen ≤ pkt.length
    · rw [checksumPacket_ipv6_iff hlen hfirst hsix htype hcount]
      constructor
      · intro h
        refine ⟨fun first' _ _ _ hfirst' hfour' => absurd hfour' (hnot first' hfirst'), ?_⟩
        intro first' type' payloadLen' v _ _ _ htype' hcount'
        cases htype.symm.trans htype'
        cases hcount.symm.trans hcount'
        exact h v
      · rintro ⟨-, hipv6⟩ v
        exact hipv6 first type payloadLen v hlen hfirst hsix htype hcount
    · have hlink := datalinkHeader_raw_ipv6 (Nat.le_of_not_lt hshort) hfirst hsix
      refine ⟨fun _ => ⟨?_, ?_⟩, fun _ => checksumPacket_headless hlink ?_⟩
      · intro first' _ _ _ hfirst' hfour'
        exact absurd hfour' (hnot first' hfirst')
      · intro _ _ _ _ hlen'
        exact absurd hlen' hlen
      · rw [networkHeader, if_neg (by decide), if_pos rfl, ipv6Header,
          if_pos (Nat.lt_of_not_le hlen)]
  · -- neither version
    have hlink : datalinkHeader .raw pkt pkt.length = .ok none := by
      rw [datalinkHeader, if_neg hshort, hfirst]
      simp only [bind, Except.bind]
      rw [if_neg hfour, if_neg hsix]
      rfl
    refine ⟨fun _ => ⟨?_, ?_⟩, fun _ => checksumPacket_unlinked hlink⟩
    · intro first' _ _ _ hfirst' hfour'
      exact absurd hfour' (hnot first' hfirst')
    · intro first' _ _ _ _ hfirst' hsix'
      cases hfirst.symm.trans hfirst'
      exact absurd hsix' hsix

/-- The packet is part of the sum, and the next one is looked at. -/
def Contributes (host : ByteOrder) (pkt : Bytes) : Prop :=
  ∃ part, checksumPacket host pkt = .ok (.inr part)

/-- The packets up to the first that ends the computation can be read. -/
def ChecksumPacketsReadable (host : ByteOrder) (pkts : List Bytes) : Prop :=
  EachAfter (fun before pkt => (∀ q ∈ before, Contributes host q) → ChecksumReadable host pkt) pkts

theorem checksumLoop_ok_iff : ∀ {pkts : List Bytes} {pseudo : Option Bytes} {sum : Nat},
    (∃ r, checksumLoop host pkts pseudo sum = .ok r) ↔ ChecksumPacketsReadable host pkts := by
  intro pkts
  induction pkts with
  | nil =>
      intro pseudo sum
      cases pseudo <;> exact ⟨fun _ => eachAfter_nil, fun _ => ⟨_, rfl⟩⟩
  | cons pkt rest ih =>
      intro pseudo sum
      rw [ChecksumPacketsReadable, eachAfter_cons, ← checksumPacket_ok_iff, checksumLoop]
      cases hpkt : checksumPacket host pkt with
      | error e =>
          constructor
          · rintro ⟨r, ⟨⟩⟩
          · rintro ⟨hfirst, -⟩
            obtain ⟨r, ⟨⟩⟩ := hfirst (by rintro q ⟨⟩)
      | ok out =>
          have hfirst : ∃ r, checksumPacket host pkt = .ok r := ⟨out, hpkt⟩
          cases out with
          | inl verdict =>
              refine ⟨fun _ => ⟨fun _ => ⟨_, rfl⟩, ?_⟩, fun _ => ⟨verdict, rfl⟩⟩
              -- nothing behind this packet is looked at
              intro before q after _ hbefore
              obtain ⟨part, hpart⟩ := hbefore pkt (List.mem_cons_self ..)
              rw [hpkt] at hpart
              cases hpart
          | inr part =>
              have hcontributes : Contributes host pkt := ⟨part, hpkt⟩
              have hrest : EachAfter (fun before q => (∀ p ∈ pkt :: before, Contributes host p) →
                  ChecksumReadable host q) rest ↔ ChecksumPacketsReadable host rest := by
                refine ⟨fun h => h.mono fun before q hq hbefore => hq ?_,
                  fun h => h.mono fun before q hq hbefore => hq fun p hp =>
                    hbefore p (List.mem_cons_of_mem _ hp)⟩
                intro p hp
                rcases List.mem_cons.mp hp with rfl | hp
                · exact hcontributes
                · exact hbefore p hp
              rw [hrest, ← ih]
              exact ⟨fun h => ⟨fun _ => ⟨_, rfl⟩, h⟩, And.right⟩

end Parse

/-! ### Fragments -/

/-- A packet is not empty, and has those of its octets that are looked at before its length is. -/
structure FragmentReadable (pkt : Bytes) : Prop where
  first : pkt ≠ []
  ipv4 : ∀ first, octetAt pkt 0 = .ok first → ipV first = 4 → 8 ≤ pkt.length ∧
    ∀ ipLen off, loadNet16 pkt 2 = .ok ipLen → loadNet16 pkt 6 = .ok off →
      ipLen ≤ toUnsigned pkt.length → (ipMf off ∨ ipOffmask off ≠ 0) → iphdrLen ≤ pkt.length
  ipv6 : ∀ first, octetAt pkt 0 = .ok first → ipV first = 6 → 6 ≤ pkt.length

section Fragment

variable {pkt : Bytes} {ts : Timespec}

theorem readable_of_parse {r : Option (ParsedFrag BaseFrag)}
    (hok : reasmParsePacket pkt (toUnsigned pkt.length) ts = .ok r) : FragmentReadable pkt := by
  unfold reasmParsePacket at hok
  obtain ⟨first, hfirst, hok⟩ := Outcome.bind_eq_ok.mp hok
  have hlt := octetAt_lt hfirst
  refine ⟨List.ne_nil_of_length_pos hlt, fun first' hfirst' hfour => ?_, fun first' hfirst' hsix => ?_⟩
  · cases hfirst.symm.trans hfirst'
    rw [if_pos hfour] at hok
    obtain ⟨f, hf, -⟩ := Outcome.bind_eq_ok.mp hok
    obtain ⟨off, hoff, hf⟩ := Outcome.bind_eq_ok.mp hf
    obtain ⟨ipLen, hipLen, hf⟩ := Outcome.bind_eq_ok.mp hf
    refine ⟨loadNet16_le hoff, fun ipLen' off' hipLen' hoff' hfits hfragment => ?_⟩
    cases hoff.symm.trans hoff'
    cases hipLen.symm.trans hipLen'
    rw [if_pos ⟨hfits, hfragment⟩] at hf
    obtain ⟨_, -, hf⟩ := Outcome.bind_eq_ok.mp hf
    obtain ⟨_, -, hf⟩ := Outcome.bind_eq_ok.mp hf
    obtain ⟨_, -, hf⟩ := Outcome.bind_eq_ok.mp hf
    obtain ⟨dst, hdst, -⟩ := Outcome.bind_eq_ok.mp hf
    exact copyAt_le hdst
  · cases hfirst.symm.trans hfirst'
    rw [if_neg (by omega), if_pos hsix] at hok
    obtain ⟨plen, hplen, -⟩ := Outcome.bind_eq_ok.mp hok
    exact loadNet16_le hplen

/-- **Fragments.** A packet is read within just when it is there to be read. -/
theorem reasmParsePacket_ok_iff :
    (∃ r, reasmParsePacket pkt (toUnsigned pkt.length) ts = .ok r) ↔ FragmentReadable pkt := by
  refine ⟨fun ⟨r, hok⟩ => readable_of_parse hok, fun h => ?_⟩
  have hcounted : toUnsigned pkt.length ≤ pkt.length := Nat.mod_le _ _
  obtain ⟨first, hfirst⟩ := octetAt_ok (List.length_pos_iff.mpr h.first)
  by_cases hfixed : HasFixedHeader pkt
  · obtain ⟨r, hok, -⟩ := (reasmParsePacket_kept hfixed hcounted ts).returns
    exact ⟨r, hok⟩
  rw [reasmParsePacket, hfirst]
  simp only [bind, Except.bind]
  by_cases hfour : ipV first = 4
  · rw [if_pos hfour]
    obtain ⟨hroom, hfragment⟩ := h.ipv4 first hfirst hfour
    obtain ⟨off, hoff⟩ := loadNet16_ok (show 6 + 2 ≤ pkt.length by omega)
    obtain ⟨ipLen, hipLen⟩ := loadNet16_ok (show 2 + 2 ≤ pkt.length by omega)
    have hnot : ¬ (toUnsigned pkt.length ≥ ipLen ∧ (ipMf off ∨ ipOffmask off ≠ 0)) := by
      rintro ⟨hfits, hfrag⟩
      refine hfixed ⟨h.first, fun _ _ _ => hfragment ipLen off hipLen hoff hfits hfrag, ?_⟩
      intro first' hfirst' hsix
      cases hfirst.symm.trans hfirst'
      omega
    have hnone : parseIpv4Fragment pkt (toUnsigned pkt.length) = .ok none := by
      rw [parseIpv4Fragment, hoff]
      simp only [bind, Except.bind, hipLen]
      rw [if_neg hnot]
      rfl
    rw [hnone]
    exact ⟨_, rfl⟩
  rw [if_neg hfour]
  by_cases hsix : ipV first = 6
  · rw [if_pos hsix]
    have hroom := h.ipv6 first hfirst hsix
    obtain ⟨plen, hplen⟩ := loadNet16_ok (show 4 + 2 ≤ pkt.length by omega)
    rw [hplen]
    dsimp only
    by_cases hfits : toUnsigned pkt.length ≥ plen + 40
    · refine absurd ⟨h.first, ?_, fun _ _ _ => ?_⟩ hfixed
      · intro first' hfirst' hfour'
        cases hfirst.symm.trans hfirst'
        omega
      · change 40 ≤ pkt.length
        omega
    · exact ⟨_, if_neg hfits⟩
  · rw [if_neg hsix]
    exact ⟨_, rfl⟩

end Fragment

end Nmsg

import Nmsg.Proof.PacketFaults

/-!
# Datagrams and the packets they are in

A parser that returns a datagram has read its headers. IPv6 headers are looked at only as far as the
packet goes, or the packet is refused in the end. Of an IPv4 header neither the fixed part nor the
length is compared with the packet, and neither is the length of a TCP header.
-/

namespace Nmsg

/-- The sections of a datagram lie in a packet of `len` octets, one in the other. -/
structure Ipdg.Within (len : Nat) (dg : Ipdg) : Prop where
  network : dg.network + dg.lenNetwork = len
  transport : ∀ transport, dg.transport = some transport →
    dg.network ≤ transport ∧ transport + dg.lenTransport ≤ len ∧
      transport ≤ dg.payload ∧ dg.payload + dg.lenPayload ≤ transport + dg.lenTransport
  payload : dg.network ≤ dg.payload ∧ dg.payload + dg.lenPayload ≤ len

/-! ### Longer memory -/

section Extends

variable (host : ByteOrder) (pkt past : Bytes)

theorem octetAt_extends (i : Nat) : Extends (octetAt pkt i) (octetAt (pkt ++ past) i) := by
  intro b h
  rw [octetAt] at h
  cases hpkt : pkt[i]? with
  | none =>
      rw [hpkt] at h
      cases h
  | some x =>
      rw [hpkt] at h
      have hlt := (List.getElem?_eq_some_iff.mp hpkt).1
      rw [octetAt, List.getElem?_append_left hlt, hpkt]
      exact h

theorem loadNet16_extends (i : Nat) : Extends (loadNet16 pkt i) (loadNet16 (pkt ++ past) i) := by
  intro b h
  rw [loadNet16] at h
  cases hread : Memory.read pkt i 2 with
  | none =>
      rw [hread] at h
      cases h
  | some octets =>
      rw [hread] at h
      rw [loadNet16, Memory.read_append (Memory.read_eq_some.mp hread).1, hread]
      exact h

theorem ipv4Header_extends (network len : Nat) :
    Extends (ipv4Header pkt network len) (ipv4Header (pkt ++ past) network len) := by
  unfold ipv4Header
  refine (octetAt_extends _ _ _).bind fun first => ?_
  refine (loadNet16_extends _ _ _).bind fun ipOff => ?_
  exact (octetAt_extends _ _ _).bind fun ipP => .refl _

theorem passExthdr_extends (network : Nat) (w : ExthdrWalk) :
    Extends (passExthdr host pkt network w) (passExthdr host (pkt ++ past) network w) := by
  unfold passExthdr
  refine (octetAt_extends _ _ _).bind fun nexthdr => ?_
  exact (octetAt_extends _ _ _).bind fun length => .refl _

theorem exthdrsRaw_extends (network len : Nat) : ∀ (fuel : Nat) (w : ExthdrWalk),
    Extends (exthdrsRaw host pkt network len fuel w)
      (exthdrsRaw host (pkt ++ past) network len fuel w) := by
  intro fuel
  induction fuel with
  | zero => exact fun w => .refl _
  | succ fuel ih =>
      intro w
      rw [exthdrsRaw, exthdrsRaw]
      split
      · split
        · exact .refl _
        split
        · exact (loadNet16_extends _ _ _).bind fun offlg => passExthdr_extends _ _ _ _ _
        · refine (passExthdr_extends _ _ _ _ _).bind fun w' => ?_
          cases w' with
          | none => exact .refl _
          | some w' => exact ih w'
      · exact .refl _

theorem exthdrsReasm_extends (network len : Nat) : ∀ (fuel : Nat) (w : ExthdrWalk),
    Extends (exthdrsReasm host pkt network len fuel w)
      (exthdrsReasm host (pkt ++ past) network len fuel w) := by
  intro fuel
  induction fuel with
  | zero => exact fun w => .refl _
  | succ fuel ih =>
      intro w
      rw [exthdrsReasm, exthdrsReasm]
      split
      · split
        · exact .refl _
        split
        · exact .refl _
        · refine (passExthdr_extends _ _ _ _ _).bind fun w' => ?_
          cases w' with
          | none => exact .refl _
          | some w' => exact ih w'
      · exact .refl _

theorem networkHeader_extends {walk walk' : Nat → ExthdrWalk → Except Abort (Option ExthdrWalk)}
    (hwalk : ∀ fuel w, Extends (walk fuel w) (walk' fuel w)) (etype network len : Nat) :
    Extends (networkHeader walk etype pkt network len)
      (networkHeader walk' etype (pkt ++ past) network len) := by
  unfold networkHeader
  split
  · exact (ipv4Header_extends _ _ _ _).map
  split
  · unfold ipv6Header
    split
    · exact .refl _
    refine (octetAt_extends _ _ _).bind fun first => ?_
    split
    · exact .refl _
    refine (octetAt_extends _ _ _).bind fun nexthdr => ?_
    refine (loadNet16_extends _ _ _).bind fun payloadLen => ?_
    exact (hwalk _ _).bind fun w => .refl _
  · exact .refl _

theorem transportPayloadRaw_extends (proto : UInt8) (lenNetwork transport len : Nat) :
    Extends (transportPayloadRaw pkt proto lenNetwork transport len)
      (transportPayloadRaw (pkt ++ past) proto lenNetwork transport len) := by
  unfold transportPayloadRaw udpPayload tcpPayload
  split
  · split
    · exact .refl _
    · exact (loadNet16_extends _ _ _).bind fun _ => .refl _
  split
  · split
    · exact .refl _
    · exact (octetAt_extends _ _ _).bind fun _ => .refl _
  · exact .refl _

end Extends

/-! ### Within the packet -/

section Local

variable {host : ByteOrder} {pkt past : Bytes} {network len : Nat}

theorem octetAt_local {i : Nat} (h : i < pkt.length) :
    octetAt (pkt ++ past) i = octetAt pkt i := by
  rw [octetAt, octetAt, List.getElem?_append_left h]

theorem loadNet16_local {i : Nat} (h : i + 2 ≤ pkt.length) :
    loadNet16 (pkt ++ past) i = loadNet16 pkt i := by
  rw [loadNet16, loadNet16, Memory.read_append h]

theorem octetAt_lt {i : Nat} {b : UInt8} (h : octetAt pkt i = .ok b) : i < pkt.length :=
  (List.getElem?_eq_some_iff.mp (octetAt_eq_ok.mp h)).1

theorem loadNet16_le {i n : Nat} (h : loadNet16 pkt i = .ok n) : i + 2 ≤ pkt.length := by
  obtain ⟨b, hread, -⟩ := loadNet16_eq_ok.mp h
  exact (Memory.read_eq_some.mp hread).1

theorem copyAt_le {i n : Nat} {b : Bytes} (h : copyAt pkt i n = .ok b) : i + n ≤ pkt.length :=
  (Memory.read_eq_some.mp (copyAt_eq_ok.mp h)).1

theorem copyAt_of_le {i n : Nat} (h : i + n ≤ pkt.length) : ∃ b, copyAt pkt i n = .ok b := by
  rw [copyAt, Memory.read_of_le h]
  exact ⟨_, rfl⟩

/-- The data link header is looked at only where the packet is long enough. -/
theorem datalinkHeader_local (datalink : Datalink) (pkt past : Bytes) :
    datalinkHeader datalink (pkt ++ past) pkt.length = datalinkHeader datalink pkt pkt.length := by
  have hether : etherHdrLen = 14 := rfl
  have hip : iphdrLen = 20 := rfl
  unfold datalinkHeader
  cases datalink with
  | en10mb =>
      simp only
      by_cases hshort : pkt.length < etherHdrLen
      · rw [if_pos hshort, if_pos hshort]
      rw [if_neg hshort, if_neg hshort, loadNet16_local (by omega)]
      refine bind_congr fun etype => ?_
      by_cases hvlan : etype = ethertypeVlan
      · rw [if_pos hvlan, if_pos hvlan]
        by_cases htag : pkt.length - etherHdrLen < 4
        · rw [if_pos htag, if_pos htag]
        · rw [if_neg htag, if_neg htag, loadNet16_local (by omega)]
      · rw [if_neg hvlan, if_neg hvlan]
  | raw =>
      simp only
      by_cases hshort : pkt.length < iphdrLen
      · rw [if_pos hshort, if_pos hshort]
      · rw [if_neg hshort, if_neg hshort, octetAt_local (by omega)]
  | linuxSll =>
      simp only
      by_cases hshort : pkt.length < 16
      · rw [if_pos hshort, if_pos hshort]
      · rw [if_neg hshort, if_neg hshort, loadNet16_local (by omega)]
  | other => rfl

theorem datalinkHeader_place {datalink : Datalink} {etype : Nat}
    (h : datalinkHeader datalink pkt pkt.length = .ok (some (etype, network, len))) :
    network + len = pkt.length := by
  have hether : etherHdrLen = 14 := rfl
  unfold datalinkHeader at h
  cases datalink with
  | en10mb =>
      simp only at h
      split at h
      · cases h
      obtain ⟨etype', -, h⟩ := Outcome.bind_eq_ok.mp h
      split at h
      · split at h
        · cases h
        obtain ⟨etype'', -, h⟩ := Outcome.bind_eq_ok.mp h
        cases h
        omega
      · cases h
        omega
  | raw =>
      simp only at h
      split at h
      · cases h
      obtain ⟨first, -, h⟩ := Outcome.bind_eq_ok.mp h
      split at h
      · cases h
        omega
      split at h
      · cases h
        omega
      · cases h
  | linuxSll =>
      simp only at h
      split at h
      · cases h
      obtain ⟨etype', -, h⟩ := Outcome.bind_eq_ok.mp h
      cases h
      omega
  | other =>
      cases h
      omega

theorem passExthdr_thusfar {w w' : ExthdrWalk}
    (h : passExthdr host pkt network w = .ok (some w')) : w.thusfar + 8 ≤ w'.thusfar := by
  obtain ⟨nexthdr, -, h⟩ := Outcome.bind_eq_ok.mp h
  obtain ⟨length, -, h⟩ := Outcome.bind_eq_ok.mp h
  have hge := exthdrLen_ge host length
  simp only at h
  split at h
  · cases h
  · cases h
    simp only
    omega

theorem passExthdr_isFragment {w w' : ExthdrWalk}
    (h : passExthdr host pkt network w = .ok (some w')) : w'.isFragment = w.isFragment := by
  obtain ⟨nexthdr, -, h⟩ := Outcome.bind_eq_ok.mp h
  obtain ⟨length, -, h⟩ := Outcome.bind_eq_ok.mp h
  dsimp only at h
  split at h
  · cases h
  · cases h
    rfl

/-- A walk that stops in front of a Fragment header is an induction on the headers it passes. -/
theorem exthdrsReasm_rule {P : ExthdrWalk → ExthdrWalk → Prop}
    (hlast : ∀ w, ¬ isExthdr w.nexthdr = true → P w w)
    (hfragment : ∀ w, w.nexthdr = ipprotoFragment →
      P w { w with isFragment := true, fragHdrOffset := w.thusfar })
    (hpass : ∀ w next v, passExthdr host pkt network w = .ok (some next) → P next v → P w v) :
    ∀ {fuel : Nat} {w v : ExthdrWalk},
      exthdrsReasm host pkt network len fuel w = .ok (some v) → P w v := by
  intro fuel
  induction fuel with
  | zero => rintro _ _ ⟨⟩
  | succ fuel ih =>
      intro w v h
      rw [exthdrsReasm] at h
      by_cases hext : isExthdr w.nexthdr = true
      swap
      · rw [if_neg hext] at h
        cases h
        exact hlast w hext
      rw [if_pos hext] at h
      by_cases hbroken : w.thusfar + 2 > len
      · rw [if_pos hbroken] at h
        cases h
      rw [if_neg hbroken] at h
      by_cases hfrag : w.nexthdr = ipprotoFragment
      · rw [if_pos hfrag] at h
        cases h
        exact hfragment w hfrag
      · rw [if_neg hfrag] at h
        obtain ⟨passed, hpassed, hrest⟩ := Outcome.bind_eq_ok.mp h
        cases passed with
        | none => cases hrest
        | some next => exact hpass w next v hpassed (ih hrest)

theorem exthdrsReasm_thusfar {fuel : Nat} {w v : ExthdrWalk}
    (h : exthdrsReasm host pkt network len fuel w = .ok (some v)) : w.thusfar ≤ v.thusfar := by
  refine exthdrsReasm_rule (P := fun w v => w.thusfar ≤ v.thusfar) (fun w _ => Nat.le_refl _)
    (fun w _ => Nat.le_refl _) (fun w next v hpass hv => ?_) h
  have hnext := passExthdr_thusfar hpass
  omega

theorem passExthdr_local {w : ExthdrWalk} (h : network + w.thusfar + 2 ≤ pkt.length) :
    passExthdr host (pkt ++ past) network w = passExthdr host pkt network w := by
  rw [passExthdr, passExthdr, octetAt_local (by omega), octetAt_local (by omega)]

/-- A walk that ends within the packet stays there. -/
def WalkLocal (pkt : Bytes) (network : Nat) (len : Nat)
    (walk walk' : Nat → ExthdrWalk → Except Abort (Option ExthdrWalk)) : Prop :=
  network + len = pkt.length → ∀ fuel w w', walk' fuel w = .ok (some w') → w'.thusfar ≤ len →
    walk fuel w = .ok (some w') ∧ w.thusfar ≤ w'.thusfar

theorem exthdrsRaw_local (host : ByteOrder) (pkt past : Bytes) (network len : Nat) :
    WalkLocal pkt network len (exthdrsRaw host pkt network len)
      (exthdrsRaw host (pkt ++ past) network len) := by
  intro hlen fuel
  induction fuel with
  | zero =>
      intro w w' h
      cases h
  | succ fuel ih =>
      intro w w' h hend
      rw [exthdrsRaw] at h ⊢
      by_cases hext : isExthdr w.nexthdr
      swap
      · rw [if_neg hext] at h ⊢
        cases h
        exact ⟨rfl, le_rfl⟩
      rw [if_pos hext] at h ⊢
      by_cases hbroken : w.thusfar + 2 > len
      · rw [if_pos hbroken] at h
        cases h
      rw [if_neg hbroken] at h ⊢
      by_cases hfragment : w.nexthdr = ipprotoFragment
      · rw [if_pos hfragment] at h ⊢
        obtain ⟨offlg, hofflg, hpass⟩ := Outcome.bind_eq_ok.mp h
        have hthusfar := passExthdr_thusfar hpass
        simp only at hthusfar
        rw [loadNet16_local (by omega)] at hofflg
        rw [passExthdr_local (by simp only; omega)] at hpass
        exact ⟨Outcome.bind_eq_ok.mpr ⟨offlg, hofflg, hpass⟩, by omega⟩
      · rw [if_neg hfragment] at h ⊢
        obtain ⟨passed, hpass, hrest⟩ := Outcome.bind_eq_ok.mp h
        rw [passExthdr_local (by omega)] at hpass
        cases passed with
        | none => cases hrest
        | some w₁ =>
            have hthusfar := passExthdr_thusfar hpass
            obtain ⟨hwalk, hle⟩ := ih w₁ w' hrest hend
            exact ⟨Outcome.bind_eq_ok.mpr ⟨_, hpass, hwalk⟩, by omega⟩

theorem exthdrsReasm_local (host : ByteOrder) (pkt past : Bytes) (network len : Nat) :
    WalkLocal pkt network len (exthdrsReasm host pkt network len)
      (exthdrsReasm host (pkt ++ past) network len) := by
  intro hlen fuel
  induction fuel with
  | zero =>
      intro w w' h
      cases h
  | succ fuel ih =>
      intro w w' h hend
      rw [exthdrsReasm] at h ⊢
      by_cases hext : isExthdr w.nexthdr
      swap
      · rw [if_neg hext] at h ⊢
        cases h
        exact ⟨rfl, le_rfl⟩
      rw [if_pos hext] at h ⊢
      by_cases hbroken : w.thusfar + 2 > len
      · rw [if_pos hbroken] at h
        cases h
      rw [if_neg hbroken] at h ⊢
      by_cases hfragment : w.nexthdr = ipprotoFragment
      · rw [if_pos hfragment] at h ⊢
        cases h
        exact ⟨rfl, le_rfl⟩
      · rw [if_neg hfragment] at h ⊢
        obtain ⟨passed, hpass, hrest⟩ := Outcome.bind_eq_ok.mp h
        rw [passExthdr_local (by omega)] at hpass
        cases passed with
        | none => cases hrest
        | some w₁ =>
            have hthusfar := passExthdr_thusfar hpass
            obtain ⟨hwalk, hle⟩ := ih w₁ w' hrest hend
            exact ⟨Outcome.bind_eq_ok.mpr ⟨_, hpass, hwalk⟩, by omega⟩

/-- A header is in its place: an IPv6 header in the packet, and an IPv4 header where its length field
says, which need not be in the packet. -/
structure Placed (pkt : Bytes) (etype network len : Nat) (h : NetworkHeader) : Prop where
  start : network ≤ h.next
  near : h.next ≤ pkt.length + 60
  ipv6 : etype ≠ ethertypeIp → h.next + h.len = pkt.length
  ipv4 : etype = ethertypeIp → h.len = subSize len (h.next - network)

theorem ipv4Header_place {h : NetworkHeader} (hlen : network + len = pkt.length) {mem : Bytes}
    (hok : ipv4Header mem network len = .ok h) : Placed pkt ethertypeIp network len h := by
  obtain ⟨first, -, hok⟩ := Outcome.bind_eq_ok.mp hok
  obtain ⟨ipOff, -, hok⟩ := Outcome.bind_eq_ok.mp hok
  obtain ⟨ipP, -, hok⟩ := Outcome.bind_eq_ok.mp hok
  have hhl : ipHl first < 16 := Nat.mod_lt _ (by decide)
  cases hok
  refine ⟨Nat.le_add_right _ _, ?_, fun hne => absurd rfl hne, fun _ => ?_⟩
  · simp only
    omega
  · simp only [Nat.add_sub_cancel_left]

/-- The fixed part of an IPv4 header is read up to its tenth octet. -/
theorem ipv4Header_local_iff (hlen : network + len = pkt.length) {h : NetworkHeader}
    (hok : ipv4Header (pkt ++ past) network len = .ok h) :
    ipv4Header pkt network len = .ok h ↔ 10 ≤ len := by
  constructor
  · intro hok'
    obtain ⟨first, -, hok'⟩ := Outcome.bind_eq_ok.mp hok'
    obtain ⟨ipOff, -, hok'⟩ := Outcome.bind_eq_ok.mp hok'
    obtain ⟨ipP, hipP, -⟩ := Outcome.bind_eq_ok.mp hok'
    have := octetAt_lt hipP
    omega
  · intro hten
    rw [ipv4Header, octetAt_local (by omega), loadNet16_local (by omega),
      octetAt_local (by omega)] at hok
    exact hok

theorem ipv6Header_local {walk walk' : Nat → ExthdrWalk → Except Abort (Option ExthdrWalk)}
    (hlen : network + len = pkt.length) (hwalk : WalkLocal pkt network len walk walk')
    {h : NetworkHeader} (hok : ipv6Header walk' (pkt ++ past) network len = .ok (some h)) :
    ipv6Header walk pkt network len = .ok (some h) ∧ network ≤ h.next ∧
      h.next + h.len = pkt.length := by
  have hsize : ip6hdrLen = 40 := rfl
  rw [ipv6Header] at hok ⊢
  by_cases hshort : len < ip6hdrLen
  · rw [if_pos hshort] at hok
    cases hok
  rw [if_neg hshort] at hok ⊢
  rw [octetAt_local (by omega)] at hok
  obtain ⟨first, hfirst, hok⟩ := Outcome.bind_eq_ok.mp hok
  by_cases hversion : ipV first ≠ 6
  · rw [if_pos hversion] at hok
    cases hok
  rw [if_neg hversion, octetAt_local (by omega), loadNet16_local (by omega)] at hok
  obtain ⟨nexthdr, hnexthdr, hok⟩ := Outcome.bind_eq_ok.mp hok
  obtain ⟨payloadLen, hpayloadLen, hok⟩ := Outcome.bind_eq_ok.mp hok
  obtain ⟨walked, hwalked, hok⟩ := Outcome.bind_eq_ok.mp hok
  cases walked with
  | none => cases hok
  | some w =>
      simp only at hok
      by_cases hrefused : w.thusfar + w.payloadLen > len ∨ w.payloadLen = 0
      · rw [if_pos hrefused] at hok
        cases hok
      obtain ⟨hwalk', hthusfar⟩ := hwalk hlen _ _ _ hwalked (by omega)
      refine ⟨?_, ?_⟩
      · rw [hfirst]
        refine (if_neg hversion).trans ?_
        exact Outcome.bind_eq_ok.mpr ⟨nexthdr, hnexthdr, Outcome.bind_eq_ok.mpr
          ⟨payloadLen, hpayloadLen, Outcome.bind_eq_ok.mpr ⟨_, hwalk', hok⟩⟩⟩
      · rw [if_neg hrefused] at hok
        cases hok
        simp only
        omega

/-- A header that is found is in its place, and found in the packet alone, an IPv4 header if ten of
its octets are there. -/
theorem networkHeader_local {walk walk' : Nat → ExthdrWalk → Except Abort (Option ExthdrWalk)}
    (hlen : network + len = pkt.length) (hwalk : WalkLocal pkt network len walk walk')
    {etype : Nat} {h : NetworkHeader}
    (hok : networkHeader walk' etype (pkt ++ past) network len = .ok (some h)) :
    Placed pkt etype network len h ∧
      (networkHeader walk etype pkt network len = .ok (some h) ↔
        (etype = ethertypeIp → 10 ≤ len)) := by
  rw [networkHeader] at hok ⊢
  by_cases hip : etype = ethertypeIp
  · rw [if_pos hip] at hok ⊢
    cases hheader : ipv4Header (pkt ++ past) network len with
    | error e =>
        rw [hheader] at hok
        cases hok
    | ok h' =>
        rw [hheader] at hok
        cases hok
        refine ⟨hip ▸ ipv4Header_place hlen hheader, ?_⟩
        rw [← ipv4Header_local_iff hlen hheader]
        constructor
        · intro hmap _
          cases hpkt : ipv4Header pkt network len with
          | error e =>
              rw [hpkt] at hmap
              cases hmap
          | ok h'' =>
              rw [hpkt] at hmap
              cases hmap
              rfl
        · intro hpkt
          rw [hpkt hip]
          rfl
  · rw [if_neg hip] at hok ⊢
    by_cases hip6 : etype = ethertypeIpv6
    · rw [if_pos hip6] at hok ⊢
      obtain ⟨hpkt, hnext, hend⟩ := ipv6Header_local hlen hwalk hok
      refine ⟨⟨hnext, by omega, fun _ => hend, fun h => absurd h hip⟩, ?_⟩
      exact ⟨fun _ h => absurd h hip, fun _ => hpkt⟩
    · rw [if_neg hip6] at hok
      cases hok

/-! ### Transport headers -/

/-- The transport headers that `nmsg_ipdg_parse_pcap_raw` goes on from, with the octets it wants to
see behind the network header. -/
def TransportKnown (proto : UInt8) (len : Nat) : Prop :=
  (proto = ipprotoUdp ∧ udphdrLen ≤ len) ∨ (proto = ipprotoTcp ∧ tcphdrLen ≤ len) ∨
    (proto = ipprotoIcmp ∧ icmphdrLen ≤ len)

/-- The length field of a TCP header counts no more octets than there are. -/
def TcpFits (pkt : Bytes) (proto : UInt8) (transport len : Nat) : Prop :=
  proto = ipprotoTcp → ∀ thOff, octetAt pkt (transport + 12) = .ok thOff →
    4 * (thOff.toNat / 16) ≤ len

section Transport

variable {mem : Bytes} {proto : UInt8} {lenNetwork transport payload lenPayload : Nat}

theorem octetAt_ok {i : Nat} (h : i < mem.length) : ∃ b, octetAt mem i = .ok b := by
  rw [octetAt, List.getElem?_eq_getElem h]
  exact ⟨_, rfl⟩

theorem loadNet16_ok {i : Nat} (h : i + 2 ≤ mem.length) : ∃ n, loadNet16 mem i = .ok n := by
  rw [loadNet16, Memory.read_of_le h]
  exact ⟨_, rfl⟩

theorem udpPayload_ok (hlen : udphdrLen ≤ len) (hmem : transport + 6 ≤ mem.length) :
    ∃ out, udpPayload mem transport len = .ok (some out) := by
  obtain ⟨uhUlen, hread⟩ := loadNet16_ok (show transport + 4 + 2 ≤ mem.length by omega)
  rw [udpPayload, if_neg (by omega), hread]
  exact ⟨_, rfl⟩

theorem udpPayload_some (h : udpPayload mem transport len = .ok (some (payload, lenPayload))) :
    udphdrLen ≤ len ∧ payload = transport + udphdrLen ∧
      (len < 2 ^ 32 → lenPayload ≤ len - udphdrLen) := by
  rw [udpPayload] at h
  by_cases hshort : len < udphdrLen
  · rw [if_pos hshort] at h
    cases h
  rw [if_neg hshort] at h
  obtain ⟨uhUlen, -, h⟩ := Outcome.bind_eq_ok.mp h
  simp only at h
  generalize (if uhUlen ≥ 8 then uhUlen - 8 else uhUlen) = tpPayloadLen at h
  cases h
  refine ⟨by omega, rfl, fun hcounted => ?_⟩
  split
  · rw [toUnsigned, Nat.mod_eq_of_lt (by omega)]
  · omega

theorem udpPayload_local (hend : transport + len = pkt.length) (hlen : udphdrLen ≤ len) :
    udpPayload (pkt ++ past) transport len = udpPayload pkt transport len := by
  have hsize : udphdrLen = 8 := rfl
  rw [udpPayload, udpPayload, loadNet16_local (by omega)]

/-- A transport header is gone on from where memory goes far enough. -/
theorem transportPayloadRaw_ok (lenNetwork : Nat) (hknown : TransportKnown proto len)
    (hmem : transport + 13 ≤ mem.length) :
    ∃ out, transportPayloadRaw mem proto lenNetwork transport len = .ok (some out) := by
  rw [transportPayloadRaw]
  rcases hknown with ⟨rfl, hlen⟩ | ⟨rfl, hlen⟩ | ⟨rfl, hlen⟩
  · rw [if_pos rfl]
    exact udpPayload_ok hlen (by omega)
  · obtain ⟨thOff, hread⟩ := octetAt_ok (show transport + 12 < mem.length by omega)
    rw [if_neg (by decide), if_pos rfl, tcpPayload, if_neg (by omega), hread]
    exact ⟨_, rfl⟩
  · rw [if_neg (by decide), if_neg (by decide), if_pos rfl, icmpPayload, if_neg (by omega)]
    exact ⟨_, rfl⟩

theorem transportKnown_of_some
    (h : transportPayloadRaw mem proto lenNetwork transport len = .ok (some (payload, lenPayload))) :
    TransportKnown proto len := by
  rw [transportPayloadRaw] at h
  by_cases hudp : proto = ipprotoUdp
  · rw [if_pos hudp] at h
    exact Or.inl ⟨hudp, (udpPayload_some h).1⟩
  rw [if_neg hudp] at h
  by_cases htcp : proto = ipprotoTcp
  · rw [if_pos htcp, tcpPayload] at h
    by_cases hshort : len < tcphdrLen
    · rw [if_pos hshort] at h
      cases h
    · exact Or.inr (Or.inl ⟨htcp, by omega⟩)
  rw [if_neg htcp] at h
  by_cases hicmp : proto = ipprotoIcmp
  · rw [if_pos hicmp, icmpPayload] at h
    by_cases hshort : len < icmphdrLen
    · rw [if_pos hshort] at h
      cases h
    · exact Or.inr (Or.inr ⟨hicmp, by omega⟩)
  · rw [if_neg hicmp] at h
    cases h

/-- The place of a TCP payload. -/
theorem tcpPayload_some
    (h : transportPayloadRaw mem ipprotoTcp lenNetwork transport len =
      .ok (some (payload, lenPayload))) :
    ∃ thOff, octetAt mem (transport + 12) = .ok thOff ∧
      payload = transport + 4 * (thOff.toNat / 16) ∧
      lenPayload = if subUnsigned lenNetwork (4 * (thOff.toNat / 16)) >
          subSize len (4 * (thOff.toNat / 16)) then
        toUnsigned (subSize len (4 * (thOff.toNat / 16)))
      else subUnsigned lenNetwork (4 * (thOff.toNat / 16)) := by
  rw [transportPayloadRaw, if_neg (by decide), if_pos rfl, tcpPayload] at h
  by_cases hshort : len < tcphdrLen
  · rw [if_pos hshort] at h
    cases h
  rw [if_neg hshort] at h
  obtain ⟨thOff, hread, h⟩ := Outcome.bind_eq_ok.mp h
  cases h
  exact ⟨thOff, hread, rfl, rfl⟩

/-- A payload behind a transport header that fits lies in it, and was found in the packet. -/
theorem transportPayloadRaw_local (hend : transport + len = pkt.length) (hcounted : len < 2 ^ 32)
    (htcp : TcpFits pkt proto transport len)
    (h : transportPayloadRaw (pkt ++ past) proto lenNetwork transport len =
      .ok (some (payload, lenPayload))) :
    transportPayloadRaw pkt proto lenNetwork transport len = .ok (some (payload, lenPayload)) ∧
      transport ≤ payload ∧ payload + lenPayload ≤ transport + len := by
  have hudpLen : udphdrLen = 8 := rfl
  have htcpLen : tcphdrLen = 20 := rfl
  have hicmpLen : icmphdrLen = 4 := rfl
  rcases transportKnown_of_some h with ⟨rfl, hlen⟩ | ⟨rfl, hlen⟩ | ⟨rfl, hlen⟩
  · rw [transportPayloadRaw, if_pos rfl] at h ⊢
    obtain ⟨-, rfl, hle⟩ := udpPayload_some h
    rw [udpPayload_local hend hlen] at h
    have := hle hcounted
    exact ⟨h, by omega, by omega⟩
  · obtain ⟨thOff, hread, hpayload, hlenPayload⟩ := tcpPayload_some h
    rw [octetAt_local (by omega)] at hread
    have hfits := htcp rfl thOff hread
    have hleft : subSize len (4 * (thOff.toNat / 16)) = len - 4 * (thOff.toNat / 16) :=
      subSize_of_le hfits (by omega)
    rw [hleft] at hlenPayload
    have hle : lenPayload ≤ len - 4 * (thOff.toNat / 16) := by
      rw [hlenPayload]
      split
      · rw [toUnsigned, Nat.mod_eq_of_lt (by omega)]
      · omega
    refine ⟨?_, by omega, by omega⟩
    rw [transportPayloadRaw, if_neg (by decide), if_pos rfl, tcpPayload] at h ⊢
    rwa [octetAt_local (by omega)] at h
  · rw [transportPayloadRaw, if_neg (by decide), if_neg (by decide), if_pos rfl, icmpPayload,
      if_neg (by omega)] at h
    cases h
    refine ⟨?_, by omega, ?_⟩
    · rw [transportPayloadRaw, if_neg (by decide), if_neg (by decide), if_pos rfl, icmpPayload,
        if_neg (by omega)]
    · rw [toUnsigned, Nat.mod_eq_of_lt (by omega)]
      omega

end Transport

end Local

/-! ### The parsers -/

section Parsers

variable (host : ByteOrder) (datalink : Datalink) (pkt : Bytes)

/-- Whatever lies behind the packet, a datagram that `nmsg_ipdg_parse_pcap_raw` returns lies in the
packet, and is returned where nothing lies behind it. -/
def RawInBounds : Prop :=
  ∀ past dg, nmsgIpdgParsePcapRaw host datalink (pkt ++ past) pkt.length = .ok (some dg) →
    dg.Within pkt.length ∧ nmsgIpdgParsePcapRaw host datalink pkt pkt.length = .ok (some dg)

/-- The same of `nmsg_ipdg_parse`. -/
def ParseInBounds (etype : Nat) : Prop :=
  ∀ past dg, nmsgIpdgParse host etype pkt.length (pkt ++ past) = .ok (some dg) →
    dg.Within pkt.length ∧ nmsgIpdgParse host etype pkt.length pkt = .ok (some dg)

/-- The network header `nmsg_ipdg_parse_pcap_raw` goes on from: that of a fragment that is not the
first, or one with a transport header behind it. -/
def NetworkHeader.TakenRaw (h : NetworkHeader) : Prop :=
  (h.isFragment && !h.isInitialFragment) = true ∨ TransportKnown h.protoTransport h.len

/-- The network header `nmsg_ipdg_parse` goes on from. -/
def NetworkHeader.Taken (h : NetworkHeader) : Prop :=
  h.isFragment = false ∧ h.protoTransport = ipprotoUdp ∧ udphdrLen ≤ h.len

/-- Ten octets of an IPv4 header are in the packet, the header ends there, and an `unsigned` counts
the octets from it on. -/
structure HeaderFits (pkt : Bytes) (etype len : Nat) (h : NetworkHeader) : Prop where
  fixed : etype = ethertypeIp → 10 ≤ len
  inside : h.next ≤ pkt.length
  counted : len < 2 ^ 32

/-- Whatever lies behind the packet, the headers that are gone on from fit. -/
def RawHeadersFit : Prop :=
  ∀ past etype network len h,
    datalinkHeader datalink pkt pkt.length = .ok (some (etype, network, len)) →
    networkHeader (exthdrsRaw host (pkt ++ past) network len) etype (pkt ++ past) network len =
      .ok (some h) → h.TakenRaw →
    HeaderFits pkt etype len h ∧
      ((h.isFragment && !h.isInitialFragment) = false →
        TcpFits pkt h.protoTransport h.next h.len)

def ParseHeadersFit (etype : Nat) : Prop :=
  ∀ past h, networkHeader (exthdrsReasm host (pkt ++ past) 0 pkt.length) etype (pkt ++ past) 0
      pkt.length = .ok (some h) → h.Taken → HeaderFits pkt etype pkt.length h

variable {host datalink pkt} {past : Bytes} {etype network len : Nat} {h : NetworkHeader} {dg : Ipdg}

/-- Behind a header that fits the packet ends where the octets left are used up. -/
theorem Placed.ends (hplace : Placed pkt etype network len h) (hlen : network + len = pkt.length)
    (hsize : pkt.length < 2 ^ 64) (hinside : h.next ≤ pkt.length) :
    h.next + h.len = pkt.length := by
  have hstart := hplace.start
  by_cases hip : etype = ethertypeIp
  · rw [hplace.ipv4 hip, subSize_of_le (by omega) (by omega)]
    omega
  · exact hplace.ipv6 hip

/-- The datagram of a fragment that is not the first. -/
def fragmentDatagram (h : NetworkHeader) (network len : Nat) : Ipdg where
  protoNetwork := h.protoNetwork
  protoTransport := h.protoTransport
  lenNetwork := toUnsigned len
  lenTransport := 0
  lenPayload := toUnsigned h.len
  network := network
  transport := none
  payload := h.next

theorem nmsgIpdgParsePcapRaw_eq {mem : Bytes}
    (hlink : datalinkHeader datalink mem pkt.length = .ok (some (etype, network, len)))
    (hheader : networkHeader (exthdrsRaw host mem network len) etype mem network len =
      .ok (some h)) :
    nmsgIpdgParsePcapRaw host datalink mem pkt.length =
      if h.isFragment && !h.isInitialFragment then .ok (some (fragmentDatagram h network len))
      else transportPayloadRaw mem h.protoTransport (toUnsigned len) h.next h.len >>= fun payload =>
        .ok (withTransport h network len payload) := by
  rw [nmsgIpdgParsePcapRaw, hlink]
  refine Eq.trans (b := networkHeader (exthdrsRaw host mem network len) etype mem network len >>= _)
    rfl ?_
  rw [hheader]
  rfl

/-- What a datagram was made of. -/
theorem nmsgIpdgParsePcapRaw_some {mem : Bytes}
    (hok : nmsgIpdgParsePcapRaw host datalink mem pkt.length = .ok (some dg)) :
    ∃ etype network len h,
      datalinkHeader datalink mem pkt.length = .ok (some (etype, network, len)) ∧
      networkHeader (exthdrsRaw host mem network len) etype mem network len = .ok (some h) := by
  obtain ⟨link, hlink, hok⟩ := Outcome.bind_eq_ok.mp hok
  match link with
  | none => cases hok
  | some (etype, network, len) =>
      obtain ⟨header, hheader, hok⟩ := Outcome.bind_eq_ok.mp hok
      cases header with
      | none => cases hok
      | some h => exact ⟨etype, network, len, h, hlink, hheader⟩

theorem rawInBounds_of_fit (hsize : pkt.length < 2 ^ 64) (hfit : RawHeadersFit host datalink pkt) :
    RawInBounds host datalink pkt := by
  intro past dg hok
  obtain ⟨etype, network, len, h, hlink, hheader⟩ := nmsgIpdgParsePcapRaw_some hok
  rw [nmsgIpdgParsePcapRaw_eq hlink hheader] at hok
  rw [datalinkHeader_local] at hlink
  have hlen := datalinkHeader_place hlink
  obtain ⟨hplace, hpkt⟩ := networkHeader_local hlen
    (exthdrsRaw_local host pkt past network len) hheader
  have hstart := hplace.start
  by_cases hfragment : (h.isFragment && !h.isInitialFragment) = true
  · rw [if_pos hfragment] at hok
    obtain ⟨hfits, -⟩ := hfit past etype network len h hlink hheader (Or.inl hfragment)
    have hends := hplace.ends hlen hsize hfits.inside
    have hcounted := hfits.counted
    rw [nmsgIpdgParsePcapRaw_eq hlink (hpkt.mpr hfits.fixed), if_pos hfragment]
    cases hok
    refine ⟨⟨?_, nofun, ?_⟩, rfl⟩
    · change network + toUnsigned len = _
      rw [toUnsigned, Nat.mod_eq_of_lt (by omega)]
      exact hlen
    · change network ≤ h.next ∧ h.next + toUnsigned h.len ≤ _
      rw [toUnsigned, Nat.mod_eq_of_lt (by omega)]
      exact ⟨hstart, by omega⟩
  · rw [if_neg hfragment] at hok
    obtain ⟨payload, hpayload, hok⟩ := Outcome.bind_eq_ok.mp hok
    match payload with
    | none => cases hok
    | some (payload, lenPayload) =>
        obtain ⟨hfits, htcp⟩ := hfit past etype network len h hlink hheader
          (Or.inr (transportKnown_of_some hpayload))
        have hends := hplace.ends hlen hsize hfits.inside
        have hcounted := hfits.counted
        obtain ⟨hpayload', hle, hin⟩ := transportPayloadRaw_local hends (by omega)
          (htcp (Bool.eq_false_iff.mpr hfragment)) hpayload
        rw [nmsgIpdgParsePcapRaw_eq hlink (hpkt.mpr hfits.fixed), if_neg hfragment, hpayload']
        cases hok
        refine ⟨⟨?_, ?_, ?_⟩, rfl⟩
        · change network + toUnsigned len = _
          rw [toUnsigned, Nat.mod_eq_of_lt (by omega)]
          exact hlen
        · intro transport htransport
          cases htransport
          change network ≤ h.next ∧ h.next + toUnsigned h.len ≤ _ ∧ h.next ≤ payload ∧
            payload + lenPayload ≤ h.next + toUnsigned h.len
          rw [toUnsigned, Nat.mod_eq_of_lt (by omega)]
          exact ⟨hstart, by omega, hle, hin⟩
        · change network ≤ payload ∧ payload + lenPayload ≤ _
          omega

/-- A header in the packet or in what lies behind it is the same when more lies behind that. -/
theorem networkHeader_more {walk : Bytes → Nat → ExthdrWalk → Except Abort (Option ExthdrWalk)}
    (hwalk : ∀ mem more fuel w, Extends (walk mem fuel w) (walk (mem ++ more) fuel w))
    (hok : networkHeader (walk (pkt ++ past)) etype (pkt ++ past) network len = .ok (some h))
    (more : Bytes) :
    networkHeader (walk (pkt ++ (past ++ more))) etype (pkt ++ (past ++ more)) network len =
      .ok (some h) := by
  rw [← List.append_assoc]
  exact networkHeader_extends _ more (hwalk (pkt ++ past) more) etype network len _ hok

/-- What the header of a datagram in the packet is like. -/
theorem headerFits_of_within {walk walk' : Nat → ExthdrWalk → Except Abort (Option ExthdrWalk)}
    (hlen : network + len = pkt.length) (hwalk : WalkLocal pkt network len walk walk')
    (hmore : ∀ fuel w, Extends (walk fuel w) (walk' fuel w))
    (hheader : networkHeader walk' etype (pkt ++ past) network len = .ok (some h))
    {h' : NetworkHeader} (hpkt : networkHeader walk etype pkt network len = .ok (some h'))
    (hinside : h.next ≤ pkt.length) (hnetwork : network + toUnsigned len = pkt.length) :
    HeaderFits pkt etype len h := by
  have hsame := networkHeader_extends pkt past hmore etype network len _ hpkt
  rw [hheader] at hsame
  cases hsame
  refine ⟨(networkHeader_local hlen hwalk hheader).2.mp hpkt, hinside, ?_⟩
  have hlt : toUnsigned len < 2 ^ 32 := Nat.mod_lt _ (by decide)
  omega

theorem fit_of_rawInBounds (hsize : pkt.length < 2 ^ 64) (hbounds : RawInBounds host datalink pkt) :
    RawHeadersFit host datalink pkt := by
  intro past etype network len h hlink hshort htaken
  have hlen := datalinkHeader_place hlink
  -- with so much behind the packet every transport header can be read
  obtain ⟨long, hlong, hheader⟩ : ∃ long : Bytes, 100 ≤ long.length ∧
      networkHeader (exthdrsRaw host (pkt ++ long) network len) etype (pkt ++ long) network len =
        .ok (some h) := by
    refine ⟨past ++ List.replicate 100 0, ?_, networkHeader_more
      (fun mem more => exthdrsRaw_extends host mem more network len) hshort _⟩
    rw [List.length_append, List.length_replicate]
    exact Nat.le_add_left _ _
  have hwalk := exthdrsRaw_local host pkt long network len
  have hplace := (networkHeader_local hlen hwalk hheader).1
  have hmem : h.next + 13 ≤ (pkt ++ long).length := by
    have hnear := hplace.near
    rw [List.length_append]
    omega
  have hfits : ∀ dg, nmsgIpdgParsePcapRaw host datalink (pkt ++ long) pkt.length = .ok (some dg) →
      h.next ≤ pkt.length → network + toUnsigned len = pkt.length →
      HeaderFits pkt etype len h := by
    intro dg hok hinside hnetwork
    obtain ⟨etype', network', len', h', hlink', hpkt⟩ :=
      nmsgIpdgParsePcapRaw_some (hbounds long dg hok).2
    rw [hlink] at hlink'
    cases hlink'
    exact headerFits_of_within hlen hwalk (exthdrsRaw_extends host pkt long network len) hheader hpkt
      hinside hnetwork
  have hmemLink : datalinkHeader datalink (pkt ++ long) pkt.length =
      .ok (some (etype, network, len)) := by rw [datalinkHeader_local, hlink]
  have hparse := nmsgIpdgParsePcapRaw_eq hmemLink hheader
  by_cases hfragment : (h.isFragment && !h.isInitialFragment) = true
  · rw [if_pos hfragment] at hparse
    have hwithin := (hbounds long _ hparse).1
    refine ⟨hfits _ hparse ?_ hwithin.network, fun hfirst => absurd hfragment ?_⟩
    · exact Nat.le_trans (Nat.le_add_right _ _) hwithin.payload.2
    · rw [hfirst]
      exact Bool.false_ne_true
  · rw [if_neg hfragment] at hparse
    obtain ⟨⟨payload, lenPayload⟩, hpayload⟩ := transportPayloadRaw_ok (toUnsigned len)
      (htaken.resolve_left hfragment) hmem
    rw [hpayload] at hparse
    have hwithin := (hbounds long _ hparse).1
    obtain ⟨-, hinside, -, hnested⟩ := hwithin.transport h.next rfl
    have hheaderFits := hfits _ hparse (Nat.le_trans (Nat.le_add_right _ _) hinside) hwithin.network
    refine ⟨hheaderFits, fun _ htcp thOff hthOff => ?_⟩
    have hends := hplace.ends hlen hsize hheaderFits.inside
    have hstart := hplace.start
    have hcounted := hheaderFits.counted
    rw [htcp] at hpayload
    obtain ⟨thOff', hthOff', rfl, -⟩ := tcpPayload_some hpayload
    have hsame := octetAt_extends pkt long _ _ hthOff
    rw [hthOff'] at hsame
    cases hsame
    change h.next + 4 * (thOff.toNat / 16) + lenPayload ≤ h.next + toUnsigned h.len at hnested
    rw [toUnsigned, Nat.mod_eq_of_lt (by omega)] at hnested
    omega

/-! The second parser has no data link header, no fragments and no transport but UDP. -/

theorem nmsgIpdgParse_eq {mem : Bytes}
    (hheader : networkHeader (exthdrsReasm host mem 0 pkt.length) etype mem 0 pkt.length =
      .ok (some h)) :
    nmsgIpdgParse host etype pkt.length mem =
      if h.isFragment then .ok none
      else if h.protoTransport = ipprotoUdp then
        udpPayload mem h.next h.len >>= fun payload => .ok (withTransport h 0 pkt.length payload)
      else .ok none := by
  rw [nmsgIpdgParse, hheader]
  rfl

theorem nmsgIpdgParse_some {mem : Bytes}
    (hok : nmsgIpdgParse host etype pkt.length mem = .ok (some dg)) :
    ∃ h, networkHeader (exthdrsReasm host mem 0 pkt.length) etype mem 0 pkt.length =
      .ok (some h) := by
  obtain ⟨header, hheader, hok⟩ := Outcome.bind_eq_ok.mp hok
  cases header with
  | none => cases hok
  | some h => exact ⟨h, hheader⟩

theorem parseInBounds_of_fit (hsize : pkt.length < 2 ^ 64) (hfit : ParseHeadersFit host pkt etype) :
    ParseInBounds host pkt etype := by
  intro past dg hok
  obtain ⟨h, hheader⟩ := nmsgIpdgParse_some hok
  rw [nmsgIpdgParse_eq hheader] at hok
  obtain ⟨hplace, hpkt⟩ := networkHeader_local (Nat.zero_add _)
    (exthdrsReasm_local host pkt past 0 pkt.length) hheader
  by_cases hfragment : h.isFragment = true
  · rw [if_pos hfragment] at hok
    cases hok
  rw [if_neg hfragment] at hok
  by_cases hudp : h.protoTransport = ipprotoUdp
  swap
  · rw [if_neg hudp] at hok
    cases hok
  rw [if_pos hudp] at hok
  obtain ⟨payload, hpayload, hok⟩ := Outcome.bind_eq_ok.mp hok
  match payload with
  | none => cases hok
  | some (payload, lenPayload) =>
      obtain ⟨hlong, rfl, hle⟩ := udpPayload_some hpayload
      have hfits := hfit past h hheader ⟨Bool.eq_false_iff.mpr hfragment, hudp, hlong⟩
      have hends := hplace.ends (Nat.zero_add _) hsize hfits.inside
      have hcounted := hfits.counted
      have hlenPayload := hle (by omega)
      rw [udpPayload_local hends hlong] at hpayload
      rw [nmsgIpdgParse_eq (hpkt.mpr hfits.fixed), if_neg hfragment, if_pos hudp, hpayload]
      cases hok
      refine ⟨⟨?_, ?_, ?_⟩, rfl⟩
      · change 0 + toUnsigned pkt.length = _
        rw [toUnsigned, Nat.mod_eq_of_lt (by omega), Nat.zero_add]
      · intro transport htransport
        cases htransport
        change 0 ≤ h.next ∧ h.next + toUnsigned h.len ≤ _ ∧ h.next ≤ h.next + udphdrLen ∧
          h.next + udphdrLen + lenPayload ≤ h.next + toUnsigned h.len
        rw [toUnsigned, Nat.mod_eq_of_lt (by omega)]
        omega
      · change 0 ≤ h.next + udphdrLen ∧ h.next + udphdrLen + lenPayload ≤ _
        omega

theorem fit_of_parseInBounds (hbounds : ParseInBounds host pkt etype) :
    ParseHeadersFit host pkt etype := by
  intro past h hshort htaken
  obtain ⟨hfirst, hudp, hlen⟩ := htaken
  obtain ⟨long, hlong, hheader⟩ : ∃ long : Bytes, 100 ≤ long.length ∧
      networkHeader (exthdrsReasm host (pkt ++ long) 0 pkt.length) etype (pkt ++ long) 0 pkt.length =
        .ok (some h) := by
    refine ⟨past ++ List.replicate 100 0, ?_, networkHeader_more
      (fun mem more => exthdrsReasm_extends host mem more 0 pkt.length) hshort _⟩
    rw [List.length_append, List.length_replicate]
    exact Nat.le_add_left _ _
  have hwalk := exthdrsReasm_local host pkt long 0 pkt.length
  have hnear := (networkHeader_local (Nat.zero_add _) hwalk hheader).1.near
  obtain ⟨⟨payload, lenPayload⟩, hpayload⟩ := udpPayload_ok hlen
    (show h.next + 6 ≤ (pkt ++ long).length by rw [List.length_append]; omega)
  have hparse := nmsgIpdgParse_eq hheader
  rw [hfirst, if_neg Bool.false_ne_true, if_pos hudp, hpayload] at hparse
  obtain ⟨hwithin, hpkt⟩ := hbounds long _ hparse
  obtain ⟨h', hheader'⟩ := nmsgIpdgParse_some hpkt
  exact headerFits_of_within (Nat.zero_add _) hwalk
    (exthdrsReasm_extends host pkt long 0 pkt.length) hheader hheader'
    (Nat.le_trans (Nat.le_add_right _ _) (hwithin.transport h.next rfl).2.1) hwithin.network

/-- **Datagrams lie in their packets**, and were found by reading these alone, exactly when the
headers that the parsers go on from fit. -/
theorem datagrams_in_bounds_iff (host : ByteOrder) (datalink : Datalink) (etype : Nat) (pkt : Bytes)
    (hsize : pkt.length < 2 ^ 64) :
    (RawInBounds host datalink pkt ↔ RawHeadersFit host datalink pkt) ∧
      (ParseInBounds host pkt etype ↔ ParseHeadersFit host pkt etype) :=
  ⟨⟨fit_of_rawInBounds hsize, rawInBounds_of_fit hsize⟩,
    ⟨fit_of_parseInBounds, parseInBounds_of_fit hsize⟩⟩

/-- An IPv4 header of 20 octets that says it has 60. -/
def overlongHeader (proto : UInt8) : Bytes :=
  [0x4f, 0, 0, 20, 0, 0, 0, 0, 64, proto, 0, 0, 10, 0, 0, 1, 10, 0, 0, 2]

theorem datagrams_in_bounds_iff_overlong :
    (RawInBounds .little .raw (overlongHeader ipprotoIcmp) ↔
        RawHeadersFit .little .raw (overlongHeader ipprotoIcmp)) ∧
      (ParseInBounds .little (overlongHeader ipprotoIcmp) ethertypeIp ↔
        ParseHeadersFit .little (overlongHeader ipprotoIcmp) ethertypeIp) :=
  datagrams_in_bounds_iff .little .raw ethertypeIp (overlongHeader ipprotoIcmp) (by decide)

/-- **A header that is longer than its packet.** The payload is found 44 octets behind the packet. -/
theorem payload_behind_packet :
    nmsgIpdgParsePcapRaw .little .raw (overlongHeader ipprotoIcmp) 20 = .ok (some {
        protoNetwork := .inet
        protoTransport := ipprotoIcmp
        lenNetwork := 20
        lenTransport := 4294967256
        lenPayload := 4294967252
        network := 0
        transport := some 60
        payload := 64 }) ∧
      ¬ RawInBounds .little .raw (overlongHeader ipprotoIcmp) ∧
      ¬ ParseInBounds .little (overlongHeader ipprotoUdp) ethertypeIp := by
  have hraw : nmsgIpdgParsePcapRaw .little .raw (overlongHeader ipprotoIcmp) 20 =
      .ok (some ⟨.inet, ipprotoIcmp, 20, 4294967256, 4294967252, 0, some 60, 64⟩) := by decide +kernel
  have hparse : nmsgIpdgParse .little ethertypeIp 20
      (overlongHeader ipprotoUdp ++ List.replicate 48 0) =
        .ok (some ⟨.inet, ipprotoUdp, 20, 4294967256, 0, 0, some 60, 68⟩) := by decide +kernel
  refine ⟨hraw, ?_, ?_⟩
  · intro h
    have hwithin := (h [] _ (by rw [List.append_nil]; exact hraw)).1
    exact absurd hwithin.payload.2 (by decide)
  · intro h
    have hwithin := (h (List.replicate 48 0) _ hparse).1
    exact absurd hwithin.payload.2 (by decide)

end Parsers

end Nmsg

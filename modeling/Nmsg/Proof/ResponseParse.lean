import Nmsg.Dnsqr.Response
import Nmsg.Proof.FragReread
import Nmsg.Proof.PacketBounds

/-!
# The parser that captures and the parser that reads

Where the parser of captured packets meets no Fragment header, the parser that discards fragments
reads the same of the packet on its own, whatever the hidden octets are.
-/

namespace Nmsg

open Memory

/-- The packet `pkt'` is the one from `network` on, but for what is hidden. -/
structure Shows (net : ProtoNetwork) (pkt : Bytes) (network len : Nat) (pkt' : Bytes) : Prop where
  length : pkt'.length = len
  ends : network + len = pkt.length
  getElem? : ∀ i, ¬ Hidden net i → pkt'[i]? = pkt[network + i]?

theorem EqOff.shows {net : ProtoNetwork} {pkt pkt' : Bytes} {network len : Nat}
    (hlen : network + len = pkt.length) (h : EqOff (Hidden net) (pkt.drop network) pkt') :
    Shows net pkt network len pkt' := by
  refine ⟨?_, hlen, fun i hi => ?_⟩
  · rw [h.length, List.length_drop]
    omega
  · rw [h.getElem? i hi, List.getElem?_drop]

theorem visible_inet {i : Nat} (h : i < 10 ∨ i = 12 ∨ 20 ≤ i) : ¬ Hidden .inet i := by
  rintro (hin | hin) <;> omega

theorem visible_inet6 {i : Nat} (h : i < 24 ∨ 40 ≤ i) : ¬ Hidden .inet6 i := by
  rintro ⟨hlo, hhi⟩
  omega

section Shows

variable {host : ByteOrder} {pkt pkt' : Bytes} {net : ProtoNetwork} {network len : Nat}

theorem Shows.octetAt (h : Shows net pkt network len pkt') {i : Nat} (hi : ¬ Hidden net i) :
    octetAt pkt' (0 + i) = octetAt pkt (network + i) := by
  rw [Nat.zero_add]
  simp only [Nmsg.octetAt, h.getElem? i hi]

theorem Shows.read (h : Shows net pkt network len pkt') {i n : Nat}
    (hi : ∀ k, i ≤ k → k < i + n → ¬ Hidden net k) :
    read pkt' i n = read pkt (network + i) n := by
  have hlen := h.length
  have hends := h.ends
  unfold Memory.read
  refine if_congr (by omega) (congrArg some (List.ext_getElem? fun k => ?_)) rfl
  rw [List.getElem?_take, List.getElem?_take, List.getElem?_drop, List.getElem?_drop]
  split
  · rw [h.getElem? _ (hi _ (by omega) (by omega)), Nat.add_assoc]
  · rfl

theorem Shows.loadNet16 (h : Shows net pkt network len pkt') {i : Nat}
    (hi : ∀ k, i ≤ k → k < i + 2 → ¬ Hidden net k) :
    loadNet16 pkt' (0 + i) = loadNet16 pkt (network + i) := by
  rw [Nat.zero_add, Nmsg.loadNet16, h.read hi, Nmsg.loadNet16]

theorem Shows.copyAt (h : Shows net pkt network len pkt') {i n : Nat}
    (hi : ∀ k, i ≤ k → k < i + n → ¬ Hidden net k) :
    copyAt pkt' i n = copyAt pkt (network + i) n := by
  rw [Nmsg.copyAt, h.read hi, Nmsg.copyAt]

/-! ### The walks -/

theorem Shows.passExthdr (h : Shows .inet6 pkt network len pkt') {w : ExthdrWalk}
    (hw : 40 ≤ w.thusfar) :
    passExthdr host pkt' 0 w = passExthdr host pkt network w := by
  have hnext : Nmsg.octetAt pkt' (0 + w.thusfar + 1) =
      Nmsg.octetAt pkt (network + w.thusfar + 1) := by
    rw [Nat.add_assoc, Nat.add_assoc]
    exact h.octetAt (visible_inet6 (Or.inr (by omega)))
  rw [Nmsg.passExthdr, Nmsg.passExthdr, h.octetAt (visible_inet6 (Or.inr hw)), hnext]

/-- The walk that stops in front of a Fragment header goes as the one that passes it, which met none,
or stops at one. -/
theorem exthdrs_walks (h : Shows .inet6 pkt network len pkt') :
    ∀ (fuel : Nat) (w v : ExthdrWalk), 40 ≤ w.thusfar → w.isFragment = false →
      exthdrsRaw host pkt network len fuel w = .ok (some v) →
      40 ≤ v.thusfar ∧
        (v.isFragment = false → exthdrsReasm host pkt' 0 len fuel w = .ok (some v)) ∧
        (v.isFragment = true →
          ∃ v', exthdrsReasm host pkt' 0 len fuel w = .ok (some v') ∧ v'.isFragment = true) := by
  intro fuel
  induction fuel with
  | zero => exact fun _ _ _ _ hok => by cases hok
  | succ fuel ih =>
      intro w v hw hnot hok
      rw [exthdrsRaw] at hok
      rw [exthdrsReasm]
      split at hok
      case isFalse hexthdr =>
        cases hok
        rw [if_neg hexthdr]
        exact ⟨hw, fun _ => rfl, fun hfrag => by rw [hnot] at hfrag; cases hfrag⟩
      case isTrue hexthdr =>
        rw [if_pos hexthdr]
        split at hok
        case isTrue => cases hok
        case isFalse hroom =>
          rw [if_neg hroom]
          split at hok
          case isTrue hfrag =>
            rw [if_pos hfrag]
            obtain ⟨offlg, -, hok⟩ := Outcome.bind_eq_ok.mp hok
            have hthusfar := passExthdr_thusfar hok
            have hmarked := passExthdr_isFragment hok
            dsimp only at hthusfar hmarked
            refine ⟨by omega, fun hfalse => ?_, fun _ => ⟨_, rfl, rfl⟩⟩
            rw [hmarked] at hfalse
            cases hfalse
          case isFalse hfrag =>
            rw [if_neg hfrag]
            obtain ⟨w', hpass, hok⟩ := Outcome.bind_eq_ok.mp hok
            cases w' with
            | none => cases hok
            | some w' =>
                have hthusfar := passExthdr_thusfar hpass
                have hmarked := passExthdr_isFragment hpass
                obtain ⟨hv, hsame, hstop⟩ := ih w' v (by omega) (hmarked.trans hnot) hok
                rw [h.passExthdr hw, hpass]
                exact ⟨hv, hsame, hstop⟩

/-! ### The headers -/

variable {hd : NetworkHeader}

theorem ipv4Header_shows (h : Shows .inet pkt network len pkt')
    (hok : ipv4Header pkt network len = .ok hd) :
    network ≤ hd.next ∧ ipv4Header pkt' 0 len = .ok { hd with next := hd.next - network } := by
  obtain ⟨first, hfirst, hok⟩ := Outcome.bind_eq_ok.mp hok
  obtain ⟨ipOff, hipOff, hok⟩ := Outcome.bind_eq_ok.mp hok
  obtain ⟨ipP, hipP, hok⟩ := Outcome.bind_eq_ok.mp hok
  cases hok
  have hfirst' : Nmsg.octetAt pkt' 0 = .ok first :=
    (h.octetAt (i := 0) (visible_inet (by omega))).trans hfirst
  have hipOff' : Nmsg.loadNet16 pkt' (0 + 6) = .ok ipOff :=
    (h.loadNet16 fun k _ _ => visible_inet (by omega)).trans hipOff
  have hipP' : Nmsg.octetAt pkt' (0 + 9) = .ok ipP :=
    (h.octetAt (visible_inet (by omega))).trans hipP
  refine ⟨Nat.le_add_right _ _, ?_⟩
  rw [ipv4Header, hfirst', hipOff', hipP']
  simp only [bind, Except.bind, pure, Except.pure, Nat.zero_add, Nat.add_sub_cancel_left]

theorem ipv6Header_shows (h : Shows .inet6 pkt network len pkt')
    (hok : ipv6Header (exthdrsRaw host pkt network len) pkt network len = .ok (some hd)) :
    network + 40 ≤ hd.next ∧
      (hd.isFragment = false → ipv6Header (exthdrsReasm host pkt' 0 len) pkt' 0 len =
        .ok (some { hd with next := hd.next - network })) ∧
      (hd.isFragment = true → ∃ r, ipv6Header (exthdrsReasm host pkt' 0 len) pkt' 0 len = .ok r ∧
        ∀ hd', r = some hd' → hd'.isFragment = true) := by
  unfold ipv6Header at hok ⊢
  split at hok
  case isTrue => cases hok
  case isFalse hroom =>
    rw [if_neg hroom]
    obtain ⟨first, hfirst, hok⟩ := Outcome.bind_eq_ok.mp hok
    have hfirst' : Nmsg.octetAt pkt' 0 = .ok first :=
      (h.octetAt (i := 0) (visible_inet6 (by omega))).trans hfirst
    split at hok
    case isTrue => cases hok
    case isFalse hv =>
      obtain ⟨nexthdr, hnexthdr, hok⟩ := Outcome.bind_eq_ok.mp hok
      obtain ⟨payloadLen, hpayloadLen, hok⟩ := Outcome.bind_eq_ok.mp hok
      obtain ⟨v, hwalk, hok⟩ := Outcome.bind_eq_ok.mp hok
      have hnexthdr' : Nmsg.octetAt pkt' (0 + 6) = .ok nexthdr :=
        (h.octetAt (visible_inet6 (by omega))).trans hnexthdr
      have hpayloadLen' : Nmsg.loadNet16 pkt' (0 + 4) = .ok payloadLen :=
        (h.loadNet16 fun k _ _ => visible_inet6 (by omega)).trans hpayloadLen
      cases v with
      | none => cases hok
      | some v =>
          obtain ⟨hthusfar, hsame, hstop⟩ :=
            exthdrs_walks h _ _ v (Nat.le_refl 40) rfl hwalk
          dsimp only at hok
          split at hok
          case isTrue => cases hok
          case isFalse hleft =>
            cases hok
            dsimp only
            refine ⟨by omega, fun hfrag => ?_, fun hfrag => ?_⟩
            · simp only [hfirst', if_neg hv, hnexthdr', hpayloadLen', hsame hfrag, if_neg hleft,
                bind, Except.bind, pure, Except.pure, Nat.zero_add, Nat.add_sub_cancel_left]
            · obtain ⟨v', hwalk', hfrag'⟩ := hstop hfrag
              simp only [hfirst', if_neg hv, hnexthdr', hpayloadLen', hwalk', bind, Except.bind,
                pure, Except.pure]
              split
              · exact ⟨none, rfl, nofun⟩
              · refine ⟨_, rfl, ?_⟩
                rintro _ ⟨⟩
                exact hfrag'

/-- The header as the parser that captures reads it: when it is marked as that of a fragment, the
other parser discards the packet, and otherwise reads the same. -/
theorem networkHeader_shows (h : Shows net pkt network len pkt')
    (hok : networkHeader (exthdrsRaw host pkt network len) net.etype pkt network len =
      .ok (some hd)) :
    network ≤ hd.next ∧ (net = .inet6 → network + 40 ≤ hd.next) ∧
      (hd.isFragment = false →
        networkHeader (exthdrsReasm host pkt' 0 len) net.etype pkt' 0 len =
          .ok (some { hd with next := hd.next - network })) ∧
      (hd.isFragment = true →
        ∃ r, networkHeader (exthdrsReasm host pkt' 0 len) net.etype pkt' 0 len = .ok r ∧
          ∀ hd', r = some hd' → hd'.isFragment = true) := by
  have hetype : ¬ ethertypeIpv6 = ethertypeIp := by decide
  cases net with
  | inet =>
      simp only [networkHeader, ProtoNetwork.etype, if_true] at hok ⊢
      cases hheader : ipv4Header pkt network len with
      | error e =>
          rw [hheader] at hok
          cases hok
      | ok hd' =>
          rw [hheader] at hok
          cases hok
          obtain ⟨hnext, hheader'⟩ := ipv4Header_shows h hheader
          rw [hheader']
          refine ⟨hnext, by rintro ⟨⟩, fun _ => rfl, fun hfrag => ⟨_, rfl, ?_⟩⟩
          rintro _ ⟨⟩
          exact hfrag
  | inet6 =>
      simp only [networkHeader, ProtoNetwork.etype, if_neg hetype, if_true] at hok ⊢
      obtain ⟨hnext, hsame, hstop⟩ := ipv6Header_shows h hok
      exact ⟨by omega, fun _ => hnext, hsame, hstop⟩

/-! ### The payload -/

/-- Behind the header nothing is hidden. -/
def ShownFrom (net : ProtoNetwork) (network next : Nat) : Prop :=
  ∀ k, next ≤ network + k → ¬ Hidden net k

theorem udpPayload_shows (h : Shows net pkt network len pkt') {transport left payload n : Nat}
    (hnext : network ≤ transport) (hshown : ShownFrom net network transport)
    (hok : udpPayload pkt transport left = .ok (some (payload, n))) :
    udpPayload pkt' (transport - network) left = .ok (some (payload - network, n)) := by
  have hplace := (udpPayload_some hok).2.1
  unfold udpPayload at hok ⊢
  split at hok
  case isTrue => cases hok
  case isFalse hroom =>
    rw [if_neg hroom]
    obtain ⟨uhUlen, hlen, hok⟩ := Outcome.bind_eq_ok.mp hok
    have hlen' : Nmsg.loadNet16 pkt' (transport - network + 4) = .ok uhUlen := by
      have := h.loadNet16 (i := transport - network + 4) fun k hk _ => hshown k (by omega)
      rw [Nat.zero_add, show network + (transport - network + 4) = transport + 4 by omega] at this
      exact this.trans hlen
    rw [hlen']
    cases hok
    rw [show transport + udphdrLen - network = transport - network + udphdrLen by omega]
    rfl

/-- A packet that shows a Fragment header is discarded. -/
theorem ipdgPayload_fragment (h : Shows net pkt network len pkt')
    (hok : networkHeader (exthdrsRaw host pkt network len) net.etype pkt network len =
      .ok (some hd)) (hfrag : hd.isFragment = true) :
    ipdgPayload host net.etype pkt' = .ok (.failure, none) := by
  obtain ⟨-, -, -, hstop⟩ := networkHeader_shows h hok
  obtain ⟨r, hheader, hr⟩ := hstop hfrag
  rw [← h.length] at hheader
  have hparse : nmsgIpdgParse host net.etype pkt'.length pkt' = .ok none := by
    cases r with
    | none =>
        rw [nmsgIpdgParse, hheader]
        rfl
    | some hd' => rw [nmsgIpdgParse_eq hheader, if_pos (hr hd' rfl)]
  rw [ipdgPayload, hparse]
  rfl

/-- **The payload is read as it was captured.** -/
theorem ipdgPayload_shows (h : Shows net pkt network len pkt') (hcaptured : pkt.length < 4294967296)
    (hok : networkHeader (exthdrsRaw host pkt network len) net.etype pkt network len =
      .ok (some hd)) (hfrag : hd.isFragment = false) (hudp : hd.protoTransport = ipprotoUdp)
    (hshown : ShownFrom net network hd.next) (hends : hd.next + hd.len = pkt.length)
    {payload n : Nat} (hpayload : udpPayload pkt hd.next hd.len = .ok (some (payload, n))) :
    ∃ b, Nmsg.copyAt pkt payload n = .ok b ∧
      ipdgPayload host net.etype pkt' = .ok (.success, some b) := by
  obtain ⟨hnext, -, hsame, -⟩ := networkHeader_shows h hok
  have hheader := hsame hfrag
  rw [← h.length] at hheader
  obtain ⟨hroom, hplace, hcount⟩ := udpPayload_some hpayload
  have hsize : udphdrLen = 8 := rfl
  have hn := hcount (by omega)
  obtain ⟨b, hb⟩ : ∃ b, Nmsg.copyAt pkt payload n = .ok b := copyAt_of_le (by omega)
  have hb' : Nmsg.copyAt pkt' (payload - network) n = .ok b := by
    rw [h.copyAt fun k hk _ => hshown k (by omega),
      show network + (payload - network) = payload by omega, hb]
  have hpayload' := udpPayload_shows h hnext hshown hpayload
  refine ⟨b, hb, ?_⟩
  rw [ipdgPayload, nmsgIpdgParse_eq hheader, if_neg (by rw [hfrag]; exact Bool.false_ne_true),
    if_pos hudp]
  simp only [hpayload', bind, Except.bind, withTransport, hb']
  rfl

end Shows

/-! ### Packets with something hidden -/

section Veiled

variable {host : ByteOrder} {pkt pkt' : Bytes} {net : ProtoNetwork} {hd : NetworkHeader}

theorem exthdrsReasm_veiled (h : Shows .inet6 pkt 0 pkt.length pkt') :
    ∀ (fuel : Nat) (w : ExthdrWalk), 40 ≤ w.thusfar →
      exthdrsReasm host pkt' 0 pkt.length fuel w = exthdrsReasm host pkt 0 pkt.length fuel w := by
  intro fuel
  induction fuel with
  | zero => exact fun _ _ => rfl
  | succ fuel ih =>
      intro w hw
      rw [exthdrsReasm, exthdrsReasm, h.passExthdr hw]
      refine if_congr Iff.rfl (if_congr Iff.rfl rfl (if_congr Iff.rfl rfl ?_)) rfl
      cases hpass : passExthdr host pkt 0 w with
      | error e => rfl
      | ok w' =>
          cases w' with
          | none => rfl
          | some w' =>
              have := passExthdr_thusfar hpass
              exact ih w' (by omega)

theorem networkHeader_veiled (h : Shows net pkt 0 pkt.length pkt') :
    networkHeader (exthdrsReasm host pkt' 0 pkt.length) net.etype pkt' 0 pkt.length =
      networkHeader (exthdrsReasm host pkt 0 pkt.length) net.etype pkt 0 pkt.length := by
  have hetype : ¬ ethertypeIpv6 = ethertypeIp := by decide
  cases net with
  | inet =>
      have hfirst : octetAt pkt' 0 = octetAt pkt 0 := h.octetAt (i := 0) (visible_inet (by omega))
      have hipOff : loadNet16 pkt' (0 + 6) = loadNet16 pkt (0 + 6) :=
        h.loadNet16 fun k _ _ => visible_inet (by omega)
      have hipP : octetAt pkt' (0 + 9) = octetAt pkt (0 + 9) := h.octetAt (visible_inet (by omega))
      simp only [networkHeader, ProtoNetwork.etype, if_true, ipv4Header, hfirst, hipOff, hipP]
  | inet6 =>
      have hfirst : octetAt pkt' 0 = octetAt pkt 0 := h.octetAt (i := 0) (visible_inet6 (by omega))
      have hnexthdr : octetAt pkt' (0 + 6) = octetAt pkt (0 + 6) :=
        h.octetAt (visible_inet6 (by omega))
      have hpayloadLen : loadNet16 pkt' (0 + 4) = loadNet16 pkt (0 + 4) :=
        h.loadNet16 fun k _ _ => visible_inet6 (by omega)
      have hwalk : ∀ payloadLen nexthdr : _, exthdrsReasm host pkt' 0 pkt.length (payloadLen + 1)
          ⟨nexthdr, ip6hdrLen, payloadLen, false, false, 0⟩ =
          exthdrsReasm host pkt 0 pkt.length (payloadLen + 1)
            ⟨nexthdr, ip6hdrLen, payloadLen, false, false, 0⟩ :=
        fun _ _ => exthdrsReasm_veiled h _ _ (Nat.le_refl 40)
      simp only [networkHeader, ProtoNetwork.etype, if_neg hetype, if_true, ipv6Header, hfirst,
        hnexthdr, hpayloadLen, hwalk]

/-- The IPv4 header of a packet is not shorter than its fixed part. -/
def Ipv4HeaderWhole (pkt : Bytes) : Prop :=
  ∀ first, octetAt pkt 0 = .ok first → 20 ≤ 4 * ipHl first

theorem networkHeader_shown
    (hok : networkHeader (exthdrsReasm host pkt 0 pkt.length) net.etype pkt 0 pkt.length =
      .ok (some hd)) (hwhole : net = .inet → Ipv4HeaderWhole pkt) : ShownFrom net 0 hd.next := by
  have hetype : ¬ ethertypeIpv6 = ethertypeIp := by decide
  intro k hk
  cases net with
  | inet =>
      simp only [networkHeader, ProtoNetwork.etype, if_true] at hok
      cases hheader : ipv4Header pkt 0 pkt.length with
      | error e =>
          rw [hheader] at hok
          cases hok
      | ok hd' =>
          rw [hheader] at hok
          cases hok
          obtain ⟨first, hfirst, hheader⟩ := Outcome.bind_eq_ok.mp hheader
          obtain ⟨ipOff, -, hheader⟩ := Outcome.bind_eq_ok.mp hheader
          obtain ⟨ipP, -, hheader⟩ := Outcome.bind_eq_ok.mp hheader
          cases hheader
          have := hwhole rfl first hfirst
          dsimp only at hk
          exact visible_inet (by omega)
  | inet6 =>
      simp only [networkHeader, ProtoNetwork.etype, if_neg hetype, if_true, ipv6Header] at hok
      split at hok
      · cases hok
      obtain ⟨first, -, hok⟩ := Outcome.bind_eq_ok.mp hok
      split at hok
      · cases hok
      obtain ⟨nexthdr, -, hok⟩ := Outcome.bind_eq_ok.mp hok
      obtain ⟨payloadLen, -, hok⟩ := Outcome.bind_eq_ok.mp hok
      obtain ⟨v, hwalk, hok⟩ := Outcome.bind_eq_ok.mp hok
      cases v with
      | none => cases hok
      | some v =>
          have hthusfar : 40 ≤ v.thusfar := exthdrsReasm_thusfar hwalk
          dsimp only at hok
          split at hok
          · cases hok
          · cases hok
            dsimp only at hk
            exact visible_inet6 (by omega)

theorem udpPayload_veiled (h : Shows net pkt 0 pkt.length pkt') {transport : Nat}
    (hshown : ShownFrom net 0 transport) (left : Nat) :
    udpPayload pkt' transport left = udpPayload pkt transport left := by
  have hlen := h.loadNet16 (i := transport + 4) fun k hk _ => hshown k (by omega)
  rw [Nat.zero_add] at hlen
  rw [udpPayload, udpPayload, hlen]

/-- What is hidden of a packet does not matter to its payload. -/
theorem ipdgPayload_veiled (h : Shows net pkt 0 pkt.length pkt')
    (hwhole : net = .inet → Ipv4HeaderWhole pkt) :
    ipdgPayload host net.etype pkt' = ipdgPayload host net.etype pkt := by
  have hheader : networkHeader (exthdrsReasm host pkt' 0 pkt.length) net.etype pkt' 0 pkt.length =
      networkHeader (exthdrsReasm host pkt 0 pkt.length) net.etype pkt 0 pkt.length :=
    networkHeader_veiled h
  rw [ipdgPayload, ipdgPayload, h.length]
  cases hok : networkHeader (exthdrsReasm host pkt 0 pkt.length) net.etype pkt 0 pkt.length with
  | error e =>
      rw [nmsgIpdgParse, nmsgIpdgParse, hheader, hok]
      rfl
  | ok r =>
      cases r with
      | none =>
          rw [nmsgIpdgParse, nmsgIpdgParse, hheader, hok]
          rfl
      | some hd =>
          have hshown := networkHeader_shown hok hwhole
          rw [nmsgIpdgParse_eq (hheader.trans hok), nmsgIpdgParse_eq hok,
            udpPayload_veiled h hshown]
          split
          · rfl
          split
          · cases hpayload : udpPayload pkt hd.next hd.len with
            | error e => rfl
            | ok out =>
                cases out with
                | none => rfl
                | some out =>
                    obtain ⟨payload, n⟩ := out
                    have hplace := (udpPayload_some hpayload).2.1
                    have hcopy : copyAt pkt' payload n = copyAt pkt payload n := by
                      have := h.copyAt (i := payload) (n := n) fun k hk _ => hshown k (by omega)
                      rwa [Nat.zero_add] at this
                    simp only [bind, Except.bind, withTransport, hcopy]
          · rfl

end Veiled

end Nmsg

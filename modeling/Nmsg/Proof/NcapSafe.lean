import Nmsg.Ncap
import Nmsg.Proof.ExtHeaders
import Nmsg.Proof.PacketReads

/-!
# Captured packets that are safe to receive

Making a message of a captured packet parses the packet and goes on with what the parser left,
whatever the parser returned. So the headers that the parser refuses, and the fields that a record
without a packet lacks, decide whether the message can be made and read.
-/

namespace Nmsg

/-! ### What the parser leaves -/

/-- The parser leaves the datagram it returns, and otherwise no payload. -/
theorem nmsgIpdgParse_agree (host : ByteOrder) (etype len : Nat) (pkt : Bytes) :
    Agree (fun dg left =>
        dg.map (fun dg => (dg.protoTransport, dg.transport, dg.payload, dg.lenPayload)) =
          left.payload.map fun p => (left.protoTransport, left.transport, p.1, p.2))
      (nmsgIpdgParse host etype len pkt) (nmsgIpdgParseLeft host etype len pkt) := by
  unfold nmsgIpdgParse nmsgIpdgParseLeft
  apply Agree.bind (R := fun h h' => h = h') (Agree.refl fun _ _ => rfl)
  rintro h h' rfl
  cases h with
  | none => exact rfl
  | some h =>
      dsimp only
      by_cases hfrag : h.isFragment = true
      · rw [if_pos hfrag, if_pos hfrag]
        exact rfl
      rw [if_neg hfrag, if_neg hfrag]
      by_cases hudp : h.protoTransport = ipprotoUdp
      · rw [if_pos hudp, if_pos hudp]
        apply Agree.bind (R := fun p p' => p = p') (Agree.refl fun _ _ => rfl)
        rintro p p' rfl
        cases p <;> exact rfl
      · rw [if_neg hudp, if_neg hudp]
        exact rfl

section Parse

variable {host : ByteOrder} {pkt : Bytes} {etype : Nat}

/-- What the parser leaves of a payload lies in the packet. -/
theorem nmsgIpdgParseLeft_inside {dg : IpdgLeft} {offset len : Nat}
    (hparse : nmsgIpdgParseLeft host etype pkt.length pkt = .ok dg)
    (hpayload : dg.payload = some (offset, len)) : offset + len ≤ pkt.length := by
  obtain ⟨header, hheader, hparse⟩ := Outcome.bind_eq_ok.mp hparse
  cases header with
  | none =>
      cases hparse
      cases hpayload
  | some h =>
      dsimp only at hparse
      split at hparse
      · cases hparse
        cases hpayload
      split at hparse
      · obtain ⟨payload, hudp, hparse⟩ := Outcome.bind_eq_ok.mp hparse
        cases hparse
        dsimp only at hpayload
        rw [hpayload] at hudp
        exact udpPayload_inside (networkHeader_room hheader) hudp
      · cases hparse
        cases hpayload

/-- Where UDP is announced there is a transport header, with its ports in the packet. -/
def PortsThere (pkt : Bytes) (dg : IpdgLeft) : Prop :=
  dg.protoTransport = ipprotoUdp →
    ∃ transport, dg.transport = some transport ∧ transport + 4 ≤ pkt.length

theorem ncapPorts_ok_iff {dg : IpdgLeft} :
    (∃ ports, ncapPorts pkt dg = .ok ports) ↔ PortsThere pkt dg := by
  unfold ncapPorts PortsThere
  by_cases hudp : dg.protoTransport = ipprotoUdp
  swap
  · rw [if_neg hudp]
    exact ⟨fun _ h => absurd h hudp, fun _ => ⟨none, rfl⟩⟩
  rw [if_pos hudp]
  cases htransport : dg.transport with
  | none =>
      constructor
      · rintro ⟨ports, hports⟩
        cases hports
      · intro h
        obtain ⟨transport, hsome, -⟩ := h hudp
        cases hsome
  | some transport =>
      constructor
      · rintro ⟨ports, hports⟩ -
        obtain ⟨srcport, -, hports⟩ := Outcome.bind_eq_ok.mp hports
        obtain ⟨dstport, hdst, -⟩ := Outcome.bind_eq_ok.mp hports
        exact ⟨transport, rfl, loadNet16_le hdst⟩
      · intro h
        obtain ⟨_, hsome, hroom⟩ := h hudp
        cases hsome
        obtain ⟨srcport, hsrc⟩ := loadNet16_ok (show transport + 2 ≤ pkt.length by omega)
        obtain ⟨dstport, hdst⟩ := loadNet16_ok (show transport + 2 + 2 ≤ pkt.length by omega)
        refine ⟨some (srcport, dstport), ?_⟩
        dsimp only
        rw [hsrc, hdst]
        rfl

/-- The ports are found just when the header that was read is that of no fragment, and they are
behind it. -/
theorem portsThere_iff_of_header {h : NetworkHeader}
    (hheader : networkHeader (exthdrsReasm host pkt 0 pkt.length) etype pkt 0 pkt.length =
      .ok (some h)) :
    (∃ dg, nmsgIpdgParseLeft host etype pkt.length pkt = .ok dg ∧ PortsThere pkt dg) ↔
      (h.protoTransport = ipprotoUdp → h.isFragment = false ∧ h.next + 4 ≤ pkt.length) := by
  rw [nmsgIpdgParseLeft, hheader]
  simp only [bind, Except.bind]
  cases hfrag : h.isFragment with
  | true =>
      constructor
      · rintro ⟨dg, hdg, hports⟩ hudp
        cases hdg
        obtain ⟨transport, hnone, -⟩ := hports hudp
        cases hnone
      · intro hclear
        refine ⟨_, rfl, fun hudp => ?_⟩
        exact absurd (hclear hudp).1.symm Bool.false_ne_true
  | false =>
      by_cases hudp : h.protoTransport = ipprotoUdp
      swap
      · simp only [if_neg hudp, if_neg Bool.false_ne_true]
        exact ⟨fun _ h => absurd h hudp, fun _ => ⟨_, rfl, fun h => absurd h hudp⟩⟩
      simp only [if_pos hudp, if_neg Bool.false_ne_true]
      constructor
      · rintro ⟨dg, hdg, hports⟩ -
        cases hpayload : udpPayload pkt h.next h.len with
        | error e =>
            rw [hpayload] at hdg
            cases hdg
        | ok payload =>
            rw [hpayload] at hdg
            cases hdg
            obtain ⟨transport, htransport, hroom⟩ := hports hudp
            cases htransport
            exact ⟨trivial, hroom⟩
      · intro hclear
        have hroom := (hclear hudp).2
        obtain ⟨payload, hpayload⟩ :=
          udpPayload_total (networkHeader_room hheader (Nat.le_of_add_right_le hroom))
        rw [hpayload]
        exact ⟨_, rfl, fun _ => ⟨_, rfl, hroom⟩⟩

/-! ### IPv4 -/

/-- The ports of UDP lie in an IPv4 packet that is no fragment, where its header length puts them. -/
def Ipv4PortsFit (pkt : Bytes) : Prop :=
  ∀ first ipOff, octetAt pkt 0 = .ok first → loadNet16 pkt 6 = .ok ipOff →
    octetAt pkt 9 = .ok ipprotoUdp →
      ipOffmask ipOff = 0 ∧ ipMf ipOff = false ∧ 4 * ipHl first + 4 ≤ pkt.length

theorem portsThere_ipv4_iff (hlen : iphdrLen ≤ pkt.length) :
    (∃ dg, nmsgIpdgParseLeft host ethertypeIp pkt.length pkt = .ok dg ∧ PortsThere pkt dg) ↔
      Ipv4PortsFit pkt := by
  have hsize : iphdrLen = 20 := rfl
  obtain ⟨first, hfirst⟩ := octetAt_ok (show 0 < pkt.length by omega)
  obtain ⟨ipOff, hipOff⟩ := loadNet16_ok (show 6 + 2 ≤ pkt.length by omega)
  obtain ⟨ipP, hipP⟩ := octetAt_ok (show 9 < pkt.length by omega)
  have hheader := networkHeader_ipv4 (exthdrsReasm host pkt 0 pkt.length) hfirst hipOff hipP
  rw [portsThere_iff_of_header hheader, Ipv4PortsFit]
  simp only [Bool.or_eq_false_iff, decide_eq_false_iff_not, not_not, and_assoc]
  constructor
  · intro h first' ipOff' hfirst' hipOff' hudp
    cases hfirst.symm.trans hfirst'
    cases hipOff.symm.trans hipOff'
    exact h (Except.ok.inj (hipP.symm.trans hudp))
  · intro h hudp
    exact h first ipOff hfirst hipOff (hipP.trans (congrArg Except.ok hudp))

/-! ### IPv6 -/

/-- The headers of an IPv6 packet, as they are read, lead to UDP, with `rest` behind them. -/
structure LeadsToUdp (host : ByteOrder) (pkt fixed mid rest : Bytes) : Prop where
  octets : pkt = fixed ++ mid ++ rest
  size : fixed.length = ip6hdrLen
  version : ∃ first, octetAt pkt 0 = .ok first ∧ ipV first = 6
  headers : ∃ type, octetAt pkt 6 = .ok type ∧ ReadAs host ipprotoUdp type mid
  counted : ∃ payloadLen, loadNet16 pkt 4 = .ok payloadLen ∧ mid.length < payloadLen ∧
    payloadLen ≤ mid.length + rest.length

/-- The ports of UDP lie in an IPv6 packet whose headers lead to it. -/
def Ipv6PortsFit (host : ByteOrder) (pkt : Bytes) : Prop :=
  ∀ fixed mid rest, LeadsToUdp host pkt fixed mid rest → 4 ≤ rest.length

theorem passExthdr_counted {network : Nat} {w w' : ExthdrWalk}
    (h : passExthdr host pkt network w = .ok (some w')) :
    w'.thusfar + w'.payloadLen = w.thusfar + w.payloadLen := by
  obtain ⟨nxt, -, h⟩ := Outcome.bind_eq_ok.mp h
  obtain ⟨length, -, h⟩ := Outcome.bind_eq_ok.mp h
  dsimp only at h
  split at h
  · cases h
  · cases h
    dsimp only
    omega

/-- A walk that gets past no Fragment header is not one of a fragment. -/
theorem exthdrsReasm_unfragmented {network len fuel : Nat} {w v : ExthdrWalk}
    (h : exthdrsReasm host pkt network len fuel w = .ok (some v)) :
    w.isFragment = false → v.nexthdr ≠ ipprotoFragment → v.isFragment = false := by
  refine exthdrsReasm_rule
    (P := fun w v => w.isFragment = false → v.nexthdr ≠ ipprotoFragment → v.isFragment = false)
    (fun w _ hw _ => hw) (fun w hfrag _ hnot => absurd hfrag hnot)
    (fun w next v hpass hv hw => ?_) h
  obtain ⟨nxt, length, -, -, rfl⟩ := passExthdr_ok hpass
  exact hv hw

/-- What a walk passes comes off the octets that are announced. -/
theorem exthdrsReasm_counted {network len fuel : Nat} {w v : ExthdrWalk}
    (h : exthdrsReasm host pkt network len fuel w = .ok (some v)) :
    v.thusfar + v.payloadLen = w.thusfar + w.payloadLen := by
  refine exthdrsReasm_rule
    (P := fun w v => v.thusfar + v.payloadLen = w.thusfar + w.payloadLen)
    (fun w _ => rfl) (fun w _ => rfl) (fun w next v hpass hv => ?_) h
  exact hv.trans (passExthdr_counted hpass)

theorem portsThere_ipv6_iff (hlen : ip6hdrLen ≤ pkt.length) :
    (∃ dg, nmsgIpdgParseLeft host ethertypeIpv6 pkt.length pkt = .ok dg ∧ PortsThere pkt dg) ↔
      Ipv6PortsFit host pkt := by
  have hsize : ip6hdrLen = 40 := rfl
  obtain ⟨first, hfirst⟩ := octetAt_ok (show 0 < pkt.length by omega)
  obtain ⟨payloadLen, hcount⟩ := loadNet16_ok (show 4 + 2 ≤ pkt.length by omega)
  obtain ⟨type, htype⟩ := octetAt_ok (show 6 < pkt.length by omega)
  by_cases hversion : ipV first = 6
  swap
  · -- the parser refuses another version, and no headers are read
    have hnone : nmsgIpdgParseLeft host ethertypeIpv6 pkt.length pkt =
        .ok { protoTransport := 0, transport := none, payload := none } := by
      have hfour : ¬ ethertypeIpv6 = ethertypeIp := by decide
      rw [nmsgIpdgParseLeft, networkHeader, if_neg hfour, if_pos rfl, ipv6Header,
        if_neg (Nat.not_lt.mpr hlen), hfirst]
      simp only [bind, Except.bind, ne_eq, hversion, not_false_eq_true, if_true]
      rfl
    constructor
    · intro _ fixed mid rest hleads
      obtain ⟨first', hfirst', hsix⟩ := hleads.version
      cases hfirst.symm.trans hfirst'
      exact absurd hsix hversion
    · intro _
      exact ⟨_, hnone, fun h => absurd h (by decide)⟩
  obtain ⟨walked, hwalk⟩ := exthdrsReasm_total host (Nat.le_of_eq (Nat.zero_add _))
    (payloadLen + 1) (walkStart type payloadLen) (Nat.lt_succ_self _)
  have hheader := networkHeader_ipv6 hlen hfirst hversion htype hcount hwalk
  constructor
  · intro hports fixed mid rest hleads
    -- the walk gets to the end of the chain
    obtain ⟨type', htype', hread⟩ := hleads.headers
    cases htype.symm.trans htype'
    obtain ⟨payloadLen', hcount', hmid, hrest⟩ := hleads.counted
    cases hcount.symm.trans hcount'
    have hlength := congrArg List.length hleads.octets
    rw [List.length_append, List.length_append, hleads.size] at hlength
    have hend : exthdrsReasm host pkt 0 pkt.length (payloadLen + 1) (walkStart type payloadLen) =
        .ok (some { walkStart type payloadLen with
          nexthdr := ipprotoUdp
          thusfar := ip6hdrLen + mid.length
          payloadLen := payloadLen - mid.length }) :=
      hread.walk (by decide) hleads.octets
      ((Nat.zero_add _).trans hleads.size.symm) rfl (Nat.le_of_lt hmid)
      (by change ip6hdrLen + mid.length ≤ pkt.length; omega) (by omega)
    cases hwalk.symm.trans hend
    rw [Option.bind, if_neg (by dsimp only; omega)] at hheader
    have hroom := ((portsThere_iff_of_header hheader).mp hports rfl).2
    dsimp only at hroom
    omega
  · intro hfit
    cases walked with
    | none =>
        refine ⟨{ protoTransport := 0, transport := none, payload := none }, ?_,
          fun h => absurd h (by decide)⟩
        rw [nmsgIpdgParseLeft, hheader]
        rfl
    | some w =>
        rw [Option.bind] at hheader
        by_cases hrefused : w.thusfar + w.payloadLen > pkt.length ∨ w.payloadLen = 0
        · rw [if_pos hrefused] at hheader
          refine ⟨{ protoTransport := 0, transport := none, payload := none }, ?_,
            fun h => absurd h (by decide)⟩
          rw [nmsgIpdgParseLeft, hheader]
          rfl
        rw [if_neg hrefused] at hheader
        rw [portsThere_iff_of_header hheader]
        intro hudp
        dsimp only at hudp
        have hfrag : w.isFragment = false := by
          apply exthdrsReasm_unfragmented hwalk rfl
          rw [hudp]
          decide
        refine ⟨hfrag, ?_⟩
        -- what the walk got over is a chain that leads to UDP
        have hstart : ip6hdrLen ≤ w.thusfar := exthdrsReasm_thusfar hwalk
        have hleft := exthdrsReasm_counted hwalk
        have hoctets : pkt = pkt.take ip6hdrLen ++ (pkt.drop ip6hdrLen).take (w.thusfar - ip6hdrLen) ++
            pkt.drop w.thusfar := by
          rw [List.append_assoc]
          conv_lhs => rw [← List.take_append_drop ip6hdrLen pkt,
            ← List.take_append_drop (w.thusfar - ip6hdrLen) (pkt.drop ip6hdrLen)]
          rw [List.drop_drop, Nat.add_sub_cancel' hstart]
        have hfixed : (pkt.take ip6hdrLen).length = ip6hdrLen := by
          rw [List.length_take]
          omega
        have hmid : ((pkt.drop ip6hdrLen).take (w.thusfar - ip6hdrLen)).length =
            w.thusfar - ip6hdrLen := by
          rw [List.length_take, List.length_drop]
          omega
        have hread := readAs_of_walk hwalk rfl hfrag hoctets ((Nat.zero_add _).trans hfixed.symm)
          (by rw [hmid]; exact (Nat.add_sub_cancel' hstart).symm)
        rw [hudp] at hread
        have hfour := hfit _ _ _ {
          octets := hoctets
          size := hfixed
          version := ⟨first, hfirst, hversion⟩
          headers := ⟨type, htype, hread⟩
          counted := by
            refine ⟨payloadLen, hcount, ?_, ?_⟩
            · rw [hmid]
              simp only [walkStart] at hleft
              omega
            · rw [hmid, List.length_drop]
              simp only [walkStart] at hleft
              omega }
        rw [List.length_drop] at hfour
        dsimp only
        omega

end Parse

/-! ### Loading a packet -/

section Packet

variable {host : ByteOrder} {pkt : Bytes} {etype src dst addrLen proto : Nat}

theorem ncapLoadPacket_ok_iff (hproto : proto < pkt.length) :
    (∃ priv, ncapLoadPacket host etype src dst addrLen proto pkt = .ok priv) ↔
      ∃ dg, nmsgIpdgParseLeft host etype pkt.length pkt = .ok dg ∧ PortsThere pkt dg := by
  obtain ⟨b, hb⟩ := octetAt_ok hproto
  constructor
  · rintro ⟨priv, hload⟩
    obtain ⟨dg, hdg, hload⟩ := Outcome.bind_eq_ok.mp hload
    obtain ⟨b, -, hload⟩ := Outcome.bind_eq_ok.mp hload
    obtain ⟨ports, hports, -⟩ := Outcome.bind_eq_ok.mp hload
    exact ⟨dg, hdg, ncapPorts_ok_iff.mp ⟨ports, hports⟩⟩
  · rintro ⟨dg, hdg, hthere⟩
    obtain ⟨ports, hports⟩ := ncapPorts_ok_iff.mpr hthere
    rw [ncapLoadPacket, hdg]
    simp only [hb, hports, bind, Except.bind]
    exact ⟨_, rfl⟩

/-- The addresses are where the header has them, and the payload is in the packet. -/
theorem ncapLoadPacket_places {priv : NcapPriv}
    (hload : ncapLoadPacket host etype src dst addrLen proto pkt = .ok priv) :
    priv.srcip = some (src, addrLen) ∧ priv.dstip = some (dst, addrLen) ∧
      ∀ offset len, priv.dg.payload = some (offset, len) → offset + len ≤ pkt.length := by
  obtain ⟨dg, hdg, hload⟩ := Outcome.bind_eq_ok.mp hload
  obtain ⟨b, -, hload⟩ := Outcome.bind_eq_ok.mp hload
  obtain ⟨ports, -, hload⟩ := Outcome.bind_eq_ok.mp hload
  cases hload
  exact ⟨rfl, rfl, fun _ _ => nmsgIpdgParseLeft_inside hdg⟩

end Packet

/-! ### The getters -/

namespace NcapObject

/-- A getter returns, leaves the message as it is, and has set data and length to octets of the
message if it returns success. -/
def AnswersInside (msg : NcapObject)
    (answer : Except Abort ((Res × Option (NcapData × Nat)) × NcapObject)) : Prop :=
  ∃ res out, answer = .ok ((res, out), msg) ∧
    (res = .success → ∃ data len, out = some (data, len) ∧ msg.Inside data len)

theorem answersInside_failure (msg : NcapObject) :
    msg.AnswersInside (.ok ((.failure, none), msg)) :=
  ⟨.failure, none, rfl, nofun⟩

theorem answersInside_success_iff {msg : NcapObject} {out : Option (NcapData × Nat)} :
    msg.AnswersInside (.ok ((.success, out), msg)) ↔
      ∃ data len, out = some (data, len) ∧ msg.Inside data len := by
  constructor
  · rintro ⟨res, out', hanswer, hset⟩
    cases hanswer
    exact hset rfl
  · intro h
    exact ⟨.success, out, rfl, fun _ => h⟩

theorem answersInside_of_inside {msg : NcapObject} {data : NcapData} {len : Nat}
    (h : msg.Inside data len) : msg.AnswersInside (.ok ((.success, some (data, len)), msg)) :=
  answersInside_success_iff.mpr ⟨data, len, rfl, h⟩

/-- The message can be made of the payload, and then every getter is safe at every index. -/
def Safe (host : ByteOrder) (unpack : Bytes → Option Ncap) (np : NmsgPayload) : Prop :=
  ∃ msg, fromPayload host unpack np = .ok msg ∧
    ∀ g valIdx, msg.AnswersInside (msg.get unpack g valIdx)

section Getters

variable {unpack : Bytes → Option Ncap} {msg : NcapObject} {ncap : Ncap} {priv : NcapPriv}
  {valIdx : Nat}

theorem getPayload_some (unpack : Bytes → Option Ncap) (hncap : msg.message = some ncap) :
    msg.getPayload unpack = .ok (ncap, msg) := by
  rw [getPayload, hncap]

/-- Nothing was loaded. -/
theorem answersInside_unloaded (hncap : msg.message = some ncap) (hpriv : msg.priv = none)
    (g : NcapGetter) : msg.AnswersInside (msg.get unpack g valIdx) := by
  have hpayload := getPayload_some unpack hncap
  have hfailure : msg.get unpack g valIdx = .ok ((.failure, none), msg) := by
    cases g <;>
      simp only [get, getAddress, getNumber, getDns, hpayload, bind, Except.bind, hpriv] <;> rfl
  rw [hfailure]
  exact msg.answersInside_failure

/-- A number that was loaded is always handed over. -/
theorem getNumber_answers {loaded : NcapPriv → Bool} {data : NcapData}
    (hpriv : msg.priv = some priv) (hinside : msg.Inside data 4) :
    msg.AnswersInside (getNumber loaded data msg valIdx) := by
  rw [getNumber, hpriv]
  dsimp only
  by_cases h : valIdx = 0 ∧ loaded priv = true
  · rw [if_pos h]
    exact answersInside_of_inside hinside
  · rw [if_neg h]
    exact msg.answersInside_failure

/-- The DNS getter hands over a payload that was found, or the whole packet of a legacy record. -/
theorem getDns_answers (hncap : msg.message = some ncap) (hpriv : msg.priv = some priv)
    {t : NcapType} (htype : NcapType.ofNumber ncap.type = some t)
    (hinside : ∀ offset len, priv.dg.payload = some (offset, len) →
      offset + len ≤ ncap.payload.length) :
    msg.AnswersInside (getDns unpack msg valIdx) := by
  rw [getDns, getPayload_some unpack hncap]
  simp only [bind, Except.bind, hpriv]
  by_cases hidx : valIdx ≠ 0
  · rw [if_pos hidx]
    exact msg.answersInside_failure
  rw [if_neg hidx]
  by_cases hport : (isDnsPort priv.srcport || isDnsPort priv.dstport) = true
  swap
  · rw [if_neg hport]
    exact msg.answersInside_failure
  rw [if_pos hport, htype]
  have hfound : ∀ place, priv.dg.payload = some place →
      msg.AnswersInside (.ok ((.success, some (.payload place.1, place.2)), msg)) :=
    fun place hplace => answersInside_of_inside ⟨ncap, hncap, hinside _ _ hplace⟩
  have hmissing : msg.AnswersInside (.ok ((.success, some (.null, 0)), msg)) :=
    answersInside_of_inside rfl
  cases t with
  | ipv4 =>
      cases hplace : priv.dg.payload with
      | none => exact hmissing
      | some place => exact hfound place hplace
  | ipv6 =>
      cases hplace : priv.dg.payload with
      | none => exact hmissing
      | some place => exact hfound place hplace
  | legacy => exact answersInside_of_inside ⟨ncap, hncap, Nat.le_of_eq (Nat.zero_add _)⟩

section Address

variable {place : NcapPriv → Option (Nat × Nat)} {own : Ncap → Option Bytes} {data : NcapData}

/-- Only the first value of an address is there. -/
theorem getAddress_ne_zero (hncap : msg.message = some ncap) (hpriv : msg.priv = some priv)
    (hidx : valIdx ≠ 0) : msg.AnswersInside (getAddress unpack place own data msg valIdx) := by
  rw [getAddress, getPayload_some unpack hncap]
  simp only [bind, Except.bind, hpriv, if_neg hidx]
  exact msg.answersInside_failure

/-- An address of a packet is safe to get just when its place is in the packet. -/
theorem getAddress_packet_iff (hncap : msg.message = some ncap) (hpriv : msg.priv = some priv)
    (htype : NcapType.ofNumber ncap.type = some .ipv4 ∨ NcapType.ofNumber ncap.type = some .ipv6)
    {offset len : Nat} (hplace : place priv = some (offset, len)) :
    (∀ valIdx, msg.AnswersInside (getAddress unpack place own data msg valIdx)) ↔
      offset + len ≤ ncap.payload.length := by
  have hzero : getAddress unpack place own data msg 0 =
      .ok ((.success, some (.payload offset, len)), msg) := by
    rw [getAddress, getPayload_some unpack hncap]
    rcases htype with htype | htype <;>
      simp only [bind, Except.bind, hpriv, if_true, htype, hplace] <;> rfl
  constructor
  · intro h
    have hanswers := h 0
    rw [hzero, answersInside_success_iff] at hanswers
    obtain ⟨data', len', hout, hinside⟩ := hanswers
    cases hout
    obtain ⟨ncap', hncap', hle⟩ := hinside
    cases hncap.symm.trans hncap'
    exact hle
  · intro hle valIdx
    by_cases hidx : valIdx = 0
    · rw [hidx, hzero]
      exact answersInside_of_inside ⟨ncap, hncap, hle⟩
    · exact getAddress_ne_zero hncap hpriv hidx

/-- An address of a legacy record is safe to get just when the record has it. -/
theorem getAddress_legacy_iff (hncap : msg.message = some ncap) (hpriv : msg.priv = some priv)
    (htype : NcapType.ofNumber ncap.type = some .legacy)
    (hinside : ∀ b, own ncap = some b → msg.Inside data b.length) :
    (∀ valIdx, msg.AnswersInside (getAddress unpack place own data msg valIdx)) ↔
      (own ncap).isSome = true := by
  have hzero : getAddress unpack place own data msg 0 =
      .ok ((.success, (own ncap).map fun b => (data, b.length)), msg) := by
    rw [getAddress, getPayload_some unpack hncap]
    simp only [bind, Except.bind, hpriv, if_true, htype]
    rfl
  constructor
  · intro h
    have hanswers := h 0
    rw [hzero, answersInside_success_iff] at hanswers
    obtain ⟨data', len', hout, -⟩ := hanswers
    cases hown : own ncap with
    | none =>
        rw [hown] at hout
        cases hout
    | some b => rfl
  · intro hsome valIdx
    obtain ⟨b, hb⟩ := Option.isSome_iff_exists.mp hsome
    by_cases hidx : valIdx = 0
    · rw [hidx, hzero, hb]
      exact answersInside_of_inside (hinside b hb)
    · exact getAddress_ne_zero hncap hpriv hidx

end Address

/-- Once something was loaded, only the addresses are to be looked after. -/
theorem answersInside_of_addresses (hncap : msg.message = some ncap)
    (hpriv : msg.priv = some priv) {t : NcapType} (htype : NcapType.ofNumber ncap.type = some t)
    (hinside : ∀ offset len, priv.dg.payload = some (offset, len) →
      offset + len ≤ ncap.payload.length) :
    (∀ g valIdx, msg.AnswersInside (msg.get unpack g valIdx)) ↔
      (∀ valIdx, msg.AnswersInside (msg.get unpack .srcip valIdx)) ∧
        ∀ valIdx, msg.AnswersInside (msg.get unpack .dstip valIdx) := by
  constructor
  · exact fun h => ⟨h .srcip, h .dstip⟩
  · rintro ⟨hsrcip, hdstip⟩ g valIdx
    have hsome : msg.priv.isSome = true := by
      rw [hpriv]
      rfl
    have hsrcport : msg.Inside .srcport 4 := ⟨hsome, Nat.le_refl 4⟩
    have hdstport : msg.Inside .dstport 4 := ⟨hsome, Nat.le_refl 4⟩
    have hproto : msg.Inside .proto 4 := ⟨hsome, Nat.le_refl 4⟩
    cases g with
    | srcip => exact hsrcip valIdx
    | dstip => exact hdstip valIdx
    | srcport => exact getNumber_answers hpriv hsrcport
    | dstport => exact getNumber_answers hpriv hdstport
    | proto => exact getNumber_answers hpriv hproto
    | dns => exact getDns_answers hncap hpriv htype hinside

end Getters

/-! ### Receiving -/

section Receive

variable {host : ByteOrder} {unpack : Bytes → Option Ncap} {np : NmsgPayload} {ncap : Ncap}

/-- A message of a packet is safe just when the packet can be loaded and its addresses are in it. -/
theorem safe_packet_iff {etype src dst addrLen proto : Nat}
    (htype : NcapType.ofNumber ncap.type = some .ipv4 ∨ NcapType.ofNumber ncap.type = some .ipv6)
    (hload : fromPayload host unpack np =
      (ncapLoadPacket host etype src dst addrLen proto ncap.payload).map fun priv =>
        ⟨np, some ncap, some priv⟩) :
    Safe host unpack np ↔
      (∃ priv, ncapLoadPacket host etype src dst addrLen proto ncap.payload = .ok priv) ∧
        src + addrLen ≤ ncap.payload.length ∧ dst + addrLen ≤ ncap.payload.length := by
  rw [Safe, hload]
  cases hpriv : ncapLoadPacket host etype src dst addrLen proto ncap.payload with
  | error e =>
      constructor
      · rintro ⟨msg, hmsg, -⟩
        cases hmsg
      · rintro ⟨⟨priv, hpriv⟩, -⟩
        cases hpriv
  | ok priv =>
      obtain ⟨hsrc, hdst, hpayload⟩ := ncapLoadPacket_places hpriv
      obtain ⟨t, ht⟩ : ∃ t, NcapType.ofNumber ncap.type = some t :=
        htype.elim (fun h => ⟨_, h⟩) fun h => ⟨_, h⟩
      have haddresses : (∀ g valIdx, AnswersInside ⟨np, some ncap, some priv⟩
          (get unpack ⟨np, some ncap, some priv⟩ g valIdx)) ↔
            src + addrLen ≤ ncap.payload.length ∧ dst + addrLen ≤ ncap.payload.length := by
        rw [answersInside_of_addresses rfl rfl ht hpayload]
        exact and_congr (getAddress_packet_iff rfl rfl htype hsrc)
          (getAddress_packet_iff rfl rfl htype hdst)
      constructor
      · rintro ⟨msg, hmsg, hget⟩
        cases hmsg
        exact ⟨⟨priv, rfl⟩, haddresses.mp hget⟩
      · rintro ⟨-, hfits⟩
        exact ⟨_, rfl, haddresses.mpr hfits⟩

/-- A legacy record is safe just when its type is one of the three and it has both addresses. -/
theorem safe_legacy_iff (htype : NcapType.ofNumber ncap.type = some .legacy)
    (hload : fromPayload host unpack np =
      (ncapLoadLegacy ncap).map fun priv => ⟨np, some ncap, some priv⟩) :
    Safe host unpack np ↔
      (NcapLegacyType.ofNumber ncap.ltype).isSome = true ∧ ncap.srcip.isSome = true ∧
        ncap.dstip.isSome = true := by
  rw [Safe, hload, ncapLoadLegacy]
  cases hltype : NcapLegacyType.ofNumber ncap.ltype with
  | none =>
      constructor
      · rintro ⟨msg, hmsg, -⟩
        cases hmsg
      · rintro ⟨hsome, -⟩
        cases hsome
  | some ltype =>
      simp only [Except.map]
      have haddresses : ∀ priv, priv.dg.payload = none →
          ((∀ g valIdx, AnswersInside ⟨np, some ncap, some priv⟩
            (get unpack ⟨np, some ncap, some priv⟩ g valIdx)) ↔
              ncap.srcip.isSome = true ∧ ncap.dstip.isSome = true) := by
        intro priv hnone
        rw [answersInside_of_addresses rfl rfl htype fun _ _ h => nomatch hnone.symm.trans h]
        apply and_congr
        · exact getAddress_legacy_iff rfl rfl htype fun b hb => ⟨ncap, b, rfl, hb, Nat.le_refl _⟩
        · exact getAddress_legacy_iff rfl rfl htype fun b hb => ⟨ncap, b, rfl, hb, Nat.le_refl _⟩
      constructor
      · rintro ⟨msg, hmsg, hget⟩
        cases hmsg
        exact ⟨rfl, (haddresses _ rfl).mp hget⟩
      · rintro ⟨-, hthere⟩
        exact ⟨_, rfl, (haddresses _ rfl).mpr hthere⟩

/-- A message with nothing to load is safe: every getter fails. -/
theorem safe_of_empty (hncap : np.payload.bind unpack = some ncap) (hempty : ncap.payload = []) :
    Safe host unpack np := by
  refine ⟨⟨np, some ncap, none⟩, ?_, fun g valIdx => answersInside_unloaded rfl rfl g⟩
  rw [fromPayload, msgLoad, getPayload, hncap]
  simp only [bind, Except.bind, if_pos hempty]
  rfl

/-- What a record has to be like for its message to be safe: if there is a packet, it has its fixed
header and the ports of UDP where they are looked for; without one, the type is one of those that
are known, and both addresses are there. -/
def Receivable (host : ByteOrder) (ncap : Ncap) : Prop :=
  ncap.payload = [] ∨
    match NcapType.ofNumber ncap.type with
    | some .ipv4 => iphdrLen ≤ ncap.payload.length ∧ Ipv4PortsFit ncap.payload
    | some .ipv6 => ip6hdrLen ≤ ncap.payload.length ∧ Ipv6PortsFit host ncap.payload
    | some .legacy =>
        (NcapLegacyType.ofNumber ncap.ltype).isSome = true ∧ ncap.srcip.isSome = true ∧
          ncap.dstip.isSome = true
    | none => False

theorem safe_iff_of_unpacked (hncap : np.payload.bind unpack = some ncap) :
    Safe host unpack np ↔ Receivable host ncap := by
  have hip : iphdrLen = 20 := rfl
  have hip6 : ip6hdrLen = 40 := rfl
  by_cases hempty : ncap.payload = []
  · exact iff_of_true (safe_of_empty hncap hempty) (Or.inl hempty)
  rw [Receivable, or_iff_right hempty]
  have hfrom : fromPayload host unpack np =
      (match NcapType.ofNumber ncap.type with
        | some .ipv4 => (ncapLoadPacket host ethertypeIp 12 16 4 9 ncap.payload).map some
        | some .ipv6 => (ncapLoadPacket host ethertypeIpv6 8 24 16 6 ncap.payload).map some
        | some .legacy => (ncapLoadLegacy ncap).map some
        | none => .error .assertion).map fun priv => ⟨np, some ncap, priv⟩ := by
    rw [fromPayload, msgLoad, getPayload, hncap]
    simp only [bind, Except.bind, if_neg hempty]
    cases NcapType.ofNumber ncap.type with
    | none => rfl
    | some t =>
        cases t with
        | ipv4 => cases ncapLoadPacket host ethertypeIp 12 16 4 9 ncap.payload <;> rfl
        | ipv6 => cases ncapLoadPacket host ethertypeIpv6 8 24 16 6 ncap.payload <;> rfl
        | legacy => cases ncapLoadLegacy ncap <;> rfl
  have hmap : ∀ x : Except Abort NcapPriv,
      (x.map some).map (fun priv => NcapObject.mk np (some ncap) priv) =
        x.map fun priv => ⟨np, some ncap, some priv⟩ := by
    intro x
    cases x <;> rfl
  cases htype : NcapType.ofNumber ncap.type with
  | none =>
      rw [htype] at hfrom
      refine iff_of_false ?_ id
      rintro ⟨msg, hmsg, -⟩
      cases hfrom.symm.trans hmsg
  | some t =>
      rw [htype] at hfrom
      cases t with
      | ipv4 =>
          rw [safe_packet_iff (Or.inl htype) (hfrom.trans (hmap _))]
          constructor
          · rintro ⟨hload, -, hdst⟩
            have hlen : iphdrLen ≤ ncap.payload.length := hdst
            exact ⟨hlen, (portsThere_ipv4_iff hlen).mp ((ncapLoadPacket_ok_iff (by omega)).mp hload)⟩
          · rintro ⟨hlen, hports⟩
            refine ⟨(ncapLoadPacket_ok_iff (by omega)).mpr ((portsThere_ipv4_iff hlen).mpr hports),
              ?_, hlen⟩
            omega
      | ipv6 =>
          rw [safe_packet_iff (Or.inr htype) (hfrom.trans (hmap _))]
          constructor
          · rintro ⟨hload, -, hdst⟩
            have hlen : ip6hdrLen ≤ ncap.payload.length := hdst
            exact ⟨hlen, (portsThere_ipv6_iff hlen).mp ((ncapLoadPacket_ok_iff (by omega)).mp hload)⟩
          · rintro ⟨hlen, hports⟩
            refine ⟨(ncapLoadPacket_ok_iff (by omega)).mpr ((portsThere_ipv6_iff hlen).mpr hports),
              ?_, hlen⟩
            omega
      | legacy => exact safe_legacy_iff htype (hfrom.trans (hmap _))

end Receive

/-- **Safe messages.** A message is safe to receive just when its payload is there and decodes to a
record that is receivable. -/
theorem safe_iff (host : ByteOrder) (unpack : Bytes → Option Ncap) (np : NmsgPayload) :
    Safe host unpack np ↔
      ∃ ncap, np.payload.bind unpack = some ncap ∧ Receivable host ncap := by
  cases hncap : np.payload.bind unpack with
  | some ncap =>
      rw [safe_iff_of_unpacked hncap]
      constructor
      · exact fun h => ⟨ncap, rfl, h⟩
      · rintro ⟨ncap', hsome, h⟩
        cases hsome
        exact h
  | none =>
      constructor
      · rintro ⟨msg, hmsg, -⟩
        rw [fromPayload, msgLoad, getPayload, hncap] at hmsg
        cases hmsg
      · rintro ⟨ncap, hsome, -⟩
        cases hsome

/-- A payload of the module with the first fragment of a UDP datagram, without the datagram. -/
def fragmentPayload : NmsgPayload where
  vid := 1
  msgtype := 1
  timeSec := 0
  timeNsec := 0
  payload := some [0x08, 0, 0x12, 20,
    0x45, 0, 0, 20, 0, 0, 0x20, 0, 64, 17, 0, 0, 1, 2, 3, 4, 5, 6, 7, 8]
  source := none
  operator := none
  group := none

/-- The ports of a fragment are read where there is no transport header. -/
theorem fragment_not_safe : ¬ Safe .little unpackNcap fragmentPayload := by
  have hload : fromPayload .little unpackNcap fragmentPayload = .error .nullPointer := rfl
  rintro ⟨msg, hmsg, -⟩
  cases hload.symm.trans hmsg

end NcapObject

end Nmsg

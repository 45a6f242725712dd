import Nmsg.Proof.RecordFaults
import Nmsg.Proof.ResponseParse

/-!
# The packets of a response

The record of a response holds the packets of its datagram as they were captured, with their times.
The message made of it holds the same packets, but for the address of the resolver.
-/

namespace Nmsg

open Memory

/-- A packet of IPv4 or IPv6: the version is right, and an IPv4 header is whole. -/
def IsIpPacket : ProtoNetwork → Bytes → Prop
  | .inet, pkt => ∃ first, octetAt pkt 0 = .ok first ∧ ipV first = 4 ∧ 20 ≤ 4 * ipHl first ∧
      4 * ipHl first ≤ pkt.length
  | .inet6, pkt => ∃ first, octetAt pkt 0 = .ok first ∧ ipV first = 6

/-! ### The address of the resolver -/

section Message

variable {S : Nat → Prop} {net : ProtoNetwork} {m m' pkt pkt' src : Bytes} {i : Nat}

theorem writeAt_hides (h : writeAt m i src = .ok m') (hS : ∀ k, i ≤ k → k < i + src.length → S k) :
    EqOff S m m' := by
  have hwrite := writeAt_eq_ok.mp h
  refine ⟨length_of_write hwrite, fun k hk => ?_⟩
  rw [getElem?_of_write hwrite, if_neg]
  intro hin
  exact hk (hS k hin.1 hin.2)

/-- Only what is hidden is zeroed. -/
theorem zeroAddress_eqOff (hip : IsIpPacket net pkt) (h : zeroAddress 16 24 pkt = .ok pkt') :
    EqOff (Hidden net) pkt pkt' := by
  unfold zeroAddress at h
  obtain ⟨first, hfirst, h⟩ := Outcome.bind_eq_ok.mp h
  cases net with
  | inet =>
      obtain ⟨first', hfirst', hv, -⟩ := hip
      rw [hfirst'] at hfirst
      cases hfirst
      rw [if_pos hv] at h
      split at h
      · apply writeAt_hides h
        intro k hlo hhi
        rw [List.length_replicate] at hhi
        exact Or.inr ⟨hlo, hhi⟩
      · cases h
        exact EqOff.refl _ _
  | inet6 =>
      obtain ⟨first', hfirst', hv⟩ := hip
      rw [hfirst'] at hfirst
      cases hfirst
      rw [if_neg (by omega), if_pos hv] at h
      split at h
      · apply writeAt_hides h
        intro k hlo hhi
        rw [List.length_replicate] at hhi
        exact ⟨hlo, hhi⟩
      · cases h
        exact EqOff.refl _ _

theorem forall₂_of_mapM {ε α β : Type} {f : α → Except ε β} {l : List α} :
    ∀ {l' : List β}, l.mapM f = .ok l' → List.Forall₂ (fun a b => f a = .ok b) l l' := by
  induction l with
  | nil =>
      rintro l' ⟨⟩
      exact List.Forall₂.nil
  | cons a l ih =>
      intro l' h
      rw [List.mapM_cons] at h
      obtain ⟨b, hb, h⟩ := Outcome.bind_eq_ok.mp h
      obtain ⟨bs, hbs, h⟩ := Outcome.bind_eq_ok.mp h
      cases h
      exact List.Forall₂.cons hb (ih hbs)

/-- The message has the response of the record, with the addresses zeroed or not. -/
structure HasResponse (d d' : DnsQR) : Prop where
  responseIp : d'.responseIp = d.responseIp
  packets : List.Forall₂ (fun p p' => p' = p ∨ zeroAddress 16 24 p = .ok p') d.responsePacket
    d'.responsePacket
  sec : d'.responseTimeSec = d.responseTimeSec
  nsec : d'.responseTimeNsec = d.responseTimeNsec

theorem dnsqrToMessage_response {host : ByteOrder} {zeroResolverAddress : Bool} {d : DnsQR}
    {msg : DnsqrMessage} (h : dnsqrToMessage host zeroResolverAddress d = .ok msg) :
    HasResponse d msg.dnsqr := by
  unfold dnsqrToMessage at h
  obtain ⟨d₁, h₁, h⟩ := Outcome.bind_eq_ok.mp h
  obtain ⟨d₂, h₂, h⟩ := Outcome.bind_eq_ok.mp h
  obtain ⟨time, -, h⟩ := Outcome.bind_eq_ok.mp h
  cases h
  have hsum : ∃ sum, d₁ = { d with udpChecksum := sum } := by
    unfold withUdpChecksum at h₁
    split at h₁
    · obtain ⟨sum, -, h₁⟩ := Outcome.bind_eq_ok.mp h₁
      cases h₁
      exact ⟨some sum, rfl⟩
    · cases h₁
      exact ⟨d.udpChecksum, rfl⟩
  obtain ⟨sum, rfl⟩ := hsum
  unfold withZeroedAddress at h₂
  split at h₂
  · unfold dnsqrZeroResolverAddress at h₂
    obtain ⟨queryPacket, -, h₂⟩ := Outcome.bind_eq_ok.mp h₂
    obtain ⟨responsePacket, hpackets, h₂⟩ := Outcome.bind_eq_ok.mp h₂
    cases h₂
    exact ⟨rfl, (forall₂_of_mapM hpackets).imp fun _ _ => Or.inr, rfl, rfl⟩
  · cases h₂
    exact ⟨rfl, List.forall₂_same.mpr fun _ _ => Or.inl rfl, rfl, rfl⟩

/-- What differs between the packets of the record and of the message is hidden. -/
theorem HasResponse.hides {d d' : DnsQR} (h : HasResponse d d')
    (hip : ∀ p ∈ d.responsePacket, IsIpPacket net p) :
    List.Forall₂ (EqOff (Hidden net)) d.responsePacket d'.responsePacket := by
  refine List.forall₂_iff_zip.mpr ⟨h.packets.length_eq, fun {p p'} hp => ?_⟩
  rcases (List.forall₂_iff_zip.mp h.packets).2 hp with rfl | hzero
  · exact EqOff.refl _ _
  · exact zeroAddress_eqOff (hip p (List.of_mem_zip hp).1) hzero

end Message

/-! ### The packets of a datagram -/

/-- The packets a datagram was captured in. -/
def Datagram.packets (d : Datagram) : List Bytes :=
  match d.entry with
  | none => [d.pkt.drop d.dg.network]
  | some entry => entry.frags.map BaseFrag.data

/-- Their times, for a datagram whose last packet was captured at `ts`. -/
def Datagram.times (d : Datagram) (ts : Timespec) : List Timespec :=
  match d.entry with
  | none => [ts]
  | some entry => entry.frags.map BaseFrag.ts

/-- The packet is there from the network header to its end, or in fragments that are. -/
structure Datagram.Whole (d : Datagram) : Prop where
  packet : d.entry = none → d.dg.network + d.dg.lenNetwork = d.pkt.length
  frags : ∀ entry, d.entry = some entry → ∀ f ∈ entry.frags, KeptFrag entry.id f

/-- The response of the record is the datagram. -/
structure Datagram.HeldBy (d : Datagram) (ts : Timespec) (dnsqr : DnsQR) : Prop where
  responseIp : dnsqr.responseIp.length = d.dg.protoNetwork.addressLen
  packets : dnsqr.responsePacket = d.packets
  sec : dnsqr.responseTimeSec = (d.times ts).map Timespec.sec
  nsec : dnsqr.responseTimeNsec = (d.times ts).map Timespec.nsec

section Capture

variable {d : Datagram} {ts : Timespec} {dnsqr dnsqr' : DnsQR}

/-- What else a record says does not matter to it. -/
theorem Datagram.HeldBy.congr (h : d.HeldBy ts dnsqr) (hip : dnsqr'.responseIp = dnsqr.responseIp)
    (hpackets : dnsqr'.responsePacket = dnsqr.responsePacket)
    (hsec : dnsqr'.responseTimeSec = dnsqr.responseTimeSec)
    (hnsec : dnsqr'.responseTimeNsec = dnsqr.responseTimeNsec) : d.HeldBy ts dnsqr' :=
  ⟨hip ▸ h.responseIp, hpackets.trans h.packets, hsec.trans h.sec, hnsec.trans h.nsec⟩

theorem dnsqrAppendFrag_response {id : ReasmId} :
    ∀ {frags : List BaseFrag} {dnsqr : DnsQR}, (∀ f ∈ frags, KeptFrag id f) →
      dnsqrAppendFrag dnsqrAppendResponsePacket dnsqr frags = .ok dnsqr' →
      dnsqr' = { dnsqr with
        responsePacket := dnsqr.responsePacket ++ frags.map BaseFrag.data
        responseTimeSec := dnsqr.responseTimeSec ++ (frags.map BaseFrag.ts).map Timespec.sec
        responseTimeNsec := dnsqr.responseTimeNsec ++ (frags.map BaseFrag.ts).map Timespec.nsec } := by
  intro frags
  induction frags with
  | nil =>
      rintro dnsqr - ⟨⟩
      simp only [List.map_nil, List.append_nil]
  | cons f frags ih =>
      intro dnsqr hkept h
      rw [List.forall_mem_cons] at hkept
      rw [dnsqrAppendFrag] at h
      obtain ⟨pkt, hpkt, h⟩ := Outcome.bind_eq_ok.mp h
      have hpayload := hkept.1.payload
      have hsize := hkept.1.size
      have hcount : toUnsigned (f.len + f.dataOffset) = f.data.length := by
        rw [toUnsigned, Nat.mod_eq_of_lt (by omega)]
        omega
      obtain ⟨rfl, -⟩ := copyAt_eq_take hpkt
      rw [hcount, List.take_length] at h
      rw [ih hkept.2 h]
      simp only [dnsqrAppendResponsePacket, List.map_cons, List.append_assoc, List.cons_append,
        List.nil_append]

/-- The packets of the datagram become those of the record. -/
theorem appendDatagram_held (hwhole : d.Whole) (hnew : dnsqr.NoPackets)
    (hlen : dnsqr.responseIp.length = d.dg.protoNetwork.addressLen)
    (h : appendDatagram dnsqrAppendResponsePacket dnsqr d ts = .ok dnsqr') :
    d.HeldBy ts dnsqr' ∧ dnsqr'.NoQuery := by
  unfold appendDatagram at h
  cases hentry : d.entry with
  | some entry =>
      rw [hentry] at h
      have hkept := hwhole.frags entry hentry
      rw [dnsqrAppendFrag_response hkept h]
      refine ⟨⟨hlen, ?_, ?_, ?_⟩, ⟨hnew.packet, hnew.sec, hnew.nsec⟩⟩
      · rw [Datagram.packets, hentry, hnew.responsePacket, List.nil_append]
      · rw [Datagram.times, hentry, hnew.responseSec, List.nil_append]
      · rw [Datagram.times, hentry, hnew.responseNsec, List.nil_append]
  | none =>
      rw [hentry] at h
      obtain ⟨network, hnetwork, h⟩ := Outcome.bind_eq_ok.mp h
      cases h
      have hends := hwhole.packet hentry
      have hcopy : network = d.pkt.drop d.dg.network := by
        simp only [copyAt, read_of_le (Nat.le_of_eq hends), Except.ok.injEq] at hnetwork
        rw [← hnetwork, List.take_of_length_le]
        rw [List.length_drop]
        omega
      refine ⟨⟨hlen, ?_, ?_, ?_⟩, ⟨hnew.packet, hnew.sec, hnew.nsec⟩⟩
      · rw [Datagram.packets, hentry, dnsqrAppendResponsePacket, hnew.responsePacket, hcopy,
          List.nil_append]
      · rw [Datagram.times, hentry, dnsqrAppendResponsePacket, hnew.responseSec, List.nil_append]
        rfl
      · rw [Datagram.times, hentry, dnsqrAppendResponsePacket, hnew.responseNsec, List.nil_append]
        rfl

theorem dnsqrMerge_response {query : DnsQR} (h : dnsqrMerge query dnsqr = .ok dnsqr')
    (hheld : d.HeldBy ts dnsqr) : d.HeldBy ts dnsqr' := by
  unfold dnsqrMerge at h
  split at h
  · cases h
    exact hheld.congr rfl rfl rfl rfl
  · cases h

variable {env : DnsqrEnv} {ctx ctx' : DnsqrCtx} {flags : Nat} {msg : DnsqrMessage}

theorem no_response_of_message {zeroResolverAddress : Bool}
    (h : dnsqrToMessage env.host zeroResolverAddress dnsqr = .ok msg)
    (hnone : dnsqr.responsePacket = []) : msg.dnsqr.responsePacket = [] := by
  have hpackets := (dnsqrToMessage_response h).packets
  rw [hnone] at hpackets
  exact List.forall₂_nil_left_iff.mp hpackets

/-- A message with a response is made of a record that holds the datagram. -/
theorem doPacketCapture_response (hwhole : d.Whole) (hnew : dnsqr.NoPackets)
    (hlen : d.dg.protoTransport = ipprotoUdp →
      dnsqr.responseIp.length = d.dg.protoNetwork.addressLen)
    (h : doPacketCapture env ctx d dnsqr flags ts = .ok (some msg, ctx'))
    (hresponse : msg.dnsqr.responsePacket ≠ []) :
    d.dg.protoTransport = ipprotoUdp ∧ ∃ r, d.HeldBy ts r ∧ HasResponse r msg.dnsqr := by
  unfold doPacketCapture at h
  split at h
  case isFalse =>
    obtain ⟨m, hm, h⟩ := Outcome.bind_eq_ok.mp h
    cases h
    exact absurd (no_response_of_message hm hnew.responsePacket) hresponse
  case isTrue hudp =>
    refine ⟨hudp, ?_⟩
    have hip := hlen hudp
    split at h
    case h_1 responses =>
      obtain ⟨m, hm, h⟩ := Outcome.bind_eq_ok.mp h
      cases h
      unfold captureOneWay at hm
      split at hm
      · obtain ⟨network, -, hm⟩ := Outcome.bind_eq_ok.mp hm
        obtain ⟨m, hmessage, hm⟩ := Outcome.bind_eq_ok.mp hm
        cases hm
        exact absurd (no_response_of_message hmessage hnew.responsePacket) hresponse
      · split at hm
        · obtain ⟨r, hr, hm⟩ := Outcome.bind_eq_ok.mp hm
          obtain ⟨m, hmessage, hm⟩ := Outcome.bind_eq_ok.mp hm
          cases hm
          have hnew' : { dnsqr with
              type := .udpResponseOnly
              rcode := some (UInt32.ofNat (dnsFlagRcode flags)) }.NoPackets :=
            hnew.congr rfl rfl rfl rfl rfl rfl
          exact ⟨r, (appendDatagram_held hwhole hnew' hip hr).1, dnsqrToMessage_response hmessage⟩
        · cases hm
    case h_2 =>
      split at h
      · obtain ⟨ctx₁, -, h⟩ := Outcome.bind_eq_ok.mp h
        cases h
      · unfold captureResponse at h
        obtain ⟨r, hr, h⟩ := Outcome.bind_eq_ok.mp h
        obtain ⟨⟨query, state⟩, -, h⟩ := Outcome.bind_eq_ok.mp h
        have hnew' : { dnsqr with
            rcode := some (UInt32.ofNat (dnsFlagRcode flags)) }.NoPackets :=
          hnew.congr rfl rfl rfl rfl rfl rfl
        have hheld := (appendDatagram_held hwhole hnew' hip hr).1
        cases query with
        | none =>
            dsimp only at h
            split at h
            · cases h
            · obtain ⟨m, hmessage, h⟩ := Outcome.bind_eq_ok.mp h
              cases h
              refine ⟨_, ?_, dnsqrToMessage_response hmessage⟩
              exact hheld.congr rfl rfl rfl rfl
        | some query =>
            dsimp only at h
            obtain ⟨merged, hmerged, h⟩ := Outcome.bind_eq_ok.mp h
            obtain ⟨drop, -, h⟩ := Outcome.bind_eq_ok.mp h
            split at h
            · cases h
            · obtain ⟨m, hmessage, h⟩ := Outcome.bind_eq_ok.mp h
              cases h
              exact ⟨merged, dnsqrMerge_response hmerged (hheld.congr rfl rfl rfl rfl),
                dnsqrToMessage_response hmessage⟩

end Capture

end Nmsg

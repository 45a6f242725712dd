import Nmsg.Proof.ResponseRecord
import Nmsg.Proof.ResponseReread

/-!
# The datagrams of a run

In every run of the module the store of the reassembly is filed, and a datagram that it completes
has the header of its first packet.
-/

namespace Nmsg

open ReasmFrag Tiling StepRun Memory

/-! ### The header of a datagram -/

section Header

variable {host : ByteOrder} {datalink : Datalink} {pkt pkt' : Bytes} {net : ProtoNetwork}
  {network len : Nat} {hd : NetworkHeader} {dg : Ipdg}

theorem ipv6Header_protoNetwork {walk : Nat → ExthdrWalk → Except Abort (Option ExthdrWalk)}
    (h : ipv6Header walk pkt network len = .ok (some hd)) : hd.protoNetwork = .inet6 := by
  unfold ipv6Header at h
  split at h
  · cases h
  obtain ⟨first, -, h⟩ := Outcome.bind_eq_ok.mp h
  split at h
  · cases h
  obtain ⟨nexthdr, -, h⟩ := Outcome.bind_eq_ok.mp h
  obtain ⟨payloadLen, -, h⟩ := Outcome.bind_eq_ok.mp h
  obtain ⟨v, -, h⟩ := Outcome.bind_eq_ok.mp h
  cases v with
  | none => cases h
  | some v =>
      dsimp only at h
      split at h
      · cases h
      · cases h
        rfl

theorem networkHeader_etype {walk : Nat → ExthdrWalk → Except Abort (Option ExthdrWalk)}
    {etype : Nat} (h : networkHeader walk etype pkt network len = .ok (some hd)) :
    etype = hd.protoNetwork.etype := by
  unfold networkHeader at h
  split at h
  case isTrue hip =>
    cases hheader : ipv4Header pkt network len with
    | error e =>
        rw [hheader] at h
        cases h
    | ok hd' =>
        rw [hheader] at h
        cases h
        obtain ⟨first, -, hheader⟩ := Outcome.bind_eq_ok.mp hheader
        obtain ⟨ipOff, -, hheader⟩ := Outcome.bind_eq_ok.mp hheader
        obtain ⟨ipP, -, hheader⟩ := Outcome.bind_eq_ok.mp hheader
        cases hheader
        exact hip
  case isFalse =>
    split at h
    case isTrue hip6 => rw [ipv6Header_protoNetwork h, hip6, ProtoNetwork.etype]
    case isFalse => cases h

/-- A datagram with a transport header, as it was parsed. -/
structure ParsedRaw (host : ByteOrder) (pkt : Bytes) (dg : Ipdg) (len : Nat) (hd : NetworkHeader) :
    Prop where
  place : dg.network + len = pkt.length
  lenNetwork : dg.lenNetwork = toUnsigned len
  header : networkHeader (exthdrsRaw host pkt dg.network len) dg.protoNetwork.etype pkt dg.network
    len = .ok (some hd)
  protoTransport : dg.protoTransport = hd.protoTransport
  payload : dg.transport ≠ none → hd.protoTransport = ipprotoUdp →
    udpPayload pkt hd.next hd.len = .ok (some (dg.payload, dg.lenPayload))

/-- A packet without a data link header starts with the network header. -/
theorem datalinkHeader_raw {etype : Nat}
    (h : datalinkHeader .raw pkt pkt.length = .ok (some (etype, network, len))) :
    network = 0 ∧ pkt ≠ [] := by
  unfold datalinkHeader at h
  dsimp only at h
  split at h
  · cases h
  · next hlong =>
      have hsize : iphdrLen = 20 := rfl
      refine ⟨?_, fun hnil => by rw [hnil, List.length_nil] at hlong; omega⟩
      obtain ⟨first, -, h⟩ := Outcome.bind_eq_ok.mp h
      split at h
      · cases h
        rfl
      · split at h
        · cases h
          rfl
        · cases h

theorem nmsgIpdgParsePcapRaw_parsed
    (h : nmsgIpdgParsePcapRaw host datalink pkt pkt.length = .ok (some dg)) :
    (∃ len hd, ParsedRaw host pkt dg len hd) ∧
      (datalink = .raw → dg.network = 0 ∧ pkt ≠ []) := by
  unfold nmsgIpdgParsePcapRaw at h
  obtain ⟨link, hlink, h⟩ := Outcome.bind_eq_ok.mp h
  match link with
  | none => cases h
  | some (etype, network, len) =>
      have hplace := datalinkHeader_place hlink
      have hraw : datalink = .raw → network = 0 ∧ pkt ≠ [] := by
        rintro rfl
        exact datalinkHeader_raw hlink
      dsimp only at h
      obtain ⟨header, hheader, h⟩ := Outcome.bind_eq_ok.mp h
      cases header with
      | none => cases h
      | some hd =>
          have hetype := networkHeader_etype hheader
          rw [hetype] at hheader
          dsimp only at h
          split at h
          · cases h
            exact ⟨⟨len, hd, hplace, rfl, hheader, rfl, fun hnone => absurd rfl hnone⟩, hraw⟩
          · obtain ⟨payload, hpayload, h⟩ := Outcome.bind_eq_ok.mp h
            match payload with
            | none => cases h
            | some (payload, n) =>
                cases h
                refine ⟨⟨len, hd, hplace, rfl, hheader, rfl, fun _ hudp => ?_⟩, hraw⟩
                rwa [transportPayloadRaw, if_pos hudp] at hpayload

/-- Behind the header of a packet of IPv4 or IPv6 there is the rest of it, and nothing is hidden. -/
theorem networkHeader_ends (hlen : network + len = pkt.length) (hcaptured : pkt.length < 4294967296)
    (hok : networkHeader (exthdrsRaw host pkt network len) net.etype pkt network len =
      .ok (some hd)) (hip : IsIpPacket net (pkt.drop network)) :
    hd.next + hd.len = pkt.length ∧ ShownFrom net network hd.next := by
  have hshows : Shows net pkt network len (pkt.drop network) :=
    EqOff.shows hlen (EqOff.refl _ _)
  obtain ⟨-, hbehind, -, -⟩ := networkHeader_shows hshows hok
  cases net with
  | inet =>
      obtain ⟨first, hfirst, -, hmin, hmax⟩ := hip
      have hfirst' : octetAt pkt (network + 0) = .ok first := by
        rw [← hshows.octetAt (visible_inet (Or.inl (by omega)))]
        exact hfirst
      rw [List.length_drop] at hmax
      simp only [networkHeader, ProtoNetwork.etype, if_true] at hok
      cases hheader : ipv4Header pkt network len with
      | error e =>
          rw [hheader] at hok
          cases hok
      | ok hd' =>
          rw [hheader] at hok
          cases hok
          obtain ⟨first', hfirst'', hheader⟩ := Outcome.bind_eq_ok.mp hheader
          obtain ⟨ipOff, -, hheader⟩ := Outcome.bind_eq_ok.mp hheader
          obtain ⟨ipP, -, hheader⟩ := Outcome.bind_eq_ok.mp hheader
          cases hheader
          rw [Nat.add_zero, hfirst''] at hfirst'
          cases hfirst'
          dsimp only
          refine ⟨?_, fun k hk => visible_inet (Or.inr (Or.inr (by omega)))⟩
          rw [subSize_of_le (by omega) (by omega)]
          omega
  | inet6 =>
      have hnext := hbehind rfl
      have hlocal := networkHeader_local hlen (exthdrsRaw_local host pkt [] network len)
        (by rwa [List.append_nil])
      exact ⟨hlocal.1.ipv6 (by decide), fun k hk => visible_inet6 (Or.inr (by omega))⟩

/-- **A packet is read back** just when no Fragment header was met in it. -/
theorem ipdgPayload_readsBack_iff (hpkt' : EqOff (Hidden dg.protoNetwork) (pkt.drop dg.network) pkt')
    (hparsed : ParsedRaw host pkt dg len hd) (hcaptured : pkt.length < 4294967296)
    (htransport : dg.transport ≠ none) (hudp : dg.protoTransport = ipprotoUdp)
    (hip : IsIpPacket dg.protoNetwork (pkt.drop dg.network)) :
    (∃ b, copyAt pkt dg.payload dg.lenPayload = .ok b ∧
      ipdgPayload host dg.protoNetwork.etype pkt' = .ok (.success, some b)) ↔
      hd.isFragment = false := by
  have hshows := EqOff.shows hparsed.place hpkt'
  have hudp' : hd.protoTransport = ipprotoUdp := hparsed.protoTransport.symm.trans hudp
  obtain ⟨hends, hshown⟩ := networkHeader_ends hparsed.place hcaptured hparsed.header hip
  constructor
  · rintro ⟨b, -, hread⟩
    apply Bool.of_not_eq_true
    intro hfrag
    rw [ipdgPayload_fragment hshows hparsed.header hfrag] at hread
    cases hread
  · intro hfrag
    exact ipdgPayload_shows hshows hcaptured hparsed.header hfrag hudp' hshown hends
      (hparsed.payload htransport hudp')

end Header

/-! ### The store of a run -/

section Run

variable {env : DnsqrEnv} {ctx ctx' : DnsqrCtx} {f : PcapFrame} {d : Datagram} {ts : Timespec}

/-- The datagram is the one that the fragments of the entry are put together to. -/
structure PutTogether (env : DnsqrEnv) (e : ReasmIpEntry BaseFrag) (d : Datagram) : Prop where
  entry : d.entry = some e
  octets : reasmAssemble e ipszMax = .ok d.pkt
  parsed : nmsgIpdgParsePcapRaw env.host .raw d.pkt d.pkt.length = .ok (some d.dg)

/-- The reassembly gets the packet from its network header on. A datagram is this packet, or what
the reassembly completed. -/
theorem doPacketDatagram_cases {r : Option Datagram}
    (h : doPacketDatagram env ctx f = .ok (r, ctx')) :
    (r = none ∧ ctx'.reasm = ctx.reasm) ∨ ∃ dg isFrag entry,
      nmsgIpdgParsePcapRaw env.host env.datalink f.data f.data.length = .ok (some dg) ∧
      reasmIpNext ctx.reasm (f.data.drop dg.network) dg.lenNetwork f.ts =
        .ok ((isFrag, entry), ctx'.reasm) ∧
      ∀ d, r = some d → d = ⟨f.data, dg, none⟩ ∨ ∃ e, entry = some e ∧ PutTogether env e d := by
  unfold doPacketDatagram at h
  split at h
  · cases h
    exact Or.inl ⟨rfl, rfl⟩
  · obtain ⟨parsed, hparsed, h⟩ := Outcome.bind_eq_ok.mp h
    cases parsed with
    | none =>
        cases h
        exact Or.inl ⟨rfl, rfl⟩
    | some dg =>
        dsimp only at h
        obtain ⟨⟨⟨isFrag, entry⟩, reasm⟩, hnext, h⟩ := Outcome.bind_eq_ok.mp h
        refine Or.inr ⟨dg, isFrag, entry, hparsed, ?_⟩
        match isFrag, entry with
        | false, entry =>
            cases h
            refine ⟨hnext, ?_⟩
            rintro d ⟨⟩
            exact Or.inl rfl
        | true, none =>
            cases h
            exact ⟨hnext, nofun⟩
        | true, some e =>
            obtain ⟨newPkt, hnewPkt, h⟩ := Outcome.bind_eq_ok.mp h
            obtain ⟨whole, hwhole, h⟩ := Outcome.bind_eq_ok.mp h
            cases whole with
            | none =>
                cases h
                exact ⟨hnext, nofun⟩
            | some dg =>
                obtain ⟨network, -, h⟩ := Outcome.bind_eq_ok.mp h
                split at h
                · cases h
                  refine ⟨hnext, ?_⟩
                  rintro d ⟨⟩
                  exact Or.inr ⟨e, rfl, rfl, hnewPkt, hwhole⟩
                · cases h
                  exact ⟨hnext, nofun⟩

theorem doPacketCapture_reasm {dnsqr : DnsQR} {flags : Nat} {m : Option DnsqrMessage}
    (h : doPacketCapture env ctx d dnsqr flags ts = .ok (m, ctx')) : ctx'.reasm = ctx.reasm := by
  unfold doPacketCapture at h
  split at h
  · split at h
    · obtain ⟨m', -, h⟩ := Outcome.bind_eq_ok.mp h
      cases h
      rfl
    · split at h
      · obtain ⟨ctx₁, hctx₁, h⟩ := Outcome.bind_eq_ok.mp h
        cases h
        unfold captureQuery at hctx₁
        obtain ⟨q, -, hctx₁⟩ := Outcome.bind_eq_ok.mp hctx₁
        obtain ⟨state, -, hctx₁⟩ := Outcome.bind_eq_ok.mp hctx₁
        cases hctx₁
        rfl
      · unfold captureResponse at h
        obtain ⟨r, -, h⟩ := Outcome.bind_eq_ok.mp h
        obtain ⟨⟨query, state⟩, -, h⟩ := Outcome.bind_eq_ok.mp h
        cases query with
        | none =>
            dsimp only at h
            split at h
            · cases h
              rfl
            · obtain ⟨m', -, h⟩ := Outcome.bind_eq_ok.mp h
              cases h
              rfl
        | some query =>
            dsimp only at h
            obtain ⟨merged, -, h⟩ := Outcome.bind_eq_ok.mp h
            obtain ⟨drop, -, h⟩ := Outcome.bind_eq_ok.mp h
            split at h
            · cases h
              rfl
            · obtain ⟨m', -, h⟩ := Outcome.bind_eq_ok.mp h
              cases h
              rfl
  · obtain ⟨m', -, h⟩ := Outcome.bind_eq_ok.mp h
    cases h
    rfl

/-- A packet keeps the store, and the entry it completes is filed. -/
theorem doPacketDatagram_filed (hfiled : FiledStore ctx.reasm) {r : Option Datagram}
    (h : doPacketDatagram env ctx f = .ok (r, ctx')) :
    FiledStore ctx'.reasm ∧ ∀ d e, r = some d → d.entry = some e → FiledEntry e := by
  rcases doPacketDatagram_cases h with ⟨rfl, hsame⟩ | ⟨dg, isFrag, entry, hparse, hnext, hcases⟩
  · exact ⟨hsame ▸ hfiled, nofun⟩
  · obtain ⟨len, hd, hparsed⟩ := (nmsgIpdgParsePcapRaw_parsed hparse).1
    have hcount : toUnsigned len ≤ len := Nat.mod_le _ _
    have hplace := hparsed.place
    have hlen : dg.lenNetwork ≤ (f.data.drop dg.network).length := by
      rw [hparsed.lenNetwork, List.length_drop]
      omega
    obtain ⟨hstore, hentry⟩ := hfiled.next hlen hnext
    refine ⟨hstore, fun d e hd he => ?_⟩
    rcases hcases d hd with rfl | ⟨e', he', hput⟩
    · cases he
    · rw [hput.entry] at he
      cases he
      exact hentry e he'

theorem dnsqrExpire_reasm {begin : Begin} (h : dnsqrExpire env ctx = .ok (begin, ctx')) :
    ctx'.reasm = ctx.reasm := by
  unfold dnsqrExpire at h
  obtain ⟨⟨expired, state⟩, -, h⟩ := Outcome.bind_eq_ok.mp h
  cases expired with
  | none =>
      cases h
      rfl
  | some dnsqr =>
      dsimp only at h
      obtain ⟨drop, -, h⟩ := Outcome.bind_eq_ok.mp h
      split at h
      · cases h
        rfl
      · obtain ⟨m, -, h⟩ := Outcome.bind_eq_ok.mp h
        cases h
        rfl

/-- **Step lemma.** A call keeps the store. -/
theorem captureStep_filed {s s' : DnsqrCtx × List PcapRead} {u : Unit}
    {out : Res × Option DnsqrMessage} (hfiled : FiledStore s.1.reasm)
    (h : captureStep env s u = .ok (out, s')) : FiledStore s'.1.reasm := by
  unfold captureStep dnsqrPktToPayload at h
  obtain ⟨⟨begin, ctx₁⟩, hexpire, h⟩ := Outcome.bind_eq_ok.mp h
  have hfiled₁ : FiledStore ctx₁.reasm := dnsqrExpire_reasm hexpire ▸ hfiled
  cases begin with
  | message m =>
      cases h
      exact hfiled₁
  | eof =>
      cases h
      exact hfiled₁
  | read =>
      dsimp only at h
      split at h
      case h_1 f _ =>
        obtain ⟨⟨m, ctx₂⟩, hpacket, h⟩ := Outcome.bind_eq_ok.mp h
        cases h
        unfold doPacket at hpacket
        obtain ⟨⟨r, ctx₃⟩, hdatagram, hpacket⟩ := Outcome.bind_eq_ok.mp hpacket
        have hfiled₃ := (doPacketDatagram_filed hfiled₁ hdatagram).1
        cases r with
        | none =>
            cases hpacket
            exact hfiled₃
        | some d =>
            obtain ⟨record, -, hpacket⟩ := Outcome.bind_eq_ok.mp hpacket
            match record with
            | none =>
                cases hpacket
                exact hfiled₃
            | some (dnsqr, flags) =>
                dsimp only at hpacket
                rw [doPacketCapture_reasm hpacket]
                exact hfiled₃
      case h_2 =>
        cases h
        exact hfiled₁
      case h_3 =>
        cases h
        exact hfiled₁
      case h_4 =>
        cases h
        exact hfiled₁

/-- The module comes to the context on some capture. -/
def Reached (env : DnsqrEnv) (ctx : DnsqrCtx) : Prop :=
  ∃ maxValues queryTimeout captureQr captureRd zeroResolverAddress qnamesExclude qnamesInclude,
    ∃ (reads : List PcapRead) (n : Nat) (outs : List (Res × Option DnsqrMessage))
      (rest : List PcapRead),
      run (captureStep env) (dnsqrInit maxValues queryTimeout captureQr captureRd
        zeroResolverAddress qnamesExclude qnamesInclude, reads) (List.replicate n ()) =
        .ok (outs, ctx, rest)

theorem Reached.filed (h : Reached env ctx) : FiledStore ctx.reasm := by
  obtain ⟨_, _, _, _, _, _, _, reads, n, outs, rest, hrun⟩ := h
  have hstep : ∀ (s : DnsqrCtx × List PcapRead) (u : Unit) (out : Res × Option DnsqrMessage)
      (s' : DnsqrCtx × List PcapRead), FiledStore s.1.reasm →
      captureStep env s u = .ok (out, s') → FiledStore s'.1.reasm :=
    fun _ _ _ _ hfiled hcall => captureStep_filed hfiled hcall
  exact run_invariant hstep reasmIpNew_filed hrun

end Run

/-! ### Entries -/

section Entry

variable {id : ReasmId} {f : BaseFrag} {lastFrag : Bool} {net : ProtoNetwork}
  {e : ReasmIpEntry BaseFrag} {out buf : Bytes} {k total : Nat}

/-- What is kept of a packet starts as the packet does. -/
theorem octetAt_of_take {packet data : Bytes} {n i : Nat} {b : UInt8} (hdata : data = packet.take n)
    (h : octetAt data i = .ok b) : octetAt packet i = .ok b := by
  rw [hdata] at h
  have hpast := octetAt_extends (packet.take n) (packet.drop n) i b h
  rwa [List.take_append_drop] at hpast

/-- A stored packet is of the version of its datagram, and where its payload starts. -/
theorem ParsedFrom.version (h : ParsedFrom id f lastFrag) :
    (id.protoNetwork = .inet ∧ (f.len = 0 → f.dataOffset ≤ f.data.length) ∧
        ∀ first, octetAt f.data 0 = .ok first → ipV first = 4 ∧ f.dataOffset = 4 * ipHl first) ∨
      (id.protoNetwork = .inet6 ∧ f.Sound ∧ ∃ first, octetAt f.data 0 = .ok first ∧ ipV first = 6) := by
  obtain ⟨packet, len, ts, -, h⟩ := h
  obtain ⟨first, hfirst, ⟨hv, f', hf', hp⟩ |
    ⟨hv, -, frag, ident, last, src, dst, -, hf', -, hp⟩⟩ := reasmParsePacket_ok h
  · cases hp
    obtain ⟨_, ipLen, first', data, _, _, _, _, -, hipLen, -, hfirst', hdata, -, -, -, rfl⟩ :=
      parseIpv4Fragment_ok hf'
    rw [hfirst] at hfirst'
    cases hfirst'
    obtain ⟨htake, hle⟩ := copyAt_eq_take hdata
    refine Or.inl ⟨rfl, fun hempty => ?_, fun first' hfirst' => ?_⟩
    · dsimp only at hempty ⊢
      have hlt := loadNet16_lt hipLen
      have hnibble : ipHl first < 16 := Nat.mod_lt _ (by decide)
      rw [htake, List.length_take, Nat.min_eq_left hle]
      unfold subUnsigned at hempty
      omega
    · rw [octetAt_of_take htake hfirst'] at hfirst
      cases hfirst
      exact ⟨hv, rfl⟩
  · cases hp
    obtain ⟨nxt, plen, offset, lastNxt, ip6fNxt, offlg, data, -, -, hheader, hfits, -, -, -, hdata, -,
      rfl⟩ := baseFragFromIpv6_ok hf'
    obtain ⟨htake, hle⟩ := copyAt_eq_take hdata
    have hstart : 40 ≤ offset := fragHeader_start _ _ _ _ hheader
    have hlen : data.length = (plen + 40) % 65536 := by
      rw [htake, List.length_take, Nat.min_eq_left hle]
    obtain ⟨first', hfirst'⟩ := octetAt_ok (show 0 < data.length by omega)
    have hsame := octetAt_of_take htake hfirst'
    rw [hfirst] at hsame
    cases hsame
    refine Or.inr ⟨rfl, ⟨?_, ?_⟩, first, hfirst', hv⟩
    · dsimp only
      omega
    · dsimp only
      omega

/-- The version of a stored packet, and the length of its header. -/
theorem ParsedFrom.header (h : ParsedFrom id f lastFrag) {first : UInt8}
    (hfirst : octetAt f.data 0 = .ok first) :
    (ipV first = 4 ∧ id.protoNetwork = .inet ∧ f.dataOffset = 4 * ipHl first) ∨
      (ipV first = 6 ∧ id.protoNetwork = .inet6 ∧ f.Sound) := by
  rcases h.version with ⟨hid, -, hfour⟩ | ⟨hid, hsound, first', hfirst', hv⟩
  · obtain ⟨hv, hoffset⟩ := hfour first hfirst
    exact Or.inl ⟨hv, hid, hoffset⟩
  · rw [hfirst] at hfirst'
    cases hfirst'
    exact Or.inr ⟨hv, hid, hsound⟩

/-- A stored packet of IPv4 or IPv6 is of the version of its entry, and its header is whole. -/
theorem ParsedFrom.sound (h : ParsedFrom id f lastFrag) (hip : IsIpPacket net f.data) :
    net = id.protoNetwork ∧ f.Sound := by
  cases net with
  | inet =>
      obtain ⟨first, hfirst, hv, hmin, hmax⟩ := hip
      rcases h.header hfirst with ⟨-, hid, hoffset⟩ | ⟨hsix, -, -⟩
      · exact ⟨hid.symm, by omega, by omega⟩
      · omega
  | inet6 =>
      obtain ⟨first, hfirst, hv⟩ := hip
      rcases h.header hfirst with ⟨hfour, -, -⟩ | ⟨-, hid, hsound⟩
      · omega
      · exact ⟨hid.symm, hsound⟩

theorem getElem?_of_writeAt {src : Bytes} {i : Nat} (h : writeAt buf i src = .ok out)
    (hk : k < i ∨ i + src.length ≤ k) : out[k]? = buf[k]? := by
  rw [getElem?_of_write (writeAt_eq_ok.mp h), if_neg (by omega)]

/-- The octets in front of all fragments are kept. -/
theorem joinFragments_front {offset0 : Nat} {frags : List BaseFrag} :
    ∀ {buf : Bytes}, joinFragments buf offset0 frags = .ok out →
      (∀ f ∈ frags, k < offset0 + f.offset) → out[k]? = buf[k]? := by
  induction frags with
  | nil =>
      rintro buf ⟨⟩ -
      rfl
  | cons f rest ih =>
      intro buf h hk
      rw [joinFragments] at h
      obtain ⟨src, -, h⟩ := Outcome.bind_eq_ok.mp h
      obtain ⟨buf', hbuf', h⟩ := Outcome.bind_eq_ok.mp h
      rw [ih h fun g hg => hk g (List.mem_cons_of_mem _ hg)]
      exact getElem?_of_writeAt hbuf' (Or.inl (hk f (List.mem_cons_self ..)))

/-- The octets of a header that are not its length, its fragment fields and its checksum are kept. -/
theorem finishIpv4_keeps (h : finishIpv4 buf total = .ok out)
    (hk : k < 2 ∨ 4 ≤ k ∧ k < 6 ∨ 8 ≤ k ∧ k < 10 ∨ 12 ≤ k) : out[k]? = buf[k]? := by
  have htwo : (Octets.beBytes 2 total).length = 2 := Octets.length_beBytes 2 total
  unfold finishIpv4 at h
  obtain ⟨first, -, h⟩ := Outcome.bind_eq_ok.mp h
  obtain ⟨b₁, h₁, h⟩ := Outcome.bind_eq_ok.mp h
  obtain ⟨b₂, h₂, h⟩ := Outcome.bind_eq_ok.mp h
  obtain ⟨b₃, h₃, h⟩ := Outcome.bind_eq_ok.mp h
  obtain ⟨sum, -, h⟩ := Outcome.bind_eq_ok.mp h
  rw [getElem?_of_writeAt h (by rw [Octets.length_beBytes]; omega),
    getElem?_of_writeAt h₃ (by rw [List.length_cons, List.length_singleton]; omega),
    getElem?_of_writeAt h₂ (by rw [List.length_cons, List.length_singleton]; omega),
    getElem?_of_writeAt h₁ (by rw [htwo]; omega)]

/-! The header of a datagram of IPv4. -/

theorem headerLen_inet (hid : id.protoNetwork = .inet) (n : Nat) : headerLen id n = n := by
  cases id with
  | ipv4 => rfl
  | ipv6 => cases hid

theorem restoreNxt_inet (hid : id.protoNetwork = .inet) (first : BaseFrag) :
    restoreNxt id first buf = .ok buf := by
  cases id with
  | ipv4 => rfl
  | ipv6 => cases hid

theorem finishHeader_inet (hid : id.protoNetwork = .inet) :
    finishHeader id buf total = finishIpv4 buf total := by
  cases id with
  | ipv4 => rfl
  | ipv6 => cases hid

theorem KeptFrag.inet (h : KeptFrag id f) (hid : id.protoNetwork = .inet) {octet : UInt8}
    (hoctet : f.data.head? = some octet) : f.dataOffset = 4 * ipHl octet := by
  cases id with
  | ipv4 src dst ident proto => exact h.ipv4 _ _ _ _ rfl octet hoctet
  | ipv6 => cases hid

/-- What is put together of an IPv4 datagram: the header of the first packet goes into the buffer,
the payloads go behind it, and the header is corrected. -/
theorem fillPacket_inet {first : BaseFrag} (hid : e.id.protoNetwork = .inet)
    (h : fillPacket e first total buf = .ok out) :
    ∃ header b₁ b₂, copyAt first.data 0 first.dataOffset = .ok header ∧
      writeAt buf 0 header = .ok b₁ ∧ joinFragments b₁ first.dataOffset e.frags = .ok b₂ ∧
      finishIpv4 b₂ total = .ok out := by
  unfold fillPacket at h
  rw [headerLen_inet hid] at h
  obtain ⟨header, hheader, h⟩ := Outcome.bind_eq_ok.mp h
  obtain ⟨b₁, h₁, h⟩ := Outcome.bind_eq_ok.mp h
  obtain ⟨_, hsame, h⟩ := Outcome.bind_eq_ok.mp h
  rw [restoreNxt_inet hid] at hsame
  cases hsame
  obtain ⟨b₂, h₂, h⟩ := Outcome.bind_eq_ok.mp h
  rw [finishHeader_inet hid] at h
  exact ⟨header, b₁, b₂, hheader, h₁, h₂, h⟩

/-- The header of an IPv4 datagram is that of the first packet, but for what is corrected. -/
theorem fillPacket_header {first : BaseFrag} (hid : e.id.protoNetwork = .inet)
    (h : fillPacket e first total buf = .ok out) (hk : k < first.dataOffset)
    (hplain : k < 2 ∨ 4 ≤ k ∧ k < 6 ∨ 8 ≤ k ∧ k < 10 ∨ 12 ≤ k) : out[k]? = first.data[k]? := by
  obtain ⟨header, b₁, b₂, hheader, h₁, h₂, h⟩ := fillPacket_inet hid h
  obtain ⟨htake, hle⟩ := copyAt_eq_take hheader
  rw [finishIpv4_keeps h hplain, joinFragments_front h₂ fun f _ => Nat.lt_add_right _ hk]
  have hlen : header.length = first.dataOffset := by
    rw [htake, List.length_take, Nat.min_eq_left hle]
  rw [getElem?_of_write (writeAt_eq_ok.mp h₁), if_pos (by omega), htake,
    List.getElem?_take_of_lt (by omega), Nat.sub_zero]

/-- What is put together of IPv4 packets has the header of the first. -/
theorem reasmAssemble_isIpPacket (h : CompleteEntry e) (hid : e.id.protoNetwork = .inet)
    (hip : ∀ f ∈ e.frags, IsIpPacket .inet f.data) (hsound : AllSound e)
    (hok : reasmAssemble e ipszMax = .ok out) (hne : out ≠ []) : IsIpPacket .inet out := by
  obtain ⟨first, rest, hlist⟩ := List.exists_cons_of_ne_nil h.frags
  have hmem : first ∈ e.frags := hlist ▸ List.mem_cons_self ..
  obtain ⟨octet, hoctet, hv, hmin, hmax⟩ := hip first hmem
  obtain ⟨hpos, -⟩ := h.len_bounds
  have hlo := (hsound first hmem).1
  have hdata : first.data[0]? = some octet := octetAt_eq_ok.mp hoctet
  have hhl : first.dataOffset = 4 * ipHl octet :=
    (h.stores first hmem).inet hid (by rw [List.head?_eq_getElem?, hdata])
  have htotal := assembledLen_eq hlist
  rw [headerLen_inet hid] at htotal
  rw [reasmAssemble_eq hlist h.assembledLen_lt] at hok
  split at hok
  · cases hok
    exact absurd rfl hne
  · next hfits =>
      cases hfill : fillPacket e first (assembledLen e) (List.replicate ipszMax 0) with
      | error a =>
          rw [hfill] at hok
          cases hok
      | ok b =>
          rw [hfill] at hok
          cases hok
          have hlen := (fillPacket_length hfill).1
          rw [List.length_replicate] at hlen
          have hstart : b[0]? = some octet :=
            (fillPacket_header hid hfill (by omega) (Or.inl (by decide))).trans hdata
          have hsize : ipszMax = 65536 := rfl
          refine ⟨octet, ?_, hv, hmin, ?_⟩
          · rw [octetAt, List.getElem?_take_of_lt (by omega), hstart]
          · rw [List.length_take]
            omega

theorem reasmAssemble_length_le (h : CompleteEntry e) {n : Nat} (hok : reasmAssemble e n = .ok out) :
    out.length ≤ n := by
  obtain ⟨first, rest, hlist⟩ := List.exists_cons_of_ne_nil h.frags
  rw [reasmAssemble_eq hlist h.assembledLen_lt] at hok
  split at hok
  · cases hok
    exact Nat.zero_le _
  · cases hfill : fillPacket e first (assembledLen e) (List.replicate n 0) with
    | error a =>
        rw [hfill] at hok
        cases hok
    | ok b =>
        rw [hfill] at hok
        cases hok
        exact (List.length_take_le _ b).trans (by omega)

end Entry

end Nmsg

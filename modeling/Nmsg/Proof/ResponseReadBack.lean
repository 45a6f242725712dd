import Nmsg.Proof.ResponseEntry
import Nmsg.Proof.TableRoom

/-!
# Reading a response back

The payload that `do_packet` parsed is read back from the message, unless the packet has a Fragment
header that the capture looked behind, or no packet that was kept says where the datagram ends.
-/

namespace Nmsg

open ReasmFrag Tiling StepRun Memory

section Entry

variable {net : ProtoNetwork} {e : ReasmIpEntry BaseFrag} {out : Bytes}

/-! ### What is read back -/

/-- One of the packets that the entry kept is marked as the last. -/
def MarkedLast (e : ReasmIpEntry BaseFrag) : Prop :=
  ∃ f ∈ e.frags, ∃ p, reasmParsePacket f.data (toUnsigned f.data.length) f.ts = .ok (some p) ∧
    p.lastFrag = true

theorem FiledEntry.markedLast_iff (h : FiledEntry e) (hsound : AllSound e) :
    MarkedLast e ↔ HasLast e := by
  constructor
  · rintro ⟨f, hf, p, hp, hlast⟩
    obtain ⟨last, hparsed⟩ := h.stores f hf
    obtain ⟨id', -, hparse⟩ := hparsed.reread (hsound f hf) (EqOff.refl _ _) f.ts
    rw [hparse] at hp
    cases hp
    exact ⟨f, hf, hlast ▸ hparsed⟩
  · rintro ⟨f, hf, hparsed⟩
    obtain ⟨id', -, hparse⟩ := hparsed.reread (hsound f hf) (EqOff.refl _ _) f.ts
    exact ⟨f, hf, _, hparse, rfl⟩

variable {host : ByteOrder} {dnsqr : DnsQR} {pkt : Bytes} {pkts : List Bytes} {frags : List BaseFrag}

theorem dnsqrGetResponse_single (hip : dnsqr.responseIp.length = net.addressLen)
    (hpkt : dnsqr.responsePacket = [pkt]) :
    dnsqrGetResponse host dnsqr 0 = ipdgPayload host net.etype pkt := by
  have hne : dnsqr.responseIp ≠ [] := by
    intro hnil
    rw [hnil] at hip
    cases net <;> cases hip
  rw [dnsqrGetResponse, if_neg (by tauto), hpkt]
  dsimp only
  cases net with
  | inet =>
      have hfour : dnsqr.responseIp.length = 4 := hip
      rw [if_pos hfour, ProtoNetwork.etype]
  | inet6 =>
      have hsixteen : dnsqr.responseIp.length = 16 := hip
      rw [if_neg (by omega), if_pos hsixteen, ProtoNetwork.etype]

theorem dnsqrGetResponse_fragmented (hip : dnsqr.responseIp.length = net.addressLen)
    (hpkts : 2 ≤ dnsqr.responsePacket.length) :
    dnsqrGetResponse host dnsqr 0 = fragmentedResponse host dnsqr := by
  have hne : dnsqr.responseIp ≠ [] := by
    intro hnil
    rw [hnil] at hip
    cases net <;> cases hip
  rw [dnsqrGetResponse, if_neg (by tauto)]
  match h : dnsqr.responsePacket with
  | [] =>
      rw [h] at hpkts
      cases hpkts
  | [pkt] =>
      rw [h, List.length_singleton] at hpkts
      omega
  | _ :: _ :: _ => rfl

theorem Veiled.map_ts (h : Veiled net frags pkts) :
    (List.zipWith BaseFrag.withPacket frags pkts).map BaseFrag.ts = frags.map BaseFrag.ts := by
  induction h with
  | nil => rfl
  | cons _ _ ih =>
      rw [List.zipWith_cons_cons, List.map_cons, List.map_cons, ih]
      rfl

/-- With a packet marked as the last, the datagram is put together again. -/
theorem fragmentedResponse_last (h : FiledEntry e) (hsound : AllSound e) (hhas : HasLast e)
    (hne : e.frags ≠ []) (hout : reasmAssemble e ipszMax = .ok out) (houtne : out ≠ [])
    (hpkts : Veiled e.id.protoNetwork e.frags dnsqr.responsePacket)
    (hsec : dnsqr.responseTimeSec = (e.frags.map BaseFrag.ts).map Timespec.sec)
    (hnsec : dnsqr.responseTimeNsec = (e.frags.map BaseFrag.ts).map Timespec.nsec) :
    ∃ out', EqOff (Hidden e.id.protoNetwork) out out' ∧
      fragmentedResponse host dnsqr = ipdgPayload host e.id.protoNetwork.etype out' := by
  have hall := h.fragsOf hsound hne hpkts
  obtain ⟨e', p', hloop, hreceived, -, hthese, hnet⟩ :=
    rereadFragments_received hall (h.readsAs hsound hhas hpkts)
      (received_init hall (.ipv4 [] [] 0 0) 0 0) (List.Sublist.refl _) (fun _ _ => rfl)
  obtain ⟨hcomplete, hfrags, hlen⟩ := hreceived.complete hall hthese
  have hvisible : ∀ f ∈ e.frags, ∀ k, f.dataOffset ≤ k → ¬ Hidden e.id.protoNetwork k :=
    fun f hf => (h.kept hsound hf).visible (hsound f hf)
  obtain ⟨out', hout', heq⟩ :=
    reasmAssemble_veiled (hnet hall.nonempty) hfrags hlen hpkts hvisible hout
  have hne' : out' ≠ [] := by
    intro hnil
    have hzero := heq.length
    rw [hnil, List.length_nil] at hzero
    exact houtne (List.length_eq_zero_iff.mp hzero.symm)
  have hsec' : dnsqr.responseTimeSec =
      (List.zipWith BaseFrag.withPacket e.frags dnsqr.responsePacket).map fun g => g.ts.sec := by
    rw [hsec, ← hpkts.map_ts, List.map_map]
    rfl
  have hnsec' : dnsqr.responseTimeNsec =
      (List.zipWith BaseFrag.withPacket e.frags dnsqr.responsePacket).map fun g => g.ts.nsec := by
    rw [hnsec, ← hpkts.map_ts, List.map_map]
    rfl
  refine ⟨out', heq, ?_⟩
  rw [fragmentedResponse, hsec', hnsec', hloop]
  simp only [bind, Except.bind, hcomplete, if_true, hout', if_neg hne',
    hnet hall.nonempty]

/-- Without one the datagram is not complete. -/
theorem fragmentedResponse_unmarked (h : FiledEntry e) (hsound : AllSound e) (hhas : ¬ HasLast e)
    (hpkts : Veiled e.id.protoNetwork e.frags dnsqr.responsePacket)
    (hsec : dnsqr.responseTimeSec = (e.frags.map BaseFrag.ts).map Timespec.sec)
    (hnsec : dnsqr.responseTimeNsec = (e.frags.map BaseFrag.ts).map Timespec.nsec) :
    ∃ res, fragmentedResponse host dnsqr = .ok (res, none) := by
  have hfrags : ∀ f ∈ e.frags, f.Sound ∧ ParsedFrom e.id f false := by
    intro f hf
    obtain ⟨last, hparsed⟩ := h.stores f hf
    cases last with
    | false => exact ⟨hsound f hf, hparsed⟩
    | true => exact absurd ⟨f, hf, hparsed⟩ hhas
  obtain ⟨r, hloop, hopen⟩ :=
    rereadFragments_unknown hpkts (counting_init (.ipv4 [] [] 0 0) 0 0) rfl rfl hfrags
  rw [List.map_map] at hsec hnsec
  rw [fragmentedResponse, hsec, hnsec]
  change ∃ res, (rereadFragments _ _ _ _ >>= _) = _
  rw [show (e.frags.map (Timespec.sec ∘ BaseFrag.ts)) = e.frags.map fun f => f.ts.sec from rfl,
    show (e.frags.map (Timespec.nsec ∘ BaseFrag.ts)) = e.frags.map fun f => f.ts.nsec from rfl,
    hloop]
  cases r with
  | none => exact ⟨.memfail, rfl⟩
  | some e' =>
      refine ⟨.failure, ?_⟩
      simp only [bind, Except.bind, hopen e' rfl, Bool.false_eq_true, if_false]
      rfl

end Entry

/-- No Fragment header was met where the datagram was parsed. -/
def Datagram.Unmarked (host : ByteOrder) (d : Datagram) : Prop :=
  ∃ hd, networkHeader (exthdrsRaw host d.pkt d.dg.network (d.pkt.length - d.dg.network))
      d.dg.protoNetwork.etype d.pkt d.dg.network (d.pkt.length - d.dg.network) = .ok (some hd) ∧
    hd.isFragment = false

/-- The parser that discards fragments misses the Fragment header of the packet, and comes upon the
payload of the datagram all the same. -/
def Datagram.MissedIn (host : ByteOrder) (d : Datagram) (pkt : Bytes) : Prop :=
  ∃ hd payload n b,
    networkHeader (exthdrsReasm host pkt 0 pkt.length) d.dg.protoNetwork.etype pkt 0 pkt.length =
      .ok (some hd) ∧
    hd.isFragment = false ∧ hd.protoTransport = ipprotoUdp ∧
    udpPayload pkt hd.next hd.len = .ok (some (payload, n)) ∧
    copyAt pkt payload n = .ok b ∧ copyAt d.pkt d.dg.payload d.dg.lenPayload = .ok b

/-- What it takes for a datagram to be read back. -/
def Datagram.Rereadable (host : ByteOrder) (d : Datagram) : Prop :=
  match d.entry with
  | none => d.Unmarked host
  | some entry =>
      match entry.frags with
      | [f] => d.MissedIn host f.data
      | _ => MarkedLast entry ∧ d.Unmarked host

/-- `nmsg__base__dns_qr__pack` and `nmsg__base__dns_qr__unpack`. -/
structure DnsqrCodec where
  pack : DnsQR → Bytes
  unpack : Bytes → Option DnsQR

/-- The message, encoded and decoded, gives back the payload of the datagram. -/
def Datagram.ReadsBack (host : ByteOrder) (codec : DnsqrCodec) (d : Datagram) (dnsqr : DnsQR) :
    Prop :=
  ∃ payload decoded, copyAt d.pkt d.dg.payload d.dg.lenPayload = .ok payload ∧
    codec.unpack (codec.pack dnsqr) = some decoded ∧
    dnsqrGetResponse host decoded 0 = .ok (.success, some payload)

section ReadBack

variable {env : DnsqrEnv} {ctx ctx₁ ctx₂ ctx' : DnsqrCtx} {f : PcapFrame} {d : Datagram}
  {host : ByteOrder} {pkt pkt' : Bytes} {len : Nat} {hd : NetworkHeader} {m : DnsqrMessage}

theorem ParsedRaw.unmarked_iff (h : ParsedRaw host d.pkt d.dg len hd) :
    d.Unmarked host ↔ hd.isFragment = false := by
  have hplace := h.place
  have hlen : d.pkt.length - d.dg.network = len := by omega
  rw [Datagram.Unmarked, hlen]
  constructor
  · rintro ⟨hd', hheader, hfrag⟩
    rw [h.header] at hheader
    cases hheader
    exact hfrag
  · exact fun hfrag => ⟨hd, h.header, hfrag⟩

theorem ParsedRaw.isIpPacket6 (h : ParsedRaw host pkt d.dg len hd) (hzero : d.dg.network = 0)
    (hnet : d.dg.protoNetwork = .inet6) : IsIpPacket .inet6 pkt := by
  have hheader := h.header
  have hetype : ¬ ethertypeIpv6 = ethertypeIp := by decide
  rw [hnet, hzero] at hheader
  simp only [networkHeader, ProtoNetwork.etype, if_neg hetype, if_true] at hheader
  unfold ipv6Header at hheader
  split at hheader
  · cases hheader
  obtain ⟨first, hfirst, hheader⟩ := Outcome.bind_eq_ok.mp hheader
  split at hheader
  · cases hheader
  · next hv => exact ⟨first, hfirst, not_not.mp hv⟩

theorem missedIn_iff :
    d.MissedIn host pkt ↔ ∃ b, copyAt d.pkt d.dg.payload d.dg.lenPayload = .ok b ∧
      ipdgPayload host d.dg.protoNetwork.etype pkt = .ok (.success, some b) := by
  constructor
  · rintro ⟨hd, payload, n, b, hheader, hfrag, hudp, hpayload, hcopy, hb⟩
    refine ⟨b, hb, ?_⟩
    rw [ipdgPayload, nmsgIpdgParse_eq hheader, if_neg (by rw [hfrag]; exact Bool.false_ne_true),
      if_pos hudp]
    simp only [hpayload, bind, Except.bind, withTransport, hcopy]
    rfl
  · rintro ⟨b, hb, hread⟩
    rw [ipdgPayload] at hread
    cases hheader : networkHeader (exthdrsReasm host pkt 0 pkt.length) d.dg.protoNetwork.etype pkt 0
        pkt.length with
    | error a =>
        rw [nmsgIpdgParse, hheader] at hread
        cases hread
    | ok r =>
        cases r with
        | none =>
            rw [nmsgIpdgParse, hheader] at hread
            cases hread
        | some hd =>
            rw [nmsgIpdgParse_eq hheader] at hread
            split at hread
            · cases hread
            next hfrag =>
              split at hread
              · next hudp =>
                  obtain ⟨dg, hdg, hread⟩ := Outcome.bind_eq_ok.mp hread
                  obtain ⟨payload, hpayload, hdg⟩ := Outcome.bind_eq_ok.mp hdg
                  cases payload with
                  | none =>
                      cases hdg
                      cases hread
                  | some out =>
                      obtain ⟨payload, n⟩ := out
                      cases hdg
                      obtain ⟨b', hcopy, hread⟩ := Outcome.bind_eq_ok.mp hread
                      cases hread
                      exact ⟨hd, payload, n, b, hheader, Bool.of_not_eq_true hfrag, hudp, hpayload,
                        hcopy, hb⟩
              · cases hread

/-- A datagram that came whole is read back when no Fragment header was met. -/
theorem whole_readsBack_iff (hparsed : ParsedRaw host d.pkt d.dg len hd)
    (hcaptured : d.pkt.length < 4294967296) (htransport : d.dg.transport ≠ none)
    (hudp : d.dg.protoTransport = ipprotoUdp) (hentry : d.entry = none)
    (hip : ∀ p ∈ d.packets, IsIpPacket d.dg.protoNetwork p) {dnsqr : DnsQR}
    (hlen : dnsqr.responseIp.length = d.dg.protoNetwork.addressLen)
    (hpackets : List.Forall₂ (EqOff (Hidden d.dg.protoNetwork)) d.packets dnsqr.responsePacket) :
    (∃ b, copyAt d.pkt d.dg.payload d.dg.lenPayload = .ok b ∧
      dnsqrGetResponse host dnsqr 0 = .ok (.success, some b)) ↔ d.Rereadable host := by
  have hrereadable : d.Rereadable host ↔ d.Unmarked host := by rw [Datagram.Rereadable, hentry]
  have hlist : d.packets = [d.pkt.drop d.dg.network] := by rw [Datagram.packets, hentry]
  rw [hlist] at hip hpackets
  rw [hrereadable, hparsed.unmarked_iff]
  obtain ⟨pkt', rest, hpkt', hrest, hresponse⟩ := List.forall₂_cons_left_iff.mp hpackets
  rw [List.forall₂_nil_left_iff.mp hrest] at hresponse
  rw [dnsqrGetResponse_single hlen hresponse]
  exact ipdgPayload_readsBack_iff hpkt' hparsed hcaptured htransport hudp
    (hip _ (List.mem_singleton_self _))

/-- A datagram that was put together is read back when its packets say where it ends and no Fragment
header was met in it, or by way of a packet that does not look like a fragment. -/
theorem fragmented_readsBack_iff {e : ReasmIpEntry BaseFrag} (hfiled : FiledEntry e)
    (hput : PutTogether env e d) (htransport : d.dg.transport ≠ none)
    (hudp : d.dg.protoTransport = ipprotoUdp)
    (hip : ∀ p ∈ d.packets, IsIpPacket d.dg.protoNetwork p) {dnsqr : DnsQR} {ts : Timespec}
    (hlen : dnsqr.responseIp.length = d.dg.protoNetwork.addressLen)
    (hpackets : List.Forall₂ (EqOff (Hidden d.dg.protoNetwork)) d.packets dnsqr.responsePacket)
    (hsec : dnsqr.responseTimeSec = (d.times ts).map Timespec.sec)
    (hnsec : dnsqr.responseTimeNsec = (d.times ts).map Timespec.nsec) :
    (∃ b, copyAt d.pkt d.dg.payload d.dg.lenPayload = .ok b ∧
      dnsqrGetResponse env.host dnsqr 0 = .ok (.success, some b)) ↔ d.Rereadable env.host := by
  have hlist : d.packets = e.frags.map BaseFrag.data := by rw [Datagram.packets, hput.entry]
  have htimes : d.times ts = e.frags.map BaseFrag.ts := by rw [Datagram.times, hput.entry]
  rw [htimes] at hsec hnsec
  obtain ⟨⟨len, hd, hparsed⟩, hraw⟩ := nmsgIpdgParsePcapRaw_parsed hput.parsed
  obtain ⟨hzero, hne⟩ := hraw rfl
  have hip' : ∀ f ∈ e.frags, IsIpPacket d.dg.protoNetwork f.data := by
    intro f hf
    exact hip f.data (hlist ▸ List.mem_map_of_mem hf)
  have hfragsne : e.frags ≠ [] := by
    intro hnil
    have hok := hput.octets
    rw [reasmAssemble, hnil] at hok
    cases hok
  have hnet : e.id.protoNetwork = d.dg.protoNetwork := by
    obtain ⟨first, hfirst⟩ := List.exists_mem_of_ne_nil _ hfragsne
    obtain ⟨last, hlast⟩ := hfiled.stores first hfirst
    exact (hlast.sound (hip' first hfirst)).1.symm
  have hsound : AllSound e := by
    intro f hf
    obtain ⟨last, hlast⟩ := hfiled.stores f hf
    exact (hlast.sound (hip' f hf)).2
  have hveiled : Veiled e.id.protoNetwork e.frags dnsqr.responsePacket := by
    rw [hlist, List.forall₂_map_left_iff] at hpackets
    rw [hnet]
    exact hpackets
  rw [Datagram.Rereadable, hput.entry]
  dsimp only
  split
  case h_1 f hone =>
    have hf : f ∈ e.frags := hone ▸ List.mem_singleton_self f
    rw [hone] at hveiled
    obtain ⟨pkt', rest, hpkt', hrest, hresponse⟩ := List.forall₂_cons_left_iff.mp hveiled
    rw [List.forall₂_nil_left_iff.mp hrest] at hresponse
    have hshows : Shows e.id.protoNetwork f.data 0 f.data.length pkt' :=
      EqOff.shows (Nat.zero_add _) hpkt'
    have hwhole : e.id.protoNetwork = .inet → Ipv4HeaderWhole f.data := by
      intro hinet first hfirst
      have hpacket := hip' f hf
      rw [← hnet, hinet] at hpacket
      obtain ⟨first', hfirst', -, hmin, -⟩ := hpacket
      rw [hfirst] at hfirst'
      cases hfirst'
      exact hmin
    rw [dnsqrGetResponse_single hlen hresponse, ← hnet, ipdgPayload_veiled hshows hwhole,
      missedIn_iff, hnet]
  case h_2 hmany =>
    have htwo : 2 ≤ dnsqr.responsePacket.length := by
      rw [← hveiled.length_eq]
      rcases h : e.frags with _ | ⟨f, _ | ⟨g, frags⟩⟩
      · exact absurd h hfragsne
      · exact absurd h (hmany f)
      · exact Nat.le_add_left _ _
    rw [dnsqrGetResponse_fragmented hlen htwo, hfiled.markedLast_iff hsound, hparsed.unmarked_iff]
    by_cases hhas : HasLast e
    · obtain ⟨out', heq, hread⟩ : ∃ out', EqOff (Hidden e.id.protoNetwork) d.pkt out' ∧
          fragmentedResponse env.host dnsqr = ipdgPayload env.host e.id.protoNetwork.etype out' :=
        fragmentedResponse_last hfiled hsound hhas hfragsne hput.octets hne hveiled hsec hnsec
      have hcomplete := hfiled.complete hsound hfragsne
      have hcaptured := reasmAssemble_length_le hcomplete hput.octets
      have hsize : ipszMax = 65536 := rfl
      have hpacket : IsIpPacket d.dg.protoNetwork (d.pkt.drop d.dg.network) := by
        rw [hzero, List.drop_zero]
        cases hinet : d.dg.protoNetwork with
        | inet =>
            rw [hinet] at hip' hnet
            exact reasmAssemble_isIpPacket hcomplete hnet hip' hsound hput.octets hne
        | inet6 => exact hparsed.isIpPacket6 hzero hinet
      rw [hread, hnet]
      rw [hnet] at heq
      rw [ipdgPayload_readsBack_iff (by rwa [hzero, List.drop_zero]) hparsed (by omega)
        htransport hudp hpacket]
      exact ⟨fun h => ⟨hhas, h⟩, fun h => h.2⟩
    · obtain ⟨res, hread⟩ : ∃ res, fragmentedResponse env.host dnsqr = .ok (res, none) :=
        fragmentedResponse_unmarked hfiled hsound hhas hveiled hsec hnsec
      rw [hread]
      constructor
      · rintro ⟨b, -, h⟩
        cases h
      · exact fun h => absurd h.1 hhas

/-- The packets of a datagram are there, from the first octet of the header to the last. -/
theorem datagram_whole (hfiled : FiledStore ctx.reasm) (hcaptured : f.data.length < 4294967296)
    (hdatagram : doPacketDatagram env ctx f = .ok (some d, ctx'))
    (hip : ∀ p ∈ d.packets, IsIpPacket d.dg.protoNetwork p) : d.Whole := by
  have hentries := (doPacketDatagram_filed hfiled hdatagram).2 d
  refine ⟨fun hentry => ?_, fun e he g hg => ?_⟩
  · rcases doPacketDatagram_cases hdatagram with ⟨hnone, -⟩ | ⟨dg, isFrag, entry, hparse, -, hcases⟩
    · cases hnone
    rcases hcases d rfl with rfl | ⟨e, -, hput⟩
    · obtain ⟨len, hd, hparsed⟩ := (nmsgIpdgParsePcapRaw_parsed hparse).1
      have hplace := hparsed.place
      dsimp only
      rw [hparsed.lenNetwork, toUnsigned, Nat.mod_eq_of_lt (by omega), hplace]
    · rw [hput.entry] at hentry
      cases hentry
  · have hfiledEntry := hentries e rfl he
    have hpacket : ∀ g ∈ e.frags, IsIpPacket d.dg.protoNetwork g.data := by
      intro g hg
      apply hip
      rw [Datagram.packets, he]
      exact List.mem_map_of_mem hg
    have hsound : AllSound e := by
      intro g hg
      obtain ⟨last, hlast⟩ := hfiledEntry.stores g hg
      exact (hlast.sound (hpacket g hg)).2
    exact hfiledEntry.kept hsound hg

/-- **The stored response reads back** as what was captured, for every response message that a run of
the module builds, exactly when the datagram is one that can be read again. -/
theorem response_readsBack_iff (hreached : Reached env ctx)
    (hread : dnsqrExpire env ctx = .ok (.read, ctx₁)) (hcaptured : f.data.length < 4294967296)
    (hdatagram : doPacketDatagram env ctx₁ f = .ok (some d, ctx₂))
    (hip : ∀ p ∈ d.packets, IsIpPacket d.dg.protoNetwork p)
    (hmessage : doPacket env ctx₁ f = .ok (some m, ctx')) (hresponse : m.dnsqr.responsePacket ≠ [])
    (codec : DnsqrCodec) (hcodec : codec.unpack (codec.pack m.dnsqr) = some m.dnsqr) :
    d.ReadsBack env.host codec m.dnsqr ↔ d.Rereadable env.host := by
  have hfiled : FiledStore ctx₁.reasm := dnsqrExpire_reasm hread ▸ hreached.filed
  have hwhole := datagram_whole hfiled hcaptured hdatagram hip
  unfold doPacket at hmessage
  obtain ⟨parsed, hparsed, hmessage⟩ := Outcome.bind_eq_ok.mp hmessage
  rw [hdatagram] at hparsed
  cases hparsed
  obtain ⟨record, hrecord, hmessage⟩ := Outcome.bind_eq_ok.mp hmessage
  match record with
  | none => cases hmessage
  | some (dnsqr, flags) =>
      obtain ⟨hnew, htransport, hlen⟩ := (doPacketRecord_made env d).of_ok hrecord dnsqr flags rfl
      obtain ⟨hudp, r, hheld, hhas⟩ :=
        doPacketCapture_response hwhole hnew (fun hudp => (hlen hudp).2) hmessage hresponse
      have hip' : ∀ p ∈ r.responsePacket, IsIpPacket d.dg.protoNetwork p := by
        rw [hheld.packets]
        exact hip
      have hpackets := hhas.hides hip'
      rw [hheld.packets] at hpackets
      have hlen' : m.dnsqr.responseIp.length = d.dg.protoNetwork.addressLen := by
        rw [hhas.responseIp]
        exact hheld.responseIp
      have hdecoded : d.ReadsBack env.host codec m.dnsqr ↔
          ∃ b, copyAt d.pkt d.dg.payload d.dg.lenPayload = .ok b ∧
            dnsqrGetResponse env.host m.dnsqr 0 = .ok (.success, some b) := by
        constructor
        · rintro ⟨b, decoded, hcopy, hunpack, hget⟩
          rw [hcodec] at hunpack
          cases hunpack
          exact ⟨b, hcopy, hget⟩
        · rintro ⟨b, hcopy, hget⟩
          exact ⟨b, m.dnsqr, hcopy, hcodec, hget⟩
      rw [hdecoded]
      rcases doPacketDatagram_cases hdatagram with
        ⟨hnone, -⟩ | ⟨dg, isFrag, entry, hparse, -, hcases⟩
      · cases hnone
      rcases hcases d rfl with rfl | ⟨e, -, hput⟩
      · obtain ⟨len, hd, hparsed⟩ := (nmsgIpdgParsePcapRaw_parsed hparse).1
        exact whole_readsBack_iff hparsed hcaptured htransport hudp rfl hip hlen' hpackets
      · have hentry := (doPacketDatagram_filed hfiled hdatagram).2 d e rfl hput.entry
        exact fragmented_readsBack_iff hentry hput htransport hudp hip hlen' hpackets
          (hhas.sec.trans hheld.sec) (hhas.nsec.trans hheld.nsec)

end ReadBack

/-! ### A response that is read back, and one that is not -/

/-- A response without a question, from 10.0.0.2 to 10.0.0.1. -/
def sampleResponseOctets : Bytes :=
  [0x45, 0, 0, 40, 0, 1, 0, 0, 64, 17, 0, 0, 10, 0, 0, 2, 10, 0, 0, 1,
    0, 53, 0x30, 0x39, 0, 20, 0, 0, 0, 1, 0x81, 0x80, 0, 0, 0, 0, 0, 0, 0, 0]

def sampleResponse : DnsQR := { DnsQR.init with
  type := .udpUnsolicitedResponse
  queryIp := [10, 0, 0, 1]
  responseIp := [10, 0, 0, 2]
  proto := 17
  queryPort := 12345
  responsePort := 53
  id := 1
  rcode := some 0
  responsePacket := [sampleResponseOctets]
  responseTimeSec := [100]
  responseTimeNsec := [0]
  udpChecksum := some .absent }

/-- The octets this record is packed into. -/
def sampleResponsePacked : Bytes :=
  [0x08, 3, 0x12, 4, 10, 0, 0, 1, 0x1a, 4, 10, 0, 0, 2, 0x20, 17, 0x28, 0xb9, 0x60, 0x30, 53,
    0x38, 1, 0x58, 0, 0x7a, 40] ++ sampleResponseOctets ++
    [0x80, 0x01, 100, 0x8d, 0x01, 0, 0, 0, 0, 0xa8, 0x01, 1]

def sampleCodec : DnsqrCodec where
  pack := fun _ => sampleResponsePacked
  unpack := fun b => if b = sampleResponsePacked then some sampleResponse else none

def sampleInit : DnsqrCtx := dnsqrInit 1 60 none none false none none

/-- Each frame is the first of the capture. -/
def sampleCapture (octets : Bytes) : PcapFrame := ⟨octets, octets.length, ⟨100, 0⟩⟩

theorem sampleInit_reached : Reached sampleEnv sampleInit :=
  ⟨1, 60, none, none, false, none, none, [], 0, [], [], rfl⟩

/-- A response in an IPv6 packet with a Fragment header, the first and the last fragment at once. -/
def sampleLoneFragment : Bytes :=
  [0x60, 0, 0, 0, 0, 28, 44, 64] ++ List.replicate 15 0 ++ [2] ++ List.replicate 15 0 ++ [1] ++
    [17, 0, 0, 0, 0, 0, 0, 1, 0, 53, 0x30, 0x39, 0, 20, 0, 0, 0, 1, 0x81, 0x80, 0, 0, 0, 0, 0, 0,
      0, 0]

theorem dnsqrExpire_sampleInit : dnsqrExpire sampleEnv sampleInit = .ok (.read, sampleInit) := rfl

theorem exists_of_map {ε α β : Type} {x : Except ε α} {g : α → β} {b : β} (h : x.map g = .ok b) :
    ∃ a, x = .ok a ∧ g a = b := by
  cases x with
  | error e => cases h
  | ok a =>
      cases h
      exact ⟨a, rfl, rfl⟩

/-- The first frame of a capture makes a message of a datagram. -/
structure FirstMessage (frame : PcapFrame) (d : Datagram) (m : DnsqrMessage) : Prop where
  reached : Reached sampleEnv sampleInit
  read : dnsqrExpire sampleEnv sampleInit = .ok (.read, sampleInit)
  captured : frame.data.length < 4294967296
  datagram : ∃ ctx, doPacketDatagram sampleEnv sampleInit frame = .ok (some d, ctx)
  message : ∃ ctx, doPacket sampleEnv sampleInit frame = .ok (some m, ctx)

theorem firstMessage_of_eval {frame : PcapFrame} {packets : List Bytes} {dg : Ipdg} {dnsqr : DnsQR}
    (hcaptured : frame.data.length < 4294967296)
    (hdatagram : (doPacketDatagram sampleEnv sampleInit frame).map
      (fun r => r.1.map fun d => (d.packets, d.dg)) = .ok (some (packets, dg)))
    (hmessage : (doPacket sampleEnv sampleInit frame).map (fun r => r.1.map fun m => m.dnsqr) =
      .ok (some dnsqr)) :
    ∃ d m, FirstMessage frame d m ∧ d.packets = packets ∧ d.dg = dg ∧ m.dnsqr = dnsqr := by
  obtain ⟨⟨r, ctx⟩, hd, hsome⟩ := exists_of_map hdatagram
  obtain ⟨⟨r', ctx'⟩, hm, hsome'⟩ := exists_of_map hmessage
  obtain ⟨d, rfl, hshape⟩ := Option.map_eq_some_iff.mp hsome
  obtain ⟨m, rfl, hdnsqr⟩ := Option.map_eq_some_iff.mp hsome'
  cases hshape
  exact ⟨d, m, ⟨sampleInit_reached, dnsqrExpire_sampleInit, hcaptured, ⟨ctx, hd⟩, ⟨ctx', hm⟩⟩,
    rfl, rfl, hdnsqr⟩

theorem sampleResponse_readsBack : ∃ d m, FirstMessage (sampleCapture sampleResponseOctets) d m ∧
    m.dnsqr.responsePacket ≠ [] ∧ (∀ p ∈ d.packets, IsIpPacket d.dg.protoNetwork p) ∧
    sampleCodec.unpack (sampleCodec.pack m.dnsqr) = some m.dnsqr ∧
    (d.ReadsBack sampleEnv.host sampleCodec m.dnsqr ↔ d.Rereadable sampleEnv.host) := by
  obtain ⟨d, m, hfirst, hpackets, hdg, hdnsqr⟩ :=
    @firstMessage_of_eval (sampleCapture sampleResponseOctets) [sampleResponseOctets]
      ⟨.inet, 17, 40, 20, 12, 0, some 20, 28⟩ sampleResponse (by decide) (by decide +kernel)
      (by decide +kernel)
  have hip : ∀ p ∈ d.packets, IsIpPacket d.dg.protoNetwork p := by
    rw [hpackets, hdg]
    intro p hp
    obtain rfl := List.mem_singleton.mp hp
    exact ⟨0x45, rfl, by decide, by decide, by decide⟩
  have hresponse : m.dnsqr.responsePacket ≠ [] := by
    rw [hdnsqr]
    exact List.cons_ne_nil _ _
  have hcodec : sampleCodec.unpack (sampleCodec.pack m.dnsqr) = some m.dnsqr := by
    rw [hdnsqr]
    rfl
  obtain ⟨ctx, hdatagram⟩ := hfirst.datagram
  obtain ⟨ctx', hmessage⟩ := hfirst.message
  exact ⟨d, m, hfirst, hresponse, hip, hcodec, response_readsBack_iff hfirst.reached hfirst.read
    hfirst.captured hdatagram hip hmessage hresponse sampleCodec hcodec⟩

/-- An IPv6 packet that is the first and the last fragment at once makes a message that is not read
back. -/
theorem loneFragment_not_readsBack : ∃ d m, FirstMessage (sampleCapture sampleLoneFragment) d m ∧
    m.dnsqr.responsePacket ≠ [] ∧ (∀ p ∈ d.packets, IsIpPacket d.dg.protoNetwork p) ∧
    ∀ codec : DnsqrCodec, codec.unpack (codec.pack m.dnsqr) = some m.dnsqr →
      ¬ d.ReadsBack sampleEnv.host codec m.dnsqr := by
  obtain ⟨d, m, hfirst, hpackets, hdg, hdnsqr⟩ :=
    @firstMessage_of_eval (sampleCapture sampleLoneFragment) [sampleLoneFragment]
      ⟨.inet6, 17, 60, 20, 12, 0, some 40, 48⟩
      { DnsQR.init with
        type := .udpUnsolicitedResponse
        queryIp := List.replicate 15 0 ++ [1]
        responseIp := List.replicate 15 0 ++ [2]
        proto := 17
        queryPort := 12345
        responsePort := 53
        id := 1
        rcode := some 0
        responsePacket := [sampleLoneFragment]
        responseTimeSec := [100]
        responseTimeNsec := [0]
        udpChecksum := some .absent }
      (by decide) (by decide +kernel) (by decide +kernel)
  refine ⟨d, m, hfirst, ?_, ?_, ?_⟩
  · rw [hdnsqr]
    exact List.cons_ne_nil _ _
  · rw [hpackets, hdg]
    intro p hp
    obtain rfl := List.mem_singleton.mp hp
    exact ⟨0x60, rfl, by decide⟩
  · rintro codec hcodec ⟨payload, decoded, -, hdecoded, hget⟩
    rw [hcodec] at hdecoded
    cases hdecoded
    have hfailure : dnsqrGetResponse sampleEnv.host m.dnsqr 0 = .ok (.failure, none) := by
      rw [hdnsqr]
      decide +kernel
    rw [hfailure] at hget
    cases hget

end Nmsg

import Nmsg.Proof.FragParse
import Nmsg.Proof.ReasmStore
import Nmsg.Lib.StepRun

/-!
# The two copies of the reassembly

The library keeps of a fragment what the base module keeps, with one octet corrected. Fragments
that have no header in front of the Fragment header, and a length that fits 16 bits, are put
together to the same datagrams at the same steps by both copies.
-/

namespace Nmsg

/-- A fragment both copies read alike: no header stands in front of the Fragment header, and the
length of the packet fits 16 bits. -/
def FragPacket.Direct : FragPacket → Prop
  | .ipv4 .. => True
  | .ipv6 p .. => p.exts = [] ∧ 40 + p.plen < 65536

theorem FragPacket.Direct.fits {f : FragPacket} (h : f.Direct) : f.Fits := by
  cases f with
  | ipv4 => trivial
  | ipv6 => exact h.2

/-- What the library keeps of a fragment the base module keeps. Only a fragment of IPv6 has an
octet that announces its Fragment header. -/
def BaseFrag.toCore (frag : BaseFrag) : CoreFrag where
  len := frag.len
  offset := frag.offset
  dataOffset := frag.dataOffset
  data := if frag.lastNxt = 0 then frag.data else frag.data.set frag.lastNxt frag.ip6fNxt

theorem toCore_fragMap : FragMap BaseFrag.toCore := ⟨fun _ => rfl, fun _ => rfl⟩

/-- Fragments as the base module keeps those without headers in front of the Fragment header. -/
def BaseFrag.Direct (id : ReasmId) (frag : BaseFrag) : Prop :=
  match id with
  | .ipv4 .. => frag.lastNxt = 0
  | .ipv6 .. => frag.lastNxt = 6 ∧ frag.dataOffset = 48 ∧ 48 ≤ frag.data.length

theorem FragPacket.Direct.baseFrag {f : FragPacket} (h : f.Direct) (ts : Timespec) :
    (f.baseFrag ts).Direct f.id := by
  cases f with
  | ipv4 => rfl
  | ipv6 p =>
      obtain ⟨hexts, -⟩ := h
      refine ⟨?_, ?_, ?_⟩
      · simp only [FragPacket.baseFrag, Ipv6Fragment.baseFrag, hexts, announcedAt]
      · simp only [FragPacket.baseFrag, Ipv6Fragment.baseFrag, hexts, extLen, List.map_nil,
          List.sum_nil, Nat.add_zero]
      · simp only [FragPacket.baseFrag, Ipv6Fragment.baseFrag, Ipv6Fragment.length_octets,
          Ipv6Fragment.plen]
        omega

/-! ### What the library reads -/

/-- Where the parser that calls the reassembly says the Fragment header is. -/
def FragPacket.fragHdrOffset : FragPacket → Nat
  | .ipv4 .. => 0
  | .ipv6 .. => 40

theorem ipv4Header_octets (p : Ipv4Packet) (fragment : p.IsFragment) (padding : Bytes) (len : Nat) :
    ∃ h, ipv4Header (p.octets ++ padding) 0 len = .ok h ∧ h.isFragment = true ∧
      h.fragHdrOffset = 0 := by
  have hfragment : (decide (ipOffmask p.off ≠ 0) || ipMf p.off) = true := by
    rcases fragment with hmf | hoff
    · rw [hmf, Bool.or_true]
    · rw [decide_eq_true hoff, Bool.true_or]
  simp only [ipv4Header, p.octetAt_first, Nat.zero_add, p.loadNet16_off, p.octetAt_proto, bind,
    Except.bind, pure, Except.pure]
  exact ⟨_, rfl, hfragment, rfl⟩

theorem ipv6Header_octets (host : ByteOrder) (p : Ipv6Fragment) (hexts : p.exts = [])
    (padding : Bytes) {len : Nat} (hlen : 40 + p.plen ≤ len) :
    ∃ h, ipv6Header (exthdrsReasm host (p.octets ++ padding) 0 len) (p.octets ++ padding) 0 len =
      .ok (some h) ∧ h.isFragment = true ∧ h.fragHdrOffset = 40 := by
  have hplen : 8 ≤ p.plen := by
    rw [Ipv6Fragment.plen]
    omega
  have hnxt : octetAt (p.octets ++ padding) 6 = .ok ipprotoFragment := by
    rw [p.octetAt_nxt, hexts, firstProto_nil]
  have hexthdr : isExthdr ipprotoFragment = true := rfl
  have hshort : ¬ len < ip6hdrLen := by
    rw [ip6hdrLen]
    omega
  have hroom : ¬ ip6hdrLen + 2 > len := by
    rw [ip6hdrLen]
    omega
  have hleft : ¬ (ip6hdrLen + p.plen > len ∨ p.plen = 0) := by
    rw [ip6hdrLen]
    omega
  simp only [ipv6Header, if_neg hshort, p.octetAt_first, Nat.zero_add, hnxt, p.loadNet16_plen,
    p.version, ne_eq, not_true_eq_false, if_false, exthdrsReasm, hexthdr, if_true, if_neg hroom,
    if_neg hleft, bind, Except.bind, pure, Except.pure]
  exact ⟨_, rfl, rfl, rfl⟩

theorem networkHeader_octets (host : ByteOrder) {f : FragPacket} (hdirect : f.Direct) :
    ∃ h, networkHeader (exthdrsReasm host f.octets 0 f.octets.length) f.etype f.octets 0
        f.octets.length = .ok (some h) ∧
      h.isFragment = true ∧ h.fragHdrOffset = f.fragHdrOffset := by
  cases f with
  | ipv4 p fragment padding captured =>
      obtain ⟨h, hheader, hh⟩ :=
        ipv4Header_octets p fragment padding (p.octets ++ padding).length
      refine ⟨h, ?_, hh⟩
      simp only [networkHeader, FragPacket.etype, FragPacket.octets, if_true, hheader]
      rfl
  | ipv6 p padding captured =>
      obtain ⟨hexts, -⟩ := hdirect
      have hlen : 40 + p.plen ≤ (p.octets ++ padding).length := by
        rw [List.length_append, Ipv6Fragment.length_octets]
        omega
      obtain ⟨h, hheader, hh⟩ := ipv6Header_octets host p hexts padding hlen
      have hetype : ¬ ethertypeIpv6 = ethertypeIp := by decide
      refine ⟨h, ?_, hh⟩
      simp only [networkHeader, FragPacket.etype, FragPacket.octets, if_neg hetype, if_true,
        hheader]

/-- The library reads a fragment as the base module does. -/
theorem coreParsePacket_octets {f : FragPacket} (hdirect : f.Direct) (ts : Timespec) :
    coreParsePacket f.octets f.octets.length f.fragHdrOffset =
      .ok (some { frag := (f.baseFrag ts).toCore, id := f.id, lastFrag := f.lastFrag }) := by
  cases f with
  | ipv4 p fragment padding captured =>
      have hlen : p.total ≤ (p.octets ++ padding).length := by
        rw [List.length_append, Ipv4Packet.length_octets]
        exact Nat.le_add_right _ _
      simp only [FragPacket.octets, coreParsePacket, p.octetAt_first, p.version, if_true, bind,
        Except.bind, p.parse_octets padding fragment hlen]
      rfl
  | ipv6 p padding captured =>
      obtain ⟨hexts, -⟩ := hdirect
      have hsix : ¬ (6 = 4) := by decide
      have hplen : p.plen = 8 + p.payload.length := by
        rw [Ipv6Fragment.plen, hexts]
        exact congrArg (· + p.payload.length) (Nat.zero_add 8)
      have hlen : (p.octets ++ padding).length ≥ p.plen + 40 := by
        rw [List.length_append, Ipv6Fragment.length_octets]
        omega
      have hall : copyAt (p.octets ++ padding) 0 (40 + p.plen) = .ok p.octets := by
        rw [Nat.add_comm, p.copyAt_all]
      have hnxt : octetAt (p.octets ++ padding) 40 = .ok p.nxt := by
        have := p.octetAt_fragNxt padding
        rwa [hexts] at this
      have hofflg : loadNet16 (p.octets ++ padding) 42 = .ok p.offlg := by
        have := p.loadNet16_offlg padding
        rwa [hexts] at this
      have hident : loadNet32 (p.octets ++ padding) 44 = .ok p.ident := by
        have := p.loadNet32_ident padding
        rwa [hexts] at this
      have hset : writeAt p.octets 6 [p.nxt] = .ok (p.octets.set 6 p.nxt) := by
        have hsix : 6 < p.octets.length := by
          rw [Ipv6Fragment.length_octets]
          omega
        rw [writeAt, Memory.write_singleton hsix]
      have hshort : ¬ 48 > 40 + p.plen := by omega
      have hpayload : 40 + p.plen - 48 = p.payload.length := by omega
      have hparse : coreFragFromIpv6 (p.octets ++ padding) 40 =
          .ok (some ((p.baseFrag ts).toCore, p.ident, !ip6fMoreFrag p.offlg)) := by
        simp only [coreFragFromIpv6, coreFragHeader, p.octetAt_nxt, p.loadNet16_plen, bind,
          Except.bind, pure, Except.pure, ne_eq, OfNat.ofNat_ne_zero, not_false_eq_true, if_true,
          Nat.reduceAdd, if_neg hshort, hall, hnxt, hset, hofflg, hident, hpayload]
        simp only [Ipv6Fragment.baseFrag, BaseFrag.toCore, hexts, announcedAt, extLen,
          List.map_nil, List.sum_nil, OfNat.ofNat_ne_zero, if_false, Nat.add_zero]
      simp only [FragPacket.octets, FragPacket.fragHdrOffset, coreParsePacket, p.octetAt_first,
        p.version, if_neg hsix, if_true, bind, Except.bind, p.loadNet16_plen, if_pos hlen, hparse,
        p.copyAt_src, p.copyAt_dst]
      rfl

/-! ### One fragment -/

/-- An entry that is complete is put together. -/
def handOut {F : Type} (assemble : ReasmIpEntry F → Except Abort Bytes) :
    Option (ReasmIpEntry F) × ReasmIp F → Except Abort (Bytes × ReasmIp F)
  | (none, reasm) => .ok ([], reasm)
  | (some entry, reasm) => do
      let out ← assemble entry
      return (out, reasm)

theorem toUnsigned_octets (f : FragPacket) : toUnsigned f.octets.length = f.octets.length :=
  Nat.mod_eq_of_lt f.length_octets_lt

/-- A fragment the base module can read goes to the store. -/
theorem baseReassembly_octets (outputLen : Nat) (reasm : ReasmIp BaseFrag) {f : FragFrame}
    (hfits : f.packet.Fits) :
    baseReassembly outputLen reasm f =
      handOut (reasmAssemble · outputLen)
        (reasmIpFragment (processTimeouts reasm f.sec) (f.packet.baseFrag ⟨f.sec, f.nsec⟩)
          f.packet.id f.packet.lastFrag f.sec) := by
  simp only [baseReassembly, reasmIpNext, toUnsigned_octets, bind, Except.bind,
    f.packet.reasmParsePacket_octets hfits, pure, Except.pure]
  generalize reasmIpFragment (F := BaseFrag) _ _ _ _ _ = r
  obtain ⟨entry, reasm'⟩ := r
  cases entry <;> rfl

theorem coreReassembly_octets (host : ByteOrder) (outputLen : Nat) (reasm : ReasmIp CoreFrag)
    {f : FragFrame} (hdirect : f.packet.Direct) :
    coreReassembly host outputLen reasm f =
      handOut (coreAssemble · outputLen)
        (reasmIpFragment (processTimeouts reasm f.sec) (f.packet.baseFrag ⟨f.sec, f.nsec⟩).toCore
          f.packet.id f.packet.lastFrag f.sec) := by
  obtain ⟨h, hheader, hfragment, hoffset⟩ := networkHeader_octets host hdirect
  simp only [coreReassembly, hheader, hfragment, if_true, reassembleFragment, hoffset, coreIpNext,
    toUnsigned_octets, bind, Except.bind, coreParsePacket_octets hdirect ⟨f.sec, f.nsec⟩, pure,
    Except.pure]
  generalize reasmIpFragment (F := CoreFrag) _ _ _ _ _ = r
  obtain ⟨entry, reasm'⟩ := r
  cases entry with
  | none => rfl
  | some entry =>
      simp only [handOut, bind, Except.bind, pure, Except.pure]
      cases coreAssemble entry outputLen <;> rfl

/-! ### Putting a datagram together -/

/-- The payload stands behind the octet that is corrected. -/
theorem copyAt_toCore {id : ReasmId} {frag : BaseFrag} (h : frag.Direct id) :
    copyAt frag.toCore.data frag.dataOffset frag.len =
      copyAt frag.data frag.dataOffset frag.len := by
  unfold BaseFrag.toCore
  cases id with
  | ipv4 =>
      have hlast : frag.lastNxt = 0 := h
      simp only [hlast, if_true]
  | ipv6 =>
      obtain ⟨hlast, hdata, -⟩ := h
      have hdrop : (frag.data.set 6 frag.ip6fNxt).drop 48 = frag.data.drop 48 := by
        rw [List.drop_set_of_lt (by decide)]
      simp only [hlast, hdata, OfNat.ofNat_ne_zero, if_false, copyAt, Memory.read,
        List.length_set, hdrop]

theorem joinFragments_toCore {id : ReasmId} (offset0 : Nat) (frags : List BaseFrag)
    (h : ∀ frag ∈ frags, frag.Direct id) (buf : Bytes) :
    joinFragments buf offset0 (frags.map BaseFrag.toCore) = joinFragments buf offset0 frags := by
  induction frags generalizing buf with
  | nil => rfl
  | cons frag rest ih =>
      have hcopy := copyAt_toCore (h frag (List.mem_cons_self ..))
      have hrest := ih fun frag' hfrag' => h frag' (List.mem_cons_of_mem _ hfrag')
      rw [List.map_cons, joinFragments, joinFragments]
      change (copyAt frag.toCore.data frag.dataOffset frag.len >>= fun src =>
        writeAt buf (offset0 + frag.offset) src >>= fun buf =>
          joinFragments buf offset0 (rest.map BaseFrag.toCore)) = _
      rw [hcopy]
      simp only [hrest]
      rfl

/-- The library copies a header that is corrected, the base module corrects the copy. -/
theorem header_toCore {src dst ident} {frag : BaseFrag} (h : frag.Direct (.ipv6 src dst ident))
    (n : Nat) :
    (do
      let header ← copyAt frag.toCore.data 0 40
      writeAt (List.replicate n 0) 0 header) =
    (do
      let header ← copyAt frag.data 0 40
      let buf ← writeAt (List.replicate n 0) 0 header
      writeAt buf frag.lastNxt [frag.ip6fNxt]) := by
  obtain ⟨hlast, -, hlen⟩ := h
  have htake : (frag.data.take 40).length = 40 := by
    rw [List.length_take]
    omega
  have hcore : copyAt frag.toCore.data 0 40 = .ok ((frag.data.take 40).set 6 frag.ip6fNxt) := by
    rw [copyAt, BaseFrag.toCore, hlast, if_neg (by decide), Memory.read_of_le (by
      rw [List.length_set]
      omega), List.drop_zero, List.take_set]
  have hbase : copyAt frag.data 0 40 = .ok (frag.data.take 40) := by
    rw [copyAt, Memory.read_of_le (by omega), List.drop_zero]
  rw [hcore, hbase]
  simp only [bind, Except.bind, hlast]
  by_cases hroom : 40 ≤ n
  · have hsplit : List.replicate n (0 : UInt8) =
        [] ++ List.replicate 40 0 ++ List.replicate (n - 40) 0 := by
      rw [List.nil_append, List.replicate_append_replicate]
      congr 1
      omega
    have hwrite : ∀ header : Bytes, header.length = 40 →
        writeAt (List.replicate n 0) 0 header = .ok (header ++ List.replicate (n - 40) 0) :=
      fun header hheader =>
        writeAt_eq [] hsplit rfl (by rw [hheader, List.length_replicate])
    rw [hwrite _ (by rw [List.length_set, htake]), hwrite _ htake]
    dsimp only
    rw [writeAt, Memory.write_singleton (by rw [List.length_append, htake]; omega),
      List.set_append_left _ _ (by rw [htake]; decide)]
  · have hcoreRoom : writeAt (List.replicate n 0) 0 ((frag.data.take 40).set 6 frag.ip6fNxt) =
        .error .outOfBounds := by
      rw [writeAt, Memory.write, if_neg]
      rw [List.length_set, htake, List.length_replicate]
      omega
    have hbaseRoom : writeAt (List.replicate n 0) 0 (frag.data.take 40) =
        .error .outOfBounds := by
      rw [writeAt, Memory.write, if_neg]
      rw [htake, List.length_replicate]
      omega
    rw [hcoreRoom, hbaseRoom]

/-- **An entry is put together to the same datagram by both copies.** -/
theorem coreAssemble_toCore {entry : ReasmIpEntry BaseFrag}
    (h : entry.Stores BaseFrag.Direct) (outputLen : Nat) :
    coreAssemble (entry.map BaseFrag.toCore) outputLen = reasmAssemble entry outputLen := by
  obtain ⟨id, len, holes, fragCount, hash, timeout, state, frags⟩ := entry
  have hstores : ∀ frag ∈ frags, frag.Direct id := h
  have hjoin : ∀ offset0 buf,
      joinFragments buf offset0 (frags.map BaseFrag.toCore) = joinFragments buf offset0 frags :=
    fun offset0 buf => joinFragments_toCore offset0 frags hstores buf
  cases frags with
  | nil => rfl
  | cons first rest =>
      have hfirst := hstores first (List.mem_cons_self ..)
      unfold coreAssemble reasmAssemble
      simp only [ReasmIpEntry.map, List.map_cons] at hjoin ⊢
      have hoffset : first.toCore.dataOffset = first.dataOffset := rfl
      rw [hoffset]
      split
      · rfl
      · cases id with
        | ipv4 =>
            have hlast : first.lastNxt = 0 := hfirst
            have hdata : first.toCore.data = first.data := by
              rw [BaseFrag.toCore, if_pos hlast]
            simp only [hdata, restoreNxt, hjoin]
            rfl
        | ipv6 src dst ident =>
            have hheader := header_toCore hfirst outputLen
            have hoffset0 : headerLen (.ipv6 src dst ident) first.dataOffset = 40 := by
              rw [headerLen, hfirst.2.1]
              rfl
            simp only [hoffset0, restoreNxt, hjoin]
            rw [← bind_assoc, hheader]
            simp only [bind_assoc]

/-! ### Whole runs -/

/-- **One fragment.** The library does what the base module does, and keeps what it keeps. -/
theorem coreReassembly_toCore (host : ByteOrder) (outputLen : Nat) {reasm : ReasmIp BaseFrag}
    (h : reasm.Stores BaseFrag.Direct) {f : FragFrame} (hdirect : f.packet.Direct) :
    coreReassembly host outputLen (reasm.map BaseFrag.toCore) f =
      (baseReassembly outputLen reasm f).map fun out => (out.1, out.2.map BaseFrag.toCore) := by
  have hstores := reasmIpFragment_stores (h.processTimeouts f.sec)
    (hdirect.baseFrag ⟨f.sec, f.nsec⟩) f.packet.lastFrag f.sec
  rw [coreReassembly_octets host outputLen _ hdirect,
    baseReassembly_octets outputLen _ hdirect.fits, processTimeouts_map,
    reasmIpFragment_map toCore_fragMap]
  generalize reasmIpFragment _ (f.packet.baseFrag ⟨f.sec, f.nsec⟩) _ _ _ = r at hstores ⊢
  obtain ⟨entry, reasm'⟩ := r
  cases entry with
  | none => rfl
  | some entry =>
      simp only [handOut, Option.map_some, coreAssemble_toCore (hstores.1 entry rfl)]
      cases reasmAssemble entry outputLen <;> rfl

theorem baseReassembly_stores {outputLen : Nat} {reasm reasm' : ReasmIp BaseFrag}
    (h : reasm.Stores BaseFrag.Direct) {f : FragFrame} (hdirect : f.packet.Direct) {out : Bytes}
    (hstep : baseReassembly outputLen reasm f = .ok (out, reasm')) :
    reasm'.Stores BaseFrag.Direct := by
  have hstores := reasmIpFragment_stores (h.processTimeouts f.sec)
    (hdirect.baseFrag ⟨f.sec, f.nsec⟩) f.packet.lastFrag f.sec
  rw [baseReassembly_octets outputLen _ hdirect.fits] at hstep
  generalize reasmIpFragment _ (f.packet.baseFrag ⟨f.sec, f.nsec⟩) _ _ _ = r at hstores hstep
  obtain ⟨entry, stored⟩ := r
  cases entry with
  | none =>
      cases hstep
      exact hstores.2
  | some entry =>
      simp only [handOut] at hstep
      cases hout : reasmAssemble entry outputLen with
      | error e =>
          rw [hout] at hstep
          cases hstep
      | ok datagram =>
          rw [hout] at hstep
          cases hstep
          exact hstores.2

section Sample

theorem sampleVersion : ipV 0x60 = 6 := rfl

theorem length_sampleFlow : ([0, 0, 0] : Bytes).length = 3 := rfl

theorem length_sampleSrc : (List.replicate 16 1 : Bytes).length = 16 := rfl

theorem length_sampleDst : (List.replicate 16 2 : Bytes).length = 16 := rfl

theorem sampleIdent_lt : 7 < 4294967296 := by decide

theorem firstOfflg_lt : 1 < 65536 := by decide

theorem lastOfflg_lt : 8 < 65536 := by decide

end Sample

/-- A fragment of IPv6 with eight octets of payload behind the headers `exts`. -/
def sampleFragment (exts : List ExtHeader) (hlen : extLen exts < 65520) (offlg : Nat)
    (hoff : offlg < 65536) : Ipv6Fragment where
  first := 0x60
  flow := [0, 0, 0]
  hopLimit := 64
  src := List.replicate 16 1
  dst := List.replicate 16 2
  exts := exts
  nxt := ipprotoUdp
  reserved := 0
  offlg := offlg
  ident := 7
  payload := [1, 2, 3, 4, 5, 6, 7, 8]
  version := sampleVersion
  flow_len := length_sampleFlow
  src_len := length_sampleSrc
  dst_len := length_sampleDst
  offlg_lt := hoff
  ident_lt := sampleIdent_lt
  plen_lt := by
    simp only [List.length_cons, List.length_nil]
    omega

def sampleFrame (exts : List ExtHeader) (hlen : extLen exts < 65520) (offlg : Nat)
    (hoff : offlg < 65536) : FragFrame where
  packet := .ipv6 (sampleFragment exts hlen offlg hoff) [] (by
    simp only [Ipv6Fragment.plen, sampleFragment, List.length_cons, List.length_nil]
    omega)
  sec := 1
  nsec := 0

/-- The two fragments of a datagram of 16 octets. -/
def sampleFrames (exts : List ExtHeader) (hlen : extLen exts < 65520) : List FragFrame :=
  [sampleFrame exts hlen 1 firstOfflg_lt, sampleFrame exts hlen 8 lastOfflg_lt]

theorem destopts_skippable : isSkippable ipprotoDstopts = true := rfl

def sampleDestopts : ExtHeader where
  proto := ipprotoDstopts
  length := 0
  body := [1, 4, 0, 0, 0, 0]
  skippable := destopts_skippable
  size := rfl

end Nmsg

import Nmsg.Proof.ChecksumVerdict
import Nmsg.Proof.ReasmAgree
import Nmsg.Proof.ReasmTrack
import Nmsg.Proof.StoreLinks

/-!
# Reassembly undoes fragmentation

What is put together from the fragments of a split is the datagram: its header is that of the first
fragment, patched, and each payload is copied to its place behind it.
-/

namespace Nmsg

open ReasmFrag StepRun

/-! ### The payload -/

/-- The payload of a fragment lies where the entry says. -/
theorem copyAt_frag (f : TimedFrag) :
    copyAt (data f.frag) (dataOffset f.frag) (len f.frag) = .ok f.packet.part.octets := by
  obtain ⟨packet, timestamp⟩ := f
  cases packet with
  | ipv4 p fragment padding captured =>
      have hpkt : p.octets = p.header p.total p.off p.sum ++ p.payload ++ [] :=
        (List.append_nil _).symm
      exact copyAt_eq _ hpkt (p.length_header _ _ _).symm rfl
  | ipv6 p padding captured =>
      have hpkt : p.octets =
          (p.unfragmentable p.plen ipprotoFragment ++ p.fragmentHeader) ++ p.payload ++ [] :=
        (List.append_nil _).symm
      refine copyAt_eq _ hpkt ?_ rfl
      rw [List.length_append, Ipv6Fragment.length_unfragmentable,
        Ipv6Fragment.length_fragmentHeader]
      change 48 + extLen p.exts = _
      omega

/-- The fragments fill the buffer one behind the other. -/
theorem joinFragments_cut {parts : List Bytes} (header : Bytes) :
    ∀ {frames : List TimedFrag} {joined room : Bytes},
      (frames.map fun f => f.packet.part) = cut joined.length parts →
      parts.flatten.length ≤ room.length →
      joinFragments (header ++ joined ++ room) header.length (frames.map TimedFrag.frag) =
        .ok (header ++ joined ++ parts.flatten ++ room.drop parts.flatten.length) := by
  induction parts with
  | nil =>
      intro frames joined room hcut _
      rw [cut, List.map_eq_nil_iff] at hcut
      rw [hcut, List.flatten_nil, List.append_nil]
      rfl
  | cons b rest ih =>
      intro frames joined room hcut hroom
      rw [List.flatten_cons, List.length_append] at hroom
      cases frames with
      | nil => cases hcut
      | cons f frames =>
          rw [List.map_cons, cut, List.cons.injEq] at hcut
          have hoffset : offset f.frag = joined.length := by rw [offset_frag, hcut.1]
          have hcopy : copyAt (data f.frag) (dataOffset f.frag) (len f.frag) = .ok b := by
            rw [copyAt_frag, hcut.1]
          have hbuf : header ++ joined ++ room =
              header ++ joined ++ room.take b.length ++ room.drop b.length := by
            rw [List.append_assoc _ (room.take _), List.take_append_drop]
          have hwrite : writeAt (header ++ joined ++ room) (header.length + joined.length) b =
              .ok (header ++ joined ++ b ++ room.drop b.length) := by
            apply writeAt_eq _ hbuf (List.length_append ..).symm
            rw [List.length_take]
            omega
          have hcut' : (frames.map fun f => f.packet.part) = cut (joined ++ b).length rest := by
            rw [List.length_append]
            exact hcut.2
          have hroom' : rest.flatten.length ≤ (room.drop b.length).length := by
            rw [List.length_drop]
            omega
          have hnext := ih hcut' hroom'
          rw [List.map_cons, joinFragments, hcopy, hoffset]
          simp only [bind, Except.bind, hwrite]
          rw [List.append_assoc header joined b, hnext, List.drop_drop, List.flatten_cons,
            List.length_append]
          simp only [List.append_assoc]

/-! ### The header of IPv6 -/

/-- The octet that announced the Fragment header announces what followed it. -/
theorem writeAt_announced (last nxt : UInt8) (rest : Bytes) (exts : List ExtHeader) :
    ∀ a b : Bytes,
      writeAt (a ++ firstProto last exts :: b ++ extOctets last exts ++ rest)
          (announcedAt a.length (a.length + 1 + b.length) exts) [nxt] =
        .ok (a ++ firstProto nxt exts :: b ++ extOctets nxt exts ++ rest) := by
  induction exts with
  | nil =>
      intro a b
      have hbuf : a ++ last :: b ++ [] ++ rest = a ++ [last] ++ (b ++ rest) := by simp
      have hout : a ++ nxt :: b ++ [] ++ rest = a ++ [nxt] ++ (b ++ rest) := by simp
      rw [announcedAt, firstProto_nil, firstProto_nil, extOctets, extOctets, hout]
      exact writeAt_eq a hbuf rfl rfl
  | cons h exts ih =>
      intro a b
      have hnext := ih (a ++ h.proto :: b) (h.length :: h.body)
      have hlen : (a ++ h.proto :: b).length = a.length + 1 + b.length := by
        simp only [List.length_append, List.length_cons]
        omega
      have hbody : (h.length :: h.body).length = 7 + 8 * h.length.toNat := by
        rw [List.length_cons, h.size]
        omega
      rw [hlen, hbody] at hnext
      have hat : a.length + 1 + b.length + 1 + (7 + 8 * h.length.toNat) =
          a.length + 1 + b.length + (8 + 8 * h.length.toNat) := by omega
      rw [hat] at hnext
      rw [announcedAt, firstProto_cons, firstProto_cons]
      simp only [extOctets, List.append_assoc, List.cons_append] at hnext ⊢
      exact hnext

theorem writeAt_unfragmentable (p : Ipv6Fragment) (plen : Nat) (nxt : UInt8) (rest : Bytes) :
    writeAt (p.unfragmentable plen ipprotoFragment ++ rest) (announcedAt 6 40 p.exts) [nxt] =
      .ok (p.unfragmentable plen nxt ++ rest) := by
  have h := writeAt_announced ipprotoFragment nxt rest p.exts
    ([p.first] ++ p.flow ++ Octets.beBytes 2 plen) ([p.hopLimit] ++ p.src ++ p.dst)
  have hfirst : ([p.first] ++ p.flow ++ Octets.beBytes 2 plen).length = 6 := by simp [p.flow_len]
  have hbehind : ([p.hopLimit] ++ p.src ++ p.dst).length = 33 := by simp [p.src_len, p.dst_len]
  rw [hfirst, hbehind] at h
  simp only [Ipv6Fragment.unfragmentable, List.append_assoc, List.cons_append, List.nil_append]
    at h ⊢
  exact h

theorem writeAt_plen (p : Ipv6Fragment) (plen plen' : Nat) (nxt : UInt8) (rest : Bytes) :
    writeAt (p.unfragmentable plen nxt ++ rest) 4 (Octets.beBytes 2 plen') =
      .ok (p.unfragmentable plen' nxt ++ rest) := by
  have hpre : ([p.first] ++ p.flow).length = 4 := by simp [p.flow_len]
  have h := writeAt_eq ([p.first] ++ p.flow)
    (rfl : _ = ([p.first] ++ p.flow) ++ Octets.beBytes 2 plen ++
      ([firstProto nxt p.exts, p.hopLimit] ++ p.src ++ p.dst ++ extOctets nxt p.exts ++ rest))
    hpre.symm (by simp : _ = (Octets.beBytes 2 plen').length)
  simp only [Ipv6Fragment.unfragmentable, List.append_assoc] at h ⊢
  exact h

/-! ### The header of IPv4 -/

/-- The sum over a part of the buffer is that of its words. -/
theorem headerSum_words {b : Bytes} :
    ∀ {n : Nat} (pre rest : Bytes), b.length = 2 * n →
      headerSum (pre ++ b ++ rest) n pre.length = .ok (OnesSum.words b).sum := by
  fun_induction OnesSum.words b with
  | case1 =>
      intro n pre rest hlen
      obtain rfl : n = 0 := by
        rw [List.length_nil] at hlen
        omega
      rfl
  | case2 x =>
      intro n pre rest hlen
      rw [List.length_singleton] at hlen
      omega
  | case3 x y b ih =>
      intro n pre rest hlen
      rw [List.length_cons, List.length_cons] at hlen
      obtain ⟨n, rfl⟩ := Nat.exists_eq_add_one_of_ne_zero (by omega : n ≠ 0)
      have hbuf : pre ++ x :: y :: b ++ rest = pre ++ [x, y] ++ (b ++ rest) := by simp
      have hbuf' : pre ++ x :: y :: b ++ rest = pre ++ [x, y] ++ b ++ rest := by simp
      have hload := loadNet16_eq pre hbuf rfl rfl
      have hnext := ih (n := n) (pre ++ [x, y]) rest (by omega)
      have hat : (pre ++ [x, y]).length = pre.length + 2 := List.length_append ..
      have hword : Octets.beNat [x, y] = x.toNat * 256 + y.toNat := by
        simp [Octets.beNat]
      rw [hat, ← hbuf'] at hnext
      simp only [headerSum, hload, hnext, hword, bind, Except.bind, pure, Except.pure,
        List.sum_cons]

theorem writeAt_field (a old new b : Bytes) {i : Nat} (hi : i = a.length)
    (hlen : old.length = new.length) : writeAt (a ++ old ++ b) i new = .ok (a ++ new ++ b) :=
  writeAt_eq a rfl hi hlen

section Ipv4

variable (p : Ipv4Packet) (total off sum : Nat) (rest : Bytes)

theorem writeAt_total (total' : Nat) :
    writeAt (p.header total off sum ++ rest) 2 (Octets.beBytes 2 total') =
      .ok (p.header total' off sum ++ rest) := by
  have h := writeAt_field [p.first, p.tos] (Octets.beBytes 2 total) (Octets.beBytes 2 total')
    (Octets.beBytes 2 p.ident ++ Octets.beBytes 2 off ++ [p.ttl, p.proto] ++ Octets.beBytes 2 sum ++
      p.src ++ p.dst ++ p.options ++ rest) rfl (by simp)
  simp only [Ipv4Packet.header, List.append_assoc] at h ⊢
  exact h

theorem writeAt_off :
    writeAt (p.header total off sum ++ rest) 6 [0, 0] = .ok (p.header total 0 sum ++ rest) := by
  have h := writeAt_field ([p.first, p.tos] ++ Octets.beBytes 2 total ++ Octets.beBytes 2 p.ident)
    (Octets.beBytes 2 off) (Octets.beBytes 2 0)
    ([p.ttl, p.proto] ++ Octets.beBytes 2 sum ++ p.src ++ p.dst ++ p.options ++ rest) rfl (by simp)
  simp only [Ipv4Packet.header, List.append_assoc] at h ⊢
  exact h

theorem writeAt_sum (sum' : Nat) :
    writeAt (p.header total off sum ++ rest) 10 (Octets.beBytes 2 sum') =
      .ok (p.header total off sum' ++ rest) := by
  have h := writeAt_field ([p.first, p.tos] ++ Octets.beBytes 2 total ++ Octets.beBytes 2 p.ident ++
    Octets.beBytes 2 off ++ [p.ttl, p.proto]) (Octets.beBytes 2 sum) (Octets.beBytes 2 sum')
    (p.src ++ p.dst ++ p.options ++ rest) rfl (by simp)
  simp only [Ipv4Packet.header, List.append_assoc] at h ⊢
  exact h

/-- The words of a header are those without a checksum, and the checksum. -/
theorem sum_words_header (hsum : sum < 65536) :
    (OnesSum.words (p.header total off sum)).sum =
      (OnesSum.words (p.header total off 0)).sum + sum := by
  have hword : ∀ n < 65536, (OnesSum.words (Octets.beBytes 2 n)).sum = n := by
    intro n hn
    simp only [Octets.beBytes, OnesSum.words, List.sum_cons, List.sum_nil, UInt8.toNat_ofNat']
    omega
  obtain ⟨front, behind, hfront, hsplit⟩ : ∃ front behind : Bytes, front.length % 2 = 0 ∧
      ∀ n, p.header total off n = front ++ (Octets.beBytes 2 n ++ behind) := by
    refine ⟨[p.first, p.tos] ++ Octets.beBytes 2 total ++ Octets.beBytes 2 p.ident ++
      Octets.beBytes 2 off ++ [p.ttl, p.proto], p.src ++ p.dst ++ p.options, by simp, fun n => ?_⟩
    simp only [Ipv4Packet.header, List.append_assoc]
  have hparts : ∀ n < 65536, (OnesSum.words (p.header total off n)).sum =
      (OnesSum.words front).sum + (n + (OnesSum.words behind).sum) := by
    intro n hn
    rw [hsplit, OnesSum.sum_words_append hfront, OnesSum.sum_words_append (by simp), hword n hn]
  rw [hparts sum hsum, hparts 0 (by decide)]
  omega

/-- **The header is finished** with the length, no fragment fields, and a checksum that verifies. -/
theorem finishIpv4_header (total' : Nat) :
    ∃ sum', OnesSum.sum (p.header total' 0 sum') = 65535 ∧
      ∀ room, finishIpv4 (p.header total off sum ++ room) total' =
        .ok (p.header total' 0 sum' ++ room) := by
  have hlen : (p.header total' 0 0).length = 2 * (2 * ipHl p.first) := by
    rw [Ipv4Packet.length_header, ← p.hl]
    omega
  have hfold := foldCarries_represents _ _ (Nat.le_refl (OnesSum.words (p.header total' 0 0)).sum)
  have hcheck := hfold.complement
  have hwhole := sum_words_header p total' 0
    (65535 - foldCarries (OnesSum.words (p.header total' 0 0)).sum
      (OnesSum.words (p.header total' 0 0)).sum) (by omega)
  rw [← hwhole] at hcheck
  refine ⟨_, (OnesSum.sum_represents _).unique hcheck, fun room => ?_⟩
  have hfirst : octetAt (p.header total off sum ++ room) 0 = .ok p.first :=
    octetAt_eq [] (by simp only [Ipv4Packet.header, List.append_assoc]; rfl) rfl
  have hwords := headerSum_words [] room hlen
  have hclear : writeAt (p.header total' 0 sum ++ room) 10 [0, 0] =
      .ok (p.header total' 0 0 ++ room) := writeAt_sum p total' 0 sum room 0
  rw [List.nil_append, List.length_nil] at hwords
  simp only [finishIpv4, hfirst, writeAt_total, writeAt_off, hclear, hwords, writeAt_sum, bind,
    Except.bind]

end Ipv4

/-! ### The datagram -/

theorem writeAt_front {header : Bytes} {n : Nat} (hle : header.length ≤ n) :
    writeAt (List.replicate n 0) 0 header =
      .ok (header ++ List.replicate (n - header.length) 0) := by
  have hsplit : List.replicate n (0 : UInt8) =
      [] ++ List.replicate header.length 0 ++ List.replicate (n - header.length) 0 := by
    rw [List.nil_append, ← List.replicate_add, Nat.add_sub_cancel' hle]
  exact writeAt_eq [] hsplit rfl List.length_replicate

/-- The steps of putting a datagram together: the header is copied, patched and finished, and the
payload comes behind it. -/
theorem reasmAssemble_steps {e : ReasmIpEntry BaseFrag} {f : TimedFrag} {rest : List TimedFrag}
    {parts : List Bytes} {header patched finished : Bytes} {outputLen : Nat}
    (hfrags : e.frags = (f :: rest).map TimedFrag.frag)
    (hcut : ((f :: rest).map fun f => f.packet.part) = cut 0 parts)
    (hlen : e.len = parts.flatten.length)
    (hoffset : headerLen e.id f.frag.dataOffset = header.length)
    (hheader : copyAt f.frag.data 0 header.length = .ok header)
    (hrestore : ∀ room, restoreNxt e.id f.frag (header ++ room) = .ok (patched ++ room))
    (hfinish : ∀ room, finishHeader e.id (patched ++ room) (parts.flatten.length + header.length) =
      .ok (finished ++ room))
    (hpatched : patched.length = header.length) (hfinished : finished.length = header.length)
    (hwidth : parts.flatten.length + header.length < 4294967296)
    (hroom : parts.flatten.length + header.length ≤ outputLen) :
    reasmAssemble e outputLen = .ok (finished ++ parts.flatten) := by
  have hfront : writeAt (List.replicate outputLen 0) 0 header =
      .ok (header ++ List.replicate (outputLen - header.length) 0) := writeAt_front (by omega)
  have hspace : parts.flatten.length ≤
      (List.replicate (outputLen - header.length) (0 : UInt8)).length := by
    rw [List.length_replicate]
    omega
  have hcut' : ((f :: rest).map fun f => f.packet.part) = cut ([] : Bytes).length parts := hcut
  have hjoin := joinFragments_cut patched hcut' hspace
  have htotal : toUnsigned (e.len + header.length) = parts.flatten.length + header.length := by
    rw [hlen, toUnsigned, Nat.mod_eq_of_lt hwidth]
  have htake : (finished ++ parts.flatten).length = parts.flatten.length + header.length := by
    rw [List.length_append, hfinished, Nat.add_comm]
  rw [List.append_nil, hpatched] at hjoin
  rw [List.append_assoc] at hjoin
  unfold reasmAssemble
  rw [hfrags, List.map_cons]
  simp only [hoffset, htotal, if_neg (Nat.not_lt.mpr hroom), hheader, hfront, hrestore, bind,
    Except.bind]
  rw [← List.map_cons, hjoin]
  simp only [hfinish, pure, Except.pure]
  rw [← List.append_assoc, Octets.take_append_of_length htake]

section Assemble

variable {d : IpDatagram} {ordered : List TimedFrag} {e : ReasmIpEntry BaseFrag} {outputLen : Nat}

/-- **What is put together from the fragments of a split is the datagram.** -/
theorem reasmAssemble_restored (h : d.SplitInto (ordered.map TimedFrag.packet))
    (hid : e.id = d.id) (hfrags : e.frags = ordered.map TimedFrag.frag)
    (hlen : e.len = d.payload.length) (hroom : d.length ≤ outputLen) :
    ∃ out, reasmAssemble e outputLen = .ok out ∧ d.Restored out := by
  obtain ⟨parts, hflatten, hallowed, hne, hcut⟩ := h.parts
  rw [List.map_map] at hcut
  cases ordered with
  | nil =>
      cases parts with
      | nil => exact absurd rfl hne
      | cons b rest => cases hcut
  | cons f rest =>
      have hheaded := h.headed f.packet rfl
      have hfid := h.id f.packet (List.mem_cons_self ..)
      rw [← hflatten] at hlen
      have hpayload := congrArg List.length hflatten
      obtain ⟨packet, timestamp⟩ := f
      cases d with
      | ipv4 d =>
          cases packet with
          | ipv6 p padding captured => exact hheaded.elim
          | ipv4 p fragment padding captured =>
              obtain ⟨hsrc, hdst, hident, hproto⟩ : p.src = d.src ∧ p.dst = d.dst ∧
                  p.ident = d.ident ∧ p.proto = d.proto := by
                simpa only [FragPacket.id, IpDatagram.id, Ipv4Packet.id, ReasmId.ipv4.injEq]
                  using hfid
              obtain ⟨hfirst, htos, httl, hoptions⟩ := hheaded
              have hsame : ∀ total off sum, p.header total off sum = d.header total off sum := by
                intro total off sum
                simp only [Ipv4Packet.header, hfirst, htos, httl, hoptions, hsrc, hdst, hident,
                  hproto]
              have htotal : parts.flatten.length + (p.header p.total p.off p.sum).length =
                  d.total := by
                rw [Ipv4Packet.length_header, hpayload, hoptions, Ipv4Packet.total, Nat.add_comm]
                rfl
              have hlt := d.total_lt
              obtain ⟨sum, hverify, hfinish⟩ :=
                finishIpv4_header p p.total p.off p.sum d.total
              have hfinish' : ∀ room, finishHeader e.id (p.header p.total p.off p.sum ++ room)
                  (parts.flatten.length + (p.header p.total p.off p.sum).length) =
                    .ok (p.header d.total 0 sum ++ room) := by
                intro room
                rw [hid, htotal]
                exact hfinish room
              refine ⟨p.header d.total 0 sum ++ parts.flatten, ?_, sum, ?_, ?_⟩
              · have hheader : copyAt p.octets 0 (p.header p.total p.off p.sum).length =
                    .ok (p.header p.total p.off p.sum) := copyAt_eq [] rfl rfl rfl
                refine reasmAssemble_steps hfrags hcut hlen ?_ hheader ?_ hfinish' ?_ ?_ ?_ ?_
                · rw [hid, Ipv4Packet.length_header]
                  rfl
                · intro room
                  rw [hid]
                  rfl
                · rfl
                · rw [Ipv4Packet.length_header, Ipv4Packet.length_header]
                · rw [htotal, Ipv4Packet.total]
                  omega
                · rw [htotal]
                  exact hroom
              · rw [← hsame, hverify]
              · rw [hsame, hflatten]
                rfl
      | ipv6 d ident =>
          cases packet with
          | ipv4 p fragment padding captured => exact hheaded.elim
          | ipv6 p padding captured =>
              obtain ⟨hsrc, hdst, hident⟩ : p.src = d.src ∧ p.dst = d.dst ∧ p.ident = ident := by
                simpa only [FragPacket.id, IpDatagram.id, Ipv6Fragment.id, ReasmId.ipv6.injEq]
                  using hfid
              obtain ⟨hfirst, hflow, hhop, hexts, hnxt⟩ := hheaded
              have htotal : parts.flatten.length +
                  (p.unfragmentable p.plen ipprotoFragment).length =
                    40 + (extLen d.exts + d.payload.length) := by
                rw [Ipv6Fragment.length_unfragmentable, hpayload, hexts]
                simp only [IpDatagram.payload]
                omega
              have hlt := d.plen_lt
              have hrestore : ∀ room, restoreNxt e.id (p.baseFrag timestamp)
                  (p.unfragmentable p.plen ipprotoFragment ++ room) =
                    .ok (p.unfragmentable p.plen p.nxt ++ room) := by
                intro room
                rw [hid]
                exact writeAt_unfragmentable p p.plen p.nxt room
              have hfinish : ∀ room, finishHeader e.id (p.unfragmentable p.plen p.nxt ++ room)
                  (parts.flatten.length + (p.unfragmentable p.plen ipprotoFragment).length) =
                    .ok (p.unfragmentable (extLen d.exts + d.payload.length) p.nxt ++ room) := by
                intro room
                rw [hid, htotal]
                have hplen : subUnsigned (40 + (extLen d.exts + d.payload.length)) 40 =
                    extLen d.exts + d.payload.length := by
                  rw [subUnsigned_of_le (by omega) (by omega)]
                  omega
                simp only [IpDatagram.id, finishHeader, finishIpv6, hplen]
                exact writeAt_plen p p.plen _ p.nxt room
              refine ⟨p.unfragmentable (extLen d.exts + d.payload.length) p.nxt ++ parts.flatten,
                ?_, ?_⟩
              · have hheader : copyAt p.octets 0 (p.unfragmentable p.plen ipprotoFragment).length =
                    .ok (p.unfragmentable p.plen ipprotoFragment) := by
                  have hpkt : p.octets = [] ++ p.unfragmentable p.plen ipprotoFragment ++
                      (p.fragmentHeader ++ p.payload) := List.append_assoc _ _ _
                  exact copyAt_eq [] hpkt rfl rfl
                refine reasmAssemble_steps hfrags hcut hlen ?_ hheader hrestore hfinish ?_ ?_ ?_ ?_
                · rw [hid, Ipv6Fragment.length_unfragmentable]
                  change subUnsigned (48 + extLen p.exts) 8 = _
                  rw [hexts, subUnsigned_of_le (by omega) (by omega)]
                  omega
                · rw [Ipv6Fragment.length_unfragmentable, Ipv6Fragment.length_unfragmentable]
                · rw [Ipv6Fragment.length_unfragmentable, Ipv6Fragment.length_unfragmentable]
                · rw [htotal]
                  omega
                · rw [htotal]
                  exact hroom
              · rw [hflatten]
                simp only [IpDatagram.Restored, Ipv6Datagram.octets, Ipv6Fragment.unfragmentable,
                  hsrc, hdst, hfirst, hflow, hhop, hexts, hnxt, IpDatagram.payload]

end Assemble

/-! ### The run -/

/-- In a run the datagram is handed back once, with its last fragment, and what is put together is
the datagram. -/
def GivenBack (d : IpDatagram) (timeout : Int) (frames ordered : List TimedFrag)
    (outputLen : Nat) : Prop :=
  ∃ before f after, frames = before ++ f :: after ∧ f.packet.id = d.id ∧
    (∀ g ∈ after, g.packet.id ≠ d.id) ∧
    ∃ outs e ls out,
      run linkedCall (linkedStoreWith timeout) (frames.map TimedFrag.call) = .ok (outs, ls) ∧
      HandedBack d (ordered.map TimedFrag.frag) before outs e ∧
      reasmAssemble e outputLen = .ok out ∧ d.Restored out

/-- The last fragment of a datagram of twelve octets. -/
def lateFragment : Ipv6Fragment where
  first := 0x60
  flow := [0, 0, 0]
  hopLimit := 64
  src := List.replicate 16 1
  dst := List.replicate 16 2
  exts := [sampleDestopts]
  nxt := ipprotoUdp
  reserved := 0
  offlg := 8
  ident := 7
  payload := [9, 10, 11, 12]
  version := sampleVersion
  flow_len := length_sampleFlow
  src_len := length_sampleSrc
  dst_len := length_sampleDst
  offlg_lt := lastOfflg_lt
  ident_lt := sampleIdent_lt
  plen_lt := by decide

def sampleIpv6 : IpDatagram :=
  .ipv6 {
    first := 0x60
    flow := [0, 0, 0]
    hopLimit := 64
    src := List.replicate 16 1
    dst := List.replicate 16 2
    exts := [sampleDestopts]
    nxt := ipprotoUdp
    payload := [1, 2, 3, 4, 5, 6, 7, 8, 9, 10, 11, 12]
    version := sampleVersion
    flow_len := length_sampleFlow
    src_len := length_sampleSrc
    dst_len := length_sampleDst
    plen_lt := by decide } 7

def lateFrame : TimedFrag := ⟨.ipv6 lateFragment [] (by decide), ⟨1000, 0⟩⟩

def earlyFrame : TimedFrag :=
  ⟨.ipv6 (sampleFragment [sampleDestopts] (by decide) 1 firstOfflg_lt) [0, 0] (by decide), ⟨1010, 0⟩⟩

/-- An IPv6 datagram of 65528 octets, and the packet that is its only fragment. -/
def longDatagram : Ipv6Datagram where
  first := 0x60
  flow := [0, 0, 0]
  hopLimit := 64
  src := List.replicate 16 1
  dst := List.replicate 16 2
  exts := []
  nxt := ipprotoUdp
  payload := List.replicate 65488 0
  version := sampleVersion
  flow_len := length_sampleFlow
  src_len := length_sampleSrc
  dst_len := length_sampleDst
  plen_lt := by
    rw [List.length_replicate]
    decide

def longFragment : Ipv6Fragment where
  first := 0x60
  flow := [0, 0, 0]
  hopLimit := 64
  src := List.replicate 16 1
  dst := List.replicate 16 2
  exts := []
  nxt := ipprotoUdp
  reserved := 0
  offlg := 0
  ident := 7
  payload := List.replicate 65488 0
  version := sampleVersion
  flow_len := length_sampleFlow
  src_len := length_sampleSrc
  dst_len := length_sampleDst
  offlg_lt := by decide
  ident_lt := sampleIdent_lt
  plen_lt := by
    rw [List.length_replicate]
    decide

theorem longFragment_plen : longFragment.plen = 65496 := by
  rw [Ipv6Fragment.plen, longFragment, List.length_replicate]
  rfl

def longFrame : TimedFrag where
  packet := .ipv6 longFragment [] (by
    rw [longFragment_plen]
    decide)
  timestamp := ⟨1000, 0⟩

theorem longFrame_arriving : Arriving (.ipv6 longDatagram 7) 60 [longFrame] [longFrame] where
  split := by
    refine ⟨?_, ?_, [longDatagram.payload], ?_, ⟨?_, ?_⟩, nofun, rfl⟩
    · simp only [List.map_cons, List.map_nil, List.forall_mem_cons]
      exact ⟨rfl, nofun⟩
    · intro f hf
      obtain rfl := Option.some.inj hf
      exact ⟨rfl, rfl, rfl, rfl, rfl⟩
    · exact List.append_nil _
    · intro b hb
      rw [List.mem_singleton.mp hb]
      exact List.ne_nil_of_length_pos (by
        rw [longDatagram, List.length_replicate]
        decide)
    · exact nofun
  perm := List.Perm.refl _
  clock := List.pairwise_singleton _ _
  within := by simp [longFrame]

end Nmsg

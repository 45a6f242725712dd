import Nmsg.Ipreasm.Split
import Nmsg.Proof.FragParse
import Nmsg.Proof.PacketBounds
import Nmsg.Proof.ReasmAgree

/-!
# Extension headers

Three walks pass the headers of an IPv6 packet. Both parsers of datagrams take the length octet of a
header through `ntohs`, which on a little-endian host moves it into the other octet of a 16-bit
number; the reassembly takes it as it is. Where a walk gets to is a matter of how the octets of the
headers read with the lengths it takes them to have.
-/

namespace Nmsg

/-! ### Chains as they are read -/

/-- The octets, behind an octet that announces `type`, are a chain of headers in front of `last`,
each as long as the parsers of datagrams take it to be. -/
inductive ReadAs (host : ByteOrder) (last : UInt8) : UInt8 → Bytes → Prop
  | nil : ReadAs host last last []
  | cons {type nxt length : UInt8} {body rest : Bytes} (exthdr : isExthdr type = true)
      (skipped : type ≠ ipprotoFragment) (size : 2 + body.length = exthdrLen host length)
      (tail : ReadAs host last nxt rest) : ReadAs host last type (nxt :: length :: body ++ rest)

/-- The length of a header is read as what it is. -/
def ReadRight (host : ByteOrder) (h : ExtHeader) : Prop := host = .big ∨ h.length = 0

theorem isExthdr_of_isSkippable {type : UInt8} (h : isSkippable type = true) :
    isExthdr type = true ∧ type ≠ ipprotoFragment := by
  simp only [isSkippable, Bool.or_eq_true, decide_eq_true_iff] at h
  rcases h with (rfl | rfl) | rfl <;> exact ⟨rfl, by decide⟩

theorem ReadRight.exthdrLen {host : ByteOrder} {h : ExtHeader} (hright : ReadRight host h) :
    exthdrLen host h.length = 8 + 8 * h.length.toNat := by
  have hlt := h.length.toNat_lt
  rcases hright with rfl | hzero
  · simp only [Nmsg.exthdrLen, ntohs]
    omega
  · rw [hzero]
    cases host <;> rfl

/-- A chain whose lengths are read right is read as it is. -/
theorem readAs_of_right {host : ByteOrder} {last : UInt8} {exts : List ExtHeader}
    (h : ∀ e ∈ exts, ReadRight host e) :
    ReadAs host last (firstProto last exts) (extOctets last exts) := by
  induction exts with
  | nil => exact .nil
  | cons e exts ih =>
      rw [List.forall_mem_cons] at h
      obtain ⟨hexthdr, hskipped⟩ := isExthdr_of_isSkippable e.skippable
      apply ReadAs.cons hexthdr hskipped
      · rw [h.1.exthdrLen, e.size]
        omega
      · exact ih h.2

/-- On a little-endian host the length of a header is read right just when it is zero. -/
theorem exthdrLen_little_iff (length : UInt8) :
    exthdrLen .little length = 8 + 8 * length.toNat ↔ length = 0 := by
  have hlt := length.toNat_lt
  rw [← UInt8.toNat_inj]
  simp only [exthdrLen, ntohs, UInt8.toNat_zero]
  omega

/-- A header alone in front of what it announces is read as a chain just when its length is right. -/
theorem readAs_singleton_iff {last : UInt8} (hlast : isExthdr last = false) (h : ExtHeader) :
    ReadAs .little last (firstProto last [h]) (extOctets last [h]) ↔ h.length = 0 := by
  constructor
  · intro hread
    rw [← exthdrLen_little_iff]
    generalize hoctets : extOctets last [h] = octets at hread
    generalize firstProto last [h] = type at hread
    cases hread with
    | nil => cases hoctets
    | cons hexthdr hskipped hsize htail =>
        simp only [extOctets, firstProto_nil, List.append_nil, List.cons_append,
          List.cons.injEq] at hoctets
        obtain ⟨rfl, rfl, hbody⟩ := hoctets
        cases htail with
        | nil =>
            have hlen := h.size
            rw [hbody, List.append_nil] at hlen
            omega
        | cons hexthdr' => rw [hlast] at hexthdr'; cases hexthdr'
  · intro hzero
    apply readAs_of_right
    intro e he
    rw [List.mem_singleton.mp he]
    exact Or.inr hzero

/-! ### The walks of the parsers -/

section Walk

variable {host : ByteOrder} {pkt : Bytes} {network len : Nat}

/-- A header is passed by the length it is taken to have. -/
theorem passExthdr_eq {pre body rest : Bytes} {nxt length : UInt8} {w : ExthdrWalk}
    (hpkt : pkt = pre ++ nxt :: length :: body ++ rest) (hpre : network + w.thusfar = pre.length)
    (hroom : exthdrLen host length ≤ w.payloadLen) :
    passExthdr host pkt network w = .ok (some { w with
      nexthdr := nxt
      thusfar := w.thusfar + exthdrLen host length
      payloadLen := w.payloadLen - exthdrLen host length }) := by
  have hnxt : octetAt pkt (network + w.thusfar) = .ok nxt := by
    apply octetAt_eq pre
    · rw [hpkt, List.append_assoc, List.cons_append]
    · exact hpre
  have hlength : octetAt pkt (network + w.thusfar + 1) = .ok length := by
    apply octetAt_eq (pre ++ [nxt])
    · rw [hpkt]
      simp only [List.append_assoc, List.cons_append, List.nil_append]
      rfl
    · rw [hpre, List.length_append, List.length_singleton]
  simp only [passExthdr, hnxt, hlength, bind, Except.bind, pure, Except.pure,
    if_neg (Nat.not_lt_of_le hroom)]

theorem passExthdr_ok {w w' : ExthdrWalk} (h : passExthdr host pkt network w = .ok (some w')) :
    ∃ nxt length, octetAt pkt (network + w.thusfar) = .ok nxt ∧
      octetAt pkt (network + w.thusfar + 1) = .ok length ∧
      w' = { w with
        nexthdr := nxt
        thusfar := w.thusfar + exthdrLen host length
        payloadLen := w.payloadLen - exthdrLen host length } := by
  unfold passExthdr at h
  cases hnxt : octetAt pkt (network + w.thusfar) with
  | error e => rw [hnxt] at h; cases h
  | ok nxt =>
      cases hlength : octetAt pkt (network + w.thusfar + 1) with
      | error e => rw [hnxt, hlength] at h; cases h
      | ok length =>
          rw [hnxt, hlength] at h
          simp only [bind, Except.bind, pure, Except.pure] at h
          split at h
          · cases h
          · exact ⟨nxt, length, rfl, rfl, (Option.some.inj (Except.ok.inj h)).symm⟩

/-- A chain is passed to its end. -/
theorem ReadAs.walk {type last : UInt8} {mid : Bytes} (h : ReadAs host last type mid)
    (hlast : isExthdr last = false) :
    ∀ {pre rest : Bytes} {w : ExthdrWalk} {fuel : Nat}, pkt = pre ++ mid ++ rest →
      network + w.thusfar = pre.length → w.nexthdr = type → mid.length ≤ w.payloadLen →
      w.thusfar + mid.length ≤ len → mid.length < fuel →
      exthdrsReasm host pkt network len fuel w = .ok (some { w with
        nexthdr := last
        thusfar := w.thusfar + mid.length
        payloadLen := w.payloadLen - mid.length }) := by
  induction h with
  | nil =>
      intro pre rest w fuel _ _ htype _ _ hfuel
      obtain ⟨fuel, rfl⟩ := Nat.exists_eq_succ_of_ne_zero (Nat.ne_of_gt hfuel)
      rw [exthdrsReasm, htype, hlast, if_neg Bool.false_ne_true, ← htype]
      rfl
  | @cons type nxt length body mid hexthdr hskipped hsize _ ih =>
      intro pre rest w fuel hpkt hpre htype hroom hlen hfuel
      obtain ⟨fuel, rfl⟩ := Nat.exists_eq_succ_of_ne_zero (Nat.ne_of_gt (Nat.lt_of_le_of_lt
        (Nat.zero_le _) hfuel))
      simp only [List.length_append, List.length_cons] at hroom hlen hfuel
      have hpass : passExthdr host pkt network w = .ok (some { w with
          nexthdr := nxt
          thusfar := w.thusfar + exthdrLen host length
          payloadLen := w.payloadLen - exthdrLen host length }) := by
        have hsplit : pkt = pre ++ nxt :: length :: body ++ (mid ++ rest) := by
          rw [hpkt]
          simp only [List.append_assoc, List.cons_append]
        exact passExthdr_eq hsplit hpre (by omega)
      have hrest := @ih (pre ++ nxt :: length :: body) rest { w with
          nexthdr := nxt
          thusfar := w.thusfar + exthdrLen host length
          payloadLen := w.payloadLen - exthdrLen host length } fuel
        (by rw [hpkt]; simp only [List.append_assoc, List.cons_append])
        (by
          simp only [List.length_append, List.length_cons]
          omega)
        rfl (by dsimp only; omega) (by dsimp only; omega) (by omega)
      rw [exthdrsReasm, htype, hexthdr, if_pos rfl, if_neg (by omega), if_neg hskipped, hpass]
      simp only [bind, Except.bind]
      rw [hrest]
      simp only [List.length_append, List.length_cons]
      congr 3 <;> omega

/-- One step of the walk of `_nmsg_ipdg_parse_reasm` that does not end it. -/
theorem exthdrsReasm_step {fuel : Nat} {w w' : ExthdrWalk} (hexthdr : isExthdr w.nexthdr = true)
    (hskipped : w.nexthdr ≠ ipprotoFragment)
    (h : exthdrsReasm host pkt network len (fuel + 1) w = .ok (some w')) :
    ∃ next, passExthdr host pkt network w = .ok (some next) ∧
      exthdrsReasm host pkt network len fuel next = .ok (some w') := by
  rw [exthdrsReasm, if_pos hexthdr, if_neg hskipped] at h
  split at h
  · cases h
  cases hpass : passExthdr host pkt network w with
  | error e => rw [hpass] at h; cases h
  | ok next =>
      rw [hpass] at h
      cases next with
      | none => cases h
      | some next => exact ⟨next, rfl, h⟩

/-- Octets that the walk of `_nmsg_ipdg_parse_reasm` gets over are a chain as they are read. -/
theorem readAs_of_walk : ∀ {fuel : Nat} {w w' : ExthdrWalk} {pre mid rest : Bytes},
    exthdrsReasm host pkt network len fuel w = .ok (some w') → w.isFragment = false →
      w'.isFragment = false → pkt = pre ++ mid ++ rest → network + w.thusfar = pre.length →
      w'.thusfar = w.thusfar + mid.length → ReadAs host w'.nexthdr w.nexthdr mid := by
  intro fuel
  induction fuel with
  | zero => rintro _ _ _ _ _ ⟨⟩
  | succ fuel ih =>
      intro w w' pre mid rest h hfrag hfrag' hpkt hpre hend
      by_cases hexthdr : isExthdr w.nexthdr = true
      · by_cases hfragment : w.nexthdr = ipprotoFragment
        · rw [exthdrsReasm, if_pos hexthdr, if_pos hfragment] at h
          split at h
          · cases h
          · rw [← Option.some.inj (Except.ok.inj h)] at hfrag'
            cases hfrag'
        obtain ⟨next, hpass, hrest⟩ := exthdrsReasm_step hexthdr hfragment h
        obtain ⟨nxt, length, hnxt, hlength, rfl⟩ := passExthdr_ok hpass
        have height := exthdrLen_ge host length
        have hle : w.thusfar + exthdrLen host length ≤ w.thusfar + mid.length :=
          hend ▸ exthdrsReasm_thusfar hrest
        -- the header lies in front of what is left of the chain
        obtain ⟨n, l, tail, rfl⟩ : ∃ n l tail, mid = n :: l :: tail := by
          rcases mid with _ | ⟨n, _ | ⟨l, tail⟩⟩
          · rw [List.length_nil] at hle
            omega
          · rw [List.length_singleton] at hle
            omega
          · exact ⟨n, l, tail, rfl⟩
        have hn : octetAt pkt (network + w.thusfar) = .ok n := by
          apply octetAt_eq pre
          · rw [hpkt, List.append_assoc, List.cons_append]
          · exact hpre
        have hl : octetAt pkt (network + w.thusfar + 1) = .ok l := by
          apply octetAt_eq (pre ++ [n])
          · rw [hpkt]
            simp only [List.append_assoc, List.cons_append, List.nil_append]
            rfl
          · rw [hpre, List.length_append, List.length_singleton]
        obtain rfl := Except.ok.inj (hn.symm.trans hnxt)
        obtain rfl := Except.ok.inj (hl.symm.trans hlength)
        obtain ⟨body, left, rfl, hbody⟩ : ∃ body left, tail = body ++ left ∧
            2 + body.length = exthdrLen host l := by
          simp only [List.length_cons] at hle
          refine ⟨tail.take (exthdrLen host l - 2), tail.drop (exthdrLen host l - 2),
            (List.take_append_drop _ _).symm, ?_⟩
          rw [List.length_take]
          omega
        simp only [List.length_cons, List.length_append] at hend hpkt
        have hsplit : pkt = (pre ++ n :: l :: body) ++ left ++ rest := by
          rw [hpkt]
          simp only [List.append_assoc, List.cons_append]
        have htail := ih hrest hfrag hfrag' hsplit
          (by
            simp only [List.length_append, List.length_cons]
            omega)
          (by
            dsimp only
            omega)
        exact .cons hexthdr hfragment hbody htail
      · rw [exthdrsReasm, if_neg hexthdr] at h
        obtain rfl := Option.some.inj (Except.ok.inj h)
        have hnil : mid = [] := List.length_eq_zero_iff.mp (by omega)
        rw [hnil]
        exact .nil

/-- Where the one parser gets by no Fragment header, the other gets likewise. -/
theorem exthdrsRaw_of_reasm : ∀ {fuel : Nat} {w w' : ExthdrWalk},
    exthdrsReasm host pkt network len fuel w = .ok (some w') → w'.isFragment = false →
      exthdrsRaw host pkt network len fuel w = .ok (some w') := by
  intro fuel
  induction fuel with
  | zero => exact nofun
  | succ fuel ih =>
      intro w w' h hfrag
      rw [exthdrsRaw]
      by_cases hexthdr : isExthdr w.nexthdr = true
      · by_cases hroom : w.thusfar + 2 > len
        · rw [exthdrsReasm, if_pos hexthdr, if_pos hroom] at h
          cases h
        by_cases hfragment : w.nexthdr = ipprotoFragment
        · rw [exthdrsReasm, if_pos hexthdr, if_neg hroom, if_pos hfragment] at h
          rw [← Option.some.inj (Except.ok.inj h)] at hfrag
          cases hfrag
        obtain ⟨next, hpass, hrest⟩ := exthdrsReasm_step hexthdr hfragment h
        rw [if_pos hexthdr, if_neg hroom, if_neg hfragment, hpass]
        exact ih hrest hfrag
      · rw [exthdrsReasm, if_neg hexthdr] at h
        rw [if_neg hexthdr, h]

end Walk

/-! ### Packets -/

/-- A data link header in front of an IPv6 packet. -/
inductive LinkHeader where
  | ethernet (addresses : Bytes) (size : addresses.length = 12)
  | vlan (addresses tag : Bytes) (size : addresses.length = 12) (tagged : tag.length = 2)
  | raw
  | linuxSll (head : Bytes) (size : head.length = 14)

namespace LinkHeader

def datalink : LinkHeader → Datalink
  | ethernet .. | vlan .. => .en10mb
  | raw => .raw
  | linuxSll .. => .linuxSll

def octets : LinkHeader → Bytes
  | ethernet addresses _ => addresses ++ Octets.beBytes 2 ethertypeIpv6
  | vlan addresses tag _ _ =>
      addresses ++ Octets.beBytes 2 ethertypeVlan ++ tag ++ Octets.beBytes 2 ethertypeIpv6
  | raw => []
  | linuxSll head _ => head ++ Octets.beBytes 2 ethertypeIpv6

theorem datalinkHeader_octets (link : LinkHeader) {pkt : Bytes} {first : UInt8} {rest : Bytes}
    (hpkt : pkt = first :: rest) (hsix : ipV first = 6) (hlen : iphdrLen ≤ pkt.length) :
    datalinkHeader link.datalink (link.octets ++ pkt) (link.octets ++ pkt).length =
      .ok (some (ethertypeIpv6, link.octets.length, pkt.length)) := by
  have hne : ¬ ethertypeIpv6 = ethertypeVlan := by decide
  cases link with
  | ethernet addresses size =>
      have htype : loadNet16 (addresses ++ Octets.beBytes 2 ethertypeIpv6 ++ pkt) 12 =
          .ok ethertypeIpv6 := by
        rw [loadNet16_eq addresses rfl size.symm (Octets.length_beBytes 2 _).symm]
        rfl
      have hlength : (addresses ++ Octets.beBytes 2 ethertypeIpv6 ++ pkt).length =
          etherHdrLen + pkt.length := by
        rw [List.length_append, List.length_append, size, Octets.length_beBytes]
        rfl
      simp only [datalink, octets, datalinkHeader, hlength, htype, bind, Except.bind, if_neg hne,
        if_neg (Nat.not_lt.mpr (Nat.le_add_right etherHdrLen pkt.length)), pure, Except.pure,
        Nat.add_sub_cancel_left]
      rw [List.length_append, size, Octets.length_beBytes]
      rfl
  | vlan addresses tag size tagged =>
      have htag : loadNet16 (addresses ++ Octets.beBytes 2 ethertypeVlan ++ tag ++
          Octets.beBytes 2 ethertypeIpv6 ++ pkt) 12 = .ok ethertypeVlan := by
        have hsplit : addresses ++ Octets.beBytes 2 ethertypeVlan ++ tag ++
            Octets.beBytes 2 ethertypeIpv6 ++ pkt = addresses ++ Octets.beBytes 2 ethertypeVlan ++
              (tag ++ Octets.beBytes 2 ethertypeIpv6 ++ pkt) := by
          simp only [List.append_assoc]
        rw [loadNet16_eq addresses hsplit size.symm (Octets.length_beBytes 2 _).symm]
        rfl
      have htype : loadNet16 (addresses ++ Octets.beBytes 2 ethertypeVlan ++ tag ++
          Octets.beBytes 2 ethertypeIpv6 ++ pkt) 16 = .ok ethertypeIpv6 := by
        rw [loadNet16_eq (addresses ++ Octets.beBytes 2 ethertypeVlan ++ tag) rfl
          (by simp [size, tagged]) (Octets.length_beBytes 2 _).symm]
        rfl
      have hlength : (addresses ++ Octets.beBytes 2 ethertypeVlan ++ tag ++
          Octets.beBytes 2 ethertypeIpv6 ++ pkt).length = 18 + pkt.length := by
        simp only [List.length_append, size, tagged, Octets.length_beBytes]
      have hroom : ¬ 18 + pkt.length < etherHdrLen := by
        rw [etherHdrLen]
        omega
      have hleft : ¬ 18 + pkt.length - etherHdrLen < 4 := by
        rw [etherHdrLen]
        omega
      simp only [datalink, octets, datalinkHeader, hlength, htag, htype, bind, Except.bind,
        if_neg hroom, if_neg hleft, if_true, pure, Except.pure, Nat.add_sub_cancel_left]
      simp only [List.length_append, size, tagged, Octets.length_beBytes]
  | raw =>
      have hfirst : octetAt pkt 0 = .ok first := octetAt_eq [] hpkt rfl
      have hfour : ¬ 6 = 4 := by decide
      simp only [datalink, octets, datalinkHeader, List.nil_append, if_neg (Nat.not_lt.mpr hlen),
        hfirst, hsix, if_neg hfour, if_true, bind, Except.bind, pure, Except.pure,
        List.length_nil]
  | linuxSll head size =>
      have htype : loadNet16 (head ++ Octets.beBytes 2 ethertypeIpv6 ++ pkt) etherHdrLen =
          .ok ethertypeIpv6 := by
        rw [loadNet16_eq (i := etherHdrLen) head rfl size.symm (Octets.length_beBytes 2 _).symm]
        rfl
      have hlength : (head ++ Octets.beBytes 2 ethertypeIpv6 ++ pkt).length = 16 + pkt.length := by
        rw [List.length_append, List.length_append, size, Octets.length_beBytes]
      simp only [datalink, octets, datalinkHeader, hlength, htype, bind, Except.bind,
        if_neg (Nat.not_lt.mpr (Nat.le_add_right 16 pkt.length)), pure, Except.pure,
        Nat.add_sub_cancel_left]
      rw [List.length_append, size, Octets.length_beBytes]

end LinkHeader

namespace Ipv6Datagram

variable (d : Ipv6Datagram)

/-- The header of 40 octets. -/
def fixedHeader : Bytes :=
  [d.first] ++ d.flow ++ Octets.beBytes 2 (extLen d.exts + d.payload.length) ++
    [firstProto d.nxt d.exts, d.hopLimit] ++ d.src ++ d.dst

theorem octets_eq : d.octets = d.fixedHeader ++ extOctets d.nxt d.exts ++ d.payload := rfl

@[simp]
theorem length_fixedHeader : d.fixedHeader.length = 40 := by
  simp only [fixedHeader, List.length_append, Octets.length_beBytes, d.flow_len, d.src_len,
    d.dst_len, List.length_cons, List.length_nil]

theorem length_octets : d.octets.length = 40 + (extLen d.exts + d.payload.length) := by
  rw [octets_eq, List.length_append, List.length_append, length_fixedHeader, length_extOctets,
    Nat.add_assoc]

section Read

variable {pkt : Bytes} (pre : Bytes) {rest : Bytes}

theorem octetAt_first (hpkt : pkt = pre ++ d.octets ++ rest) :
    octetAt pkt pre.length = .ok d.first := by
  apply octetAt_eq pre
  · rw [hpkt, List.append_assoc]
    simp only [octets, List.append_assoc, List.cons_append, List.nil_append]
    rfl
  · rfl

theorem octetAt_nxt (hpkt : pkt = pre ++ d.octets ++ rest) :
    octetAt pkt (pre.length + 6) = .ok (firstProto d.nxt d.exts) := by
  apply octetAt_eq (pre ++ ([d.first] ++ d.flow ++
    Octets.beBytes 2 (extLen d.exts + d.payload.length)))
  · rw [hpkt]
    simp only [octets, List.append_assoc, List.cons_append, List.nil_append]
    rfl
  · simp [d.flow_len]

theorem loadNet16_plen (hpkt : pkt = pre ++ d.octets ++ rest) :
    loadNet16 pkt (pre.length + 4) = .ok (extLen d.exts + d.payload.length) := by
  have hlt : extLen d.exts + d.payload.length < 256 ^ 2 := d.plen_lt
  rw [loadNet16_eq (pre ++ ([d.first] ++ d.flow))
    (b := Octets.beBytes 2 (extLen d.exts + d.payload.length))]
  · rw [Octets.beNat_beBytes_of_lt hlt]
  · rw [hpkt]
    simp only [octets, List.append_assoc]
    rfl
  · simp [d.flow_len]
  · simp

end Read

end Ipv6Datagram

section Parse

variable {host : ByteOrder} {d : Ipv6Datagram} {pkt pre rest : Bytes}

/-- Where the walk over the headers of a packet starts. -/
def Ipv6Datagram.startWalk (d : Ipv6Datagram) : ExthdrWalk where
  nexthdr := firstProto d.nxt d.exts
  thusfar := ip6hdrLen
  payloadLen := extLen d.exts + d.payload.length
  isFragment := false
  isInitialFragment := false
  fragHdrOffset := 0

/-- The IPv6 case of the parsers asks the walk, and nothing else. -/
theorem ipv6Header_eq (walk : Nat → ExthdrWalk → Except Abort (Option ExthdrWalk))
    (hpkt : pkt = pre ++ d.octets ++ rest) {len : Nat} (hlen : ip6hdrLen ≤ len) :
    ipv6Header walk pkt pre.length len =
      (do
        match ← walk (extLen d.exts + d.payload.length + 1) d.startWalk with
        | none => return none
        | some w =>
            if w.thusfar + w.payloadLen > len ∨ w.payloadLen = 0 then return none
            else
              return some {
                protoNetwork := .inet6
                protoTransport := w.nexthdr
                next := pre.length + w.thusfar
                len := len - w.thusfar
                isFragment := w.isFragment
                isInitialFragment := w.isInitialFragment
                fragHdrOffset := w.fragHdrOffset }) := by
  have hsix : ¬ (ipV d.first ≠ 6) := not_not.mpr d.version
  rw [ipv6Header, if_neg (Nat.not_lt.mpr hlen)]
  simp only [d.octetAt_first pre hpkt, d.octetAt_nxt pre hpkt, d.loadNet16_plen pre hpkt, bind,
    Except.bind, if_neg hsix]
  rfl

/-- The walk of a parser ends behind the headers of a packet whose chain it reads as one. -/
theorem ReadAs.datagram (h : ReadAs host d.nxt (firstProto d.nxt d.exts) (extOctets d.nxt d.exts))
    (hlast : isExthdr d.nxt = false) (hpkt : pkt = pre ++ d.octets ++ rest) {len : Nat}
    (hlen : d.octets.length ≤ len) :
    exthdrsReasm host pkt pre.length len (extLen d.exts + d.payload.length + 1) d.startWalk =
      .ok (some { d.startWalk with
        nexthdr := d.nxt
        thusfar := 40 + extLen d.exts
        payloadLen := d.payload.length }) := by
  rw [d.length_octets] at hlen
  have hsplit : pkt = (pre ++ d.fixedHeader) ++ extOctets d.nxt d.exts ++ (d.payload ++ rest) := by
    rw [hpkt, d.octets_eq]
    simp only [List.append_assoc]
  have hstart : pre.length + d.startWalk.thusfar = (pre ++ d.fixedHeader).length := by
    rw [List.length_append, d.length_fixedHeader]
    rfl
  have hwalk : exthdrsReasm host pkt pre.length len (extLen d.exts + d.payload.length + 1)
      d.startWalk = .ok (some { d.startWalk with
        nexthdr := d.nxt
        thusfar := d.startWalk.thusfar + (extOctets d.nxt d.exts).length
        payloadLen := d.startWalk.payloadLen - (extOctets d.nxt d.exts).length }) :=
    h.walk hlast hsplit hstart rfl
    (by rw [length_extOctets]; exact Nat.le_add_right _ _)
    (by
      rw [length_extOctets]
      change 40 + extLen d.exts ≤ len
      omega)
    (by rw [length_extOctets]; omega)
  rw [length_extOctets] at hwalk
  rw [hwalk]
  simp only [Ipv6Datagram.startWalk, Nat.add_sub_cancel_left]
  rfl

/-- The network header of a packet whose chain is read as one. -/
def Ipv6Datagram.parsedHeader (d : Ipv6Datagram) (network len : Nat) : NetworkHeader where
  protoNetwork := .inet6
  protoTransport := d.nxt
  next := network + (40 + extLen d.exts)
  len := len - (40 + extLen d.exts)
  isFragment := false
  isInitialFragment := false
  fragHdrOffset := 0

/-- A packet of UDP whose chain is read as one, by a walk that gets where that of
`_nmsg_ipdg_parse_reasm` gets. -/
theorem ReadAs.networkHeader (h : ReadAs host d.nxt (firstProto d.nxt d.exts) (extOctets d.nxt d.exts))
    (hudp : d.nxt = ipprotoUdp) (hsize : udphdrLen ≤ d.payload.length)
    (hpkt : pkt = pre ++ d.octets ++ rest) {len : Nat} (hlen : d.octets.length ≤ len)
    {walk : Nat → ExthdrWalk → Except Abort (Option ExthdrWalk)}
    (hwalk : ∀ fuel w w', exthdrsReasm host pkt pre.length len fuel w = .ok (some w') →
      w'.isFragment = false → walk fuel w = .ok (some w')) :
    Nmsg.networkHeader walk ethertypeIpv6 pkt pre.length len =
      .ok (some (d.parsedHeader pre.length len)) := by
  have hlast : isExthdr d.nxt = false := by
    rw [hudp]
    rfl
  have hroom := d.length_octets
  have hudphdr : udphdrLen = 8 := rfl
  have hleft : ¬ (40 + extLen d.exts + d.payload.length > len ∨ d.payload.length = 0) := by omega
  have hetype : ¬ ethertypeIpv6 = ethertypeIp := by decide
  rw [Nmsg.networkHeader, if_neg hetype, if_pos rfl,
    ipv6Header_eq walk hpkt (by rw [ip6hdrLen]; omega),
    hwalk _ _ _ (h.datagram hlast hpkt hlen) rfl]
  simp only [bind, Except.bind, if_neg hleft]
  rfl

end Parse

/-! ### Where the three walks get -/

/-- Both parsers of datagrams take the octets behind the chain for UDP, and the reassembly finds a
Fragment header there in a packet with the same chain. -/
structure SkippedByLength (host : ByteOrder) (link : LinkHeader) (d : Ipv6Datagram)
    (padding : Bytes) : Prop where
  parse : ∃ dg, nmsgIpdgParse host ethertypeIpv6 (d.octets ++ padding).length
      (d.octets ++ padding) = .ok (some dg) ∧
    dg.protoTransport = ipprotoUdp ∧ dg.network = 0 ∧ dg.transport = some (40 + extLen d.exts)
  parsePcapRaw : ∃ dg, nmsgIpdgParsePcapRaw host link.datalink
      (link.octets ++ (d.octets ++ padding)) (link.octets ++ (d.octets ++ padding)).length =
        .ok (some dg) ∧
    dg.protoTransport = ipprotoUdp ∧ dg.network = link.octets.length ∧
      dg.transport = some (link.octets.length + (40 + extLen d.exts))
  fragFromIpv6 : ∀ p : Ipv6Fragment, p.exts = d.exts → 40 + p.plen < 65536 → ∃ lastNxt,
    fragHeader p.octets (40 + p.plen) (40 + p.plen + 1) (firstProto ipprotoFragment p.exts) 6
      ip6hdrLen = .ok (some (40 + extLen d.exts, lastNxt))

section Skipped

variable {host : ByteOrder} {link : LinkHeader} {d : Ipv6Datagram} {padding : Bytes}

theorem ReadAs.skipped (h : ReadAs host d.nxt (firstProto d.nxt d.exts) (extOctets d.nxt d.exts))
    (hudp : d.nxt = ipprotoUdp) (hsize : udphdrLen ≤ d.payload.length) :
    SkippedByLength host link d padding := by
  have hudphdr : udphdrLen = 8 := rfl
  have hlength := d.length_octets
  have hcaptured : (d.octets ++ padding).length = d.octets.length + padding.length :=
    List.length_append
  refine ⟨?_, ?_, ?_⟩
  · have hpkt : d.octets ++ padding = [] ++ d.octets ++ padding := rfl
    have hle : d.octets.length ≤ (d.octets ++ padding).length := by omega
    have hwalk : ∀ fuel w w', exthdrsReasm host (d.octets ++ padding) ([] : Bytes).length
        (d.octets ++ padding).length fuel w = .ok (some w') → w'.isFragment = false →
          exthdrsReasm host (d.octets ++ padding) 0 (d.octets ++ padding).length fuel w =
            .ok (some w') := fun _ _ _ hw _ => hw
    have hheader := h.networkHeader hudp hsize hpkt hle hwalk
    have hudplen : udphdrLen ≤ (d.octets ++ padding).length - (40 + extLen d.exts) := by omega
    have hudpend : 0 + (40 + extLen d.exts) + 6 ≤ (d.octets ++ padding).length := by omega
    obtain ⟨⟨payload, lenPayload⟩, hr⟩ := udpPayload_ok hudplen hudpend
    rw [nmsgIpdgParse]
    rw [List.length_nil] at hheader
    simp only [hheader, Ipv6Datagram.parsedHeader, bind, Except.bind, hudp, if_true,
      Bool.false_eq_true, if_false, hr, pure, Except.pure, withTransport]
    exact ⟨_, rfl, rfl, rfl, congrArg some (Nat.zero_add _)⟩
  · have hpkt : link.octets ++ (d.octets ++ padding) = link.octets ++ d.octets ++ padding :=
      (List.append_assoc _ _ _).symm
    have hfirst : d.octets ++ padding = d.first :: (d.octets ++ padding).tail := by
      simp only [Ipv6Datagram.octets, List.cons_append, List.nil_append, List.tail_cons]
    have hlink := link.datalinkHeader_octets hfirst d.version (by rw [iphdrLen]; omega)
    have hle : d.octets.length ≤ (d.octets ++ padding).length := by omega
    have hwalk : ∀ fuel w w', exthdrsReasm host (link.octets ++ (d.octets ++ padding))
        link.octets.length (d.octets ++ padding).length fuel w = .ok (some w') →
          w'.isFragment = false →
            exthdrsRaw host (link.octets ++ (d.octets ++ padding)) link.octets.length
              (d.octets ++ padding).length fuel w = .ok (some w') :=
      fun _ _ _ hw hfrag => exthdrsRaw_of_reasm hw hfrag
    have hheader := h.networkHeader hudp hsize hpkt hle hwalk
    have hudplen : udphdrLen ≤ (d.octets ++ padding).length - (40 + extLen d.exts) := by omega
    have hudpend : link.octets.length + (40 + extLen d.exts) + 6 ≤
        (link.octets ++ (d.octets ++ padding)).length := by
      rw [List.length_append]
      omega
    obtain ⟨⟨payload, lenPayload⟩, hr⟩ := udpPayload_ok hudplen hudpend
    rw [nmsgIpdgParsePcapRaw]
    simp only [hlink, hheader, Ipv6Datagram.parsedHeader, bind, Except.bind, hudp, if_true,
      Bool.false_and, Bool.false_eq_true, if_false, transportPayloadRaw, hr, pure, Except.pure,
      withTransport]
    exact ⟨_, rfl, rfl, rfl, rfl⟩
  · intro p hexts _
    have hwalk := p.fragHeader_octets [] (40 + p.plen) (by rw [Ipv6Fragment.plen]; omega)
    rw [List.append_nil, hexts] at hwalk
    rw [hexts]
    exact ⟨_, hwalk⟩

/-- The parser that gets behind the chain has read it as one. -/
theorem SkippedByLength.readAs (h : SkippedByLength host link d padding) :
    ReadAs host ipprotoUdp (firstProto d.nxt d.exts) (extOctets d.nxt d.exts) := by
  obtain ⟨dg, hparse, -, -, htransport⟩ := h.parse
  have hlen : ip6hdrLen ≤ (d.octets ++ padding).length := by
    rw [List.length_append, d.length_octets, ip6hdrLen]
    omega
  have hetype : ¬ ethertypeIpv6 = ethertypeIp := by decide
  obtain ⟨header, hheader⟩ := nmsgIpdgParse_some hparse
  rw [nmsgIpdgParse_eq hheader] at hparse
  -- the parser was behind the network header, at a transport header of UDP
  by_cases hfrag : header.isFragment = true
  · rw [if_pos hfrag] at hparse
    cases hparse
  by_cases hudp : header.protoTransport = ipprotoUdp
  swap
  · rw [if_neg hfrag, if_neg hudp] at hparse
    cases hparse
  rw [if_neg hfrag, if_pos hudp] at hparse
  obtain ⟨payload, -, hdg⟩ := Outcome.bind_eq_ok.mp hparse
  have hnext : header.next = 40 + extLen d.exts := by
    cases payload with
    | none => cases hdg
    | some payload =>
        obtain rfl := Option.some.inj (Except.ok.inj hdg)
        exact Option.some.inj htransport
  -- so the walk had passed the chain
  have hpkt : d.octets ++ padding = [] ++ d.octets ++ padding := rfl
  have hwalk := ipv6Header_eq
    (exthdrsReasm host (d.octets ++ padding) 0 (d.octets ++ padding).length) hpkt hlen
  rw [List.length_nil] at hwalk
  rw [networkHeader, if_neg hetype, if_pos rfl, hwalk] at hheader
  obtain ⟨w, hw, hheader⟩ := Outcome.bind_eq_ok.mp hheader
  cases w with
  | none => cases hheader
  | some w =>
      dsimp only at hheader
      split at hheader
      · cases hheader
      obtain rfl := Option.some.inj (Except.ok.inj hheader)
      rw [← hudp]
      have hsplit : d.octets ++ padding =
          d.fixedHeader ++ extOctets d.nxt d.exts ++ (d.payload ++ padding) := by
        rw [d.octets_eq]
        simp only [List.append_assoc]
      apply readAs_of_walk hw rfl (Bool.eq_false_iff.mpr hfrag) hsplit
      · rw [d.length_fixedHeader]
        rfl
      · rw [length_extOctets]
        dsimp only at hnext
        rw [← Nat.zero_add w.thusfar, hnext]
        rfl

end Skipped

/-- **The headers of a UDP packet are skipped by their length just when the parsers read them as a
chain.** So they are when each length octet is read right; when one is not, its octets have to look
like a chain with the lengths that are read. -/
theorem exthdrs_skipped_iff (host : ByteOrder) (link : LinkHeader) {d : Ipv6Datagram}
    (hudp : d.nxt = ipprotoUdp) (hsize : udphdrLen ≤ d.payload.length) (padding : Bytes) :
    SkippedByLength host link d padding ↔
      (∀ h ∈ d.exts, host = .big ∨ h.length = 0) ∨
        ReadAs host ipprotoUdp (firstProto ipprotoUdp d.exts) (extOctets ipprotoUdp d.exts) := by
  constructor
  · intro h
    rw [← hudp]
    exact Or.inr (hudp ▸ h.readAs)
  · intro h
    have hread : ReadAs host d.nxt (firstProto d.nxt d.exts) (extOctets d.nxt d.exts) := by
      rcases h with hright | hread
      · exact readAs_of_right hright
      · rwa [hudp]
    exact hread.skipped hudp hsize

/-- A UDP packet with eight octets of payload, the UDP header, behind the headers `exts`. -/
def sampleUdpPacket (exts : List ExtHeader) (hlen : extLen exts < 65520) : Ipv6Datagram where
  first := 0x60
  flow := [0, 0, 0]
  hopLimit := 64
  src := List.replicate 16 1
  dst := List.replicate 16 2
  exts := exts
  nxt := ipprotoUdp
  payload := [0, 53, 0, 53, 0, 8, 0, 0]
  version := sampleVersion
  flow_len := length_sampleFlow
  src_len := length_sampleSrc
  dst_len := length_sampleDst
  plen_lt := by
    simp only [List.length_cons, List.length_nil]
    omega

theorem exthdrs_skipped_iff_sample :
    SkippedByLength .little .raw (sampleUdpPacket [sampleDestopts] (by decide)) [0, 0] ↔
      (∀ h ∈ [sampleDestopts], ByteOrder.little = .big ∨ h.length = 0) ∨
        ReadAs .little ipprotoUdp ipprotoDstopts (extOctets ipprotoUdp [sampleDestopts]) :=
  exthdrs_skipped_iff .little .raw (d := sampleUdpPacket [sampleDestopts] (by decide)) rfl
    (by decide) [0, 0]

/-- Destination Options of 16 octets. -/
def longDestopts : ExtHeader where
  proto := ipprotoDstopts
  length := 1
  body := List.replicate 14 0
  skippable := destopts_skippable
  size := rfl

/-- On a little-endian host a header of 16 octets is taken for one of 2056. -/
theorem long_exthdr_refused :
    ¬ ∀ (host : ByteOrder) (link : LinkHeader) (d : Ipv6Datagram) (padding : Bytes),
      d.nxt = ipprotoUdp → udphdrLen ≤ d.payload.length → SkippedByLength host link d padding := by
  intro h
  have hread := (h .little .raw (sampleUdpPacket [longDestopts] (by decide)) [] rfl
    (by decide)).readAs
  have hzero := (readAs_singleton_iff rfl longDestopts).mp hread
  exact absurd hzero (by decide)

end Nmsg

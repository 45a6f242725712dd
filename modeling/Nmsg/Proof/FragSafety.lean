import Nmsg.Input.Sock
import Nmsg.Proof.ContainerRoundTrip

/-!
# Fragments from anywhere

A fragment is harmless when its index lies within the node it goes to, it agrees with that node
about the number of slots, that number can be represented, and it has octets to mark its slot with.
While all fragments are, no slot outside a node is touched, no assertion fails, and the counter of
every node is the number of its empty slots.
-/

namespace Nmsg

/-- Slots not yet received. -/
def Frag.missing (fent : Frag) : Nat := fent.frags.count []

/-- The node has `last + 1` slots, and `rem` counts the empty ones. -/
structure Frag.Counted (fent : Frag) : Prop where
  slots : fent.frags.length = fent.last.toNat + 1
  rem : fent.rem.toNat = fent.missing

def Decoder.Counted {z : Zlib} (d : Decoder z) : Prop := ∀ fent ∈ d.nft.nodes, fent.Counted

/-- A fragment that does no harm. The node it opens must be possible, and the fragment must lie
within its node and mark its slot. -/
def FragmentFits {z : Zlib} (d : Decoder z) (env : CallEnv) (arrival : Arrival)
    (nfrag : NmsgFragment) : Prop :=
  match d.nft.find (fragKey arrival nfrag) with
  | none =>
      env.fentOk = true → env.fragsOk = true →
        nfrag.last.toNat + 1 < 2 ^ 32 ∧ nfrag.current ≤ nfrag.last ∧ nfrag.fragment ≠ []
  | some fent =>
      fent.last = nfrag.last ∧ nfrag.current ≤ nfrag.last ∧
        (nfrag.fragment ≠ [] ∨ fent.frags[nfrag.current.toNat]? ≠ some [])

/-- The fragment a call delivers to `_input_frag_read`, if it delivers one. -/
def RecvCall.fragment (pb : ProtobufC) (call : RecvCall) : Option (Arrival × NmsgFragment) :=
  match call.event with
  | .datagram now addrSs bytes =>
      let buf := bytes.take (rbufsz / 2)
      if buf.length < hdrlszV2 then none
      else
        match inputNmsgDeserializeHeader buf buf.length with
        | .ok (.ok (flags, msgsize)) =>
            if buf.length - hdrlszV2 = msgsize ∧ flags &&& flagFragment ≠ 0 then
              (pb.unpackFragment (buf.drop hdrlszV2)).map fun nfrag =>
                (⟨flags, now, addrSs⟩, nfrag)
            else none
        | _ => none
  | _ => none

/-! ### Reassembly -/

theorem collectFrags_eq {frags : List Bytes} (h : [] ∉ frags) :
    collectFrags frags = .ok frags.flatten := by
  induction frags with
  | nil => rfl
  | cons data rest ih =>
      simp only [List.mem_cons, not_or] at h
      rw [collectFrags, if_neg (Ne.symm h.1), ih h.2]
      rfl

section Steps

variable {pb : ProtobufC} {z : Zlib} {env : CallEnv} {arrival : Arrival} {d : Decoder z}
  {fent : Frag}

theorem Decoder.Counted.put (h : d.Counted) (hfent : fent.Counted) :
    ∀ f ∈ (d.nft.put fent).nodes, f.Counted := by
  intro f hf
  rcases List.mem_cons.mp hf with rfl | hmem
  · exact hfent
  · exact h f (List.mem_of_mem_filter hmem)

/-- A complete node is reassembled, and nothing is left of it, or all of it. -/
theorem reassembleFrags_ok (hd : d.Counted) (hfent : fent.Counted) (hrem : fent.rem = 0) :
    ∃ res nmsg d', reassembleFrags pb env arrival d fent = .ok (res, nmsg, d') ∧ d'.Counted := by
  have hmissing : fent.missing = 0 := by rw [← hfent.rem, hrem]; rfl
  have hcollect := collectFrags_eq (List.count_eq_zero.mp hmissing)
  have herase : ∀ f ∈ (d.nft.erase fent.key).nodes, f.Counted :=
    fun f hf => hd f (List.mem_of_mem_filter hf)
  have hslots := hfent.slots
  simp only [reassembleFrags, hcollect]
  rw [if_neg (by omega)]
  split
  · exact ⟨_, _, _, rfl, hd⟩
  · split
    · split <;> exact ⟨_, _, _, rfl, herase⟩
    · exact ⟨_, _, _, rfl, herase⟩

theorem attachFrag_ok {nfrag : NmsgFragment} (hd : d.Counted) (hfent : fent.Counted)
    (hcurrent : nfrag.current.toNat ≤ fent.last.toNat)
    (hmark : nfrag.fragment ≠ [] ∨ fent.frags[nfrag.current.toNat]? ≠ some []) :
    ∃ res nmsg d', attachFrag pb env arrival d fent nfrag = .ok (res, nmsg, d') ∧
      d'.Counted := by
  have hslots := hfent.slots
  have hlt : nfrag.current.toNat < fent.frags.length := by omega
  have hslot := List.getElem?_eq_getElem hlt
  unfold attachFrag
  rw [hslot]
  by_cases hdata : fent.frags[nfrag.current.toNat] = []
  · have hfragment : nfrag.fragment ≠ [] := by
      rcases hmark with h | h
      · exact h
      · rw [hslot, hdata] at h
        exact absurd rfl h
    have hcount : (fent.frags.set nfrag.current.toNat nfrag.fragment).count [] + 1 =
        fent.frags.count [] := by
      have hpos : 0 < fent.frags.count [] :=
        List.count_pos_iff.mpr (hdata ▸ List.getElem_mem hlt)
      rw [List.count_set hlt]
      simp [hdata, hfragment]
      omega
    have hcounted : Frag.Counted { fent with
        frags := fent.frags.set nfrag.current.toNat nfrag.fragment
        rem := fent.rem - 1 } := by
      refine ⟨by simpa using hslots, ?_⟩
      have hrem := hfent.rem
      have hone : (1 : UInt32).toNat = 1 := rfl
      simp only [Frag.missing] at hrem ⊢
      rw [UInt32.toNat_sub_of_le _ _ (UInt32.le_iff_toNat_le.mpr (by omega))]
      omega
    simp only [hdata, ne_eq, not_true_eq_false, if_false]
    split
    · rename_i hrem
      exact reassembleFrags_ok (hd.put hcounted) hcounted hrem
    · exact ⟨_, _, _, rfl, hd.put hcounted⟩
  · simp only [ne_eq, hdata, not_false_eq_true, if_true]
    exact ⟨_, _, _, rfl, hd⟩

theorem newFrag_counted {nfrag : NmsgFragment} (h : nfrag.last.toNat + 1 < 2 ^ 32) :
    (newFrag arrival nfrag).Counted := by
  have hone : (1 : UInt32).toNat = 1 := rfl
  have hnext : (nfrag.last + 1).toNat = nfrag.last.toNat + 1 := by
    rw [UInt32.toNat_add, hone, Nat.mod_eq_of_lt h]
  constructor
  · simp [newFrag, hnext]
  · simp [newFrag, Frag.missing]

theorem inputFragRead_ok {buf : Bytes} (hd : d.Counted)
    (hfits : ∀ nfrag, pb.unpackFragment buf = some nfrag → FragmentFits d env arrival nfrag) :
    ∃ res nmsg d', inputFragRead pb env arrival d buf = .ok (res, nmsg, d') ∧ d'.Counted := by
  unfold inputFragRead
  cases hunpack : pb.unpackFragment buf with
  | none => exact ⟨_, _, _, rfl, hd⟩
  | some nfrag =>
      have hnfrag := hfits nfrag hunpack
      unfold FragmentFits at hnfrag
      cases hfind : d.nft.find (fragKey arrival nfrag) with
      | none =>
          simp only [hfind] at hnfrag ⊢
          split
          · exact ⟨_, _, _, rfl, hd⟩
          split
          · exact ⟨_, _, _, rfl, hd⟩
          rename_i hfent hfrags
          obtain ⟨hlast, hcurrent, hfragment⟩ := hnfrag (by simpa using hfent) (by simpa using hfrags)
          have hnew : (newFrag arrival nfrag).Counted := newFrag_counted hlast
          exact attachFrag_ok (hd.put hnew) hnew (UInt32.le_iff_toNat_le.mp hcurrent)
            (Or.inl hfragment)
      | some fent =>
          simp only [hfind] at hnfrag ⊢
          obtain ⟨hlast, hcurrent, hmark⟩ := hnfrag
          rw [if_neg (by simpa using hlast)]
          refine attachFrag_ok hd (hd fent (KeyTree.mem_of_find hfind)) ?_ hmark
          rw [hlast]
          exact UInt32.le_iff_toNat_le.mp hcurrent

theorem inputNmsgUnpackContainer_ok {buf : Bytes} (hd : d.Counted)
    (hfits : arrival.flags &&& flagFragment ≠ 0 → ∀ nfrag,
      pb.unpackFragment buf = some nfrag → FragmentFits d env arrival nfrag) :
    ∃ res nmsg d', inputNmsgUnpackContainer pb env arrival d buf = .ok (res, nmsg, d') ∧
      d'.Counted := by
  unfold inputNmsgUnpackContainer
  split
  · rename_i hflag
    exact inputFragRead_ok hd (hfits hflag)
  · split
    · split
      · split <;> exact ⟨_, _, _, rfl, hd⟩
      · exact ⟨_, _, _, rfl, hd⟩
    · split <;> exact ⟨_, _, _, rfl, hd⟩

end Steps

/-! ### Runs -/

section Runs

variable (pb : ProtobufC) {z : Zlib}

/-- Every node has its slots, and its counter is right. -/
def SockInput.FragsCounted (s : SockInput z) : Prop := s.decoder.Counted

/-- A fragment delivered by the call does no harm. -/
def CallHarmless (s : SockInput z) (call : RecvCall) : Prop :=
  ∀ arrival nfrag, call.fragment pb = some (arrival, nfrag) →
    FragmentFits s.decoder call.env arrival nfrag

variable {pb}

@[simp]
theorem sockCount_decoder (s : SockInput z) (nmsg : ProtoNmsg) :
    (sockCount s nmsg).decoder = s.decoder := by
  unfold sockCount
  simp only
  split <;> rfl

@[simp]
theorem sockCount_now (s : SockInput z) (nmsg : ProtoNmsg) : (sockCount s nmsg).now = s.now := by
  unfold sockCount
  simp only
  split <;> rfl

theorem sockGc_counted {s : SockInput z} (h : s.FragsCounted) : (sockGc s).FragsCounted := by
  simp only [sockGc, inputFragGc]
  by_cases hold : ¬ (s.decoder.nfrags > 0 ∧ s.now.sec - s.lastgc.sec ≥ fragGcInterval)
  · simpa only [if_pos hold] using h
  · simp only [if_neg hold]
    intro fent hfent
    exact h fent (List.mem_of_mem_filter hfent)

/-- The header read from a whole datagram. -/
theorem inputNmsgDeserializeHeader_total {buf : Bytes} (h : hdrlszV2 ≤ buf.length) :
    ∃ out, inputNmsgDeserializeHeader buf buf.length = .ok out := by
  have hfour : ¬ buf.length < 4 := by simp only [hdrlszV2] at h; omega
  have hlen : ¬ buf.length < lenhdrszV2 := hfour
  have hsix : ¬ buf.length < hdrsz := by simp only [hdrlszV2, hdrsz] at h ⊢; omega
  have hten : ¬ buf.length < hdrlszV2 := by omega
  simp only [inputNmsgDeserializeHeader, hfour, hlen, hsix, hten, if_false]
  split
  · exact ⟨_, rfl⟩
  split <;> exact ⟨_, rfl⟩

theorem sockUnpack_ok {env : CallEnv} {s : SockInput z} {buf : Bytes} (h : s.FragsCounted)
    (hfits : hdrlszV2 ≤ buf.length → ∀ flags msgsize,
      inputNmsgDeserializeHeader buf buf.length = .ok (.ok (flags, msgsize)) →
      buf.length - hdrlszV2 = msgsize → flags &&& flagFragment ≠ 0 → ∀ nfrag,
      pb.unpackFragment (buf.drop hdrlszV2) = some nfrag →
      FragmentFits s.decoder env ⟨flags, s.now, s.addrSs⟩ nfrag) :
    ∃ r s', sockUnpack pb env s buf = .ok (r, s') ∧ s'.FragsCounted := by
  unfold sockUnpack
  split
  · exact ⟨_, _, rfl, h⟩
  rename_i hlen
  obtain ⟨out, hheader⟩ := inputNmsgDeserializeHeader_total (Nat.not_lt.mp hlen)
  rw [hheader]
  rcases out with res | ⟨flags, msgsize⟩
  · exact ⟨_, _, rfl, h⟩
  simp only
  split
  · exact ⟨_, _, rfl, h⟩
  rename_i hsize
  have hfits' : flags &&& flagFragment ≠ 0 → ∀ nfrag,
      pb.unpackFragment (buf.drop hdrlszV2) = some nfrag →
      FragmentFits s.decoder env ⟨flags, s.now, s.addrSs⟩ nfrag :=
    hfits (by omega) flags msgsize hheader (by simpa using hsize)
  obtain ⟨res, nmsg, decoder, hunpack, hcounted⟩ : ∃ res nmsg d',
      inputNmsgUnpackContainer pb env ⟨flags, s.now, s.addrSs⟩ s.decoder (buf.drop hdrlszV2) =
        .ok (res, nmsg, d') ∧ d'.Counted := inputNmsgUnpackContainer_ok h hfits'
  rw [hunpack]
  refine ⟨_, _, rfl, sockGc_counted ?_⟩
  cases nmsg with
  | none => exact hcounted
  | some nmsg =>
      simp only [SockInput.FragsCounted, sockCount_decoder]
      exact hcounted

/-- One call keeps every counter right, if its fragment does no harm. -/
theorem inputNmsgReadContainerSock_ok {s : SockInput z} {call : RecvCall} (h : s.FragsCounted)
    (hcall : CallHarmless pb s call) :
    ∃ r s', inputNmsgReadContainerSock pb s call = .ok (r, s') ∧ s'.FragsCounted := by
  unfold inputNmsgReadContainerSock
  unfold CallHarmless RecvCall.fragment at hcall
  cases hevent : call.event with
  | pollAgain => exact ⟨_, _, rfl, h⟩
  | pollFailure => exact ⟨_, _, rfl, h⟩
  | recvAgain now => exact ⟨_, _, rfl, h⟩
  | recvFailure now => exact ⟨_, _, rfl, h⟩
  | datagram now addrSs bytes =>
      simp only [hevent] at hcall ⊢
      split
      · exact ⟨_, _, rfl, h⟩
      refine sockUnpack_ok h ?_
      intro hlen flags msgsize hheader hsize hflag nfrag hunpack
      refine hcall _ nfrag ?_
      rw [if_neg (by omega), hheader]
      simp only
      rw [if_pos ⟨hsize, hflag⟩, hunpack]
      rfl

/-- **Hostile fragments.** While every fragment that arrives is one that does no harm, no call on
a socket input leaves the slots of a node or fails an assertion, and in every node `rem` is the
number of slots not yet received. -/
theorem fragments_harmless (pb : ProtobufC) (z : Zlib) (calls : List RecvCall)
    (hcalls : StepRun.Along (inputNmsgReadContainerSock pb) (CallHarmless pb)
      (SockInput.open z) calls) :
    StepRun.Safe (inputNmsgReadContainerSock pb) SockInput.FragsCounted (SockInput.open z)
      calls := by
  refine StepRun.safe_of_along (fun s call hs hcall => inputNmsgReadContainerSock_ok hs hcall) ?_
    hcalls
  intro fent hfent
  cases hfent

end Runs

/-! ### Datagrams with one fragment -/

/-- A datagram that holds a fragment, received while every allocation succeeds. -/
def fragmentCall (pb : ProtobufC) (arrival : Arrival) (nfrag : NmsgFragment) : RecvCall where
  event := .datagram arrival.now arrival.addrSs
    (headerSerialize arrival.flags (pb.packFragment nfrag).length ++ pb.packFragment nfrag)
  env := ⟨[], true, true, true, true⟩

theorem fragment_fragmentCall {pb : ProtobufC} (hpb : pb.Lawful) {arrival : Arrival}
    {nfrag : NmsgFragment} (hflag : arrival.flags &&& flagFragment ≠ 0)
    (hlen : hdrlszV2 + fragmentPackedSize nfrag ≤ rbufsz / 2) :
    (fragmentCall pb arrival nfrag).fragment pb = some (arrival, nfrag) := by
  have hsize := hpb.length_packFragment nfrag
  have hhalf : rbufsz / 2 = 1048576 := rfl
  have htake : (headerSerialize arrival.flags (pb.packFragment nfrag).length ++
      pb.packFragment nfrag).take (rbufsz / 2) =
        headerSerialize arrival.flags (pb.packFragment nfrag).length ++ pb.packFragment nfrag := by
    rw [List.take_of_length_le]
    simp only [List.length_append, length_headerSerialize]
    omega
  have hlength : (headerSerialize arrival.flags (pb.packFragment nfrag).length ++
      pb.packFragment nfrag).length = hdrlszV2 + (pb.packFragment nfrag).length := by
    simp
  have hheader := inputNmsgDeserializeHeader_headerSerialize arrival.flags
    (pb.packFragment nfrag).length (pb.packFragment nfrag)
    (hdrlszV2 + (pb.packFragment nfrag).length) (by omega)
  rw [Nat.mod_eq_of_lt (by omega)] at hheader
  have hdrop : (headerSerialize arrival.flags (pb.packFragment nfrag).length ++
      pb.packFragment nfrag).drop hdrlszV2 = pb.packFragment nfrag :=
    Octets.drop_append_of_length (length_headerSerialize _ _)
  simp only [RecvCall.fragment, fragmentCall, htake, hlength, hheader, hdrop]
  rw [if_neg (by omega), if_pos ⟨by omega, hflag⟩, hpb.unpackFragment_packFragment]
  rfl

/-- What holds of every fragment a call delivers. -/
theorem RecvCall.forall_fragment {pb : ProtobufC} {call : RecvCall} {arrival : Arrival}
    {nfrag : NmsgFragment} {P : Arrival → NmsgFragment → Prop}
    (hcall : call.fragment pb = some (arrival, nfrag)) (h : P arrival nfrag) :
    ∀ arrival' nfrag', call.fragment pb = some (arrival', nfrag') → P arrival' nfrag' := by
  intro arrival' nfrag' hcall'
  rw [hcall, Option.some.injEq, Prod.mk.injEq] at hcall'
  rw [← hcall'.1, ← hcall'.2]
  exact h

/-- A fragment of one octet, from one sender. -/
def sampleFragmentCall (current last : UInt32) (octet : UInt8) : RecvCall :=
  fragmentCall wire ⟨flagFragment, ⟨0, 0⟩, .inet 53 1 []⟩ ⟨7, current, last, [octet], none⟩

theorem fragments_harmless_sample :
    StepRun.Safe (inputNmsgReadContainerSock wire) SockInput.FragsCounted
      (SockInput.open storedZlib) [sampleFragmentCall 1 1 3, sampleFragmentCall 1 1 3] := by
  apply fragments_harmless
  refine StepRun.along_cons (RecvCall.forall_fragment
    (fragment_fragmentCall wire_lawful (by decide) (by decide)) ?_) ?_
  · exact fun _ _ => ⟨by decide, by decide, by decide⟩
  refine StepRun.along_cons (RecvCall.forall_fragment
    (fragment_fragmentCall wire_lawful (by decide) (by decide)) ?_) trivial
  exact ⟨by decide, by decide, Or.inl (by decide)⟩

/-- **A fragment beyond the last.** The slots of the node it opens are left at once. -/
theorem fragment_beyond_last :
    (sampleFragmentCall 1 0 3).fragment wire =
        some (⟨flagFragment, ⟨0, 0⟩, .inet 53 1 []⟩, ⟨7, 1, 0, [3], none⟩) ∧
      inputNmsgReadContainerSock wire (SockInput.open storedZlib) (sampleFragmentCall 1 0 3) =
        .error .outOfBounds ∧
      ¬ StepRun.Safe (inputNmsgReadContainerSock wire) SockInput.FragsCounted
        (SockInput.open storedZlib) [sampleFragmentCall 1 0 3] := by
  have habort : inputNmsgReadContainerSock wire (SockInput.open storedZlib)
      (sampleFragmentCall 1 0 3) = .error .outOfBounds := rfl
  refine ⟨fragment_fragmentCall wire_lawful (by decide) (by decide), habort, ?_⟩
  rintro ⟨-, r, s', hok, -⟩
  rw [habort] at hok
  cases hok

end Nmsg

import Nmsg.Input.Null
import Nmsg.Proof.History
import Nmsg.Proof.LoopRead

/-!
# Three decoders of a datagram

Each of the three finds the same container in a datagram, up to the octets behind it in memory that
inflating may read, and takes the same payloads from it.
-/

namespace Nmsg

variable {pb : ProtobufC} {z : Zlib} {crc32c : Bytes → UInt32} {filter : InputFilter}

/-- The messages of a container that pass, if there is one. -/
def passingOf (crc32c : Bytes → UInt32) (filter : InputFilter) (nmsg : Option ProtoNmsg) :
    List Message :=
  nmsg.elim [] fun nmsg => passing crc32c filter nmsg 0

/-! ### The header -/

section Header

variable {buf : Bytes}

/-- The results of a header that is not accepted. -/
theorem inputNmsgDeserializeHeader_error {bufLen : Nat} {res : Res}
    (h : inputNmsgDeserializeHeader buf bufLen = .ok (.error res)) :
    res ≠ .success ∧ res ≠ .again ∧ res ≠ .readFailure := by
  have hcases : res = .failure ∨ res = .magicMismatch ∨ res = .versionMismatch := by
    unfold inputNmsgDeserializeHeader at h
    grind
  rcases hcases with rfl | rfl | rfl
  all_goals exact ⟨by decide, by decide, by decide⟩

end Header

/-! ### Unpacking -/

section Unpack

variable {body : Bytes} {flags : UInt8}

variable (pb z body flags) in
/-- `nmsg_container_deserialize` unpacks a container exactly if it reports success. -/
theorem inputNmsgUnpackContainer2_success (past : Bytes) :
    (inputNmsgUnpackContainer2 pb z body past flags).1 = .success ↔
      ∃ nmsg, (inputNmsgUnpackContainer2 pb z body past flags).2 = some nmsg := by
  unfold inputNmsgUnpackContainer2
  by_cases hfragment : flags &&& flagFragment = 0
  · by_cases hzlib : flags &&& flagZlib = 0
    · simp only [hfragment, hzlib, ne_eq, not_true_eq_false, if_false]
      cases pb.unpackNmsg body <;> simp
    · simp only [hfragment, hzlib, ne_eq, not_true_eq_false, if_false, not_false_eq_true, if_true]
      obtain ⟨res, out, zb, hinflate⟩ : ∃ res out zb,
          nmsgZbufInflate z z.inflateInit body past true = (res, out, zb) := ⟨_, _, _, rfl⟩
      rw [hinflate]
      cases res with
      | success =>
          simp only
          cases pb.unpackNmsg out <;> simp
      | _ => simp
  · simp [hfragment]

variable (pb z body) in
/-- A fresh input unpacks the same container. -/
theorem inputNmsgUnpackContainer_open (hfragment : flags &&& flagFragment = 0) {env : CallEnv}
    (henv : env.Succeeds) (now : Timespec) (addrSs : SockaddrStorage) :
    ∃ res d, inputNmsgUnpackContainer pb env ⟨flags, now, addrSs⟩ (Decoder.open z) body =
        .ok (res, (inputNmsgUnpackContainer2 pb z body env.past flags).2, d) ∧
      (res = .success ↔ ∃ nmsg, (inputNmsgUnpackContainer2 pb z body env.past flags).2 = some nmsg) ∧
      res ≠ .again ∧ res ≠ .readFailure := by
  unfold inputNmsgUnpackContainer inputNmsgUnpackContainer2
  by_cases hzlib : flags &&& flagZlib = 0
  · simp only [hfragment, hzlib, ne_eq, not_true_eq_false, if_false]
    cases pb.unpackNmsg body with
    | none => exact ⟨.parseError, _, rfl, by simp⟩
    | some nmsg => exact ⟨.success, _, rfl, by simp⟩
  · simp only [hfragment, hzlib, ne_eq, not_true_eq_false, if_false, not_false_eq_true, if_true,
      henv.1, Decoder.open]
    obtain ⟨res, out, zb, hinflate⟩ : ∃ res out zb,
        nmsgZbufInflate z z.inflateInit body env.past true = (res, out, zb) := ⟨_, _, _, rfl⟩
    have hres := nmsgZbufInflate_res z z.inflateInit body env.past true
    rw [hinflate] at hres ⊢
    rcases hres with rfl | rfl | rfl
    · simp only
      cases pb.unpackNmsg out with
      | none => exact ⟨.parseError, _, rfl, by simp⟩
      | some nmsg => exact ⟨.success, _, rfl, by simp⟩
    · exact ⟨.failure, _, rfl, by simp⟩
    · exact ⟨.memfail, _, rfl, by simp⟩

end Unpack

/-! ### Each of the three -/

section Decoders

variable {datagram : Bytes}

theorem datagramContainer_eq {flags : UInt8} {msgsize : Nat} (past : Bytes)
    (hheader : inputNmsgDeserializeHeader datagram datagram.length = .ok (.ok (flags, msgsize)))
    (hsize : msgsize = datagram.length - hdrlszV2) :
    datagramContainer pb z datagram past =
      (inputNmsgUnpackContainer2 pb z (datagram.drop hdrlszV2) past flags).2 := by
  simp only [datagramContainer, hheader, hsize, ne_eq, not_true_eq_false, if_false]

/-- What a datagram is to a decoder: not accepted, or a container to unpack. -/
theorem datagram_cases (hlen : hdrlszV2 ≤ datagram.length) (hwhole : Unfragmented datagram) :
    (∃ res, inputNmsgDeserializeHeader datagram datagram.length = .ok (.error res)) ∨
    (∃ flags msgsize, inputNmsgDeserializeHeader datagram datagram.length =
        .ok (.ok (flags, msgsize)) ∧ msgsize ≠ datagram.length - hdrlszV2) ∨
    ∃ flags, inputNmsgDeserializeHeader datagram datagram.length =
        .ok (.ok (flags, datagram.length - hdrlszV2)) ∧ flags &&& flagFragment = 0 := by
  obtain ⟨out, hheader⟩ := inputNmsgDeserializeHeader_total hlen
  cases out with
  | error res => exact Or.inl ⟨res, hheader⟩
  | ok header =>
      obtain ⟨flags, msgsize⟩ := header
      by_cases hsize : msgsize = datagram.length - hdrlszV2
      · exact Or.inr (Or.inr ⟨flags, hsize ▸ hheader, hwhole flags msgsize hheader⟩)
      · exact Or.inr (Or.inl ⟨flags, msgsize, hheader, hsize⟩)

variable (pb z crc32c filter) in
/-- `nmsg_input_read_null` -/
theorem nmsgInputReadNull_eq (hlen : hdrlszV2 ≤ datagram.length) (hwhole : Unfragmented datagram)
    {env : CallEnv} (henv : env.Succeeds) (now : Timespec) :
    ∃ res s, nmsgInputReadNull pb crc32c (NullInput.open z filter) env now datagram
        datagram.length =
        .ok ((res, passingOf crc32c filter (datagramContainer pb z datagram env.past)), s) ∧
      (res ≠ .success → datagramContainer pb z datagram env.past = none) := by
  have hwhole' : (datagram.drop hdrlszV2).take (datagram.length - hdrlszV2) =
      datagram.drop hdrlszV2 := by
    rw [List.take_of_length_le]
    simp
  rcases datagram_cases hlen hwhole with
    ⟨res, hheader⟩ | ⟨flags, msgsize, hheader, hsize⟩ | ⟨flags, hheader, hfragment⟩
  · simp only [nmsgInputReadNull, datagramContainer, hheader]
    exact ⟨_, _, rfl, fun _ => trivial⟩
  · simp only [nmsgInputReadNull, datagramContainer, hheader]
    rw [if_pos (Or.inr hsize), if_pos hsize]
    exact ⟨_, _, rfl, fun _ => rfl⟩
  · obtain ⟨res, d, hunpack, hres, -⟩ := inputNmsgUnpackContainer_open pb z
      (datagram.drop hdrlszV2) hfragment henv now (.other 0 [])
    rw [datagramContainer_eq env.past hheader rfl]
    have hroom : ¬ (datagram.length < hdrlszV2 ∨
        datagram.length - hdrlszV2 ≠ datagram.length - hdrlszV2) := by omega
    simp only [nmsgInputReadNull, hheader, NullInput.open]
    rw [if_neg hroom]
    simp only [hwhole', hunpack]
    cases hnmsg : (inputNmsgUnpackContainer2 pb z (datagram.drop hdrlszV2) env.past flags).2 with
    | none => exact ⟨res, _, rfl, fun _ => rfl⟩
    | some nmsg =>
        simp only [loopPayloads_eq crc32c filter (Nat.zero_add nmsg.payloads.length)]
        exact ⟨res, _, rfl, fun h => absurd (hres.mpr ⟨nmsg, hnmsg⟩) h⟩

variable (pb z crc32c filter) in
/-- `nmsg_container_deserialize` -/
theorem containerDeserializePassing_eq (hlen : hdrlszV2 ≤ datagram.length)
    (hwhole : Unfragmented datagram) (past : Bytes) :
    ∃ res, containerDeserializePassing pb crc32c z filter datagram past =
        .ok (res, passingOf crc32c filter (datagramContainer pb z datagram past)) ∧
      (res ≠ .success → datagramContainer pb z datagram past = none) := by
  have hwhole' : (datagram.drop hdrlszV2).take (datagram.length - hdrlszV2) =
      datagram.drop hdrlszV2 := by
    rw [List.take_of_length_le]
    simp
  rcases datagram_cases hlen hwhole with
    ⟨res, hheader⟩ | ⟨flags, msgsize, hheader, hsize⟩ | ⟨flags, hheader, hfragment⟩
  · simp only [containerDeserializePassing, containerDeserialize, datagramContainer, hheader]
    exact ⟨_, rfl, fun _ => trivial⟩
  · simp only [containerDeserializePassing, containerDeserialize, datagramContainer, hheader]
    rw [if_pos (Or.inr hsize), if_pos hsize]
    exact ⟨_, rfl, fun _ => rfl⟩
  · have hroom : ¬ (datagram.length < hdrlszV2 ∨
        datagram.length - hdrlszV2 ≠ datagram.length - hdrlszV2) := by omega
    have hsuccess := inputNmsgUnpackContainer2_success pb z (datagram.drop hdrlszV2) flags past
    unfold containerDeserializePassing
    rw [datagramContainer_eq past hheader rfl]
    simp only [containerDeserialize, hheader]
    rw [if_neg hroom, if_neg (Nat.lt_irrefl _), hwhole']
    obtain ⟨res, nmsg, hunpack⟩ : ∃ res nmsg, inputNmsgUnpackContainer2 pb z
        (datagram.drop hdrlszV2) past flags = (res, nmsg) := ⟨_, _, rfl⟩
    rw [hunpack] at hsuccess ⊢
    cases nmsg with
    | none =>
        refine ⟨res, ?_, fun _ => rfl⟩
        cases res <;> rfl
    | some nmsg =>
        obtain rfl : res = .success := hsuccess.mpr ⟨nmsg, rfl⟩
        refine ⟨.success, ?_, fun h => absurd rfl h⟩
        simp only [Except.map, passingOf, Option.elim, passing, List.drop_zero, List.zipIdx_map,
          List.filterMap_map]
        rfl

variable (pb z) in
/-- A fresh socket input reads the container of its first datagram. -/
theorem inputNmsgReadContainerSock_open (hlen : hdrlszV2 ≤ datagram.length)
    (hfits : datagram.length ≤ rbufsz / 2) (hwhole : Unfragmented datagram) {env : CallEnv}
    (henv : env.Succeeds) (now : Timespec) (addrSs : SockaddrStorage) :
    ∃ res s, inputNmsgReadContainerSock pb (SockInput.open z)
        ⟨.datagram now addrSs datagram, env⟩ =
        .ok ((res, datagramContainer pb z datagram env.past), s) ∧
      (res = .success ↔ ∃ nmsg, datagramContainer pb z datagram env.past = some nmsg) ∧
      res ≠ .again ∧ res ≠ .readFailure := by
  have hne : datagram ≠ [] := by
    rintro rfl
    exact absurd hlen (by decide)
  have hshort : ¬ datagram.length < hdrlszV2 := Nat.not_lt.mpr hlen
  simp only [inputNmsgReadContainerSock, hne, if_false, List.take_of_length_le hfits, sockUnpack,
    hshort]
  rcases datagram_cases hlen hwhole with
    ⟨res, hheader⟩ | ⟨flags, msgsize, hheader, hsize⟩ | ⟨flags, hheader, hfragment⟩
  · obtain ⟨hsuccess, hagain, hfailure⟩ := inputNmsgDeserializeHeader_error hheader
    simp only [datagramContainer, hheader]
    exact ⟨res, _, rfl, ⟨fun h => absurd h hsuccess, (fun ⟨_, h⟩ => nomatch h)⟩, hagain, hfailure⟩
  · simp only [datagramContainer, hheader]
    rw [if_pos (Ne.symm hsize), if_pos hsize]
    exact ⟨.parseError, _, rfl, ⟨(fun h => nomatch h), (fun ⟨_, h⟩ => nomatch h)⟩, by decide,
      by decide⟩
  · obtain ⟨res, d, hunpack, hres⟩ := inputNmsgUnpackContainer_open pb z
      (datagram.drop hdrlszV2) hfragment henv now addrSs
    rw [datagramContainer_eq env.past hheader rfl]
    simp only [hheader, ne_eq, not_true_eq_false, if_false, SockInput.open, hunpack]
    exact ⟨res, _, rfl, hres⟩

variable (pb z crc32c filter) in
/-- `nmsg_input_loop` on a socket input -/
theorem inputNmsgLoop_sock (hlen : hdrlszV2 ≤ datagram.length) (hfits : datagram.length ≤ rbufsz / 2)
    (hwhole : Unfragmented datagram) {env : CallEnv} (henv : env.Succeeds) (now : Timespec)
    (addrSs : SockaddrStorage) :
    ∃ res, inputNmsgLoop crc32c (sockFetch pb) 2
          (.fresh filter (SockInput.open z, [⟨.datagram now addrSs datagram, env⟩])) =
        .ok (res, passingOf crc32c filter (datagramContainer pb z datagram env.past)) ∧
      (res ≠ .readFailure → datagramContainer pb z datagram env.past = none) := by
  obtain ⟨res, s, hread, hres, hagain, hfailure⟩ :=
    inputNmsgReadContainerSock_open pb z hlen hfits hwhole henv now addrSs
  have hfetch : sockFetch pb (SockInput.open z, [⟨.datagram now addrSs datagram, env⟩]) =
      .ok ((res, datagramContainer pb z datagram env.past), (s, [])) := by
    rw [sockFetch, hread]
    rfl
  simp only [inputNmsgLoop, StreamInput.fresh, hfetch, hagain, if_false]
  cases hnmsg : datagramContainer pb z datagram env.past with
  | none =>
      have hsuccess : res ≠ .success := by
        intro h
        obtain ⟨nmsg, hsome⟩ := hres.mp h
        rw [hnmsg] at hsome
        cases hsome
      rw [if_pos hsuccess]
      exact ⟨res, rfl, fun _ => rfl⟩
  | some nmsg =>
      obtain rfl : res = .success := hres.mpr ⟨nmsg, hnmsg⟩
      simp only [ne_eq, not_true_eq_false, if_false,
        loopPayloads_eq crc32c filter (Nat.zero_add nmsg.payloads.length)]
      refine ⟨.readFailure, ?_, fun h => absurd rfl h⟩
      simp [sockFetch, Except.map, passingOf]

end Decoders

/-! ### Agreement -/

/-- The messages of a compressed container that pass, with these octets behind it in memory. -/
def inflatedPassing (pb : ProtobufC) (z : Zlib) (crc32c : Bytes → UInt32) (filter : InputFilter)
    (body past : Bytes) : List Message :=
  match nmsgZbufInflate z z.inflateInit body past true with
  | (.success, uBuf, _) => passingOf crc32c filter (pb.unpackNmsg uBuf)
  | _ => []

/-- If the datagram holds a compressed container, the payloads in it that pass do not depend on the
octets behind it in memory. -/
def InflatesRegardless (pb : ProtobufC) (z : Zlib) (crc32c : Bytes → UInt32)
    (filter : InputFilter) (datagram : Bytes) : Prop :=
  ∀ flags, inputNmsgDeserializeHeader datagram datagram.length =
      .ok (.ok (flags, datagram.length - hdrlszV2)) → flags &&& flagZlib ≠ 0 →
    ∀ past past', inflatedPassing pb z crc32c filter (datagram.drop hdrlszV2) past =
      inflatedPassing pb z crc32c filter (datagram.drop hdrlszV2) past'

section Agreement

variable {datagram : Bytes}

theorem passingOf_compressed {flags : UInt8} {body : Bytes}
    (hfragment : flags &&& flagFragment = 0) (hzlib : flags &&& flagZlib ≠ 0) (past : Bytes) :
    passingOf crc32c filter (inputNmsgUnpackContainer2 pb z body past flags).2 =
      inflatedPassing pb z crc32c filter body past := by
  simp only [inputNmsgUnpackContainer2, inflatedPassing, hfragment, hzlib, ne_eq,
    not_true_eq_false, if_false, not_false_eq_true, if_true]
  obtain ⟨res, out, zb, hinflate⟩ : ∃ res out zb,
      nmsgZbufInflate z z.inflateInit body past true = (res, out, zb) := ⟨_, _, _, rfl⟩
  rw [hinflate]
  cases res with
  | success =>
      simp only
      cases pb.unpackNmsg out <;> rfl
  | _ => rfl

theorem inflatesRegardless_iff (hlen : hdrlszV2 ≤ datagram.length)
    (hwhole : Unfragmented datagram) :
    InflatesRegardless pb z crc32c filter datagram ↔
      ∀ past past', passingOf crc32c filter (datagramContainer pb z datagram past) =
        passingOf crc32c filter (datagramContainer pb z datagram past') := by
  constructor
  · intro h past past'
    rcases datagram_cases hlen hwhole with
      ⟨res, hheader⟩ | ⟨flags, msgsize, hheader, hsize⟩ | ⟨flags, hheader, hfragment⟩
    · simp only [datagramContainer, hheader]
    · simp only [datagramContainer, hheader, ne_eq, hsize, not_false_eq_true, if_true]
    · rw [datagramContainer_eq past hheader rfl, datagramContainer_eq past' hheader rfl]
      by_cases hzlib : flags &&& flagZlib = 0
      · simp only [inputNmsgUnpackContainer2, hfragment, hzlib, ne_eq, not_true_eq_false, if_false]
      · rw [passingOf_compressed hfragment hzlib, passingOf_compressed hfragment hzlib]
        exact h flags hheader hzlib past past'
  · intro h flags hheader hzlib past past'
    have hfragment := hwhole flags _ hheader
    have halike := h past past'
    rw [datagramContainer_eq past hheader rfl, datagramContainer_eq past' hheader rfl,
      passingOf_compressed hfragment hzlib, passingOf_compressed hfragment hzlib] at halike
    exact halike

theorem DecodersAgree.inflatesRegardless (h : DecodersAgree pb z crc32c filter datagram)
    (hlen : hdrlszV2 ≤ datagram.length) (hwhole : Unfragmented datagram) :
    InflatesRegardless pb z crc32c filter datagram := by
  rw [inflatesRegardless_iff hlen hwhole]
  intro past past'
  obtain ⟨_, msgs, _, resNull, resContainer, s, -, hnull, hcontainer, -⟩ :=
    h ⟨0, 0⟩ ⟨0, 0⟩ (.other 0 []) ⟨past, true, true, true, true⟩ ⟨past, true, true, true, true⟩
      past' ⟨rfl, rfl, rfl, rfl⟩ ⟨rfl, rfl, rfl, rfl⟩
  obtain ⟨_, _, hnull', -⟩ := nmsgInputReadNull_eq pb z crc32c filter hlen hwhole
    (show CallEnv.Succeeds ⟨past, true, true, true, true⟩ from ⟨rfl, rfl, rfl, rfl⟩) ⟨0, 0⟩
  obtain ⟨_, hcontainer', -⟩ := containerDeserializePassing_eq pb z crc32c filter hlen
    hwhole past'
  rw [hnull'] at hnull
  rw [hcontainer'] at hcontainer
  simp only [Except.ok.injEq, Prod.mk.injEq] at hnull hcontainer
  exact hnull.1.2.trans hcontainer.2.symm

end Agreement

/-- What was deflated inflates regardless. -/
theorem inflatesRegardless_deflated (hz : z.Lawful) {datagram : Bytes} (buf : Bytes)
    (hbody : datagram.drop hdrlszV2 = deflated z buf) (hbuf : buf.length < 2 ^ 32)
    (hdeflated : (deflated z buf).length < 2 ^ 32) :
    InflatesRegardless pb z crc32c filter datagram := by
  intro flags _ _ past past'
  rw [hbody, inflatedPassing, inflatedPassing, nmsgZbufInflate_deflated hz past hbuf hdeflated,
    nmsgZbufInflate_deflated hz past' hbuf hdeflated]

/-- A container with one payload, packed. -/
def samplePacked : Bytes :=
  wire.packNmsg ⟨[⟨1, 1, 0, 0, some [7], none, none, none⟩], [], none, none⟩

/-- A datagram with this compressed body. -/
def compressedDatagram (body : Bytes) : Bytes := headerSerialize flagZlib body.length ++ body

theorem compressedDatagram_header (body : Bytes) :
    inputNmsgDeserializeHeader (compressedDatagram body) (compressedDatagram body).length =
      .ok (.ok (flagZlib, body.length % 2 ^ 32)) := by
  apply inputNmsgDeserializeHeader_headerSerialize
  simp [compressedDatagram]

theorem compressedDatagram_unfragmented (body : Bytes) : Unfragmented (compressedDatagram body) := by
  intro flags msgsize hheader
  rw [compressedDatagram_header] at hheader
  cases hheader
  decide

end Nmsg

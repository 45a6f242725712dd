import Nmsg.Proof.FragSafety
import Nmsg.Proof.LoopRead

/-!
# Success and a container

Three of the four ways to unpack a container look at what `nmsg__nmsg__unpack` returned. Putting
fragments together does not: it looks at the address of the result, and is a success whatever the
fragments hold. The readers rely on success to mean a container.
-/

namespace Nmsg

/-- A body for `_input_nmsg_unpack_container`, and what the call finds around it. -/
structure UnpackCall where
  env : CallEnv
  arrival : Arrival
  buf : Bytes

section Unpack

variable (pb : ProtobufC) {z : Zlib}

/-- Bodies are unpacked one after the other. -/
def unpackStep (d : Decoder z) (call : UnpackCall) :
    Except Abort ((Res × Option ProtoNmsg) × Decoder z) :=
  (inputNmsgUnpackContainer pb call.env call.arrival d call.buf).map fun (res, nmsg, d) =>
    ((res, nmsg), d)

/-- The `stream_read_fp` of an input that meets with these bodies, and then with the end. -/
def unpackFetch : StreamReadFp (Decoder z × List UnpackCall) := fun (d, calls) =>
  match calls with
  | [] => .ok ((.eof, none), (d, []))
  | call :: rest => (unpackStep pb d call).map fun (answer, d) => (answer, (d, rest))

/-- The node a fragment goes to: the one its container has, or a new one. -/
def UnpackCall.node (call : UnpackCall) (d : Decoder z) (nfrag : NmsgFragment) : Option Frag :=
  match d.nft.find (fragKey call.arrival nfrag) with
  | none =>
      if call.env.fentOk = false ∨ call.env.fragsOk = false then none
      else some (newFrag call.arrival nfrag)
  | some fent => if fent.last ≠ nfrag.last then none else some fent

/-- The octets of the container that a fragment completes by filling the last slot of its node. -/
def UnpackCall.completed (call : UnpackCall) (d : Decoder z) (nfrag : NmsgFragment) :
    Option Bytes :=
  match call.node d nfrag with
  | none => none
  | some fent =>
      let frags := fent.frags.set nfrag.current.toNat nfrag.fragment
      if fent.frags[nfrag.current.toNat]? = some [] ∧ fent.rem - 1 = 0 ∧
          fent.last.toNat < frags.length ∧ [] ∉ frags ∧ call.env.payloadOk = true then
        some frags.flatten
      else none

/-- The octets of a container, inflated if it is compressed. -/
def UnpackCall.inflated (call : UnpackCall) (d : Decoder z) (octets : Bytes) : Option Bytes :=
  if call.arrival.flags &&& flagZlib ≠ 0 then
    match nmsgZbufInflate z d.zb octets call.env.past call.env.uBufOk with
    | (.success, uBuf, _) => some uBuf
    | _ => none
  else some octets

/-- The octets that get as far as `nmsg__nmsg__unpack`. -/
def UnpackCall.octets (call : UnpackCall) (d : Decoder z) : Option Bytes :=
  if call.arrival.flags &&& flagFragment ≠ 0 then
    match pb.unpackFragment call.buf with
    | none => none
    | some nfrag => (call.completed d nfrag).bind (call.inflated d)
  else call.inflated d call.buf

/-- `*nmsg` behind a call, `old` before it. It is written where octets are unpacked. -/
def UnpackCall.pointer (call : UnpackCall) (d : Decoder z) (old : Option ProtoNmsg) :
    Option ProtoNmsg :=
  match call.octets pb d with
  | none => old
  | some octets => pb.unpackNmsg octets

/-- When the call returns with success `*nmsg` is the container that was unpacked, and when it
returns with another result `*nmsg` is what it was or `NULL`. -/
def SuccessMeansContainer (d : Decoder z) (call : UnpackCall) : Prop :=
  ∀ res nmsg d' old, unpackStep pb d call = .ok ((res, nmsg), d') →
    if res = .success then
      ∃ octets nmsg', call.octets pb d = some octets ∧ pb.unpackNmsg octets = some nmsg' ∧
        call.pointer pb d old = some nmsg'
    else call.pointer pb d old = old ∨ call.pointer pb d old = none

/-- What a fragment completes is a container. -/
def CompletesContainer (d : Decoder z) (call : UnpackCall) : Prop :=
  call.arrival.flags &&& flagFragment ≠ 0 →
    ∀ octets, call.octets pb d = some octets → pb.unpackNmsg octets ≠ none

end Unpack

/-! ### One call -/

section Call

variable {pb : ProtobufC} {z : Zlib} {d : Decoder z} {call : UnpackCall}

/-- How the answer comes of the octets that are unpacked: from a fragment it is always success. -/
def Reports (pb : ProtobufC) (fragment : Bool) (octets : Option Bytes)
    (called : Except Abort (Res × Option ProtoNmsg × Decoder z)) : Prop :=
  match called with
  | .error e => e ≠ .nullPointer ∧ octets = none
  | .ok (res, nmsg, _) =>
      nmsg = octets.bind pb.unpackNmsg ∧
        (res = .success ↔ octets ≠ none ∧ (fragment = true ∨ nmsg ≠ none))

theorem reports_nothing (fragment : Bool) {res : Res} (hres : res ≠ .success) (d' : Decoder z) :
    Reports pb fragment none (.ok (res, none, d')) :=
  ⟨rfl, fun h => absurd h hres, fun h => absurd rfl h.1⟩

theorem inflated_of_failed {octets : Bytes} (hzlib : call.arrival.flags &&& flagZlib ≠ 0)
    {res : Res} {uBuf : Bytes} {zb : z.Stream}
    (h : nmsgZbufInflate z d.zb octets call.env.past call.env.uBufOk = (res, uBuf, zb)) :
    call.inflated d octets = if res = .success then some uBuf else none := by
  rw [UnpackCall.inflated, if_pos hzlib, h]
  cases res <;> rfl

theorem collectFrags_of_mem {frags : List Bytes} (h : [] ∈ frags) :
    collectFrags frags = .error .assertion := by
  induction frags with
  | nil => exact absurd h List.not_mem_nil
  | cons data rest ih =>
      rw [collectFrags]
      by_cases hdata : data = []
      · rw [if_pos hdata]
      · rw [if_neg hdata]
        have hrest : [] ∈ rest := (List.mem_cons.mp h).resolve_left fun heq => hdata heq.symm
        rw [ih hrest]
        rfl

theorem reassembleFrags_reports (fent : Frag) :
    Reports pb true
      (if fent.last.toNat < fent.frags.length ∧ [] ∉ fent.frags ∧ call.env.payloadOk = true then
        call.inflated d fent.frags.flatten else none)
      (reassembleFrags pb call.env call.arrival d fent) := by
  rw [reassembleFrags]
  by_cases hlast : fent.frags.length ≤ fent.last.toNat
  · rw [if_pos hlast, if_neg fun h => absurd h.1 (Nat.not_lt.mpr hlast)]
    exact ⟨by rintro ⟨⟩, rfl⟩
  rw [if_neg hlast]
  by_cases hempty : [] ∈ fent.frags
  · rw [collectFrags_of_mem hempty, if_neg fun h => h.2.1 hempty]
    exact ⟨by rintro ⟨⟩, rfl⟩
  rw [collectFrags_eq hempty]
  simp only
  by_cases hpayload : call.env.payloadOk = false
  · rw [if_pos hpayload, if_neg fun h => Bool.false_ne_true (hpayload.symm.trans h.2.2)]
    exact reports_nothing true (by decide) d
  rw [if_neg hpayload, if_pos ⟨Nat.lt_of_not_le hlast, hempty, Bool.of_not_eq_false hpayload⟩]
  by_cases hzlib : call.arrival.flags &&& flagZlib ≠ 0
  · rw [if_pos hzlib]
    rcases hinflate : nmsgZbufInflate z d.zb fent.frags.flatten call.env.past call.env.uBufOk with
      ⟨res, uBuf, zb⟩
    rw [inflated_of_failed hzlib hinflate]
    cases res with
    | success => exact ⟨rfl, fun _ => ⟨Option.some_ne_none _, Or.inl rfl⟩, fun _ => rfl⟩
    | _ => exact reports_nothing true (by decide) _
  · rw [if_neg hzlib, UnpackCall.inflated, if_neg hzlib]
    exact ⟨rfl, fun _ => ⟨Option.some_ne_none _, Or.inl rfl⟩, fun _ => rfl⟩

theorem attachFrag_reports (fent : Frag) (nfrag : NmsgFragment) :
    Reports pb true
      (if fent.frags[nfrag.current.toNat]? = some [] ∧ fent.rem - 1 = 0 ∧
          fent.last.toNat < (fent.frags.set nfrag.current.toNat nfrag.fragment).length ∧
          [] ∉ fent.frags.set nfrag.current.toNat nfrag.fragment ∧ call.env.payloadOk = true then
        call.inflated d (fent.frags.set nfrag.current.toNat nfrag.fragment).flatten else none)
      (attachFrag pb call.env call.arrival d fent nfrag) := by
  rw [attachFrag]
  cases hslot : fent.frags[nfrag.current.toNat]? with
  | none =>
      rw [if_neg fun h => by cases h.1]
      exact ⟨nofun, rfl⟩
  | some data =>
      simp only
      by_cases hdata : data ≠ []
      · rw [if_pos hdata, if_neg fun h => hdata (Option.some.inj h.1)]
        exact reports_nothing true (by decide) d
      rw [if_neg hdata]
      rw [ne_eq, not_not] at hdata
      by_cases hrem : fent.rem - 1 = 0
      · rw [if_pos hrem, hdata]
        simp only [hrem, true_and]
        exact reassembleFrags_reports { fent with
          frags := fent.frags.set nfrag.current.toNat nfrag.fragment
          rem := fent.rem - 1 }
      · rw [if_neg hrem, if_neg fun h => hrem h.2.1]
        exact reports_nothing true (by decide) _

theorem completed_bind {fent : Frag} {nfrag : NmsgFragment} (hnode : call.node d nfrag = some fent) :
    (call.completed d nfrag).bind (call.inflated d) =
      if fent.frags[nfrag.current.toNat]? = some [] ∧ fent.rem - 1 = 0 ∧
          fent.last.toNat < (fent.frags.set nfrag.current.toNat nfrag.fragment).length ∧
          [] ∉ fent.frags.set nfrag.current.toNat nfrag.fragment ∧ call.env.payloadOk = true then
        call.inflated d (fent.frags.set nfrag.current.toNat nfrag.fragment).flatten else none := by
  rw [UnpackCall.completed, hnode]
  simp only
  split <;> rfl

theorem completed_of_no_node {nfrag : NmsgFragment} (hnode : call.node d nfrag = none) :
    (call.completed d nfrag).bind (call.inflated d) = none := by
  rw [UnpackCall.completed, hnode]
  rfl

theorem inputFragRead_reports (hfragment : call.arrival.flags &&& flagFragment ≠ 0) :
    Reports pb true (call.octets pb d) (inputFragRead pb call.env call.arrival d call.buf) := by
  rw [UnpackCall.octets, if_pos hfragment, inputFragRead]
  cases pb.unpackFragment call.buf with
  | none => exact reports_nothing true (by decide) d
  | some nfrag =>
      simp only
      cases hfind : d.nft.find (fragKey call.arrival nfrag) with
      | none =>
          simp only
          by_cases halloc : call.env.fentOk = false ∨ call.env.fragsOk = false
          · rw [completed_of_no_node (by rw [UnpackCall.node, hfind]; exact if_pos halloc)]
            rcases halloc with hfent | hfrags
            · rw [if_pos hfent]
              exact reports_nothing true (by decide) d
            · rw [if_pos hfrags]
              by_cases hfent : call.env.fentOk = false
              · rw [if_pos hfent]
                exact reports_nothing true (by decide) d
              · rw [if_neg hfent]
                exact reports_nothing true (by decide) d
          · rw [completed_bind (by rw [UnpackCall.node, hfind]; exact if_neg halloc),
              if_neg fun h => halloc (Or.inl h), if_neg fun h => halloc (Or.inr h)]
            exact attachFrag_reports (newFrag call.arrival nfrag) nfrag
      | some fent =>
          simp only
          by_cases hlast : fent.last ≠ nfrag.last
          · rw [completed_of_no_node (by rw [UnpackCall.node, hfind]; exact if_pos hlast),
              if_pos hlast]
            exact ⟨by rintro ⟨⟩, rfl⟩
          · rw [completed_bind (by rw [UnpackCall.node, hfind]; exact if_neg hlast), if_neg hlast]
            exact attachFrag_reports fent nfrag

/-- **One body.** The answer reports what was unpacked, and of a fragment it does not. -/
theorem inputNmsgUnpackContainer_reports (pb : ProtobufC) (d : Decoder z) (call : UnpackCall) :
    Reports pb (call.arrival.flags &&& flagFragment != 0) (call.octets pb d)
      (inputNmsgUnpackContainer pb call.env call.arrival d call.buf) := by
  rw [inputNmsgUnpackContainer]
  by_cases hfragment : call.arrival.flags &&& flagFragment ≠ 0
  · rw [if_pos hfragment, bne_iff_ne.mpr hfragment]
    exact inputFragRead_reports hfragment
  have hplain : (call.arrival.flags &&& flagFragment != 0) = false := by simpa using hfragment
  rw [if_neg hfragment, hplain, UnpackCall.octets, if_neg hfragment]
  by_cases hzlib : call.arrival.flags &&& flagZlib ≠ 0
  · rw [if_pos hzlib]
    rcases hinflate : nmsgZbufInflate z d.zb call.buf call.env.past call.env.uBufOk with
      ⟨res, uBuf, zb⟩
    rw [inflated_of_failed hzlib hinflate]
    cases res with
    | success =>
        simp only [if_true]
        cases hunpack : pb.unpackNmsg uBuf with
        | none => exact ⟨hunpack.symm, nofun, fun h => by simp at h⟩
        | some nmsg => exact ⟨hunpack.symm, fun _ => by simp, fun _ => rfl⟩
    | _ => exact reports_nothing false (by decide) _
  · rw [if_neg hzlib, UnpackCall.inflated, if_neg hzlib]
    cases hunpack : pb.unpackNmsg call.buf with
    | none => exact ⟨hunpack.symm, nofun, fun h => by simp at h⟩
    | some nmsg => exact ⟨hunpack.symm, fun _ => by simp, fun _ => rfl⟩

/-- A body of a fragment is a success whether or not what it completes is a container. -/
theorem unpackStep_reports (pb : ProtobufC) (d : Decoder z) (call : UnpackCall) :
    match unpackStep pb d call with
    | .error e => e ≠ .nullPointer ∧ call.octets pb d = none
    | .ok ((res, nmsg), _) =>
        nmsg = (call.octets pb d).bind pb.unpackNmsg ∧
          (res = .success ↔ call.octets pb d ≠ none ∧
            (call.arrival.flags &&& flagFragment ≠ 0 ∨ nmsg ≠ none)) := by
  have hreports := inputNmsgUnpackContainer_reports pb d call
  rw [unpackStep]
  cases hcalled : inputNmsgUnpackContainer pb call.env call.arrival d call.buf with
  | error e => rwa [hcalled] at hreports
  | ok out =>
      rw [hcalled, Reports] at hreports
      simpa only [Except.map, bne_iff_ne] using hreports

/-- **Success means a container** exactly for the bodies that complete one if anything. -/
theorem successMeansContainer_iff : SuccessMeansContainer pb d call ↔ CompletesContainer pb d call := by
  have hreports := unpackStep_reports pb d call
  cases hstep : unpackStep pb d call with
  | error e =>
      rw [hstep] at hreports
      constructor
      · intro _ _ octets hoctets
        rw [hreports.2] at hoctets
        cases hoctets
      · intro _ res nmsg d' old h
        cases hstep.symm.trans h
  | ok out =>
      obtain ⟨⟨res, nmsg⟩, d'⟩ := out
      rw [hstep] at hreports
      obtain ⟨rfl, hsuccess⟩ := hreports
      constructor
      · intro h hfragment octets hoctets hnone
        have hres : res = .success :=
          hsuccess.mpr ⟨by rw [hoctets]; exact Option.some_ne_none _, Or.inl hfragment⟩
        have hmeans := h res _ d' none hstep
        rw [if_pos hres] at hmeans
        obtain ⟨octets', nmsg', hoctets', hunpack, -⟩ := hmeans
        rw [hoctets, Option.some.injEq] at hoctets'
        rw [← hoctets', hnone] at hunpack
        cases hunpack
      · intro h res' nmsg' d'' old hstep'
        rw [hstep, Except.ok.injEq, Prod.mk.injEq, Prod.mk.injEq] at hstep'
        obtain ⟨⟨rfl, rfl⟩, rfl⟩ := hstep'
        by_cases hres : res = .success
        · rw [if_pos hres]
          obtain ⟨hne, hcontainer⟩ := hsuccess.mp hres
          obtain ⟨octets, hoctets⟩ := Option.ne_none_iff_exists'.mp hne
          have hunpack : pb.unpackNmsg octets ≠ none := by
            rcases hcontainer with hfragment | hnmsg
            · exact h hfragment octets hoctets
            · rwa [hoctets] at hnmsg
          obtain ⟨nmsg, hnmsg⟩ := Option.ne_none_iff_exists'.mp hunpack
          exact ⟨octets, nmsg, hoctets, hnmsg, by rw [UnpackCall.pointer, hoctets]; exact hnmsg⟩
        · rw [if_neg hres, UnpackCall.pointer]
          cases hoctets : call.octets pb d with
          | none => exact Or.inl rfl
          | some octets =>
              right
              by_contra hne
              refine hres (hsuccess.mpr ⟨by rw [hoctets]; exact Option.some_ne_none _, Or.inr ?_⟩)
              rwa [hoctets]

end Call

/-! ### The readers -/

section Readers

variable {pb : ProtobufC} {z : Zlib} {d : Decoder z} {calls : List UnpackCall}
  (crc32c : Bytes → UInt32)

/-- The next body is unpacked, and what is left of a run that completes containers completes
containers. -/
theorem unpackFetch_completes (h : StepRun.Along (unpackStep pb) (CompletesContainer pb) d calls) :
    match unpackFetch pb (d, calls) with
    | .error e => e ≠ .nullPointer
    | .ok ((res, nmsg), d', rest) => (res = .success → nmsg ≠ none) ∧
        StepRun.Along (unpackStep pb) (CompletesContainer pb) d' rest := by
  cases calls with
  | nil => exact ⟨nofun, trivial⟩
  | cons call rest =>
      have hreports := unpackStep_reports pb d call
      rw [unpackFetch]
      cases hstep : unpackStep pb d call with
      | error e =>
          rw [hstep] at hreports
          exact hreports.1
      | ok out =>
          obtain ⟨⟨res, nmsg⟩, d'⟩ := out
          rw [hstep] at hreports
          obtain ⟨rfl, hsuccess⟩ := hreports
          refine ⟨?_, h.2 _ d' hstep⟩
          intro hres
          obtain ⟨hne, hfragment | hnmsg⟩ := hsuccess.mp hres
          · obtain ⟨octets, hoctets⟩ := Option.ne_none_iff_exists'.mp hne
            rw [hoctets]
            exact h.1 hfragment octets hoctets
          · exact hnmsg

/-- By induction on the rounds of the loop. -/
theorem inputNmsgLoop_completes (h : StepRun.Along (unpackStep pb) (CompletesContainer pb) d calls)
    (fuel : Nat) {s : StreamInput (Decoder z × List UnpackCall)} (hs : s.source = (d, calls)) :
    inputNmsgLoop crc32c (unpackFetch pb) fuel s ≠ .error .nullPointer := by
  induction fuel generalizing d calls s with
  | zero => rintro ⟨⟩
  | succ fuel ih =>
      have hcompletes := unpackFetch_completes h
      rw [inputNmsgLoop, hs]
      cases hfetch : unpackFetch pb (d, calls) with
      | error e =>
          rw [hfetch] at hcompletes
          exact fun heq => hcompletes (Except.error.inj heq)
      | ok out =>
          obtain ⟨⟨res, nmsg⟩, d', rest⟩ := out
          rw [hfetch] at hcompletes
          obtain ⟨hnmsg, hrest⟩ := hcompletes
          simp only
          by_cases hagain : res = .again
          · rw [if_pos hagain]
            exact ih hrest rfl
          rw [if_neg hagain]
          by_cases hres : res ≠ .success
          · rw [if_pos hres]
            rintro ⟨⟩
          rw [if_neg hres]
          rw [ne_eq, not_not] at hres
          obtain ⟨nmsg, rfl⟩ := Option.ne_none_iff_exists'.mp (hnmsg hres)
          simp only [loopPayloads_eq crc32c s.filter (Nat.zero_add nmsg.payloads.length)]
          have hnext := ih (s := { s with source := (d', rest), nmsg := none }) hrest rfl
          intro heq
          apply hnext
          cases hloop : inputNmsgLoop crc32c (unpackFetch pb) fuel
              { s with source := (d', rest), nmsg := none } with
          | error e =>
              rw [hloop] at heq
              exact heq
          | ok out =>
              rw [hloop] at heq
              cases heq

/-- Where reading a message goes wrong there is a container, without the payload asked for. -/
theorem streamRead_completes (h : StepRun.Along (unpackStep pb) (CompletesContainer pb) d calls)
    {s : StreamInput (Decoder z × List UnpackCall)} (hs : s.source = (d, calls))
    (hread : streamRead crc32c (unpackFetch pb) s = .error .nullPointer) :
    ∃ (nmsg : ProtoNmsg) (idx : Nat), nmsg.payloads[idx]? = none ∧
      ((streamAdvance s).nmsg = some nmsg ∨
        ∃ source, unpackFetch pb s.source = .ok ((.success, some nmsg), source)) := by
  have hhand : ∀ (s : StreamInput (Decoder z × List UnpackCall)) (nmsg : ProtoNmsg),
      streamHandPayload crc32c s nmsg = .error .nullPointer → nmsg.payloads[s.npIndex]? = none := by
    intro s nmsg hpayload
    rw [streamHandPayload] at hpayload
    cases hnp : nmsg.payloads[s.npIndex]? with
    | none => rfl
    | some np =>
        simp only [hnp] at hpayload
        split at hpayload <;> cases hpayload
  have hsource : (streamAdvance s).source = s.source := by
    rw [streamAdvance]
    split
    · split <;> rfl
    · rfl
  have hcompletes := unpackFetch_completes h
  rw [← hs] at hcompletes
  rw [streamRead] at hread
  cases hnmsg : (streamAdvance s).nmsg with
  | some nmsg =>
      simp only [hnmsg] at hread
      exact ⟨nmsg, _, hhand _ nmsg hread, Or.inl rfl⟩
  | none =>
      simp only [hnmsg, hsource] at hread
      cases hfetch : unpackFetch pb s.source with
      | error e =>
          simp only [hfetch, Except.error.injEq] at hread hcompletes
          exact absurd hread hcompletes
      | ok out =>
          obtain ⟨⟨res, nmsg⟩, source⟩ := out
          simp only [hfetch] at hread hcompletes
          by_cases hres : res ≠ .success
          · rw [if_pos hres] at hread
            cases hread
          rw [if_neg hres] at hread
          rw [ne_eq, not_not] at hres
          obtain ⟨nmsg, rfl⟩ := Option.ne_none_iff_exists'.mp (hcompletes.1 hres)
          exact ⟨nmsg, _, hhand _ nmsg hread, Or.inr ⟨source, by rw [hres]⟩⟩

/-- The only fragment of a container, of one octet that is no container. -/
def loneFragment : UnpackCall where
  env := ⟨[], true, true, true, true⟩
  arrival := ⟨flagFragment, ⟨0, 0⟩, .inet 53 1 []⟩
  buf := wire.packFragment ⟨7, 0, 0, [255], none⟩

end Readers

end Nmsg

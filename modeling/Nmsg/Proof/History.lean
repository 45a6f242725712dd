import Nmsg.Proof.FileReader
import Nmsg.Proof.FragSafety

/-!
# Containers and what came before them

What a stream input carries from one container to the next are the flags, the inflate stream, the
tree of fragments and what is left in the buffer. A container that is not a fragment is decoded as
it would be alone while the flags of version 1 containers are clear and compressed containers find
a fresh inflate stream.
-/

namespace Nmsg

/-- A container of version 2 that carries a fragment. -/
def FileContainer.Fragment : FileContainer → Prop
  | v1 _ => False
  | v2 flags _ => flags &&& flagFragment ≠ 0

/-- A whole container that is compressed. -/
def FileContainer.Compressed : FileContainer → Prop
  | v1 _ => False
  | v2 flags _ => flags &&& flagFragment = 0 ∧ flags &&& flagZlib ≠ 0

/-- Inflating the octets does not depend on those behind them in memory. -/
def InflatesAlike (z : Zlib) (body : Bytes) : Prop :=
  ∀ past past', (nmsgZbufInflate z z.inflateInit body past true).1 =
      (nmsgZbufInflate z z.inflateInit body past' true).1 ∧
    (nmsgZbufInflate z z.inflateInit body past true).2.1 =
      (nmsgZbufInflate z z.inflateInit body past' true).2.1

/-- The input is in a state in which the container is decoded as it should be. -/
structure DecodesCleanly (pb : ProtobufC) {z : Zlib} (s : FileReader × Decoder z)
    (call : CallEnv × FileContainer) : Prop where
  memory : call.1.Succeeds
  unflagged : ∀ body, call.2 = .v1 body →
    s.1.flags &&& flagFragment = 0 ∧ s.1.flags &&& flagZlib = 0
  fresh : call.2.Compressed → s.2.zb = z.inflateInit ∧ InflatesAlike z call.2.body
  fragment : call.2.Fragment → ∀ now nfrag, pb.unpackFragment call.2.body = some nfrag →
    FragmentFits s.2 call.1 ⟨call.2.streamFlags s.1.flags, now, .other 0 []⟩ nfrag

/-- The answer to a container alone on a freshly opened input. -/
def DecodesAlone (pb : ProtobufC) (z : Zlib) (c : FileContainer) (r : Res × Option ProtoNmsg) :
    Prop :=
  ∀ (world : ReadWorld) (env : CallEnv), world.Reads → env.Succeeds →
    ∃ s, inputNmsgReadContainerFile pb world (FileReader.open c.encode, Decoder.open z) env =
      .ok (r, s)

section Unpack

variable {pb : ProtobufC} {z : Zlib} {env env' : CallEnv} {arrival arrival' : Arrival}
  {d d' : Decoder z} {buf : Bytes}

/-- Unpacking a whole container looks at its flags, at the inflate stream if it is compressed, and
at nothing else. -/
theorem inputNmsgUnpackContainer_alike (hmem : env.Succeeds) (hmem' : env'.Succeeds)
    (hfragment : arrival.flags &&& flagFragment = 0)
    (hfragment' : arrival'.flags &&& flagFragment = 0)
    (hzlib : arrival.flags &&& flagZlib = 0 ↔ arrival'.flags &&& flagZlib = 0)
    (hfresh : arrival.flags &&& flagZlib ≠ 0 →
      d.zb = z.inflateInit ∧ d'.zb = z.inflateInit ∧ InflatesAlike z buf) :
    ∃ res nmsg d₁ d₁', inputNmsgUnpackContainer pb env arrival d buf = .ok (res, nmsg, d₁) ∧
      inputNmsgUnpackContainer pb env' arrival' d' buf = .ok (res, nmsg, d₁') := by
  simp only [inputNmsgUnpackContainer, hfragment, hfragment', ne_eq, not_true_eq_false, if_false]
  by_cases hflag : arrival.flags &&& flagZlib = 0
  · simp only [hflag, hzlib.mp hflag, not_true_eq_false, if_false]
    cases pb.unpackNmsg buf with
    | none => exact ⟨_, _, _, _, rfl, rfl⟩
    | some nmsg => exact ⟨_, _, _, _, rfl, rfl⟩
  · obtain ⟨hzb, hzb', halike⟩ := hfresh hflag
    obtain ⟨hres, hout⟩ := halike env.past env'.past
    simp only [hflag, mt hzlib.mpr hflag, not_false_eq_true, if_true, hmem.1, hmem'.1, hzb, hzb']
    obtain ⟨res, out, zb, hinflate⟩ : ∃ res out zb,
        nmsgZbufInflate z z.inflateInit buf env.past true = (res, out, zb) := ⟨_, _, _, rfl⟩
    obtain ⟨res', out', zb', hinflate'⟩ : ∃ res out zb,
        nmsgZbufInflate z z.inflateInit buf env'.past true = (res, out, zb) := ⟨_, _, _, rfl⟩
    rw [hinflate, hinflate'] at hres hout
    simp only at hres hout
    subst hres hout
    rw [hinflate, hinflate']
    cases res with
    | success =>
        simp only
        cases pb.unpackNmsg out with
        | none => exact ⟨_, _, _, _, rfl, rfl⟩
        | some nmsg => exact ⟨_, _, _, _, rfl, rfl⟩
    | _ => exact ⟨_, _, _, _, rfl, rfl⟩

end Unpack

section Runs

variable {pb : ProtobufC} {z : Zlib} {world : ReadWorld} {s : FileReader × Decoder z}
  {env : CallEnv} {c : FileContainer}

/-- Flags of the stream behind a container that is decoded cleanly. -/
theorem DecodesCleanly.flags (h : DecodesCleanly pb s (env, c)) (hc : ¬ c.Fragment) :
    c.streamFlags s.1.flags &&& flagFragment = 0 ∧ c.streamFlags 0 &&& flagFragment = 0 ∧
      (c.streamFlags s.1.flags &&& flagZlib = 0 ↔ c.streamFlags 0 &&& flagZlib = 0) ∧
      (c.streamFlags s.1.flags &&& flagZlib ≠ 0 → c.Compressed) := by
  cases c with
  | v1 body =>
      obtain ⟨hfragment, hzlib⟩ := h.unflagged body rfl
      simp only [FileContainer.streamFlags, hfragment, hzlib]
      exact ⟨trivial, by decide, by decide, fun h => absurd rfl h⟩
  | v2 flags body =>
      simp only [FileContainer.Fragment, ne_eq, not_not] at hc
      exact ⟨hc, hc, Iff.rfl, fun hzlib => ⟨hc, hzlib⟩⟩

/-- One container: the call returns, and returns what it would if the container were alone. -/
theorem inputNmsgReadContainerFile_clean (hworld : world.Reads) {tail : Bytes} (hfits : c.Fits)
    (hrest : AtRest s.1) (hstream : s.1.stream = c.encode ++ tail) (hcounted : s.2.Counted)
    (hclean : DecodesCleanly pb s (env, c)) :
    ∃ r s', inputNmsgReadContainerFile pb world s env = .ok (r, s') ∧ AtRest s'.1 ∧
      s'.1.stream = tail ∧ s'.2.Counted ∧ (¬ c.Fragment → DecodesAlone pb z c r) := by
  obtain ⟨reader, d⟩ := s
  obtain ⟨r', hfetch, hrest', hstream', hflags⟩ :=
    fetchContainer_spec hworld hfits hrest hstream
  obtain ⟨res, nmsg, d₁, hunpack, hcounted'⟩ : ∃ res nmsg d₁, inputNmsgUnpackContainer pb env
      ⟨r'.flags, r'.now, .other 0 []⟩ d c.body = .ok (res, nmsg, d₁) ∧ d₁.Counted := by
    refine inputNmsgUnpackContainer_ok hcounted ?_
    intro hflag nfrag hnfrag
    simp only [hflags] at hflag ⊢
    refine hclean.fragment ?_ r'.now nfrag hnfrag
    cases c with
    | v1 body => exact absurd (hclean.unflagged body rfl).1 hflag
    | v2 flags body => exact hflag
  refine ⟨(res, nmsg), (r', d₁), ?_, hrest', hstream', hcounted', ?_⟩
  · simp only [inputNmsgReadContainerFile, readContainerFile, hfetch, hunpack]
  · intro hc world' env' hworld' henv'
    obtain ⟨hfragment, hfragment', hzlib, hcompressed⟩ := hclean.flags hc
    have hopen : AtRest (FileReader.open c.encode) := ⟨rfl, le_rfl, Nat.zero_le _, Or.inr rfl⟩
    obtain ⟨r'', hfetch', -, -, hflags'⟩ :=
      fetchContainer_spec hworld' hfits hopen (List.append_nil _).symm
    rw [← hflags] at hfragment hzlib hcompressed
    change r''.flags = c.streamFlags 0 at hflags'
    rw [← hflags'] at hfragment' hzlib
    obtain ⟨res', nmsg', d₂, d₂', hfirst, hsecond⟩ :
        ∃ res nmsg d₂ d₂', inputNmsgUnpackContainer pb env ⟨r'.flags, r'.now, .other 0 []⟩ d
            c.body = .ok (res, nmsg, d₂) ∧
          inputNmsgUnpackContainer pb env' ⟨r''.flags, r''.now, .other 0 []⟩ (Decoder.open z)
            c.body = .ok (res, nmsg, d₂') := by
      refine inputNmsgUnpackContainer_alike hclean.memory henv' hfragment hfragment' hzlib ?_
      intro hflag
      obtain ⟨hzb, halike⟩ := hclean.fresh (hcompressed hflag)
      exact ⟨hzb, rfl, halike⟩
    rw [hunpack, Except.ok.injEq, Prod.mk.injEq, Prod.mk.injEq] at hfirst
    obtain ⟨rfl, rfl, -⟩ := hfirst
    refine ⟨(r'', d₂'), ?_⟩
    simp only [inputNmsgReadContainerFile, readContainerFile, hfetch', hsecond]

theorem run_clean (hworld : world.Reads) {cs : List FileContainer} {envs : List CallEnv}
    (hlen : envs.length = cs.length) (hfits : ∀ c ∈ cs, c.Fits) (hrest : AtRest s.1)
    (hstream : s.1.stream = cs.flatMap FileContainer.encode) (hcounted : s.2.Counted)
    (hclean : StepRun.Along (fun s (call : CallEnv × FileContainer) =>
      inputNmsgReadContainerFile pb world s call.1) (DecodesCleanly pb) s (envs.zip cs)) :
    ∃ results s', StepRun.run (inputNmsgReadContainerFile pb world) s envs =
        .ok (results, s') ∧
      List.Forall₂ (fun c r => ¬ c.Fragment → DecodesAlone pb z c r) cs results := by
  induction cs generalizing envs s with
  | nil =>
      obtain rfl : envs = [] := List.length_eq_zero_iff.mp hlen
      exact ⟨[], s, rfl, List.Forall₂.nil⟩
  | cons c cs ih =>
      cases envs with
      | nil => cases hlen
      | cons env envs =>
          rw [List.flatMap_cons] at hstream
          obtain ⟨hfirst, hlater⟩ := hclean
          obtain ⟨r, s', hok, hrest', hstream', hcounted', halone⟩ :=
            inputNmsgReadContainerFile_clean hworld (hfits c (by simp)) hrest hstream hcounted
              hfirst
          obtain ⟨results, t, hrun, hall⟩ := ih (Nat.succ.inj hlen)
            (fun c hc => hfits c (by simp [hc])) hrest' hstream' hcounted' (hlater r s' hok)
          exact ⟨r :: results, t, StepRun.run_cons_eq_ok.mpr ⟨r, s', results, hok, hrun, rfl⟩,
            List.Forall₂.cons halone hall⟩

end Runs

/-- Octets that were deflated inflate alike wherever they lie. -/
theorem inflatesAlike_deflated {z : Zlib} (hz : z.Lawful) {buf : Bytes}
    (hbuf : buf.length < 2 ^ 32) (hdeflated : (deflated z buf).length < 2 ^ 32) :
    InflatesAlike z (deflated z buf) := by
  intro past past'
  rw [nmsgZbufInflate_deflated hz past hbuf hdeflated,
    nmsgZbufInflate_deflated hz past' hbuf hdeflated]
  exact ⟨rfl, rfl⟩

/-- The same octets in a container of version 1 and compressed in one of version 2. -/
def sampleContainers : List FileContainer :=
  [.v1 [0x18, 5], .v2 flagZlib (deflated storedZlib [0x18, 5])]

def twoCalls : List CallEnv := List.replicate 2 ⟨[], true, true, true, true⟩

/-- A stream that was left in the middle accepts nothing before it is reset. -/
def Zlib.Sticks (z : Zlib) : Prop :=
  ∀ s input availOut, s ≠ z.inflateInit → (z.inflate s input availOut).ended = false

/-- A compressed container that finds such a stream is not decoded. -/
theorem inputNmsgUnpackContainer_stuck {pb : ProtobufC} {z : Zlib} (hz : z.Sticks) {env : CallEnv}
    (hmem : env.Succeeds) {arrival : Arrival} {d : Decoder z} {buf : Bytes}
    (hfragment : arrival.flags &&& flagFragment = 0) (hzlib : arrival.flags &&& flagZlib ≠ 0)
    (hstuck : d.zb ≠ z.inflateInit) :
    ∃ d', inputNmsgUnpackContainer pb env arrival d buf = .ok (.failure, none, d') := by
  have hended := hz d.zb (((buf ++ env.past).drop 4).take (buf.length % 2 ^ 32))
    (Octets.beNat ((buf ++ env.past).take 4)) hstuck
  simp only [inputNmsgUnpackContainer, hfragment, ne_eq, not_true_eq_false, if_false, hzlib,
    not_false_eq_true, if_true, hmem.1, nmsgZbufInflate, hended, Bool.true_eq_false, true_or]
  exact ⟨_, rfl⟩

/-- A fragment without octets, and an empty container of version 1. -/
def staleContainers : List FileContainer := [.v2 flagFragment [], .v1 []]

end Nmsg

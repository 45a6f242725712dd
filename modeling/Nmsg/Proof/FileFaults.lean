import Nmsg.Proof.BufferReads
import Nmsg.Proof.FileReader

/-!
# Files from anywhere

A refill of the buffer goes wrong in three ways. There is no room for what is missing, which the
reader asserts. A length field does not arrive, which it does not look at before it asserts that the
octets are there. A compressed body ends at the end of the buffer, and `inflate` is let read beyond.
-/

namespace Nmsg

open Octets

/-- The octets that `n` calls of `read` from call `calls` on may return, if none of them fails. -/
def ReadWorld.grants (world : ReadWorld) : Nat → Nat → Option Nat
  | 0, _ => some 0
  | n + 1, calls =>
      match world.limit calls with
      | none => none
      | some limit => (world.grants n (calls + 1)).map (limit + 1 + ·)

/-- The next octets of the file are there, and are read before a call of `read` fails. -/
def ReadWorld.Supplies (world : ReadWorld) (calls needed : Nat) (rest : Bytes) : Prop :=
  needed ≤ rest.length ∧ ∃ n total, world.grants n calls = some total ∧ needed ≤ total

/-- What is missing of the next `size` octets can be read. -/
def FileReader.Arrives (world : ReadWorld) (r : FileReader) (size : Nat) : Prop :=
  world.Supplies r.calls (r.buf.pos + size - r.buf.mem.length) r.rest

/-- A header field begins where the buffer is reset or fits in behind what was read. -/
def FileReader.FieldRoom (r : FileReader) (size : Nat) : Prop :=
  r.buf.pos = r.buf.mem.length ∨ r.buf.pos + size ≤ rbufsz

/-- The reader behind magic and version, and the size of the length field, if a call gets there. -/
def FileReader.atLength (world : ReadWorld) (r : FileReader) : Option (Nat × FileReader) :=
  match fillField world hdrsz r with
  | .ok (.success, resetBuf, r) =>
      if r.buf.ahead.take 4 ≠ magic then none
      else
        let version := beNat ((r.buf.ahead.drop 4).take 2)
        let r := resetIf resetBuf { r with buf := r.buf.advance hdrsz }
        if version = 1 then some (lenhdrszV1, r)
        else if version % 256 = 2 then some (lenhdrszV2, { r with flags := .ofNat (version / 256) })
        else none
  | _ => none

/-- The reader behind the length field, and the length, if a call gets there. -/
def FileReader.atBody (world : ReadWorld) (r : FileReader) : Option (Nat × FileReader) :=
  match r.atLength world with
  | none => none
  | some (size, r) => (readLength world size r).toOption

/-- How far a body is read when it is unpacked. -/
def unpackReach (flags : UInt8) (len : Nat) (uBufOk : Bool) : Nat :=
  if flags &&& flagFragment ≠ 0 then len else bodyReach flags len uBufOk

/-- The call returns, and nothing in front of the buffer or behind it was read or written. -/
def SurvivesCall (world : ReadWorld) (env : CallEnv) (r : FileReader) : Prop :=
  ∃ answer r', fetchContainer world r = .ok (answer, r') ∧
    r'.buf.pos ≤ r'.buf.mem.length ∧ r'.buf.mem.length ≤ rbufsz ∧
    ∀ body, answer = .ok body →
      r'.buf.pos - body.length + unpackReach r'.flags body.length env.uBufOk ≤ rbufsz

/-- What the next container asks for has room, and its length field arrives. -/
structure Survivable (world : ReadWorld) (env : CallEnv) (r : FileReader) : Prop where
  header : r.FieldRoom hdrsz
  length : ∀ size r₁, r.atLength world = some (size, r₁) →
    r₁.FieldRoom size ∧ r₁.Arrives world size
  body : ∀ msgsize r₂, r.atBody world = some (msgsize, r₂) → r₂.buf.pos + msgsize ≤ rbufsz ∧
    (r₂.Arrives world msgsize →
      r₂.buf.pos + unpackReach r₂.flags msgsize env.uBufOk ≤ rbufsz)

/-- The buffer between two calls, whatever the last one came to. -/
structure FileReader.Held (r : FileReader) : Prop where
  bufsz : r.buf.bufsz = rbufsz / 2
  pos_le : r.buf.pos ≤ r.buf.mem.length
  mem_le : r.buf.mem.length ≤ rbufsz

/-! ### Refills -/

section Refill

variable {world : ReadWorld} {r : FileReader} {size : Nat}

theorem supplies_zero (world : ReadWorld) (calls : Nat) (rest : Bytes) :
    world.Supplies calls 0 rest := ⟨Nat.zero_le _, 0, 0, rfl, le_rfl⟩

/-- The octets that one call of `read` returns are taken off those needed. -/
theorem supplies_read {calls needed max limit : Nat} (rest : Bytes) (hneeded : 0 < needed)
    (hmax : needed ≤ max) (hlimit : world.limit calls = some limit) :
    world.Supplies calls needed rest ↔
      world.Supplies (calls + 1) (needed - (rest.take (min (limit + 1) max)).length)
        (rest.drop (rest.take (min (limit + 1) max)).length) := by
  have hlen : (rest.take (min (limit + 1) max)).length = min (min (limit + 1) max) rest.length :=
    List.length_take
  generalize (rest.take (min (limit + 1) max)).length = taken at hlen ⊢
  rw [ReadWorld.Supplies, ReadWorld.Supplies, List.length_drop]
  constructor
  · rintro ⟨hrest, n, total, hgrants, htotal⟩
    refine ⟨by omega, ?_⟩
    cases n with
    | zero =>
        rw [ReadWorld.grants, Option.some.injEq] at hgrants
        omega
    | succ n =>
        rw [ReadWorld.grants, hlimit] at hgrants
        obtain ⟨more, hmore, rfl⟩ := Option.map_eq_some_iff.mp hgrants
        exact ⟨n, more, hmore, by omega⟩
  · rintro ⟨hrest, n, total, hgrants, htotal⟩
    refine ⟨by omega, n + 1, limit + 1 + total, ?_, by omega⟩
    rw [ReadWorld.grants, hlimit]
    simp only [hgrants, Option.map_some]

/-- What a refill comes to: it takes octets, as many as are needed if and only if there are as many
to be had. -/
def Refilled (world : ReadWorld) (needed max : Nat) (r : FileReader)
    (called : Except Abort (Res × FileReader)) : Prop :=
  ∃ res r' k, called = .ok (res, r') ∧ Took k r r' ∧ k ≤ max ∧ k ≤ r.rest.length ∧
    (res = .success ↔ world.Supplies r.calls needed r.rest) ∧ (res = .success ↔ needed ≤ k)

theorem refilled_nothing (fuel max : Nat) :
    Refilled world 0 max r (readLoop world fuel 0 max r) := by
  refine ⟨.success, { r with now := world.clock r.calls }, 0, by rw [readLoop],
    ⟨by simp, by simp, rfl, rfl, rfl⟩, Nat.zero_le _, Nat.zero_le _, ?_, ?_⟩
  · exact ⟨fun _ => supplies_zero world r.calls r.rest, fun _ => rfl⟩
  · exact ⟨fun _ => le_rfl, fun _ => rfl⟩

/-- By induction on the octets needed at first. -/
theorem readLoop_refilled {fuel needed max : Nat} (hfuel : needed ≤ fuel) (hmax : needed ≤ max) :
    Refilled world needed max r (readLoop world fuel needed max r) := by
  induction fuel generalizing needed max r with
  | zero =>
      obtain rfl : needed = 0 := by omega
      exact refilled_nothing 0 max
  | succ fuel ih =>
      cases needed with
      | zero => exact refilled_nothing (fuel + 1) max
      | succ needed =>
          have hstays : Took 0 r { r with calls := r.calls + 1 } :=
            ⟨by simp, by simp, rfl, rfl, rfl⟩
          rw [readLoop]
          cases hlimit : world.limit r.calls with
          | none =>
              refine ⟨.failure, _, 0, rfl, hstays, Nat.zero_le _, Nat.zero_le _, ⟨by rintro ⟨⟩, ?_⟩,
                ⟨by rintro ⟨⟩, fun h => by omega⟩⟩
              rintro ⟨-, n, total, hgrants, htotal⟩
              cases n with
              | zero =>
                  rw [ReadWorld.grants, Option.some.injEq] at hgrants
                  omega
              | succ n =>
                  rw [ReadWorld.grants, hlimit] at hgrants
                  cases hgrants
          | some limit =>
              have hsupplies := supplies_read r.rest (Nat.succ_pos needed) hmax hlimit
              have hlen : (r.rest.take (min (limit + 1) max)).length =
                  min (min (limit + 1) max) r.rest.length := List.length_take
              have hstart : r.rest.take (min (limit + 1) max) =
                  r.rest.take (r.rest.take (min (limit + 1) max)).length := by
                rw [List.length_take, ← List.take_eq_take_min]
              simp only
              generalize r.rest.take (min (limit + 1) max) = data at hsupplies hlen hstart ⊢
              by_cases hdata : data = []
              · rw [if_pos hdata]
                rw [hdata, List.length_nil] at hlen
                have hnone : ¬ world.Supplies r.calls (needed + 1) r.rest := by
                  intro h
                  have := h.1
                  omega
                exact ⟨.eof, _, 0, rfl, hstays, Nat.zero_le _, Nat.zero_le _,
                  ⟨by rintro ⟨⟩, fun h => absurd h hnone⟩, ⟨by rintro ⟨⟩, fun h => by omega⟩⟩
              rw [if_neg hdata]
              have hpos := List.length_pos_iff.mpr hdata
              obtain ⟨res, r', k, hloop, htook, hkmax, hk, hres, hneed⟩ := ih (r := { r with
                buf := { r.buf with mem := r.buf.mem ++ data }
                rest := r.rest.drop data.length
                calls := r.calls + 1 }) (show needed + 1 - data.length ≤ fuel by omega)
                (show needed + 1 - data.length ≤ max - data.length by omega)
              rw [List.length_drop] at hk
              refine ⟨res, r', data.length + k, hloop, ⟨?_, ?_, htook.pos, htook.bufsz, htook.flags⟩,
                by omega, by omega, hres.trans hsupplies.symm, hneed.trans (by omega)⟩
              · rw [htook.mem, List.take_add, ← hstart, List.append_assoc]
              · rw [htook.rest, List.drop_drop]

theorem doReadFile_refilled (world : ReadWorld) {needed max : Nat} (hmax : needed ≤ max)
    (hroom : r.buf.mem.length + max ≤ rbufsz) :
    Refilled world needed max r (doReadFile world needed max r) := by
  rw [doReadFile, if_neg (by omega), if_neg (by omega)]
  exact readLoop_refilled le_rfl hmax

theorem doReadFile_no_room {needed : Nat} (h : rbufsz < r.buf.mem.length + needed) :
    doReadFile world needed needed r = .error .assertion := by
  rw [doReadFile, if_neg (Nat.lt_irrefl _), if_pos h]

/-- A refill of exactly what is missing of the next `size` octets. -/
theorem refill_missing (world : ReadWorld) (h : r.Held) (hmissing : r.buf.mem.length < r.buf.pos + size)
    (hroom : r.buf.pos + size ≤ rbufsz) :
    ∃ res r', doReadFile world (size - (r.buf.mem.length - r.buf.pos))
        (size - (r.buf.mem.length - r.buf.pos)) r = .ok (res, r') ∧ r'.Held ∧
      r'.buf.pos = r.buf.pos ∧ r'.flags = r.flags ∧ (res = .success ↔ r.Arrives world size) ∧
      (res = .success ↔ r'.buf.pos + size ≤ r'.buf.mem.length) := by
  have hpos := h.pos_le
  have hneeded : size - (r.buf.mem.length - r.buf.pos) = r.buf.pos + size - r.buf.mem.length := by
    omega
  rw [hneeded]
  obtain ⟨res, r', k, hread, htook, hmax, hk, hres, hneed⟩ := doReadFile_refilled world
    (le_refl (r.buf.pos + size - r.buf.mem.length)) (r := r) (by omega)
  have hmem := htook.length hk
  have hsame := htook.pos
  refine ⟨res, r', hread, ⟨htook.bufsz.trans h.bufsz, by omega, by omega⟩, hsame, htook.flags, hres,
    hneed.trans (by omega)⟩

theorem fillField_of_room (world : ReadWorld) (h : r.Held) (hsize : size ≤ rbufsz / 2)
    (hroom : r.FieldRoom size) :
    ∃ res resetBuf r', fillField world size r = .ok (res, resetBuf, r') ∧ r'.Held ∧
      (res = .success ↔ r.Arrives world size) ∧
      (res = .success ↔ r'.buf.pos + size ≤ r'.buf.mem.length) := by
  have hpos := h.pos_le
  rw [fillField, avail_eq hpos]
  simp only
  by_cases havail : size ≤ r.buf.mem.length - r.buf.pos
  · rw [if_pos havail]
    have harrives : r.Arrives world size := by
      rw [FileReader.Arrives, Nat.sub_eq_zero_of_le (by omega)]
      exact supplies_zero world r.calls r.rest
    exact ⟨.success, false, r, rfl, h, ⟨fun _ => harrives, fun _ => rfl⟩,
      ⟨fun _ => by omega, fun _ => rfl⟩⟩
  rw [if_neg havail]
  by_cases hempty : r.buf.mem.length - r.buf.pos = 0
  · -- the buffer is reset, and filled up to its half
    rw [if_pos hempty]
    have hbuf : rbufsz / 2 + rbufsz / 2 = rbufsz := rfl
    have hbufsz := h.bufsz
    have hzero : ({ r with buf := r.buf.reset } : FileReader).buf.mem.length + r.buf.bufsz ≤
        rbufsz := by
      simp only [NmsgBuf.reset, List.length_nil]
      omega
    obtain ⟨res, r', k, hread, htook, hmax, hk, hres, hneed⟩ :=
      doReadFile_refilled world (show size ≤ r.buf.bufsz by omega) hzero
    have hmem : r'.buf.mem.length = k := by simpa [NmsgBuf.reset] using htook.length hk
    have hstart : r'.buf.pos = 0 := htook.pos
    have hneeded : r.buf.pos + size - r.buf.mem.length = size := by omega
    refine ⟨res, false, r', by rw [hread]; rfl, ⟨htook.bufsz.trans h.bufsz, by omega, by omega⟩, ?_,
      hneed.trans (by omega)⟩
    rw [FileReader.Arrives, hneeded]
    exact hres
  · -- the field is split, and its octets may end anywhere in the buffer
    rw [if_neg hempty]
    have hroom' : r.buf.pos + size ≤ rbufsz := hroom.resolve_left (by omega)
    obtain ⟨res, r', hread, hheld, -, -, hres, hneed⟩ :=
      refill_missing world h (by omega) hroom'
    exact ⟨res, true, r', by rw [hread]; rfl, hheld, hres, hneed⟩

theorem fillField_no_room (h : r.Held) (hroom : ¬ r.FieldRoom size) :
    fillField world size r = .error .assertion := by
  have hpos := h.pos_le
  have hmem := h.mem_le
  simp only [FileReader.FieldRoom, not_or] at hroom
  obtain ⟨hbehind, hover⟩ := hroom
  rw [fillField, avail_eq hpos]
  simp only
  rw [if_neg (by omega), if_neg (by omega), doReadFile_no_room (by omega)]
  rfl

end Refill

/-! ### Calls -/

section Call

variable {world : ReadWorld} {r : FileReader} {size : Nat} {env : CallEnv}

theorem FileReader.Held.passField (h : r.Held) (hsize : r.buf.pos + size ≤ r.buf.mem.length)
    (resetBuf : Bool) : (resetIf resetBuf { r with buf := r.buf.advance size }).Held := by
  cases resetBuf with
  | true => exact ⟨h.bufsz, le_rfl, Nat.zero_le _⟩
  | false => exact ⟨h.bufsz, hsize, h.mem_le⟩

/-- Where the field has room only its arrival matters. -/
theorem readLength_of_room (world : ReadWorld) (h : r.Held) (hsize : size ≤ rbufsz / 2)
    (hroom : r.FieldRoom size) :
    (r.Arrives world size ∧ ∃ msgsize r', readLength world size r = .ok (msgsize, r') ∧ r'.Held) ∨
      (¬ r.Arrives world size ∧ readLength world size r = .error .assertion) := by
  obtain ⟨res, resetBuf, r', hfill, hheld, harrives, hthere⟩ := fillField_of_room world h hsize hroom
  rw [readLength, hfill]
  simp only [avail_eq hheld.pos_le]
  by_cases hres : res = .success
  · have hfield := hthere.mp hres
    rw [if_neg (by omega)]
    exact Or.inl ⟨harrives.mp hres, _, _, rfl, hheld.passField hfield resetBuf⟩
  · have hfield := mt hthere.mpr hres
    have hpos := hheld.pos_le
    rw [if_pos (by omega)]
    exact Or.inr ⟨mt harrives.mpr hres, rfl⟩

theorem readLength_no_room (h : r.Held) (hroom : ¬ r.FieldRoom size) :
    readLength world size r = .error .assertion := by
  rw [readLength, fillField_no_room h hroom]

/-- Up to the version nothing goes wrong but for want of room. -/
theorem readFile_of_room (world : ReadWorld) (h : r.Held) (hroom : r.FieldRoom hdrsz) :
    (∃ size r₁, r.atLength world = some (size, r₁) ∧ r₁.Held ∧ size ≤ rbufsz / 2 ∧
      readFile world r = (readLength world size r₁).map fun (msgsize, r) => (.ok msgsize, r)) ∨
    (r.atLength world = none ∧ ∃ res r', readFile world r = .ok (.error res, r') ∧ r'.Held) := by
  obtain ⟨res, resetBuf, r', hfill, hheld, -, hthere⟩ :=
    fillField_of_room world h (by decide) hroom
  rw [readFile, FileReader.atLength, hfill]
  simp only
  by_cases hres : res = .success
  · have hfield := hthere.mp hres
    have hpassed := hheld.passField hfield resetBuf
    rw [hres, if_neg (not_not.mpr rfl), avail_eq hheld.pos_le]
    simp only
    rw [if_neg (show ¬ r'.buf.mem.length - r'.buf.pos < hdrsz by omega)]
    by_cases hmagic : r'.buf.ahead.take 4 ≠ magic
    · rw [if_pos hmagic, if_pos hmagic]
      exact Or.inr ⟨rfl, _, _, rfl, hheld⟩
    rw [if_neg hmagic, if_neg hmagic]
    generalize beNat ((r'.buf.ahead.drop 4).take 2) = version
    by_cases hone : version = 1
    · rw [if_pos hone, if_pos hone]
      exact Or.inl ⟨_, _, rfl, hpassed, by decide, rfl⟩
    rw [if_neg hone, if_neg hone]
    by_cases htwo : version % 256 = 2
    · rw [if_pos htwo, if_pos htwo]
      exact Or.inl ⟨_, _, rfl, ⟨hpassed.bufsz, hpassed.pos_le, hpassed.mem_le⟩, by decide, rfl⟩
    · rw [if_neg htwo, if_neg htwo]
      exact Or.inr ⟨rfl, _, _, rfl, hpassed⟩
  · rw [if_pos hres]
    refine Or.inr ⟨?_, res, r', rfl, hheld⟩
    cases res with
    | success => exact absurd rfl hres
    | _ => rfl

theorem readFile_no_room (h : r.Held) (hroom : ¬ r.FieldRoom hdrsz) :
    readFile world r = .error .assertion := by
  rw [readFile, fillField_no_room h hroom]

theorem arrives_of_buffered (world : ReadWorld) (h : r.buf.pos + size ≤ r.buf.mem.length) :
    r.Arrives world size := by
  rw [FileReader.Arrives, Nat.sub_eq_zero_of_le h]
  exact supplies_zero world r.calls r.rest

/-- A body that arrives is taken out of the buffer. -/
theorem fetchContainer_of_room {msgsize : Nat} {r₂ : FileReader} (h : r₂.Held)
    (hread : readFile world r = .ok (.ok msgsize, r₂)) (hroom : r₂.buf.pos + msgsize ≤ rbufsz) :
    ∃ answer r', fetchContainer world r = .ok (answer, r') ∧ r'.Held ∧
      ((r₂.Arrives world msgsize ∧ r'.buf.pos = r₂.buf.pos + msgsize ∧ r'.flags = r₂.flags ∧
          ∃ body, answer = .ok body ∧ body.length = msgsize) ∨
        (¬ r₂.Arrives world msgsize ∧ ∃ res, answer = .error res)) := by
  have hpos := h.pos_le
  have htaken : ∀ {r' : FileReader}, r'.Held → r'.buf.pos = r₂.buf.pos → r'.flags = r₂.flags →
      r'.buf.pos + msgsize ≤ r'.buf.mem.length → r₂.Arrives world msgsize →
      ∃ answer t, (Except.ok (.ok (r'.buf.ahead.take msgsize),
          ({ r' with buf := r'.buf.advance msgsize } : FileReader)) :
            Except Abort (Except Res Bytes × FileReader)) = .ok (answer, t) ∧ t.Held ∧
        ((r₂.Arrives world msgsize ∧ t.buf.pos = r₂.buf.pos + msgsize ∧ t.flags = r₂.flags ∧
            ∃ body, answer = .ok body ∧ body.length = msgsize) ∨
          (¬ r₂.Arrives world msgsize ∧ ∃ res, answer = .error res)) := by
    intro r' hheld hsame hflags hthere harrives
    refine ⟨_, _, rfl, ⟨hheld.bufsz, hthere, hheld.mem_le⟩, Or.inl ⟨harrives, ?_, hflags, _, rfl, ?_⟩⟩
    · simp only [NmsgBuf.advance, hsame]
    · rw [NmsgBuf.ahead, List.length_take, List.length_drop]
      omega
  rw [fetchContainer, hread]
  simp only [avail_eq hpos]
  by_cases hbuffered : r₂.buf.mem.length - r₂.buf.pos < msgsize
  · rw [if_pos hbuffered]
    obtain ⟨res, r', hrefill, hheld, hsame, hflags, harrives, hthere⟩ :=
      refill_missing world h (by omega) hroom
    simp only [hrefill]
    by_cases hres : res ≠ .success
    · rw [if_pos hres]
      exact ⟨_, _, rfl, hheld, Or.inr ⟨mt harrives.mpr hres, res, rfl⟩⟩
    · rw [if_neg hres]
      have hsuccess := not_not.mp hres
      exact htaken hheld hsame hflags (hthere.mp hsuccess) (harrives.mp hsuccess)
  · rw [if_neg hbuffered]
    exact htaken h rfl rfl (by omega) (arrives_of_buffered world (by omega))

theorem fetchContainer_no_room {msgsize : Nat} {r₂ : FileReader} (h : r₂.Held)
    (hread : readFile world r = .ok (.ok msgsize, r₂)) (hroom : ¬ r₂.buf.pos + msgsize ≤ rbufsz) :
    fetchContainer world r = .error .assertion := by
  have hpos := h.pos_le
  have hmem := h.mem_le
  rw [fetchContainer, hread]
  simp only [avail_eq hpos]
  rw [if_pos (by omega), doReadFile_no_room (by omega)]

theorem atBody_eq {r₁ : FileReader} (h : r.atLength world = some (size, r₁)) :
    r.atBody world = (readLength world size r₁).toOption := by
  rw [FileReader.atBody, h]

/-- **One call.** -/
theorem survivesCall_iff (world : ReadWorld) (env : CallEnv) (h : r.Held) :
    (SurvivesCall world env r ↔ Survivable world env r) ∧
      ∀ answer r', fetchContainer world r = .ok (answer, r') → r'.Held := by
  have haborts : ∀ e, ¬ Survivable world env r → fetchContainer world r = .error e →
      (SurvivesCall world env r ↔ Survivable world env r) ∧
        ∀ answer r', fetchContainer world r = .ok (answer, r') → r'.Held := by
    intro e hnot habort
    refine ⟨⟨?_, fun hsurvivable => absurd hsurvivable hnot⟩, ?_⟩
    · rintro ⟨answer, r', hok, -⟩
      cases habort.symm.trans hok
    · intro answer r' hok
      cases habort.symm.trans hok
  by_cases hheader : r.FieldRoom hdrsz
  swap
  · exact haborts .assertion (fun hsurvivable => hheader hsurvivable.header)
      (by rw [fetchContainer, readFile_no_room h hheader])
  rcases readFile_of_room world h hheader with
    ⟨size, r₁, hlength, hheld₁, hsize, hread⟩ | ⟨hnone, res, r', hread, hheld'⟩
  · by_cases hfield : r₁.FieldRoom size
    swap
    · refine haborts .assertion (fun hsurvivable => hfield (hsurvivable.length _ _ hlength).1) ?_
      rw [fetchContainer, hread, readLength_no_room hheld₁ hfield]
      rfl
    rcases readLength_of_room world hheld₁ hsize hfield with
      ⟨harrives, msgsize, r₂, hok, hheld₂⟩ | ⟨hnot, hfails⟩
    swap
    · refine haborts .assertion (fun hsurvivable => hnot (hsurvivable.length _ _ hlength).2) ?_
      rw [fetchContainer, hread, hfails]
      rfl
    have hbody : r.atBody world = some (msgsize, r₂) := by
      rw [atBody_eq hlength, hok]
      rfl
    have hread₂ : readFile world r = .ok (.ok msgsize, r₂) := by
      rw [hread, hok]
      rfl
    by_cases hroom : r₂.buf.pos + msgsize ≤ rbufsz
    swap
    · exact haborts .assertion (fun hsurvivable => hroom (hsurvivable.body _ _ hbody).1)
        (fetchContainer_no_room hheld₂ hread₂ hroom)
    obtain ⟨answer, r', hcall, hheld', hcases⟩ := fetchContainer_of_room hheld₂ hread₂ hroom
    refine ⟨⟨?_, ?_⟩, ?_⟩
    · rintro ⟨answer', t, hcall', -, -, hreach⟩
      rw [hcall, Except.ok.injEq, Prod.mk.injEq] at hcall'
      obtain ⟨rfl, rfl⟩ := hcall'
      refine ⟨hheader, ?_, ?_⟩
      · intro size' r₁' hlength'
        rw [hlength, Option.some.injEq, Prod.mk.injEq] at hlength'
        obtain ⟨rfl, rfl⟩ := hlength'
        exact ⟨hfield, harrives⟩
      · intro msgsize' r₂' hbody'
        rw [hbody, Option.some.injEq, Prod.mk.injEq] at hbody'
        obtain ⟨rfl, rfl⟩ := hbody'
        refine ⟨hroom, fun hthere => ?_⟩
        rcases hcases with ⟨-, hpos, hflags, body, rfl, hlen⟩ | ⟨hnot, -⟩
        · have hinside := hreach body rfl
          rwa [hlen, hpos, hflags, Nat.add_sub_cancel] at hinside
        · exact absurd hthere hnot
    · intro hsurvivable
      refine ⟨answer, r', hcall, hheld'.pos_le, hheld'.mem_le, ?_⟩
      intro body hanswer
      rcases hcases with ⟨hthere, hpos, hflags, body', hanswer', hlen⟩ | ⟨-, res, hanswer'⟩
      · rw [hanswer', Except.ok.injEq] at hanswer
        subst hanswer
        rw [hlen, hpos, hflags, Nat.add_sub_cancel]
        exact (hsurvivable.body _ _ hbody).2 hthere
      · cases hanswer.symm.trans hanswer'
    · intro answer' t hcall'
      rw [hcall, Except.ok.injEq, Prod.mk.injEq] at hcall'
      exact hcall'.2 ▸ hheld'
  · have hcall : fetchContainer world r = .ok (.error res, r') := by rw [fetchContainer, hread]
    refine ⟨⟨fun _ => ⟨hheader, ?_, ?_⟩, fun _ => ?_⟩, ?_⟩
    · intro size r₁ hlength
      cases hnone.symm.trans hlength
    · intro msgsize r₂ hbody
      rw [FileReader.atBody, hnone] at hbody
      cases hbody
    · exact ⟨_, r', hcall, hheld'.pos_le, hheld'.mem_le, by rintro _ ⟨⟩⟩
    · intro answer' t hcall'
      rw [hcall, Except.ok.injEq, Prod.mk.injEq] at hcall'
      exact hcall'.2 ▸ hheld'

end Call

/-! ### Runs -/

section Runs

variable {D : Type*} {unpack : Unpacker D} {world : ReadWorld}

theorem readContainerFile_held {s s' : FileReader × D} {env : CallEnv}
    {answer : Res × Option ProtoNmsg} (h : s.1.Held)
    (hcall : readContainerFile unpack world s env = .ok (answer, s')) : s'.1.Held := by
  have hfetch := (survivesCall_iff world env h).2
  rw [readContainerFile] at hcall
  split at hcall
  · cases hcall
  · rename_i res r hok
    cases hcall
    exact hfetch _ _ hok
  · rename_i body r hok
    split at hcall
    · cases hcall
    · cases hcall
      exact hfetch _ _ hok

theorem held_open (octets : Bytes) : (FileReader.open octets).Held :=
  ⟨rfl, le_rfl, Nat.zero_le _⟩

/-- **A file input survives a file** call after call, exactly when every call finds what it survives.
The unpacker may be any. -/
theorem file_input_survives_iff (unpack : Unpacker D) (world : ReadWorld) (octets : Bytes) (d : D)
    (envs : List CallEnv) :
    StepRun.Along (readContainerFile unpack world) (fun s env => SurvivesCall world env s.1)
        (FileReader.open octets, d) envs ↔
      StepRun.Along (readContainerFile unpack world) (fun s env => Survivable world env s.1)
        (FileReader.open octets, d) envs :=
  StepRun.along_congr_of_invariant (fun s => s.1.Held) (fun _ _ _ _ h => readContainerFile_held h)
    (fun _ env h => (survivesCall_iff world env h).1) (held_open octets)

/-- **A file that ends within a length field** is not survived, whatever `read` does. -/
theorem length_field_cut :
    fetchContainer octetWorld (FileReader.open (magic ++ [0, 2, 0, 0])) = .error .assertion ∧
      ¬ StepRun.Along (inputNmsgReadContainerFile wire octetWorld)
        (fun s env => SurvivesCall octetWorld env s.1)
        (FileReader.open (magic ++ [0, 2, 0, 0]), Decoder.open storedZlib)
        [⟨[], true, true, true, true⟩] := by
  have habort : fetchContainer octetWorld (FileReader.open (magic ++ [0, 2, 0, 0])) =
      .error .assertion := by rfl
  refine ⟨habort, ?_⟩
  rintro ⟨⟨answer, r', hcall, -⟩, -⟩
  cases habort.symm.trans hcall

end Runs

end Nmsg

import Nmsg.Input.File
import Nmsg.Proof.ContainerRoundTrip

/-!
# The reader sees the stream

However `read` cuts the stream up, the reader hands out its containers one after the other. Between
two calls the buffer holds at most half of what it can, or nothing that is still to be passed over;
every refill needs only that.
-/

namespace Nmsg

open Octets

/-- `r'` is `r` after `k` more octets were read. -/
structure Took (k : Nat) (r r' : FileReader) : Prop where
  mem : r'.buf.mem = r.buf.mem ++ r.rest.take k
  rest : r'.rest = r.rest.drop k
  pos : r'.buf.pos = r.buf.pos
  bufsz : r'.buf.bufsz = r.buf.bufsz
  flags : r'.flags = r.flags

/-- The reader between two calls. -/
structure AtRest (r : FileReader) : Prop where
  bufsz : r.buf.bufsz = rbufsz / 2
  pos_le : r.buf.pos ≤ r.buf.mem.length
  mem_le : r.buf.mem.length ≤ rbufsz
  half : r.buf.mem.length ≤ rbufsz / 2 ∨ r.buf.pos = r.buf.mem.length

/-- The reader behind a header field: the buffer is at most half full. -/
structure Settled (stream : Bytes) (flags : UInt8) (r : FileReader) : Prop where
  bufsz : r.buf.bufsz = rbufsz / 2
  pos_le : r.buf.pos ≤ r.buf.mem.length
  mem_le : r.buf.mem.length ≤ rbufsz / 2
  stream : r.stream = stream
  flags : r.flags = flags

theorem Settled.atRest {stream : Bytes} {flags : UInt8} {r : FileReader}
    (h : Settled stream flags r) : AtRest r where
  bufsz := h.bufsz
  pos_le := h.pos_le
  mem_le := Nat.le_trans h.mem_le (Nat.div_le_self _ _)
  half := Or.inl h.mem_le

/-! ### Reading -/

section Read

variable {world : ReadWorld} {r r' : FileReader} {k size : Nat}

theorem Took.length (h : Took k r r') (hk : k ≤ r.rest.length) :
    r'.buf.mem.length = r.buf.mem.length + k := by
  rw [h.mem, List.length_append, List.length_take, Nat.min_eq_left hk]

/-- Reading moves octets from the file to the buffer. -/
theorem Took.stream (h : Took k r r') (hpos : r.buf.pos ≤ r.buf.mem.length) :
    r'.stream = r.stream := by
  simp only [FileReader.stream, NmsgBuf.ahead, h.mem, h.rest, h.pos]
  rw [List.drop_append_of_le_length hpos, List.append_assoc, List.take_append_drop]

/-- The loop reads at least what is needed and at most what was asked for. -/
theorem readLoop_spec (hworld : world.Reads) {fuel needed max : Nat} (hfuel : needed ≤ fuel)
    (hmax : needed ≤ max) (hrest : needed ≤ r.rest.length) :
    ∃ k r', readLoop world fuel needed max r = .ok (.success, r') ∧ needed ≤ k ∧ k ≤ max ∧
      k ≤ r.rest.length ∧ Took k r r' := by
  induction fuel generalizing needed max r with
  | zero =>
      obtain rfl : needed = 0 := by omega
      exact ⟨0, _, rfl, le_rfl, Nat.zero_le _, Nat.zero_le _, by simp, by simp, rfl, rfl, rfl⟩
  | succ fuel ih =>
      cases needed with
      | zero =>
          exact ⟨0, _, rfl, le_rfl, Nat.zero_le _, Nat.zero_le _, by simp, by simp, rfl, rfl, rfl⟩
      | succ needed =>
          cases hlimit : world.limit r.calls with
          | none => exact absurd hlimit (hworld _)
          | some limit =>
              obtain ⟨data, hdata⟩ : ∃ data, r.rest.take (min (limit + 1) max) = data := ⟨_, rfl⟩
              have hlen : data.length = min (min (limit + 1) max) r.rest.length := by
                rw [← hdata, List.length_take]
              have hne : data ≠ [] := by
                intro hnil
                rw [hnil, List.length_nil] at hlen
                omega
              have hstart : data = r.rest.take data.length := by
                rw [hlen, ← List.take_take, List.take_length, hdata]
              have hneeded' : needed + 1 - data.length ≤ (r.rest.drop data.length).length := by
                rw [List.length_drop]
                omega
              have hfuel' : needed + 1 - data.length ≤ fuel := by omega
              have hmax' : needed + 1 - data.length ≤ max - data.length := by omega
              obtain ⟨k, r', hloop, hneed, hle, hk, htook⟩ := ih (r := { r with
                buf := { r.buf with mem := r.buf.mem ++ data }
                rest := r.rest.drop data.length
                calls := r.calls + 1 }) hfuel' hmax' hneeded'
              rw [List.length_drop] at hk
              refine ⟨data.length + k, r', ?_, by omega, by omega, by omega, ?_, ?_, htook.pos,
                htook.bufsz, htook.flags⟩
              · simp only [readLoop, hlimit, hdata, if_neg hne]
                exact hloop
              · rw [htook.mem, List.take_add, ← hstart, List.append_assoc]
              · rw [htook.rest, List.drop_drop]

theorem doReadFile_spec (hworld : world.Reads) {needed max : Nat} (hmax : needed ≤ max)
    (hroom : r.buf.mem.length + max ≤ rbufsz) (hrest : needed ≤ r.rest.length) :
    ∃ k r', doReadFile world needed max r = .ok (.success, r') ∧ needed ≤ k ∧ k ≤ max ∧
      k ≤ r.rest.length ∧ Took k r r' := by
  rw [doReadFile, if_neg (by omega), if_neg (by omega)]
  exact readLoop_spec hworld le_rfl hmax hrest

theorem doReadFile_eof (hworld : world.Reads) {needed max : Nat} (hneeded : 0 < needed)
    (hmax : needed ≤ max) (hroom : r.buf.mem.length + max ≤ rbufsz) (hrest : r.rest = []) :
    doReadFile world needed max r = .ok (.eof, { r with calls := r.calls + 1 }) := by
  rw [doReadFile, if_neg (by omega), if_neg (by omega)]
  obtain ⟨needed, rfl⟩ := Nat.exists_eq_succ_of_ne_zero (Nat.ne_of_gt hneeded)
  cases hlimit : world.limit r.calls with
  | none => exact absurd hlimit (hworld _)
  | some limit => simp [readLoop, hlimit, hrest]

theorem avail_eq (h : r.buf.pos ≤ r.buf.mem.length) :
    r.buf.avail = .ok (r.buf.mem.length - r.buf.pos) := by
  rw [NmsgBuf.avail, if_neg (by omega)]

theorem ahead_take (h : r.buf.pos + size ≤ r.buf.mem.length) :
    r.buf.ahead.take size = r.stream.take size := by
  rw [FileReader.stream, List.take_append_of_le_length]
  rw [NmsgBuf.ahead, List.length_drop]
  omega

theorem stream_advance (h : r.buf.pos + size ≤ r.buf.mem.length) :
    FileReader.stream { r with buf := r.buf.advance size } = r.stream.drop size := by
  simp only [FileReader.stream, NmsgBuf.ahead, NmsgBuf.advance]
  rw [List.drop_append_of_le_length (by rw [List.length_drop]; omega), List.drop_drop]

theorem stream_reset (h : r.buf.pos = r.buf.mem.length) :
    FileReader.stream { r with buf := r.buf.reset } = r.stream := by
  simp [FileReader.stream, NmsgBuf.ahead, NmsgBuf.reset, h]

/-- A header field that is still in the stream is made available, and passing over it leaves the
buffer at most half full. -/
theorem fillField_spec (hworld : world.Reads) (hr : AtRest r) (hpos : 0 < size)
    (hsize : size ≤ rbufsz / 2) (hstream : size ≤ r.stream.length) :
    ∃ resetBuf r', fillField world size r = .ok (.success, resetBuf, r') ∧
      r'.buf.pos + size ≤ r'.buf.mem.length ∧ r'.stream = r.stream ∧
      Settled (r.stream.drop size) r.flags
        (resetIf resetBuf { r' with buf := r'.buf.advance size }) := by
  have hfile := hr.pos_le
  have hlength : r.stream.length = r.buf.mem.length - r.buf.pos + r.rest.length := by
    simp [FileReader.stream, NmsgBuf.ahead]
  have hbuf : rbufsz / 2 + rbufsz / 2 = rbufsz := rfl
  rw [fillField, avail_eq hfile]
  by_cases havail : size ≤ r.buf.mem.length - r.buf.pos
  · -- the field is there
    have hhalf : r.buf.mem.length ≤ rbufsz / 2 := hr.half.resolve_right (by omega)
    refine ⟨false, r, by simp only [if_pos havail], by omega, rfl, hr.bufsz, ?_, hhalf,
      stream_advance (by omega), rfl⟩
    simp only [resetIf, NmsgBuf.advance, Bool.false_eq_true, if_false]
    omega
  by_cases hnone : r.buf.mem.length - r.buf.pos = 0
  · -- nothing is there, and the buffer is filled from its start
    have hend : r.buf.pos = r.buf.mem.length := by omega
    have hroom : ({ r with buf := r.buf.reset } : FileReader).buf.mem.length + r.buf.bufsz ≤
        rbufsz := by
      rw [hr.bufsz]
      exact Nat.le_trans (Nat.zero_add _).le (by omega)
    obtain ⟨k, r', hread, hneed, hmax, hk, htook⟩ :=
      doReadFile_spec (r := { r with buf := r.buf.reset }) hworld
        (hsize.trans hr.bufsz.ge) hroom (by simp only; omega)
    have hmem : r'.buf.mem.length = k := by simpa [NmsgBuf.reset] using htook.length hk
    have hzero : r'.buf.pos = 0 := htook.pos
    have hsame : r'.stream = r.stream := (htook.stream (Nat.zero_le _)).trans (stream_reset hend)
    have hsz := htook.bufsz.trans hr.bufsz
    rw [hr.bufsz] at hmax
    refine ⟨false, r', ?_, by omega, hsame, hsz, ?_, ?_, ?_, htook.flags⟩
    · simp only [if_neg havail, if_pos hnone, hread]
      rfl
    · simp only [resetIf, NmsgBuf.advance, Bool.false_eq_true, if_false]
      omega
    · simp only [resetIf, NmsgBuf.advance, Bool.false_eq_true, if_false]
      omega
    · rw [← hsame]
      exact stream_advance (by omega)
  · -- the field is split, and just its missing octets are read
    have hhalf : r.buf.mem.length ≤ rbufsz / 2 := hr.half.resolve_right (by omega)
    obtain ⟨k, r', hread, hneed, hmax, hk, htook⟩ :=
      doReadFile_spec (r := r) hworld
        (le_refl (size - (r.buf.mem.length - r.buf.pos))) (by omega) (by omega)
    have hmem := htook.length hk
    have hpos' := htook.pos
    have hsame := htook.stream hfile
    have hend : ({ r' with buf := r'.buf.advance size } : FileReader).buf.pos =
        ({ r' with buf := r'.buf.advance size } : FileReader).buf.mem.length := by
      simp only [NmsgBuf.advance]
      omega
    refine ⟨true, r', ?_, by omega, hsame, htook.bufsz.trans hr.bufsz, le_rfl, Nat.zero_le _, ?_,
      htook.flags⟩
    · simp only [if_neg havail, if_neg hnone, hread]
      rfl
    · rw [← hsame, ← stream_advance (by omega), ← stream_reset hend]
      rfl

/-! ### A container -/

/-- The length field. -/
theorem readLength_spec (hworld : world.Reads) {stream : Bytes} {flags : UInt8} {len : Nat}
    (hr : Settled (beBytes size len ++ stream) flags r) (hpos : 0 < size)
    (hsize : size ≤ rbufsz / 2) (hlen : len < 256 ^ size) :
    ∃ r', readLength world size r = .ok (len, r') ∧ Settled stream flags r' := by
  obtain ⟨resetBuf, r', hfill, havail, hsame, hsettled⟩ :=
    fillField_spec hworld hr.atRest hpos hsize (by rw [hr.stream]; simp)
  rw [hr.stream, hr.flags, drop_append_of_length (length_beBytes _ _)] at hsettled
  refine ⟨_, ?_, hsettled⟩
  rw [readLength, hfill]
  simp only [avail_eq (show r'.buf.pos ≤ r'.buf.mem.length by omega)]
  rw [if_neg (by omega), ahead_take havail, hsame, hr.stream,
    take_append_of_length (length_beBytes _ _), beNat_beBytes_of_lt hlen]

/-- Octets of the length field. -/
def FileContainer.lenhdrsz : FileContainer → Nat
  | v1 _ => lenhdrszV1
  | v2 _ _ => lenhdrszV2

theorem FileContainer.Fits.length_le {c : FileContainer} (h : c.Fits) :
    c.body.length ≤ rbufsz / 2 := by
  have hhalf : rbufsz / 2 = wbufszMax := rfl
  have hmax : wbufszMax = 1048576 := rfl
  cases c with
  | v1 body =>
      simp only [FileContainer.Fits, FileContainer.body] at h ⊢
      omega
  | v2 flags body => exact h

/-- Version and flags. -/
def FileContainer.versionWord : FileContainer → Nat
  | v1 _ => 1
  | v2 flags _ => version + flags.toNat * 256

theorem FileContainer.encode_eq (c : FileContainer) :
    c.encode = (magic ++ beBytes 2 c.versionWord) ++
      (beBytes c.lenhdrsz c.body.length ++ c.body) := by
  cases c with
  | v1 body =>
      simp only [FileContainer.encode, FileContainer.header, List.append_assoc]
      rfl
  | v2 flags body =>
      simp only [FileContainer.encode, FileContainer.header, headerSerialize, List.append_assoc]
      rfl

theorem FileContainer.versionWord_lt (c : FileContainer) : c.versionWord < 256 ^ 2 := by
  cases c with
  | v1 body => exact (by decide : 1 < 256 ^ 2)
  | v2 flags body =>
      have := flags.toNat_lt
      simp only [FileContainer.versionWord, version]
      omega

theorem readFile_spec (hworld : world.Reads) {c : FileContainer} {tail : Bytes} (hfits : c.Fits)
    (hr : AtRest r) (hstream : r.stream = c.encode ++ tail) :
    ∃ r', readFile world r = .ok (.ok c.body.length, r') ∧
      Settled (c.body ++ tail) (c.streamFlags r.flags) r' := by
  have hsix : hdrsz = 6 := rfl
  have hpos : 0 < hdrsz := by decide
  have hsize : hdrsz ≤ rbufsz / 2 := by decide
  have hfirst : (magic ++ beBytes 2 c.versionWord).length = hdrsz := by
    rw [List.length_append, length_beBytes]
    rfl
  have hlen : hdrsz ≤ r.stream.length := by
    rw [hstream, c.encode_eq, List.length_append, List.length_append, hfirst]
    omega
  obtain ⟨resetBuf, r', hfill, havail, hsame, hsettled⟩ :=
    fillField_spec hworld hr hpos hsize hlen
  have hfield : r'.buf.ahead.take hdrsz = magic ++ beBytes 2 c.versionWord := by
    rw [ahead_take havail, hsame, hstream, c.encode_eq, List.append_assoc,
      take_append_of_length hfirst]
  have hmagic : r'.buf.ahead.take 4 = magic := by
    have htake := congrArg (List.take 4) hfield
    rwa [List.take_take, take_append_of_length (by rfl)] at htake
  have hversion : (r'.buf.ahead.drop 4).take 2 = beBytes 2 c.versionWord := by
    have hdrop := congrArg (List.drop 4) hfield
    rwa [List.drop_take, drop_append_of_length (by rfl)] at hdrop
  rw [hstream, c.encode_eq, List.append_assoc, drop_append_of_length hfirst,
    List.append_assoc] at hsettled
  rw [readFile, hfill]
  simp only [avail_eq (show r'.buf.pos ≤ r'.buf.mem.length by omega)]
  rw [if_neg (by simp), if_neg (by omega), if_neg (by rw [hmagic]; simp), hversion,
    beNat_beBytes_of_lt c.versionWord_lt]
  have hbound := hfits.length_le
  cases c with
  | v1 body =>
      have hsettled' : Settled (beBytes lenhdrszV1 body.length ++ (body ++ tail)) r.flags
          (resetIf resetBuf { r' with buf := r'.buf.advance hdrsz }) := hsettled
      obtain ⟨r'', hread, hsettled''⟩ :=
        readLength_spec hworld hsettled' (by decide) (by decide) hfits
      refine ⟨r'', ?_, hsettled''⟩
      simp only [FileContainer.versionWord, if_true, hread]
      rfl
  | v2 flags body =>
      have hflags := flags.toNat_lt
      have hword : (version + flags.toNat * 256) / 256 = flags.toNat := by
        simp only [version]
        omega
      have hsettled' : Settled (beBytes lenhdrszV2 body.length ++ (body ++ tail)) flags
          { resetIf resetBuf { r' with buf := r'.buf.advance hdrsz } with flags := flags } :=
        ⟨hsettled.bufsz, hsettled.pos_le, hsettled.mem_le, hsettled.stream, rfl⟩
      have hlt : body.length < 256 ^ lenhdrszV2 := by
        have hpow : 256 ^ lenhdrszV2 = 4294967296 := rfl
        have hhalf : rbufsz / 2 = 1048576 := rfl
        have hbody : body.length ≤ rbufsz / 2 := hbound
        omega
      obtain ⟨r'', hread, hsettled''⟩ :=
        readLength_spec hworld hsettled' (by decide) (by decide) hlt
      refine ⟨r'', ?_, hsettled''⟩
      simp only [FileContainer.versionWord, hword, UInt8.ofNat_toNat]
      rw [if_neg (by simp only [version]; omega), if_pos (by simp only [version]; omega), hread]
      rfl

/-- **A container is fetched** from the stream whole, and the reader rests behind it. -/
theorem fetchContainer_spec (hworld : world.Reads) {c : FileContainer} {tail : Bytes}
    (hfits : c.Fits) (hr : AtRest r) (hstream : r.stream = c.encode ++ tail) :
    ∃ r', fetchContainer world r = .ok (.ok c.body, r') ∧ AtRest r' ∧ r'.stream = tail ∧
      r'.flags = c.streamFlags r.flags := by
  obtain ⟨r', hread, hsettled⟩ := readFile_spec hworld hfits hr hstream
  have hbound := hfits.length_le
  have hpos := hsettled.pos_le
  have hmem := hsettled.mem_le
  have hhalf : rbufsz / 2 + rbufsz / 2 = rbufsz := rfl
  have hlength : r'.buf.mem.length - r'.buf.pos + r'.rest.length =
      c.body.length + tail.length := by
    have := congrArg List.length hsettled.stream
    simpa [FileReader.stream, NmsgBuf.ahead] using this
  rw [fetchContainer, hread]
  simp only [avail_eq hpos]
  by_cases hshort : r'.buf.mem.length - r'.buf.pos < c.body.length
  · obtain ⟨k, r'', hmore, hneed, hmax, hk, htook⟩ :=
      doReadFile_spec (r := r') hworld
        (le_refl (c.body.length - (r'.buf.mem.length - r'.buf.pos))) (by omega) (by omega)
    have hmem'' := htook.length hk
    have hpos'' := htook.pos
    have hsame := (htook.stream hpos).trans hsettled.stream
    have havail : r''.buf.pos + c.body.length ≤ r''.buf.mem.length := by omega
    rw [if_pos hshort, hmore]
    simp only [ne_eq, not_true_eq_false, if_false]
    refine ⟨_, by rw [ahead_take havail, hsame, List.take_left], ⟨?_, ?_, ?_, ?_⟩, ?_, ?_⟩
    · exact htook.bufsz.trans hsettled.bufsz
    · exact havail
    · simp only [NmsgBuf.advance]
      omega
    · simp only [NmsgBuf.advance]
      omega
    · rw [stream_advance havail, hsame, List.drop_left]
    · exact htook.flags.trans hsettled.flags
  · have havail : r'.buf.pos + c.body.length ≤ r'.buf.mem.length := by omega
    rw [if_neg hshort]
    refine ⟨_, by rw [ahead_take havail, hsettled.stream, List.take_left], ⟨?_, ?_, ?_, ?_⟩, ?_,
      ?_⟩
    · exact hsettled.bufsz
    · exact havail
    · exact hsettled.atRest.mem_le
    · exact Or.inl hmem
    · rw [stream_advance havail, hsettled.stream, List.drop_left]
    · exact hsettled.flags

/-- At the end of the stream there is nothing more to fetch. -/
theorem fetchContainer_eof (hworld : world.Reads) (hr : AtRest r) (hstream : r.stream = []) :
    ∃ r', fetchContainer world r = .ok (.error .eof, r') ∧ AtRest r' ∧ r'.stream = [] ∧
      r'.flags = r.flags := by
  obtain ⟨hahead, hrest⟩ := List.append_eq_nil_iff.mp hstream
  have hpos := hr.pos_le
  have hnone : r.buf.mem.length - r.buf.pos = 0 := by
    rw [← List.length_drop]
    exact List.length_eq_zero_iff.mpr hahead
  have hfits : (r.buf.reset).mem.length + r.buf.bufsz ≤ rbufsz := by
    simp only [NmsgBuf.reset, List.length_nil, hr.bufsz]
    decide
  have hfull : hdrsz ≤ r.buf.bufsz := by
    rw [hr.bufsz]
    decide
  have hread := doReadFile_eof (r := { r with buf := r.buf.reset }) hworld
    (show 0 < hdrsz by decide) hfull hfits hrest
  refine ⟨{ r with buf := r.buf.reset, calls := r.calls + 1 }, ?_, ?_, ?_, rfl⟩
  · rw [fetchContainer, readFile, fillField, avail_eq hpos]
    simp only [hnone, hread]
    rfl
  · exact ⟨hr.bufsz, le_rfl, Nat.zero_le _, Or.inr rfl⟩
  · simpa [FileReader.stream, NmsgBuf.ahead, NmsgBuf.reset] using hrest

end Read

/-! ### Runs -/

section Runs

variable {D : Type*} (unpack : Unpacker D) {world : ReadWorld}

/-- The reader rests in front of the containers that are left. -/
structure InFront (s : FileReader × D) (q : ParsedStream D) : Prop where
  fits : ∀ c ∈ q.containers, c.Fits
  atRest : AtRest s.1
  stream : s.1.stream = q.containers.flatMap FileContainer.encode
  flags : s.1.flags = q.flags
  unpacker : s.2 = q.unpacker

/-- One call hands the next container over, as the stream in memory does, and stops short of it
only if the unpacker does. -/
theorem readContainerFile_spec (hworld : world.Reads) {s : FileReader × D} {q : ParsedStream D}
    (h : InFront s q) (env : CallEnv) :
    ∃ now,
      (∃ e, readContainerFile unpack world s env = .error e ∧
        handContainer unpack q (env, now) = .error e) ∨
      ∃ r s' q', readContainerFile unpack world s env = .ok (r, s') ∧
        handContainer unpack q (env, now) = .ok (r, q') ∧ InFront s' q' := by
  obtain ⟨r, d⟩ := s
  obtain ⟨containers, flags, d'⟩ := q
  obtain ⟨hfits, hrest, hstream, hflags, hd⟩ := h
  simp only at hfits hrest hstream hflags hd
  cases containers with
  | nil =>
      obtain ⟨r', hfetch, hrest', hstream', hflags'⟩ := fetchContainer_eof hworld hrest hstream
      refine ⟨r'.now, Or.inr ⟨(.eof, none), (r', d), ⟨[], flags, d'⟩, ?_, rfl, hfits, hrest',
        hstream', hflags'.trans hflags, hd⟩⟩
      simp only [readContainerFile, hfetch]
  | cons c rest =>
      rw [List.flatMap_cons] at hstream
      obtain ⟨r', hfetch, hrest', hstream', hflags'⟩ :=
        fetchContainer_spec hworld (hfits c (by simp)) hrest hstream
      rw [hflags] at hflags'
      refine ⟨r'.now, ?_⟩
      simp only [readContainerFile, handContainer, hfetch, hflags', hd]
      cases hunpack : unpack env ⟨c.streamFlags flags, r'.now, .other 0 []⟩ d' c.body with
      | error e => exact Or.inl ⟨e, rfl, rfl⟩
      | ok out =>
          obtain ⟨res, nmsg, d''⟩ := out
          exact Or.inr ⟨(res, nmsg), (r', d''), ⟨rest, c.streamFlags flags, d''⟩, rfl, rfl,
            fun c hc => hfits c (by simp [hc]), hrest', hstream', hflags', rfl⟩

theorem run_inFront (hworld : world.Reads) {s : FileReader × D} {q : ParsedStream D}
    (h : InFront s q) (envs : List CallEnv) :
    (∃ nows : List Timespec, nows.length = envs.length ∧
      (StepRun.run (readContainerFile unpack world) s envs).map Prod.fst =
        (StepRun.run (handContainer unpack) q (envs.zip nows)).map Prod.fst) ∧
      ∀ results s', StepRun.run (readContainerFile unpack world) s envs = .ok (results, s') →
        AtRest s'.1 := by
  induction envs generalizing s q with
  | nil =>
      refine ⟨⟨[], rfl, rfl⟩, ?_⟩
      intro results s' hrun
      simp only [StepRun.run_nil, Except.ok.injEq, Prod.mk.injEq] at hrun
      exact hrun.2 ▸ h.atRest
  | cons env envs ih =>
      obtain ⟨now, ⟨e, hread, hhand⟩ | ⟨r, s', q', hread, hhand, hfront⟩⟩ :=
        readContainerFile_spec unpack hworld h env
      · refine ⟨⟨now :: List.replicate envs.length ⟨0, 0⟩, by simp, ?_⟩, ?_⟩
        · simp only [StepRun.run, hread, List.zip_cons_cons, hhand, Except.map]
        · intro results s' hrun
          simp [StepRun.run, hread] at hrun
      · obtain ⟨⟨nows, hlen, hrun⟩, hlast⟩ := ih hfront
        refine ⟨⟨now :: nows, by simp [hlen], ?_⟩, ?_⟩
        · rw [List.zip_cons_cons, StepRun.run_cons_of_ok hread, StepRun.run_cons_of_ok hhand]
          have hmap : ∀ {σ : Type _} (out : Except Abort (List (Res × Option ProtoNmsg) × σ)),
              (out.map fun out => (r :: out.1, out.2)).map Prod.fst =
                (out.map Prod.fst).map (r :: ·) := by
            intro σ out
            cases out <;> rfl
          rw [hmap, hmap, hrun]
        · intro results s'' hall
          obtain ⟨r', t, rs, hfirst, htail, -⟩ := StepRun.run_cons_eq_ok.mp hall
          rw [hread, Except.ok.injEq, Prod.mk.injEq] at hfirst
          exact hlast rs s'' (hfirst.2 ▸ htail)

end Runs

/-- `read` returns one octet at a time. -/
def octetWorld : ReadWorld := ⟨fun _ => some 0, fun _ => ⟨0, 0⟩⟩

theorem octetWorld_reads : octetWorld.Reads := fun _ h => by cases h

/-- An unpacker that keeps what it is handed. -/
def loggingUnpacker : Unpacker (List (UInt8 × Bytes)) := fun _ arrival log body =>
  .ok (.success, none, log ++ [(arrival.flags, body)])

/-- Three calls that find enough memory. -/
def threeCalls : List CallEnv := List.replicate 3 ⟨[], true, true, true, true⟩

end Nmsg

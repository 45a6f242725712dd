import Nmsg.Defs
import Nmsg.Lib.Memory

/-!
# String buffers

Text is appended to a buffer that grows as it has to. Octets of the buffer count as read or written
only from the time they are first written on.
-/

namespace Nmsg

/-- `DEFAULT_STRBUF_ALLOC_SZ` -/
def defaultStrbufAllocSz : Nat := 1024

/-- `struct nmsg_strbuf`: the octets that were written so far, absent for the null pointer, the
offset of `pos` in them, and the octets allocated. -/
structure Strbuf where
  data : Option Bytes
  pos : Nat
  bufsz : Nat
deriving DecidableEq

/-- The loop that doubles `new_bufsz` until there is room for `needed` more octets. -/
def growBufsz (bufsz needed : Nat) : Nat → Nat → Except Abort Nat
  | 0, _ => .error .divergence
  | fuel + 1, newBufsz =>
      if newBufsz - bufsz < needed then growBufsz bufsz needed fuel (2 * newBufsz)
      else .ok newBufsz

namespace Strbuf

/-- `nmsg_strbuf_init`, and a buffer of zeros. -/
def init : Strbuf := ⟨none, 0, 0⟩

/-- The data buffer is allocated if necessary. -/
def allocated (sb : Strbuf) : Strbuf :=
  if sb.data = none then ⟨some [], 0, defaultStrbufAllocSz⟩ else sb

/-- The size of the buffer with room for `needed` more octets. -/
def sizeFor (sb : Strbuf) (needed : Nat) : Except Abort Nat :=
  if needed > sb.bufsz - sb.pos then growBufsz sb.bufsz needed (needed + 1) (2 * sb.bufsz)
  else .ok sb.bufsz

/-- `nmsg_strbuf_append`, of the text that is formatted. -/
def append (sb : Strbuf) (text : Bytes) : Except Abort Strbuf := do
  let sb := sb.allocated
  let data := sb.data.getD []
  let needed := text.length + 1
  if sb.bufsz < sb.pos then throw .assertion
  else
    let bufsz ← sb.sizeFor needed
    if sb.pos + needed > bufsz then throw .outOfBounds
    else
      return {
        data := some (data.take sb.pos ++ (text ++ [0]) ++ data.drop (sb.pos + needed))
        pos := sb.pos + text.length
        bufsz := bufsz }

/-- `nmsg_strbuf_len` -/
def len (sb : Strbuf) : Nat := sb.pos

/-- `nmsg_strbuf_reset`. What was written stays in the octets that are kept. -/
def reset (sb : Strbuf) : Strbuf where
  data := some ((sb.data.getD []).take defaultStrbufAllocSz)
  pos := 0
  bufsz := defaultStrbufAllocSz

/-- The position is inside the buffer, and behind octets that were written. -/
structure Valid (sb : Strbuf) : Prop where
  null : sb.data = none → sb.pos = 0
  written : ∀ data, sb.data = some data → sb.pos ≤ data.length
  room : sb.data ≠ none → sb.pos ≤ sb.bufsz ∧ 0 < sb.bufsz

/-- The text that was appended. -/
def text (sb : Strbuf) : Bytes := (sb.data.getD []).take sb.pos

/-- The text ends at a zero octet. -/
def Terminated (sb : Strbuf) : Prop :=
  ∃ data, sb.data = some data ∧ data.take (sb.pos + 1) = sb.text ++ [0]

theorem init_valid : init.Valid := ⟨fun _ => rfl, nofun, fun h => absurd rfl h⟩

theorem text_init : init.text = [] := rfl

theorem reset_valid (sb : Strbuf) : sb.reset.Valid :=
  ⟨nofun, fun _ _ => Nat.zero_le _, fun _ => ⟨Nat.zero_le _, Nat.zero_lt_succ 1023⟩⟩

theorem Valid.length_text {sb : Strbuf} (h : sb.Valid) : sb.text.length = sb.pos := by
  unfold text
  cases hdata : sb.data with
  | none => rw [h.null hdata]; rfl
  | some data =>
      rw [Option.getD_some, List.length_take]
      exact Nat.min_eq_left (h.written data hdata)

end Strbuf

/-- The loop ends with room, for a buffer that is not empty. -/
theorem growBufsz_room {bufsz needed : Nat} : ∀ {fuel newBufsz : Nat}, bufsz < newBufsz →
    needed ≤ newBufsz - bufsz + fuel →
    ∃ n, growBufsz bufsz needed (fuel + 1) newBufsz = .ok n ∧ bufsz + needed ≤ n := by
  intro fuel
  induction fuel with
  | zero =>
      intro newBufsz hlt hfuel
      rw [growBufsz, if_neg (by omega)]
      exact ⟨newBufsz, rfl, by omega⟩
  | succ fuel ih =>
      intro newBufsz hlt hfuel
      rw [growBufsz]
      by_cases hshort : newBufsz - bufsz < needed
      · rw [if_pos hshort]
        exact ih (by omega) (by omega)
      · rw [if_neg hshort]
        exact ⟨newBufsz, rfl, by omega⟩

namespace Strbuf

variable {sb : Strbuf}

theorem Valid.allocated (h : sb.Valid) : sb.allocated.Valid ∧ sb.allocated.data ≠ none ∧
    sb.allocated.pos = sb.pos ∧ sb.allocated.text = sb.text := by
  unfold Strbuf.allocated
  by_cases hnull : sb.data = none
  · rw [if_pos hnull]
    refine ⟨⟨nofun, fun _ _ => Nat.zero_le _, fun _ => ⟨Nat.zero_le _, ?_⟩⟩, nofun,
      (h.null hnull).symm, ?_⟩
    · rw [defaultStrbufAllocSz]
      decide
    · rw [text, text, hnull, h.null hnull]
      rfl
  · rw [if_neg hnull]
    exact ⟨h, hnull, rfl, rfl⟩

theorem Valid.sizeFor (h : sb.Valid) (hsome : sb.data ≠ none) (needed : Nat) :
    ∃ bufsz, sb.sizeFor needed = .ok bufsz ∧ sb.pos + needed ≤ bufsz := by
  obtain ⟨hroom, hpositive⟩ := h.room hsome
  unfold Strbuf.sizeFor
  by_cases hshort : needed > sb.bufsz - sb.pos
  · rw [if_pos hshort]
    obtain ⟨n, hn, hle⟩ := @growBufsz_room sb.bufsz needed needed (2 * sb.bufsz) (by omega) (by omega)
    exact ⟨n, hn, by omega⟩
  · rw [if_neg hshort]
    exact ⟨_, rfl, by omega⟩

/-- **Appending.** There is always room, and the text ends at a zero octet. -/
theorem Valid.append (h : sb.Valid) (text : Bytes) :
    ∃ sb' data, sb.append text = .ok sb' ∧ sb'.Valid ∧ sb'.pos = sb.pos + text.length ∧
      sb'.text = sb.text ++ text ∧ sb'.data = some data ∧
      data.take (sb'.pos + 1) = sb'.text ++ [0] := by
  obtain ⟨hvalid, hsome, hpos, htext⟩ := h.allocated
  obtain ⟨hroom, -⟩ := hvalid.room hsome
  obtain ⟨bufsz, hsize, hbufsz⟩ := hvalid.sizeFor hsome (text.length + 1)
  have htake : (sb.allocated.data.getD []).take sb.allocated.pos = sb.text := htext
  have hlength : sb.text.length = sb.pos := h.length_text
  have happend : sb.append text = .ok {
      data := some (sb.text ++ (text ++ [0]) ++
        (sb.allocated.data.getD []).drop (sb.pos + (text.length + 1)))
      pos := sb.pos + text.length
      bufsz := bufsz } := by
    rw [hpos] at htake hbufsz
    rw [Strbuf.append, if_neg (by omega), hsize]
    simp only [bind, Except.bind, hpos, htake]
    rw [if_neg (by omega)]
    rfl
  have hlen : (sb.text ++ text).length = sb.pos + text.length := by
    rw [List.length_append, hlength]
  have htext' : ∀ rest : Bytes, (sb.text ++ (text ++ [0]) ++ rest).take (sb.pos + text.length) =
      sb.text ++ text := by
    intro rest
    rw [List.append_assoc, List.append_assoc, ← List.append_assoc, ← hlen, List.take_left]
  refine ⟨_, _, happend, ⟨nofun, ?_, fun _ => ⟨?_, ?_⟩⟩, rfl, htext' _, rfl, ?_⟩
  · intro _ hdata
    rw [← Option.some.inj hdata]
    simp only [List.length_append, List.length_singleton, hlength]
    omega
  · dsimp only
    omega
  · dsimp only
    omega
  · have hlen' : sb.pos + text.length + 1 = (sb.text ++ (text ++ [0])).length := by
      rw [List.length_append, List.length_append, List.length_singleton, hlength, Nat.add_assoc]
    refine Eq.trans ?_ (congrArg (· ++ [0]) (htext' _).symm)
    dsimp only
    rw [hlen', List.take_left, List.append_assoc]

end Strbuf

end Nmsg

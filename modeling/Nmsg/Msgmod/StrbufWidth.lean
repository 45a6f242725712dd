import Nmsg.Lib.StepRun
import Nmsg.Msgmod.Strbuf

/-!
# String buffers with the integers of the source

The length of a text is counted in an `int` and the size of a buffer in an `ssize_t`. As long as both
fit, a text is appended as it is to a buffer of any size.
-/

namespace Nmsg

/-- `INT_MAX` -/
def intMax : Nat := 2147483647

/-- One more than the largest `ssize_t`. -/
def ssizeEnd : Nat := 9223372036854775808

/-- `vsnprintf` counts the octets of the text in an `int`, and fails when it cannot. -/
def vsnprintfStatus (text : Bytes) : Option Nat :=
  if text.length ≤ intMax then some text.length else none

/-- `needed`, which is the status of `vsnprintf` and one: the sum is formed in an `int`, and that of
a failure is zero. -/
def neededOctets (text : Bytes) : Except Abort Nat :=
  match vsnprintfStatus text with
  | none => .ok 0
  | some status => if status = intMax then .error .signedOverflow else .ok (status + 1)

/-- The loop that doubles `new_bufsz`, an `ssize_t`. From a size of one on it can be doubled 63
times. -/
def growSsize (bufsz needed : Nat) : Nat → Nat → Except Abort Nat
  | 0, _ => .error .divergence
  | fuel + 1, newBufsz =>
      if ssizeEnd ≤ newBufsz then .error .signedOverflow
      else if newBufsz - bufsz < needed then growSsize bufsz needed fuel (2 * newBufsz)
      else .ok newBufsz

namespace Strbuf

/-- The size of the buffer with room for `needed` more octets. -/
def ssizeFor (sb : Strbuf) (needed : Nat) : Except Abort Nat :=
  if needed > sb.bufsz - sb.pos then growSsize sb.bufsz needed 64 (2 * sb.bufsz)
  else .ok sb.bufsz

/-- `nmsg_strbuf_append`, when no allocation fails. The buffer is freed when the text cannot be
formatted. -/
def nmsgStrbufAppend (sb : Strbuf) (text : Bytes) : Except Abort (Res × Strbuf) := do
  let sb := sb.allocated
  let data := sb.data.getD []
  let needed ← neededOctets text
  if sb.bufsz < sb.pos then throw .assertion
  else
    let bufsz ← sb.ssizeFor needed
    match vsnprintfStatus text with
    | none => return (.failure, init)
    | some status =>
        if sb.pos + (status + 1) > bufsz then throw .outOfBounds
        else
          return (.success, {
            data := some (data.take sb.pos ++ (text ++ [0]) ++ data.drop (sb.pos + (status + 1)))
            pos := sb.pos + status
            bufsz := bufsz })

/-- The buffer holds the text with a zero octet behind it, and nothing was written outside it. -/
def LogOf (sb : Strbuf) (text : Bytes) : Prop :=
  ∃ data, sb.data = some data ∧ data.take (sb.pos + 1) = text ++ [0] ∧ sb.len = text.length ∧
    sb.len < sb.bufsz ∧ data.length ≤ sb.bufsz

/-- After every call on a fresh buffer, the buffer holds all the texts so far. -/
def IsLog (texts : List Bytes) : Prop :=
  ∀ front, front ≠ [] → front <+: texts →
    ∃ rs sb, StepRun.run nmsgStrbufAppend init front = .ok (rs, sb) ∧
      (∀ r ∈ rs, r = .success) ∧ sb.LogOf front.flatten

end Strbuf

end Nmsg

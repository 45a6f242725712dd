import Nmsg.Defs

/-!
# Compressed buffers

A compressed buffer is the length of the uncompressed octets, four octets in network order, and a
zlib stream. Of zlib the code relies on the inverse, on the bound on the size of a stream, and on
`inflateReset` giving a fresh stream.
-/

namespace Nmsg

open Octets

/-- What one call of `inflate` with `Z_NO_FLUSH` leaves: whether it returned `Z_STREAM_END`, the
octets it put out, and the stream. -/
structure Inflated (Stream : Type) where
  ended : Bool
  out : Bytes
  stream : Stream

/-- The functions used of zlib. `inflate` gets the available input and the number of octets it may
put out; `deflate` is one call with `Z_FINISH` on a fresh stream and room for all output. -/
structure Zlib where
  Stream : Type
  inflateInit : Stream
  inflate : Stream → Bytes → Nat → Inflated Stream
  inflateReset : Stream → Stream
  deflate : Bytes → Bytes

def compressBound (len : Nat) : Nat := len + len / 4096 + len / 16384 + len / 33554432 + 13

structure Zlib.Lawful (z : Zlib) : Prop where
  /-- A fresh stream gives the deflated octets back, whatever follows them. -/
  inflate_deflate : ∀ (b rest : Bytes), b.length < 2 ^ 32 →
    (z.inflate z.inflateInit (z.deflate b ++ rest) b.length).ended = true ∧
      (z.inflate z.inflateInit (z.deflate b ++ rest) b.length).out = b
  inflateReset : ∀ s, z.inflateReset s = z.inflateInit
  length_deflate_le : ∀ b : Bytes, b.length < 2 ^ 32 →
    (z.deflate b).length ≤ compressBound b.length
  /-- Header and checksum of a stream take six octets. -/
  lt_length_deflate : ∀ b : Bytes, 6 < (z.deflate b).length

variable (z : Zlib)

/-- `nmsg_zbuf_deflate`: the octets written and the new `*z_len`. The stream counts both sides in
32 bits. -/
def nmsgZbufDeflate (buf : Bytes) (zLen : Nat) : Except Abort (Bytes × Nat) :=
  let availIn := buf.length % 2 ^ 32
  let availOut := zLen % 2 ^ 32
  let out := z.deflate (buf.take availIn)
  if availOut < out.length then .error .assertion
  else .ok (beBytes 4 buf.length ++ out, zLen - (availOut - out.length) + 4)

/-- `nmsg_zbuf_inflate` of the octets `zBuf`, with the octets `past` behind them in memory; `mem`
tells whether the output could be allocated. The four octets of the length are skipped without
being taken off `avail_in`, so that the stream may read as many octets of `past`. -/
def nmsgZbufInflate (zb : z.Stream) (zBuf past : Bytes) (mem : Bool) :
    Res × Bytes × z.Stream :=
  let uLen := beNat ((zBuf ++ past).take 4)
  if mem = false then (.memfail, [], zb)
  else
    let r := z.inflate zb (((zBuf ++ past).drop 4).take (zBuf.length % 2 ^ 32)) uLen
    if r.ended = false ∨ r.out.length ≠ uLen then (.failure, [], r.stream)
    else (.success, r.out, z.inflateReset r.stream)

/-- The octets `nmsg_zbuf_deflate` makes of a buffer. -/
def deflated (buf : Bytes) : Bytes := beBytes 4 buf.length ++ z.deflate buf

variable {z}

theorem nmsgZbufDeflate_eq (hz : z.Lawful) {buf : Bytes} {zLen : Nat}
    (hbuf : buf.length < 2 ^ 32) (hlen : zLen < 2 ^ 32)
    (hroom : compressBound buf.length ≤ zLen) :
    nmsgZbufDeflate z buf zLen = .ok (deflated z buf, (deflated z buf).length) := by
  have hfits := hz.length_deflate_le buf hbuf
  have htake : buf.take (buf.length % 2 ^ 32) = buf := by
    rw [Nat.mod_eq_of_lt hbuf, List.take_length]
  simp only [nmsgZbufDeflate, htake, Nat.mod_eq_of_lt hlen]
  rw [if_neg (by omega), deflated, List.length_append, length_beBytes]
  congr 2
  omega

/-- **Inflating what was deflated.** A fresh stream gives the buffer back and is fresh again,
whatever lies behind the octets in memory. -/
theorem nmsgZbufInflate_deflated (hz : z.Lawful) {buf : Bytes} (past : Bytes)
    (hbuf : buf.length < 2 ^ 32) (hdeflated : (deflated z buf).length < 2 ^ 32) :
    nmsgZbufInflate z z.inflateInit (deflated z buf) past true =
      (.success, buf, z.inflateInit) := by
  have hpow : (256 : Nat) ^ 4 = 2 ^ 32 := by decide
  have hmem : deflated z buf ++ past = beBytes 4 buf.length ++ (z.deflate buf ++ past) := by
    rw [deflated, List.append_assoc]
  have hulen : beNat ((deflated z buf ++ past).take 4) = buf.length := by
    rw [hmem, take_append_of_length (length_beBytes _ _), beNat_beBytes_of_lt (by omega)]
  have hinput : ((deflated z buf ++ past).drop 4).take ((deflated z buf).length % 2 ^ 32) =
      z.deflate buf ++ past.take 4 := by
    rw [Nat.mod_eq_of_lt hdeflated, hmem, drop_append_of_length (length_beBytes _ _),
      deflated, List.length_append, length_beBytes, Nat.add_comm 4,
      List.take_length_add_append]
  obtain ⟨hended, hout⟩ := hz.inflate_deflate buf (past.take 4) hbuf
  simp only [nmsgZbufInflate, hulen, hinput, hended, hout]
  simp [hz.inflateReset]

theorem nmsgZbufInflate_res (z : Zlib) (zb : z.Stream) (zBuf past : Bytes) (mem : Bool) :
    (nmsgZbufInflate z zb zBuf past mem).1 = .success ∨
      (nmsgZbufInflate z zb zBuf past mem).1 = .failure ∨
      (nmsgZbufInflate z zb zBuf past mem).1 = .memfail := by
  simp only [nmsgZbufInflate]
  split
  · exact Or.inr (Or.inr rfl)
  · split
    · exact Or.inr (Or.inl rfl)
    · exact Or.inl rfl

/-! ### A compression that stores -/

/-- Stores the length and the octets. The stream is fresh or it is not. -/
def storedZlib : Zlib where
  Stream := Bool
  inflateInit := true
  inflate fresh input availOut :=
    let len := beNat (input.take 8)
    if fresh = true ∧ 8 + len ≤ input.length ∧ len ≤ availOut then
      ⟨true, (input.drop 8).take len, false⟩
    else ⟨false, [], false⟩
  inflateReset _ := true
  deflate b := beBytes 8 b.length ++ b

theorem storedZlib_lawful : storedZlib.Lawful where
  inflate_deflate := by
    intro b rest hb
    have hlen : beNat ((beBytes 8 b.length ++ b ++ rest).take 8) = b.length := by
      rw [List.append_assoc, take_append_of_length (length_beBytes _ _),
        beNat_beBytes_of_lt (by omega)]
    have hout : ((beBytes 8 b.length ++ b ++ rest).drop 8).take b.length = b := by
      rw [List.append_assoc, drop_append_of_length (length_beBytes _ _), List.take_left]
    have hroom : 8 + b.length ≤ (beBytes 8 b.length ++ b ++ rest).length := by
      simp only [List.length_append, length_beBytes]
      omega
    simp only [storedZlib, hlen, hout]
    rw [if_pos ⟨trivial, hroom, le_rfl⟩]
    exact ⟨rfl, rfl⟩
  inflateReset := fun _ => rfl
  length_deflate_le := by
    intro b _
    simp only [storedZlib, List.length_append, length_beBytes, compressBound]
    omega
  lt_length_deflate := by
    intro b
    simp only [storedZlib, List.length_append, length_beBytes]
    omega

end Nmsg

import Nmsg.Crc32cTables
import Nmsg.Defs
import Nmsg.Lib.Crc
import Nmsg.Lib.StepRun

/-!
# CRC-32C

The checksum of payloads and of fragmented messages comes from tables, eight octets at a time, or
from an instruction of the processor. Which of the two it is shows when `my_crc32c` is called first.
-/

namespace Nmsg

open Polynomial

/-! ### What it is -/

/-- The generator `11EDC6F41H`. -/
noncomputable def castagnoli : (ZMod 2)[X] :=
  X ^ 32 + X ^ 28 + X ^ 27 + X ^ 26 + X ^ 25 + X ^ 23 + X ^ 22 + X ^ 20 + X ^ 19 + X ^ 18 + X ^ 14 +
    X ^ 13 + X ^ 11 + X ^ 10 + X ^ 9 + X ^ 8 + X ^ 6 + 1

/-- The generator in the order of the register, without its highest term. -/
def castagnoliReflected : BitVec 32 := 0x82F63B78#32

/-- The complement of the remainder of the message behind a register of ones. -/
def crc32c (buf : Bytes) : UInt32 :=
  .ofBitVec (~~~Crc.update castagnoliReflected (BitVec.allOnes 32) buf)

/-! ### Slicing -/

/-- `g_crc_slicing[k][i]` -/
def gCrcSlicingAt (order : ByteOrder) (k : Nat) (i : UInt32) : Except Abort UInt32 :=
  match (gCrcSlicing order)[k]? with
  | none => .error .outOfBounds
  | some table =>
      match table[i.toNat]? with
      | none => .error .outOfBounds
      | some entry => .ok entry

/-- `*(uint32_t *) p` -/
def loadUint32 (order : ByteOrder) (p : Bytes) : Except Abort UInt32 :=
  if p.length < 4 then .error .outOfBounds
  else
    match order with
    | .little => .ok (.ofBitVec (Crc.word 32 (p.take 4)))
    | .big => .ok (.ofBitVec (Crc.word 32 (p.take 4).reverse))

/-- One octet. -/
def slicingOctet (order : ByteOrder) (crc : UInt32) (b : UInt8) : Except Abort UInt32 :=
  match order with
  | .big => do
      let entry ← gCrcSlicingAt .big 0 (((crc >>> 24) ^^^ b.toUInt32) &&& 0xFF)
      return entry ^^^ (crc <<< 8)
  | .little => do
      let entry ← gCrcSlicingAt .little 0 ((crc ^^^ b.toUInt32) &&& 0xFF)
      return entry ^^^ (crc >>> 8)

/-- The octets up to the first that lies on a boundary of four, and what is left. -/
def slicingAlign (order : ByteOrder) : Nat → UInt32 → Bytes → Except Abort (UInt32 × Bytes)
  | _, crc, [] => .ok (crc, [])
  | address, crc, b :: p =>
      if address &&& 3 = 0 then .ok (crc, b :: p)
      else do slicingAlign order (address + 1) (← slicingOctet order crc b) p

/-- Eight octets. -/
def slicingQword (order : ByteOrder) (crc : UInt32) (p : Bytes) : Except Abort UInt32 := do
  let crc := crc ^^^ (← loadUint32 order p)
  let next ← loadUint32 order (p.drop 4)
  match order with
  | .big =>
      return (← gCrcSlicingAt .big 4 (crc &&& 0xFF)) ^^^
        (← gCrcSlicingAt .big 5 ((crc >>> 8) &&& 0xFF)) ^^^
        (← gCrcSlicingAt .big 6 ((crc >>> 16) &&& 0xFF)) ^^^
        (← gCrcSlicingAt .big 7 (crc >>> 24)) ^^^
        (← gCrcSlicingAt .big 0 (next &&& 0xFF)) ^^^
        (← gCrcSlicingAt .big 1 ((next >>> 8) &&& 0xFF)) ^^^
        (← gCrcSlicingAt .big 2 ((next >>> 16) &&& 0xFF)) ^^^
        (← gCrcSlicingAt .big 3 (next >>> 24))
  | .little =>
      return (← gCrcSlicingAt .little 7 (crc &&& 0xFF)) ^^^
        (← gCrcSlicingAt .little 6 ((crc >>> 8) &&& 0xFF)) ^^^
        (← gCrcSlicingAt .little 5 ((crc >>> 16) &&& 0xFF)) ^^^
        (← gCrcSlicingAt .little 4 (crc >>> 24)) ^^^
        (← gCrcSlicingAt .little 3 (next &&& 0xFF)) ^^^
        (← gCrcSlicingAt .little 2 ((next >>> 8) &&& 0xFF)) ^^^
        (← gCrcSlicingAt .little 1 ((next >>> 16) &&& 0xFF)) ^^^
        (← gCrcSlicingAt .little 0 (next >>> 24))

/-- `nqwords` times eight octets, and what is left. -/
def slicingQwords (order : ByteOrder) : Nat → UInt32 → Bytes → Except Abort (UInt32 × Bytes)
  | 0, crc, p => .ok (crc, p)
  | nqwords + 1, crc, p => do
      slicingQwords order nqwords (← slicingQword order crc p) (p.drop 8)

/-- The last `len` octets. -/
def slicingTail (order : ByteOrder) : Nat → UInt32 → Bytes → Except Abort UInt32
  | 0, crc, _ => .ok crc
  | _ + 1, _, [] => .error .outOfBounds
  | len + 1, crc, b :: p => do slicingTail order len (← slicingOctet order crc b) p

/-- The octets of a word in the other order. -/
def byteSwap (crc : UInt32) : UInt32 :=
  ((crc <<< (24 : UInt32)) &&& 0xFF000000) ||| ((crc <<< (8 : UInt32)) &&& 0x00FF0000) |||
    ((crc >>> (8 : UInt32)) &&& 0x0000FF00) ||| ((crc >>> (24 : UInt32)) &&& 0x000000FF)

/-- `my_crc32c_slicing` of a chunk that lies at `address`. -/
def myCrc32cSlicing (order : ByteOrder) (address : Nat) (chunk : Bytes) : Except Abort UInt32 := do
  let (crc, p) ← slicingAlign order address 0xFFFFFFFF chunk
  let len := p.length
  let (crc, p) ← slicingQwords order (len / 8) crc p
  let crc ← slicingTail order (len &&& 7) crc p
  match order with
  | .big => return ~~~byteSwap crc
  | .little => return ~~~crc

/-! ### The instruction -/

/-- The `crc32` instruction for operands of eight, four and two octets and of one. -/
structure Crc32Instruction where
  u64 : UInt64 → UInt64 → UInt64
  u32 : UInt32 → UInt32 → UInt32
  u16 : UInt32 → UInt16 → UInt32
  u8 : UInt32 → UInt8 → UInt32

/-- What the processor's manual says of an operand of `8 * n` bits: the result is the remainder of
the operand, moved up by 32, and the old value, moved up by `8 * n`. -/
structure Crc32Instruction.Documented (asm : Crc32Instruction) : Prop where
  u64 : ∀ crc value, Crc.reflected (asm.u64 crc value).toUInt32.toBitVec =
    (Crc.reflected value.toBitVec * X ^ 32 + Crc.reflected crc.toUInt32.toBitVec * X ^ 64) %ₘ
      castagnoli
  u32 : ∀ crc value, Crc.reflected (asm.u32 crc value).toBitVec =
    (Crc.reflected value.toBitVec * X ^ 32 + Crc.reflected crc.toBitVec * X ^ 32) %ₘ castagnoli
  u16 : ∀ crc value, Crc.reflected (asm.u16 crc value).toBitVec =
    (Crc.reflected value.toBitVec * X ^ 32 + Crc.reflected crc.toBitVec * X ^ 16) %ₘ castagnoli
  u8 : ∀ crc value, Crc.reflected (asm.u8 crc value).toBitVec =
    (Crc.reflected value.toBitVec * X ^ 32 + Crc.reflected crc.toBitVec * X ^ 8) %ₘ castagnoli

section Sse42

variable (asm : Crc32Instruction)

/-- `my_asm_crc32_u64` with the octets at `p`. -/
def myAsmCrc32U64 (crc : UInt64) (p : Bytes) : Except Abort UInt64 :=
  if p.length < 8 then .error .outOfBounds
  else .ok (asm.u64 crc (.ofBitVec (Crc.word 64 (p.take 8))))

/-- `my_asm_crc32_u32` -/
def myAsmCrc32U32 (crc : UInt32) (p : Bytes) : Except Abort UInt32 :=
  if p.length < 4 then .error .outOfBounds
  else .ok (asm.u32 crc (.ofBitVec (Crc.word 32 (p.take 4))))

/-- `my_asm_crc32_u16` -/
def myAsmCrc32U16 (crc : UInt32) (p : Bytes) : Except Abort UInt32 :=
  if p.length < 2 then .error .outOfBounds
  else .ok (asm.u16 crc (.ofBitVec (Crc.word 16 (p.take 2))))

/-- `my_asm_crc32_u8` -/
def myAsmCrc32U8 (crc : UInt32) (p : Bytes) : Except Abort UInt32 :=
  match p with
  | [] => .error .outOfBounds
  | b :: _ => .ok (asm.u8 crc b)

def sse42Qwords : Nat → UInt64 → Bytes → Except Abort (UInt64 × Bytes)
  | 0, crc64bit, p => .ok (crc64bit, p)
  | n + 1, crc64bit, p => do sse42Qwords n (← myAsmCrc32U64 asm crc64bit p) (p.drop 8)

/-- The `switch` on the octets that are left. A case without a `break` goes on with the next one. -/
def sse42Tail (len : Nat) (crc32bit : UInt32) (p : Bytes) : Except Abort UInt32 :=
  let case4 := fun crc32bit p => myAsmCrc32U32 asm crc32bit p
  let case6 := fun crc32bit p => do case4 (← myAsmCrc32U16 asm crc32bit p) (p.drop 2)
  let case7 := fun crc32bit p => do case6 (← myAsmCrc32U8 asm crc32bit p) (p.drop 1)
  let case2 := fun crc32bit p => myAsmCrc32U16 asm crc32bit p
  let case3 := fun crc32bit p => do case2 (← myAsmCrc32U8 asm crc32bit p) (p.drop 1)
  let case1 := fun crc32bit p => myAsmCrc32U8 asm crc32bit p
  let case5 := fun crc32bit p => do case1 (← myAsmCrc32U32 asm crc32bit p) (p.drop 4)
  match len with
  | 7 => case7 crc32bit p
  | 6 => case6 crc32bit p
  | 4 => case4 crc32bit p
  | 3 => case3 crc32bit p
  | 2 => case2 crc32bit p
  | 5 => case5 crc32bit p
  | 1 => case1 crc32bit p
  | _ => .ok crc32bit

/-- `my_crc32c_sse42` -/
def myCrc32cSse42 (buf : Bytes) : Except Abort UInt32 := do
  let (crc64bit, p) ← sse42Qwords asm (buf.length / 8) 0xFFFFFFFF buf
  let crc32bit ← sse42Tail asm (buf.length &&& 7) crc64bit.toUInt32 p
  return ~~~crc32bit

end Sse42

/-! ### `my_crc32c` -/

/-- The processor and how the library is compiled for it. -/
structure Crc32cMachine where
  order : ByteOrder
  /-- `__GNUC__ >= 3 && defined(__x86_64__)` -/
  x86 : Bool
  /-- `my_crc32c_sse42_supported` -/
  sse42Supported : Bool
  asm : Crc32Instruction

/-- The functions that `my_crc32c` points to. -/
inductive Crc32cFp where
  | first
  | slicing
  | sse42
deriving DecidableEq

/-- `my_crc32c_runtime_detection` -/
def myCrc32cRuntimeDetection (m : Crc32cMachine) : Crc32cFp :=
  if m.x86 then if m.sse42Supported then .sse42 else .slicing else .slicing

/-- What the pointer is called with. -/
structure Crc32cCall where
  address : Nat
  buf : Bytes

/-- Where the pointer points when the checksum is computed: `my_crc32c_first` calls through it again. -/
def Crc32cFp.detected (m : Crc32cMachine) : Crc32cFp → Crc32cFp
  | .first => myCrc32cRuntimeDetection m
  | fp => fp

/-- A call through `my_crc32c`: the checksum, and where the pointer points afterwards. -/
def myCrc32c (m : Crc32cMachine) (fp : Crc32cFp) (call : Crc32cCall) :
    Except Abort (UInt32 × Crc32cFp) := do
  let crc ←
    match fp.detected m with
    | .sse42 => myCrc32cSse42 m.asm call.buf
    | _ => myCrc32cSlicing m.order call.address call.buf
  return (crc, fp.detected m)

end Nmsg

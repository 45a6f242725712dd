import Nmsg.Defs
import Nmsg.Lib.Memory
import Nmsg.Lib.Outcome

/-!
# Packet octets

Packets are read where the C code reads them. A read past the end of the packet is an abort, so
that a function that returns has read inside it. Lengths keep the width the source gives them:
`size_t` has 64 bits and `unsigned` has 32, and a subtraction below zero wraps.
-/

namespace Nmsg

inductive ByteOrder where
  | little
  | big
deriving DecidableEq, Repr

/-- `ntohs` on a host, of a number below 2^16. -/
def ntohs (host : ByteOrder) (n : Nat) : Nat :=
  match host with
  | .little => n % 256 * 256 + n / 256 % 256
  | .big => n % 65536

def toUnsigned (n : Nat) : Nat := n % 4294967296

/-- `a - b` in 32 bits. -/
def subUnsigned (a b : Nat) : Nat := (a + (4294967296 - b % 4294967296)) % 4294967296

/-- `a - b` in a `size_t`. -/
def subSize (a b : Nat) : Nat :=
  (a + (18446744073709551616 - b % 18446744073709551616)) % 18446744073709551616

theorem subUnsigned_of_le {a b : Nat} (h : b ≤ a) (ha : a < 4294967296) :
    subUnsigned a b = a - b := by
  unfold subUnsigned
  omega

theorem subSize_of_le {a b : Nat} (h : b ≤ a) (ha : a < 18446744073709551616) :
    subSize a b = a - b := by
  unfold subSize
  omega

/-! ### Reading -/

/-- `memcpy` of `n` octets from offset `i` of a packet. -/
def copyAt (pkt : Bytes) (i n : Nat) : Except Abort Bytes :=
  match Memory.read pkt i n with
  | none => .error .outOfBounds
  | some b => .ok b

def octetAt (pkt : Bytes) (i : Nat) : Except Abort UInt8 :=
  match pkt[i]? with
  | none => .error .outOfBounds
  | some b => .ok b

/-- `load_net16` -/
def loadNet16 (pkt : Bytes) (i : Nat) : Except Abort Nat :=
  match Memory.read pkt i 2 with
  | none => .error .outOfBounds
  | some b => .ok (Octets.beNat b)

/-- `load_net32` -/
def loadNet32 (pkt : Bytes) (i : Nat) : Except Abort Nat :=
  match Memory.read pkt i 4 with
  | none => .error .outOfBounds
  | some b => .ok (Octets.beNat b)

/-- `memcpy` into a buffer. -/
def writeAt (buf : Bytes) (i : Nat) (src : Bytes) : Except Abort Bytes :=
  match Memory.write buf i src with
  | none => .error .outOfBounds
  | some b => .ok b

section Inversion

variable {pkt b : Bytes} {i n : Nat}

theorem octetAt_eq_ok {x : UInt8} : octetAt pkt i = .ok x ↔ pkt[i]? = some x := by
  unfold octetAt
  cases pkt[i]? with
  | none => exact ⟨by rintro ⟨⟩, by rintro ⟨⟩⟩
  | some y => rw [Except.ok.injEq, Option.some.injEq]

theorem copyAt_eq_ok : copyAt pkt i n = .ok b ↔ Memory.read pkt i n = some b := by
  unfold copyAt
  cases Memory.read pkt i n with
  | none => exact ⟨by rintro ⟨⟩, by rintro ⟨⟩⟩
  | some c => rw [Except.ok.injEq, Option.some.injEq]

theorem loadNet16_eq_ok :
    loadNet16 pkt i = .ok n ↔ ∃ b, Memory.read pkt i 2 = some b ∧ Octets.beNat b = n := by
  unfold loadNet16
  cases Memory.read pkt i 2 with
  | none => exact ⟨by rintro ⟨⟩, by rintro ⟨_, ⟨⟩, _⟩⟩
  | some c => simp only [Except.ok.injEq, Option.some.injEq, exists_eq_left']

theorem writeAt_eq_ok {src : Bytes} : writeAt pkt i src = .ok b ↔ Memory.write pkt i src = some b := by
  unfold writeAt
  cases Memory.write pkt i src with
  | none => exact ⟨by rintro ⟨⟩, by rintro ⟨⟩⟩
  | some c => rw [Except.ok.injEq, Option.some.injEq]

end Inversion

section Read

variable {pkt : Bytes} (pre : Bytes) {b rest : Bytes} {i n : Nat}

/-- Reading a part of a packet whose place is known. -/
theorem copyAt_eq (hpkt : pkt = pre ++ b ++ rest) (hi : i = pre.length) (hn : n = b.length) :
    copyAt pkt i n = .ok b := by
  rw [copyAt, hpkt, hi, hn, Memory.read_middle]

theorem loadNet16_eq (hpkt : pkt = pre ++ b ++ rest) (hi : i = pre.length) (hn : 2 = b.length) :
    loadNet16 pkt i = .ok (Octets.beNat b) := by
  rw [loadNet16, hpkt, hi, hn, Memory.read_middle]

theorem loadNet32_eq (hpkt : pkt = pre ++ b ++ rest) (hi : i = pre.length) (hn : 4 = b.length) :
    loadNet32 pkt i = .ok (Octets.beNat b) := by
  rw [loadNet32, hpkt, hi, hn, Memory.read_middle]

theorem octetAt_eq {x : UInt8} (hpkt : pkt = pre ++ x :: rest) (hi : i = pre.length) :
    octetAt pkt i = .ok x := by
  rw [octetAt, hpkt, hi, List.getElem?_append_right (Nat.le_refl _), Nat.sub_self]
  rfl

theorem writeAt_eq {old src : Bytes} (hpkt : pkt = pre ++ old ++ rest) (hi : i = pre.length)
    (hn : old.length = src.length) : writeAt pkt i src = .ok (pre ++ src ++ rest) := by
  rw [writeAt, hpkt, hi, Memory.write_middle _ _ _ hn]

end Read

section Congr

variable {pkt pkt' : Bytes} {i n : Nat}

theorem octetAt_congr (h : pkt'[i]? = pkt[i]?) : octetAt pkt' i = octetAt pkt i := by
  simp only [octetAt, h]

theorem loadNet16_congr (h : ∀ k, i ≤ k → k < i + 2 → pkt'[k]? = pkt[k]?) :
    loadNet16 pkt' i = loadNet16 pkt i := by
  rw [loadNet16, loadNet16, Memory.read_congr_of_pos Nat.two_pos h]

theorem loadNet32_congr (h : ∀ k, i ≤ k → k < i + 4 → pkt'[k]? = pkt[k]?) :
    loadNet32 pkt' i = loadNet32 pkt i := by
  rw [loadNet32, loadNet32, Memory.read_congr_of_pos (Nat.succ_pos 3) h]

end Congr

/-! ### Constants of the network headers -/

def etherHdrLen : Nat := 14

def ethertypeIp : Nat := 0x0800

def ethertypeVlan : Nat := 0x8100

def ethertypeIpv6 : Nat := 0x86dd

/-- Octets of `struct nmsg_iphdr`, without options. -/
def iphdrLen : Nat := 20

/-- Octets of `struct ip6_hdr`. -/
def ip6hdrLen : Nat := 40

def udphdrLen : Nat := 8

def tcphdrLen : Nat := 20

def icmphdrLen : Nat := 4

def ipprotoHopopts : UInt8 := 0

def ipprotoIcmp : UInt8 := 1

def ipprotoTcp : UInt8 := 6

def ipprotoUdp : UInt8 := 17

def ipprotoRouting : UInt8 := 43

def ipprotoFragment : UInt8 := 44

def ipprotoEsp : UInt8 := 50

def ipprotoAh : UInt8 := 51

def ipprotoDstopts : UInt8 := 60

/-- `ip_v` and `ip_hl` of the first octet of a header. -/
def ipV (b : UInt8) : Nat := b.toNat / 16

def ipHl (b : UInt8) : Nat := b.toNat % 16

/-- `ip_off & IP_OFFMASK` -/
def ipOffmask (off : Nat) : Nat := off % 0x2000

/-- `ip_off & IP_MF` -/
def ipMf (off : Nat) : Bool := off / 0x2000 % 2 = 1

/-- `ip6f_offlg & IP6F_OFF_MASK`, in octets. -/
def ip6fOff (offlg : Nat) : Nat := offlg / 8 * 8

/-- `ip6f_offlg & IP6F_MORE_FRAG` -/
def ip6fMoreFrag (offlg : Nat) : Bool := offlg % 2 = 1

/-! ### What a read can end in -/

/-- Memory outside the packet, or a null pointer. -/
def MemoryFault (e : Abort) : Prop := e = .outOfBounds ∨ e = .nullPointer

theorem copyAt_outcome (pkt : Bytes) (i n : Nat) :
    Outcome MemoryFault (fun b => b.length = n) (copyAt pkt i n) := by
  unfold copyAt
  cases h : Memory.read pkt i n with
  | none => exact Or.inl rfl
  | some b => exact Memory.length_of_read h

theorem octetAt_outcome (pkt : Bytes) (i : Nat) :
    Outcome MemoryFault (fun _ => True) (octetAt pkt i) := by
  unfold octetAt
  cases pkt[i]? with
  | none => exact Or.inl rfl
  | some b => trivial

theorem loadNet16_outcome (pkt : Bytes) (i : Nat) :
    Outcome MemoryFault (fun n => n < 65536) (loadNet16 pkt i) := by
  unfold loadNet16
  cases h : Memory.read pkt i 2 with
  | none => exact Or.inl rfl
  | some b =>
      have hlt := Octets.beNat_lt b
      rw [Memory.length_of_read h] at hlt
      exact hlt

theorem loadNet32_outcome (pkt : Bytes) (i : Nat) :
    Outcome MemoryFault (fun _ => True) (loadNet32 pkt i) := by
  unfold loadNet32
  cases Memory.read pkt i 4 with
  | none => exact Or.inl rfl
  | some b => trivial

theorem writeAt_outcome (buf : Bytes) (i : Nat) (src : Bytes) :
    Outcome MemoryFault (fun b => b.length = buf.length) (writeAt buf i src) := by
  unfold writeAt
  cases h : Memory.write buf i src with
  | none => exact Or.inl rfl
  | some b => exact Memory.length_of_write h

end Nmsg

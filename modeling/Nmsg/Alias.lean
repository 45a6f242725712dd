import Nmsg.Lib.PointerArray
import Nmsg.Msgmod.Pres

/-!
# The alias tables

`alias.c`: a file of keys and values is read into an array of strings, which grows by doubling, or to
the key. `max_idx` is the largest index of the array; the size for a new array is formed in 32 bits.
-/

namespace Nmsg

/-- `struct nmsg_alias` -/
structure Alias where
  maxIdx : Nat
  value : PointerArray Bytes

/-- `ALIAS_SZ_INIT` -/
def aliasSzInit : Nat := 16

/-- `MAX_LINE_SZ` -/
def maxLineSz : Nat := 1024

/-- `alias_resize`. An array that is allocated with no octets has no cells. -/
def aliasResize (al : Alias) (n : UInt32) : Except Abort Alias :=
  let n := n + 1
  if n.toNat > al.maxIdx then
    let doubled : UInt32 := .ofNat (al.maxIdx * 2)
    let maxIdx := if n > doubled then n + 1 else doubled
    match (al.value.realloc (maxIdx + 1).toNat).clearUpTo .outOfBounds .divergence
        (.ofNat (al.maxIdx + 1)) maxIdx.toNat with
    | .error e => .error e
    | .ok value => .ok ⟨maxIdx.toNat, value⟩
  else .ok al

/-- A value is stored under its key, in the loop of `alias_init`. -/
def aliasStore (al : Alias) (key : UInt32) (strValue : Bytes) : Except Abort Alias :=
  match if key.toNat > al.maxIdx then aliasResize al key else .ok al with
  | .error e => .error e
  | .ok al =>
      match al.value.storeCell .outOfBounds key.toNat (some strValue) with
      | .error e => .error e
      | .ok value => .ok { al with value }

/-- `strtok_r` on a line. -/
def aliasToken (delims : List UInt8) (mem : Bytes) : Except Abort (Option (Bytes × Bytes)) :=
  match Text.strtokAny delims mem with
  | none => .error .outOfBounds
  | some found => .ok found

/-- The body of the loop of `alias_init`, for a line that was read. -/
def aliasLine (al : Alias) (line : Bytes) : Except Abort (Res × Alias) :=
  match aliasToken [32, 9] line with
  | .error e => .error e
  | .ok none => .ok (.failure, al)
  | .ok (some (strKey, rest)) =>
      match aliasToken [32, 9, 10] rest with
      | .error e => .error e
      | .ok none => .ok (.failure, al)
      | .ok (some (strValue, _)) =>
          match strtoul strKey with
          | none => .ok (.failure, al)
          -- the number is converted to `unsigned`
          | some n => (aliasStore al (.ofNat n) strValue).map fun al => (.success, al)

/-- The loop of `alias_init`, which is left at a line that cannot be read. -/
def aliasLines : Nat → Alias → Bytes → Except Abort (Res × Alias)
  | 0, _, _ => .error .divergence
  | fuel + 1, al, file =>
      match Text.fgets maxLineSz file with
      | none => .ok (.success, al)
      | some (line, rest) =>
          match aliasLine al line with
          | .error e => .error e
          | .ok (res, al) => if res ≠ .success then .ok (res, al) else aliasLines fuel al rest

/-- `alias_init`, where the file may not exist. -/
def aliasInit (file : Option Bytes) : Except Abort (Res × Alias) :=
  match (PointerArray.malloc (aliasSzInit + 1)).clearUpTo .outOfBounds .divergence 0 aliasSzInit with
  | .error e => .error e
  | .ok value =>
      match file with
      | none => .ok (.success, ⟨aliasSzInit, value⟩)
      | some file => aliasLines (file.length + 1) ⟨aliasSzInit, value⟩ file

def nmsgAliasByKey (al : Alias) (key : UInt32) : Except Abort (Option Bytes) :=
  if key.toNat ≤ al.maxIdx then al.value.loadCell .outOfBounds key.toNat else .ok none

/-- The body of the loop of `nmsg_alias_by_value`. -/
def aliasFound (al : Alias) (value : Bytes) (i : UInt32) : Except Abort (Option UInt32) :=
  match al.value.loadCell .outOfBounds i.toNat with
  | .error e => .error e
  | .ok none => .ok none
  | .ok (some s) => .ok (if Text.EqIgnoringCase value s then some i else none)

def nmsgAliasByValue (al : Alias) (value : Bytes) : Except Abort UInt32 :=
  (PointerArray.findUpTo .divergence (aliasFound al value) al.maxIdx (al.maxIdx + 2) 0).map
    fun key => key.getD 0

end Nmsg

import Nmsg.Defs
import Nmsg.Lib.PointerArray
import Nmsg.Lib.Text

/-!
# The table of message modules

`msgmodset.c`: a module is inserted under its vendor and its message type. Both levels are arrays of
pointers with a largest index, `nv` and `nm`. `msgmod/lookup.c`: modules are looked up by their
numbers and by their names.
-/

namespace Nmsg

/-- `struct nmsg_idname` -/
structure Idname where
  id : UInt32
  name : Bytes

/-- What a module says of itself in its `struct nmsg_msgmod_plugin`. -/
structure MsgmodPlugin where
  vendor : Idname
  msgtype : Idname

/-- `struct nmsg_msgvendor` -/
structure Msgvendor (α : Type) where
  msgtypes : PointerArray α
  nm : Nat

/-- `struct nmsg_msgmodset` -/
structure Msgmodset (α : Type) where
  vendors : PointerArray (Msgvendor α)
  nv : Nat

variable {α β : Type}

/-- The set that `_nmsg_msgmodset_init` starts with. -/
def msgmodsetInit : Msgmodset α := ⟨.calloc 1, 0⟩

/-! ### Insertion -/

/-- Both levels are resized alike, if the identifier is beyond their largest index. -/
def resizeTo (a : PointerArray β) (maxIdx : Nat) (id : UInt32) :
    Except Abort (PointerArray β × Nat) :=
  if maxIdx < id.toNat then
    -- the counter of the loop is unsigned, and so is the sum in the size
    match (a.realloc (id + 1).toNat).clearUpTo .outOfBounds .divergence (.ofNat (maxIdx + 1))
        id.toNat with
    | .error e => .error e
    | .ok a => .ok (a, id.toNat)
  else .ok (a, maxIdx)

section Table

variable (plugin : α → MsgmodPlugin)

/-- A module takes its place in the array of its vendor. The pointer that is there is looked at, for a
warning, and is lost. -/
def insertMsgtype (msgv : Msgvendor α) (mod : α) : Except Abort (Msgvendor α) := do
  let (msgtypes, nm) ← resizeTo msgv.msgtypes msgv.nm (plugin mod).msgtype.id
  let _ ← msgtypes.loadCell .outOfBounds (plugin mod).msgtype.id.toNat
  let msgtypes ← msgtypes.storeCell .outOfBounds (plugin mod).msgtype.id.toNat (some mod)
  return ⟨msgtypes, nm⟩

def msgmodsetInsertModule (ms : Msgmodset α) (mod : α) : Except Abort (Msgmodset α) := do
  let (vendors, nv) ← resizeTo ms.vendors ms.nv (plugin mod).vendor.id
  -- a vendor that was not seen before gets an array for the message type 0 alone
  let msgv := (← vendors.loadCell .outOfBounds (plugin mod).vendor.id.toNat).getD ⟨.calloc 1, 0⟩
  let msgv ← insertMsgtype plugin msgv mod
  let vendors ← vendors.storeCell .outOfBounds (plugin mod).vendor.id.toNat (some msgv)
  return ⟨vendors, nv⟩

/-! ### Lookup -/

def nmsgMsgmodLookup (ms : Msgmodset α) (vid msgtype : UInt32) : Except Abort (Option α) :=
  if vid.toNat ≤ ms.nv then
    match ms.vendors.loadCell .outOfBounds vid.toNat with
    | .error e => .error e
    | .ok none => .ok none
    | .ok (some msgv) =>
        if msgtype.toNat ≤ msgv.nm then msgv.msgtypes.loadCell .outOfBounds msgtype.toNat
        else .ok none
  else .ok none

/-- The loop over the modules of a vendor, for the first one that something is read from. -/
def findMsgtype (msgv : Msgvendor α) (read : α → Option β) : Except Abort (Option β) :=
  PointerArray.findUpTo .divergence
    (fun j => (msgv.msgtypes.loadCell .outOfBounds j.toNat).map fun mod => mod.bind read) msgv.nm
    (msgv.nm + 2) 0

/-- `"ISC"` -/
def isc : Bytes := [73, 83, 67]

/-- `"base"` -/
def base : Bytes := [98, 97, 115, 101]

/-- The name that is looked for under the name of a vendor. -/
def vendorAlias (vname : Bytes) : Bytes := if Text.EqIgnoringCase vname isc then base else vname

/-- The body of the loop of `nmsg_msgmod_vname_to_vid`. -/
def findVendor (ms : Msgmodset α) (vname : Bytes) (i : UInt32) : Except Abort (Option UInt32) :=
  match ms.vendors.loadCell .outOfBounds i.toNat with
  | .error e => .error e
  | .ok none => .ok none
  | .ok (some msgv) => findMsgtype msgv fun mod =>
      if Text.EqIgnoringCase (plugin mod).vendor.name vname then some (plugin mod).vendor.id
      else none

def nmsgMsgmodVnameToVid (ms : Msgmodset α) (vname : Bytes) : Except Abort UInt32 :=
  (PointerArray.findUpTo .divergence (findVendor plugin ms (vendorAlias vname)) ms.nv (ms.nv + 2)
    0).map fun vid => vid.getD 0

def nmsgMsgmodMnameToMsgtype (ms : Msgmodset α) (vid : UInt32) (mname : Bytes) :
    Except Abort UInt32 :=
  if vid.toNat ≤ ms.nv then
    match ms.vendors.loadCell .outOfBounds vid.toNat with
    | .error e => .error e
    | .ok none => .ok 0
    | .ok (some msgv) =>
        (findMsgtype msgv fun mod =>
          if Text.EqIgnoringCase (plugin mod).msgtype.name mname then some (plugin mod).msgtype.id
          else none).map fun msgtype => msgtype.getD 0
  else .ok 0

def nmsgMsgmodLookupByname (ms : Msgmodset α) (vname mname : Bytes) : Except Abort (Option α) := do
  let vid ← nmsgMsgmodVnameToVid plugin ms vname
  let msgtype ← nmsgMsgmodMnameToMsgtype plugin ms vid mname
  if vid = 0 ∨ msgtype = 0 then return none
  nmsgMsgmodLookup ms vid msgtype

end Table

end Nmsg

import Nmsg.Proof.RawField

/-!
# Setting and getting fields

What is set is what is read afterwards, and everything else reads as before. The count of a repeated
field is an `int`, and a value more than it can count is the end of the program.
-/

namespace Nmsg

open Heap Octets

section Field

variable {A : Allocator} {mod : RawModule} {heap : Heap} {owners : UInt64 → Option BlockOwner}
  {msg : UInt64} {field : MsgmodField} {d : FieldDescr} {f count len : Nat} {base p : Pointer}
  {slots vals vals' : List FieldValue} {type : FieldType} {o : BlockOwner} {v : FieldValue}
  {i : UInt32} {data : Bytes}

theorem makeRoomAt_spec (hlaid : mod.LaidOut) (hfield : mod.FieldAt f field d)
    (howner : owners msg = some .message) (hmsg : msg ≠ 0)
    (hslots : FieldSlots heap owners msg field d f base slots vals.length)
    (hvals : vals = slots.take vals.length)
    (hover : field.label = .repeated → i.toNat = vals.length →
      vals.length ≠ 2 ^ 31 - 1 ∧ vals.length ≠ 2 ^ 32 - 1) :
    ∃ room heap', makeRoomAt A heap msg field d i = .ok (room, heap') ∧
      RoomMade A mod heap owners msg field d f vals i room heap' := by
  cases hlabel : field.label with
  | required => exact makeRoomAt_required hlabel hslots hvals
  | optional => exact makeRoomAt_optional hlaid hfield hlabel howner hslots hvals
  | repeated =>
      exact makeRoomAt_repeated hlaid hfield hlabel howner hmsg hslots hvals (hover hlabel)

/-- A count that cannot be incremented. -/
theorem makeRoomAt_error (hlaid : mod.LaidOut) (hfield : mod.FieldAt f field d)
    (hlabel : field.label = .repeated)
    (hslots : FieldSlots heap owners msg field d f base slots count) (hi : i.toNat = count)
    (hover : count = 2 ^ 31 - 1 ∨ count = 2 ^ 32 - 1) :
    ∃ e, makeRoomAt A heap msg field d i = .error e := by
  have hbased := hslots.based
  unfold Based at hbased
  simp only [hlabel] at hbased
  obtain ⟨-, -, hlt, hcount, -⟩ := hbased
  have hload := loadCount_of_load hcount hlt
  have hq : UInt32.ofNat count = i := by rw [← hi, UInt32.ofNat_toNat]
  have hgrow : makeRoomAt A heap msg field d i = growArray A heap msg d i i := by
    simp only [makeRoomAt, hlabel, hload, hq, UInt32.le_refl, if_true, bind, Except.bind]
  rw [hgrow]
  rcases hover with hmax | hlast
  · exact ⟨_, growArray_of_max (hi.trans hmax)⟩
  · obtain ⟨blk, hblock, hle⟩ := block_of_load hcount
    obtain ⟨heap₁, hstore⟩ :
        ∃ heap₁, heap.store ⟨msg, d.quantifierOffset⟩ (leBytes 4 (i + 1).toNat) = some heap₁ :=
      exists_store hblock (by rwa [length_leBytes])
    exact ⟨_, growArray_of_last (hlaid.type_eq hfield) (hi.trans hlast) hstore⟩

/-! ### Reading -/

/-- A value that is handed over: not an address of a wrong length. -/
def FieldType.accepts (type : FieldType) : FieldValue → Option FieldValue
  | .data b => if type = .ip ∧ b.length ≠ 4 ∧ b.length ≠ 16 then none else some (.data b)
  | v => some v

theorem getFieldValue_eq (hvals : field.label.Allows vals.length) (i : Nat) :
    getFieldValue field vals i = vals[i]?.bind field.type.accepts := by
  unfold getFieldValue
  cases hlabel : field.label with
  | repeated =>
      by_cases hle : vals.length ≤ i
      · simp only [ge_iff_le, hle, if_true, List.getElem?_eq_none hle, Option.bind_none]
      · simp only [ge_iff_le, hle, if_false]
        cases vals[i]? with
        | none => rfl
        | some v => cases v <;> rfl
  | optional =>
      rw [hlabel] at hvals
      change vals.length ≤ 1 at hvals
      by_cases hor : vals.length ≤ i ∨ 0 < i
      · simp only [ge_iff_le, gt_iff_lt, hor, if_true, List.getElem?_eq_none (show vals.length ≤ i by omega),
          Option.bind_none]
      · obtain rfl : i = 0 := by omega
        simp only [ge_iff_le, gt_iff_lt, hor, if_false]
        cases vals[0]? with
        | none => rfl
        | some v => cases v <;> rfl
  | required =>
      rw [hlabel] at hvals
      change vals.length = 1 at hvals
      by_cases hpos : 0 < i
      · simp only [gt_iff_lt, hpos, if_true, List.getElem?_eq_none (show vals.length ≤ i by omega),
          Option.bind_none]
      · obtain rfl : i = 0 := by omega
        simp only [gt_iff_lt, hpos, if_false]
        cases vals[0]? with
        | none => rfl
        | some v => cases v <;> rfl

theorem findValue_spec (hlaid : mod.LaidOut) (hfield : mod.FieldAt f field d)
    (hslots : FieldSlots heap owners msg field d f base slots count) :
    findValue heap msg field d i = .ok (if i.toNat < count then
      some (base.add (field.type.slotSize * i.toNat)) else none) := by
  have hbased := hslots.based
  unfold Based at hbased
  unfold findValue
  cases hlabel : field.label with
  | required =>
      simp only [hlabel] at hbased ⊢
      obtain ⟨rfl, -, rfl⟩ := hbased
      by_cases hi : i > 0
      · have hpos := UInt32.lt_iff_toNat_lt.mp hi
        rw [if_pos hi, if_neg (not_lt.mpr hpos)]
        rfl
      · obtain rfl : i = 0 := UInt32.le_zero_iff.mp (UInt32.not_lt.mp hi)
        rfl
  | optional =>
      simp only [hlabel] at hbased ⊢
      obtain ⟨rfl, -, hle, hload⟩ := hbased
      have hlt : count < 2 ^ 32 := by omega
      have hq : (UInt32.ofNat count).toNat = count := UInt32.toNat_ofNat_of_lt' hlt
      rw [loadCount_of_load hload hlt]
      have hcond : (i ≥ UInt32.ofNat count ∨ i > 0) ↔ ¬ i.toNat < count := by
        rw [ge_iff_le, gt_iff_lt, UInt32.le_iff_toNat_le, UInt32.lt_iff_toNat_lt, hq]
        change count ≤ i.toNat ∨ 0 < i.toNat ↔ _
        omega
      simp only [bind, Except.bind, pure, Except.pure, hcond, ite_not]
      by_cases hi : i.toNat < count
      · rw [if_pos hi, if_pos hi, show i.toNat = 0 by omega]
        rfl
      · rw [if_neg hi, if_neg hi]
  | repeated =>
      simp only [hlabel] at hbased ⊢
      obtain ⟨hoffset, -, hlt, hload, harray, -⟩ := hbased
      have hq : (UInt32.ofNat count).toNat = count := UInt32.toNat_ofNat_of_lt' hlt
      rw [loadCount_of_load hload hlt]
      have hcond : i ≥ UInt32.ofNat count ↔ ¬ i.toNat < count := by
        rw [ge_iff_le, UInt32.le_iff_toNat_le, hq, not_lt]
      simp only [bind, Except.bind, pure, Except.pure, hcond, ite_not, loadPointer_of_load harray]
      by_cases hi : i.toNat < count
      · rw [if_pos hi, if_pos hi, Pointer.add, hoffset, Nat.zero_add, hlaid.type_eq hfield]
        rfl
      · rw [if_neg hi, if_neg hi]

/-- The octets that a pointer leads to. -/
def octetsAt (heap : Heap) (p : Pointer) (len : Nat) : Except Abort Bytes :=
  if len = 0 then .ok [] else loadAt heap p len

theorem OctetsAt.octetsAt {a : UInt64} {b : Bytes} (h : OctetsAt heap owners o a b) :
    octetsAt heap ⟨a, 0⟩ b.length = .ok b := by
  unfold Nmsg.octetsAt
  split_ifs with hzero
  · rw [List.length_eq_zero_iff.mp hzero]
  · rcases h with ⟨-, rfl⟩ | ⟨-, -, blk, hblock, rest, rfl⟩
    · exact absurd rfl hzero
    · have hload : heap.load ⟨a, 0⟩ b.length = some b := by
        refine load_eq_some_iff.mpr ⟨b ++ rest, hblock, Memory.read_eq_some.mpr ⟨?_, ?_⟩⟩
        · rw [List.length_append]
          dsimp only
          omega
        · rw [List.drop_zero, List.take_left]
      rw [loadAt, hload]

theorem handOver_spec (hp : p.block ≠ 0) (hslot : SlotHolds heap owners o p type v)
    (hv : v.OfType type) :
    ∃ out, handOver heap type p = .ok out ∧
      match type.accepts v with
      | none => out = none
      | some v => ∃ q n, out = some (q, n) ∧ octetsAt heap q n = .ok v.octets := by
  unfold handOver
  rw [if_neg hp]
  cases v with
  | word w =>
      have hword : octetsAt heap p 4 = .ok (FieldValue.word w).octets := by
        rw [octetsAt, if_neg (by decide), loadAt, hslot.1]
        rfl
      cases type <;> simp only [FieldValue.OfType, List.mem_cons, List.not_mem_nil, reduceCtorEq,
        or_self] at hv <;> exact ⟨_, rfl, p, 4, rfl, hword⟩
  | dword w =>
      have hdword : octetsAt heap p 8 = .ok (FieldValue.dword w).octets := by
        have hload : heap.load p 8 = some (leBytes 8 w.toNat) := hslot
        rw [octetsAt, if_neg (by decide), loadAt, hload]
        rfl
      cases type <;> simp only [FieldValue.OfType, List.mem_cons, List.not_mem_nil, reduceCtorEq,
        or_self] at hv <;> exact ⟨_, rfl, p, 8, rfl, hdword⟩
  | data b =>
      obtain ⟨hlength, a, hload, hat⟩ := hslot
      have hlen : loadNat heap p 8 = .ok b.length := by
        have hpart : heap.load p 8 = some (leBytes 8 b.length) := by
          have hfirst := load_part (k := 0) (m := 8) hload (by omega)
          rwa [List.drop_zero, take_append_of_length (length_leBytes ..)] at hfirst
        have hlt : b.length < 256 ^ 8 := hlength
        rw [loadNat, loadAt, hpart]
        simp only [Except.map, leNat_leBytes hlt]
      have hpointer : loadPointer heap (p.add 8) = .ok a := by
        apply loadPointer_of_load
        rw [load_part hload (by omega), drop_append_of_length (length_leBytes ..),
          List.take_of_length_le (length_leBytes ..).le]
      cases type with
      | ip =>
          by_cases hip : b.length ≠ 4 ∧ b.length ≠ 16
          · refine ⟨none, ?_, ?_⟩
            · simp only [hlen, bind, Except.bind, pure, Except.pure, true_and, if_pos hip]
            · simp only [FieldType.accepts, true_and, if_pos hip]
          · refine ⟨some (⟨a, 0⟩, b.length), ?_, ?_⟩
            · simp only [hlen, hpointer, bind, Except.bind, pure, Except.pure, true_and, if_neg hip]
            · simp only [FieldType.accepts, true_and, if_neg hip]
              exact ⟨_, _, rfl, hat.octetsAt⟩
      | bytes | string | mlstring =>
          refine ⟨some (⟨a, 0⟩, b.length), ?_, ?_⟩
          · simp only [hlen, hpointer, bind, Except.bind, pure, Except.pure, reduceCtorEq, false_and,
              if_false]
          · simp only [FieldType.accepts, reduceCtorEq, false_and, if_false]
            exact ⟨_, _, rfl, hat.octetsAt⟩
      | _ => simp [FieldValue.OfType] at hv

end Field

namespace RawObject

variable {env : RawEnv} {s s' : RawObject} {m : FieldMessage} {field : MsgmodField} {d : FieldDescr}
  {f len : Nat} {i : UInt32} {data : Bytes} {res : Res}

/-- The message lies in memory, or it does when the payload is unpacked. -/
def Holds (env : RawEnv) (s : RawObject) (m : FieldMessage) : Prop :=
  (∃ owners, MessageAt s.module s.heap owners s.message m) ∨
    s.message = 0 ∧ ∃ payload msg heap owners, s.np.bind NmsgPayload.payload = some payload ∧
      env.unpack s.heap payload = some (msg, heap) ∧ MessageAt s.module heap owners msg m

theorem Holds.deserialize (h : s.Holds env m) :
    ∃ s₁ owners, s.deserialize env = (.success, s₁) ∧ s₁.module = s.module ∧
      MessageAt s.module s₁.heap owners s₁.message m := by
  rcases h with ⟨owners, h⟩ | ⟨hmessage, payload, msg, heap, owners, hpayload, hunpack, h⟩
  · exact ⟨s, owners, if_pos h.ne, rfl, h⟩
  · refine ⟨{ s with message := msg, heap := heap }, owners, ?_, rfl, h⟩
    simp only [RawObject.deserialize, hmessage, ne_eq, not_true_eq_false, if_false, hpayload, hunpack]

/-- What is read of a field: the result, and the octets that the pointer leads to. -/
def reads (env : RawEnv) (s : RawObject) (f : Nat) (i : UInt32) :
    Except Abort (Res × Option Bytes) := do
  let ((res, out), s) ← s.getFieldByIdx env f i
  match out with
  | none => return (res, none)
  | some (p, len) =>
      let b ← octetsAt s.heap p len
      return (res, some b)

/-- What there is to be read in a message. -/
def readOf (mod : Msgmod) (m : FieldMessage) (f i : Nat) : Res × Option Bytes :=
  match mod.fields[f]? with
  | none => (.failure, none)
  | some field =>
      if field.hidden = true then (.failure, none)
      else
        match getFieldValue field (m.getD f []) i with
        | none => (.failure, none)
        | some v => (.success, some v.octets)

/-- The number of values of a field. -/
def numValues (env : RawEnv) (s : RawObject) (f : Nat) : Except Abort Nat :=
  match s.module.mod.fields[f]?, s.module.descrs[f]? with
  | some field, some d =>
      if field.label = .required then .ok 1
      else (loadCount (s.deserialize env).2.heap (s.deserialize env).2.message d).map UInt32.toNat
  | _, _ => .ok 0

theorem Holds.numValues (h : s.Holds env m) (hfield : s.module.FieldAt f field d) :
    s.numValues env f = .ok (m.getD f []).length := by
  obtain ⟨s₁, owners, hdeserialize, -, hmessage⟩ := h.deserialize
  obtain ⟨base, slots, hslots, -⟩ := hmessage.fields f field d hfield
  have hbased := hslots.based
  unfold Based at hbased
  simp only [RawObject.numValues, hfield.field_eq, hfield.descr_eq, hdeserialize]
  cases hlabel : field.label with
  | required =>
      simp only [hlabel] at hbased
      rw [if_pos rfl, hbased.2.2]
  | optional =>
      simp only [hlabel] at hbased
      have hlt : (m.getD f []).length < 2 ^ 32 := by omega
      rw [if_neg nofun, loadCount_of_load hbased.2.2.2 hlt, Except.map,
        UInt32.toNat_ofNat_of_lt' hlt]
  | repeated =>
      simp only [hlabel] at hbased
      rw [if_neg nofun, loadCount_of_load hbased.2.2.2.1 hbased.2.2.1, Except.map,
        UInt32.toNat_ofNat_of_lt' hbased.2.2.1]

/-- Reading finds what there is in the message. -/
theorem Holds.reads (hlaid : s.module.LaidOut) (h : s.Holds env m)
    (hget : ∀ field, s.module.mod.fields[f]? = some field → field.hasGet = false) :
    s.reads env f i = .ok (readOf s.module.mod m f i.toNat) := by
  unfold RawObject.reads getFieldByIdx readOf
  cases hfield : s.module.mod.fields[f]? with
  | none => rfl
  | some field =>
      by_cases hhidden : field.hidden = true
      · simp only [hhidden, if_true]
        rfl
      · obtain ⟨s₁, owners, hdeserialize, hmodule, hmessage⟩ := h.deserialize
        obtain ⟨d, hd⟩ := hlaid.descr hfield (hget field hfield)
        have hfieldAt : s.module.FieldAt f field d := ⟨hfield, hd, hget field hfield⟩
        obtain ⟨base, slots, hslots, hvals⟩ := hmessage.fields f field d hfieldAt
        have hholds := hmessage.holds.getD hfield
        have hfind := findValue_spec (i := i) hlaid hfieldAt hslots
        simp only [getFieldValue_eq hholds.count, hhidden, Bool.false_eq_true, if_false,
          hdeserialize, ne_eq, not_true_eq_false, hget field hfield, hmodule, hd, hfind, bind, Except.bind, pure, Except.pure]
        by_cases hi : i.toNat < (m.getD f []).length
        · have hget : (m.getD f [])[i.toNat]? = slots[i.toNat]? := by
            conv_lhs => rw [hvals]
            exact List.getElem?_take_of_lt hi
          obtain ⟨v, hv⟩ : ∃ v, slots[i.toNat]? = some v := by
            rw [← hget]
            exact ⟨_, List.getElem?_eq_getElem hi⟩
          have hp : (base.add (field.type.slotSize * i.toNat)).block ≠ 0 := by
            rcases hslots.place (List.getElem?_eq_some_iff.mp hv).1 with ⟨rfl, -⟩ | ⟨-, hne, -⟩
            · exact hmessage.ne
            · exact hne
          obtain ⟨out, hout, haccepts⟩ := handOver_spec hp (hslots.holds _ v hv)
            (hslots.ofType v (List.mem_of_getElem? hv))
          rw [hget, hv, if_pos hi]
          simp only [hout, Option.bind_some]
          cases haccept : field.type.accepts v with
          | none =>
              simp only [haccept] at haccepts
              subst haccepts
              rfl
          | some w =>
              simp only [haccept] at haccepts
              obtain ⟨q, n, rfl, hoctets⟩ := haccepts
              simp only [hoctets]
        · rw [if_neg hi, List.getElem?_eq_none (not_lt.mp hi)]
          rfl

/-! ### Setting -/

/-- The values of a field with one of them set, which may be a new one. -/
theorem setFieldValue_success {vals : List FieldValue} {j : Nat} {v : FieldValue}
    (hindex : ¬ field.IndexRefused vals.length j)
    (hload : loadValue field.type data len = .ok (some v)) (w : FieldValue) :
    setFieldValue field vals j data len =
      .ok (.success, (if field.OpensSlot vals.length j then vals ++ [w] else vals).set j v) := by
  unfold setFieldValue
  rw [makeRoom_eq, if_neg hindex]
  simp only [hload]
  by_cases hopens : field.OpensSlot vals.length j
  · rw [if_pos hopens, if_pos hopens, hopens.1, List.set_append_right _ _ le_rfl,
      List.set_append_right _ _ le_rfl, Nat.sub_self, List.set_cons_zero, List.set_cons_zero]
  · rw [if_neg hopens, if_neg hopens]

/-- There was no memory, for a larger array or for the octets of the value. -/
def OutOfMemory (A : Allocator) (type : FieldType) (count len : Nat) : Prop :=
  ∃ h, A.find h (arrayBytes type (.ofNat (count + 1))) = none ∨ A.find h len = none

/-- A value of the field is set, or the call fails with its index or without memory. -/
inductive SetDone (env : RawEnv) (s : RawObject) (m : FieldMessage) (f : Nat) (field : MsgmodField)
    (i : UInt32) (data : Bytes) (len : Nat) : Res → RawObject → Prop where
  | refused {s' : RawObject} (h : field.IndexRefused (m.getD f []).length i.toNat) :
      SetDone env s m f field i data len .failure s'
  | memfail {s' : RawObject} (h : ¬ field.IndexRefused (m.getD f []).length i.toNat)
      (hmemory : OutOfMemory env.alloc field.type (m.getD f []).length len) :
      SetDone env s m f field i data len .memfail s'
  | set {s' : RawObject} {vals : List FieldValue}
      (h : ¬ field.IndexRefused (m.getD f []).length i.toNat)
      (hset : setFieldValue field (m.getD f []) i.toNat data len = .ok (.success, vals))
      (hmodule : s'.module = s.module) (hholds : s'.Holds env (m.set f vals)) :
      SetDone env s m f field i data len .success s'

theorem Holds.setFieldByIdx (hlaid : s.module.LaidOut) (h : s.Holds env m)
    (hfield : s.module.FieldAt f field d) (hhidden : field.hidden = false)
    (hdata : field.type.Takes data len)
    (hover : field.label = .repeated → i.toNat = (m.getD f []).length →
      (m.getD f []).length ≠ 2 ^ 31 - 1 ∧ (m.getD f []).length ≠ 2 ^ 32 - 1) :
    ∃ res s', s.setFieldByIdx env f i data len = .ok (res, s') ∧
      SetDone env s m f field i data len res s' := by
  obtain ⟨s₁, owners, hdeserialize, hmodule, hmessage⟩ := h.deserialize
  obtain ⟨base, slots, hslots, hvals⟩ := hmessage.fields f field d hfield
  obtain ⟨room, heap₁, hroom, hmade⟩ : ∃ room heap₁,
      makeRoomAt env.alloc s₁.heap s₁.message field d i = .ok (room, heap₁) ∧
        RoomMade env.alloc s.module s₁.heap owners s₁.message field d f (m.getD f []) i room heap₁ :=
    makeRoomAt_spec hlaid hfield hmessage.owner hmessage.ne hslots hvals hover
  unfold RawObject.setFieldByIdx
  simp only [hfield.field_eq, hfield.hasGet, hhidden, Bool.false_eq_true, or_self, if_false,
    hdeserialize, ne_eq, not_true_eq_false, hmodule, hfield.descr_eq, hroom, bind, Except.bind, pure,
    Except.pure]
  cases hmade with
  | refused hindex => exact ⟨_, _, rfl, .refused hindex⟩
  | memfail hindex hnone => exact ⟨_, _, rfl, .memfail hindex (hnone.imp fun _ => Or.inl)⟩
  | @slot _ owners₁ base₁ slots₁ vals₁ w hindex hchange hslots₁ hvals₁ hi hopens =>
      obtain ⟨w', hw'⟩ : ∃ w', slots₁[i.toNat]? = some w' := ⟨_, List.getElem?_eq_getElem hi⟩
      have howner₁ := hchange.owner.trans hmessage.owner
      obtain ⟨hp, ho, hblock⟩ := hslots₁.at_slot hmessage.ne howner₁ hi
      have hslot₁ := hslots₁.holds _ w' hw'
      obtain ⟨res, heap₂, hstore, hstored⟩ := storeValue_spec (A := env.alloc)
        (p := base₁.add (field.type.slotSize * i.toNat)) hp ho hslot₁
        (hslots₁.ofType w' (List.mem_of_getElem? hw')) hdata
      simp only [hstore]
      rcases hstored with ⟨rfl, hnone⟩ | ⟨rfl, owners₂, v, hload, hslot, hv⟩
      · exact ⟨_, _, rfl, .memfail hindex (hnone.imp fun _ => Or.inr)⟩
      · have hset := setFieldValue_success hindex hload w
        rw [← hopens] at hset
        have hchange₂ := hslot.fieldChange hlaid hfield howner₁ hblock hslots₁ hi
        have hslots₂ := hslots₁.change hlaid hfield howner₁ hblock hi hslot (loadValue_ofType hload) hv
        have hfinal := hmessage.change (hchange.trans hchange₂) hfield
          (setFieldValue_holds (hmessage.holds.getD hfield.field_eq) hset)
          (by rw [List.length_set]; exact hslots₂)
          (by rw [List.length_set, List.take_set, ← hvals₁])
        exact ⟨_, _, rfl, .set hindex hset rfl (Or.inl ⟨owners₂, hfinal⟩)⟩

/-- A count that cannot be incremented is the end of the program. -/
theorem Holds.setFieldByIdx_error (hlaid : s.module.LaidOut) (h : s.Holds env m)
    (hfield : s.module.FieldAt f field d) (hhidden : field.hidden = false)
    (hlabel : field.label = .repeated) (hi : i.toNat = (m.getD f []).length)
    (hover : (m.getD f []).length = 2 ^ 31 - 1 ∨ (m.getD f []).length = 2 ^ 32 - 1) :
    ∃ e, s.setFieldByIdx env f i data len = .error e := by
  obtain ⟨s₁, owners, hdeserialize, hmodule, hmessage⟩ := h.deserialize
  obtain ⟨base, slots, hslots, -⟩ := hmessage.fields f field d hfield
  obtain ⟨e, he⟩ := makeRoomAt_error (A := env.alloc) hlaid hfield hlabel hslots hi hover
  refine ⟨e, ?_⟩
  unfold RawObject.setFieldByIdx
  simp only [hfield.field_eq, hfield.hasGet, hhidden, Bool.false_eq_true, or_self, if_false,
    hdeserialize, ne_eq, not_true_eq_false, hmodule, hfield.descr_eq, he, bind, Except.bind]

/-! ### The law -/

end RawObject

/-- The octets of a value as they are read: a number of 16 bits is extended to 32 bits, and a truth
value takes up as many. -/
def FieldType.widened (type : FieldType) (data : Bytes) : Bytes :=
  match type with
  | .bool => data ++ [0, 0, 0]
  | .int16 => signExtend data
  | .uint16 => data ++ [0, 0]
  | _ => data

theorem loadValue_widened {type : FieldType} {data : Bytes} {len : Nat} {v : FieldValue}
    (hdata : type.Takes data len) (hload : loadValue type data len = .ok (some v)) :
    v.octets = type.widened data ∧ type.accepts v = some v := by
  have hword : ∀ n, data.length = n → data.take n = data := fun n h => by
    rw [← h, List.take_length]
  cases type with
  | ip =>
      obtain ⟨hlength, hlen⟩ := hdata
      simp only [loadValue] at hload
      rw [if_neg (by omega), if_neg (by omega), hword len hlength, Except.ok.injEq,
        Option.some.injEq] at hload
      subst hload
      exact ⟨rfl, if_neg (by omega)⟩
  | bytes | string | mlstring =>
      obtain ⟨hlength, hlen⟩ := hdata
      simp only [loadValue] at hload
      rw [if_neg (by omega), hword len hlength, Except.ok.injEq, Option.some.injEq] at hload
      subst hload
      exact ⟨rfl, by simp only [FieldType.accepts, reduceCtorEq, false_and, if_false]⟩
  | bool =>
      rcases hdata with rfl | rfl <;> cases hload <;> exact ⟨rfl, rfl⟩
  | enum | int32 | uint32 =>
      have hlength : data.length = 4 := hdata
      simp only [loadValue] at hload
      rw [if_neg (by omega), hword 4 hlength, Except.ok.injEq, Option.some.injEq] at hload
      subst hload
      exact ⟨leBytes_word hlength, rfl⟩
  | int16 =>
      have hlength : data.length = 2 := hdata
      simp only [loadValue] at hload
      rw [if_neg (by omega), hword 2 hlength, Except.ok.injEq, Option.some.injEq] at hload
      subst hload
      exact ⟨leBytes_int16 hlength, rfl⟩
  | uint16 =>
      have hlength : data.length = 2 := hdata
      simp only [loadValue] at hload
      rw [if_neg (by omega), hword 2 hlength, Except.ok.injEq, Option.some.injEq] at hload
      subst hload
      exact ⟨leBytes_uint16 hlength, rfl⟩
  | int64 | uint64 | double =>
      have hlength : data.length = 8 := hdata
      simp only [loadValue] at hload
      rw [if_neg (by omega), hword 8 hlength, Except.ok.injEq, Option.some.injEq] at hload
      subst hload
      exact ⟨leBytes_dword hlength, rfl⟩

namespace RawObject

variable {env : RawEnv} {s s' : RawObject} {m : FieldMessage} {field : MsgmodField} {d : FieldDescr}
  {f len : Nat} {i : UInt32} {data : Bytes} {res : Res} {vals vals' : List FieldValue}

theorem setFieldValue_success_iff {vals vals' : List FieldValue} {j : Nat} :
    setFieldValue field vals j data len = .ok (.success, vals') ↔
      ¬ field.IndexRefused vals.length j ∧ ∃ v, loadValue field.type data len = .ok (some v) ∧
        vals' = (if field.OpensSlot vals.length j then vals ++ [v] else vals).set j v := by
  constructor
  · intro hset
    have hindex : ¬ field.IndexRefused vals.length j := by
      intro hindex
      unfold setFieldValue at hset
      rw [makeRoom_eq, if_pos hindex] at hset
      cases hset
    refine ⟨hindex, ?_⟩
    cases hload : loadValue field.type data len with
    | error e =>
        unfold setFieldValue at hset
        rw [makeRoom_eq, if_neg hindex] at hset
        simp only [hload, reduceCtorEq] at hset
    | ok loaded =>
        cases loaded with
        | none =>
            unfold setFieldValue at hset
            rw [makeRoom_eq, if_neg hindex] at hset
            simp only [hload, Except.ok.injEq, Prod.mk.injEq, reduceCtorEq, false_and] at hset
        | some v =>
            rw [setFieldValue_success hindex hload v, Except.ok.injEq, Prod.mk.injEq] at hset
            exact ⟨v, rfl, hset.2.symm⟩
  · rintro ⟨hindex, v, hload, rfl⟩
    exact setFieldValue_success hindex hload v

/-- An index that is not refused is that of a value, or it opens a slot. -/
theorem lt_or_opensSlot {count j : Nat} (hcount : field.label.Allows count)
    (hindex : ¬ field.IndexRefused count j) :
    j < count ∧ ¬ field.OpensSlot count j ∨ j = count ∧ field.OpensSlot count j := by
  unfold MsgmodField.IndexRefused at hindex
  unfold MsgmodField.OpensSlot
  cases hlabel : field.label with
  | repeated =>
      rw [hlabel, if_pos rfl] at hindex
      rcases Nat.lt_or_ge j count with hlt | hge
      · exact Or.inl ⟨hlt, fun h => hlt.ne h.1⟩
      · exact Or.inr ⟨by omega, by omega, Or.inl rfl⟩
  | optional =>
      rw [hlabel, if_neg nofun] at hindex
      rcases Nat.lt_or_ge j count with hlt | hge
      · exact Or.inl ⟨hlt, fun h => hlt.ne h.1⟩
      · exact Or.inr ⟨by omega, by omega, Or.inr ⟨rfl, by omega⟩⟩
  | required =>
      rw [hlabel, if_neg nofun] at hindex
      rw [hlabel] at hcount
      change count = 1 at hcount
      exact Or.inl ⟨by omega, fun h => by omega⟩

/-- What a set that succeeds does to the values of its field. -/
theorem setFieldValue_values (hvals : field.Holds vals) {j : Nat}
    (hset : setFieldValue field vals j data len = .ok (.success, vals')) :
    ∃ v, loadValue field.type data len = .ok (some v) ∧ vals'[j]? = some v ∧
      vals'.length = (if j = vals.length then vals.length + 1 else vals.length) ∧
      ∀ k, k ≠ j → vals'[k]? = vals[k]? := by
  obtain ⟨hindex, v, hload, rfl⟩ := setFieldValue_success_iff.mp hset
  refine ⟨v, hload, ?_⟩
  rcases lt_or_opensSlot hvals.count hindex with ⟨hlt, hopens⟩ | ⟨rfl, hopens⟩
  · rw [if_neg hopens, if_neg hlt.ne]
    exact ⟨List.getElem?_set_self hlt, List.length_set, fun k hk => List.getElem?_set_ne hk.symm⟩
  · rw [if_pos hopens, if_pos rfl, List.length_set, List.length_append]
    refine ⟨List.getElem?_set_self (by simp), rfl, fun k hk => ?_⟩
    rw [List.getElem?_set_ne hk.symm]
    rcases Nat.lt_or_gt_of_ne hk with hlt | hgt
    · exact List.getElem?_append_left hlt
    · rw [List.getElem?_eq_none hgt.le,
        List.getElem?_eq_none (by rw [List.length_append]; exact hgt)]

theorem Holds.holds (h : s.Holds env m) : s.module.mod.Holds m := by
  obtain ⟨_, _, -, -, hmessage⟩ := h.deserialize
  exact hmessage.holds

/-- The values of another field are the same. -/
theorem readOf_set_ne {mod : Msgmod} {f' : Nat} (hne : f' ≠ f) (j : Nat) :
    readOf mod (m.set f vals) f' j = readOf mod m f' j := by
  have hget : (m.set f vals).getD f' [] = m.getD f' [] := by
    rw [List.getD_eq_getElem?_getD, List.getElem?_set_ne (Ne.symm hne), ← List.getD_eq_getElem?_getD]
  rw [readOf, readOf, hget]

/-- Setting a field and getting it: what is set is read afterwards, there is one value more when the
index was the number of values, every other value reads as before, and the call succeeds when the
index is one that there is or the next one of a repeated field. -/
def SetGet (env : RawEnv) (s : RawObject) (f : Nat) (field : MsgmodField) (i : UInt32) (data : Bytes)
    (len : Nat) : Prop :=
  ∃ res s' n, s.setFieldByIdx env f i data len = .ok (res, s') ∧ s.numValues env f = .ok n ∧
    (res = .memfail ∧ OutOfMemory env.alloc field.type n len ∨
      (res = .success ↔ i.toNat ≤ if field.label = .repeated then n else 0) ∧
        (res = .success →
          s'.reads env f i = .ok (.success, some (field.type.widened data)) ∧
            s'.numValues env f = .ok (if i.toNat = n then n + 1 else n) ∧
            ∀ f' i', (f', i') ≠ (f, i) →
              (∀ field', s.module.mod.fields[f']? = some field' → field'.hasGet = false) →
                s'.reads env f' i' = s.reads env f' i'))

/-- **What is set is what is got, unless the count of the field cannot be incremented.** -/
theorem set_get_iff (hlaid : s.module.LaidOut) (h : s.Holds env m)
    (hfield : s.module.FieldAt f field d) (hhidden : field.hidden = false)
    (hdata : field.type.Takes data len) :
    s.SetGet env f field i data len ↔
      ¬ (field.label = .repeated ∧ i.toNat = (m.getD f []).length ∧
        ((m.getD f []).length = 2 ^ 31 - 1 ∨ (m.getD f []).length = 2 ^ 32 - 1)) := by
  constructor
  · rintro ⟨res, s', n, hset, -⟩ ⟨hlabel, hi, hover⟩
    obtain ⟨e, he⟩ : ∃ e, s.setFieldByIdx env f i data len = .error e :=
      h.setFieldByIdx_error hlaid hfield hhidden hlabel hi hover
    rw [he] at hset
    cases hset
  · intro hfits
    obtain ⟨res, s', hset, hdone⟩ := h.setFieldByIdx (i := i) hlaid hfield hhidden hdata
      fun hlabel hi => not_or.mp fun hover => hfits ⟨hlabel, hi, hover⟩
    refine ⟨res, s', _, hset, h.numValues hfield, ?_⟩
    cases hdone with
    | refused hindex =>
        exact Or.inr ⟨iff_of_false nofun (not_le.mpr hindex), nofun⟩
    | memfail hindex hmemory => exact Or.inl ⟨rfl, hmemory⟩
    | set hindex hvals hmodule hholds =>
        refine Or.inr ⟨iff_of_true rfl (not_lt.mp hindex), fun _ => ?_⟩
        have hholds₀ := h.holds
        have hvals₀ := hholds₀.getD hfield.field_eq
        obtain ⟨v, hload, hv, hlength, hframe⟩ := setFieldValue_values hvals₀ hvals
        have hvals' := setFieldValue_holds hvals₀ hvals
        obtain ⟨hoctets, haccepts⟩ := loadValue_widened hdata hload
        have hlt : f < m.length := by
          rw [← hholds₀.length_eq]
          exact (List.getElem?_eq_some_iff.mp hfield.field_eq).1
        have hgetD : ∀ l, (m.set f l).getD f [] = l := fun l => by
          rw [List.getD_eq_getElem?_getD, List.getElem?_set_self hlt, Option.getD_some]
        have hlaid' : s'.module.LaidOut := hmodule ▸ hlaid
        have hfield' : s'.module.FieldAt f field d := hmodule ▸ hfield
        refine ⟨?_, ?_, fun f' i' hne hget => ?_⟩
        · rw [hholds.reads hlaid', readOf, hfield'.field_eq]
          · simp only [hhidden, Bool.false_eq_true, if_false, hgetD, getFieldValue_eq hvals'.count, hv,
              Option.bind_some, haccepts, hoctets]
          · intro field' hfield''
            rw [← Option.some.inj (hfield'.field_eq.symm.trans hfield'')]
            exact hfield.hasGet
        · rw [hholds.numValues hfield', hgetD, hlength]
        · rw [hholds.reads hlaid' (by rwa [hmodule]), h.reads hlaid hget, hmodule]
          by_cases hf : f' = f
          · subst hf
            have hi : i'.toNat ≠ i.toNat := fun heq => hne (by rw [UInt32.toNat_inj.mp heq])
            unfold readOf
            simp only [hfield.field_eq, hgetD, getFieldValue_eq hvals'.count,
              getFieldValue_eq hvals₀.count, hframe _ hi]
          · rw [readOf_set_ne hf]

end RawObject

/-! ### A count that cannot be incremented -/

/-- An allocator with four addresses. -/
def fourBlocks : Allocator where
  find h n := if n < 2 ^ 63 then [16, 32, 48, 64].find? fun a => h.block a = none else none
  junk _ n := List.replicate n 0
  fresh := by
    intro h n a hfind
    split_ifs at hfind
    have hmem := List.mem_of_find?_eq_some hfind
    have hnone := List.find?_some hfind
    refine ⟨?_, of_decide_eq_true hnone⟩
    rintro rfl
    simp at hmem
  bounded := by
    intro h n a hfind
    split_ifs at hfind with hlt
    exact hlt
  length_junk := fun _ n => List.length_replicate

def rawSampleEnv : RawEnv :=
  ⟨fourBlocks, fun _ _ => none, fun _ _ _ => .ok (.failure, none)⟩

def countsField : MsgmodField :=
  ⟨.uint32, [0x6e], .repeated, false, false, false, []⟩

/-- A module whose messages have a list of numbers. -/
def countsModule : RawModule :=
  ⟨⟨1, 1, [countsField], fun _ => [], fun _ => none⟩, [⟨.uint32, 0, 8⟩]⟩

/-- A message of `n` zeros. -/
def counts (n : Nat) : RawObject where
  module := countsModule
  message := 16
  np := none
  updated := true
  heap := ⟨fun a => if a = 16 then some (leBytes 8 32 ++ (leBytes 4 n ++ [0, 0, 0, 0]))
    else if a = 32 then some (List.replicate (4 * n) 0) else none⟩

theorem countsModule_fieldAt {f : Nat} {field : MsgmodField} {d : FieldDescr}
    (h : countsModule.FieldAt f field d) : f = 0 ∧ field = countsField ∧ d = ⟨.uint32, 0, 8⟩ := by
  have hlt := (List.getElem?_eq_some_iff.mp h.field_eq).1
  obtain rfl : f = 0 := Nat.lt_one_iff.mp hlt
  exact ⟨rfl, (Option.some.inj h.field_eq).symm, (Option.some.inj h.descr_eq).symm⟩

theorem countsModule_laidOut : countsModule.LaidOut where
  descr := by
    intro f field hfield _
    have hlt := (List.getElem?_eq_some_iff.mp hfield).1
    obtain rfl : f = 0 := Nat.lt_one_iff.mp hlt
    exact ⟨_, rfl⟩
  type_eq := by
    intro f field d h
    obtain ⟨-, rfl, rfl⟩ := countsModule_fieldAt h
    rfl
  within := by
    intro f field d h
    obtain ⟨-, rfl, rfl⟩ := countsModule_fieldAt h
    exact List.pairwise_pair.mpr (Or.inl le_rfl)
  apart := by
    intro f field d f' field' d' h h' hne
    rw [(countsModule_fieldAt h).1, (countsModule_fieldAt h').1] at hne
    exact absurd rfl hne

theorem counts_load {n k len : Nat} {b : Bytes}
    (hblock : k + len ≤ 16 ∧ ((leBytes 8 32 ++ (leBytes 4 n ++ [0, 0, 0, 0])).drop k).take len = b) :
    (counts n).heap.load ⟨16, k⟩ len = some b := by
  refine load_eq_some_iff.mpr ⟨_, rfl, Memory.read_eq_some.mpr ⟨?_, hblock.2.symm⟩⟩
  rw [List.length_append, List.length_append, length_leBytes, length_leBytes]
  exact hblock.1

theorem counts_holds {n : Nat} (hn : n < 2 ^ 32) :
    (counts n).Holds rawSampleEnv [List.replicate n (.word 0)] := by
  left
  refine ⟨fun a => if a = 16 then some .message else if a = 32 then some (.array 0) else none,
    nofun, rfl, ?_, ?_⟩
  · refine List.Forall₂.cons ⟨trivial, fun v hv => ?_⟩ List.Forall₂.nil
    rw [List.eq_of_mem_replicate hv]
    exact FieldType.zero_ofType .uint32
  · intro f field d hfield
    obtain ⟨rfl, rfl, rfl⟩ := countsModule_fieldAt hfield
    have hcount : (([List.replicate n (FieldValue.word 0)] : FieldMessage).getD 0 []).length = n :=
      List.length_replicate
    rw [hcount]
    refine ⟨⟨32, 0⟩, List.replicate n (.word 0), ⟨?_, ?_, ?_⟩, ?_⟩
    · refine ⟨rfl, List.length_replicate, hn, ?_, ?_, Or.inr ⟨by decide, rfl, _, rfl, ?_⟩⟩
      · apply counts_load
        rw [drop_append_of_length (length_leBytes ..), take_append_of_length (length_leBytes ..)]
        exact ⟨by decide, rfl⟩
      · apply counts_load
        rw [List.drop_zero, take_append_of_length (length_leBytes ..)]
        exact ⟨by decide, rfl⟩
      · rw [List.length_replicate, Nat.mul_comm]
        exact le_rfl
    · intro v hv
      rw [List.eq_of_mem_replicate hv]
      exact FieldType.zero_ofType .uint32
    · intro j v hv
      obtain ⟨hj, hv⟩ := List.getElem?_eq_some_iff.mp hv
      rw [List.length_replicate] at hj
      rw [List.getElem_replicate] at hv
      subst hv
      refine ⟨load_eq_some_iff.mpr ⟨_, rfl, Memory.read_eq_some.mpr ⟨?_, ?_⟩⟩, nofun⟩
      · change 0 + 4 * j + 4 ≤ _
        rw [List.length_replicate]
        omega
      · change _ = ((List.replicate (4 * n) (0 : UInt8)).drop (0 + 4 * j)).take 4
        rw [List.drop_replicate, List.take_replicate, min_eq_left (by omega)]
        rfl
    · change List.replicate n (FieldValue.word 0) = _
      rw [List.take_of_length_le List.length_replicate.le]

namespace RawObject

theorem set_get_iff_sample :
    (counts 1).SetGet rawSampleEnv 0 countsField 1 [5, 0, 0, 0] 4 ↔
      ¬ (countsField.label = .repeated ∧ (1 : UInt32).toNat = 1 ∧
        (1 = 2 ^ 31 - 1 ∨ 1 = 2 ^ 32 - 1)) :=
  set_get_iff countsModule_laidOut (counts_holds (by decide)) ⟨rfl, rfl, rfl⟩ rfl rfl

/-- One more value in a field that has as many as an `int` can count. -/
theorem count_overflows :
    (counts (2 ^ 31 - 1)).module.LaidOut ∧
      (counts (2 ^ 31 - 1)).Holds rawSampleEnv [List.replicate (2 ^ 31 - 1) (.word 0)] ∧
      countsField.type.Takes [1, 0, 0, 0] 4 ∧
      ¬ (counts (2 ^ 31 - 1)).SetGet rawSampleEnv 0 countsField 0x7fffffff [1, 0, 0, 0] 4 := by
  have hholds : (counts (2 ^ 31 - 1)).Holds rawSampleEnv [List.replicate (2 ^ 31 - 1) (.word 0)] :=
    counts_holds (by decide)
  refine ⟨countsModule_laidOut, hholds, rfl, ?_⟩
  rintro ⟨res, s', n, hset, -⟩
  have hcount : (([List.replicate (2 ^ 31 - 1) (FieldValue.word 0)] : FieldMessage).getD 0 []).length =
      2 ^ 31 - 1 := List.length_replicate
  obtain ⟨e, he⟩ := hholds.setFieldByIdx_error (i := 0x7fffffff) countsModule_laidOut
    ⟨rfl, rfl, rfl⟩ rfl rfl hcount.symm (Or.inl hcount)
  rw [he] at hset
  cases hset

end RawObject

end Nmsg

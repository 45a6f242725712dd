import Nmsg.Proof.RawSlot

/-!
# Making room for a value

A slot that is there stays where it is. For one more value of a repeated field the array is made
larger by one slot of zeros, and the values in it go along.
-/

namespace Nmsg

open Heap Octets

section Room

variable {A : Allocator} {mod : RawModule} {heap heap' heap₁ : Heap}
  {owners owners' : UInt64 → Option BlockOwner} {msg a a' : UInt64} {field : MsgmodField}
  {d : FieldDescr} {f n count used needed size : Nat} {base p : Pointer} {slots : List FieldValue}
  {type : FieldType} {i q : UInt32} {blk : Bytes} {vals : List FieldValue}

/-! ### Counts -/

theorem FieldType.slotSize_cases (type : FieldType) :
    type.slotSize = 4 ∨ type.slotSize = 8 ∨ type.slotSize = 16 := by
  cases type <;> simp [FieldType.slotSize, FieldType.protobuf, sizeofEltInRepeatedArray]

theorem FieldType.slotSize_pos (type : FieldType) : 0 < type.slotSize := by
  have := type.slotSize_cases
  omega

/-- The size that is asked for when there are so many values. -/
def arrayBytes (type : FieldType) (count : UInt32) : Nat :=
  sizeOfInt count * type.slotSize % 2 ^ 64

theorem arrayBytes_of_lt (hlt : q.toNat < 2 ^ 31) : arrayBytes type q = q.toNat * type.slotSize := by
  have := type.slotSize_cases
  rw [arrayBytes, sizeOfInt, if_pos hlt]
  apply Nat.mod_eq_of_lt
  rcases this with h | h | h <;> rw [h] <;> omega

/-- A count that is not negative as an `int` becomes larger by one slot. -/
theorem arrayBytes_succ (hlt : q.toNat < 2 ^ 31 - 1) :
    (q + 1).toNat = q.toNat + 1 ∧ arrayBytes type (q + 1) = arrayBytes type q + type.slotSize := by
  have hsucc : (q + 1).toNat = q.toNat + 1 := by
    rw [UInt32.toNat_add]
    change (q.toNat + 1) % 2 ^ 32 = _
    omega
  refine ⟨hsucc, ?_⟩
  rw [arrayBytes_of_lt (by omega), arrayBytes_of_lt (by omega), hsucc, Nat.succ_mul]

/-- With a negative count there is never enough memory. -/
theorem arrayBytes_succ_of_neg (hle : 2 ^ 31 ≤ q.toNat) (hne : q.toNat ≠ 2 ^ 32 - 1) :
    arrayBytes type q < arrayBytes type (q + 1) ∧ 2 ^ 63 ≤ arrayBytes type (q + 1) := by
  have hlt := q.toNat_lt
  have hsucc : (q + 1).toNat = q.toNat + 1 := by
    rw [UInt32.toNat_add]
    change (q.toNat + 1) % 2 ^ 32 = _
    omega
  have hsize := type.slotSize_cases
  rw [arrayBytes, arrayBytes, sizeOfInt, sizeOfInt, if_neg (by omega), if_neg (by omega), hsucc]
  rcases hsize with h | h | h <;> rw [h] <;> omega

theorem arrayBytes_succ_of_last (hlast : q.toNat = 2 ^ 32 - 1) :
    arrayBytes type (q + 1) < arrayBytes type q := by
  have hsucc : (q + 1).toNat = 0 := by
    rw [UInt32.toNat_add]
    change (q.toNat + 1) % 2 ^ 32 = _
    omega
  have hsize := type.slotSize_cases
  rw [arrayBytes, arrayBytes, sizeOfInt, sizeOfInt, hsucc, hlast]
  rcases hsize with h | h | h <;> rw [h] <;> decide

theorem loadCount_of_load (hload : heap.load ⟨msg, d.quantifierOffset⟩ 4 = some (leBytes 4 n))
    (hlt : n < 2 ^ 32) : loadCount heap msg d = .ok (.ofNat n) := by
  have hlt' : n < 256 ^ 4 := hlt
  rw [loadCount, loadNat, loadAt, hload]
  simp only [Except.map, leNat_leBytes hlt']

/-! ### A larger array -/

/-- The flag or count and the pointer of the field are in the structure. -/
theorem structure_of_loads {b c : Bytes} {k : Nat}
    (hcount : heap.load ⟨msg, d.quantifierOffset⟩ 4 = some b)
    (hslot : heap.load ⟨msg, d.offset⟩ k = some c) :
    ∃ blk, heap.block msg = some blk ∧ d.quantifierOffset + 4 ≤ blk.length ∧
      d.offset + k ≤ blk.length := by
  obtain ⟨blk, hblock, hle⟩ := block_of_load hcount
  obtain ⟨blk', hblock', hle'⟩ := block_of_load hslot
  obtain rfl := Option.some.inj (hblock.symm.trans hblock')
  exact ⟨blk, hblock, hle, hle'⟩

theorem reallocArray_memfail (hblock : heap.block msg = some blk)
    (hcount : d.quantifierOffset + 4 ≤ blk.length) (hslot : d.offset + 8 ≤ blk.length)
    (harray : a = 0 ∨ a ≠ msg ∧ heap.block a ≠ none) (hnone : realloc A heap a needed = none) :
    ∃ heap', reallocArray A heap msg d a used needed = .ok (none, heap') := by
  obtain ⟨heap₁, hfree, hblock₁⟩ :
      ∃ heap₁, freeAt heap a = .ok heap₁ ∧ heap₁.block msg = some blk := by
    rcases harray with rfl | ⟨hne, hsome⟩
    · exact ⟨heap, if_pos rfl, hblock⟩
    · obtain ⟨b, hb⟩ := Option.ne_none_iff_exists'.mp hsome
      by_cases hzero : a = 0
      · exact ⟨heap, if_pos hzero, hblock⟩
      · refine ⟨heap.remove a, ?_, (block_remove_of_ne hne.symm).trans hblock⟩
        rw [freeAt, if_neg hzero, free_of_block hb]
  obtain ⟨heap₂, hstore₂⟩ :
      ∃ heap₂, heap₁.store ⟨msg, d.quantifierOffset⟩ (leBytes 4 0) = some heap₂ :=
    exists_store hblock₁ (by rw [length_leBytes]; exact hcount)
  obtain ⟨blk₂, hblock₂, hlength₂⟩ := length_of_store hstore₂ hblock₁
  obtain ⟨heap₃, hstore₃⟩ : ∃ heap₃, heap₂.store ⟨msg, d.offset⟩ (leBytes 8 0) = some heap₃ := by
    refine exists_store hblock₂ ?_
    rw [length_leBytes, hlength₂]
    exact hslot
  have hvalid : ¬ (a ≠ 0 ∧ heap.block a = none) := by
    rintro ⟨hne, hfalse⟩
    exact (harray.resolve_left hne).2 hfalse
  refine ⟨heap₃, ?_⟩
  rw [reallocArray, if_neg hvalid]
  simp only [hnone, hfree, storeAt_of_store hstore₂, storeAt_of_store hstore₃, bind, Except.bind, pure,
    Except.pure]

theorem growArray_of_ne (hne : i ≠ q)
    (hload : heap.load ⟨msg, d.offset⟩ 8 = some (leBytes 8 a.toNat)) :
    growArray A heap msg d q i =
      .ok (.slot ⟨a, sizeofEltInRepeatedArray d.type * i.toNat⟩, heap) := by
  unfold growArray
  simp only [hne, false_and, if_false, loadPointer_of_load hload, bind, Except.bind, pure,
    Except.pure, gt_iff_lt, lt_irrefl]

theorem growArray_of_max (h : q.toNat = 2 ^ 31 - 1) :
    growArray A heap msg d q q = .error .signedOverflow := by
  unfold growArray
  simp only [h, and_self, if_true]

theorem growArray_of_last (htype : d.type = type.protobuf) (h : q.toNat = 2 ^ 32 - 1)
    (hstore : heap.store ⟨msg, d.quantifierOffset⟩ (leBytes 4 (q + 1).toNat) = some heap₁) :
    growArray A heap msg d q q = .error .assertion := by
  have hlt : arrayBytes type (q + 1) < arrayBytes type q := arrayBytes_succ_of_last h
  unfold arrayBytes FieldType.slotSize at hlt
  have hmax : q.toNat ≠ 2 ^ 31 - 1 := by omega
  unfold growArray
  simp only [hmax, and_false, if_false, if_true, storeAt_of_store hstore, bind, Except.bind, htype,
    gt_iff_lt, hlt]

theorem growArray_of_lt (htype : d.type = type.protobuf) (hmax : q.toNat ≠ 2 ^ 31 - 1)
    (hlt : arrayBytes type q < arrayBytes type (q + 1))
    (hstore : heap.store ⟨msg, d.quantifierOffset⟩ (leBytes 4 (q + 1).toNat) = some heap₁)
    (hload : heap₁.load ⟨msg, d.offset⟩ 8 = some (leBytes 8 a.toNat)) :
    growArray A heap msg d q q =
      (reallocArray A heap₁ msg d a (arrayBytes type q) (arrayBytes type (q + 1))).map
        fun (array, heap) =>
          match array with
          | none => (.refused .memfail, heap)
          | some array => (.slot ⟨array, type.slotSize * q.toNat⟩, heap) := by
  unfold arrayBytes FieldType.slotSize at hlt ⊢
  unfold growArray
  simp only [hmax, and_false, if_false, if_true, storeAt_of_store hstore, bind, Except.bind, pure,
    Except.pure, gt_iff_lt, htype, hlt, hlt.not_gt, loadPointer_of_load hload]
  cases reallocArray A heap₁ msg d a (sizeOfInt q * sizeofEltInRepeatedArray type.protobuf % 2 ^ 64)
    (sizeOfInt (q + 1) * sizeofEltInRepeatedArray type.protobuf % 2 ^ 64) with
  | error e => rfl
  | ok out =>
      obtain ⟨array, heap₂⟩ := out
      cases array <;> rfl

/-- The array at `a` has gone to `a'`, with room for `needed` octets, and the structure points to it. -/
structure Enlarged (heap heap' : Heap) (msg : UInt64) (d : FieldDescr) (a a' : UInt64) (old : Bytes)
    (used needed : Nat) : Prop where
  ne_zero : a' ≠ 0
  ne_msg : a' ≠ msg
  fresh : a' = a ∨ heap.block a' = none
  block : ∃ b, heap'.block a' = some b ∧ b.length = needed
  kept : ∀ j n, 0 < n → j + n ≤ used → used ≤ old.length →
    heap'.load ⟨a', j⟩ n = Memory.read old j n
  zeros : heap'.load ⟨a', used⟩ (needed - used) = some (List.replicate (needed - used) 0)
  pointer : heap'.load ⟨msg, d.offset⟩ 8 = some (leBytes 8 a'.toNat)
  loads : ∀ r n, ApartFrom (r, n) (d.offset, 8) → heap'.load ⟨msg, r⟩ n = heap.load ⟨msg, r⟩ n
  blocks : ∀ c, c ≠ a' → c ≠ msg → c ≠ a ∨ a = 0 → heap'.block c = heap.block c

theorem reallocArray_some {old : Bytes} (hblock : heap.block msg = some blk)
    (hslot : d.offset + 8 ≤ blk.length) (hne : a ≠ msg)
    (hold : a = 0 ∧ old = [] ∨ a ≠ 0 ∧ heap.block a = some old) (hle : used ≤ needed)
    (hrealloc : realloc A heap a needed = some (a', heap₁)) :
    ∃ heap', reallocArray A heap msg d a used needed = .ok (some a', heap') ∧
      Enlarged heap heap' msg d a a' old used needed := by
  obtain ⟨hne', hfresh, b, hb, hlength, hstart, hothers⟩ := realloc_eq_some hrealloc hold
  have hmsg' : a' ≠ msg := by
    rcases hfresh with rfl | hnone
    · exact hne
    · rintro rfl
      rw [hblock] at hnone
      cases hnone
  have hblock₁ : heap₁.block msg = heap.block msg := hothers msg hmsg'.symm (Or.inl hne.symm)
  obtain ⟨heap₂, hstore₂⟩ :
      ∃ heap₂, heap₁.store ⟨msg, d.offset⟩ (leBytes 8 a'.toNat) = some heap₂ :=
    exists_store (hblock₁.trans hblock) (by rw [length_leBytes]; exact hslot)
  have hb₂ : heap₂.block a' = some b := (block_of_store hstore₂ hmsg').trans hb
  obtain ⟨heap₃, hstore₃⟩ :
      ∃ heap₃, heap₂.store ⟨a', used⟩ (List.replicate (needed - used) 0) = some heap₃ := by
    refine exists_store hb₂ ?_
    rw [List.length_replicate, hlength]
    dsimp only
    omega
  have hvalid : ¬ (a ≠ 0 ∧ heap.block a = none) := by
    rintro ⟨hzero, hnone⟩
    rw [(hold.resolve_left fun h => hzero h.1).2] at hnone
    cases hnone
  refine ⟨heap₃, ?_, hne', hmsg', hfresh, ?_, ?_, ?_, ?_, ?_, ?_⟩
  · rw [reallocArray, if_neg hvalid]
    simp only [hrealloc, storeAt_of_store hstore₂, storeAt_of_store hstore₃, bind, Except.bind, pure,
      Except.pure]
  · obtain ⟨b', hb', hlength'⟩ := length_of_store hstore₃ hb₂
    exact ⟨b', hb', hlength'.trans hlength⟩
  · intro j n hpos hused hfits
    rw [load_of_store_ne hstore₃ (Or.inr (Or.inl hused)), Heap.load, hb₂, Option.bind_some]
    apply Memory.read_congr_of_pos hpos
    intro k _ hk
    change k < j + n at hk
    have hget : (b.take old.length)[k]? = (old.take needed)[k]? := by rw [hstart]
    rwa [List.getElem?_take_of_lt (by omega), List.getElem?_take_of_lt (by omega)] at hget
  · have hzeros := load_of_store hstore₃
    rwa [List.length_replicate] at hzeros
  · rw [load_of_store_ne hstore₃ (Or.inl hmsg'.symm)]
    have hpointer := load_of_store hstore₂
    rwa [length_leBytes] at hpointer
  · intro r n hapart
    rw [load_of_store_ne hstore₃ (Or.inl hmsg'.symm), load_of_store_ne hstore₂]
    · exact load_congr hblock₁
    · right
      rw [length_leBytes]
      exact hapart
  · intro c hc hcmsg hca
    rw [block_of_store hstore₃ hc, block_of_store hstore₂ hcmsg, hothers c hc hca]

theorem FieldType.zero_slot (h : heap.load p type.slotSize = some (List.replicate type.slotSize 0))
    (o : BlockOwner) : SlotHolds heap owners o p type type.zero := by
  cases type with
  | ip | bytes | string | mlstring => exact ⟨by decide, 0, h, Or.inl ⟨rfl, rfl⟩⟩
  | bool => exact ⟨h, fun _ => by decide⟩
  | enum | int16 | uint16 | int32 | uint32 => exact ⟨h, nofun⟩
  | int64 | uint64 | double => exact h

/-- The slots of a repeated field in a larger array, with one more value that is zero. -/
theorem FieldSlots.grow (hlaid : mod.LaidOut) (hfield : mod.FieldAt f field d)
    (hlabel : field.label = .repeated) (howner : owners msg = some .message)
    (hslots : FieldSlots heap owners msg field d f base slots count) {old : Bytes}
    (hold : base.block = 0 ∧ old = [] ∨ base.block ≠ 0 ∧ heap.block base.block = some old)
    (hlt : count + 1 < 2 ^ 32)
    (hstore : heap.store ⟨msg, d.quantifierOffset⟩ (leBytes 4 (count + 1)) = some heap₁)
    (hlarge : Enlarged heap₁ heap' msg d base.block a' old (count * field.type.slotSize)
      ((count + 1) * field.type.slotSize)) :
    FieldChange mod heap owners heap' (Function.update owners a' (some (.array f))) msg f ∧
      FieldSlots heap' (Function.update owners a' (some (.array f))) msg field d f ⟨a', 0⟩
        (slots ++ [field.type.zero]) (count + 1) := by
  have hregions : regions field d = [(d.offset, 8), (d.quantifierOffset, 4)] := by
    rw [regions, hlabel]
  have hbased := hslots.based
  unfold Based at hbased
  simp only [hlabel] at hbased
  obtain ⟨hoffset, hlength, hcount, hload, harray, hat⟩ := hbased
  have hbase : base.block = 0 ∨ owners base.block = some (.array f) := by
    rcases hat with ⟨hzero, -⟩ | ⟨-, harray, -⟩
    · exact Or.inl hzero
    · exact Or.inr harray
  -- A block of another owner is neither the structure nor the array, old or new.
  have hother : ∀ c o, owners c = some o → o ≠ .message → o ≠ .array f → heap₁.block c ≠ none →
      c ≠ a' ∧ c ≠ msg ∧ (c ≠ base.block ∨ base.block = 0) := by
    intro c o hc hmessage harrayf hsome
    have hcbase : c ≠ base.block ∨ base.block = 0 := by
      rcases hbase with hzero | hbase
      · exact Or.inr hzero
      · left
        rintro rfl
        exact harrayf (Option.some.inj (hc.symm.trans hbase))
    refine ⟨?_, ?_, hcbase⟩
    · rintro rfl
      rcases hlarge.fresh with heq | hnone
      · exact hlarge.ne_zero (heq.trans (hcbase.resolve_left fun hne => hne heq))
      · exact hsome hnone
    · rintro rfl
      exact hmessage (Option.some.inj (hc.symm.trans howner))
  have hsame : ∀ o, o ≠ .message → o ≠ .array f →
      SameBlocks heap owners heap' (Function.update owners a' (some (.array f))) o := by
    intro o hmessage harrayf c hc hsome
    have hcmsg : c ≠ msg := by
      rintro rfl
      exact hmessage (Option.some.inj (hc.symm.trans howner))
    have hc₁ : heap₁.block c = heap.block c := block_of_store hstore hcmsg
    obtain ⟨hnew, -, hcbase⟩ := hother c o hc hmessage harrayf (by rwa [hc₁])
    exact ⟨(hlarge.blocks c hnew hcmsg hcbase).trans hc₁, by rwa [Function.update_of_ne hnew]⟩
  have hwithin : ApartFrom (d.quantifierOffset, 4) (d.offset, 8) := by
    have hpair := hlaid.within hfield
    rw [hregions, List.pairwise_cons] at hpair
    exact (hpair.1 _ (List.mem_singleton_self _)).symm
  refine ⟨⟨?_, ?_, ?_⟩, ?_, ?_, ?_⟩
  · intro f' field' d' hfield' hne r hr
    have hapart := hlaid.apart hfield hfield' hne
    rw [hregions] at hapart
    rw [hlarge.loads r.1 r.2 (hapart _ List.mem_cons_self r hr).symm]
    apply load_of_store_ne hstore
    right
    rw [length_leBytes]
    exact (hapart _ (List.mem_cons_of_mem _ (List.mem_singleton_self _)) r hr).symm
  · intro o f' ho hne
    apply hsame
    · rintro rfl
      cases ho
    · rintro rfl
      exact hne (Option.some.inj ho).symm
  · exact Function.update_of_ne hlarge.ne_msg.symm ..
  · unfold Based
    simp only [hlabel]
    refine ⟨trivial, by rw [List.length_append, hlength]; rfl, hlt, ?_, hlarge.pointer,
      Or.inr ⟨hlarge.ne_zero, Function.update_self .., ?_⟩⟩
    · rw [hlarge.loads _ _ hwithin]
      have hcount' := load_of_store hstore
      rwa [length_leBytes] at hcount'
    · obtain ⟨b, hb, hb'⟩ := hlarge.block
      exact ⟨b, hb, hb'.ge⟩
  · intro v hv
    rcases List.mem_append.mp hv with hv | hv
    · exact hslots.ofType v hv
    · rw [List.mem_singleton.mp hv]
      exact FieldType.zero_ofType _
  · intro j v hv
    have hjv : ∀ k, (⟨a', 0⟩ : Pointer).add k = ⟨a', k⟩ := fun k => by rw [Pointer.add, Nat.zero_add]
    rw [hjv]
    rcases Nat.lt_or_ge j slots.length with hj | hj
    · rw [List.getElem?_append_left hj] at hv
      refine (hslots.holds j v hv).congr (hslots.ofType v (List.mem_of_getElem? hv)) ?_
        (hsame _ (by rintro ⟨⟩) (by rintro ⟨⟩))
      rcases hat with ⟨-, hzero⟩ | ⟨hne, -, blk, hblk, hfits⟩
      · omega
      · obtain rfl := Option.some.inj ((hold.resolve_left fun h => hne h.1).2.symm.trans hblk)
        have hle : field.type.slotSize * j + field.type.slotSize ≤ count * field.type.slotSize := by
          rw [← Nat.mul_succ, Nat.mul_comm count]
          exact Nat.mul_le_mul_left _ (by omega)
        rw [hlarge.kept _ _ field.type.slotSize_pos hle hfits, Heap.load]
        change _ = (heap.block base.block).bind _
        rw [hblk, Option.bind_some, Pointer.add, hoffset, Nat.zero_add]
    · have hj' : j = slots.length := by
        have hlt' := (List.getElem?_eq_some_iff.mp hv).1
        rw [List.length_append, List.length_singleton] at hlt'
        omega
      subst hj'
      rw [List.getElem?_concat_length, Option.some.injEq] at hv
      subst hv
      apply FieldType.zero_slot
      have hzeros := hlarge.zeros
      rwa [← Nat.sub_mul, Nat.add_sub_cancel_left, Nat.one_mul, Nat.mul_comm, ← hlength] at hzeros

/-- An optional field with its flag set. -/
theorem FieldSlots.flag (hlaid : mod.LaidOut) (hfield : mod.FieldAt f field d)
    (hlabel : field.label = .optional) (howner : owners msg = some .message)
    (hslots : FieldSlots heap owners msg field d f base slots count)
    (hstore : heap.store ⟨msg, d.quantifierOffset⟩ (leBytes 4 1) = some heap') :
    FieldSlots heap' owners msg field d f base slots 1 := by
  have hbased := hslots.based
  have hwithin := hlaid.within hfield
  unfold Based at hbased
  unfold regions at hwithin
  simp only [hlabel, List.pairwise_cons, List.forall_mem_cons] at hbased hwithin
  obtain ⟨rfl, hlength, -, -⟩ := hbased
  refine ⟨?_, hslots.ofType, fun j v hv => ?_⟩
  · unfold Based
    simp only [hlabel]
    have hflag := load_of_store hstore
    rw [length_leBytes] at hflag
    exact ⟨trivial, hlength, le_rfl, hflag⟩
  · have hlt := (List.getElem?_eq_some_iff.mp hv).1
    obtain rfl : j = 0 := by omega
    refine (hslots.holds 0 v hv).congr (hslots.ofType v (List.mem_of_getElem? hv)) ?_ ?_
    · apply load_of_store_ne hstore
      right
      rw [length_leBytes]
      exact hwithin.1.1
    · intro c hc _
      refine ⟨block_of_store hstore ?_, hc⟩
      rintro rfl
      obtain heq := howner.symm.trans hc
      cases heq

/-- There is a slot for the value among those of the field, or there is none and the call ends. -/
inductive RoomMade (A : Allocator) (mod : RawModule) (heap : Heap)
    (owners : UInt64 → Option BlockOwner) (msg : UInt64) (field : MsgmodField) (d : FieldDescr)
    (f : Nat) (vals : List FieldValue) (i : UInt32) : Room → Heap → Prop where
  | refused (hrefused : field.IndexRefused vals.length i.toNat) :
      RoomMade A mod heap owners msg field d f vals i (.refused .failure) heap
  | memfail {heap' : Heap} (hrefused : ¬ field.IndexRefused vals.length i.toNat)
      (hnone : ∃ h, A.find h (arrayBytes field.type (.ofNat (vals.length + 1))) = none) :
      RoomMade A mod heap owners msg field d f vals i (.refused .memfail) heap'
  | slot {heap' : Heap} {owners' : UInt64 → Option BlockOwner} (base : Pointer)
      (slots vals' : List FieldValue) (v : FieldValue)
      (hrefused : ¬ field.IndexRefused vals.length i.toNat)
      (hchange : FieldChange mod heap owners heap' owners' msg f)
      (hslots : FieldSlots heap' owners' msg field d f base slots vals'.length)
      (hvals : vals' = slots.take vals'.length) (hi : i.toNat < slots.length)
      (hopens : vals' = if field.OpensSlot vals.length i.toNat then vals ++ [v] else vals) :
      RoomMade A mod heap owners msg field d f vals i
        (.slot (base.add (field.type.slotSize * i.toNat))) heap'

theorem makeRoomAt_required (hlabel : field.label = .required)
    (hslots : FieldSlots heap owners msg field d f base slots vals.length)
    (hvals : vals = slots.take vals.length) :
    ∃ room heap', makeRoomAt A heap msg field d i = .ok (room, heap') ∧
      RoomMade A mod heap owners msg field d f vals i room heap' := by
  have hbased := hslots.based
  unfold Based at hbased
  simp only [hlabel] at hbased
  obtain ⟨rfl, hlength, hcount⟩ := hbased
  unfold makeRoomAt
  simp only [hlabel, pure, Except.pure]
  by_cases hi : i > 0
  · rw [if_pos hi]
    refine ⟨_, _, rfl, .refused ?_⟩
    rw [MsgmodField.IndexRefused, hlabel, if_neg (by rintro ⟨⟩)]
    exact UInt32.lt_iff_toNat_lt.mp hi
  · obtain rfl : i = 0 := UInt32.le_zero_iff.mp (UInt32.not_lt.mp hi)
    rw [if_neg hi]
    have hopens : ¬ field.OpensSlot vals.length (0 : UInt32).toNat := by
      rintro ⟨hzero, -⟩
      rw [hcount] at hzero
      cases hzero
    refine ⟨_, _, rfl, .slot ⟨msg, d.offset⟩ slots vals (.word 0) ?_ FieldChange.refl hslots hvals ?_ ?_⟩
    · rw [MsgmodField.IndexRefused, hlabel, if_neg (by rintro ⟨⟩)]
      exact lt_irrefl 0
    · rw [hlength]
      exact Nat.one_pos
    · rw [if_neg hopens]

theorem makeRoomAt_optional (hlaid : mod.LaidOut) (hfield : mod.FieldAt f field d)
    (hlabel : field.label = .optional) (howner : owners msg = some .message)
    (hslots : FieldSlots heap owners msg field d f base slots vals.length)
    (hvals : vals = slots.take vals.length) :
    ∃ room heap', makeRoomAt A heap msg field d i = .ok (room, heap') ∧
      RoomMade A mod heap owners msg field d f vals i room heap' := by
  have hbased := hslots.based
  unfold Based at hbased
  simp only [hlabel] at hbased
  obtain ⟨rfl, hlength, hcount, hload⟩ := hbased
  by_cases hi : i > 0
  · have hne : i ≠ 0 := UInt32.pos_iff_ne_zero.mp hi
    refine ⟨.refused .failure, heap, ?_, .refused ?_⟩
    · simp only [makeRoomAt, hlabel, hne, if_false, if_pos hi, bind, Except.bind, pure, Except.pure]
    · rw [MsgmodField.IndexRefused, hlabel, if_neg (by rintro ⟨⟩)]
      exact UInt32.lt_iff_toNat_lt.mp hi
  · obtain rfl : i = 0 := UInt32.le_zero_iff.mp (UInt32.not_lt.mp hi)
    obtain ⟨blk, hblock, hle⟩ := block_of_load hload
    obtain ⟨heap', hstore⟩ :
        ∃ heap', heap.store ⟨msg, d.quantifierOffset⟩ (leBytes 4 1) = some heap' :=
      exists_store hblock (by rwa [length_leBytes])
    have hregion : (d.quantifierOffset, 4) ∈ regions field d := by
      rw [regions, hlabel]
      exact List.mem_cons_of_mem _ (List.mem_singleton_self _)
    obtain ⟨w, hw⟩ := List.length_eq_one_iff.mp hlength
    refine ⟨.slot ⟨msg, d.offset⟩, heap', ?_, ?_⟩
    · simp only [makeRoomAt, hlabel, if_true, if_neg hi, storeAt_of_store hstore, bind, Except.bind,
        pure, Except.pure]
    · refine .slot ⟨msg, d.offset⟩ slots slots w ?_
        (FieldChange.store (k := 0) hlaid hfield howner hregion hstore ?_) ?_ ?_ ?_ ?_
      · rw [MsgmodField.IndexRefused, hlabel, if_neg (by rintro ⟨⟩)]
        exact lt_irrefl 0
      · rw [length_leBytes]
      · rw [hlength]
        exact hslots.flag hlaid hfield hlabel howner hstore
      · rw [List.take_length]
      · rw [hlength]
        exact Nat.one_pos
      · rcases Nat.lt_or_ge 0 vals.length with hpos | hzero
        · have hopens : ¬ field.OpensSlot vals.length (0 : UInt32).toNat := by
            rintro ⟨heq, -⟩
            exact hpos.ne heq
          rw [if_neg hopens, hvals, show vals.length = slots.length by omega, List.take_length]
        · obtain rfl := List.eq_nil_of_length_eq_zero (Nat.le_zero.mp hzero)
          rw [if_pos ⟨rfl, Or.inr ⟨hlabel, rfl⟩⟩, hw]
          rfl

/-- One more slot for a repeated field. -/
theorem growArray_spec (hlaid : mod.LaidOut) (hfield : mod.FieldAt f field d)
    (hlabel : field.label = .repeated) (howner : owners msg = some .message) (hmsg : msg ≠ 0)
    (hslots : FieldSlots heap owners msg field d f base slots vals.length)
    (hvals : vals = slots.take vals.length) (hq : q.toNat = vals.length)
    (hmax : vals.length ≠ 2 ^ 31 - 1) (hlast : vals.length ≠ 2 ^ 32 - 1) :
    ∃ room heap', growArray A heap msg d q q = .ok (room, heap') ∧
      RoomMade A mod heap owners msg field d f vals q room heap' := by
  have hbased := hslots.based
  have hwithin := hlaid.within hfield
  unfold Based at hbased
  unfold regions at hwithin
  simp only [hlabel, List.pairwise_cons, List.forall_mem_cons] at hbased hwithin
  obtain ⟨hoffset, hlength, hlt, hcount, harray, hat⟩ := hbased
  obtain ⟨blk, hblock, hqle, hole⟩ := structure_of_loads hcount harray
  have hnot : ¬ field.IndexRefused vals.length q.toNat := by
    rw [MsgmodField.IndexRefused, hlabel, if_pos rfl, hq]
    exact lt_irrefl _
  have hopens : field.OpensSlot vals.length q.toNat := ⟨hq, Or.inl hlabel⟩
  have hsucc : (q + 1).toNat = vals.length + 1 := by
    rw [UInt32.toNat_add, hq]
    change (vals.length + 1) % 2 ^ 32 = _
    omega
  have hlarger : arrayBytes field.type q < arrayBytes field.type (q + 1) := by
    rcases Nat.lt_or_ge q.toNat (2 ^ 31) with hpos | hneg
    · rw [(arrayBytes_succ (by omega)).2]
      exact Nat.lt_add_of_pos_right field.type.slotSize_pos
    · exact (arrayBytes_succ_of_neg hneg (by omega)).1
  obtain ⟨heap₁, hstore⟩ :
      ∃ heap₁, heap.store ⟨msg, d.quantifierOffset⟩ (leBytes 4 (q + 1).toNat) = some heap₁ :=
    exists_store hblock (by rwa [length_leBytes])
  have harray₁ : heap₁.load ⟨msg, d.offset⟩ 8 = some (leBytes 8 base.block.toNat) := by
    rw [load_of_store_ne hstore, harray]
    right
    rw [length_leBytes]
    exact hwithin.1.1
  obtain ⟨blk₁, hblock₁, hlength₁⟩ := length_of_store hstore hblock
  have hne : base.block ≠ msg := by
    rcases hat with ⟨hzero, -⟩ | ⟨-, hbase, -⟩
    · rw [hzero]
      exact hmsg.symm
    · rintro heq
      rw [heq, howner] at hbase
      cases hbase
  rw [growArray_of_lt (hlaid.type_eq hfield) (by omega) hlarger hstore harray₁]
  cases hrealloc : realloc A heap₁ base.block (arrayBytes field.type (q + 1)) with
  | none =>
      have hold : base.block = 0 ∨ base.block ≠ msg ∧ heap₁.block base.block ≠ none := by
        refine hat.imp And.left ?_
        rintro ⟨-, -, b, hb, -⟩
        refine ⟨hne, ?_⟩
        rw [block_of_store hstore hne, hb]
        exact Option.some_ne_none b
      obtain ⟨heap₂, hfail⟩ : ∃ heap₂, reallocArray A heap₁ msg d base.block
          (arrayBytes field.type q) (arrayBytes field.type (q + 1)) = .ok (none, heap₂) :=
        reallocArray_memfail hblock₁ (hlength₁.symm ▸ hqle) (hlength₁.symm ▸ hole) hold hrealloc
      rw [hfail]
      refine ⟨_, _, rfl, .memfail hnot ?_⟩
      rw [← hsucc, UInt32.ofNat_toNat]
      exact realloc_eq_none hrealloc
  | some out =>
      obtain ⟨a', heap₂⟩ := out
      have hsmall : q.toNat < 2 ^ 31 - 1 := by
        have hbounded := realloc_bounded hrealloc
        by_contra hlarge
        have hneg : 2 ^ 63 ≤ arrayBytes field.type (q + 1) :=
          (arrayBytes_succ_of_neg (by omega) (by omega)).2
        omega
      have hused : arrayBytes field.type q = vals.length * field.type.slotSize := by
        rw [arrayBytes_of_lt (by omega), hq]
      have hneeded : arrayBytes field.type (q + 1) = (vals.length + 1) * field.type.slotSize := by
        rw [(arrayBytes_succ hsmall).2, hused, Nat.succ_mul]
      obtain ⟨old, hold⟩ : ∃ old, base.block = 0 ∧ old = [] ∨
          base.block ≠ 0 ∧ heap.block base.block = some old := by
        rcases hat with ⟨hzero, -⟩ | ⟨hnonzero, -, b, hb, -⟩
        · exact ⟨[], Or.inl ⟨hzero, rfl⟩⟩
        · exact ⟨b, Or.inr ⟨hnonzero, hb⟩⟩
      have hold₁ : base.block = 0 ∧ old = [] ∨
          base.block ≠ 0 ∧ heap₁.block base.block = some old :=
        hold.imp_right fun h => ⟨h.1, (block_of_store hstore hne).trans h.2⟩
      obtain ⟨heap', hgrow, hlarge⟩ := reallocArray_some hblock₁ (hlength₁.symm ▸ hole) hne hold₁
        hlarger.le hrealloc
      rw [hgrow]
      rw [hused, hneeded] at hlarge
      rw [hsucc] at hstore
      obtain ⟨hchange, hslots'⟩ := hslots.grow hlaid hfield hlabel howner hold (by omega) hstore hlarge
      have hp : (⟨a', field.type.slotSize * q.toNat⟩ : Pointer) =
          (⟨a', 0⟩ : Pointer).add (field.type.slotSize * q.toNat) := by
        rw [Pointer.add, Nat.zero_add]
      have hall : vals = slots := by
        rw [hvals, hlength.symm, List.take_length]
      refine ⟨_, _, rfl, ?_⟩
      rw [hp]
      refine .slot ⟨a', 0⟩ (slots ++ [field.type.zero]) (slots ++ [field.type.zero]) field.type.zero hnot
        hchange ?_ ?_ ?_ ?_
      · rw [List.length_append, hlength]
        exact hslots'
      · rw [List.take_length]
      · rw [List.length_append, List.length_singleton, hlength, hq]
        exact Nat.lt_succ_self _
      · rw [if_pos hopens, hall]

theorem makeRoomAt_repeated (hlaid : mod.LaidOut) (hfield : mod.FieldAt f field d)
    (hlabel : field.label = .repeated) (howner : owners msg = some .message) (hmsg : msg ≠ 0)
    (hslots : FieldSlots heap owners msg field d f base slots vals.length)
    (hvals : vals = slots.take vals.length)
    (hover : i.toNat = vals.length → vals.length ≠ 2 ^ 31 - 1 ∧ vals.length ≠ 2 ^ 32 - 1) :
    ∃ room heap', makeRoomAt A heap msg field d i = .ok (room, heap') ∧
      RoomMade A mod heap owners msg field d f vals i room heap' := by
  have htype := hlaid.type_eq hfield
  have hbased := hslots.based
  unfold Based at hbased
  simp only [hlabel] at hbased
  obtain ⟨hoffset, hlength, hlt, hcount, harray, hat⟩ := hbased
  have hload := loadCount_of_load hcount hlt
  have hq : (UInt32.ofNat vals.length).toNat = vals.length := UInt32.toNat_ofNat_of_lt' hlt
  have hindex : field.IndexRefused vals.length i.toNat ↔ ¬ i ≤ UInt32.ofNat vals.length := by
    rw [MsgmodField.IndexRefused, hlabel, if_pos rfl, UInt32.le_iff_toNat_le, hq, not_le]
  have hunfold : makeRoomAt A heap msg field d i =
      if i ≤ UInt32.ofNat vals.length then growArray A heap msg d (.ofNat vals.length) i
      else .ok (.refused .failure, heap) := by
    simp only [makeRoomAt, hlabel, hload, bind, Except.bind, pure, Except.pure]
  by_cases hle : i ≤ UInt32.ofNat vals.length
  · rw [hunfold, if_pos hle]
    have hnot : ¬ field.IndexRefused vals.length i.toNat := fun h => hindex.mp h hle
    by_cases hne : i = UInt32.ofNat vals.length
    · subst hne
      obtain ⟨hmax, hlast⟩ := hover hq
      exact growArray_spec hlaid hfield hlabel howner hmsg hslots hvals hq hmax hlast
    · rw [growArray_of_ne hne harray]
      have hi : i.toNat < vals.length := by
        rw [UInt32.le_iff_toNat_le, hq] at hle
        refine lt_of_le_of_ne hle fun heq => hne ?_
        rw [← heq, UInt32.ofNat_toNat]
      have hopens : ¬ field.OpensSlot vals.length i.toNat := fun h => hi.ne h.1
      have hp : (⟨base.block, sizeofEltInRepeatedArray d.type * i.toNat⟩ : Pointer) =
          base.add (field.type.slotSize * i.toNat) := by
        rw [Pointer.add, hoffset, Nat.zero_add, htype]
        rfl
      rw [hp]
      refine ⟨_, _, rfl, .slot base slots vals (.word 0) hnot FieldChange.refl hslots hvals ?_ ?_⟩
      · rwa [hlength]
      · rw [if_neg hopens]
  · rw [hunfold, if_neg hle]
    exact ⟨_, _, rfl, .refused (hindex.mpr hle)⟩

end Room

end Nmsg

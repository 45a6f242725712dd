import Nmsg.Proof.RawMessage

/-!
# Storing a value

Storing a value changes its slot, and the block that its octets are in. The other slots of the field
stay, and so do the other fields.
-/

namespace Nmsg

open Heap Octets

/-! ### Changes of one slot -/

/-- Nothing is different but the slot at `p` and the blocks of its owner. -/
structure SlotChange (heap : Heap) (owners : UInt64 → Option BlockOwner) (heap' : Heap)
    (owners' : UInt64 → Option BlockOwner) (p : Pointer) (size : Nat) (o : BlockOwner) : Prop where
  loads : ∀ q : Pointer, ∀ n, q.block = p.block → ApartFrom (q.offset, n) (p.offset, size) →
    heap'.load q n = heap.load q n
  length : ∀ b, heap.block p.block = some b →
    ∃ b', heap'.block p.block = some b' ∧ b'.length = b.length
  owner : owners' p.block = owners p.block
  blocks : ∀ a, a ≠ p.block → heap.block a ≠ none → owners a ≠ some o →
    heap'.block a = heap.block a ∧ owners' a = owners a

section Slot

variable {A : Allocator} {mod : RawModule} {heap heap' heap'' : Heap}
  {owners owners' owners'' : UInt64 → Option BlockOwner} {msg a : UInt64} {field : MsgmodField}
  {d : FieldDescr} {f i k n count size : Nat} {base p q : Pointer} {slots : List FieldValue}
  {o : BlockOwner} {type : FieldType} {v w : FieldValue} {src b data : Bytes} {len : Nat}

theorem SlotChange.trans (h : SlotChange heap owners heap' owners' p size o)
    (h' : SlotChange heap' owners' heap'' owners'' p size o) :
    SlotChange heap owners heap'' owners'' p size o where
  loads := fun q n hblock hapart => (h'.loads q n hblock hapart).trans (h.loads q n hblock hapart)
  length := by
    intro b hb
    obtain ⟨b', hb', hlength⟩ := h.length b hb
    obtain ⟨b'', hb'', hlength'⟩ := h'.length b' hb'
    exact ⟨b'', hb'', hlength'.trans hlength⟩
  owner := h'.owner.trans h.owner
  blocks := by
    intro a hne hblock howner
    obtain ⟨hblock', howner'⟩ := h.blocks a hne hblock howner
    obtain ⟨hblock'', howner''⟩ := h'.blocks a hne (by rwa [hblock']) (by rwa [howner'])
    exact ⟨hblock''.trans hblock', howner''.trans howner'⟩

/-- A store into the slot. -/
theorem SlotChange.store (hstore : heap.store (p.add k) src = some heap') (hle : k + src.length ≤ size) :
    SlotChange heap owners heap' owners p size o where
  loads := by
    intro q n _ hapart
    apply load_of_store_ne hstore
    right
    unfold ApartFrom at hapart
    change q.offset + n ≤ p.offset + k ∨ p.offset + k + src.length ≤ q.offset
    dsimp only at hapart
    omega
  length := fun b hb => length_of_store hstore hb
  owner := rfl
  blocks := fun a hne _ _ => ⟨block_of_store hstore hne, rfl⟩

/-- A change of blocks of the owner, or of some that were not in use. -/
theorem SlotChange.of_blocks (hp : heap.block p.block ≠ none) (howner : owners p.block ≠ some o)
    (h : ∀ a, heap.block a ≠ none → owners a ≠ some o →
      heap'.block a = heap.block a ∧ owners' a = owners a) :
    SlotChange heap owners heap' owners' p size o where
  loads := fun q n hblock _ => load_congr (by rw [hblock]; exact (h p.block hp howner).1)
  length := fun b hb => ⟨b, (h p.block hp howner).1.trans hb, rfl⟩
  owner := (h p.block hp howner).2
  blocks := fun a _ => h a

/-- A change of a part of the slot. -/
theorem SlotChange.mono {part : Nat} (h : SlotChange heap owners heap' owners' p part o)
    (hle : part ≤ size) : SlotChange heap owners heap' owners' p size o where
  loads := by
    intro q n hblock hapart
    apply h.loads q n hblock
    unfold ApartFrom at hapart ⊢
    dsimp only at hapart ⊢
    omega
  length := h.length
  owner := h.owner
  blocks := h.blocks

/-- The slots are in the structure, or in the array of the field. -/
theorem FieldSlots.place (h : FieldSlots heap owners msg field d f base slots count)
    (hi : i < slots.length) :
    (base = ⟨msg, d.offset⟩ ∧ i = 0 ∧ (d.offset, field.type.slotSize) ∈ regions field d ∧
        field.label ≠ .repeated) ∨
      (field.label = .repeated ∧ base.block ≠ 0 ∧ owners base.block = some (.array f) ∧
        ∃ blk, heap.block base.block = some blk) := by
  have hbased := h.based
  unfold Based at hbased
  cases hlabel : field.label with
  | required =>
      simp only [hlabel] at hbased
      exact Or.inl ⟨hbased.1, by omega, by simp [regions, hlabel], nofun⟩
  | optional =>
      simp only [hlabel] at hbased
      exact Or.inl ⟨hbased.1, by omega, by simp [regions, hlabel], nofun⟩
  | repeated =>
      simp only [hlabel] at hbased
      obtain ⟨-, hslots, -, -, -, ⟨-, hcount⟩ | ⟨hne, howner, blk, hblock, -⟩⟩ := hbased
      · omega
      · exact Or.inr ⟨rfl, hne, howner, blk, hblock⟩

theorem SlotHolds.load (h : SlotHolds heap owners o p type v) (htype : v.OfType type) :
    ∃ old, heap.load p type.slotSize = some old := by
  cases v with
  | word w =>
      have hsize : type.slotSize = 4 := by
        cases type <;> simp [FieldValue.OfType] at htype <;> rfl
      exact ⟨_, hsize ▸ h.1⟩
  | dword w =>
      have hsize : type.slotSize = 8 := by
        cases type <;> simp [FieldValue.OfType] at htype <;> rfl
      rw [hsize]
      exact ⟨_, h⟩
  | data b =>
      have hsize : type.slotSize = 16 := by
        cases type <;> simp [FieldValue.OfType] at htype <;> rfl
      obtain ⟨-, a, hload, -⟩ := h
      exact ⟨_, hsize ▸ hload⟩

/-- A slot is in a block that is not one of its octets. -/
theorem FieldSlots.at_slot (h : FieldSlots heap owners msg field d f base slots count) (hmsg : msg ≠ 0)
    (howner : owners msg = some .message) (hi : i < slots.length) :
    base.block ≠ 0 ∧ owners base.block ≠ some (.octets f i) ∧ heap.block msg ≠ none := by
  rcases h.place hi with ⟨rfl, rfl, -⟩ | ⟨hlabel, hne, harray, -⟩
  · refine ⟨hmsg, by rw [howner]; exact nofun, ?_⟩
    have hv := List.getElem?_eq_getElem hi
    obtain ⟨old, hload⟩ := (h.holds 0 _ hv).load (h.ofType _ (List.mem_of_getElem? hv))
    obtain ⟨blk, hblock, -⟩ := block_of_load hload
    exact fun hnone => Option.some_ne_none blk (hblock.symm.trans hnone)
  · refine ⟨hne, by rw [harray]; exact nofun, ?_⟩
    have hbased := h.based
    unfold Based at hbased
    simp only [hlabel] at hbased
    obtain ⟨blk, hblock, -⟩ := block_of_load hbased.2.2.2.1
    exact fun hnone => Option.some_ne_none blk (hblock.symm.trans hnone)

/-- A change of a slot is one of its field. -/
theorem SlotChange.fieldChange (hlaid : mod.LaidOut) (hfield : mod.FieldAt f field d)
    (howner : owners msg = some .message) (hmsg : heap.block msg ≠ none)
    (hslots : FieldSlots heap owners msg field d f base slots count) (hi : i < slots.length)
    (h : SlotChange heap owners heap' owners' (base.add (field.type.slotSize * i))
      field.type.slotSize (.octets f i)) : FieldChange mod heap owners heap' owners' msg f := by
  have hbase : owners base.block = some .message ∨ owners base.block = some (.array f) := by
    rcases hslots.place hi with ⟨rfl, -⟩ | ⟨-, -, harray, -⟩
    · exact Or.inl howner
    · exact Or.inr harray
  refine ⟨?_, ?_, ?_⟩
  · intro f' field' d' hfield' hne r hr
    rcases hslots.place hi with ⟨rfl, rfl, hregion, -⟩ | ⟨-, -, harray, -⟩
    · apply h.loads ⟨msg, r.1⟩ r.2 rfl
      have hapart := hlaid.apart hfield hfield' hne _ hregion r hr
      unfold ApartFrom at hapart ⊢
      change r.1 + r.2 ≤ d.offset + field.type.slotSize * 0 ∨
        d.offset + field.type.slotSize * 0 + field.type.slotSize ≤ r.1
      dsimp only at hapart
      omega
    · apply load_congr
      refine (h.blocks msg ?_ hmsg (by rw [howner]; exact nofun)).1
      rintro rfl
      obtain heq := howner.symm.trans harray
      cases heq
  · intro o f' ho hne a ha hblock
    have hne' : a ≠ base.block := by
      rintro rfl
      rcases hbase with hbase | hbase <;> obtain rfl := Option.some.inj (ha.symm.trans hbase)
      · cases ho
      · exact hne (Option.some.inj ho).symm
    have howner' : owners a ≠ some (.octets f i) := by
      rw [ha]
      rintro ⟨⟩
      exact hne (Option.some.inj ho).symm
    obtain ⟨hblock', hsame⟩ := h.blocks a hne' hblock howner'
    exact ⟨hblock', hsame.trans ha⟩
  · rcases hslots.place hi with ⟨rfl, -⟩ | ⟨-, -, harray, -⟩
    · exact h.owner
    · refine (h.blocks msg ?_ hmsg (by rw [howner]; exact nofun)).2
      rintro rfl
      obtain heq := howner.symm.trans harray
      cases heq

/-- The slots with another value in one of them. -/
theorem FieldSlots.change (hlaid : mod.LaidOut) (hfield : mod.FieldAt f field d)
    (howner : owners msg = some .message) (hmsg : heap.block msg ≠ none)
    (hslots : FieldSlots heap owners msg field d f base slots count) (hi : i < slots.length)
    (h : SlotChange heap owners heap' owners' (base.add (field.type.slotSize * i))
      field.type.slotSize (.octets f i))
    (hv : v.OfType field.type)
    (hholds : SlotHolds heap' owners' (.octets f i) (base.add (field.type.slotSize * i)) field.type v) :
    FieldSlots heap' owners' msg field d f base (slots.set i v) count := by
  refine ⟨?_, ?_, ?_⟩
  · rw [List.length_set]
    have hbased := hslots.based
    have hplace := hslots.place hi
    have hwithin := hlaid.within hfield
    unfold Based at hbased ⊢
    unfold regions at hwithin
    cases hlabel : field.label with
    | required => simpa only [hlabel] using hbased
    | optional =>
        simp only [hlabel, List.pairwise_cons, List.forall_mem_cons] at hbased hplace hwithin ⊢
        obtain ⟨rfl, hlength, hcount, hflag⟩ := hbased
        refine ⟨rfl, hlength, hcount, (h.loads ⟨msg, d.quantifierOffset⟩ 4 rfl ?_).trans hflag⟩
        obtain rfl : i = 0 := by omega
        have hapart := hwithin.1.1
        unfold ApartFrom at hapart ⊢
        change d.quantifierOffset + 4 ≤ d.offset + field.type.slotSize * 0 ∨
          d.offset + field.type.slotSize * 0 + field.type.slotSize ≤ d.quantifierOffset
        dsimp only at hapart
        omega
    | repeated =>
        simp only [hlabel] at hbased hplace ⊢
        obtain ⟨hoffset, hlength, hcount, hload, harray, hat⟩ := hbased
        obtain ⟨-, hne, hbase, blk, hblock⟩ := hplace.resolve_left fun hleft => hleft.2.2.2 rfl
        have hmsg' : heap'.block msg = heap.block msg := by
          refine (h.blocks msg ?_ hmsg (by rw [howner]; exact nofun)).1
          rintro rfl
          obtain heq := howner.symm.trans hbase
          cases heq
        obtain ⟨blk', hblock', hlength'⟩ := h.length blk hblock
        refine ⟨hoffset, hlength, hcount, (load_congr hmsg').trans hload,
          (load_congr hmsg').trans harray, Or.inr ⟨hne, h.owner.trans hbase, blk', hblock', ?_⟩⟩
        rcases hat with ⟨hzero, -⟩ | ⟨-, -, blk₀, hblock₀, hle⟩
        · exact absurd hzero hne
        · obtain rfl := Option.some.inj (hblock.symm.trans hblock₀)
          rwa [hlength']
  · intro v' hv'
    rcases List.mem_or_eq_of_mem_set hv' with hv' | rfl
    · exact hslots.ofType v' hv'
    · exact hv
  · intro j v' hv'
    by_cases hj : j = i
    · subst hj
      rw [List.getElem?_set_self hi] at hv'
      exact Option.some.inj hv' ▸ hholds
    · rw [List.getElem?_set_ne (Ne.symm hj)] at hv'
      refine (hslots.holds j v' hv').congr (hslots.ofType v' (List.mem_of_getElem? hv')) ?_ ?_
      · apply h.loads (base.add (field.type.slotSize * j)) _ rfl
        change base.offset + field.type.slotSize * j + field.type.slotSize ≤
            base.offset + field.type.slotSize * i ∨
          base.offset + field.type.slotSize * i + field.type.slotSize ≤
            base.offset + field.type.slotSize * j
        rcases Nat.lt_or_gt_of_ne hj with hlt | hlt
        · have := Nat.mul_le_mul_left field.type.slotSize (Nat.succ_le_of_lt hlt)
          rw [Nat.mul_succ] at this
          omega
        · have := Nat.mul_le_mul_left field.type.slotSize (Nat.succ_le_of_lt hlt)
          rw [Nat.mul_succ] at this
          omega
      · intro a ha hblock
        have hne : a ≠ base.block := by
          rintro rfl
          rcases hslots.place hi with ⟨rfl, -⟩ | ⟨-, -, harray, -⟩
          · obtain heq := howner.symm.trans ha
            cases heq
          · obtain heq := harray.symm.trans ha
            cases heq
        have howner' : owners a ≠ some (.octets f i) := by
          rw [ha]
          rintro ⟨⟩
          exact hj rfl
        obtain ⟨hblock', hsame⟩ := h.blocks a hne hblock howner'
        exact ⟨hblock', hsame.trans ha⟩

/-! ### Numbers in slots -/

theorem leNat_append (b c : Bytes) : leNat (b ++ c) = leNat b + 256 ^ b.length * leNat c := by
  rw [leNat, List.reverse_append, beNat_append, List.length_reverse]
  simp only [leNat]
  ring

theorem leBytes_word (hb : b.length = 4) : leBytes 4 (UInt32.ofNat (leNat b)).toNat = b := by
  have hlt := leNat_lt b
  rw [hb] at hlt
  rw [UInt32.toNat_ofNat_of_lt' hlt]
  have := leBytes_leNat b
  rwa [hb] at this

theorem leBytes_dword (hb : b.length = 8) : leBytes 8 (UInt64.ofNat (leNat b)).toNat = b := by
  have hlt := leNat_lt b
  rw [hb] at hlt
  rw [UInt64.toNat_ofNat_of_lt' hlt]
  have := leBytes_leNat b
  rwa [hb] at this

theorem leBytes_uint16 (hb : b.length = 2) :
    leBytes 4 (UInt32.ofNat (leNat b)).toNat = b ++ [0, 0] := by
  have hnat : leNat (b ++ [0, 0]) = leNat b := by
    rw [leNat_append]
    rfl
  rw [← hnat]
  exact leBytes_word (by rw [List.length_append, hb]; rfl)

theorem leBytes_int16 (hb : b.length = 2) :
    leBytes 4 (if leNat b < 2 ^ 15 then UInt32.ofNat (leNat b)
      else UInt32.ofNat (leNat b + (2 ^ 32 - 2 ^ 16))).toNat = signExtend b := by
  unfold signExtend
  split_ifs
  · exact leBytes_uint16 hb
  · have hnat : leNat (b ++ [0xff, 0xff]) = leNat b + (2 ^ 32 - 2 ^ 16) := by
      rw [leNat_append, hb]
      rfl
    rw [← hnat]
    exact leBytes_word (by rw [List.length_append, hb]; rfl)

/-! ### Storing -/

theorem storeAt_of_store (h : heap.store p src = some heap') : storeAt heap p src = .ok heap' := by
  rw [storeAt, h]

theorem loadPointer_of_load (h : heap.load p 8 = some (leBytes 8 a.toNat)) :
    loadPointer heap p = .ok a := by
  have hlt : a.toNat < 256 ^ 8 := a.toNat_lt
  rw [loadPointer, loadNat, loadAt, h]
  simp only [Except.map, leNat_leBytes hlt, UInt64.ofNat_toNat]

/-- A number that fills the slot. -/
theorem storeNumber_spec {n : Nat} {g : Bytes → Bytes} {old : Bytes} (hdata : n ≤ data.length)
    (hsize : (g (data.take n)).length = size) (hload : heap.load p size = some old) :
    ∃ heap', storeNumber heap p data n g = .ok (.success, heap') ∧
      SlotChange heap owners heap' owners p size o ∧
      heap'.load p size = some (g (data.take n)) := by
  obtain ⟨blk, hblock, hle⟩ := block_of_load hload
  obtain ⟨heap', hstore⟩ : ∃ heap', heap.store p (g (data.take n)) = some heap' :=
    exists_store hblock (by rwa [hsize])
  refine ⟨heap', ?_, SlotChange.store (k := 0) hstore (by omega), ?_⟩
  · rw [storeNumber, if_neg (not_lt.mpr hdata)]
    simp only [storeAt_of_store hstore]
    rfl
  · rw [← hsize]
    exact load_of_store hstore

theorem SlotChange.refl : SlotChange heap owners heap owners p size o :=
  ⟨fun _ _ _ _ => rfl, fun b hb => ⟨b, hb, rfl⟩, rfl, fun _ _ _ _ => ⟨rfl, rfl⟩⟩

/-- Octets that are freed. -/
theorem freeAt_spec (hp : heap.block p.block ≠ none) (ho : owners p.block ≠ some o)
    (hat : OctetsAt heap owners o a b) :
    ∃ heap', freeAt heap a = .ok heap' ∧ SlotChange heap owners heap' owners p size o := by
  rcases hat with ⟨rfl, -⟩ | ⟨hne, howner, blk, hblock, -⟩
  · exact ⟨heap, if_pos rfl, SlotChange.refl⟩
  · refine ⟨heap.remove a, ?_, SlotChange.of_blocks hp ho fun c _ hc => ?_⟩
    · rw [freeAt, if_neg hne, free_of_block hblock]
    · refine ⟨block_remove_of_ne ?_, rfl⟩
      rintro rfl
      exact hc howner

/-- A block that is given to the owner. -/
theorem malloc_slotChange {new : UInt64} (hp : heap.block p.block ≠ none)
    (ho : owners p.block ≠ some o) (hmalloc : malloc A heap len = some (new, heap')) :
    SlotChange heap owners heap' (Function.update owners new (some o)) p size o := by
  obtain ⟨-, hfresh, rfl⟩ := malloc_eq_some hmalloc
  refine SlotChange.of_blocks hp ho fun c hc _ => ?_
  have hne : c ≠ new := by
    rintro rfl
    exact hc hfresh
  exact ⟨block_put_of_ne hne, Function.update_of_ne hne ..⟩

theorem storeOctets_spec (ho : owners p.block ≠ some o)
    (hslot : SlotHolds heap owners o p type (.data b)) (hdata : data.length = len)
    (hlen : len < 2 ^ 64) :
    ∃ res heap', storeOctets A heap p data len = .ok (res, heap') ∧
      (res = .memfail ∧ (∃ h, A.find h len = none) ∨
        res = .success ∧ ∃ owners', SlotChange heap owners heap' owners' p 16 o ∧
          SlotHolds heap' owners' o p type (.data data)) := by
  obtain ⟨-, a, hload, hat⟩ := hslot
  obtain ⟨blk, hblock, hle⟩ := block_of_load hload
  have hold : heap.load (p.add 8) 8 = some (leBytes 8 a.toNat) := by
    rw [load_part hload (by omega), drop_append_of_length (length_leBytes ..),
      List.take_of_length_le (length_leBytes ..).le]
  have hp : heap.block p.block ≠ none := by
    rw [hblock]
    exact Option.some_ne_none blk
  obtain ⟨heap₁, hfree, hchange₁⟩ := freeAt_spec hp ho hat
  obtain ⟨blk₁, hblock₁, hlength₁⟩ := hchange₁.length blk hblock
  have hp₁ : heap₁.block p.block ≠ none := by
    rw [hblock₁]
    exact Option.some_ne_none blk₁
  cases hmalloc : malloc A heap₁ len with
  | none =>
      obtain ⟨heap₂, hstore⟩ : ∃ heap₂, heap₁.store (p.add 8) (leBytes 8 0) = some heap₂ := by
        refine exists_store hblock₁ ?_
        rw [length_leBytes]
        change p.offset + 8 + 8 ≤ blk₁.length
        omega
      refine ⟨.memfail, heap₂, ?_, Or.inl ⟨rfl, heap₁, Option.map_eq_none_iff.mp hmalloc⟩⟩
      simp only [storeOctets, loadPointer_of_load hold, hfree, hmalloc, storeAt_of_store hstore, bind,
        Except.bind, pure, Except.pure]
  | some out =>
      obtain ⟨new, heap₂⟩ := out
      obtain ⟨hnew, hfresh, hheap₂⟩ := malloc_eq_some hmalloc
      obtain ⟨owners', howners⟩ : ∃ owners', owners' = Function.update owners new (some o) :=
        ⟨_, rfl⟩
      have hnew' : owners' new = some o := by
        rw [howners, Function.update_self]
      have hchange₂ : SlotChange heap₁ owners heap₂ owners' p 16 o :=
        howners ▸ malloc_slotChange hp₁ ho hmalloc
      have hne : p.block ≠ new := by
        rintro heq
        exact hp₁ (heq ▸ hfresh)
      obtain ⟨blk₂, hblock₂, hlength₂⟩ := hchange₂.length blk₁ hblock₁
      obtain ⟨heap₃, hstore₃⟩ :
          ∃ heap₃, heap₂.store (p.add 8) (leBytes 8 new.toNat) = some heap₃ := by
        refine exists_store hblock₂ ?_
        rw [length_leBytes]
        change p.offset + 8 + 8 ≤ blk₂.length
        omega
      obtain ⟨blk₃, hblock₃, hlength₃⟩ := length_of_store hstore₃ hblock₂
      obtain ⟨heap₄, hstore₄⟩ : ∃ heap₄, heap₃.store p (leBytes 8 len) = some heap₄ := by
        refine exists_store hblock₃ ?_
        rw [length_leBytes]
        omega
      obtain ⟨blk₄, hblock₄, hlength₄⟩ := length_of_store hstore₄ hblock₃
      have hnew₄ : heap₄.block new = some (A.junk heap₁ len) := by
        rw [block_of_store hstore₄ hne.symm, block_of_store hstore₃ hne.symm, hheap₂,
          block_put_self]
      obtain ⟨heap₅, hstore₅⟩ : ∃ heap₅, heap₄.store ⟨new, 0⟩ (data.take len) = some heap₅ := by
        refine exists_store hnew₄ ?_
        rw [A.length_junk, List.length_take, hdata, min_self]
        exact (Nat.zero_add len).le
      refine ⟨.success, heap₅, ?_, Or.inr ⟨rfl, owners', ?_, ?_⟩⟩
      · simp only [storeOctets, loadPointer_of_load hold, hfree, hmalloc, storeAt_of_store hstore₃,
          storeAt_of_store hstore₄, storeAt_of_store hstore₅, bind, Except.bind, pure, Except.pure,
          if_neg (not_lt.mpr hdata.ge)]
      · have hchange₃ : SlotChange heap₂ owners' heap₃ owners' p 16 o :=
          SlotChange.store hstore₃ (by rw [length_leBytes])
        have hchange₄ : SlotChange heap₃ owners' heap₄ owners' p 16 o :=
          SlotChange.store (k := 0) hstore₄ (by rw [length_leBytes]; omega)
        have hchange₅ : SlotChange heap₄ owners' heap₅ owners' p 16 o := by
          refine SlotChange.of_blocks ?_ ?_ fun c _ hc => ⟨block_of_store hstore₅ ?_, rfl⟩
          · rw [hblock₄]
            exact Option.some_ne_none blk₄
          · rw [howners, Function.update_of_ne hne]
            exact ho
          · rintro rfl
            exact hc hnew'
        exact (((hchange₁.trans hchange₂).trans hchange₃).trans hchange₄).trans hchange₅
      · refine ⟨by omega, new, ?_, Or.inr ⟨hnew, hnew', ?_⟩⟩
        · have hlength : heap₅.load p 8 = some (leBytes 8 len) := by
            rw [load_of_store_ne hstore₅ (Or.inl hne)]
            have := load_of_store hstore₄
            rwa [length_leBytes] at this
          have hpointer : heap₅.load (p.add 8) 8 = some (leBytes 8 new.toNat) := by
            have hother : (p.add 8).block ≠ new := hne
            have hapart : p.offset + (leBytes 8 len).length ≤ (p.add 8).offset := by
              rw [length_leBytes]
              exact le_rfl
            rw [load_of_store_ne hstore₅ (Or.inl hother),
              load_of_store_ne hstore₄ (Or.inr (Or.inr hapart))]
            have := load_of_store hstore₃
            rwa [length_leBytes] at this
          rw [hdata]
          exact load_append hlength hpointer
        · have hload₅ := load_of_store hstore₅
          obtain ⟨blk₅, hblock₅, hread⟩ := load_eq_some_iff.mp hload₅
          obtain ⟨-, hstart⟩ := Memory.read_eq_some.mp hread
          refine ⟨blk₅, hblock₅, ?_⟩
          rw [List.drop_zero, ← hdata, List.take_length] at hstart
          exact hstart ▸ List.take_prefix ..

/-- The data are of the width of the type: a number with all of its octets, a truth value, an address
of 4 or 16 octets. -/
def FieldType.Takes (type : FieldType) (data : Bytes) (len : Nat) : Prop :=
  match type with
  | .ip => data.length = len ∧ (len = 4 ∨ len = 16)
  | .bytes | .string | .mlstring => data.length = len ∧ len < 2 ^ 64
  | .bool => data = [0] ∨ data = [1]
  | .int16 | .uint16 => data.length = 2
  | .enum | .int32 | .uint32 => data.length = 4
  | .int64 | .uint64 | .double => data.length = 8

/-- The value was stored in the slot, or there was no memory for it. -/
def StoredOr (A : Allocator) (heap : Heap) (owners : UInt64 → Option BlockOwner) (o : BlockOwner) (p : Pointer)
    (type : FieldType) (data : Bytes) (len : Nat) (res : Res) (heap' : Heap) : Prop :=
  res = .memfail ∧ (∃ h, A.find h len = none) ∨
    res = .success ∧ ∃ owners' v, loadValue type data len = .ok (some v) ∧
      SlotChange heap owners heap' owners' p type.slotSize o ∧ SlotHolds heap' owners' o p type v

theorem storedOr_number {n : Nat} {g : Bytes → Bytes} (hdata : n ≤ data.length)
    (hsize : (g (data.take n)).length = type.slotSize)
    (hslot : SlotHolds heap owners o p type w) (hw : w.OfType type)
    (hload : loadValue type data len = .ok (some v))
    (hholds : ∀ heap' : Heap, heap'.load p type.slotSize = some (g (data.take n)) →
      SlotHolds heap' owners o p type v) :
    ∃ res heap', storeNumber heap p data n g = .ok (res, heap') ∧
      StoredOr A heap owners o p type data len res heap' := by
  obtain ⟨old, hold⟩ := hslot.load hw
  obtain ⟨heap', hstore, hchange, hload'⟩ := storeNumber_spec hdata hsize hold
  exact ⟨_, heap', hstore, Or.inr ⟨rfl, owners, v, hload, hchange, hholds heap' hload'⟩⟩

/-- A truth value is stored in the first octet of its slot, and the others are zero. -/
theorem storedOr_bool (hslot : SlotHolds heap owners o p .bool w) (hw : w.OfType .bool)
    (hdata : data = [0] ∨ data = [1]) :
    ∃ res heap', storeNumber heap p data 1 id = .ok (res, heap') ∧
      StoredOr A heap owners o p .bool data len res heap' := by
  cases w with
  | dword w => simp [FieldValue.OfType] at hw
  | data b => simp [FieldValue.OfType] at hw
  | word w =>
      obtain ⟨hload, hlt⟩ := hslot
      have hbit : w.toNat = 0 ∨ w.toNat = 1 := by
        have := hlt rfl
        omega
      have hfirst : ∃ x, heap.load p 1 = some x := ⟨_, load_part (k := 0) hload (by omega)⟩
      have hrest : heap.load (p.add 1) 3 = some [0, 0, 0] := by
        rw [load_part hload (by omega)]
        rcases hbit with hbit | hbit <;> rw [hbit] <;> rfl
      obtain ⟨x, hfirst⟩ := hfirst
      have htake : data.take 1 = data := by
        rcases hdata with rfl | rfl <;> rfl
      have hlength : data.length = 1 := by
        rcases hdata with rfl | rfl <;> rfl
      obtain ⟨heap', hstore, hchange, hload'⟩ : ∃ heap',
          storeNumber heap p data 1 id = .ok (.success, heap') ∧
            SlotChange heap owners heap' owners p 1 o ∧ heap'.load p 1 = some (data.take 1) :=
        storeNumber_spec hlength.ge (by rw [htake]; exact hlength) hfirst
      have hrest' : heap'.load (p.add 1) 3 = some [0, 0, 0] :=
        (hchange.loads (p.add 1) 3 rfl (Or.inr le_rfl)).trans hrest
      have hslot' := load_append hload' hrest'
      rw [htake] at hslot'
      refine ⟨_, heap', hstore, Or.inr ⟨rfl, owners, ?_⟩⟩
      rcases hdata with rfl | rfl
      · exact ⟨.word 0, rfl, hchange.mono (by decide), hslot', fun _ => by decide⟩
      · exact ⟨.word 1, rfl, hchange.mono (by decide), hslot', fun _ => by decide⟩

theorem storedOr_octets (ho : owners p.block ≠ some o) (hslot : SlotHolds heap owners o p type w)
    (hw : w.OfType type) (htype : type.slotSize = 16) (hdata : data.length = len)
    (hlen : len < 2 ^ 64) (hload : loadValue type data len = .ok (some (.data data))) :
    ∃ res heap', storeOctets A heap p data len = .ok (res, heap') ∧
      StoredOr A heap owners o p type data len res heap' := by
  cases w with
  | word w => cases type <;> simp [FieldValue.OfType] at hw <;> cases htype
  | dword w => cases type <;> simp [FieldValue.OfType] at hw <;> cases htype
  | data b =>
      obtain ⟨res, heap', hstore, hor⟩ := storeOctets_spec ho hslot hdata hlen
      refine ⟨res, heap', hstore, hor.imp_right ?_⟩
      rintro ⟨hres, owners', hchange, hholds⟩
      exact ⟨hres, owners', .data data, hload, htype ▸ hchange, hholds⟩

/-- What storing a value does. -/
theorem storeValue_spec (hp : p.block ≠ 0) (ho : owners p.block ≠ some o)
    (hslot : SlotHolds heap owners o p type w) (hw : w.OfType type) (hdata : type.Takes data len) :
    ∃ res heap', storeValue A heap p type data len = .ok (res, heap') ∧
      StoredOr A heap owners o p type data len res heap' := by
  unfold storeValue
  rw [if_neg hp]
  have hword : ∀ n, data.length = n → data.take n = data := fun n h => by
    rw [← h, List.take_length]
  cases type with
  | ip =>
      obtain ⟨hlength, hlen⟩ := hdata
      have hnot : ¬ (len ≠ 4 ∧ len ≠ 16) := by omega
      rw [if_neg hnot]
      refine storedOr_octets ho hslot hw rfl hlength (by omega) ?_
      rw [loadValue, if_neg hnot, if_neg (by omega), hword len hlength]
  | bytes | string | mlstring =>
      obtain ⟨hlength, hlen⟩ := hdata
      refine storedOr_octets ho hslot hw rfl hlength hlen ?_
      simp only [loadValue]
      rw [if_neg (by omega), hword len hlength]
  | bool => exact storedOr_bool hslot hw hdata
  | enum | int32 | uint32 =>
      have hlength : data.length = 4 := hdata
      refine storedOr_number hlength.ge (by rw [hword 4 hlength]; exact hlength) hslot hw
        (v := .word (.ofNat (leNat data))) ?_ fun heap' hload => ⟨?_, by rintro ⟨⟩⟩
      · simp only [loadValue]
        rw [if_neg (by omega), hword 4 hlength]
      · rw [leBytes_word hlength]
        rw [hword 4 hlength] at hload
        exact hload
  | int16 =>
      have hlength : data.length = 2 := hdata
      refine storedOr_number hlength.ge ?_ hslot hw (v := .word (if leNat data < 2 ^ 15 then
        .ofNat (leNat data) else .ofNat (leNat data + (2 ^ 32 - 2 ^ 16)))) ?_
        fun heap' hload => ⟨?_, by rintro ⟨⟩⟩
      · rw [hword 2 hlength, ← leBytes_int16 hlength, length_leBytes]
        rfl
      · simp only [loadValue]
        rw [if_neg (by omega), hword 2 hlength]
      · rw [leBytes_int16 hlength]
        rw [hword 2 hlength] at hload
        exact hload
  | uint16 =>
      have hlength : data.length = 2 := hdata
      refine storedOr_number hlength.ge ?_ hslot hw (v := .word (.ofNat (leNat data))) ?_
        fun heap' hload => ⟨?_, by rintro ⟨⟩⟩
      · rw [hword 2 hlength, List.length_append, hlength]
        rfl
      · simp only [loadValue]
        rw [if_neg (by omega), hword 2 hlength]
      · rw [leBytes_uint16 hlength]
        rw [hword 2 hlength] at hload
        exact hload
  | int64 | uint64 | double =>
      have hlength : data.length = 8 := hdata
      refine storedOr_number hlength.ge (by rw [hword 8 hlength]; exact hlength) hslot hw
        (v := .dword (.ofNat (leNat data))) ?_ fun heap' hload => ?_
      · simp only [loadValue]
        rw [if_neg (by omega), hword 8 hlength]
      · rw [hword 8 hlength] at hload
        change heap'.load p 8 = some (leBytes 8 (UInt64.ofNat (leNat data)).toNat)
        rw [leBytes_dword hlength]
        exact hload

end Slot

end Nmsg

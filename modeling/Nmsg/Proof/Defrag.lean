import Mathlib.Data.List.Nodup
import Mathlib.Order.Fin.Basic
import Nmsg.Input.Delivery

/-!
# Defragmentation delivers every container once

After the pieces seen so far, the tree holds a node for each container of which some pieces are
there and some are missing: the slots of the pieces that are there hold them, and the others are
empty. The invariant is kept by every call, and each call answers as it should.
-/

namespace Nmsg

section Node

variable {n : Nat} {cs : Fin n → FragmentedContainer} {seen : List (Piece n)} {i : Fin n}
  {k : Nat}

/-- The slots of a container after the pieces seen. -/
def slotsOf (cs : Fin n → FragmentedContainer) (seen : List (Piece n)) (i : Fin n) : List Bytes :=
  (List.range (cs i).pieces.length).map fun k =>
    if (i, k) ∈ seen then (cs i).pieces.getD k [] else []

/-- The node of a container after the pieces seen. -/
structure Holds (cs : Fin n → FragmentedContainer) (seen : List (Piece n)) (i : Fin n)
    (fent : Frag) : Prop where
  key : fent.key = (cs i).key
  last : fent.last = (cs i).last
  frags : fent.frags = slotsOf cs seen i
  counted : fent.Counted

@[simp]
theorem length_slotsOf : (slotsOf cs seen i).length = (cs i).pieces.length := by
  simp [slotsOf]

theorem getElem?_slotsOf (hk : k < (cs i).pieces.length) :
    (slotsOf cs seen i)[k]? =
      some (if (i, k) ∈ seen then (cs i).pieces.getD k [] else []) := by
  simp [slotsOf, hk]

theorem slotsOf_set (hk : k < (cs i).pieces.length) :
    (slotsOf cs seen i).set k ((cs i).pieces.getD k []) = slotsOf cs (seen ++ [(i, k)]) i := by
  apply List.ext_getElem?
  intro j
  by_cases hj : j < (cs i).pieces.length
  · rw [getElem?_slotsOf hj]
    by_cases hjk : k = j
    · subst hjk
      simp [hk]
    · rw [List.getElem?_set_ne hjk, getElem?_slotsOf hj]
      simp [Ne.symm hjk]
  · rw [List.getElem?_eq_none (by simpa using hj), List.getElem?_eq_none (by simpa using hj)]

theorem slotsOf_congr {seen' : List (Piece n)} (h : ∀ k, (i, k) ∈ seen ↔ (i, k) ∈ seen') :
    slotsOf cs seen i = slotsOf cs seen' i := by
  simp only [slotsOf, h]

/-- All pieces in place are the whole container. -/
theorem flatten_slotsOf (h : Complete cs seen i) :
    (slotsOf cs seen i).flatten = (cs i).pieces.flatten := by
  have hslots : slotsOf cs seen i = (cs i).pieces := by
    apply List.ext_getElem?
    intro j
    by_cases hj : j < (cs i).pieces.length
    · rw [getElem?_slotsOf hj, if_pos (h j hj), List.getD_eq_getElem?_getD,
        List.getElem?_eq_getElem hj, Option.getD_some]
    · rw [List.getElem?_eq_none (by simpa using hj), List.getElem?_eq_none (by simpa using hj)]
  rw [hslots]

theorem piece_ne_nil (hne : [] ∉ (cs i).pieces) (hk : k < (cs i).pieces.length) :
    (cs i).pieces.getD k [] ≠ [] := by
  rw [List.getD_eq_getElem?_getD, List.getElem?_eq_getElem hk, Option.getD_some]
  intro h
  exact hne (h ▸ List.getElem_mem hk)

/-- No slot is empty exactly when the container is complete. -/
theorem complete_iff_slots (hne : [] ∉ (cs i).pieces) :
    Complete cs seen i ↔ [] ∉ slotsOf cs seen i := by
  constructor
  · intro h hmem
    obtain ⟨k, hk, hslot⟩ := List.mem_map.mp hmem
    rw [List.mem_range] at hk
    rw [if_pos (h k hk)] at hslot
    exact piece_ne_nil hne hk hslot
  · intro h k hk
    by_contra hunseen
    apply h
    exact List.mem_map.mpr ⟨k, List.mem_range.mpr hk, if_neg hunseen⟩

theorem toNat_last (hne : (cs i).pieces ≠ []) (hle : (cs i).pieces.length ≤ 2 ^ 32) :
    (cs i).last.toNat + 1 = (cs i).pieces.length := by
  have hpos := List.length_pos_of_ne_nil hne
  rw [FragmentedContainer.last, UInt32.toNat_ofNat', Nat.mod_eq_of_lt (by omega)]
  omega

/-- The node that a first piece opens. -/
theorem holds_newFrag {pb : ProtobufC} {z : Zlib} (hvalid : (cs i).Valid pb z)
    (hfew : (cs i).pieces.length < 2 ^ 32) (hnone : ∀ k, (i, k) ∉ seen) (now : Timespec)
    (k : Nat) :
    Holds cs seen i
      (newFrag ⟨(cs i).flags, now, (cs i).addrSs⟩ ((cs i).fragment k)) := by
  have hlast := toNat_last hvalid.pieces_ne hvalid.length_le
  have hone : (1 : UInt32).toNat = 1 := rfl
  have hnext : ((cs i).last + 1).toNat = (cs i).pieces.length := by
    rw [UInt32.toNat_add, hone, hlast, Nat.mod_eq_of_lt hfew]
  have hfrags : slotsOf cs seen i = List.replicate (cs i).pieces.length [] := by
    simp [slotsOf, hnone]
  refine ⟨rfl, rfl, ?_, newFrag_counted ?_⟩
  · simp only [newFrag, FragmentedContainer.fragment, hnext, hfrags]
  · rw [FragmentedContainer.fragment, hlast]
    exact hfew

end Node

/-! ### One fragment -/

section Attach

variable {pb : ProtobufC} {z : Zlib} {n : Nat} {cs : Fin n → FragmentedContainer}
  {seen : List (Piece n)} {i : Fin n} {k : Nat} {env : CallEnv} {now : Timespec} {d : Decoder z}
  {fent : Frag}

theorem reassembleFrags_complete (hz : z.Lawful) (hvalid : (cs i).Valid pb z)
    (hfent : Holds cs seen i fent) (hcomplete : Complete cs seen i) (henv : env.Succeeds)
    (hzb : d.zb = z.inflateInit) :
    reassembleFrags pb env ⟨(cs i).flags, now, (cs i).addrSs⟩ d fent =
      .ok (.success, some (cs i).nmsg,
        { d with nft := d.nft.erase (cs i).key, nfrags := d.nfrags - 1 }) := by
  have hempty := (complete_iff_slots hvalid.piece_ne).mp hcomplete
  have hcollect : collectFrags fent.frags = .ok (cs i).pieces.flatten := by
    rw [hfent.frags, collectFrags_eq hempty, flatten_slotsOf hcomplete]
  have hslots := hfent.counted.slots
  obtain ⟨hubuf, -, -, hpayload⟩ := henv
  have hcarries := hvalid.carries
  simp only [reassembleFrags, hcollect]
  rw [if_neg (by omega), if_neg (by simp [hpayload]), hfent.key]
  by_cases hflag : (cs i).flags &&& flagZlib ≠ 0
  · have hcarries' : ∃ packed, (cs i).pieces.flatten = deflated z packed ∧
        packed.length < 2 ^ 32 ∧ (cs i).pieces.flatten.length < 2 ^ 32 ∧
        pb.unpackNmsg packed = some (cs i).nmsg := by
      simpa [Carries, FragmentedContainer.zlib, hflag] using hcarries
    obtain ⟨packed, hbody, hpacked, hlen, hunpack⟩ := hcarries'
    rw [if_pos hflag, hbody, hubuf, hzb,
      nmsgZbufInflate_deflated hz env.past hpacked (by rwa [← hbody])]
    simp only [hunpack]
  · have hunpack : pb.unpackNmsg (cs i).pieces.flatten = some (cs i).nmsg := by
      simpa [Carries, FragmentedContainer.zlib, hflag] using hcarries
    rw [if_neg hflag, hunpack]

/-- What attaching a piece to the node of its container comes to. -/
theorem attachFrag_piece (now : Timespec) (hz : z.Lawful) (hvalid : (cs i).Valid pb z)
    (hfent : Holds cs seen i fent) (hk : k < (cs i).pieces.length)
    (hincomplete : ¬ Complete cs seen i) (henv : env.Succeeds) (hzb : d.zb = z.inflateInit) :
    (∃ d' : Decoder z, attachFrag pb env ⟨(cs i).flags, now, (cs i).addrSs⟩ d fent
          ((cs i).fragment k) = .ok (.success, some (cs i).nmsg, d') ∧
        Complete cs (seen ++ [(i, k)]) i ∧ d'.zb = z.inflateInit ∧
        (∃ fent', fent'.key = (cs i).key ∧
          d'.nft = (d.nft.put fent').erase (cs i).key) ∧ d'.nfrags = d.nfrags - 1) ∨
      (∃ d' : Decoder z, attachFrag pb env ⟨(cs i).flags, now, (cs i).addrSs⟩ d fent
          ((cs i).fragment k) = .ok (.again, none, d') ∧
        ¬ Complete cs (seen ++ [(i, k)]) i ∧ d'.zb = z.inflateInit ∧
        (∃ fent', Holds cs (seen ++ [(i, k)]) i fent' ∧ fent'.ts = fent.ts ∧
          (d'.nft = d.nft.put fent' ∨ (fent' = fent ∧ d'.nft = d.nft))) ∧
        d'.nfrags = d.nfrags) := by
  have hle := hvalid.length_le
  have hcurrent : (UInt32.ofNat k).toNat = k := by
    rw [UInt32.toNat_ofNat', Nat.mod_eq_of_lt (by omega)]
  have hslot : fent.frags[k]? = some (if (i, k) ∈ seen then (cs i).pieces.getD k [] else []) := by
    rw [hfent.frags, getElem?_slotsOf hk]
  have hpiece := piece_ne_nil hvalid.piece_ne hk
  by_cases hdup : (i, k) ∈ seen
  · -- a duplicate: the slot is filled and nothing changes
    right
    have hsame : ∀ j, (i, j) ∈ seen ↔ (i, j) ∈ seen ++ [(i, k)] := by
      intro j
      constructor
      · exact fun h => List.mem_append_left _ h
      · intro h
        rcases List.mem_append.mp h with h | h
        · exact h
        · rw [List.mem_singleton] at h
          exact h ▸ hdup
    refine ⟨d, ?_, ?_, hzb, ⟨fent, ?_, rfl, Or.inr ⟨rfl, rfl⟩⟩, rfl⟩
    · simp only [attachFrag, FragmentedContainer.fragment, hcurrent, hslot, if_pos hdup]
      rw [if_pos hpiece]
    · intro hcomplete
      exact hincomplete fun j hj => (hsame j).mpr (hcomplete j hj)
    · exact ⟨hfent.key, hfent.last, by rw [hfent.frags, slotsOf_congr hsame], hfent.counted⟩
  · have hnone : fent.frags[k]? = some [] := by rw [hslot, if_neg hdup]
    have hlt : k < fent.frags.length := by rw [hfent.frags]; simpa using hk
    have hcount : (fent.frags.set k ((cs i).pieces.getD k [])).count [] + 1 =
        fent.frags.count [] := by
      have hget : fent.frags[k] = [] := by
        rw [List.getElem?_eq_getElem hlt, Option.some.injEq] at hnone
        exact hnone
      have hpos : 0 < fent.frags.count [] := List.count_pos_iff.mpr (hget ▸ List.getElem_mem hlt)
      rw [List.count_set hlt]
      simp only [hget, hpiece, beq_iff_eq, if_true, if_false]
      omega
    have hholds : Holds cs (seen ++ [(i, k)]) i { fent with
        frags := fent.frags.set k ((cs i).pieces.getD k [])
        rem := fent.rem - 1 } := by
      have hone : (1 : UInt32).toNat = 1 := rfl
      have hrem := hfent.counted.rem
      refine ⟨hfent.key, hfent.last, ?_, ?_, ?_⟩
      · simp only [hfent.frags, slotsOf_set hk]
      · simpa using hfent.counted.slots
      · simp only [Frag.missing] at hrem ⊢
        rw [UInt32.toNat_sub_of_le _ _ (UInt32.le_iff_toNat_le.mpr (by omega))]
        omega
    have hrem : fent.rem - 1 = 0 ↔ Complete cs (seen ++ [(i, k)]) i := by
      rw [complete_iff_slots hvalid.piece_ne, ← hholds.frags, ← List.count_eq_zero,
        ← Frag.missing, ← hholds.counted.rem, ← UInt32.toNat_inj]
      rfl
    have hattach : attachFrag pb env ⟨(cs i).flags, now, (cs i).addrSs⟩ d fent
        ((cs i).fragment k) =
        if fent.rem - 1 = 0 then
          reassembleFrags pb env ⟨(cs i).flags, now, (cs i).addrSs⟩
            { d with nft := d.nft.put { fent with
              frags := fent.frags.set k ((cs i).pieces.getD k [])
              rem := fent.rem - 1 } }
            { fent with
              frags := fent.frags.set k ((cs i).pieces.getD k [])
              rem := fent.rem - 1 }
        else .ok (.again, none, { d with nft := d.nft.put { fent with
          frags := fent.frags.set k ((cs i).pieces.getD k [])
          rem := fent.rem - 1 } }) := by
      simp only [attachFrag, FragmentedContainer.fragment, hcurrent, hnone, ne_eq,
        not_true_eq_false, if_false]
    by_cases hcomplete : Complete cs (seen ++ [(i, k)]) i
    · left
      refine ⟨{ d with
        nft := (d.nft.put { fent with
          frags := fent.frags.set k ((cs i).pieces.getD k [])
          rem := fent.rem - 1 }).erase (cs i).key
        nfrags := d.nfrags - 1 }, ?_, hcomplete, hzb, ⟨_, hholds.key, rfl⟩, rfl⟩
      rw [hattach, if_pos (hrem.mpr hcomplete)]
      exact reassembleFrags_complete hz hvalid hholds hcomplete henv hzb
    · right
      refine ⟨{ d with nft := d.nft.put { fent with
        frags := fent.frags.set k ((cs i).pieces.getD k [])
        rem := fent.rem - 1 } }, ?_, hcomplete, hzb, ⟨_, hholds, rfl, Or.inl rfl⟩, rfl⟩
      rw [hattach, if_neg (fun h => hcomplete (hrem.mp h))]

end Attach

/-! ### The tree -/

section Tree

variable {n : Nat} {cs : Fin n → FragmentedContainer} {seen : List (Piece n)} {i j : Fin n}
  {k : Nat} {t : KeyTree Frag.key} {fent : Frag}

/-- The tree holds what it should of container `i`. -/
def Tracks (cs : Fin n → FragmentedContainer) (seen : List (Piece n)) (t : KeyTree Frag.key)
    (i : Fin n) : Prop :=
  match t.find (cs i).key with
  | none => Complete cs seen i ∨ ∀ k, (i, k) ∉ seen
  | some fent => Holds cs seen i fent ∧ ¬ Complete cs seen i

theorem mem_append_other (h : j ≠ i) (k' : Nat) :
    (j, k') ∈ seen ↔ (j, k') ∈ seen ++ [(i, k)] := by
  simp [h]

theorem Holds.append_other (h : Holds cs seen j fent) (hne : j ≠ i) :
    Holds cs (seen ++ [(i, k)]) j fent :=
  ⟨h.key, h.last, h.frags.trans (slotsOf_congr (mem_append_other hne)), h.counted⟩

/-- What happens to another container does not matter. -/
theorem Tracks.append_other {t' : KeyTree Frag.key} (h : Tracks cs seen t j) (hne : j ≠ i)
    (hfind : t'.find (cs j).key = t.find (cs j).key) : Tracks cs (seen ++ [(i, k)]) t' j := by
  unfold Tracks at h ⊢
  rw [hfind]
  cases hnode : t.find (cs j).key with
  | some fent =>
      rw [hnode] at h
      refine ⟨h.1.append_other hne, fun hcomplete => h.2 fun k' hk' => ?_⟩
      exact (mem_append_other hne k').mpr (hcomplete k' hk')
  | none =>
      rw [hnode] at h
      rcases h with hcomplete | hunseen
      · exact Or.inl fun k' hk' => (mem_append_other hne k').mp (hcomplete k' hk')
      · exact Or.inr fun k' hmem => hunseen k' ((mem_append_other hne k').mpr hmem)

end Tree

/-! ### One call -/

section Call

variable {pb : ProtobufC} {z : Zlib} {n : Nat} {cs : Fin n → FragmentedContainer}
  {seen : List (Piece n)} {i : Fin n} {k : Nat} {env : CallEnv} {now : Timespec} {d : Decoder z}
  {fent : Frag}

/-- What the decoder holds after the pieces seen. -/
structure Collected (cs : Fin n → FragmentedContainer) (seen : List (Piece n)) (d : Decoder z) :
    Prop where
  zb : d.zb = z.inflateInit
  tracks : ∀ i, Tracks cs seen d.nft i
  ours : ∀ fent ∈ d.nft.nodes, ∃ i, fent.key = (cs i).key
  nfrags : d.nfrags.toNat = d.nft.size

/-- No node is thirty seconds old. -/
def Fresh (now : Timespec) (d : Decoder z) : Prop :=
  ∀ fent ∈ d.nft.nodes, now.sec - fent.ts.sec < fragGcInterval

theorem Fresh.put (hfresh : Fresh now d) (hfent : now.sec - fent.ts.sec < fragGcInterval) :
    ∀ f ∈ (d.nft.put fent).nodes, now.sec - f.ts.sec < fragGcInterval := by
  intro f hf
  rcases List.mem_cons.mp hf with rfl | hmem
  · exact hfent
  · exact hfresh f (List.mem_of_mem_filter hmem)

/-- A piece of a container whose node is in the tree. -/
theorem attachFrag_collected (now : Timespec) (hz : z.Lawful) (hvalid : (cs i).Valid pb z)
    (hkeys : Function.Injective fun i => (cs i).key) (hzb : d.zb = z.inflateInit)
    (htracks : ∀ j, j ≠ i → Tracks cs seen d.nft j)
    (hours : ∀ fent ∈ d.nft.nodes, ∃ i, fent.key = (cs i).key)
    (hnfrags : d.nfrags.toNat = d.nft.size)
    (hfind : d.nft.find (cs i).key = some fent) (hfent : Holds cs seen i fent)
    (hk : k < (cs i).pieces.length)
    (hincomplete : ¬ Complete cs seen i) (henv : env.Succeeds) :
    ∃ d', attachFrag pb env ⟨(cs i).flags, now, (cs i).addrSs⟩ d fent ((cs i).fragment k) =
        .ok ((outcome cs seen (i, k)).1, (outcome cs seen (i, k)).2, d') ∧
      Collected cs (seen ++ [(i, k)]) d' ∧ (Fresh now d → Fresh now d') := by
  have hother : ∀ j, j ≠ i → (cs j).key ≠ (cs i).key := fun j hj h => hj (hkeys h)
  rcases attachFrag_piece now hz hvalid hfent hk hincomplete henv hzb with
    ⟨d', hattach, hcomplete, hzb', ⟨fent', hkey, hnft⟩, hcount⟩ |
      ⟨d', hattach, hincomplete', hzb', ⟨fent', hholds, hts, hnft⟩, hcount⟩
  · refine ⟨d', ?_, ⟨hzb', ?_, ?_, ?_⟩, ?_⟩
    · simpa only [outcome, if_pos hcomplete] using hattach
    · intro j
      by_cases hj : j = i
      · subst hj
        rw [Tracks, hnft, KeyTree.find_erase_self]
        exact Or.inl hcomplete
      · refine (htracks j hj).append_other hj ?_
        rw [hnft, KeyTree.find_erase_of_ne (hother j hj),
          KeyTree.find_put_of_ne (by rw [hkey]; exact hother j hj)]
    · intro f hf
      rw [hnft] at hf
      have hmem := List.mem_of_mem_filter hf
      rcases List.mem_cons.mp hmem with rfl | hold
      · exact ⟨i, hkey⟩
      · exact hours f (List.mem_of_mem_filter hold)
    · have hput : (d.nft.put fent').size = d.nft.size :=
        KeyTree.size_put_of_find (by rw [hkey]; exact hfind)
      have herase : ((d.nft.put fent').erase (cs i).key).size + 1 = (d.nft.put fent').size :=
        KeyTree.size_erase_of_find (by rw [← hkey]; exact KeyTree.find_put_self)
      have hone : (1 : UInt32).toNat = 1 := rfl
      rw [hcount, hnft, UInt32.toNat_sub_of_le _ _ (UInt32.le_iff_toNat_le.mpr (by omega))]
      omega
    · intro hfresh f hf
      rw [hnft] at hf
      have hmem := List.mem_of_mem_filter hf
      rcases List.mem_cons.mp hmem with rfl | hold
      · have hgone := (List.mem_filter.mp hf).2
        simp [hkey] at hgone
      · exact hfresh f (List.mem_of_mem_filter hold)
  · refine ⟨d', ?_, ⟨hzb', ?_, ?_, ?_⟩, ?_⟩
    · simpa only [outcome, if_neg hincomplete'] using hattach
    · intro j
      by_cases hj : j = i
      · subst hj
        have hnode : d'.nft.find (cs j).key = some fent' := by
          rcases hnft with hput | ⟨rfl, hsame⟩
          · rw [hput, ← hholds.key, KeyTree.find_put_self]
          · rw [hsame, hfind]
        rw [Tracks, hnode]
        exact ⟨hholds, hincomplete'⟩
      · refine (htracks j hj).append_other hj ?_
        rcases hnft with hput | ⟨-, hsame⟩
        · rw [hput, KeyTree.find_put_of_ne (by rw [hholds.key]; exact hother j hj)]
        · rw [hsame]
    · rcases hnft with hput | ⟨-, hsame⟩
      · intro f hf
        rw [hput] at hf
        rcases List.mem_cons.mp hf with rfl | hold
        · exact ⟨i, hholds.key⟩
        · exact hours f (List.mem_of_mem_filter hold)
      · rw [hsame]
        exact hours
    · rcases hnft with hput | ⟨-, hsame⟩
      · rw [hcount, hput, KeyTree.size_put_of_find (by rw [hholds.key]; exact hfind), hnfrags]
      · rw [hcount, hsame, hnfrags]
    · intro hfresh
      have hfresh' := hfresh fent (KeyTree.mem_of_find hfind)
      rcases hnft with hput | ⟨-, hsame⟩
      · rw [Fresh, hput]
        exact hfresh.put (by rw [hts]; exact hfresh')
      · rw [Fresh, hsame]
        exact hfresh

/-- A piece of a container that is not complete yet is answered as it should be. -/
theorem inputFragRead_piece {buf : Bytes} (now : Timespec) (hz : z.Lawful) (hvalid : (cs i).Valid pb z)
    (hkeys : Function.Injective fun i => (cs i).key) (hfew : (cs i).pieces.length < 2 ^ 32)
    (hd : Collected cs seen d) (hroom : d.nft.find (cs i).key = none → d.nft.size + 1 < 2 ^ 32)
    (hk : k < (cs i).pieces.length) (hincomplete : ¬ Complete cs seen i) (henv : env.Succeeds)
    (hunpack : pb.unpackFragment buf = some ((cs i).fragment k)) :
    ∃ d', inputFragRead pb env ⟨(cs i).flags, now, (cs i).addrSs⟩ d buf =
        .ok ((outcome cs seen (i, k)).1, (outcome cs seen (i, k)).2, d') ∧
      Collected cs (seen ++ [(i, k)]) d' ∧ (Fresh now d → Fresh now d') := by
  have hkey : fragKey ⟨(cs i).flags, now, (cs i).addrSs⟩ ((cs i).fragment k) = (cs i).key := rfl
  obtain ⟨hubuf, hfentok, hfragsok, hpayload⟩ := henv
  have hi := hd.tracks i
  unfold Tracks at hi
  cases hfind : d.nft.find (cs i).key with
  | some fent =>
      rw [hfind] at hi
      have hlast : fent.last = ((cs i).fragment k).last := hi.1.last
      simp only [inputFragRead, hunpack, hkey, hfind, hlast, ne_eq, not_true_eq_false, if_false]
      exact attachFrag_collected now hz hvalid hkeys hd.zb (fun j _ => hd.tracks j) hd.ours hd.nfrags
        hfind hi.1 hk hincomplete ⟨hubuf, hfentok, hfragsok, hpayload⟩
  | none =>
      rw [hfind] at hi
      have hunseen : ∀ k, (i, k) ∉ seen := hi.resolve_left hincomplete
      have hnew := holds_newFrag hvalid hfew hunseen now k
      have hnone : d.nft.find
          (newFrag ⟨(cs i).flags, now, (cs i).addrSs⟩ ((cs i).fragment k)).key = none := hfind
      have hsize := KeyTree.size_put_of_find_eq_none hnone
      have hone : (1 : UInt32).toNat = 1 := rfl
      simp only [inputFragRead, hunpack, hkey, hfind, hfentok, hfragsok, Bool.true_eq_false,
        if_false]
      have htracks : ∀ j, j ≠ i → Tracks cs seen (d.nft.put
          (newFrag ⟨(cs i).flags, now, (cs i).addrSs⟩ ((cs i).fragment k))) j := by
        intro j hj
        have hne : (cs j).key ≠
            (newFrag ⟨(cs i).flags, now, (cs i).addrSs⟩ ((cs i).fragment k)).key :=
          fun h => hj (hkeys h)
        have hj := hd.tracks j
        unfold Tracks at hj ⊢
        rwa [KeyTree.find_put_of_ne hne]
      have hours : ∀ f ∈ (d.nft.put
          (newFrag ⟨(cs i).flags, now, (cs i).addrSs⟩ ((cs i).fragment k))).nodes,
          ∃ i, f.key = (cs i).key := by
        intro f hf
        rcases List.mem_cons.mp hf with rfl | hold
        · exact ⟨i, rfl⟩
        · exact hd.ours f (List.mem_of_mem_filter hold)
      have hnfrags : (d.nfrags + 1).toNat = (d.nft.put
          (newFrag ⟨(cs i).flags, now, (cs i).addrSs⟩ ((cs i).fragment k))).size := by
        rw [hsize, UInt32.toNat_add, hone, hd.nfrags, Nat.mod_eq_of_lt (hroom hfind)]
      have hzb : ({ d with
          nft := d.nft.put (newFrag ⟨(cs i).flags, now, (cs i).addrSs⟩ ((cs i).fragment k))
          nfrags := d.nfrags + 1 } : Decoder z).zb = z.inflateInit := hd.zb
      obtain ⟨d', hattach, hcollected, hfresh'⟩ := attachFrag_collected now hz hvalid hkeys hzb
        htracks hours hnfrags KeyTree.find_put_self hnew hk hincomplete
        ⟨hubuf, hfentok, hfragsok, hpayload⟩
      refine ⟨d', hattach, hcollected, fun hfresh => hfresh' (hfresh.put ?_)⟩
      simp [newFrag, fragGcInterval]

theorem inputFragGc_fresh {lastgc : Timespec} (h : Fresh now d) :
    (inputFragGc now lastgc d).2 = d := by
  have hall : d.nft.nodes.filter
      (fun fent => decide ¬ now.sec - fent.ts.sec ≥ fragGcInterval) = d.nft.nodes := by
    rw [List.filter_eq_self]
    intro fent hfent
    simpa using h fent hfent
  have hkeep : d.nft.keep (fun fent => decide ¬ now.sec - fent.ts.sec ≥ fragGcInterval) =
      d.nft := by
    obtain ⟨zb, ⟨nodes, distinct⟩, nfrags⟩ := d
    simpa only [KeyTree.keep, KeyTree.mk.injEq] using hall
  unfold inputFragGc
  split
  · rfl
  · simp only [hkeep, Nat.sub_self]
    rw [show UInt32.ofNat 0 = 0 from rfl, UInt32.sub_zero]

/-- What a call does that receives a fragment. -/
theorem inputNmsgReadContainerSock_fragment {s : SockInput z} {call : RecvCall}
    {arrival : Arrival} {nfrag : NmsgFragment} (h : call.fragment pb = some (arrival, nfrag)) :
    ∃ buf, pb.unpackFragment buf = some nfrag ∧
      (∀ e, inputFragRead pb call.env arrival s.decoder buf = .error e →
        inputNmsgReadContainerSock pb s call = .error e) ∧
      ∀ res nmsg d', inputFragRead pb call.env arrival s.decoder buf = .ok (res, nmsg, d') →
        ∃ s', s'.decoder = d' ∧ s'.now = arrival.now ∧
          inputNmsgReadContainerSock pb s call = .ok ((res, nmsg), sockGc s') := by
  unfold RecvCall.fragment at h
  cases hevent : call.event with
  | pollAgain => simp [hevent] at h
  | pollFailure => simp [hevent] at h
  | recvAgain now => simp [hevent] at h
  | recvFailure now => simp [hevent] at h
  | datagram now addrSs bytes =>
      simp only [hevent] at h
      split at h
      · cases h
      rename_i hlen
      split at h
      case h_2 => cases h
      rename_i flags msgsize hheader
      split at h
      case isFalse => cases h
      rename_i hmatch
      obtain ⟨hsize, hflag⟩ := hmatch
      obtain ⟨nfrag', hunpack, hpair⟩ := Option.map_eq_some_iff.mp h
      rw [Prod.mk.injEq] at hpair
      obtain ⟨rfl, rfl⟩ := hpair
      have hne : bytes ≠ [] := by
        rintro rfl
        simp [hdrlszV2] at hlen
      refine ⟨_, hunpack, ?_, ?_⟩
      · intro e hread
        simp only [inputNmsgReadContainerSock, hevent, if_neg hne, sockUnpack, if_neg hlen,
          hheader, inputNmsgUnpackContainer, if_neg (not_not.mpr hsize), if_pos hflag, hread]
      · intro res nmsg d' hread
        simp only [inputNmsgReadContainerSock, hevent, if_neg hne, sockUnpack, if_neg hlen,
          hheader, inputNmsgUnpackContainer, if_neg (not_not.mpr hsize), if_pos hflag, hread]
        cases nmsg with
        | none => exact ⟨_, rfl, rfl, rfl⟩
        | some nmsg => exact ⟨_, sockCount_decoder _ _, sockCount_now _ _, rfl⟩

/-- One call that receives a piece. -/
theorem inputNmsgReadContainerSock_piece {s : SockInput z} {call : RecvCall} {a : Piece n}
    (hz : z.Lawful) (hvalid : ∀ i, (cs i).Valid pb z)
    (hkeys : Function.Injective fun i => (cs i).key)
    (hfew : ∀ i, (cs i).pieces.length < 2 ^ 32) (hs : Collected cs seen s.decoder)
    (hcall : Receives cs pb call a) (htimely : CallTimely pb s call)
    (hcounted : CallCounted pb s call) (hincomplete : ¬ Complete cs seen a.1) :
    ∃ s', inputNmsgReadContainerSock pb s call = .ok (outcome cs seen a, s') ∧
      Collected cs (seen ++ [a]) s'.decoder := by
  obtain ⟨⟨now, hfragment⟩, hk, henv⟩ := hcall
  have hfresh := htimely _ _ hfragment
  have hroom := hcounted _ _ hfragment
  obtain ⟨buf, hunpack, -, hread⟩ := inputNmsgReadContainerSock_fragment (s := s) hfragment
  obtain ⟨d', hfrag, hcollected, hfresh'⟩ := inputFragRead_piece now hz (hvalid a.1) hkeys (hfew a.1)
    hs hroom hk hincomplete henv hunpack
  obtain ⟨s', hdecoder, hnow, hok⟩ := hread _ _ _ hfrag
  refine ⟨sockGc s', hok, ?_⟩
  have hgc : (sockGc s').decoder = d' := by
    simp only [sockGc]
    rw [← hdecoder]
    exact inputFragGc_fresh (by rw [hnow, hdecoder]; exact hfresh' hfresh)
  rw [hgc]
  exact hcollected

end Call

/-! ### Runs -/

section Runs

variable {pb : ProtobufC} {z : Zlib} {n : Nat} {cs : Fin n → FragmentedContainer}
  {seen : List (Piece n)} {i : Fin n} {arrivals : List (Piece n)}

theorem BeforeCompletion.head {a : Piece n} (h : BeforeCompletion cs seen (a :: arrivals)) :
    ¬ Complete cs seen a.1 := by
  simpa using h [] a arrivals rfl

theorem BeforeCompletion.tail {a : Piece n} (h : BeforeCompletion cs seen (a :: arrivals)) :
    BeforeCompletion cs (seen ++ [a]) arrivals := by
  intro earlier b later heq
  have hb := h (a :: earlier) b later (by rw [heq]; rfl)
  simpa using hb

theorem collected_open (z : Zlib) (cs : Fin n → FragmentedContainer) :
    Collected cs [] (SockInput.open z).decoder :=
  ⟨rfl, fun _ => Or.inr fun _ => List.not_mem_nil, fun _ h => (List.not_mem_nil h).elim, rfl⟩

/-- By induction on the arrivals: every answer is the right one, and `Collected` carries over. -/
theorem run_collected (hz : z.Lawful) (hvalid : ∀ i, (cs i).Valid pb z)
    (hkeys : Function.Injective fun i => (cs i).key)
    (hfew : ∀ i, (cs i).pieces.length < 2 ^ 32) {s : SockInput z} {calls : List RecvCall}
    (hcalls : List.Forall₂ (Receives cs pb) calls arrivals)
    (hbefore : BeforeCompletion cs seen arrivals)
    (htimely : StepRun.Along (inputNmsgReadContainerSock pb) (CallTimely pb) s calls)
    (hcounted : StepRun.Along (inputNmsgReadContainerSock pb) (CallCounted pb) s calls)
    (hs : Collected cs seen s.decoder) :
    StepRun.Safe (inputNmsgReadContainerSock pb) SockInput.FragsNumbered s calls ∧
      ∃ s', StepRun.run (inputNmsgReadContainerSock pb) s calls =
        .ok (outcomes cs seen arrivals, s') := by
  induction hcalls generalizing seen s with
  | nil => exact ⟨hs.nfrags, s, rfl⟩
  | cons hcall _ ih =>
      obtain ⟨s', hok, hs'⟩ := inputNmsgReadContainerSock_piece hz hvalid hkeys hfew hs hcall
        htimely.1 hcounted.1 hbefore.head
      obtain ⟨hsafe, t, hrun⟩ := ih hbefore.tail (htimely.2 _ _ hok) (hcounted.2 _ _ hok) hs'
      exact ⟨⟨hs.nfrags, _, _, hok, hsafe⟩, t,
        StepRun.run_cons_eq_ok.mpr ⟨_, _, _, hok, hrun, rfl⟩⟩

/-- A complete container is not handed over again. -/
theorem deliveries_of_complete (hbefore : BeforeCompletion cs seen arrivals)
    (hcomplete : Complete cs seen i) :
    deliveries cs i arrivals (outcomes cs seen arrivals) = 0 := by
  induction arrivals generalizing seen with
  | nil => rfl
  | cons a rest ih =>
      have hrest := ih hbefore.tail fun k hk => List.mem_append_left _ (hcomplete k hk)
      have hne : a.1 ≠ i := by
        rintro rfl
        exact hbefore.head hcomplete
      simpa [deliveries, outcomes, hne] using hrest

/-- A container whose pieces are not all there yet is handed over once by the time they are. -/
theorem deliveries_of_incomplete (hbefore : BeforeCompletion cs seen arrivals)
    (hincomplete : ¬ Complete cs seen i) (hall : Complete cs (seen ++ arrivals) i) :
    deliveries cs i arrivals (outcomes cs seen arrivals) = 1 := by
  induction arrivals generalizing seen with
  | nil =>
      rw [List.append_nil] at hall
      exact absurd hall hincomplete
  | cons a rest ih =>
      by_cases hcomplete : Complete cs (seen ++ [a]) i
      · have hrest := deliveries_of_complete hbefore.tail hcomplete
        have ha : a.1 = i := by
          by_contra hne
          apply hincomplete
          intro k hk
          have hmem := hcomplete k hk
          rw [show a = (a.1, a.2) from rfl] at hmem
          exact (mem_append_other (Ne.symm hne) k).mpr hmem
        subst ha
        simp only [deliveries, outcomes, outcome, if_pos hcomplete, List.zip_cons_cons] at hrest ⊢
        rw [List.countP_cons_of_pos (by simp), hrest]
      · have hrest := ih hbefore.tail hcomplete (by simpa using hall)
        have hskip : ¬ (a.1 = i ∧ outcome cs seen a = (.success, some (cs i).nmsg)) := by
          rintro ⟨rfl, hout⟩
          rw [outcome, if_neg hcomplete] at hout
          cases hout
        simp only [deliveries, outcomes, List.zip_cons_cons] at hrest ⊢
        rw [List.countP_cons_of_neg (by simpa using hskip), hrest]

end Runs

/-- **Defragmentation.** Containers of fewer than `2 ^ 32` pieces each, whose pieces arrive in any
order, interleaved and repeated before completion, are each handed over exactly once, by the piece
that completes them; every other piece is answered by `again`; and `nfrags` is the number of nodes
throughout. -/
theorem defragmentation_delivers {pb : ProtobufC} {z : Zlib} (hz : z.Lawful) {n : Nat}
    {cs : Fin n → FragmentedContainer} {arrivals : List (Piece n)} {calls : List RecvCall}
    (harrive : PiecesArrive pb z cs arrivals calls) (hfew : ∀ i, (cs i).pieces.length < 2 ^ 32)
    (hcounted : StepRun.Along (inputNmsgReadContainerSock pb) (CallCounted pb) (SockInput.open z)
      calls) :
    Delivers pb z cs arrivals calls := by
  obtain ⟨hvalid, hkeys, hbefore, hall, hreceived, htimely⟩ := harrive
  obtain ⟨hsafe, hrun⟩ := run_collected hz hvalid hkeys hfew hreceived hbefore htimely hcounted
    (collected_open z cs)
  refine ⟨hsafe, hrun, fun i => deliveries_of_incomplete hbefore ?_ (by simpa using hall i)⟩
  intro hcomplete
  have hpos := List.length_pos_of_ne_nil (hvalid i).pieces_ne
  exact List.not_mem_nil (hcomplete 0 hpos)

/-! ### As many pieces as indices -/

/-- With `2 ^ 32` pieces the number of slots wraps to zero, and the first piece is written outside
of them. -/
theorem inputNmsgReadContainerSock_wraps {pb : ProtobufC} {z : Zlib} {n : Nat}
    {cs : Fin n → FragmentedContainer} {a : Piece n} {call : RecvCall}
    (hlen : (cs a.1).pieces.length = 2 ^ 32) (hcall : Receives cs pb call a) :
    inputNmsgReadContainerSock pb (SockInput.open z) call = .error .outOfBounds := by
  obtain ⟨⟨now, hfragment⟩, -, -, hfentok, hfragsok, -⟩ := hcall
  obtain ⟨buf, hunpack, herror, -⟩ :=
    inputNmsgReadContainerSock_fragment (s := SockInput.open z) hfragment
  have hnext : (cs a.1).last + 1 = 0 := by
    simp only [FragmentedContainer.last, hlen]
    decide
  apply herror
  have hnone : (SockInput.open z).decoder.nft.find
      (fragKey ⟨(cs a.1).flags, now, (cs a.1).addrSs⟩ ((cs a.1).fragment a.2)) = none := rfl
  have hslots : (newFrag ⟨(cs a.1).flags, now, (cs a.1).addrSs⟩
      ((cs a.1).fragment a.2)).frags = [] := by
    simp only [newFrag, FragmentedContainer.fragment, hnext]
    rfl
  simp only [inputFragRead, hunpack, hnone, hfentok, hfragsok, Bool.true_eq_false, if_false,
    attachFrag, hslots, List.getElem?_nil]

/-- A message in pieces of one octet, from one sender. -/
def octetContainer (nmsg : ProtoNmsg) : FragmentedContainer where
  id := 7
  crc := none
  addrSs := .inet 53 1 []
  flags := flagFragment
  pieces := (wire.packNmsg nmsg).map fun octet => [octet]
  nmsg := nmsg

/-- The first `k` pieces of a container. -/
def firstPieces (k : Nat) : List (Piece 1) := (List.range k).map fun j => (0, j)

/-- The pieces of a container in order. -/
def inOrder (c : FragmentedContainer) : List (Piece 1) :=
  (List.range c.pieces.length).map fun k => (0, k)

section Octets

variable {c : FragmentedContainer} {nmsg : ProtoNmsg} {z : Zlib}

theorem length_octetContainer_pieces (nmsg : ProtoNmsg) :
    (octetContainer nmsg).pieces.length = nmsgPackedSize nmsg := by
  rw [octetContainer, List.length_map, wire_lawful.length_packNmsg]

theorem octetContainer_valid (hne : nmsgPackedSize nmsg ≠ 0) (hle : nmsgPackedSize nmsg ≤ 2 ^ 32) :
    (octetContainer nmsg).Valid wire z where
  pieces_ne := by
    rw [← List.length_pos_iff, length_octetContainer_pieces]
    omega
  piece_ne := by simp [octetContainer]
  length_le := by rwa [length_octetContainer_pieces]
  flagged := by
    simp only [octetContainer]
    decide
  carries := by
    have hflatten : (octetContainer nmsg).pieces.flatten = wire.packNmsg nmsg := by
      simp only [octetContainer, ← List.flatMap_def, List.flatMap_singleton']
    have hflag : flagFragment &&& flagZlib = 0 := by decide
    have hzlib : (octetContainer nmsg).zlib = false := by
      simp [FragmentedContainer.zlib, octetContainer, hflag]
    rw [hflatten, hzlib]
    exact wire_lawful.unpackNmsg_packNmsg _

/-- A call that receives piece `k`. -/
def octetCall (c : FragmentedContainer) (k : Nat) : RecvCall :=
  fragmentCall wire ⟨c.flags, ⟨0, 0⟩, c.addrSs⟩ (c.fragment k)

theorem fragment_octetCall {k : Nat} (hk : k < (octetContainer nmsg).pieces.length) :
    (octetCall (octetContainer nmsg) k).fragment wire =
      some (⟨flagFragment, ⟨0, 0⟩, .inet 53 1 []⟩, (octetContainer nmsg).fragment k) := by
  refine fragment_fragmentCall wire_lawful ?_ ?_
  · simp only [octetContainer]
    decide
  have hone : ((octetContainer nmsg).pieces.getD k []).length = 1 := by
    rw [List.getD_eq_getElem?_getD, List.getElem?_eq_getElem hk]
    simp [octetContainer]
  have hid := varintSize_uint32 (octetContainer nmsg).id
  have hcurrent := varintSize_uint32 (.ofNat k)
  have hlast := varintSize_uint32 (octetContainer nmsg).last
  have hcrc := optionalSize_le (octetContainer nmsg).crc
  have hlength : WireFormat.varintSize 1 = 1 := by decide
  have hhalf : rbufsz / 2 = 1048576 := rfl
  have hheader : hdrlszV2 = 10 := rfl
  simp only [fragmentPackedSize, FragmentedContainer.fragment, hone]
  omega

/-- Calls that receive all pieces in order. -/
def inOrderCalls (c : FragmentedContainer) : List RecvCall :=
  (inOrder c).map fun a => octetCall c a.2

theorem inOrderCalls_receive (nmsg : ProtoNmsg) :
    List.Forall₂ (Receives (fun _ => octetContainer nmsg) wire)
      (inOrderCalls (octetContainer nmsg)) (inOrder (octetContainer nmsg)) := by
  rw [inOrderCalls, List.forall₂_map_left_iff, List.forall₂_same]
  intro a ha
  obtain ⟨k, hk, rfl⟩ := List.mem_map.mp ha
  have hlt := List.mem_range.mp hk
  exact ⟨⟨⟨0, 0⟩, fragment_octetCall hlt⟩, hlt, rfl, rfl, rfl, rfl⟩

theorem inOrder_beforeCompletion (c : FragmentedContainer) :
    BeforeCompletion (fun _ => c) [] (inOrder c) := by
  intro earlier a later heq hcomplete
  have hnodup : (inOrder c).Nodup :=
    List.nodup_range.map fun _ _ h => congrArg Prod.snd h
  have hmem : a ∈ inOrder c := by rw [heq]; simp
  obtain ⟨k, hk, rfl⟩ := List.mem_map.mp hmem
  have hseen := hcomplete k (List.mem_range.mp hk)
  rw [heq, List.nodup_append] at hnodup
  exact hnodup.2.2 _ (by simpa using hseen) _ List.mem_cons_self rfl

theorem inOrder_complete (c : FragmentedContainer) (i : Fin 1) :
    Complete (fun _ => c) (inOrder c) i := by
  intro k hk
  exact List.mem_map.mpr ⟨k, List.mem_range.mpr hk, by rw [Subsingleton.elim i 0]⟩

end Octets

/-- A message in as many pieces as there are indices is lost with its first piece. -/
theorem octetContainer_wraps {nmsg : ProtoNmsg} (hlen : nmsgPackedSize nmsg = 2 ^ 32) :
    PiecesArrive wire storedZlib (fun _ => octetContainer nmsg) (inOrder (octetContainer nmsg))
        (inOrderCalls (octetContainer nmsg)) ∧
      StepRun.run (inputNmsgReadContainerSock wire) (SockInput.open storedZlib)
        (inOrderCalls (octetContainer nmsg)) = .error .outOfBounds := by
  have hpieces := (length_octetContainer_pieces nmsg).trans hlen
  have hcalls := inOrderCalls_receive nmsg
  have hne : inOrder (octetContainer nmsg) ≠ [] := by
    rw [← List.length_pos_iff, inOrder, List.length_map, List.length_range]
    omega
  obtain ⟨call, calls, harrivals, habort⟩ : ∃ call calls,
      inOrderCalls (octetContainer nmsg) = call :: calls ∧
        inputNmsgReadContainerSock wire (SockInput.open storedZlib) call =
          .error .outOfBounds := by
    generalize inOrderCalls (octetContainer nmsg) = calls at hcalls
    generalize inOrder (octetContainer nmsg) = arrivals at hcalls hne
    cases hcalls with
    | nil => exact absurd rfl hne
    | cons hfirst _ => exact ⟨_, _, rfl, inputNmsgReadContainerSock_wraps hpieces hfirst⟩
  refine ⟨⟨fun _ => octetContainer_valid (by omega) (by omega),
    Function.injective_of_subsingleton _, inOrder_beforeCompletion _, inOrder_complete _, hcalls,
    ?_⟩, ?_⟩
  · rw [harrivals]
    refine ⟨?_, fun r s' hok => ?_⟩
    · intro arrival nfrag _
      exact fun fent hfent => (List.not_mem_nil hfent).elim
    · rw [habort] at hok
      cases hok
  · rw [harrivals]
    simp only [StepRun.run, habort]

/-- A message that packs to two octets. -/
def sequenceNmsg : ProtoNmsg := ⟨[], [], some 5, none⟩

theorem defragmentation_delivers_sample :
    Delivers wire storedZlib (fun _ => octetContainer sequenceNmsg)
      (inOrder (octetContainer sequenceNmsg)) (inOrderCalls (octetContainer sequenceNmsg)) := by
  have hlen : nmsgPackedSize sequenceNmsg = 2 := by decide
  have hpieces := (length_octetContainer_pieces sequenceNmsg).trans hlen
  have hfirst := @fragment_octetCall sequenceNmsg 0 (by omega)
  have hsecond := @fragment_octetCall sequenceNmsg 1 (by omega)
  refine defragmentation_delivers storedZlib_lawful
    ⟨fun _ => octetContainer_valid (by omega) (by omega), Function.injective_of_subsingleton _,
      inOrder_beforeCompletion _, inOrder_complete _, inOrderCalls_receive _, ?_⟩
    (fun _ => by omega) ?_
  · refine StepRun.along_cons (RecvCall.forall_fragment hfirst (by decide)) ?_
    exact StepRun.along_cons (RecvCall.forall_fragment hsecond (by decide)) trivial
  · refine StepRun.along_cons (RecvCall.forall_fragment hfirst (by decide)) ?_
    exact StepRun.along_cons (RecvCall.forall_fragment hsecond (by decide)) trivial

/-- A message with `n` octets of payload. -/
def paddedNmsg (n : Nat) : ProtoNmsg where
  payloads := [⟨1, 1, 0, 0, some (List.replicate n 0), none, none, none⟩]
  payloadCrcs := []
  sequence := none
  sequenceId := none

theorem nmsgPackedSize_paddedNmsg (n : Nat) :
    nmsgPackedSize (paddedNmsg n) =
      1 + WireFormat.varintSize (12 + WireFormat.varintSize n + n) +
        (12 + WireFormat.varintSize n + n) := by
  have hone : WireFormat.varintSize (1 : UInt32).toNat = 1 := by decide
  have hzero : int64Size 0 = 1 := by decide
  have hpayload : payloadPackedSize ⟨1, 1, 0, 0, some (List.replicate n 0), none, none, none⟩ =
      12 + WireFormat.varintSize n + n := by
    simp only [payloadPackedSize, optionalBytesSize, optionalSize, List.length_replicate, hone,
      hzero]
    omega
  simp only [nmsgPackedSize, paddedNmsg, List.map_cons, List.map_nil, List.sum_cons, List.sum_nil,
    payloadFieldSize, hpayload, sequenceSize, optionalSize, optionalSize64]
  omega

theorem nmsgPackedSize_wrapping : nmsgPackedSize (paddedNmsg 4294967273) = 2 ^ 32 := by
  have hsize : WireFormat.varintSize 4294967273 = 5 := by decide
  have hpayload : WireFormat.varintSize 4294967290 = 5 := by decide
  rw [nmsgPackedSize_paddedNmsg, hsize, hpayload]
  rfl

/-- **A container of `2 ^ 32` pieces is not delivered.** All that is asked of the pieces and their
arrival is met, and the first of them is written outside of the slots. -/
theorem defragmentation_wraps :
    PiecesArrive wire storedZlib (fun _ => octetContainer (paddedNmsg 4294967273))
        (inOrder (octetContainer (paddedNmsg 4294967273)))
        (inOrderCalls (octetContainer (paddedNmsg 4294967273))) ∧
      ¬ Delivers wire storedZlib (fun _ => octetContainer (paddedNmsg 4294967273))
        (inOrder (octetContainer (paddedNmsg 4294967273)))
        (inOrderCalls (octetContainer (paddedNmsg 4294967273))) := by
  obtain ⟨harrive, hrun⟩ := octetContainer_wraps nmsgPackedSize_wrapping
  refine ⟨harrive, ?_⟩
  rintro ⟨-, ⟨s, hok⟩, -⟩
  rw [hrun] at hok
  cases hok

end Nmsg

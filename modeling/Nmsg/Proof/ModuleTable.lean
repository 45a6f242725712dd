import Mathlib.Data.List.Induction
import Nmsg.Lib.Outcome
import Nmsg.Msgmod.Msgmodset

/-!
# The table of message modules is a map

Each level of the table is an array up to its largest index, and is a map. An insertion puts one
module into the map, in any order, and the loops over names go through all that is in it.
-/

namespace Nmsg

open Text (EqIgnoringCase)

variable {α β : Type}

/-! ### Both levels -/

theorem resizeTo_holds {a : PointerArray β} {maxIdx : Nat} {f : Nat → Option β} {id : UInt32}
    (h : a.Holds (maxIdx + 1) f) (hmax : maxIdx + 1 < 4294967296) (hid : id.toNat + 1 < 4294967296) :
    ∃ a' n, resizeTo a maxIdx id = .ok (a', n) ∧ a'.Holds (n + 1) f ∧ id.toNat ≤ n ∧
      n + 1 < 4294967296 := by
  unfold resizeTo
  by_cases hlt : maxIdx < id.toNat
  · obtain ⟨a', hok, hholds⟩ := h.grow Abort.outOfBounds .divergence (Nat.succ_le_succ hlt.le) hid
    rw [if_pos hlt, PointerArray.toNat_add_one hid, hok]
    exact ⟨a', _, rfl, hholds, Nat.le_refl _, hid⟩
  · rw [if_neg hlt]
    exact ⟨a, maxIdx, rfl, h, Nat.le_of_not_lt hlt, hmax⟩

/-- The modules of a vendor are the map `f`. -/
structure Msgvendor.Is (msgv : Msgvendor α) (f : Nat → Option α) : Prop where
  msgtypes : msgv.msgtypes.Holds (msgv.nm + 1) f
  width : msgv.nm + 1 < 4294967296

/-- The table is the map `f`. -/
structure Msgmodset.Is (ms : Msgmodset α) (f : Nat → Nat → Option α) : Prop where
  vendors : ∃ g, ms.vendors.Holds (ms.nv + 1) g ∧ (∀ vid, g vid = none → ∀ t, f vid t = none) ∧
    ∀ vid msgv, g vid = some msgv → msgv.Is (f vid)
  width : ms.nv + 1 < 4294967296

theorem msgvendor_is : (⟨.calloc 1, 0⟩ : Msgvendor α).Is fun _ => none :=
  ⟨PointerArray.calloc_holds 1, (by decide : 0 + 1 < 4294967296)⟩

theorem msgmodsetInit_is : (msgmodsetInit : Msgmodset α).Is fun _ _ => none :=
  ⟨⟨fun _ => none, PointerArray.calloc_holds 1, fun _ _ _ => rfl, nofun⟩,
    (by decide : 0 + 1 < 4294967296)⟩

section Is

variable {ms : Msgmodset α} {msgv : Msgvendor α} {f : Nat → Nat → Option α} {vid : Nat}

/-- What the table has for a vendor up to the largest. -/
theorem Msgmodset.Is.vendor (h : ms.Is f) (hvid : vid ≤ ms.nv) :
    (ms.vendors.loadCell Abort.outOfBounds vid = .ok none ∧ ∀ t, f vid t = none) ∨
      ∃ msgv, ms.vendors.loadCell Abort.outOfBounds vid = .ok (some msgv) ∧ msgv.Is (f vid) := by
  obtain ⟨g, hholds, hnone, hsome⟩ := h.vendors
  rw [hholds.loadCell (Nat.lt_succ_of_le hvid)]
  cases hg : g vid with
  | none => exact Or.inl ⟨rfl, hnone vid hg⟩
  | some msgv => exact Or.inr ⟨msgv, rfl, hsome vid msgv hg⟩

theorem Msgmodset.Is.beyond (h : ms.Is f) (hvid : ms.nv < vid) (t : Nat) : f vid t = none := by
  obtain ⟨g, hholds, hnone, -⟩ := h.vendors
  exact hnone vid (hholds.beyond vid hvid) t

/-- **Lookup.** -/
theorem Msgmodset.Is.lookup (h : ms.Is f) (vid msgtype : UInt32) :
    nmsgMsgmodLookup ms vid msgtype = .ok (f vid.toNat msgtype.toNat) := by
  unfold nmsgMsgmodLookup
  by_cases hvid : vid.toNat ≤ ms.nv
  · rw [if_pos hvid]
    rcases h.vendor hvid with ⟨hload, hnone⟩ | ⟨msgv, hload, hmsgv⟩
    · rw [hload, hnone]
    · rw [hload]
      dsimp only
      by_cases hmsgtype : msgtype.toNat ≤ msgv.nm
      · rw [if_pos hmsgtype, hmsgv.msgtypes.loadCell (Nat.lt_succ_of_le hmsgtype)]
      · rw [if_neg hmsgtype, hmsgv.msgtypes.beyond _ (Nat.lt_of_not_le hmsgtype)]
  · rw [if_neg hvid, h.beyond (Nat.lt_of_not_le hvid)]

end Is

/-! ### Insertion -/

/-- `f` with a module under its vendor and its message type. -/
def putModule (f : Nat → Nat → Option α) (vid msgtype : Nat) (mod : α) : Nat → Nat → Option α :=
  Function.update f vid (Function.update (f vid) msgtype (some mod))

section Insert

variable {plugin : α → MsgmodPlugin} {mod : α}

/-- The identifiers are from one to the largest but one. -/
structure MsgmodPlugin.InRange (p : MsgmodPlugin) : Prop where
  vendor : 1 ≤ p.vendor.id ∧ p.vendor.id ≤ 4294967294
  msgtype : 1 ≤ p.msgtype.id ∧ p.msgtype.id ≤ 4294967294

theorem toNat_succ_lt {i : UInt32} (hi : i ≤ 4294967294) : i.toNat + 1 < 4294967296 := by
  have hle : i.toNat ≤ 4294967294 := UInt32.le_iff_toNat_le.mp hi
  omega

theorem Msgvendor.Is.insert {msgv : Msgvendor α} {f : Nat → Option α} (h : msgv.Is f)
    (hmod : (plugin mod).InRange) :
    ∃ msgv', insertMsgtype plugin msgv mod = .ok msgv' ∧
      msgv'.Is (Function.update f (plugin mod).msgtype.id.toNat (some mod)) := by
  obtain ⟨a, n, hresize, hholds, hle, hwidth⟩ :=
    resizeTo_holds h.msgtypes h.width (toNat_succ_lt hmod.msgtype.2)
  have hlt := Nat.lt_succ_of_le hle
  obtain ⟨a', hstore, hholds'⟩ := hholds.storeCell (p := mod) Abort.outOfBounds hlt
  refine ⟨⟨a', n⟩, ?_, hholds', hwidth⟩
  unfold insertMsgtype
  simp only [hresize, hholds.loadCell hlt, hstore, bind, Except.bind, pure, Except.pure]

/-- **A module is put into the table.** -/
theorem Msgmodset.Is.insert {ms : Msgmodset α} {f : Nat → Nat → Option α} (h : ms.Is f)
    (hmod : (plugin mod).InRange) :
    ∃ ms', msgmodsetInsertModule plugin ms mod = .ok ms' ∧
      ms'.Is (putModule f (plugin mod).vendor.id.toNat (plugin mod).msgtype.id.toNat mod) := by
  obtain ⟨g, hvendors, hnone, hsome⟩ := h.vendors
  obtain ⟨a, n, hresize, hholds, hle, hwidth⟩ :=
    resizeTo_holds hvendors h.width (toNat_succ_lt hmod.vendor.2)
  have hlt := Nat.lt_succ_of_le hle
  generalize hvid : (plugin mod).vendor.id.toNat = vid at hlt
  -- a vendor that is new has no modules
  have hmsgv : ((g vid).getD ⟨.calloc 1, 0⟩).Is (f vid) := by
    cases hg : g vid with
    | none => exact (funext (hnone vid hg) : f vid = _) ▸ msgvendor_is
    | some msgv => exact hsome vid msgv hg
  obtain ⟨msgv', hinsert, hmsgv'⟩ := hmsgv.insert hmod
  obtain ⟨a', hstore, hholds'⟩ := hholds.storeCell (p := msgv') Abort.outOfBounds hlt
  refine ⟨⟨a', n⟩, ?_, ⟨_, hholds', fun v hv => ?_, fun v msgv hv => ?_⟩, hwidth⟩
  · unfold msgmodsetInsertModule
    simp only [hresize, hvid, hholds.loadCell hlt, hinsert, hstore, bind, Except.bind, pure,
      Except.pure]
  · by_cases heq : v = vid
    · rw [heq, Function.update_self] at hv
      cases hv
    · rw [Function.update_of_ne heq] at hv
      rw [putModule, Function.update_of_ne heq]
      exact hnone v hv
  · by_cases heq : v = vid
    · subst heq
      rw [Function.update_self] at hv
      rw [putModule, Function.update_self]
      exact Option.some.inj hv ▸ hmsgv'
    · rw [Function.update_of_ne heq] at hv
      rw [putModule, Function.update_of_ne heq]
      exact hsome v msgv hv

/-- Calls of `msgmodset_insert_module` on the empty set. -/
def insertModules (plugin : α → MsgmodPlugin) (mods : List α) : Except Abort (Msgmodset α) :=
  mods.foldlM (msgmodsetInsertModule plugin) msgmodsetInit

/-- The last module under these identifiers. -/
def lastModule (plugin : α → MsgmodPlugin) (mods : List α) (vid msgtype : Nat) : Option α :=
  mods.reverse.find? fun mod =>
    (plugin mod).vendor.id.toNat = vid ∧ (plugin mod).msgtype.id.toNat = msgtype

theorem lastModule_append (mods : List α) (mod : α) :
    lastModule plugin (mods ++ [mod]) = putModule (lastModule plugin mods)
      (plugin mod).vendor.id.toNat (plugin mod).msgtype.id.toNat mod := by
  funext vid msgtype
  rw [lastModule, List.reverse_concat, List.find?_cons, putModule]
  by_cases hvid : vid = (plugin mod).vendor.id.toNat
  · rw [hvid, Function.update_self]
    by_cases hmsgtype : msgtype = (plugin mod).msgtype.id.toNat
    · simp [hmsgtype]
    · rw [Function.update_of_ne hmsgtype]
      simp only [Ne.symm hmsgtype, and_false, decide_false]
      rfl
  · rw [Function.update_of_ne hvid]
    simp only [Ne.symm hvid, false_and, decide_false]
    rfl

theorem lastModule_eq_some {mods : List α} {vid msgtype : Nat}
    (h : lastModule plugin mods vid msgtype = some mod) :
    mod ∈ mods ∧ (plugin mod).vendor.id.toNat = vid ∧ (plugin mod).msgtype.id.toNat = msgtype := by
  have hids := List.find?_some h
  exact ⟨List.mem_reverse.mp (List.mem_of_find?_eq_some h), of_decide_eq_true hids⟩

/-- **The table after insertions.** -/
theorem insertModules_is {mods : List α} (hmods : ∀ mod ∈ mods, (plugin mod).InRange) :
    ∃ ms, insertModules plugin mods = .ok ms ∧ ms.Is (lastModule plugin mods) := by
  induction mods using List.reverseRecOn with
  | nil => exact ⟨_, rfl, msgmodsetInit_is⟩
  | append_singleton mods mod ih =>
      obtain ⟨ms, hok, hms⟩ := ih fun m hm => hmods m (List.mem_append_left _ hm)
      obtain ⟨ms', hinsert, hms'⟩ :=
        hms.insert (hmods mod (List.mem_append_right _ (List.mem_singleton_self _)))
      refine ⟨ms', ?_, @lastModule_append α plugin mods mod ▸ hms'⟩
      rw [insertModules] at hok ⊢
      rw [List.foldlM_append, hok]
      simp only [List.foldlM_cons, List.foldlM_nil, hinsert, bind, Except.bind, pure, Except.pure]

end Insert

/-! ### Names -/

/-- What a loop over modules answers: it reads `out` from one of them, or from none. -/
structure FoundIn (present : α → Prop) (read : α → Option β) (out : Option β) : Prop where
  some : ∀ r, out = some r → ∃ mod, present mod ∧ read mod = some r
  none : out = none → ∀ mod, present mod → read mod = none

section Names

variable {ms : Msgmodset α} {f : Nat → Nat → Option α}

theorem Msgvendor.Is.find {msgv : Msgvendor α} {f : Nat → Option α} (h : msgv.Is f)
    (read : α → Option β) :
    ∃ out, findMsgtype msgv read = .ok out ∧ FoundIn (fun mod => ∃ t, f t = some mod) read out := by
  let body (j : UInt32) : Except Abort (Option β) :=
    (msgv.msgtypes.loadCell .outOfBounds j.toNat).map fun mod => mod.bind read
  have hbody : ∀ j ≤ msgv.nm, ∃ out, body (.ofNat j) = .ok out ∧ out = (f j).bind read := by
    intro j hj
    have hwidth := h.width
    dsimp only [body]
    rw [PointerArray.toNat_ofNat_of_lt (by omega), h.msgtypes.loadCell (Nat.lt_succ_of_le hj)]
    exact ⟨_, rfl, rfl⟩
  have hfuel : msgv.nm + 1 < msgv.nm + 2 + 0 := Nat.lt_succ_self _
  obtain ⟨out, hok, hsome, hnone⟩ := PointerArray.findUpTo_rule .divergence body
    (fun j out => out = (f j).bind read) h.width hbody (Nat.zero_le _) hfuel
  refine ⟨out, hok, fun r hr => ?_, fun hout mod ⟨t, ht⟩ => ?_⟩
  · obtain ⟨t, -, -, hread, -⟩ := hsome r hr
    obtain ⟨mod, hmod, hr'⟩ := Option.bind_eq_some_iff.mp hread.symm
    exact ⟨mod, ⟨t, hmod⟩, hr'⟩
  · have hle : t ≤ msgv.nm := by
      by_contra hgt
      rw [h.msgtypes.beyond t (by omega)] at ht
      cases ht
    have hread := hnone hout t (Nat.zero_le _) hle
    rw [ht, Option.bind_some] at hread
    exact hread.symm

/-- The loop over the vendors goes through all modules. -/
theorem Msgmodset.Is.vnameToVid (h : ms.Is f) (plugin : α → MsgmodPlugin) (vname : Bytes) :
    ∃ out : Option UInt32, nmsgMsgmodVnameToVid plugin ms vname = .ok (out.getD 0) ∧
      FoundIn (fun mod => ∃ v t, f v t = some mod) (fun mod =>
        if EqIgnoringCase (plugin mod).vendor.name (vendorAlias vname) then
          some (plugin mod).vendor.id
        else none) out := by
  generalize hread : (fun mod : α =>
    if EqIgnoringCase (plugin mod).vendor.name (vendorAlias vname) then
      some (plugin mod).vendor.id
    else none) = read
  have hbody : ∀ i ≤ ms.nv, ∃ out, findVendor plugin ms (vendorAlias vname) (.ofNat i) = .ok out ∧
      FoundIn (fun mod => ∃ t, f i t = some mod) read out := by
    intro i hi
    have hwidth := h.width
    rw [findVendor, PointerArray.toNat_ofNat_of_lt (by omega), hread]
    rcases h.vendor hi with ⟨hload, hnone⟩ | ⟨msgv, hload, hmsgv⟩
    · rw [hload]
      refine ⟨none, rfl, by rintro _ ⟨⟩, ?_⟩
      rintro - mod ⟨t, ht⟩
      rw [hnone] at ht
      cases ht
    · rw [hload]
      exact hmsgv.find read
  have hfuel : ms.nv + 1 < ms.nv + 2 + 0 := Nat.lt_succ_self _
  obtain ⟨out, hok, hsome, hnone⟩ := PointerArray.findUpTo_rule .divergence _
    (fun i out => FoundIn (fun mod => ∃ t, f i t = some mod) read out) h.width hbody
    (Nat.zero_le _) hfuel
  refine ⟨out, congrArg (Except.map _) hok, fun r hr => ?_, ?_⟩
  · obtain ⟨v, -, -, hfound, -⟩ := hsome r hr
    obtain ⟨mod, ⟨t, ht⟩, hr'⟩ := hfound.some r rfl
    exact ⟨mod, ⟨v, t, ht⟩, hr'⟩
  · rintro hout mod ⟨v, t, ht⟩
    have hle : v ≤ ms.nv := by
      by_contra hgt
      rw [h.beyond (Nat.lt_of_not_le hgt)] at ht
      cases ht
    exact (hnone hout v (Nat.zero_le _) hle).none rfl mod ⟨t, ht⟩

theorem Msgmodset.Is.mnameToMsgtype (h : ms.Is f) (plugin : α → MsgmodPlugin) (vid : UInt32)
    (mname : Bytes) :
    ∃ out : Option UInt32, nmsgMsgmodMnameToMsgtype plugin ms vid mname = .ok (out.getD 0) ∧
      FoundIn (fun mod => ∃ t, f vid.toNat t = some mod) (fun mod =>
        if EqIgnoringCase (plugin mod).msgtype.name mname then some (plugin mod).msgtype.id
        else none) out := by
  unfold nmsgMsgmodMnameToMsgtype
  by_cases hvid : vid.toNat ≤ ms.nv
  · rw [if_pos hvid]
    rcases h.vendor hvid with ⟨hload, hnone⟩ | ⟨msgv, hload, hmsgv⟩
    · rw [hload]
      refine ⟨none, rfl, nofun, fun _ mod ⟨t, ht⟩ => ?_⟩
      rw [hnone] at ht
      cases ht
    · rw [hload]
      obtain ⟨out, hok, hfound⟩ := hmsgv.find fun mod =>
        if EqIgnoringCase (plugin mod).msgtype.name mname then some (plugin mod).msgtype.id else none
      exact ⟨out, congrArg (Except.map _) hok, hfound⟩
  · rw [if_neg hvid]
    refine ⟨none, rfl, nofun, fun _ mod ⟨t, ht⟩ => ?_⟩
    rw [h.beyond (Nat.lt_of_not_le hvid)] at ht
    cases ht

end Names

/-! ### The map -/

section Map

variable (plugin : α → MsgmodPlugin) (mods : List α)

/-- The last module under its identifiers. -/
def InTable (mod : α) : Prop :=
  lastModule plugin mods (plugin mod).vendor.id.toNat (plugin mod).msgtype.id.toNat = some mod

/-- A vendor has one name, which no other has, and the names of its message types differ. -/
structure DistinctNames : Prop where
  vendor : ∀ m m', InTable plugin mods m → InTable plugin mods m' →
    ((plugin m).vendor.id = (plugin m').vendor.id ↔
      EqIgnoringCase (plugin m).vendor.name (plugin m').vendor.name)
  msgtype : ∀ m m', InTable plugin mods m → InTable plugin mods m' →
    (plugin m).vendor.id = (plugin m').vendor.id →
    EqIgnoringCase (plugin m).msgtype.name (plugin m').msgtype.name →
    (plugin m).msgtype.id = (plugin m').msgtype.id
  isc : ∀ m, InTable plugin mods m → ¬ EqIgnoringCase (plugin m).vendor.name isc

/-- The names belong to the module. -/
def HasNames (vname mname : Bytes) (mod : α) : Prop :=
  EqIgnoringCase (plugin mod).vendor.name vname ∧ EqIgnoringCase (plugin mod).msgtype.name mname

/-- The table answers names as it does identifiers, and takes `"ISC"` for `"base"`. -/
structure FoundByName (ms : Msgmodset α) : Prop where
  present : ∀ vname mname mod, InTable plugin mods mod → HasNames plugin vname mname mod →
    nmsgMsgmodLookupByname plugin ms vname mname = .ok (some mod)
  absent : ∀ vname mname, (∀ mod, InTable plugin mods mod →
      ¬ HasNames plugin (vendorAlias vname) mname mod) →
    nmsgMsgmodLookupByname plugin ms vname mname = .ok none
  isc : ∀ vname mname, EqIgnoringCase vname isc →
    nmsgMsgmodLookupByname plugin ms vname mname = nmsgMsgmodLookupByname plugin ms base mname

variable {plugin mods} {ms : Msgmodset α}

theorem inTable_of_lastModule {vid msgtype : Nat} {mod : α}
    (h : lastModule plugin mods vid msgtype = some mod) : InTable plugin mods mod := by
  obtain ⟨-, hvid, hmsgtype⟩ := lastModule_eq_some h
  rw [InTable, hvid, hmsgtype]
  exact h

theorem InTable.ne_zero (hmods : ∀ mod ∈ mods, (plugin mod).InRange) {mod : α}
    (h : InTable plugin mods mod) : (plugin mod).vendor.id ≠ 0 ∧ (plugin mod).msgtype.id ≠ 0 := by
  have hrange := hmods mod (lastModule_eq_some h).1
  constructor
  · rintro hzero
    exact absurd (hzero ▸ hrange.vendor.1) (by decide)
  · rintro hzero
    exact absurd (hzero ▸ hrange.msgtype.1) (by decide)

theorem Msgmodset.Is.lookupByname (h : ms.Is (lastModule plugin mods))
    (hmods : ∀ mod ∈ mods, (plugin mod).InRange) (hnames : DistinctNames plugin mods)
    (vname mname : Bytes) :
    ∃ out, nmsgMsgmodLookupByname plugin ms vname mname = .ok out ∧ ∀ mod, out = some mod ↔
      InTable plugin mods mod ∧ HasNames plugin (vendorAlias vname) mname mod := by
  have hnone : ∀ {out : Option α}, out = none →
      (∀ mod, InTable plugin mods mod → ¬ HasNames plugin (vendorAlias vname) mname mod) →
      ∀ mod, out = some mod ↔
        InTable plugin mods mod ∧ HasNames plugin (vendorAlias vname) mname mod := by
    rintro _ rfl habsent mod
    exact iff_of_false nofun fun ⟨hmem, hmod⟩ => habsent mod hmem hmod
  obtain ⟨vid, hvid, hvendor⟩ := h.vnameToVid plugin vname
  obtain ⟨msgtype, hmsgtype, hmod⟩ := h.mnameToMsgtype plugin (vid.getD 0) mname
  unfold nmsgMsgmodLookupByname
  simp only [hvid, hmsgtype, bind, Except.bind, pure, Except.pure]
  cases vid with
  | none =>
      refine ⟨none, if_pos (Or.inl rfl), hnone rfl fun mod hmem hnamed => ?_⟩
      have hread := hvendor.none rfl mod ⟨_, _, hmem⟩
      rw [if_pos hnamed.1] at hread
      cases hread
  | some vid =>
      -- the vendor whose name was found is the only one with this name
      have hunique : ∀ mod, InTable plugin mods mod →
          (EqIgnoringCase (plugin mod).vendor.name (vendorAlias vname) ↔
            (plugin mod).vendor.id = vid) := by
        obtain ⟨m, ⟨v, t, hm⟩, hread⟩ := hvendor.some vid rfl
        obtain ⟨hname, rfl⟩ : EqIgnoringCase (plugin m).vendor.name (vendorAlias vname) ∧
            (plugin m).vendor.id = vid := by
          by_cases hname : EqIgnoringCase (plugin m).vendor.name (vendorAlias vname)
          · rw [if_pos hname] at hread
            exact ⟨hname, Option.some.inj hread⟩
          · rw [if_neg hname] at hread
            cases hread
        intro mod hmem
        rw [hnames.vendor mod m hmem (inTable_of_lastModule hm)]
        exact ⟨fun h => h.trans hname.symm, fun h => h.trans hname⟩
      cases msgtype with
      | none =>
          refine ⟨none, if_pos (Or.inr rfl), hnone rfl fun mod hmem hnamed => ?_⟩
          obtain rfl := (hunique mod hmem).mp hnamed.1
          have hread := hmod.none rfl mod ⟨_, hmem⟩
          rw [if_pos hnamed.2] at hread
          cases hread
      | some msgtype =>
          obtain ⟨m, ⟨t, hm⟩, hread⟩ := hmod.some msgtype rfl
          have hmem := inTable_of_lastModule hm
          obtain ⟨-, hvidm, -⟩ := lastModule_eq_some hm
          obtain ⟨hname, rfl⟩ : EqIgnoringCase (plugin m).msgtype.name mname ∧
              (plugin m).msgtype.id = msgtype := by
            by_cases hname : EqIgnoringCase (plugin m).msgtype.name mname
            · rw [if_pos hname] at hread
              exact ⟨hname, Option.some.inj hread⟩
            · rw [if_neg hname] at hread
              cases hread
          obtain rfl : (plugin m).vendor.id = vid := UInt32.toNat_inj.mp hvidm
          have hzero := hmem.ne_zero hmods
          refine ⟨some m, ?_, fun mod => ⟨?_, ?_⟩⟩
          · rw [Option.getD_some, Option.getD_some, if_neg (not_or.mpr hzero), h.lookup]
            exact congrArg Except.ok hmem
          · rintro ⟨⟩
            exact ⟨hmem, (hunique m hmem).mpr rfl, hname⟩
          · rintro ⟨hmem', hvendor', hmsgtype'⟩
            have hvid' := (hunique mod hmem').mp hvendor'
            have hmsgtype := hnames.msgtype m mod hmem hmem' hvid'.symm
              (hname.trans hmsgtype'.symm)
            rw [InTable, hvid', ← hmsgtype, hmem] at hmem'
            exact hmem'

/-- **The table of modules is a map**, for every sequence of insertions. -/
theorem insertModules_isMap (hmods : ∀ mod ∈ mods, (plugin mod).InRange) :
    ∃ ms, insertModules plugin mods = .ok ms ∧
      (∀ vid msgtype : UInt32, nmsgMsgmodLookup ms vid msgtype =
        .ok (lastModule plugin mods vid.toNat msgtype.toNat)) ∧
      (DistinctNames plugin mods → FoundByName plugin mods ms) := by
  obtain ⟨ms, hok, hms⟩ := insertModules_is hmods
  refine ⟨ms, hok, hms.lookup, fun hnames => ⟨?_, ?_, ?_⟩⟩
  · intro vname mname mod hmem hnamed
    have hisc : ¬ EqIgnoringCase vname isc :=
      fun hisc => hnames.isc mod hmem (hnamed.1.trans hisc)
    obtain ⟨out, hlookup, hout⟩ := hms.lookupByname hmods hnames vname mname
    rw [hlookup, (hout mod).mpr ⟨hmem, ?_⟩]
    rwa [vendorAlias, if_neg hisc]
  · intro vname mname habsent
    obtain ⟨out, hlookup, hout⟩ := hms.lookupByname hmods hnames vname mname
    cases out with
    | none => exact hlookup
    | some mod =>
        obtain ⟨hmem, hnamed⟩ := (hout mod).mp rfl
        exact absurd hnamed (habsent mod hmem)
  · intro vname mname hisc
    have halias : vendorAlias vname = vendorAlias base := by
      rw [vendorAlias, if_pos hisc]
      rfl
    simp only [nmsgMsgmodLookupByname, nmsgMsgmodVnameToVid, halias]

/-- A module that replaces another, looked up by its numbers and by its names. -/
theorem insertModules_isMap_sample :
    ∃ ms, insertModules id [⟨⟨1, base⟩, ⟨2, [97]⟩⟩, ⟨⟨1, base⟩, ⟨2, [98]⟩⟩] = .ok ms ∧
      nmsgMsgmodLookup ms 1 2 = .ok (some ⟨⟨1, base⟩, ⟨2, [98]⟩⟩) ∧
      nmsgMsgmodLookup ms 4294967295 2 = .ok none ∧
      nmsgMsgmodLookupByname id ms [105, 115, 99] [66] = .ok (some ⟨⟨1, base⟩, ⟨2, [98]⟩⟩) := by
  have hrange : ∀ mod ∈ ([⟨⟨1, base⟩, ⟨2, [97]⟩⟩, ⟨⟨1, base⟩, ⟨2, [98]⟩⟩] : List MsgmodPlugin),
      (id mod).InRange := by
    intro mod hmod
    rcases List.mem_pair.mp hmod with rfl | rfl <;> exact ⟨by decide, by decide⟩
  obtain ⟨ms, hok, hlookup, hnamed⟩ := insertModules_isMap hrange
  have honly : ∀ mod, InTable id [⟨⟨1, base⟩, ⟨2, [97]⟩⟩, ⟨⟨1, base⟩, ⟨2, [98]⟩⟩] mod →
      mod = ⟨⟨1, base⟩, ⟨2, [98]⟩⟩ := by
    intro mod h
    have hids := (lastModule_eq_some h).1
    rcases List.mem_pair.mp hids with rfl | rfl
    · cases h
    · rfl
  have hnames : DistinctNames id [⟨⟨1, base⟩, ⟨2, [97]⟩⟩, ⟨⟨1, base⟩, ⟨2, [98]⟩⟩] := by
    refine ⟨fun m m' h h' => ?_, fun m m' h h' _ _ => ?_, fun m h => ?_⟩
    · rw [honly m h, honly m' h']
      exact iff_of_true rfl rfl
    · rw [honly m h, honly m' h']
    · rw [honly m h]
      decide
  refine ⟨ms, hok, hlookup 1 2, hlookup 4294967295 2, ?_⟩
  rw [(hnamed hnames).isc _ _ (by decide)]
  exact (hnamed hnames).present base [66] ⟨⟨1, base⟩, ⟨2, [98]⟩⟩ rfl ⟨rfl, by decide⟩

end Map

end Nmsg

import Nmsg.Dnsqr.FilterInit

/-!
# Filters by name

The table has twice as many slots as there are names, so that a slot stays free, and a name is found
in it exactly when it was loaded. Chopping labels off the name that is asked for reaches every
suffix of it, the root last. That is all there is to the list of names to exclude. The list of names
to include only decides to keep a message, and a message that it does not name is kept all the
same.
-/

namespace Nmsg

/-! ### Names on the wire -/

theorem encodeName_cons (label : Bytes) (labels : List Bytes) :
    encodeName (label :: labels) = UInt8.ofNat label.length :: (label ++ encodeName labels) := by
  simp only [encodeName, List.flatMap_cons, List.cons_append, List.append_assoc]

theorem ValidName.tail {label : Bytes} {labels : List Bytes} (h : ValidName (label :: labels)) :
    ValidName labels := by
  refine ⟨fun l hl => h.label l (List.mem_cons_of_mem _ hl), ?_⟩
  have hlen := h.length
  rw [encodeName_cons, List.length_cons, List.length_append] at hlen
  omega

theorem ValidName.of_suffix {suffix labels : List Bytes} (h : ValidName labels)
    (hsuffix : suffix <:+ labels) : ValidName suffix := by
  obtain ⟨front, rfl⟩ := hsuffix
  induction front with
  | nil => exact h
  | cons label front ih => exact ih h.tail

theorem length_encodeName_lowerName (labels : List Bytes) :
    (encodeName (lowerName labels)).length = (encodeName labels).length := by
  induction labels with
  | nil => rfl
  | cons label labels ih =>
      have hcons : lowerName (label :: labels) = label.map lowerOctet :: lowerName labels := rfl
      rw [hcons, encodeName_cons, encodeName_cons, List.length_cons, List.length_cons,
        List.length_append, List.length_append, List.length_map, ih]

theorem ValidName.lower {labels : List Bytes} (h : ValidName labels) :
    ValidName (lowerName labels) := by
  refine ⟨?_, ?_⟩
  · intro label hlabel
    obtain ⟨label', hlabel', rfl⟩ := List.mem_map.mp hlabel
    rw [List.length_map]
    exact h.label label' hlabel'
  · rw [length_encodeName_lowerName]
    exact h.length

/-- Different valid names are different on the wire. -/
theorem encodeName_inj {labels labels' : List Bytes} (h : ValidName labels)
    (h' : ValidName labels') (heq : encodeName labels = encodeName labels') :
    labels = labels' := by
  have hnum : ∀ {n : Nat}, n ≤ 63 → (UInt8.ofNat n).toNat = n := by
    intro n hn
    rw [UInt8.toNat_ofNat', Nat.mod_eq_of_lt (by omega)]
  induction labels generalizing labels' with
  | nil =>
      cases labels' with
      | nil => rfl
      | cons label' rest' =>
          have hlabel := h'.label label' List.mem_cons_self
          have hfirst := congrArg (fun octets => octets.headD 0) heq
          simp only [encodeName_cons, List.headD_cons] at hfirst
          have hzero := congrArg UInt8.toNat hfirst
          rw [hnum hlabel.2] at hzero
          change 0 = label'.length at hzero
          omega
  | cons label rest ih =>
      have hlabel := h.label label List.mem_cons_self
      cases labels' with
      | nil =>
          have hfirst := congrArg (fun octets => octets.headD 0) heq
          simp only [encodeName_cons, List.headD_cons] at hfirst
          have hzero := congrArg UInt8.toNat hfirst
          rw [hnum hlabel.2] at hzero
          change label.length = 0 at hzero
          omega
      | cons label' rest' =>
          have hlabel' := h'.label label' List.mem_cons_self
          rw [encodeName_cons, encodeName_cons, List.cons.injEq] at heq
          have hlen := congrArg UInt8.toNat heq.1
          rw [hnum hlabel.2, hnum hlabel'.2] at hlen
          obtain ⟨hsame, hrest⟩ := List.append_inj heq.2 hlen
          rw [hsame, ih h.tail h'.tail hrest]

/-! ### The table -/

section Table

variable {hashName : Bytes → UInt32}

/-- The slot where the search for a name starts. -/
def nameSlot (hashName : Bytes → UInt32) (numSlots : Nat) (name : Bytes) : Nat :=
  (hashName name).toNat % numSlots

/-- The table holds these names, each where it can be found, in as many slots at most. -/
structure HoldsNames (hashName : Bytes → UInt32) (table : FilterSlots) (names : List Bytes) :
    Prop where
  reachable : LinearProbe.Reachable table.numSlots (nameSlot hashName table.numSlots) table.slot
  few : (LinearProbe.filled table.numSlots table.slot).card ≤ names.length
  mem : ∀ name, (∃ s < table.numSlots, table.slot s = some name) ↔ name ∈ names

theorem holdsNames_empty (numSlots : Nat) :
    HoldsNames hashName ⟨numSlots, fun _ => none⟩ [] := by
  refine ⟨fun p _ e he => absurd he nofun, ?_, ?_⟩
  · rw [List.length_nil, Nat.le_zero, Finset.card_eq_zero]
    exact Finset.filter_false_of_mem fun _ _ => Bool.false_ne_true
  · intro name
    refine iff_of_false ?_ List.not_mem_nil
    rintro ⟨_, -, hslot⟩
    cases hslot

/-- **A name is inserted** while there are more slots than names. -/
theorem HoldsNames.insert {table : FilterSlots} {names : List Bytes}
    (h : HoldsNames hashName table names) (hroom : names.length < table.numSlots) (name : Bytes) :
    ∃ table', dnsqrFilterInsert hashName table name = .ok table' ∧
      table'.numSlots = table.numSlots ∧ HoldsNames hashName table' (name :: names) := by
  have hpos : 0 < table.numSlots := Nat.zero_lt_of_lt hroom
  have hhome : nameSlot hashName table.numSlots name < table.numSlots := Nat.mod_lt _ hpos
  obtain ⟨s, hs, hfree⟩ := LinearProbe.exists_free (h.few.trans_lt hroom)
  obtain ⟨t, ht, hprobe, hnone, hpath⟩ := LinearProbe.exists_probe
    (fun s => (table.slot s).isNone) hhome ⟨s, hs, by rw [hfree]; rfl⟩
  rw [Option.isNone_iff_eq_none] at hnone
  refine ⟨{ table with slot := Function.update table.slot t (some name) }, ?_, rfl, ?_, ?_, ?_⟩
  · rw [dnsqrFilterInsert, if_neg (Nat.ne_of_gt hpos)]
    rw [nameSlot] at hprobe
    simp only [hprobe]
  · apply h.reachable.insert ht
    intro q hq hlt hqnone
    have hfilled := hpath q hq hlt
    rw [hqnone] at hfilled
    cases hfilled
  · exact (LinearProbe.card_filled_update_le name).trans (Nat.succ_le_succ h.few)
  · intro name'
    rw [List.mem_cons, ← h.mem name']
    dsimp only
    constructor
    · rintro ⟨p, hp, hslot⟩
      by_cases hpt : p = t
      · rw [hpt, Function.update_self, Option.some.injEq] at hslot
        exact Or.inl hslot.symm
      · rw [Function.update_of_ne hpt] at hslot
        exact Or.inr ⟨p, hp, hslot⟩
    · rintro (rfl | ⟨p, hp, hslot⟩)
      · exact ⟨t, ht, Function.update_self ..⟩
      · refine ⟨p, hp, ?_⟩
        have hpt : p ≠ t := by
          rintro rfl
          rw [hnone] at hslot
          cases hslot
        rw [Function.update_of_ne hpt]
        exact hslot

/-- **A name is found** exactly when it was loaded. -/
theorem HoldsNames.lookup {table : NameTable} {names : List Bytes}
    (h : HoldsNames hashName table.slots names) (name : Bytes) :
    ∃ found, dnsqrFilterLookup hashName table name = .ok found ∧ (found = true ↔ name ∈ names) := by
  have hhome : nameSlot hashName table.numSlots name < table.numSlots := by
    obtain ⟨s, hs, -⟩ := table.room
    exact Nat.mod_lt _ (Nat.zero_lt_of_lt hs)
  obtain ⟨t, ht, hprobe, hfilled⟩ := h.reachable.exists_probe_mem hhome table.room
  refine ⟨(table.slot t).isSome, ?_, ?_⟩
  · unfold dnsqrFilterLookup
    dsimp only
    split
    · rename_i hnone
      exact absurd (hnone.symm.trans hprobe) nofun
    · rename_i s hsome
      cases hsome.symm.trans hprobe
      rfl
  · rw [← h.mem name]
    exact hfilled

end Table

/-! ### Suffixes -/

section Suffixes

variable {hashName : Bytes → UInt32} {wdns : Wdns}

theorem length_encodeName_gt (labels : List Bytes) : labels.length < (encodeName labels).length := by
  induction labels with
  | nil => exact Nat.one_pos
  | cons label rest ih =>
      rw [encodeName_cons, List.length_cons, List.length_cons, List.length_append]
      omega

/-- **Every suffix is looked up**, down to the root. By induction on the labels. -/
theorem suffixListed_iff {table : NameTable} {names : List Bytes} (hwdns : wdns.OnNames)
    (h : HoldsNames hashName table.slots names) {labels : List Bytes} (hvalid : ValidName labels)
    {fuel : Nat} (hfuel : labels.length < fuel) :
    ∃ listed, suffixListed hashName wdns table fuel (encodeName labels) = .ok listed ∧
      (listed = true ↔ ∃ suffix, suffix <:+ labels ∧ encodeName suffix ∈ names) := by
  induction labels generalizing fuel with
  | nil =>
      obtain ⟨fuel, rfl⟩ := Nat.exists_eq_add_one.mpr hfuel
      obtain ⟨found, hlookup, hfound⟩ := h.lookup (encodeName [])
      refine ⟨found, ?_, ?_⟩
      · rw [suffixListed, hlookup]
        cases found <;> rfl
      · rw [hfound]
        constructor
        · exact fun hmem => ⟨[], List.suffix_refl _, hmem⟩
        · rintro ⟨suffix, hsuffix, hmem⟩
          rwa [List.suffix_nil.mp hsuffix] at hmem
  | cons label rest ih =>
      obtain ⟨fuel, rfl⟩ := Nat.exists_eq_add_one.mpr (Nat.zero_lt_of_lt hfuel)
      obtain ⟨found, hlookup, hfound⟩ := h.lookup (encodeName (label :: rest))
      have hlabel := (hvalid.label label List.mem_cons_self).1
      have hlong : (encodeName (label :: rest)).length ≠ 1 := by
        rw [encodeName_cons, List.length_cons, List.length_append]
        omega
      obtain ⟨listed, hrest, hlisted⟩ := ih hvalid.tail (Nat.lt_of_succ_lt_succ hfuel)
      have hstep : suffixListed hashName wdns table (fuel + 1) (encodeName (label :: rest)) =
          .ok (found || listed) := by
        rw [suffixListed, hlookup]
        cases found with
        | true => rfl
        | false =>
            change (if (encodeName (label :: rest)).length = 1 then _ else _) = _
            rw [if_neg hlong, hwdns.leftChop label rest hvalid]
            exact hrest
      refine ⟨found || listed, hstep, ?_⟩
      rw [Bool.or_eq_true, hfound, hlisted]
      constructor
      · rintro (hmem | ⟨suffix, hsuffix, hmem⟩)
        · exact ⟨label :: rest, List.suffix_refl _, hmem⟩
        · exact ⟨suffix, hsuffix.trans (List.suffix_cons label rest), hmem⟩
      · rintro ⟨suffix, hsuffix, hmem⟩
        rcases List.suffix_cons_iff.mp hsuffix with rfl | hsuffix
        · exact Or.inl hmem
        · exact Or.inr ⟨suffix, hsuffix, hmem⟩

/-- The names of a list as they are in the table. -/
def wireNames (names : List ListedName) : List Bytes :=
  names.map fun name => encodeName (lowerName name.labels)

theorem listedIn_iff {strToName : Bytes → Option Bytes} {table : NameTable}
    {names : List ListedName} (hwdns : wdns.OnNames)
    (hnames : ∀ name ∈ names, name.Valid strToName)
    (h : HoldsNames hashName table.slots (wireNames names).reverse) {labels : List Bytes}
    (hvalid : ValidName labels) :
    ∃ listed, listedIn hashName wdns (some table) (wdns.downcase (encodeName labels)) =
        .ok listed ∧ (listed = true ↔ OnList names labels) := by
  have hlower := hvalid.lower
  obtain ⟨listed, hlisted, hiff⟩ := suffixListed_iff hwdns h hlower
    ((length_encodeName_gt (lowerName labels)).trans (Nat.lt_succ_self _))
  refine ⟨listed, ?_, ?_⟩
  · rw [hwdns.downcase labels hvalid]
    exact hlisted
  · rw [hiff]
    refine exists_congr fun suffix => and_congr_right fun hsuffix => ?_
    rw [List.mem_reverse, wireNames, List.mem_map]
    refine exists_congr fun name => and_congr_right fun hname => ?_
    constructor
    · exact encodeName_inj (hnames name hname).labels.lower (hlower.of_suffix hsuffix)
    · exact congrArg encodeName

end Suffixes

/-! ### Loading -/

section Loading

variable {hashName : Bytes → UInt32} {wdns : Wdns} {strToName : Bytes → Option Bytes}

theorem strtok_joinNames {name : ListedName} {rest : List ListedName}
    (hname : name.Valid strToName) :
    Text.strtok 58 (joinNames (name :: rest) ++ [0]) =
      some (some (name.token, joinNames rest ++ [0])) := by
  cases rest with
  | nil => exact Text.strtok_token hname.token 0 (Or.inr rfl)
  | cons next rest =>
      rw [joinNames, List.append_assoc]
      exact Text.strtok_token hname.token 0 (Or.inl rfl)

/-- **The tokens are loaded** one after the other. -/
theorem dnsqrFilterTokens_holds (hwdns : wdns.OnNames) {name : ListedName}
    {rest : List ListedName} (hnames : ∀ n ∈ name :: rest, n.Valid strToName)
    {table : FilterSlots} {loaded : List Bytes} (h : HoldsNames hashName table loaded)
    (hroom : loaded.length + rest.length < table.numSlots) {fuel : Nat}
    (hfuel : rest.length < fuel) :
    ∃ table', dnsqrFilterTokens hashName wdns strToName fuel table
        (name.token, joinNames rest ++ [0]) = .ok table' ∧
      table'.numSlots = table.numSlots ∧
      HoldsNames hashName table' ((wireNames (name :: rest)).reverse ++ loaded) := by
  induction rest generalizing name table loaded fuel with
  | nil =>
      obtain ⟨fuel, rfl⟩ := Nat.exists_eq_add_one.mpr hfuel
      have hname := hnames name List.mem_cons_self
      obtain ⟨table', hinsert, hslots, hholds⟩ := h.insert (by simpa using hroom)
        (encodeName (lowerName name.labels))
      refine ⟨table', ?_, hslots, hholds⟩
      rw [dnsqrFilterTokens, dnsqrFilterToken, hname.parsed]
      simp only [hwdns.downcase _ hname.labels, hinsert]
      rfl
  | cons next rest ih =>
      obtain ⟨fuel, rfl⟩ := Nat.exists_eq_add_one.mpr (Nat.zero_lt_of_lt hfuel)
      rw [List.length_cons] at hroom hfuel
      have hname := hnames name List.mem_cons_self
      have hrest : ∀ n ∈ next :: rest, n.Valid strToName :=
        fun n hn => hnames n (List.mem_cons_of_mem _ hn)
      obtain ⟨table₁, hinsert, hslots, hholds⟩ := h.insert (by omega)
        (encodeName (lowerName name.labels))
      obtain ⟨table', htokens, hslots', hholds'⟩ := ih hrest hholds
        (by rw [List.length_cons, hslots]; omega) (Nat.lt_of_succ_lt_succ hfuel)
      refine ⟨table', ?_, hslots'.trans hslots, ?_⟩
      · rw [dnsqrFilterTokens, dnsqrFilterToken, hname.parsed]
        simp only [hwdns.downcase _ hname.labels, hinsert,
          strtok_joinNames (hrest next List.mem_cons_self)]
        exact htokens
      · have hsplit : (wireNames (name :: next :: rest)).reverse ++ loaded =
            (wireNames (next :: rest)).reverse ++
              (encodeName (lowerName name.labels) :: loaded) := by
          rw [wireNames, List.map_cons, List.reverse_cons, List.append_assoc]
          rfl
        rw [hsplit]
        exact hholds'

/-- There is a colon between two names, and every name has an octet. -/
theorem count_joinNames {names : List ListedName} (hne : names ≠ [])
    (hnames : ∀ name ∈ names, name.Valid strToName) :
    1 + (joinNames names).count 58 = names.length ∧
      2 * names.length ≤ (joinNames names).length + 1 := by
  induction names with
  | nil => exact absurd rfl hne
  | cons name rest ih =>
      have hname := (hnames name List.mem_cons_self).token
      have hcount : name.token.count 58 = 0 :=
        List.count_eq_zero.mpr fun hmem => (hname.octets 58 hmem).1 rfl
      have hlen := List.length_pos_iff.mpr hname.nonempty
      cases rest with
      | nil =>
          rw [joinNames, hcount, List.length_singleton]
          omega
      | cons next rest =>
          obtain ⟨hcolons, hoctets⟩ := ih (List.cons_ne_nil _ _)
            fun n hn => hnames n (List.mem_cons_of_mem _ hn)
          rw [joinNames, List.count_append, List.count_cons_self, hcount]
          simp only [List.length_append, List.length_cons] at hcolons hoctets ⊢
          omega

/-- **Loading succeeds** while the number of slots and the length of the variable can be counted. -/
theorem dnsqrFilterInit_holds (hashName : Bytes → UInt32) (hwdns : wdns.OnNames)
    {names : List ListedName} (hne : names ≠ []) (hnames : ∀ name ∈ names, name.Valid strToName)
    (hlen : (joinNames names).length < 2 ^ 32) (hfew : names.length < 2 ^ 31) :
    ∃ table : NameTable,
      dnsqrFilterInit hashName wdns strToName (some (joinNames names)) = .ok (some table.slots) ∧
      HoldsNames hashName table.slots (wireNames names).reverse := by
  obtain ⟨hcolons, hoctets⟩ := count_joinNames hne hnames
  obtain ⟨name, rest, rfl⟩ := List.exists_cons_of_ne_nil hne
  have hslots : (name :: rest).length % 2 ^ 32 * 2 % 2 ^ 32 = (name :: rest).length * 2 := by
    rw [Nat.mod_eq_of_lt (by omega), Nat.mod_eq_of_lt (by omega)]
  have hroom : rest.length < (name :: rest).length * 2 := by
    rw [List.length_cons]
    omega
  obtain ⟨table, htokens, hnum, hholds⟩ := dnsqrFilterTokens_holds hwdns hnames
    (@holdsNames_empty hashName ((name :: rest).length * 2))
    (by rw [List.length_nil, Nat.zero_add]; exact hroom)
    (show rest.length < (joinNames (name :: rest)).length + 1 by
      rw [List.length_cons] at hoctets; omega)
  rw [List.append_nil] at hholds
  have hfree : ∃ s < table.numSlots, table.slot s = none := by
    apply LinearProbe.exists_free
    have hfilled := hholds.few
    have hcount : table.numSlots = (name :: rest).length * 2 := hnum
    rw [List.length_reverse, wireNames, List.length_map] at hfilled
    rw [List.length_cons] at hfilled hcount
    omega
  refine ⟨⟨table.numSlots, table.slot, hfree⟩, ?_, hholds⟩
  rw [dnsqrFilterInit, if_neg (by omega)]
  simp only [hcolons, hslots, strtok_joinNames (hnames name List.mem_cons_self), htokens]
  rfl

/-- **Loading fails** when they cannot. -/
theorem dnsqrFilterInit_fails (hashName : Bytes → UInt32) {names : List ListedName}
    (hne : names ≠ []) (hnames : ∀ name ∈ names, name.Valid strToName)
    (hmany : ¬ ((joinNames names).length < 2 ^ 32 ∧ names.length < 2 ^ 31))
    (table : Option FilterSlots) :
    dnsqrFilterInit hashName wdns strToName (some (joinNames names)) ≠ .ok table := by
  obtain ⟨hcolons, hoctets⟩ := count_joinNames hne hnames
  obtain ⟨name, rest, rfl⟩ := List.exists_cons_of_ne_nil hne
  have hname := hnames name List.mem_cons_self
  rw [dnsqrFilterInit]
  by_cases hlen : (joinNames (name :: rest)).length < 2 ^ 32
  · have hlast : (name :: rest).length = 2 ^ 31 := by omega
    have hslots : (name :: rest).length % 2 ^ 32 * 2 % 2 ^ 32 = 0 := by
      rw [hlast]
      norm_num
    rw [if_neg (by omega)]
    simp only [hcolons, hslots, strtok_joinNames hname]
    rw [dnsqrFilterTokens, dnsqrFilterToken, hname.parsed]
    simp only [dnsqrFilterInsert, if_true]
    exact nofun
  · rw [if_pos (by omega)]
    exact nofun

end Loading

/-! ### Selecting -/

section Selecting

variable {hashName : Bytes → UInt32} {wdns : Wdns} {strToName : Bytes → Option Bytes}
  {table : NameTable} {names : List ListedName} {labels : List Bytes}

/-- The names to exclude select by suffix. -/
theorem excludes_by_suffix (hwdns : wdns.OnNames) (hnames : ∀ name ∈ names, name.Valid strToName)
    (h : HoldsNames hashName table.slots (wireNames names).reverse) (hvalid : ValidName labels) :
    ExcludesBySuffix hashName wdns table names labels := by
  intro dnsqr hqname
  obtain ⟨listed, hlisted, hiff⟩ := listedIn_iff hwdns hnames h hvalid
  refine ⟨listed, ?_, hiff⟩
  simp only [doFilterQueryName, hqname, hlisted]
  rfl

/-- The names to include alone drop nothing. -/
theorem include_drops_nothing (hwdns : wdns.OnNames)
    (hnames : ∀ name ∈ names, name.Valid strToName)
    (h : HoldsNames hashName table.slots (wireNames names).reverse) (hvalid : ValidName labels)
    {dnsqr : DnsQR} (hqname : dnsqr.qname = some (encodeName labels)) :
    doFilterQueryName hashName wdns (some table) none dnsqr = .ok false := by
  obtain ⟨listed, hlisted, -⟩ := listedIn_iff hwdns hnames h hvalid
  simp only [doFilterQueryName, hqname, hlisted]
  cases listed <;> rfl

theorem includes_by_suffix_iff (hwdns : wdns.OnNames)
    (hnames : ∀ name ∈ names, name.Valid strToName)
    (h : HoldsNames hashName table.slots (wireNames names).reverse) (hvalid : ValidName labels) :
    IncludesBySuffix hashName wdns table names labels ↔ OnList names labels := by
  constructor
  · intro hincludes
    obtain ⟨dropped, hdropped, hiff⟩ :=
      hincludes { DnsQR.init with qname := some (encodeName labels) } rfl
    rw [include_drops_nothing hwdns hnames h hvalid rfl] at hdropped
    cases hdropped
    by_contra hlisted
    exact Bool.false_ne_true (hiff.mpr hlisted)
  · intro hlisted dnsqr hqname
    exact ⟨false, include_drops_nothing hwdns hnames h hvalid hqname,
      iff_of_false Bool.false_ne_true (not_not_intro hlisted)⟩

end Selecting

/-- **Name filters.** The names to exclude select by suffix. The names to include do so only for a
name that has a suffix on the list. -/
theorem selects_by_suffix_iff (hashName : Bytes → UInt32) {wdns : Wdns} (hwdns : wdns.OnNames)
    {strToName : Bytes → Option Bytes} {names : List ListedName} (hne : names ≠ [])
    (hnames : ∀ name ∈ names, name.Valid strToName) {labels : List Bytes}
    (hvalid : ValidName labels) :
    SelectsBySuffix hashName wdns strToName names labels ↔
      ((joinNames names).length < 2 ^ 32 ∧ names.length < 2 ^ 31) ∧ OnList names labels := by
  constructor
  · rintro ⟨table, hinit, -, hincludes⟩
    have hsize : (joinNames names).length < 2 ^ 32 ∧ names.length < 2 ^ 31 := by
      by_contra hmany
      exact dnsqrFilterInit_fails hashName hne hnames hmany _ hinit
    obtain ⟨table', hinit', hholds⟩ :=
      dnsqrFilterInit_holds hashName hwdns hne hnames hsize.1 hsize.2
    rw [hinit, Except.ok.injEq, Option.some.injEq] at hinit'
    rw [← hinit'] at hholds
    exact ⟨hsize, (includes_by_suffix_iff hwdns hnames hholds hvalid).mp hincludes⟩
  · rintro ⟨⟨hlen, hfew⟩, hlisted⟩
    obtain ⟨table, hinit, hholds⟩ := dnsqrFilterInit_holds hashName hwdns hne hnames hlen hfew
    exact ⟨table, hinit, excludes_by_suffix hwdns hnames hholds hvalid,
      (includes_by_suffix_iff hwdns hnames hholds hvalid).mpr hlisted⟩

/-! ### One name to include -/

/-- A name without its first label. -/
def chopLabel : Bytes → Option Bytes
  | [] => none
  | len :: rest => some (rest.drop len.toNat)

def plainWdns : Wdns where
  skipName := fun name => (name.takeWhile (· ≠ 0)).length + 1
  downcase := (·.map lowerOctet)
  leftChop := chopLabel
  leftChop_lt := by
    rintro (_ | ⟨len, rest⟩) name' - hchop
    · cases hchop
    · cases hchop
      rw [List.length_drop, List.length_cons]
      omega

theorem plainWdns_onNames : plainWdns.OnNames := by
  have hnum : ∀ n ≤ 63, (UInt8.ofNat n).toNat = n ∧ lowerOctet (UInt8.ofNat n) = UInt8.ofNat n := by
    decide
  constructor
  · intro labels hvalid
    have hlabels := hvalid.label
    clear hvalid
    change (encodeName labels).map lowerOctet = _
    induction labels with
    | nil => rfl
    | cons label rest ih =>
        have hlabel := (hlabels label List.mem_cons_self).2
        have hcons : lowerName (label :: rest) = label.map lowerOctet :: lowerName rest := rfl
        rw [hcons, encodeName_cons, encodeName_cons, List.map_cons, List.map_append,
          List.length_map, (hnum _ hlabel).2, ih fun l hl => hlabels l (List.mem_cons_of_mem _ hl)]
  · intro label labels hvalid
    have hlabel := (hvalid.label label List.mem_cons_self).2
    change chopLabel (encodeName (label :: labels)) = _
    rw [encodeName_cons, chopLabel, (hnum _ hlabel).1, List.drop_left]

/-- The name `com`. -/
def comName : ListedName := ⟨[99, 111, 109], [[99, 111, 109]]⟩

/-- Text with neither dots nor backslashes is a name of one label. -/
def oneLabel (token : Bytes) : Option Bytes := some (encodeName [token])

theorem comName_valid : ∀ name ∈ [comName], name.Valid oneLabel := by
  intro name hname
  rw [List.mem_singleton.mp hname]
  exact ⟨⟨by decide, by simp [comName]⟩, rfl, ⟨by decide, by decide⟩⟩

theorem selects_by_suffix_iff_sample :
    SelectsBySuffix (fun _ => 3) plainWdns oneLabel [comName] [[87, 87, 87], [67, 79, 77]] ↔
      ((joinNames [comName]).length < 2 ^ 32 ∧ [comName].length < 2 ^ 31) ∧
        OnList [comName] [[87, 87, 87], [67, 79, 77]] :=
  selects_by_suffix_iff _ plainWdns_onNames (List.cons_ne_nil _ _) comName_valid
    ⟨by decide, by decide⟩

/-- **A list of names to include that drops nothing**: `org` is kept when only `com` is included. -/
theorem include_does_not_select :
    ¬ SelectsBySuffix (fun _ => 3) plainWdns oneLabel [comName] [[111, 114, 103]] := by
  rintro ⟨table, hinit, -, hincludes⟩
  obtain ⟨table', hinit', hholds⟩ := dnsqrFilterInit_holds (fun _ => 3) plainWdns_onNames
    (List.cons_ne_nil comName []) comName_valid (by decide) (by decide)
  rw [hinit, Except.ok.injEq, Option.some.injEq] at hinit'
  rw [← hinit'] at hholds
  obtain ⟨suffix, hsuffix, name, hname, hlower⟩ :=
    (includes_by_suffix_iff plainWdns_onNames comName_valid hholds ⟨by decide, by decide⟩).mp
      hincludes
  rw [List.mem_singleton.mp hname] at hlower
  rw [← hlower] at hsuffix
  exact absurd hsuffix (by decide)

end Nmsg

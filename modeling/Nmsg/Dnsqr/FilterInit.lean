import Nmsg.Dnsqr.Filter
import Nmsg.Lib.Text

/-!
# Loading the names of a filter

The names to include or to exclude are in a variable of the environment, with colons between them.
The table gets two slots for every name. Names are given here by their labels; on the wire each
label has its length in front, and an empty one ends the name.
-/

namespace Nmsg

/-- The array of `wdns_name_t` pointers of a filter. -/
structure FilterSlots where
  numSlots : Nat
  slot : Nat → Option Bytes

def NameTable.slots (table : NameTable) : FilterSlots := ⟨table.numSlots, table.slot⟩

section Init

variable (hashName : Bytes → UInt32) (wdns : Wdns) (strToName : Bytes → Option Bytes)

/-- `dnsqr_filter_insert` -/
def dnsqrFilterInsert (table : FilterSlots) (name : Bytes) : Except Abort FilterSlots :=
  if table.numSlots = 0 then .error .divideByZero
  else
    let slot := (hashName name).toNat % table.numSlots
    match LinearProbe.probe table.numSlots (fun s => (table.slot s).isNone)
        (LinearProbe.before table.numSlots slot) table.numSlots slot with
    | none => .error .assertion
    | some slot => .ok { table with slot := Function.update table.slot slot (some name) }

/-- A token that is no name is left out. -/
def dnsqrFilterToken (table : FilterSlots) (token : Bytes) : Except Abort FilterSlots :=
  match strToName token with
  | none => .ok table
  | some name => dnsqrFilterInsert hashName table (wdns.downcase name)

/-- The loop of `dnsqr_filter_init` over the tokens, from a token on, with the memory behind it. -/
def dnsqrFilterTokens : Nat → FilterSlots → Bytes × Bytes → Except Abort FilterSlots
  | 0, _, _ => .error .divergence
  | fuel + 1, table, (token, rest) =>
      match dnsqrFilterToken hashName wdns strToName table token with
      | .error e => .error e
      | .ok table =>
          match Text.strtok 58 rest with
          | none => .error .outOfBounds
          | some none => .ok table
          | some (some found) => dnsqrFilterTokens fuel table found

/-- `dnsqr_filter_init` for the value of the variable, if it is set. The index that counts the
colons has 32 bits, as have the numbers of names and of slots. -/
def dnsqrFilterInit : Option Bytes → Except Abort (Option FilterSlots)
  | none => .ok none
  | some names =>
      if names.length ≥ 2 ^ 32 then .error .divergence
      else
        let numNames := (1 + names.count 58) % 2 ^ 32
        let numSlots := numNames * 2 % 2 ^ 32
        match Text.strtok 58 (names ++ [0]) with
        | none => .error .outOfBounds
        | some none => .error .nullPointer
        | some (some found) =>
            (dnsqrFilterTokens hashName wdns strToName (names.length + 1) ⟨numSlots, fun _ => none⟩
              found).map some

end Init

/-! ### Names -/

/-- A name on the wire, uncompressed. -/
def encodeName (labels : List Bytes) : Bytes :=
  labels.flatMap (fun label => UInt8.ofNat label.length :: label) ++ [0]

/-- Labels have between 1 and 63 octets, and the name at most 255. -/
structure ValidName (labels : List Bytes) : Prop where
  label : ∀ label ∈ labels, 1 ≤ label.length ∧ label.length ≤ 63
  length : (encodeName labels).length ≤ 255

/-- An octet of a label in lower case. -/
def lowerOctet (c : UInt8) : UInt8 := if 65 ≤ c ∧ c ≤ 90 then c + 32 else c

def lowerName (labels : List Bytes) : List Bytes := labels.map (·.map lowerOctet)

/-- What `wdns_downcase_name` and `wdns_left_chop` do with valid names. -/
structure Wdns.OnNames (wdns : Wdns) : Prop where
  downcase : ∀ labels, ValidName labels →
    wdns.downcase (encodeName labels) = encodeName (lowerName labels)
  leftChop : ∀ label labels, ValidName (label :: labels) →
    wdns.leftChop (encodeName (label :: labels)) = some (encodeName labels)

/-- A name as it is written in the variable, and its labels. -/
structure ListedName where
  token : Bytes
  labels : List Bytes

/-- `wdns_str_to_name` reads these labels. A colon is between names, not in them. -/
structure ListedName.Valid (strToName : Bytes → Option Bytes) (name : ListedName) : Prop where
  token : Text.IsToken 58 name.token
  parsed : strToName name.token = some (encodeName name.labels)
  labels : ValidName name.labels

/-- The value of the variable: the names with colons between them. -/
def joinNames : List ListedName → Bytes
  | [] => []
  | [name] => name.token
  | name :: next :: rest => name.token ++ 58 :: joinNames (next :: rest)

/-- A suffix of the name, in lower case, is on the list. -/
def OnList (names : List ListedName) (labels : List Bytes) : Prop :=
  ∃ suffix, suffix <:+ lowerName labels ∧ ∃ name ∈ names, lowerName name.labels = suffix

/-- With this list alone to exclude, messages that ask for the name are dropped exactly when a suffix
of it is on the list. -/
def ExcludesBySuffix (hashName : Bytes → UInt32) (wdns : Wdns) (table : NameTable)
    (names : List ListedName) (labels : List Bytes) : Prop :=
  ∀ dnsqr : DnsQR, dnsqr.qname = some (encodeName labels) →
    ∃ dropped, doFilterQueryName hashName wdns none (some table) dnsqr = .ok dropped ∧
      (dropped = true ↔ OnList names labels)

/-- With this list alone to include, messages that ask for the name are dropped exactly when no
suffix of it is on the list. -/
def IncludesBySuffix (hashName : Bytes → UInt32) (wdns : Wdns) (table : NameTable)
    (names : List ListedName) (labels : List Bytes) : Prop :=
  ∀ dnsqr : DnsQR, dnsqr.qname = some (encodeName labels) →
    ∃ dropped, doFilterQueryName hashName wdns (some table) none dnsqr = .ok dropped ∧
      (dropped = true ↔ ¬ OnList names labels)

/-- The names are loaded, with no assertion failing and no walk going on forever, and select by
suffix. -/
def SelectsBySuffix (hashName : Bytes → UInt32) (wdns : Wdns) (strToName : Bytes → Option Bytes)
    (names : List ListedName) (labels : List Bytes) : Prop :=
  ∃ table : NameTable,
    dnsqrFilterInit hashName wdns strToName (some (joinNames names)) = .ok (some table.slots) ∧
    ExcludesBySuffix hashName wdns table names labels ∧
    IncludesBySuffix hashName wdns table names labels

end Nmsg

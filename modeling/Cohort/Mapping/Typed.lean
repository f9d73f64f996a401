import Cohort.Mapping.Basic
import Cohort.Text.Quoted
import Cohort.Wire.Codec

/-!
# Typed mappings

A mapping holds octets. A `MappingId` adds types on top: it names a mapping and says how its keys
and values are written, by an `EntryCodec` each. Logic and listeners over typed entries become
actions and listeners over octets. Octets that do not read as an entry make an action fail, and
keep a listener from being called.

## Main definitions

* `EntryCodec.ofCodec`, `EntryCodec.decimal`: ways to write keys and values.
* `MappingId.valueAction`, `MappingId.mapAction`: actions from typed logic.
* `MappingId.listener`: a listener from a typed one.
-/

namespace Cohort

/-- How keys or values of a mapping are written. Both directions may fail. -/
structure EntryCodec (α : Type) where
  encode : α → Outcome Bytes
  decode : Bytes → Outcome α

namespace EntryCodec

variable {α : Type}

/-- Written as a codec of the wire does. -/
def ofCodec (codec : Codec α) : EntryCodec α where
  encode a := .ok (codec.encode a)
  decode := codec.decode

/-- The digit that an octet spells in decimal. -/
def digit? (b : UInt8) : Option Nat :=
  if 48 ≤ b.toNat ∧ b.toNat ≤ 57 then some (b.toNat - 48) else none

/-- The number that decimal digits spell. -/
def ofDigits (digits : List Nat) : Nat := digits.foldl (fun n digit => 10 * n + digit) 0

/-- Written as its decimal digits; only a row of digits whose number fits is read. -/
def decimal : EntryCodec UInt32 where
  encode n := .ok (Bytes.ofText (toString n.toNat))
  decode bs :=
    match bs.mapM digit? with
    | some (digit :: rest) =>
      let n := ofDigits (digit :: rest)
      if n < UInt32.size then .ok (UInt32.ofNat n) else .error .invalidParameters
    | _ => .error .invalidParameters

end EntryCodec

/-- What logic on one value asks for. -/
inductive Update (ν : Type) where
  | keep
  | set (value : ν)
  | remove
  deriving DecidableEq, Repr

/-- Watches a mapping of typed entries. -/
structure TypedListener (κ ν : Type) where
  /-- A value was stored, in place of an old one if there was one. -/
  onPut : κ → ν → Option ν → Reaction
  /-- A value was deleted. -/
  onRemoved : κ → ν → Reaction

/-- The name of a mapping, and how its keys and values are written. -/
structure MappingId (κ ν : Type) where
  name : String
  keys : EntryCodec κ
  values : EntryCodec ν

/-- What an optional value reads as. -/
def decodeOptional {α : Type} (codec : EntryCodec α) : Option Bytes → Outcome (Option α)
  | none => .ok none
  | some bs => (codec.decode bs).map some

namespace MappingId

variable {κ ν α ρ : Type}

/-- A mapping whose keys and values are written as on the wire. -/
def ofCodecs (name : String) (keys : Codec κ) (values : Codec ν) : MappingId κ ν :=
  ⟨name, .ofCodec keys, .ofCodec values⟩

/-- The text of an id: its name, quoted. -/
def render (id : MappingId κ ν) : String := "MappingId(" ++ Text.quote id.name ++ ")"

/-- The changes that an update of the entry under `key` makes. -/
def changesOfUpdate (id : MappingId κ ν) (key : Bytes) : Update ν → Outcome (List Change)
  | .keep => .ok []
  | .set value => (id.values.encode value).map fun bs => [(key, some bs)]
  | .remove => .ok [(key, none)]

/-- A named action from logic on one value, whose arguments and result are written as on the
wire. -/
def valueAction (id : MappingId κ ν) (args : Codec α) (result : Codec ρ)
    (logic : κ → Option ν → α → Attempted (Update ν × ρ)) : ValueAction :=
  fun key current arguments => do
    let typedKey ← attempt (id.keys.decode key)
    let value ← attempt (decodeOptional id.values current)
    let a ← attempt (args.decode arguments)
    let (update, r) ← logic typedKey value a
    return ⟨← attempt (id.changesOfUpdate key update), result.encode r⟩

/-- A listener from a typed one. -/
def listener (id : MappingId κ ν) (typed : TypedListener κ ν) : Listener
  | .put key value old =>
    match id.keys.decode key, id.values.decode value, decodeOptional id.values old with
    | .ok key, .ok value, .ok old => typed.onPut key value old
    | _, _, _ => ⟨[], .error (.failed .codec)⟩
  | .removed key old =>
    match id.keys.decode key, id.values.decode old with
    | .ok key, .ok old => typed.onRemoved key old
    | _, _ => ⟨[], .error (.failed .codec)⟩

variable [Ord κ] [Std.TransOrd κ]

/-- Store a value under a key. A key that is there in another form stays in that form. -/
def storeUnder (typed : Std.ExtTreeMap κ ν) (key : κ) (value : ν) : Std.ExtTreeMap κ ν :=
  typed.insert (typed.getKeyD key key) value

/-- Where the order tells all keys apart there is one form of each. -/
theorem storeUnder_eq_insert [Std.LawfulEqOrd κ] (typed : Std.ExtTreeMap κ ν) (key : κ)
    (value : ν) : storeUnder typed key value = typed.insert key value := by
  by_cases there : key ∈ typed
  · rw [storeUnder, Std.ExtTreeMap.getKeyD_eq_of_mem there]
  · rw [storeUnder, Std.ExtTreeMap.getKeyD_eq_fallback there]

/-- All entries of a mapping, read. -/
def decodeEntries (id : MappingId κ ν) (entries : Entries) : Outcome (Std.ExtTreeMap κ ν) :=
  entries.toList.foldlM (fun typed entry => do
    return storeUnder typed (← id.keys.decode entry.1) (← id.values.decode entry.2)) ∅

/-- All entries of a mapping, written. -/
def encodeEntries (id : MappingId κ ν) (typed : Std.ExtTreeMap κ ν) : Outcome Entries :=
  typed.toList.foldlM (fun entries entry => do
    return entries.insert (← id.keys.encode entry.1) (← id.values.encode entry.2)) ∅

/-- The changes that lead from one table to another: deletions, then new and other values. -/
def difference (before after : Entries) : List Change :=
  ((before.keys.filter fun key => !after.contains key).map fun key => (key, none)) ++
    ((after.toList.filter fun entry => before[entry.1]? ≠ some entry.2).map
      fun entry => (entry.1, some entry.2))

/-- A named action from logic on a whole mapping, whose arguments and result are written as on the
wire. What the logic made of the entries is compared with what they were. -/
def mapAction (id : MappingId κ ν) (args : Codec α) (result : Codec ρ)
    (logic : Std.ExtTreeMap κ ν → α → Attempted (Std.ExtTreeMap κ ν × ρ)) : MapAction :=
  fun entries arguments => do
    let typed ← attempt (id.decodeEntries entries)
    let a ← attempt (args.decode arguments)
    let (typed, r) ← logic typed a
    return ⟨difference entries (← attempt (id.encodeEntries typed)), result.encode r⟩

end MappingId

end Cohort

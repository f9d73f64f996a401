import Cohort.Mapping.Service
import Cohort.Mapping.Typed

/-!
# Mappings of counters

Stock actions and listeners for mappings from names to counters. Counters have thirty-two bits and
count round.

## Main definitions

* `Counters.valueActions`, `Counters.mapActions`: the stock actions, by name.
* `Counters.configure`: a mapping with all of them.
* `Counters.listener?`: the stock listeners, by kind.
-/

namespace Cohort.Counters

/-- A mapping from names to counters. -/
def id (name : String) : MappingId String UInt32 := .ofCodecs name Codec.text Codec.u32

/-- Counters by name. -/
abbrev Table := Std.ExtTreeMap String UInt32

/-! ## Actions on one counter -/

/-- Add to a counter, which starts from zero, and answer with the total. -/
def add (_ : String) (current : Option UInt32) (n : UInt32) :
    Attempted (Update UInt32 × UInt32) :=
  let total := current.getD 0 + n
  .ok (.set total, total)

/-- Answer with the value of a counter. -/
def peek (_ : String) (current : Option UInt32) (_ : Unit) :
    Attempted (Update UInt32 × Option UInt32) :=
  .ok (.keep, current)

/-- Delete a counter, and answer with its value. -/
def take (_ : String) (current : Option UInt32) (_ : Unit) :
    Attempted (Update UInt32 × Option UInt32) :=
  .ok (.remove, current)

/-- Set a counter if it has the expected value, and answer whether it had. -/
def compareAndSet (_ : String) (current : Option UInt32) (args : Option UInt32 × UInt32) :
    Attempted (Update UInt32 × Bool) :=
  if current = args.1 then .ok (.set args.2, true) else .ok (.keep, false)

/-- Answer with the length of a counter's name in UTF-8. -/
def keyLength (key : String) (_ : Option UInt32) (_ : Unit) :
    Attempted (Update UInt32 × UInt32) :=
  .ok (.keep, UInt32.ofNat key.utf8ByteSize)

/-- Set a counter, and answer with its name and the text given. -/
def putPair (key : String) (_ : Option UInt32) (args : String × UInt32) :
    Attempted (Update UInt32 × String) :=
  .ok (.set args.2, key ++ args.1)

/-- Fail. -/
def fail (_ : String) (_ : Option UInt32) (_ : Unit) : Attempted (Update UInt32 × Unit) :=
  .error (.failed .invalidParameters)

/-- Break down. -/
def crash (_ : String) (_ : Option UInt32) (_ : Unit) : Attempted (Update UInt32 × Unit) :=
  .error .crashed

/-- The stock actions on one counter of a mapping, by name. -/
def valueActions (name : String) : List (String × ValueAction) :=
  let id := id name
  [("add", id.valueAction Codec.u32 Codec.u32 add),
    ("peek", id.valueAction Codec.unit Codec.u32.optional peek),
    ("take", id.valueAction Codec.unit Codec.u32.optional take),
    ("cas", id.valueAction (Codec.u32.optional.pair Codec.u32) Codec.bool compareAndSet),
    ("keylen", id.valueAction Codec.unit Codec.u32 keyLength),
    ("put_pair", id.valueAction (Codec.text.pair Codec.u32) Codec.text putPair),
    ("fail", id.valueAction Codec.unit Codec.unit fail),
    ("panic", id.valueAction Codec.unit Codec.unit crash)]

/-! ## Actions on all counters -/

/-- Answer with the number of counters. -/
def count (table : Table) (_ : Unit) : Attempted (Table × UInt32) :=
  .ok (table, UInt32.ofNat table.size)

/-- Answer with the sum of all counters. -/
def sum (table : Table) (_ : Unit) : Attempted (Table × UInt64) :=
  .ok (table, table.values.foldl (fun total n => total + n.toUInt64) 0)

/-- Delete every counter below a floor, and answer how many there were. -/
def keepFrom (table : Table) (floor : UInt32) : Attempted (Table × UInt32) :=
  let kept := table.filter fun _ n => floor ≤ n
  .ok (kept, UInt32.ofNat (table.size - kept.size))

/-- Delete every counter. -/
def clear (_ : Table) (_ : Unit) : Attempted (Table × Unit) := .ok (∅, ())

/-- Add to every counter, and answer with their names. -/
def bump (table : Table) (n : UInt32) : Attempted (Table × List String) :=
  .ok (table.map fun _ m => m + n, table.keys)

/-- Move a counter to another name, and answer whether it was there. -/
def rename (table : Table) (names : String × String) : Attempted (Table × Bool) :=
  match table[names.1]? with
  | some n => .ok ((table.erase names.1).insert names.2 n, true)
  | none => .ok (table, false)

/-- Fail after deleting everything. -/
def failAll (_ : Table) (_ : Unit) : Attempted (Table × Unit) :=
  .error (.failed .invalidParameters)

/-- Break down after deleting everything. -/
def crashAll (_ : Table) (_ : Unit) : Attempted (Table × Unit) := .error .crashed

/-- The stock actions on all counters of a mapping, by name. -/
def mapActions (name : String) : List (String × MapAction) :=
  let id := id name
  [("count", id.mapAction Codec.unit Codec.u32 count),
    ("sum", id.mapAction Codec.unit Codec.u64 sum),
    ("keep_from", id.mapAction Codec.u32 Codec.u32 keepFrom),
    ("clear", id.mapAction Codec.unit Codec.unit clear),
    ("bump", id.mapAction Codec.u32 Codec.text.list bump),
    ("rename", id.mapAction (Codec.text.pair Codec.text) Codec.bool rename),
    ("fail", id.mapAction Codec.unit Codec.unit failAll),
    ("panic", id.mapAction Codec.unit Codec.unit crashAll)]

/-- Add a mapping of counters with all stock actions. -/
def configure (s : MappingService) (name : String) (replication : Replication) :
    Outcome Unit × MappingService :=
  match s.configure name replication with
  | (.error failure, s) => (.error failure, s)
  | (.ok _, s) =>
    let s := (valueActions name).foldl
      (fun s action => (s.registerValueAction name action.1 action.2).2) s
    (.ok (), (mapActions name).foldl
      (fun s action => (s.registerMapAction name action.1 action.2).2) s)

/-! ## Listeners -/

/-- The text of a counter that may be missing. -/
def renderOptional : Option UInt32 → String
  | none => "None"
  | some n => "Some(" ++ toString n.toNat ++ ")"

/-- The text of octets that may be missing. -/
def hexOptional : Option Bytes → String
  | none => "-"
  | some bs => bs.toHex

/-- The remark on a stored value. -/
def putRemark (tag key value old : String) : String :=
  tag ++ " put " ++ key ++ " " ++ value ++ " " ++ old

/-- The remark on a deleted value. -/
def removedRemark (tag key old : String) : String := tag ++ " removed " ++ key ++ " " ++ old

/-- A listener that remarks on every change, and ends as told. -/
def remarking (tag : String) (outcome : Attempted Unit) : TypedListener String UInt32 where
  onPut key value old :=
    ⟨[putRemark tag key (toString value.toNat) (renderOptional old)], outcome⟩
  onRemoved key old := ⟨[removedRemark tag key (toString old.toNat)], outcome⟩

/-- A listener that takes no notice. -/
def silent : TypedListener String UInt32 where
  onPut _ _ _ := ⟨[], .ok ()⟩
  onRemoved _ _ := ⟨[], .ok ()⟩

/-- A listener that remarks on octets. -/
def octets (tag : String) : Listener
  | .put key value old => ⟨[putRemark tag key.toHex value.toHex (hexOptional old)], .ok ()⟩
  | .removed key old => ⟨[removedRemark tag key.toHex old.toHex], .ok ()⟩

/-- The stock listeners, by kind. -/
def listener? (kind tag : String) : Option Listener :=
  let typed := (id "").listener
  match kind with
  | "log" => some (typed (remarking tag (.ok ())))
  | "fail" => some (typed (remarking tag (.error (.failed .actionFailed))))
  | "panic" => some (typed (remarking tag (.error .crashed)))
  | "deaf" => some (typed silent)
  | "raw" => some (octets tag)
  | _ => none

end Cohort.Counters

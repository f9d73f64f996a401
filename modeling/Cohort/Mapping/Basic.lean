import Cohort.Fault
import Cohort.Message

/-!
# Mappings

A mapping is a table from byte strings to byte strings that the nodes of a cluster share. Its
`Replication` says how: either every node keeps a full copy and tells the others what it changes,
at once or in batches, or one node, the mapping's master, keeps the only copy and the others call
on it.

Named actions run on a mapping where its copy lives, either on one value (`ValueAction`) or on all
of it (`MapAction`). They see octets, and answer with the changes to make and an encoded result.
Listeners are told of every change. Neither can harm the mapping: what an action does comes into
force only if it succeeds, and a listener that fails is heard no differently from one that does
not.

## Main definitions

* `Mapping`: a table with what is registered on it.
* `Mapping.plan`: what a call would change, and what it answers.
* `Mapping.apply`: make changes and tell the listeners.
-/

namespace Cohort

/-- How the nodes of a cluster share a mapping. -/
inductive Replication where
  /-- Every node has a copy; changes are told at once. -/
  | immediate
  /-- Every node has a copy; changes are told at most once in so many milliseconds. -/
  | batched (interval : Nat)
  /-- One node has the only copy. -/
  | single
  deriving DecidableEq, Repr

namespace Replication

/-- Whether every node has a copy. -/
def isReplicated : Replication → Bool
  | single => false
  | _ => true

/-- The wording of a replication. -/
def render : Replication → String
  | immediate => "immediate"
  | batched interval => "batched(" ++ toString interval ++ "ms)"
  | single => "remote"

end Replication

/-- The entries of a mapping, in the order of their keys. -/
abbrev Entries := Std.ExtTreeMap Bytes Bytes

/-- A change of one entry: its key, and its value from now on, or none if it is deleted. -/
abbrev Change := Bytes × Option Bytes

/-- Changes of which only the last one for each key counts, in the order of their keys. -/
abbrev Changes := Std.ExtTreeMap Bytes (Option Bytes)

/-- What a named action asks for. -/
structure ActionOutcome where
  changes : List Change
  /-- The encoded answer to the caller. -/
  result : Bytes
  deriving DecidableEq, Repr

/-- A named action on one value: key, current value, arguments. -/
abbrev ValueAction := Bytes → Option Bytes → Bytes → Attempted ActionOutcome

/-- A named action on a whole mapping: entries, arguments. -/
abbrev MapAction := Entries → Bytes → Attempted ActionOutcome

/-- What a listener is told. -/
inductive Notice where
  /-- A value was stored, in place of an old one if there was one. -/
  | put (key value : Bytes) (old : Option Bytes)
  /-- A value was deleted. -/
  | removed (key old : Bytes)
  deriving DecidableEq, Repr

/-- How a listener takes a notice: what it remarks, and whether it gets through with it. -/
structure Reaction where
  remarks : List String
  outcome : Attempted Unit

/-- Watches a mapping. -/
abbrev Listener := Notice → Reaction

/-- A notice that a listener was given, and how it took it. -/
structure Told where
  /-- The mapping's index. -/
  index : UInt16
  /-- The listener's place among those of the mapping. -/
  listener : Nat
  notice : Notice
  reaction : Reaction

/-- A table with what is registered on it. -/
structure Mapping where
  id : String
  index : UInt16
  replication : Replication
  entries : Entries
  /-- Changes that the other nodes were not told yet. -/
  dirty : Changes
  /-- When the other nodes were told last. -/
  lastFlush : Option Nat
  listeners : List Listener
  valueActions : Std.ExtTreeMap String ValueAction
  mapActions : Std.ExtTreeMap String MapAction

namespace Mapping

/-- An empty mapping with nothing registered on it. -/
def fresh (id : String) (index : UInt16) (replication : Replication) : Mapping where
  id := id
  index := index
  replication := replication
  entries := ∅
  dirty := ∅
  lastFlush := none
  listeners := []
  valueActions := ∅
  mapActions := ∅

/-- What marks the caches whose news are about mappings. -/
def cacheMark : String := "mapping/"

/-- The name of the cache whose news are about this mapping. -/
def cacheName (m : Mapping) : String := cacheMark ++ m.id

/-- The entries after a change. -/
def changed (entries : Entries) (change : Change) : Entries :=
  match change.2 with
  | some value => entries.insert change.1 value
  | none => entries.erase change.1

/-- What listeners are told of a change, given the old value: nothing when there was nothing to
delete. -/
def noticeOf (change : Change) (old : Option Bytes) : Option Notice :=
  match change.2, old with
  | some value, old => some (.put change.1 value old)
  | none, some old => some (.removed change.1 old)
  | none, none => none

/-- Tell every listener. -/
def tell (m : Mapping) (notice : Notice) : List Told :=
  m.listeners.mapIdx fun i listener => ⟨m.index, i, notice, listener notice⟩

/-- Make a change and tell the listeners. -/
def applyOne (m : Mapping) (change : Change) : Mapping × List Told :=
  let told := match noticeOf change m.entries[change.1]? with
    | some notice => m.tell notice
    | none => []
  ({ m with entries := changed m.entries change }, told)

/-- Make changes, one after the other, and tell the listeners. -/
def apply (m : Mapping) : List Change → Mapping × List Told
  | [] => (m, [])
  | change :: rest =>
    let (m, told) := m.applyOne change
    let (m, more) := m.apply rest
    (m, told ++ more)

/-- What a call would change, and what it answers. -/
def plan (m : Mapping) : MappingCall → Outcome (List Change × Option Bytes)
  | .get _ key => .ok ([], m.entries[key]?)
  | .put _ key value => .ok ([(key, some value)], m.entries[key]?)
  | .remove _ key => .ok ([(key, none)], m.entries[key]?)
  | .sync _ keys values =>
    if keys.length = values.length then .ok (keys.zip values, none) else .error .invalidParameters
  | .withValue _ key action args =>
    match m.valueActions[action]? with
    | none => .error .unknownAction
    | some run =>
      match run key m.entries[key]? args with
      | .ok outcome => .ok (outcome.changes, some outcome.result)
      | .error _ => .error .actionFailed
  | .handOff _ keys values =>
    if keys.length = values.length then
      .ok (((keys.zip values).filter fun entry => !m.entries.contains entry.1).map
        fun entry => (entry.1, some entry.2), none)
    else .error .invalidParameters
  | .withAll _ action args =>
    match m.mapActions[action]? with
    | none => .error .unknownAction
    | some run =>
      match run m.entries args with
      | .ok outcome => .ok (outcome.changes, some outcome.result)
      | .error _ => .error .actionFailed

/-- The call that passes changes on. -/
def syncCall (m : Mapping) (changes : Changes) : MappingCall :=
  .sync m.index changes.keys changes.values

/-- Whether so much time has passed since the other nodes were told last. -/
def isDue (m : Mapping) (interval now : Nat) : Bool :=
  match m.lastFlush with
  | some last => interval ≤ now - last
  | none => true

end Mapping

end Cohort

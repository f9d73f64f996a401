import Cohort.Mapping.Service
import Cohort.Proofs.Wire.Messages
import Mathlib.Data.List.Perm.Subperm

/-!
# What several changes come to

Of several changes of a table only the last one of each key counts. That is what a table of changes
keeps, so such a table may take the place of the changes it was made from, and it may travel as news
and be applied elsewhere.

## Main definitions

* `lastChange`: the last of several changes of a key.
* `newsOf`: the changes of a mapping that an event tells of.
* `Writable`: changes whose numbers fit what they are written with.

## Main statements

* `getElem?_foldl_changed`: what a key holds after several changes.
* `newsOf_syncEvent`: news that were written are read back.
-/

namespace Cohort

/-- The values of a table, by their keys. -/
theorem values_eq_map_toList {α β : Type} [Ord α] [Std.TransOrd α] (table : Std.ExtTreeMap α β) :
    table.values = table.toList.map Prod.snd := by
  have folded : table.values = table.foldr (fun _ value values => value :: values) [] := by
    obtain ⟨inner⟩ := table
    induction inner using Std.ExtDTreeMap.inductionOn
    rfl
  rw [folded, Std.ExtTreeMap.foldr_eq_foldr_toList, List.map_eq_foldr]

/-- What is left of a table from which one entry after the other was erased. -/
theorem getElem?_foldl_erase {σ κ α : Type} [Ord κ] [Std.TransOrd κ] [Std.LawfulEqOrd κ]
    [DecidableEq κ] {table : σ → Std.ExtTreeMap κ α} {f : σ → κ → σ}
    (erases : ∀ s key, table (f s key) = (table s).erase key) (keys : List κ) (s : σ) (k : κ) :
    (table (keys.foldl f s))[k]? = if k ∈ keys then none else (table s)[k]? := by
  induction keys generalizing s with
  | nil => simp
  | cons key keys ih =>
    rw [List.foldl_cons, ih, erases, Std.ExtTreeMap.getElem?_erase]
    simp only [Std.compare_eq_iff_eq, List.mem_cons]
    by_cases same : key = k
    · simp [same]
    · simp [same, Ne.symm same]

theorem filterMap_cons_eq {α β : Type} (f : α → Option β) (a : α) (l : List α) :
    (a :: l).filterMap f = (f a).toList ++ l.filterMap f := by
  rw [List.filterMap_cons]
  cases f a <;> rfl

/-- The last of several changes of a key, if there is one: the value it stores, or none if it
deletes. -/
def lastChange (key : Bytes) (changes : List Change) : Option (Option Bytes) :=
  changes.reverse.findSome? fun change => if change.1 = key then some change.2 else none

section LastChange

variable {key : Bytes} {changes changes' : List Change} {entries : Entries} {table : Changes}

@[simp] theorem lastChange_nil (key : Bytes) : lastChange key [] = none := rfl

theorem lastChange_append (key : Bytes) (changes changes' : List Change) :
    lastChange key (changes ++ changes') =
      (lastChange key changes').or (lastChange key changes) := by
  rw [lastChange, List.reverse_append, List.findSome?_append]
  rfl

@[simp] theorem lastChange_singleton (key : Bytes) (change : Change) :
    lastChange key [change] = if change.1 = key then some change.2 else none := by
  by_cases eq : change.1 = key <;> simp [lastChange, eq]

theorem lastChange_cons (key : Bytes) (change : Change) (changes : List Change) :
    lastChange key (change :: changes) =
      (lastChange key changes).or (if change.1 = key then some change.2 else none) := by
  rw [← List.singleton_append, lastChange_append, lastChange_singleton]

theorem lastChange_eq_none_iff :
    lastChange key changes = none ↔ ∀ change ∈ changes, change.1 ≠ key := by
  simp [lastChange]

theorem mem_of_lastChange {value : Option Bytes} (last : lastChange key changes = some value) :
    (key, value) ∈ changes := by
  obtain ⟨change, member, found⟩ := List.exists_of_findSome?_eq_some last
  split at found
  next eq =>
    obtain rfl := eq
    obtain rfl := Option.some.inj found
    exact List.mem_reverse.1 member
  next => cases found

/-- What a key holds after several changes is what the last one of them gave it. -/
theorem getElem?_foldl_changed (key : Bytes) (changes : List Change) (entries : Entries) :
    (changes.foldl Mapping.changed entries)[key]? =
      (lastChange key changes).getD entries[key]? := by
  induction changes generalizing entries with
  | nil => rfl
  | cons change changes ih =>
    have first : (Mapping.changed entries change)[key]? =
        if change.1 = key then change.2 else entries[key]? := by
      obtain ⟨other, value⟩ := change
      cases value with
      | some value =>
        simp only [Mapping.changed, Std.ExtTreeMap.getElem?_insert, Std.compare_eq_iff_eq]
      | none => simp only [Mapping.changed, Std.ExtTreeMap.getElem?_erase, Std.compare_eq_iff_eq]
    rw [List.foldl_cons, ih, first, lastChange_cons]
    cases lastChange key changes with
    | some value => rfl
    | none => by_cases eq : change.1 = key <;> simp [eq]

theorem getElem?_insertMany (key : Bytes) (table : Changes) (changes : List Change) :
    (table.insertMany changes)[key]? = (lastChange key changes).or table[key]? := by
  rw [Std.ExtTreeMap.getElem?_insertMany_list, lastChange,
    List.findSomeRev?_eq_findSome?_reverse]
  simp only [Std.compare_eq_iff_eq]

theorem getElem?_ofList (key : Bytes) (changes : List Change) :
    (Std.ExtTreeMap.ofList changes : Changes)[key]? = lastChange key changes := by
  rw [Std.ExtTreeMap.ofList_eq_insertMany_empty, getElem?_insertMany]
  simp

/-- A table of changes, taken as changes one after the other, comes to itself. -/
theorem lastChange_toList (key : Bytes) (table : Changes) :
    lastChange key table.toList = table[key]? := by
  cases held : table[key]? with
  | none =>
    refine lastChange_eq_none_iff.2 fun change member eq => ?_
    rw [← eq, Std.ExtTreeMap.mem_toList_iff_getElem?_eq_some.1 member] at held
    cases held
  | some value =>
    rw [← getElem?_ofList]
    exact Std.ExtTreeMap.getElem?_ofList_of_mem Std.compare_self
      Std.ExtTreeMap.distinct_keys_toList (Std.ExtTreeMap.mem_toList_iff_getElem?_eq_some.2 held)

end LastChange

/-! ## Changes as news -/

/-- The counts that a change is written with. -/
def Change.numbers (change : Change) : List Nat :=
  change.1.length :: change.2.toList.map List.length

/-- Changes are few and short enough to be written. -/
def Writable (changes : List Change) : Prop :=
  Fit (changes.length :: changes.flatMap Change.numbers)

/-- A table that holds nothing but writable changes is writable. -/
theorem Writable.table {changes : List Change} {table : Changes} (writable : Writable changes)
    (among : ∀ (key : Bytes) (value : Option Bytes), table[key]? = some value →
      (key, value) ∈ changes) : Writable table.toList := by
  obtain ⟨count, each⟩ := fit_cons.1 writable
  have subset : table.toList ⊆ changes := fun change member =>
    among change.1 change.2 (Std.ExtTreeMap.mem_toList_iff_getElem?_eq_some.1 member)
  have apart : table.toList.Pairwise fun a b => ¬ compare a.1 b.1 = .eq :=
    Std.ExtTreeMap.distinct_keys_toList
  have distinct : table.toList.Nodup :=
    apart.imp fun differ eq => differ (by rw [eq, Std.compare_self])
  have fewer : table.toList.length ≤ changes.length :=
    (List.subperm_of_subset distinct subset).length_le
  refine fit_cons.2 ⟨Nat.lt_of_le_of_lt fewer count, fit_flatMap.2 fun change member => ?_⟩
  exact fit_flatMap.1 each change (subset member)

/-- The changes of a mapping that an event tells of. -/
def NodeEvent.newsOf (id : String) : NodeEvent → List Change
  | .cacheData cache data =>
    if MappingService.mappingOfCache? cache = some id then
      (MappingService.changesOf? data).getD []
    else []
  | _ => []

/-- News are about the mapping whose id follows the mark. -/
theorem mappingOfCache?_eq_some_iff {cache id : String} :
    MappingService.mappingOfCache? cache = some id ↔ cache = Mapping.cacheMark ++ id := by
  rw [MappingService.mappingOfCache?, ← String.length_toList]
  constructor
  · intro about
    split at about
    next front =>
      obtain ⟨rest, whole⟩ := List.isPrefixOf_iff_prefix.1 front
      obtain rfl := Option.some.inj about
      rw [← whole, List.drop_left, ← String.toList_inj, String.toList_append,
        String.toList_ofList, whole]
    next => cases about
  · rintro rfl
    have front : Mapping.cacheMark.toList.isPrefixOf (Mapping.cacheMark ++ id).toList = true := by
      rw [List.isPrefixOf_iff_prefix, String.toList_append]
      exact List.prefix_append _ _
    rw [if_pos front, String.toList_append, List.drop_left, String.ofList_toList]

theorem mappingOfCache?_cacheName (m : Mapping) :
    MappingService.mappingOfCache? m.cacheName = some m.id :=
  mappingOfCache?_eq_some_iff.2 rfl

/-- A table of changes reads back from the call that passes it on. -/
theorem changesOf?_syncCall (m : Mapping) {table : Changes} (writable : Writable table.toList) :
    MappingService.changesOf? (MappingCall.codec.encode (m.syncCall table)) =
      some table.toList := by
  have keys : table.keys = table.toList.map Prod.fst :=
    Std.ExtTreeMap.map_fst_toList_eq_keys.symm
  have values := values_eq_map_toList table
  have fits : Fit (m.syncCall table).numbers := by
    obtain ⟨count, each⟩ := fit_cons.1 writable
    simp only [Mapping.syncCall, MappingCall.numbers, keys, values, fit_cons, fit_append, fit_map,
      fit_flatMap, List.length_map, List.mem_map, forall_exists_index, and_imp]
    refine ⟨count, count, ?_, ?_⟩
    · rintro key change member rfl
      exact (fit_cons.1 (fit_flatMap.1 each change member)).1
    · rintro value change member rfl
      exact fit_map.1 (fit_cons.1 (fit_flatMap.1 each change member)).2
  have back := (MappingCall.keeps fits).decode? []
  rw [List.append_nil] at back
  rw [MappingService.changesOf?, back]
  simp only [Mapping.syncCall, keys, values, List.length_map, if_true]
  rw [List.zip_map', List.map_id']

/-- News that a mapping was changed tell of just these changes. -/
theorem newsOf_syncEvent (m : Mapping) {table : Changes} (writable : Writable table.toList) :
    (MappingService.syncEvent m table).newsOf m.id = table.toList := by
  rw [MappingService.syncEvent, NodeEvent.newsOf, if_pos (mappingOfCache?_cacheName m),
    changesOf?_syncCall m writable, Option.getD_some]

end Cohort

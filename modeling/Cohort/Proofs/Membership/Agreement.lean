import Cohort.Membership.MemoryStore
import Cohort.Proofs.Membership.Files
import Mathlib.Data.List.Induction

/-!
# Membership stores agree

A store in files and one in memory answer alike, whatever is asked of them, as long as the names of
nodes can be names of files. Both give the records of the nodes that were heard of, in the order of
their names: each as the last sign of life left it, and marked if the node went away since.

## Main definitions

* `StoreCall`, `StoreReply`: what is asked of a store and what it answers.
* `StoreCall.Fits`: the names of a call can be names of files.
* `Remains`: the record that several calls leave of a node.
* `Keeps`: what is kept is what the calls leave.

## Main statements

* `FileStore.Holds.call`: a call finds and leaves the same records in both stores.
* `MemoryStore.keeps_after`: what several calls leave in a store.
* `FileStore.agrees_with_memory`: both stores answer alike, and what they answer.
-/

namespace Cohort

/-- What is asked of a membership store. -/
inductive StoreCall where
  | heartbeat (now : Nat) (record : NodeRecord)
  | shutDown (node : NodeName)
  | load
  deriving DecidableEq

/-- What a membership store answers. -/
inductive StoreReply where
  | done (outcome : Outcome Unit)
  | nodes (outcome : Outcome (List NodeRecord))
  deriving DecidableEq

/-- The names of a call can be names of files on a disk, and its numbers can be written. -/
def StoreCall.Fits (d : Disk) : StoreCall → Prop
  | heartbeat now record => FileStore.Stores d record.name ∧ Fit (record.stamped now).numbers
  | shutDown node => FileStore.Stores d node
  | load => True

instance (d : Disk) : (call : StoreCall) → Decidable (call.Fits d)
  | .heartbeat now record => inferInstanceAs (Decidable
      (FileStore.Stores d record.name ∧ ∀ n ∈ (record.stamped now).numbers, n < UInt64.size))
  | .shutDown node => inferInstanceAs (Decidable (FileStore.Stores d node))
  | .load => inferInstanceAs (Decidable True)

namespace FileStore

/-- Answer a call. -/
def call (s : FileStore) : StoreCall → StoreReply × FileStore
  | .heartbeat now record => (s.heartbeat now record).map .done id
  | .shutDown node => (s.shutDown node).map .done id
  | .load => (.nodes s.load, s)

/-- Answer several calls, one after the other. -/
def replies (s : FileStore) : List StoreCall → List StoreReply
  | [] => []
  | call :: calls => (s.call call).1 :: (s.call call).2.replies calls

/-- The store after several calls. -/
def after (s : FileStore) (calls : List StoreCall) : FileStore :=
  calls.foldl (fun s call => (s.call call).2) s

end FileStore

namespace MemoryStore

/-- Answer a call. -/
def call (s : MemoryStore) : StoreCall → StoreReply × MemoryStore
  | .heartbeat now record => (s.heartbeat now record).map .done id
  | .shutDown node => (s.shutDown node).map .done id
  | .load => (.nodes s.load, s)

/-- Answer several calls, one after the other. -/
def replies (s : MemoryStore) : List StoreCall → List StoreReply
  | [] => []
  | call :: calls => (s.call call).1 :: (s.call call).2.replies calls

/-- The store after several calls. -/
def after (s : MemoryStore) (calls : List StoreCall) : MemoryStore :=
  calls.foldl (fun s call => (s.call call).2) s

end MemoryStore

/-! ## Call by call -/

/-- Records in the order of their names are determined by which of them there are. -/
theorem eq_of_sorted {records records' : List NodeRecord}
    (sorted : records.Pairwise fun a b => a.name < b.name)
    (sorted' : records'.Pairwise fun a b => a.name < b.name)
    (same : ∀ record, record ∈ records ↔ record ∈ records') : records = records' := by
  have differ {a b : NodeRecord} (before : a.name < b.name) : a ≠ b := by
    rintro rfl
    exact lt_irrefl _ before
  refine List.Perm.eq_of_pairwise (fun a b _ _ before after => ?_) sorted sorted'
    ((List.perm_ext_iff_of_nodup (sorted.imp differ) (sorted'.imp differ)).2 same)
  exact absurd (before.trans after) (lt_irrefl _)

namespace MemoryStore

/-- What is kept in memory, node by node. -/
def held (m : MemoryStore) (node : NodeName) : Option NodeRecord := m.records[node]?

/-- Loading gives the records in the order of their names, if each is kept under its own. -/
theorem load_eq {m : MemoryStore}
    (named : ∀ node record, m.held node = some record → record.name = node) : ∃ records,
    m.load = .ok records ∧ records.Pairwise (fun a b => a.name < b.name) ∧
    ∀ record, record ∈ records ↔ m.held record.name = some record := by
  have known {node : NodeName} {record : NodeRecord} :
      (node, record) ∈ m.records.toList ↔ m.held node = some record :=
    Std.ExtTreeMap.mem_toList_iff_getElem?_eq_some
  refine ⟨m.records.values, rfl, ?_, fun record => ?_⟩
  · rw [values_eq_map_toList, List.pairwise_map]
    refine m.records.ordered_keys_toList.imp_of_mem fun {a b} there there' before => ?_
    rw [named _ _ (known.1 there), named _ _ (known.1 there')]
    exact compare_lt_iff_lt.1 before
  · rw [values_eq_map_toList, List.mem_map]
    constructor
    · rintro ⟨⟨node, record⟩, there, rfl⟩
      rw [named node record (known.1 there)]
      exact known.1 there
    · exact fun there => ⟨(record.name, record), known.2 there, rfl⟩

theorem held_heartbeat (m : MemoryStore) (now : Nat) (record : NodeRecord) :
    (m.heartbeat now record).2.held =
      Function.update m.held record.name (some (record.stamped now)) := by
  refine funext fun node => ?_
  by_cases own : node = record.name
  · subst own
    rw [Function.update_self]
    exact Std.ExtTreeMap.getElem?_insert_self
  · have ne : (record.stamped now).name ≠ node := Ne.symm own
    rw [Function.update_of_ne own]
    simp [held, heartbeat, insert, Std.ExtTreeMap.getElem?_insert, ne]

theorem held_shutDown (m : MemoryStore) (node : NodeName) :
    (m.shutDown node).2.held = Function.update m.held node
      ((m.held node).map fun record => { record with hasLeft := true }) := by
  refine funext fun other => ?_
  by_cases own : other = node
  · subst own
    rw [Function.update_self]
    exact Std.ExtTreeMap.getElem?_modify_self
  · rw [Function.update_of_ne own]
    simp [held, shutDown, Std.ExtTreeMap.getElem?_modify, Ne.symm own]

end MemoryStore

theorem StoreCall.Fits.put {d : Disk} {call : StoreCall} (fits : call.Fits d) (place : Place)
    (content : Bytes) : call.Fits (d.put place content) := by
  cases call with
  | heartbeat now record => exact ⟨fits.1.put place content, fits.2⟩
  | shutDown node => exact FileStore.Stores.put fits place content
  | load => trivial

namespace FileStore

variable {s s' : FileStore} {m m' : MemoryStore} {node : NodeName}

/-- A store in files came out of another one and holds what is in memory: its disk takes the names
that it took before. -/
structure Follows (s s' : FileStore) (m' : MemoryStore) : Prop where
  holds : s'.Holds m'.held
  fits : ∀ call : StoreCall, call.Fits s.disk → call.Fits s'.disk

/-- Whatever record is saved, and put into memory. -/
theorem Holds.save_follows (holds : s.Holds m.held) (record : NodeRecord)
    (stores : Stores s.disk record.name) (fit : Fit record.numbers)
    (kept : m'.held = Function.update m.held record.name (some record)) :
    (s.save record).1 = .ok () ∧ s.Follows (s.save record).2 m' := by
  obtain ⟨saved, holds⟩ := holds.save record stores fit
  rw [saved]
  exact ⟨rfl, kept ▸ holds, fun call fits => fits.put _ _⟩

theorem Holds.heartbeat (holds : s.Holds m.held) (now : Nat) {record : NodeRecord}
    (stores : Stores s.disk record.name) (fit : Fit (record.stamped now).numbers) :
    (s.heartbeat now record).1 = (m.heartbeat now record).1 ∧
      s.Follows (s.heartbeat now record).2 (m.heartbeat now record).2 :=
  holds.save_follows (record.stamped now) stores fit (m.held_heartbeat now record)

theorem Holds.shutDown (holds : s.Holds m.held) (stores : Stores s.disk node) :
    (s.shutDown node).1 = (m.shutDown node).1 ∧
      s.Follows (s.shutDown node).2 (m.shutDown node).2 := by
  have kept := m.held_shutDown node
  have located := Disk.locate?_of_plain holds.reaches stores.plain
  have entry : s.disk.entry? (s.directory ++ [recordPath node]) =
      (m.held node).map fun record => .file (NodeRecord.codec.encode record) :=
    (Disk.entry?_below ..).trans (holds.files node)
  unfold FileStore.shutDown
  rw [located, Option.bind_some, entry]
  cases known : m.held node with
  | none =>
    rw [known, Option.map_none, ← known, Function.update_eq_self] at kept
    exact ⟨rfl, kept ▸ holds, fun _ fits => fits⟩
  | some record =>
    obtain ⟨rfl, -, fit⟩ := holds.named node record known
    rw [known] at kept
    simp only [Option.map_some, holds.decode?_of_known known]
    exact holds.save_follows { record with hasLeft := true } stores fit kept

/-- A call finds and leaves the same records in both stores. -/
theorem Holds.call (holds : s.Holds m.held) {call : StoreCall} (fits : call.Fits s.disk) :
    (s.call call).1 = (m.call call).1 ∧ s.Follows (s.call call).2 (m.call call).2 := by
  cases call with
  | heartbeat now record =>
    obtain ⟨same, follows⟩ := holds.heartbeat now fits.1 fits.2
    exact ⟨congrArg StoreReply.done same, follows⟩
  | shutDown node =>
    obtain ⟨same, follows⟩ := holds.shutDown fits
    exact ⟨congrArg StoreReply.done same, follows⟩
  | load =>
    obtain ⟨records, loaded, sorted, among⟩ := holds.load_eq
    obtain ⟨records', loaded', sorted', among'⟩ := MemoryStore.load_eq fun node record known =>
      (holds.named node record known).1
    have same : records = records' := eq_of_sorted sorted sorted' fun record =>
      (among record).trans (among' record).symm
    refine ⟨?_, holds, fun _ fits => fits⟩
    rw [FileStore.call, MemoryStore.call, loaded, loaded', same]

/-- Calls that fit are answered alike, one after the other. -/
theorem Holds.replies (holds : s.Holds m.held) {calls : List StoreCall}
    (fit : ∀ call ∈ calls, call.Fits s.disk) :
    s.replies calls = m.replies calls ∧ (s.after calls).Holds (m.after calls).held := by
  induction calls generalizing s m with
  | nil => exact ⟨rfl, holds⟩
  | cons call calls ih =>
    obtain ⟨same, follows⟩ := holds.call (fit call List.mem_cons_self)
    obtain ⟨rest, kept⟩ := ih follows.holds fun other later =>
      follows.fits other (fit other (List.mem_cons_of_mem _ later))
    exact ⟨congrArg₂ List.cons same rest, kept⟩

end FileStore

/-! ## What several calls leave -/

/-- The record that several calls leave of a node: the one with its last sign of life, stamped then,
and marked if the node went away since. -/
def Remains (calls : List StoreCall) (record : NodeRecord) : Prop :=
  ∃ before now last after, calls = before ++ .heartbeat now last :: after ∧
    (∀ now' other, .heartbeat now' other ∈ after → other.name ≠ last.name) ∧
    record = { last.stamped now with hasLeft := decide (.shutDown last.name ∈ after) }

section Remains

variable {calls : List StoreCall} {call : StoreCall} {record last : NodeRecord} {now : Nat}
  {node : NodeName}

/-- Either the last call is the sign of life, or it is one of those since. -/
theorem remains_concat : Remains (calls ++ [call]) record ↔
    (∃ now last, call = .heartbeat now last ∧ record = last.stamped now) ∨
    ∃ before now last after, calls = before ++ .heartbeat now last :: after ∧
      (∀ now' other, .heartbeat now' other ∈ after ++ [call] → other.name ≠ last.name) ∧
      record = { last.stamped now with
        hasLeft := decide (.shutDown last.name ∈ after ++ [call]) } := by
  constructor
  · rintro ⟨before, now, last, after, split, latest, rfl⟩
    obtain rfl | ⟨after, other, rfl⟩ := after.eq_nil_or_concat
    · obtain ⟨rfl, same⟩ := List.append_inj' split rfl
      refine .inl ⟨now, last, (List.cons.inj same).1, ?_⟩
      simp [NodeRecord.stamped]
    · rw [List.concat_eq_append] at split latest ⊢
      rw [← List.cons_append, ← List.append_assoc] at split
      obtain ⟨rfl, same⟩ := List.append_inj' split rfl
      obtain rfl := (List.cons.inj same).1
      exact .inr ⟨before, now, last, after, rfl, latest, rfl⟩
  · rintro (⟨now, last, rfl, rfl⟩ | ⟨before, now, last, after, rfl, latest, rfl⟩)
    · exact ⟨calls, now, last, [], rfl, nofun, by simp [NodeRecord.stamped]⟩
    · exact ⟨before, now, last, after ++ [call], by simp, latest, rfl⟩

theorem remains_heartbeat : Remains (calls ++ [.heartbeat now last]) record ↔
    record = last.stamped now ∨ record.name ≠ last.name ∧ Remains calls record := by
  rw [remains_concat]
  constructor
  · rintro (⟨now, last, same, rfl⟩ | ⟨before, now', earlier, after, rfl, latest, rfl⟩)
    · cases same
      exact .inl rfl
    · have ne := latest now last (by simp)
      refine .inr ⟨ne.symm, before, now', earlier, after, rfl, fun now'' other there => ?_, ?_⟩
      · exact latest now'' other (List.mem_append_left _ there)
      · simp
  · rintro (rfl | ⟨ne, before, now', earlier, after, rfl, latest, rfl⟩)
    · exact .inl ⟨now, last, rfl, rfl⟩
    · refine .inr ⟨before, now', earlier, after, rfl, fun now'' other there => ?_, by simp⟩
      obtain there | same := List.mem_append.1 there
      · exact latest now'' other there
      · cases List.mem_singleton.1 same
        exact Ne.symm ne

theorem remains_shutDown : Remains (calls ++ [.shutDown node]) record ↔
    ∃ earlier, Remains calls earlier ∧
      record = if earlier.name = node then { earlier with hasLeft := true } else earlier := by
  rw [remains_concat]
  constructor
  · rintro (⟨now, last, same, rfl⟩ | ⟨before, now, last, after, rfl, latest, rfl⟩)
    · cases same
    · refine ⟨{ last.stamped now with hasLeft := decide (.shutDown last.name ∈ after) },
        ⟨before, now, last, after, rfl, fun now' other there => ?_, rfl⟩, ?_⟩
      · exact latest now' other (List.mem_append_left _ there)
      · by_cases own : last.name = node
        · simp [NodeRecord.stamped, own]
        · simp [NodeRecord.stamped, own]
  · rintro ⟨_, ⟨before, now, last, after, rfl, latest, rfl⟩, rfl⟩
    refine .inr ⟨before, now, last, after, rfl, fun now' other there => ?_, ?_⟩
    · exact latest now' other (by simpa using there)
    · by_cases own : last.name = node
      · simp [NodeRecord.stamped, own]
      · simp [NodeRecord.stamped, own]

theorem remains_load : Remains (calls ++ [.load]) record ↔ Remains calls record := by
  rw [remains_concat]
  constructor
  · rintro (⟨now, last, same, rfl⟩ | ⟨before, now, last, after, rfl, latest, rfl⟩)
    · cases same
    · refine ⟨before, now, last, after, rfl, fun now' other there => ?_, by simp⟩
      exact latest now' other (List.mem_append_left _ there)
  · rintro ⟨before, now, last, after, rfl, latest, rfl⟩
    refine .inr ⟨before, now, last, after, rfl, fun now' other there => ?_, by simp⟩
    exact latest now' other (by simpa using there)

end Remains

theorem MemoryStore.after_concat (m : MemoryStore) (calls : List StoreCall) (call : StoreCall) :
    m.after (calls ++ [call]) = ((m.after calls).call call).2 := by
  simp [after]

/-- What is kept, node by node, is what the calls leave. -/
def Keeps (calls : List StoreCall) (held : NodeName → Option NodeRecord) : Prop :=
  ∀ node record, held node = some record ↔ record.name = node ∧ Remains calls record

namespace Keeps

variable {calls : List StoreCall} {held : NodeName → Option NodeRecord}

theorem heartbeat (keeps : Keeps calls held) (now : Nat) (last : NodeRecord) :
    Keeps (calls ++ [.heartbeat now last])
      (Function.update held last.name (some (last.stamped now))) := by
  intro node record
  rw [remains_heartbeat]
  by_cases own : node = last.name
  · subst own
    rw [Function.update_self]
    constructor
    · rintro ⟨⟩
      exact ⟨rfl, .inl rfl⟩
    · rintro ⟨same, rfl | ⟨ne, -⟩⟩
      · rfl
      · exact absurd same ne
  · rw [Function.update_of_ne own, keeps]
    constructor
    · rintro ⟨rfl, remains⟩
      exact ⟨rfl, .inr ⟨own, remains⟩⟩
    · rintro ⟨rfl, rfl | ⟨-, remains⟩⟩
      · exact absurd rfl own
      · exact ⟨rfl, remains⟩

theorem shutDown (keeps : Keeps calls held) (gone : NodeName) :
    Keeps (calls ++ [.shutDown gone]) (Function.update held gone
      ((held gone).map fun record => { record with hasLeft := true })) := by
  intro node record
  rw [remains_shutDown]
  by_cases own : node = gone
  · subst own
    rw [Function.update_self, Option.map_eq_some_iff]
    constructor
    · rintro ⟨earlier, known, rfl⟩
      obtain ⟨named, remains⟩ := (keeps _ _).1 known
      exact ⟨named, earlier, remains, (if_pos named).symm⟩
    · rintro ⟨named, earlier, remains, rfl⟩
      have same : earlier.name = node := by
        split at named
        next own => exact own
        next => exact named
      exact ⟨earlier, (keeps _ _).2 ⟨same, remains⟩, (if_pos same).symm⟩
  · rw [Function.update_of_ne own, keeps]
    constructor
    · rintro ⟨rfl, remains⟩
      exact ⟨rfl, record, remains, (if_neg own).symm⟩
    · rintro ⟨named, earlier, remains, rfl⟩
      split at named
      next same => exact absurd (named.symm.trans same) own
      next ne => exact ⟨by rw [if_neg ne]; exact named, by rwa [if_neg ne]⟩

end Keeps

/-- A store that was empty keeps what the calls leave of each node. -/
theorem MemoryStore.keeps_after (calls : List StoreCall) :
    Keeps calls (empty.after calls).held := by
  induction calls using List.reverseRecOn with
  | nil =>
    intro node record
    constructor
    · intro known
      simp [after, held, empty] at known
    · rintro ⟨-, before, now, last, later, split, -⟩
      simp at split
  | append_singleton calls call keeps =>
    rw [after_concat]
    cases call with
    | heartbeat now last =>
      have kept : ((empty.after calls).call (.heartbeat now last)).2.held =
          Function.update (empty.after calls).held last.name (some (last.stamped now)) :=
        held_heartbeat _ now last
      exact kept ▸ keeps.heartbeat now last
    | shutDown gone =>
      have kept : ((empty.after calls).call (.shutDown gone)).2.held =
          Function.update (empty.after calls).held gone (((empty.after calls).held gone).map
            fun record => { record with hasLeft := true }) := held_shutDown _ gone
      exact kept ▸ keeps.shutDown gone
    | load =>
      intro node record
      rw [remains_load]
      exact keeps node record

/-- A directory that is there, can be walked to and is empty. -/
structure FileStore.Vacant (s : FileStore) : Prop where
  reaches : s.disk.Reaches s.directory
  there : s.disk.isDirectory s.directory = true
  empty : s.fileNames = []

theorem FileStore.Vacant.holds {s : FileStore} (vacant : s.Vacant) :
    s.Holds MemoryStore.empty.held := by
  have nothing (name : String) : s.directory ++ [name] ∉ s.disk.entries := fun there => by
    have listed : name ∈ s.fileNames := Disk.mem_children.2 there
    rw [vacant.empty] at listed
    cases listed
  refine ⟨vacant.reaches, vacant.there, fun node => ?_,
    fun name there => absurd there (nothing name), fun node record known => ?_⟩
  · exact Std.ExtTreeMap.getElem?_eq_none (nothing (FileStore.recordPath node))
  · simp [MemoryStore.held, MemoryStore.empty] at known

/-- From an empty directory and an empty memory on, both stores give the same answers to the same
calls, as long as the names of the nodes can be names of files. What they load then are the records
that the calls leave, one for each node that gave a sign of life, in the order of their names. -/
theorem FileStore.agrees_with_memory {s : FileStore} (vacant : s.Vacant) {calls : List StoreCall}
    (fit : ∀ call ∈ calls, call.Fits s.disk) :
    s.replies calls = MemoryStore.empty.replies calls ∧
    ∃ records, (s.after calls).load = .ok records ∧
      (MemoryStore.empty.after calls).load = .ok records ∧
      records.Pairwise (fun a b => a.name < b.name) ∧
      ∀ record, record ∈ records ↔ Remains calls record := by
  obtain ⟨same, holds⟩ := vacant.holds.replies fit
  obtain ⟨records, loaded, sorted, among⟩ := holds.load_eq
  have fits : StoreCall.load.Fits (s.after calls).disk := trivial
  have again := (holds.call fits).1
  refine ⟨same, records, loaded, ?_, sorted, fun record => ?_⟩
  · exact (StoreReply.nodes.inj again).symm.trans loaded
  · rw [among, MemoryStore.keeps_after]
    exact and_iff_right rfl

/-- Two nodes give signs of life, one of them by a name with dots, and a third goes away that nobody
knows. The first goes away and comes back, the other goes away. -/
def comingAndGoing : List StoreCall :=
  [.heartbeat 1 (.fresh "b" "host" 1 0), .shutDown "c", .heartbeat 2 (.fresh "a.tmp." "host" 2 0),
    .shutDown "b", .load, .heartbeat 3 (.fresh "b" "other" 1 0), .shutDown "a.tmp.", .load]

theorem FileStore.agrees_with_memory_in_comingAndGoing :
    fresh.Vacant ∧ (∀ call ∈ comingAndGoing, call.Fits fresh.disk) ∧
    fresh.replies comingAndGoing = MemoryStore.empty.replies comingAndGoing ∧
    MemoryStore.empty.replies comingAndGoing =
      [.done (.ok ()), .done (.ok ()), .done (.ok ()), .done (.ok ()),
        .nodes (.ok [{ NodeRecord.fresh "a.tmp." "host" 2 2 with hasLeft := false },
          { NodeRecord.fresh "b" "host" 1 1 with hasLeft := true }]),
        .done (.ok ()), .done (.ok ()),
        .nodes (.ok [{ NodeRecord.fresh "a.tmp." "host" 2 2 with hasLeft := true },
          { NodeRecord.fresh "b" "other" 1 3 with hasLeft := false }])] := by
  have vacant : fresh.Vacant := by
    constructor
    · unfold Disk.Reaches
      decide +kernel
    · decide +kernel
    · decide +kernel
  have fit : ∀ call ∈ comingAndGoing, call.Fits fresh.disk := by decide +kernel
  exact ⟨vacant, fit, (agrees_with_memory vacant fit).1, by decide +kernel⟩

end Cohort

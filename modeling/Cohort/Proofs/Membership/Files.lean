import Cohort.Proofs.Mapping.Changes
import Cohort.Proofs.Membership.Names
import Mathlib.Data.List.Nodup

/-!
# Files of a directory

A directory that can be reached is a map from names to contents, as far as plain names go: what is
written there is read back, and nothing else changes. So saving a record puts it in the place of the
file of its node, and leaves nothing of the draft.

## Main definitions

* `Disk.Plain`: a name of a single step.
* `Disk.Reaches`: a place that can be walked to.
* `Disk.put`: a file is there.
* `FileStore.Stores`: names whose records can be in files.
* `FileStore.Holds`: a directory holds the records of some nodes, and nothing else.

## Main statements

* `Disk.locate?_of_plain`: a plain name leads into the directory.
* `FileStore.save_eq`: saving a record puts it into its file.
* `FileStore.Holds.save`, `FileStore.Holds.load_eq`: a directory whose files hold records goes on
  holding them, and loading gives them all.
-/

namespace Cohort

namespace Disk

variable {d d' : Disk} {base place : Place} {name other : String} {content : Bytes}

/-- A name that is a path of a single step, which goes down. -/
structure Plain (d : Disk) (name : String) : Prop where
  named : name ≠ ""
  ne_dot : name ≠ "."
  ne_dots : name ≠ ".."
  whole : '/' ∉ name.toList
  text : '\x00' ∉ name.toList
  short : name.utf8ByteSize ≤ d.longestName
  reachable : name.utf8ByteSize ≤ d.longestPath

/-- A place that can be walked to, step by step through directories. -/
def Reaches (d : Disk) (place : Place) : Prop := place.foldlM d.walk [] = some place

/-- A plain name leads into the directory. -/
theorem locate?_of_plain (reaches : d.Reaches base) (plain : d.Plain name) :
    d.locate? base name = some (base ++ [name]) := by
  have route : route base name = base ++ [name] := by
    rw [Disk.route, startsWith_of_absent plain.whole, steps_of_absent plain.named plain.whole]
    rfl
  have isPath : d.isPath name = true := by
    simp [Disk.isPath, plain.reachable, plain.text]
  have isName : d.isName name = true := by
    simp [Disk.isName, plain.short]
  have wants : wantsDirectory name = false := by
    simp [wantsDirectory, plain.named, endsWith_of_absent plain.whole]
  have reached : base.foldlM d.walk [] = some base := reaches
  have passes : (guard (true = true) : Option Unit) = some () := rfl
  rw [locate?, isPath, passes, route, List.dropLast_concat, reached, List.getLast?_concat, wants]
  dsimp only [Option.bind_eq_bind, Option.bind_some]
  split
  next none_ => cases none_
  next dot => exact absurd (Option.some.inj dot) plain.ne_dot
  next dots => exact absurd (Option.some.inj dots) plain.ne_dots
  next step same =>
    obtain rfl := Option.some.inj same
    rw [if_pos isName]
    rfl

theorem entry?_below (d : Disk) (base : Place) (name : String) :
    d.entry? (base ++ [name]) = d.entries[base ++ [name]]? :=
  if_neg (List.concat_ne_nil name base)

/-- A file is there. -/
def put (d : Disk) (place : Place) (content : Bytes) : Disk :=
  { d with entries := d.entries.insert place (.file content) }

theorem write?_of_plain (reaches : d.Reaches base) (plain : d.Plain name)
    (free : d.isDirectory (base ++ [name]) = false) (content : Bytes) :
    d.write? base name content = some (d.put (base ++ [name]) content) := by
  simp [write?, locate?_of_plain reaches plain, free, put]

theorem read?_of_plain (reaches : d.Reaches base) (plain : d.Plain name)
    (there : d.entries[base ++ [name]]? = some (.file content)) :
    d.read? base name = some content := by
  simp [read?, locate?_of_plain reaches plain, entry?_below, there]

/-- With the same directories and more, steps lead where they led. -/
theorem walk_mono {step : String} {next : Place}
    (more : ∀ other, d.isDirectory other = true → d'.isDirectory other = true)
    (walked : d.walk place step = some next) : d'.walk place step = some next := by
  by_cases dot : step = "."
  · subst dot
    exact walked
  by_cases dots : step = ".."
  · subst dots
    exact walked
  simp only [walk] at walked ⊢
  split at walked
  next there => rwa [if_pos (more _ there)]
  next => cases walked

theorem Reaches.mono (reaches : d.Reaches place)
    (more : ∀ other, d.isDirectory other = true → d'.isDirectory other = true) :
    d'.Reaches place := by
  have walks (start : Place) (steps : List String)
      (walked : steps.foldlM d.walk start = some place) :
      steps.foldlM d'.walk start = some place := by
    induction steps generalizing start with
    | nil => exact walked
    | cons step steps ih =>
      rw [List.foldlM_cons] at walked ⊢
      obtain ⟨next, stepped, rest⟩ := Option.bind_eq_some_iff.1 walked
      rw [walk_mono more stepped]
      exact ih next rest
  exact walks [] place reaches

theorem isDirectory_put (free : d.isDirectory place = false) (content : Bytes) (other : Place) :
    (d.put place content).isDirectory other = d.isDirectory other := by
  by_cases same : other = place
  · subst same
    rw [free]
    by_cases root : other = []
    · simp [isDirectory, entry?, root] at free
    · simp [isDirectory, entry?, root, put]
  · simp [isDirectory, entry?, put, Std.ExtTreeMap.getElem?_insert, Ne.symm same]

theorem isDirectory_of_none (none_ : d.entries[base ++ [name]]? = none) :
    d.isDirectory (base ++ [name]) = false := by
  simp [isDirectory, entry?_below, none_]

/-- A file that was not there before and is taken away again leaves nothing. -/
theorem erase_put (fresh : d.entries[place]? = none) (content : Bytes) :
    { d.put place content with entries := (d.put place content).entries.erase place } = d := by
  have same : (d.entries.insert place (.file content)).erase place = d.entries := by
    refine Std.ExtTreeMap.ext_getElem? fun other => ?_
    rw [Std.ExtTreeMap.getElem?_erase]
    split
    next eq => rw [← Std.compare_eq_iff_eq.1 eq, fresh]
    next ne => rw [Std.ExtTreeMap.getElem?_insert, if_neg ne]
  rw [put, same]

/-- A draft that is moved into another place leaves nothing where it was. -/
theorem rename?_put (reaches : d.Reaches base) (plain : d.Plain name) (plain' : d.Plain other)
    (fresh : d.entries[base ++ [name]]? = none) (free : d.isDirectory (base ++ [other]) = false)
    (content : Bytes) : (d.put (base ++ [name]) content).rename? base name other =
      some (d.put (base ++ [other]) content) := by
  have still : (d.put (base ++ [name]) content).Reaches base :=
    reaches.mono fun place there => by rwa [isDirectory_put (isDirectory_of_none fresh)]
  have plainStill : (d.put (base ++ [name]) content).Plain name :=
    ⟨plain.named, plain.ne_dot, plain.ne_dots, plain.whole, plain.text, plain.short,
      plain.reachable⟩
  have drafted : (d.put (base ++ [name]) content).entries[base ++ [name]]? =
      some (.file content) := Std.ExtTreeMap.getElem?_insert_self
  simp only [rename?, read?_of_plain still plainStill drafted, locate?_of_plain still plainStill,
    Option.bind_eq_bind, Option.bind_some, erase_put fresh]
  exact write?_of_plain reaches plain' free content

/-! ## What is in a directory -/

theorem mem_children : name ∈ d.children place ↔ place ++ [name] ∈ d.entries := by
  rw [children, List.mem_filterMap, ← Std.ExtTreeMap.mem_keys]
  constructor
  · rintro ⟨other, there, last⟩
    split at last
    next same =>
      rw [← same, List.dropLast_append_getLast? name last]
      exact there
    next => cases last
  · exact fun there => ⟨place ++ [name], there, by simp⟩

theorem nodup_children (d : Disk) (place : Place) : (d.children place).Nodup := by
  refine List.Nodup.filterMap (fun other other' name last last' => ?_) d.entries.nodup_keys
  rw [Option.mem_def] at last last'
  split at last
  next same =>
    split at last'
    next same' =>
      rw [← List.dropLast_append_getLast? name last, ← List.dropLast_append_getLast? name last',
        same, same']
    next => cases last'
  next => cases last

end Disk

namespace FileStore

variable {s : FileStore} {record : NodeRecord} {node : NodeName}

/-- Whether a node's record can be in a file on a disk. A single dot is the name of no file, and the
draft of such a node's record would be the directory above. -/
structure Stores (d : Disk) (node : NodeName) : Prop where
  named : node ≠ ""
  ne_dot : node ≠ "."
  whole : '/' ∉ node.toList
  text : '\x00' ∉ node.toList
  short : (recordPath node).utf8ByteSize ≤ d.longestName
  reachable : (recordPath node).utf8ByteSize ≤ d.longestPath

instance (d : Disk) (node : NodeName) : Decidable (Stores d node) :=
  decidable_of_iff (node ≠ "" ∧ node ≠ "." ∧ '/' ∉ node.toList ∧ '\x00' ∉ node.toList ∧
      (recordPath node).utf8ByteSize ≤ d.longestName ∧
      (recordPath node).utf8ByteSize ≤ d.longestPath)
    ⟨fun ⟨named, ne_dot, whole, text, short, reachable⟩ =>
      ⟨named, ne_dot, whole, text, short, reachable⟩,
    fun stores => ⟨stores.named, stores.ne_dot, stores.whole, stores.text, stores.short,
      stores.reachable⟩⟩

namespace Stores

variable {d : Disk}

/-- A file named after a node goes by a plain name, whichever of its extensions it has. -/
theorem plain_append (stores : Stores d node) {extension : String}
    (short : extension.utf8ByteSize ≤ 5) (long : 2 ≤ extension.toList.length)
    (whole : '/' ∉ extension.toList) (text : '\x00' ∉ extension.toList) :
    d.Plain (node ++ extension) := by
  have size : (recordPath node).utf8ByteSize = node.utf8ByteSize + 5 := String.utf8ByteSize_append
  have bytes : (node ++ extension).utf8ByteSize = node.utf8ByteSize + extension.utf8ByteSize :=
    String.utf8ByteSize_append
  have chars : (node ++ extension).toList = node.toList ++ extension.toList := String.toList_append
  have named : 0 < node.toList.length := by
    rw [List.length_pos_iff]
    simpa using stores.named
  -- It has three characters at least, so it is no dots.
  have longer (other : String) (few : other.toList.length ≤ 2) : node ++ extension ≠ other := by
    rintro rfl
    rw [chars, List.length_append] at few
    omega
  have fits := stores.short
  have fits' := stores.reachable
  refine ⟨longer "" (by decide), longer "." (by decide), longer ".." (by decide), ?_, ?_, ?_, ?_⟩
  · rw [chars, List.mem_append]
    exact not_or.2 ⟨stores.whole, whole⟩
  · rw [chars, List.mem_append]
    exact not_or.2 ⟨stores.text, text⟩
  · omega
  · omega

theorem plain (stores : Stores d node) : d.Plain (recordPath node) :=
  stores.plain_append (by decide) (by decide) (by decide) (by decide)

theorem plain_draft (stores : Stores d node) : d.Plain (node ++ ".tmp") :=
  stores.plain_append (by decide) (by decide) (by decide) (by decide)

/-- What is in a file does not matter for what goes into others. -/
theorem put (stores : Stores d node) (place : Place) (content : Bytes) :
    Stores (d.put place content) node :=
  ⟨stores.named, stores.ne_dot, stores.whole, stores.text, stores.short, stores.reachable⟩

end Stores

/-- The place of the file of a node's record. -/
def fileOf (s : FileStore) (node : NodeName) : Place := s.directory ++ [recordPath node]

theorem fileOf_inj {other : NodeName} : s.fileOf node = s.fileOf other ↔ node = other := by
  rw [fileOf, fileOf, List.append_cancel_left_eq, List.singleton_inj, recordPath_inj]

/-- The file of one node is written, and those of the others stay as they are. -/
theorem entries_put (s : FileStore) (node other : NodeName) (content : Bytes) :
    (s.disk.put (s.fileOf node) content).entries[s.fileOf other]? =
      if other = node then some (.file content) else s.disk.entries[s.fileOf other]? := by
  split
  next own =>
    subst own
    exact Std.ExtTreeMap.getElem?_insert_self
  next ne =>
    have apart : ¬ s.fileOf node = s.fileOf other := fun same => ne (fileOf_inj.1 same).symm
    simp only [Disk.put, Std.ExtTreeMap.getElem?_insert, Std.compare_eq_iff_eq]
    exact if_neg apart

/-- Saving a record puts it into the file of its node, whatever was there before. -/
theorem save_eq (reaches : s.disk.Reaches s.directory) (stores : Stores s.disk record.name)
    (fresh : s.disk.entries[s.directory ++ [record.name ++ ".tmp"]]? = none)
    (free : s.disk.isDirectory (s.fileOf record.name) = false) :
    s.save record = (.ok (), { s with
      disk := s.disk.put (s.fileOf record.name) (NodeRecord.codec.encode record) }) := by
  have path : draftPath (recordPath record.name) = record.name ++ ".tmp" :=
    draftPath_recordPath stores.named stores.ne_dot stores.whole
  have drafted := Disk.write?_of_plain reaches stores.plain_draft
    (Disk.isDirectory_of_none fresh) (NodeRecord.codec.encode record)
  have moved := Disk.rename?_put reaches stores.plain_draft stores.plain fresh free
    (NodeRecord.codec.encode record)
  simp only [save, path, drafted, moved, fileOf]

/-- The records of a directory, in the order in which its files are listed. -/
def listed (s : FileStore) : List NodeRecord :=
  (s.fileNames.filter isRecordName).filterMap fun name =>
    (s.contents? name).bind NodeRecord.codec.decode?

/-- Every file of a directory holds the record of the node that it is named after. -/
structure Holds (s : FileStore) (held : NodeName → Option NodeRecord) : Prop where
  reaches : s.disk.Reaches s.directory
  there : s.disk.isDirectory s.directory = true
  files : ∀ node, s.disk.entries[s.fileOf node]? =
    (held node).map fun record => .file (NodeRecord.codec.encode record)
  only : ∀ name, s.directory ++ [name] ∈ s.disk.entries →
    ∃ node record, held node = some record ∧ name = recordPath node
  named : ∀ node record, held node = some record →
    record.name = node ∧ Stores s.disk node ∧ Fit record.numbers

namespace Holds

variable {held : NodeName → Option NodeRecord}

/-- A file that holds a record reads back. -/
theorem decode?_of_known (holds : s.Holds held) (known : held node = some record) :
    NodeRecord.codec.decode? (NodeRecord.codec.encode record) = some record := by
  have back := (NodeRecord.keeps (holds.named node record known).2.2).decode? []
  rwa [List.append_nil] at back

theorem contents (holds : s.Holds held) (known : held node = some record) :
    (s.contents? (recordPath node)).bind NodeRecord.codec.decode? = some record := by
  obtain ⟨-, stores, -⟩ := holds.named node record known
  have file := holds.files node
  rw [known, Option.map_some] at file
  rw [contents?, Disk.read?_of_plain holds.reaches stores.plain file, Option.bind_some,
    holds.decode?_of_known known]

theorem mem_listed (holds : s.Holds held) :
    record ∈ s.listed ↔ held record.name = some record := by
  unfold listed fileNames
  rw [List.mem_filterMap]
  constructor
  · rintro ⟨name, among, read⟩
    obtain ⟨there, -⟩ := List.mem_filter.1 among
    obtain ⟨node, record', known, rfl⟩ := holds.only name (Disk.mem_children.1 there)
    rw [holds.contents known] at read
    obtain rfl := Option.some.inj read
    rwa [(holds.named node record' known).1]
  · intro known
    obtain ⟨-, stores, -⟩ := holds.named _ _ known
    refine ⟨recordPath record.name, List.mem_filter.2 ⟨Disk.mem_children.2 ?_,
      isRecordName_recordPath stores.named⟩, holds.contents known⟩
    have file := holds.files record.name
    rw [known, Option.map_some] at file
    exact Std.ExtTreeMap.mem_iff_isSome_getElem?.2 (Option.isSome_of_eq_some file)

/-- No two records of one node are listed. -/
theorem listed_apart (holds : s.Holds held) :
    s.listed.Pairwise fun record record' => record.name ≠ record'.name := by
  have once : (s.fileNames.filter isRecordName).Nodup :=
    (Disk.nodup_children s.disk s.directory).filter _
  -- A record is read from no file but the one that its node names.
  have whose {name : String} {record : NodeRecord}
      (among : name ∈ s.fileNames.filter isRecordName)
      (read : (s.contents? name).bind NodeRecord.codec.decode? = some record) :
      name = recordPath record.name := by
    obtain ⟨there, -⟩ := List.mem_filter.1 among
    obtain ⟨node, record', known, rfl⟩ := holds.only name (Disk.mem_children.1 there)
    rw [holds.contents known] at read
    obtain rfl := Option.some.inj read
    rw [(holds.named node record' known).1]
  unfold listed
  rw [List.pairwise_filterMap]
  refine once.imp_of_mem fun among among' differ record read record' read' same => differ ?_
  rw [whose among read, whose among' read', same]

/-- The draft of a record is in nobody's way. -/
theorem fresh_draft (holds : s.Holds held) (node : NodeName) :
    s.disk.entries[s.directory ++ [node ++ ".tmp"]]? = none := by
  refine Std.ExtTreeMap.getElem?_eq_none fun there => ?_
  obtain ⟨other, -, -, same⟩ := holds.only _ there
  have chars := congrArg (List.getLast? ∘ String.toList) same
  simp only [Function.comp_apply, toList_recordPath, String.toList_append] at chars
  simp at chars

theorem not_isDirectory (holds : s.Holds held) (node : NodeName) :
    s.disk.isDirectory (s.fileOf node) = false := by
  have file := holds.files node
  unfold fileOf at file ⊢
  rw [Disk.isDirectory, Disk.entry?_below, file]
  cases held node with
  | none => rfl
  | some record => rfl

theorem put (holds : s.Holds held) (record : NodeRecord) (stores : Stores s.disk record.name)
    (fit : Fit record.numbers) :
    Holds { s with disk := s.disk.put (s.fileOf record.name) (NodeRecord.codec.encode record) }
      (Function.update held record.name (some record)) := by
  have same := Disk.isDirectory_put (holds.not_isDirectory record.name)
    (NodeRecord.codec.encode record)
  refine ⟨holds.reaches.mono fun other there => by rwa [same], (same _).trans holds.there,
    fun node => (entries_put ..).trans ?_, fun name there => ?_, fun node record' known => ?_⟩
  · split
    next own => rw [own, Function.update_self, Option.map_some]
    next ne => rw [Function.update_of_ne ne, holds.files]
  · obtain here | there := Std.ExtTreeMap.mem_insert.1 there
    · have here := Std.compare_eq_iff_eq.1 here
      rw [fileOf, List.append_cancel_left_eq, List.singleton_inj] at here
      exact ⟨record.name, record, Function.update_self .., here.symm⟩
    · obtain ⟨node, record', known, rfl⟩ := holds.only name there
      by_cases own : node = record.name
      · exact ⟨record.name, record, Function.update_self .., own ▸ rfl⟩
      · exact ⟨node, record', (Function.update_of_ne own ..).trans known, rfl⟩
  · by_cases own : node = record.name
    · subst own
      rw [Function.update_self] at known
      obtain rfl := Option.some.inj known
      exact ⟨rfl, stores.put _ _, fit⟩
    · rw [Function.update_of_ne own] at known
      obtain ⟨named, stores, fit⟩ := holds.named node record' known
      exact ⟨named, stores.put _ _, fit⟩

/-- A record that is saved is in the file of its node, and the others stay where they are. -/
theorem save (holds : s.Holds held) (record : NodeRecord) (stores : Stores s.disk record.name)
    (fit : Fit record.numbers) :
    s.save record = (.ok (), { s with
      disk := s.disk.put (s.fileOf record.name) (NodeRecord.codec.encode record) }) ∧
    Holds { s with disk := s.disk.put (s.fileOf record.name) (NodeRecord.codec.encode record) }
      (Function.update held record.name (some record)) :=
  ⟨save_eq holds.reaches stores (holds.fresh_draft _) (holds.not_isDirectory _),
    holds.put record stores fit⟩

/-- Loading gives the records in the order of their names. -/
theorem load_eq (holds : s.Holds held) : ∃ records, s.load = .ok records ∧
    records.Pairwise (fun record record' => record.name < record'.name) ∧
    ∀ record, record ∈ records ↔ held record.name = some record := by
  have sorted := List.mergeSort_perm s.listed fun a b => decide (a.name ≤ b.name)
  refine ⟨s.listed.mergeSort fun a b => decide (a.name ≤ b.name), ?_, ?_, fun record => ?_⟩
  · exact if_pos holds.there
  · have ordered : (s.listed.mergeSort fun a b => decide (a.name ≤ b.name)).Pairwise fun a b =>
        decide (a.name ≤ b.name) = true :=
      List.pairwise_mergeSort (fun a b c => by simpa using fun ab bc => ab.trans bc)
        (fun a b => by simpa using le_total a.name b.name) s.listed
    have apart := (sorted.pairwise_iff fun {a b} differ => Ne.symm differ).2 holds.listed_apart
    refine (ordered.and apart).imp fun both => ?_
    exact lt_of_le_of_ne (of_decide_eq_true both.1) both.2
  · rw [sorted.mem_iff, holds.mem_listed]

end Holds

end FileStore

end Cohort

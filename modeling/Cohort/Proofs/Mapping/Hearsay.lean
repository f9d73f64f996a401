import Cohort.Proofs.Mapping.Turns

/-!
# News that a mapping service hears

News are octets that come from another node under a name. They reach a copy only when the name is
that of a mapping configured here and the octets read as a bulk change with a value, or none, for
each key; then the changes are made one after the other, the listeners of the copy are told, and
nothing else happens. How the mapping is shared does not matter to this: news about a mapping with a
single copy are taken as well, so that its entries change behind its master's back, or come to be
where there should be no copy at all.

## Main definitions

* `MappingService.Carries`: news bring changes of a mapping that is configured here.
* `MappingService.taught`: a service whose copy took changes that were made elsewhere.
* `MappingService.KeepsToShared`: news do no more than they may, which is to change a copy that
  every node keeps.

## Main statements

* `MappingService.Carries.cacheData_eq`, `MappingService.cacheData_of_not_carries`: what news do.
* `MappingService.news_keep_to_shared_iff`: when they do no more than they may.
* `MappingService.news_overwrite_single_copy`: a value kept by its master is overwritten.
-/

namespace Cohort

namespace MappingService

variable {s : MappingService} {m m' : Mapping} {cache : String} {data : Bytes}
  {changes changes' : List Change}

/-- News bring changes of a mapping that is configured here: they bear its name, and read as a bulk
change with as many values as keys. -/
structure Carries (s : MappingService) (cache : String) (data : Bytes) (m : Mapping)
    (changes : List Change) : Prop where
  held : s.mappings[m.index]? = some m
  named : cache = m.cacheName
  reads : ∃ index keys values, MappingCall.codec.decode? data = some (.sync index keys values) ∧
    keys.length = values.length ∧ changes = keys.zip values

/-- The service after the copy of a mapping took changes that were made elsewhere: the entries are
what the changes make of them one after the other, and the listeners are told. -/
def taught (s : MappingService) (m : Mapping) (changes : List Change) : MappingService :=
  { s with
    mappings := s.mappings.insert m.index
      { m with entries := changes.foldl Mapping.changed m.entries }
    outbox := s.outbox ++ (m.apply changes).2.map .told }

/-- News do what they may: changes of a mapping that every node keeps are made here, and in all
other cases nothing happens. -/
structure KeepsToShared (s : MappingService) (cache : String) (data : Bytes) : Prop where
  shared : ∀ m changes, s.Carries cache data m changes → m.replication.isReplicated = true →
    (s.cacheData cache data).2 = s.taught m changes
  otherwise : (∀ m changes, s.Carries cache data m changes → m.replication.isReplicated = false) →
    (s.cacheData cache data).2 = s

/-! ## What news carry -/

theorem changesOf?_eq_some_iff : changesOf? data = some changes ↔
    ∃ index keys values, MappingCall.codec.decode? data = some (.sync index keys values) ∧
      keys.length = values.length ∧ changes = keys.zip values := by
  unfold changesOf?
  constructor
  · intro read
    split at read
    next index keys values decoded =>
      split at read
      next even => exact ⟨index, keys, values, decoded, even, (Option.some.inj read).symm⟩
      next => cases read
    next => cases read
  · rintro ⟨index, keys, values, decoded, even, rfl⟩
    simp only [decoded, if_pos even]

theorem carries_iff (indexed : s.Indexed) : s.Carries cache data m changes ↔
    ∃ id, mappingOfCache? cache = some id ∧ (s.index? id >>= s.mapping?) = .ok m ∧
      changesOf? data = some changes := by
  constructor
  · rintro ⟨held, rfl, reads⟩
    exact ⟨m.id, mappingOfCache?_cacheName m, indexed.found_iff.2 ⟨held, rfl⟩,
      changesOf?_eq_some_iff.2 reads⟩
  · rintro ⟨id, about, found, reads⟩
    obtain ⟨held, rfl⟩ := indexed.found_iff.1 found
    exact ⟨held, mappingOfCache?_eq_some_iff.1 about, changesOf?_eq_some_iff.1 reads⟩

/-- News are about one mapping and bring one list of changes. -/
theorem Carries.unique (indexed : s.Indexed) (carries : s.Carries cache data m changes)
    (carries' : s.Carries cache data m' changes') : m' = m ∧ changes' = changes := by
  obtain ⟨id, about, found, reads⟩ := (carries_iff indexed).1 carries
  obtain ⟨id', about', found', reads'⟩ := (carries_iff indexed).1 carries'
  obtain rfl := Option.some.inj (about.symm.trans about')
  exact ⟨Except.ok.inj (found'.symm.trans found), Option.some.inj (reads'.symm.trans reads)⟩

/-! ## What news do -/

/-- Changes that news bring are made here, however the mapping is shared. -/
theorem Carries.cacheData_eq (indexed : s.Indexed) (carries : s.Carries cache data m changes) :
    s.cacheData cache data = (true, s.taught m changes) := by
  obtain ⟨id, about, found, reads⟩ := (carries_iff indexed).1 carries
  simp only [cacheData, about, found, reads, m.apply_fst]
  rfl

/-- News that bring no changes of a mapping here do nothing. -/
theorem cacheData_of_not_carries (indexed : s.Indexed)
    (nothing : ∀ m changes, ¬ s.Carries cache data m changes) : (s.cacheData cache data).2 = s := by
  cases about : mappingOfCache? cache with
  | none => simp only [cacheData, about]
  | some id =>
    cases found : s.index? id >>= s.mapping? with
    | error failure => simp only [cacheData, about, found]
    | ok m =>
      cases reads : changesOf? data with
      | none => simp only [cacheData, about, found, reads]
      | some changes =>
        exact absurd ((carries_iff indexed).2 ⟨id, about, found, reads⟩) (nothing m changes)

/-- Changes leave no trace just if the entries stay what they are and nobody is told. -/
theorem taught_eq_self_iff (held : s.mappings[m.index]? = some m) : s.taught m changes = s ↔
    changes.foldl Mapping.changed m.entries = m.entries ∧ (m.apply changes).2 = [] := by
  constructor
  · intro same
    have copy : some { m with entries := changes.foldl Mapping.changed m.entries } = some m := by
      have := congrArg (fun s => s.mappings[m.index]?) same
      simpa [taught, held] using this
    have outbox : s.outbox ++ (m.apply changes).2.map MappingEffect.told = s.outbox :=
      congrArg outbox same
    exact ⟨congrArg Mapping.entries (Option.some.inj copy), by simpa using outbox⟩
  · rintro ⟨entries, silent⟩
    have mappings : s.mappings.insert m.index m = s.mappings := by
      refine Std.ExtTreeMap.ext_getElem? fun j => ?_
      rw [Std.ExtTreeMap.getElem?_insert]
      split
      next here => rw [← Std.LawfulEqCmp.eq_of_compare here, held]
      next => rfl
    simp only [taught, entries, silent, mappings, List.map_nil, List.append_nil]

/-- News do more than they may just if they bring changes of a mapping with a single copy that are
not idle: they alter the copy, or its listeners are told of them. -/
theorem keepsToShared_iff (indexed : s.Indexed) : s.KeepsToShared cache data ↔
    ∀ m changes, s.Carries cache data m changes → m.replication.isReplicated = false →
      changes.foldl Mapping.changed m.entries = m.entries ∧ (m.apply changes).2 = [] := by
  constructor
  · intro keeps m changes carries single
    have unmoved := keeps.otherwise fun m' changes' carries' => by
      rw [(carries.unique indexed carries').1, single]
    rw [carries.cacheData_eq indexed] at unmoved
    exact (taught_eq_self_iff carries.held).1 unmoved
  · intro idle
    refine ⟨fun m changes carries _ => by rw [carries.cacheData_eq indexed], fun single => ?_⟩
    by_cases carried : ∃ m changes, s.Carries cache data m changes
    · obtain ⟨m, changes, carries⟩ := carried
      rw [carries.cacheData_eq indexed]
      exact (taught_eq_self_iff carries.held).2 (idle m changes carries (single m changes carries))
    · exact cacheData_of_not_carries indexed fun m changes carries => carried ⟨m, changes, carries⟩

/-- News that bring changes of a mapping here make these changes to its copy, tell its listeners and
do nothing else; all other news do nothing. So they do what they may just if what they bring for a
mapping with a single copy leaves the copy as it is and is told to nobody. -/
theorem news_keep_to_shared_iff (indexed : s.Indexed) (cache : String) (data : Bytes) :
    (∀ m changes, s.Carries cache data m changes →
      s.cacheData cache data = (true, s.taught m changes)) ∧
    ((∀ m changes, ¬ s.Carries cache data m changes) → (s.cacheData cache data).2 = s) ∧
    (s.KeepsToShared cache data ↔
      ∀ m changes, s.Carries cache data m changes → m.replication.isReplicated = false →
        changes.foldl Mapping.changed m.entries = m.entries ∧ (m.apply changes).2 = []) :=
  ⟨fun _ _ carries => carries.cacheData_eq indexed, cacheData_of_not_carries indexed,
    keepsToShared_iff indexed⟩

/-- A node with a copy that it shares and one that it masters, each with an entry. A listener
watches the shared one. -/
def mixedCopies : MappingService :=
  let s := ((fresh "a" 1).configure "shared" (.batched 10)).2
  let s := (s.configure "mastered" .single).2
  let s := (s.addListener 1 fun _ => ⟨[], .error .crashed⟩).2
  s.close.after [.govern (.ofList ["a"]), .submit (.put 1 [1] [10]) 1, .submit (.put 2 [1] [10]) 2]

theorem mixedCopies_indexed : mixedCopies.Indexed := by
  have configured : Configured _ := .close (.listener 1 (fun _ => ⟨[], .error .crashed⟩)
    (.configure "mastered" .single (.configure "shared" (.batched 10) (.fresh "a" 1))))
  exact (configured.blank.sound.after _).toIndexed

/-- News that put an entry, put another one and delete the first. -/
def mixedNews : Bytes :=
  MappingCall.codec.encode (.sync 9 [[1], [2], [1]] [some [11], some [20], none])

theorem carries_mixedNews {i : UInt16} {replication : Replication}
    (there : mixedCopies.mappings[i]?.map (fun m => (m.cacheName, m.replication)) =
      some (cache, replication)) :
    ∃ m, m.replication = replication ∧
      mixedCopies.Carries cache mixedNews m [([1], some [11]), ([2], some [20]), ([1], none)] := by
  obtain ⟨m, held, same⟩ := Option.map_eq_some_iff.1 there
  obtain ⟨named, kind⟩ := Prod.mk.inj same
  refine ⟨m, kind, ?_, named.symm, 9, [[1], [2], [1]], [some [11], some [20], none], ?_, rfl, rfl⟩
  · rw [mixedCopies_indexed.placed held, held]
  · decide +kernel

theorem news_keep_to_shared_in_mixedCopies :
    let heard := (mixedCopies.cacheData "mapping/shared" mixedNews).2
    (∃ m changes, mixedCopies.Carries "mapping/shared" mixedNews m changes ∧
        mixedCopies.cacheData "mapping/shared" mixedNews = (true, mixedCopies.taught m changes)) ∧
      (mixedCopies.stock 1).toList = [([1], [10])] ∧ (heard.stock 1).toList = [([2], [20])] ∧
      mixedCopies.owed 1 = [([1], some [10])] ∧ heard.owed 1 = [([1], some [10])] ∧
      mixedCopies.KeepsToShared "mapping/shared" mixedNews := by
  intro heard
  have values :
      mixedCopies.mappings[(1 : UInt16)]?.map (fun m => (m.cacheName, m.replication)) =
        some ("mapping/shared", .batched 10) ∧
      (mixedCopies.stock 1).toList = [([1], [10])] ∧ (heard.stock 1).toList = [([2], [20])] ∧
      mixedCopies.owed 1 = [([1], some [10])] ∧ heard.owed 1 = [([1], some [10])] := by
    decide +kernel
  obtain ⟨there, before, after, owed, owed'⟩ := values
  obtain ⟨m, kind, carries⟩ := carries_mixedNews there
  obtain ⟨taken, -, keeps⟩ :=
    news_keep_to_shared_iff mixedCopies_indexed "mapping/shared" mixedNews
  refine ⟨⟨m, _, carries, taken _ _ carries⟩, before, after, owed, owed',
    keeps.2 fun m' changes' carries' single => ?_⟩
  rw [(carries.unique mixedCopies_indexed carries').1, kind] at single
  cases single

/-- The master of a mapping takes news about it from another node: the value that it keeps is
overwritten. -/
theorem news_overwrite_single_copy :
    mixedCopies.replication? 2 = .ok .single ∧ mixedCopies.masterOf 2 = some "a" ∧
      (mixedCopies.stock 2).toList = [([1], [10])] ∧
      ((mixedCopies.cacheData "mapping/mastered" mixedNews).2.stock 2).toList = [([2], [20])] ∧
      ¬ mixedCopies.KeepsToShared "mapping/mastered" mixedNews := by
  have values :
      mixedCopies.mappings[(2 : UInt16)]?.map (fun m => (m.cacheName, m.replication)) =
        some ("mapping/mastered", .single) ∧
      mixedCopies.replication? 2 = .ok .single ∧ mixedCopies.masterOf 2 = some "a" ∧
      (mixedCopies.stock 2).toList = [([1], [10])] ∧
      ((mixedCopies.cacheData "mapping/mastered" mixedNews).2.stock 2).toList =
        [([2], [20])] := by
    decide +kernel
  obtain ⟨there, policy, mastered, before, after⟩ := values
  obtain ⟨m, kind, carries⟩ := carries_mixedNews there
  refine ⟨policy, mastered, before, after, fun keeps => ?_⟩
  have unmoved := keeps.otherwise fun m' changes' carries' => by
    rw [(carries.unique mixedCopies_indexed carries').1, kind]
    rfl
  rw [unmoved, before] at after
  exact absurd after (by decide)

end MappingService

end Cohort

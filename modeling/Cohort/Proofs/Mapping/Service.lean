import Cohort.Proofs.Mapping.Changes

/-!
# Mapping services in order

The mappings of a service are numbered as they are configured, and found by their ids. This is so
from the configuration on, whatever happens to the service later; it is stated here together with
what holds of a service that was only configured.

## Main definitions

* `MappingService.stock`, `MappingService.owed`, `MappingService.parkedAt`: one mapping of a
  service: what is kept here, what the others were not told yet, and what waits for a new master.
* `MappingService.Configured`: nothing happened to the service but its configuration.
* `MappingService.Sound`: the mappings and the pending calls are in order.

## Main statements

* `MappingService.Configured.blank`, `MappingService.Blank.sound`.
* `MappingService.Indexed.values_split`: a mapping has one place among all of them.
-/

namespace Cohort

namespace Mapping

/-- What a mapping was configured as. -/
def label (m : Mapping) : UInt16 × String × Replication := (m.index, m.id, m.replication)

theorem id_of_label {m m' : Mapping} (label : m'.label = m.label) : m'.id = m.id :=
  congrArg (fun label => label.2.1) label

theorem replication_of_label {m m' : Mapping} (label : m'.label = m.label) :
    m'.replication = m.replication :=
  congrArg (fun label => label.2.2) label

/-- Changes are kept for later only where they are told in batches. -/
def Tidy (m : Mapping) : Prop :=
  (∀ interval, m.replication ≠ .batched interval) → m.dirty = ∅

end Mapping

/-- The entries of a mapping that wait with a call until a new master has them. -/
def PendingCall.parks (i : UInt16) (pending : PendingCall) : Option Entries :=
  match pending.waiter with
  | .handOff index entries => if index = i then some entries else none
  | .reply _ => none

namespace MappingService

variable {s s' : MappingService} {m m' : Mapping} {i : UInt16}

/-! ## One mapping of the service -/

/-- The entries of a mapping that are kept here. -/
def stock (s : MappingService) (i : UInt16) : Entries :=
  match s.mappings[i]? with
  | some m => m.entries
  | none => ∅

/-- The changes of a mapping that the other nodes were not told yet. -/
def owed (s : MappingService) (i : UInt16) : List Change :=
  match s.mappings[i]? with
  | some m => m.dirty.toList
  | none => []

/-- The entries of a mapping that a pending hand-off holds. -/
def parkedAt (s : MappingService) (i : UInt16) (requestId : Nat) : Option Entries :=
  s.pending[requestId]?.bind (PendingCall.parks i)

theorem stock_of_held (held : s.mappings[i]? = some m) : s.stock i = m.entries := by
  rw [stock, held]

theorem owed_of_held (held : s.mappings[i]? = some m) : s.owed i = m.dirty.toList := by
  rw [owed, held]

/-! ## Services in order -/

/-- Nothing but configuration happened to the service. -/
inductive Configured : MappingService → Prop where
  | fresh (node : NodeName) (ministerCount : Nat) : Configured (fresh node ministerCount)
  | configure {s : MappingService} (id : String) (replication : Replication) :
    Configured s → Configured (s.configure id replication).2
  | valueAction {s : MappingService} (id name : String) (action : ValueAction) :
    Configured s → Configured (s.registerValueAction id name action).2
  | mapAction {s : MappingService} (id name : String) (action : MapAction) :
    Configured s → Configured (s.registerMapAction id name action).2
  | listener {s : MappingService} (i : UInt16) (listener : Listener) :
    Configured s → Configured (s.addListener i listener).2
  | close {s : MappingService} : Configured s → Configured s.close

/-- The numbers of pending calls were given already. -/
def Numbered (s : MappingService) : Prop :=
  ∀ (n : Nat) (pending : PendingCall), s.pending[n]? = some pending → n ≤ s.lastRequest

/-- Every mapping is in its place and known by its id. -/
structure Indexed (s : MappingService) : Prop where
  placed : ∀ {i : UInt16} {m : Mapping}, s.mappings[i]? = some m → m.index = i
  named : ∀ {i : UInt16} {m : Mapping}, s.mappings[i]? = some m → s.indexOf[m.id]? = some i
  listed : ∀ {id : String} {i : UInt16}, s.indexOf[id]? = some i →
    ∃ m : Mapping, s.mappings[i]? = some m ∧ m.id = id

/-- The mappings are in order, calls are numbered, and what is kept with a mapping or parked suits
its replication. -/
structure Sound (s : MappingService) : Prop extends Indexed s where
  tidy : ∀ {i : UInt16} {m : Mapping}, s.mappings[i]? = some m → m.Tidy
  numbered : s.Numbered
  parked : ∀ {n : Nat} {i : UInt16} {entries : Entries}, s.parkedAt i n = some entries →
    ∃ m : Mapping, s.mappings[i]? = some m ∧ m.replication.isReplicated = false

/-- The mappings are in order, nothing is kept in them and nothing waited for. -/
structure Blank (s : MappingService) : Prop extends Indexed s where
  empty : ∀ {i : UInt16} {m : Mapping}, s.mappings[i]? = some m →
    m.entries = ∅ ∧ m.dirty = ∅ ∧ m.lastFlush = none
  dense : ∀ {i : UInt16}, i ∈ s.mappings → i.toNat ≤ s.mappings.size
  pending : s.pending = ∅
  outbox : s.outbox = []

theorem mem_mappings_of_held (held : s.mappings[i]? = some m) : i ∈ s.mappings := by
  rw [Std.ExtTreeMap.mem_iff_isSome_getElem?, held]
  rfl

/-- A mapping is found under its id, and no other one is. -/
theorem Indexed.found_iff (indexed : s.Indexed) {id : String} :
    (s.index? id >>= s.mapping?) = .ok m ↔ s.mappings[m.index]? = some m ∧ m.id = id := by
  constructor
  · intro found
    cases known : s.indexOf[id]? with
    | none => simp [index?, known, bind, Except.bind] at found
    | some i =>
      obtain ⟨m', held, named⟩ := indexed.listed known
      obtain rfl : m' = m := by simpa [index?, known, mapping?, held, bind, Except.bind] using found
      exact ⟨by rw [indexed.placed held, held], named⟩
  · rintro ⟨held, rfl⟩
    simp [index?, indexed.named held, mapping?, held, bind, Except.bind]

/-- Mappings stay in order as long as they stay what they were configured as. -/
theorem Indexed.of_label (indexed : s.Indexed) (indexOf : s'.indexOf = s.indexOf)
    (label : ∀ j : UInt16, s'.mappings[j]?.map Mapping.label = s.mappings[j]?.map Mapping.label) :
    s'.Indexed := by
  have before : ∀ {j : UInt16} {n : Mapping}, s'.mappings[j]? = some n →
      ∃ m : Mapping, s.mappings[j]? = some m ∧ m.index = n.index ∧ m.id = n.id := by
    intro j n held
    have same := label j
    rw [held, Option.map_some, eq_comm, Option.map_eq_some_iff] at same
    obtain ⟨m, held', eq⟩ := same
    simp only [Mapping.label, Prod.mk.injEq] at eq
    exact ⟨m, held', eq.1, eq.2.1⟩
  refine { placed := fun held => ?_, named := fun held => ?_, listed := @fun id i known => ?_ }
  · obtain ⟨m, held', index, -⟩ := before held
    exact index ▸ indexed.placed held'
  · obtain ⟨m, held', -, id⟩ := before held
    rw [indexOf, ← id]
    exact indexed.named held'
  · rw [indexOf] at known
    obtain ⟨m, held, id⟩ := indexed.listed known
    have same := label i
    rw [held, Option.map_some, Option.map_eq_some_iff] at same
    obtain ⟨n, held', eq⟩ := same
    simp only [Mapping.label, Prod.mk.injEq] at eq
    exact ⟨n, held', eq.2.1.trans id⟩

theorem getElem?_store (s : MappingService) (m : Mapping) (j : UInt16) :
    (s.store m).mappings[j]? = if m.index = j then some m else s.mappings[j]? := by
  simp only [store, Std.ExtTreeMap.getElem?_insert, Std.compare_eq_iff_eq]

/-- A mapping put in the place of one configured alike. -/
theorem label_store (held : s.mappings[i]? = some m) (index : m.index = i)
    (label : m'.label = m.label) (j : UInt16) :
    (s.store m').mappings[j]?.map Mapping.label = s.mappings[j]?.map Mapping.label := by
  have place : m'.index = i := (congrArg Prod.fst label).trans index
  rw [getElem?_store, place]
  split
  next eq => rw [← eq, held, Option.map_some, Option.map_some, label]
  next => rfl

theorem Blank.store (blank : s.Blank) (held : s.mappings[i]? = some m) (label : m'.label = m.label)
    (empty : m'.entries = ∅ ∧ m'.dirty = ∅ ∧ m'.lastFlush = none) : (s.store m').Blank := by
  have place : m'.index = i := (congrArg Prod.fst label).trans (blank.placed held)
  have there := mem_mappings_of_held held
  have size : (s.store m').mappings.size = s.mappings.size := by
    simp [MappingService.store, Std.ExtTreeMap.size_insert, place, there]
  refine
    { toIndexed := blank.toIndexed.of_label rfl (label_store held (blank.placed held) label)
      empty := fun found => ?_
      dense := fun found => ?_
      pending := blank.pending
      outbox := blank.outbox }
  · rw [getElem?_store] at found
    split at found
    next => exact Option.some.inj found ▸ empty
    next => exact blank.empty found
  · rw [size]
    obtain eq | found := Std.ExtTreeMap.mem_insert.1 found
    · rw [← Std.compare_eq_iff_eq.1 eq, place]
      exact blank.dense there
    · exact blank.dense found

theorem Blank.configure (blank : s.Blank) (id : String) (replication : Replication) :
    (s.configure id replication).2.Blank := by
  unfold MappingService.configure
  split
  · exact blank
  split
  · exact blank
  next unknown =>
  split
  next room =>
    set index := UInt16.ofNat (s.mappings.size + 1) with defined
    let m := Mapping.fresh id index replication
    have number : index.toNat = s.mappings.size + 1 := UInt16.toNat_ofNat_of_lt' room
    -- the indices given before are lower
    have vacant : index ∉ s.mappings := fun taken => by
      have := blank.dense taken
      omega
    have unheld : s.mappings[index]? = none := Std.ExtTreeMap.getElem?_eq_none vacant
    have cases : ∀ {j : UInt16} {n : Mapping}, (s.store m).mappings[j]? = some n →
        (index = j ∧ n = m) ∨ s.mappings[j]? = some n := by
      intro j n found
      rw [getElem?_store] at found
      split at found
      next eq => exact .inl ⟨eq, (Option.some.inj found).symm⟩
      next => exact .inr found
    refine
      { placed := fun found => ?_
        named := fun found => ?_
        listed := fun known => ?_
        empty := fun found => ?_
        dense := fun found => ?_
        pending := blank.pending
        outbox := blank.outbox }
    · obtain ⟨rfl, rfl⟩ | found := cases found
      · rfl
      · exact blank.placed found
    · show (s.indexOf.insert id index)[_]? = _
      rw [Std.ExtTreeMap.getElem?_insert]
      obtain ⟨rfl, rfl⟩ | found := cases found
      · simp [m, Mapping.fresh]
      · have known := blank.named found
        rw [if_neg, known]
        rintro eq
        rw [Std.compare_eq_iff_eq.1 eq, Std.ExtTreeMap.mem_iff_isSome_getElem?, known] at unknown
        exact unknown rfl
    · replace known : (s.indexOf.insert id index)[_]? = _ := known
      rw [Std.ExtTreeMap.getElem?_insert] at known
      split at known
      next eq =>
        obtain rfl := Option.some.inj known
        exact ⟨m, (getElem?_store s m index).trans (if_pos rfl), Std.compare_eq_iff_eq.1 eq⟩
      next =>
        obtain ⟨n, held, name⟩ := blank.listed known
        refine ⟨n, (getElem?_store s m _).trans ((if_neg ?_).trans held), name⟩
        rintro rfl
        exact vacant (mem_mappings_of_held held)
    · obtain ⟨rfl, rfl⟩ | found := cases found
      · exact ⟨rfl, rfl, rfl⟩
      · exact blank.empty found
    · have size : (s.store m).mappings.size = s.mappings.size + 1 := by
        exact (Std.ExtTreeMap.size_insert).trans (if_neg vacant)
      show _ ≤ (s.store m).mappings.size
      rw [size]
      obtain eq | found := Std.ExtTreeMap.mem_insert.1 found
      · exact (Std.compare_eq_iff_eq.1 eq) ▸ Nat.le_of_eq number
      · exact Nat.le_succ_of_le (blank.dense found)
  next => exact blank

theorem Blank.register (blank : s.Blank) (id : String) {f : Mapping → Mapping}
    (same : ∀ m, (f m).label = m.label ∧ (f m).entries = m.entries ∧ (f m).dirty = m.dirty ∧
      (f m).lastFlush = m.lastFlush) : (s.register id f).2.Blank := by
  unfold MappingService.register
  split
  · exact blank
  cases found : s.index? id >>= s.mapping? with
  | error failure => exact blank
  | ok m =>
    obtain ⟨held, -⟩ := blank.found_iff.1 found
    obtain ⟨label, entries, dirty, lastFlush⟩ := same m
    refine blank.store held label ?_
    rw [entries, dirty, lastFlush]
    exact blank.empty held

theorem Configured.blank (configured : s.Configured) : s.Blank := by
  induction configured with
  | fresh node ministerCount =>
    exact
      { placed := fun held => by simp [MappingService.fresh] at held
        named := fun held => by simp [MappingService.fresh] at held
        listed := fun known => by simp [MappingService.fresh] at known
        empty := fun held => by simp [MappingService.fresh] at held
        dense := fun held => by simp [MappingService.fresh] at held
        pending := rfl
        outbox := rfl }
  | configure id replication _ blank => exact blank.configure id replication
  | valueAction id name action _ blank => exact blank.register id fun _ => ⟨rfl, rfl, rfl, rfl⟩
  | mapAction id name action _ blank => exact blank.register id fun _ => ⟨rfl, rfl, rfl, rfl⟩
  | @listener s i listener _ blank =>
    unfold addListener mapping?
    cases held : s.mappings[i]? with
    | none => exact blank
    | some m =>
      have empty := blank.empty held
      exact blank.store held rfl empty
  | close _ blank => exact
    { toIndexed := blank.toIndexed.of_label rfl fun _ => rfl
      empty := blank.empty
      dense := blank.dense
      pending := blank.pending
      outbox := blank.outbox }

theorem Blank.parkedAt_eq_none (blank : s.Blank) (i : UInt16) (n : Nat) :
    s.parkedAt i n = none := by
  simp [parkedAt, blank.pending]

theorem Blank.sound (blank : s.Blank) : s.Sound where
  toIndexed := blank.toIndexed
  tidy held := fun _ => (blank.empty held).2.1
  numbered := by simp [Numbered, blank.pending]
  parked found := by simp [blank.parkedAt_eq_none] at found

/-! ## All mappings of a service -/

theorem Indexed.held_of_mem_toList (indexed : s.Indexed) {entry : UInt16 × Mapping}
    (there : entry ∈ s.mappings.toList) :
    entry.2.index = entry.1 ∧ s.mappings[entry.1]? = some entry.2 := by
  have held := Std.ExtTreeMap.mem_toList_iff_getElem?_eq_some.1 there
  exact ⟨indexed.placed held, held⟩

theorem Indexed.held_of_mem_values (indexed : s.Indexed) (there : m ∈ s.mappings.values) :
    s.mappings[m.index]? = some m := by
  rw [values_eq_map_toList] at there
  obtain ⟨entry, listed, rfl⟩ := List.mem_map.1 there
  obtain ⟨index, held⟩ := indexed.held_of_mem_toList listed
  rw [index, held]

/-- An id stands for one mapping only. -/
theorem Indexed.index_eq_of_id_eq (indexed : s.Indexed) {j : UInt16}
    (held : s.mappings[i]? = some m) (held' : s.mappings[j]? = some m') (eq : m'.id = m.id) :
    j = i := by
  have known := indexed.named held'
  rw [eq, indexed.named held] at known
  exact (Option.some.inj known).symm

/-- A mapping that is kept here has one place among all of them. -/
theorem Indexed.values_split (indexed : s.Indexed) (held : s.mappings[i]? = some m) :
    ∃ before after, s.mappings.values = before ++ m :: after ∧
      ∀ m' ∈ before ++ after, m'.index ≠ i := by
  have member : (i, m) ∈ s.mappings.toList :=
    Std.ExtTreeMap.mem_toList_iff_getElem?_eq_some.2 held
  obtain ⟨before, after, split⟩ := List.append_of_mem member
  have apart : s.mappings.toList.Pairwise fun a b => ¬ compare a.1 b.1 = .eq :=
    Std.ExtTreeMap.distinct_keys_toList
  rw [split, List.pairwise_append, List.pairwise_cons] at apart
  obtain ⟨-, ⟨later, -⟩, earlier⟩ := apart
  refine ⟨before.map Prod.snd, after.map Prod.snd, by simp [values_eq_map_toList, split], ?_⟩
  rw [← List.map_append]
  intro m' there
  obtain ⟨entry, beside, rfl⟩ := List.mem_map.1 there
  have among : entry ∈ s.mappings.toList := by
    rw [split]
    obtain first | last := List.mem_append.1 beside
    · exact List.mem_append_left _ first
    · exact List.mem_append_right _ (List.mem_cons_of_mem _ last)
  rw [(indexed.held_of_mem_toList among).1]
  obtain first | last := List.mem_append.1 beside
  · exact fun eq => earlier _ first _ List.mem_cons_self (Std.compare_eq_iff_eq.2 eq)
  · exact fun eq => later _ last (Std.compare_eq_iff_eq.2 eq.symm)

theorem Indexed.index_ne_of_unheld (indexed : s.Indexed) (unheld : s.mappings[i]? = none) :
    ∀ m ∈ s.mappings.values, m.index ≠ i := by
  rintro m there rfl
  rw [indexed.held_of_mem_values there] at unheld
  cases unheld

end MappingService

end Cohort

import Cohort.Proofs.Mapping.Service

/-!
# The numbering of mappings

Nodes name mappings to each other by number, and no node ever tells another which number stands for
which id: each numbers the mappings as its own application configures them. So the numbers must
come out the same everywhere, whatever goes wrong in between.

The ids that a service took are a roll, to which `MappingService.enrol` adds while the configuration
is open. A service numbers its roll from one on without a gap, and the roll depends on the ids that
it was asked for and on nothing else.

## Main definitions

* `ConfigCall`: what an application asks of a service before the node starts.
* `MappingService.configuredBy`, `MappingService.granted`: what becomes of a service, and which
  numbers it gave.
* `MappingService.Enrolled`: the service numbers a roll.

## Main statements

* `MappingService.Enrolled.perform`: what one call makes of the roll.
* `MappingService.enrolled_configuredBy`: what all calls make of it.
* `MappingService.indices_are_dense_and_agreed`: the numbers are dense and the same everywhere.
-/

namespace Cohort

/-- What an application asks of a service before the node starts. -/
inductive ConfigCall where
  /-- Add a mapping. -/
  | configure (id : String) (replication : Replication)
  /-- Register a named action on single values of a mapping. -/
  | valueAction (id name : String) (action : ValueAction)
  /-- Register a named action on a whole mapping. -/
  | mapAction (id name : String) (action : MapAction)
  /-- Close the configuration. -/
  | close

namespace ConfigCall

/-- Whether it closes the configuration. -/
def isClose : ConfigCall → Bool
  | close => true
  | _ => false

/-- The mapping that it asks for, if it asks for one. -/
def asked? : ConfigCall → Option (String × Replication)
  | configure id replication => some (id, replication)
  | _ => none

theorem asked?_of_isClose {call : ConfigCall} (closes : call.isClose = true) :
    call.asked? = none := by
  cases call with
  | close => rfl
  | _ => cases closes

/-- The mappings that are asked for, in order. -/
def asked (calls : List ConfigCall) : List (String × Replication) := calls.filterMap asked?

/-- The mappings that are asked for before the configuration is closed. -/
def askedInTime (calls : List ConfigCall) : List (String × Replication) :=
  asked (calls.takeWhile fun call => !call.isClose)

theorem askedInTime_beginning (calls : List ConfigCall) : askedInTime calls <+: asked calls :=
  (List.takeWhile_prefix _).filterMap _

end ConfigCall

namespace MappingService

variable {s t : MappingService} {m : Mapping} {i : UInt16} {call : ConfigCall}
  {roll : List (String × Replication)}

/-! ## Configuring a service -/

/-- What a call is answered, with the number that was given if one was, and what becomes of the
service. -/
def perform (s : MappingService) : ConfigCall → Outcome (Option UInt16) × MappingService
  | .configure id replication =>
    ((s.configure id replication).1.map some, (s.configure id replication).2)
  | .valueAction id name action =>
    ((s.registerValueAction id name action).1.map fun _ => none,
      (s.registerValueAction id name action).2)
  | .mapAction id name action =>
    ((s.registerMapAction id name action).1.map fun _ => none,
      (s.registerMapAction id name action).2)
  | .close => (.ok none, s.close)

/-- What becomes of a service. -/
def configuredBy (s : MappingService) (calls : List ConfigCall) : MappingService :=
  calls.foldl (fun s call => (s.perform call).2) s

/-- The number that a call is given, and for what. -/
def grant? (s : MappingService) (call : ConfigCall) : Option (UInt16 × String × Replication) :=
  match call.asked?, (s.perform call).1 with
  | some entry, .ok (some index) => some (index, entry)
  | _, _ => none

/-- The numbers that successful calls are given, in order, and for what. -/
def granted (s : MappingService) : List ConfigCall → List (UInt16 × String × Replication)
  | [] => []
  | call :: calls => (s.grant? call).toList ++ granted (s.perform call).2 calls

theorem configuredBy_append (s : MappingService) (calls more : List ConfigCall) :
    s.configuredBy (calls ++ more) = (s.configuredBy calls).configuredBy more :=
  List.foldl_append

/-- A call that fails changes nothing. -/
theorem perform_of_error {failure : Failure} (failed : (s.perform call).1 = .error failure) :
    (s.perform call).2 = s := by
  have registered (id : String) (f : Mapping → Mapping)
      (failed : (s.register id f).1.map (fun _ => (none : Option UInt16)) = .error failure) :
      (s.register id f).2 = s := by
    unfold register at failed ⊢
    split
    · rfl
    next unsealed =>
      rw [if_neg unsealed] at failed
      split
      next found => rw [found] at failed; cases failed
      next => rfl
  cases call with
  | configure id replication =>
    simp only [perform, configure] at failed ⊢
    split
    · rfl
    split
    · rfl
    split
    next unsealed unknown room =>
      rw [if_neg unsealed, if_neg unknown, if_pos room] at failed
      cases failed
    next => rfl
  | valueAction id name action => exact registered id _ failed
  | mapAction id name action => exact registered id _ failed
  | close => cases failed

/-- Once the configuration is closed nothing is configured any more. -/
theorem perform_of_sealed (closed : s.isSealed = true) (other : call.isClose = false) :
    s.perform call = (.error .configurationClosed, s) := by
  cases call with
  | configure id replication => simp [perform, configure, closed, Except.map]
  | valueAction id name action =>
    simp [perform, registerValueAction, register, closed, Except.map]
  | mapAction id name action => simp [perform, registerMapAction, register, closed, Except.map]
  | close => cases other

theorem perform_snd_of_sealed (closed : s.isSealed = true) (call : ConfigCall) :
    (s.perform call).2 = s := by
  cases other : call.isClose with
  | false => rw [perform_of_sealed closed other]
  | true =>
    cases call with
    | close =>
      show { s with isSealed := true } = s
      rw [← closed]
    | _ => cases other

theorem configuredBy_of_sealed (closed : s.isSealed = true) (calls : List ConfigCall) :
    s.configuredBy calls = s := by
  induction calls with
  | nil => rfl
  | cons call calls ih =>
    show (s.perform call).2.configuredBy calls = s
    rw [perform_snd_of_sealed closed, ih]

theorem granted_of_sealed (closed : s.isSealed = true) (calls : List ConfigCall) :
    s.granted calls = [] := by
  induction calls with
  | nil => rfl
  | cons call calls ih =>
    have none_ : s.grant? call = none := by
      cases call with
      | configure id replication => rw [grant?, perform_of_sealed closed rfl]; rfl
      | _ => rfl
    rw [granted, none_, perform_snd_of_sealed closed, ih]
    rfl

/-- Only closing the configuration closes it. -/
theorem isSealed_perform_of_open (unsealed : s.isSealed = false) (call : ConfigCall) :
    (s.perform call).2.isSealed = call.isClose := by
  have registered (id : String) (f : Mapping → Mapping) :
      (s.register id f).2.isSealed = false := by
    unfold register
    split
    · exact unsealed
    split <;> exact unsealed
  cases call with
  | configure id replication =>
    show (s.configure id replication).2.isSealed = false
    unfold configure
    split
    · exact unsealed
    split
    · exact unsealed
    split <;> exact unsealed
  | valueAction id name action => exact registered id _
  | mapAction id name action => exact registered id _
  | close => rfl

/-! ## Rolls -/

/-- A roll to which something is to be added: an id is taken once, and as long as there are
numbers. -/
def enrol (roll : List (String × Replication)) (entry : String × Replication) :
    List (String × Replication) :=
  if entry.1 ∈ roll.map Prod.fst ∨ UInt16.size ≤ roll.length + 1 then roll else roll ++ [entry]

/-- A roll with its numbers, from one on. -/
def numbered (roll : List (String × Replication)) : List (UInt16 × String × Replication) :=
  roll.mapIdx fun k entry => (UInt16.ofNat (k + 1), entry)

theorem prefix_enrol (roll : List (String × Replication)) (entry : String × Replication) :
    roll <+: enrol roll entry := by
  unfold enrol
  split
  · exact List.prefix_rfl
  · exact List.prefix_append ..

/-- What is asked for later comes later on the roll. -/
theorem prefix_foldl_enrol {asked more : List (String × Replication)} (first : asked <+: more)
    (roll : List (String × Replication)) : asked.foldl enrol roll <+: more.foldl enrol roll := by
  obtain ⟨rest, rfl⟩ := first
  rw [List.foldl_append]
  generalize asked.foldl enrol roll = roll
  induction rest generalizing roll with
  | nil => exact List.prefix_rfl
  | cons entry rest ih => exact (prefix_enrol roll entry).trans (ih _)

theorem numbered_concat (roll : List (String × Replication)) (entry : String × Replication) :
    numbered (roll ++ [entry]) = numbered roll ++ [(UInt16.ofNat (roll.length + 1), entry)] := by
  simp [numbered, List.mapIdx_append]

@[simp] theorem length_numbered (roll : List (String × Replication)) :
    (numbered roll).length = roll.length := List.length_mapIdx

/-- The numbers of a roll, as long as there are enough of them, are those from one on. -/
theorem numbers_numbered (fits : roll.length < UInt16.size) :
    (numbered roll).map (fun label => label.1.toNat) = List.range' 1 roll.length := by
  refine List.ext_getElem (by simp) fun k there _ => ?_
  rw [List.length_map, length_numbered] at there
  have number : (UInt16.ofNat (k + 1)).toNat = k + 1 := UInt16.toNat_ofNat_of_lt' (by omega)
  simp only [List.getElem_map, List.getElem_range', numbered, List.getElem_mapIdx, number]
  omega

/-- The place of a number on its roll. -/
theorem mem_numbered_iff (fits : roll.length < UInt16.size)
    {label : UInt16 × String × Replication} :
    label ∈ numbered roll ↔ 1 ≤ label.1.toNat ∧ roll[label.1.toNat - 1]? = some label.2 := by
  constructor
  · intro there
    obtain ⟨k, inside, rfl⟩ := List.mem_mapIdx.1 there
    have number : (UInt16.ofNat (k + 1)).toNat = k + 1 := UInt16.toNat_ofNat_of_lt' (by omega)
    simp only [number]
    exact ⟨by omega, List.getElem?_eq_getElem inside⟩
  · rintro ⟨positive, there⟩
    obtain ⟨inside, same⟩ := List.getElem?_eq_some_iff.1 there
    refine List.mem_mapIdx.2 ⟨_, inside, Prod.ext ?_ same⟩
    rw [Nat.sub_add_cancel positive]
    exact UInt16.ofNat_toNat

/-- The service numbers a roll: what is on it, and nothing else, is configured, each under its
number. -/
structure Enrolled (s : MappingService) (roll : List (String × Replication)) : Prop where
  configured : s.Configured
  fits : roll.length < UInt16.size
  size : s.mappings.size = roll.length
  labels : ∀ (i : UInt16) (label : UInt16 × String × Replication),
    s.mappings[i]?.map Mapping.label = some label ↔ label ∈ numbered roll ∧ label.1 = i

namespace Enrolled

theorem fresh (node : NodeName) (ministerCount : Nat) :
    (MappingService.fresh node ministerCount).Enrolled [] where
  configured := .fresh node ministerCount
  fits := by decide
  size := rfl
  labels i label := by simp [MappingService.fresh, numbered]

theorem mem_mappings_iff (enrolled : s.Enrolled roll) (i : UInt16) :
    i ∈ s.mappings ↔ 1 ≤ i.toNat ∧ i.toNat ≤ roll.length := by
  constructor
  · intro there
    have held := Std.ExtTreeMap.mem_iff_isSome_getElem?.1 there
    obtain ⟨m, held⟩ := Option.isSome_iff_exists.1 held
    obtain ⟨listed, index⟩ := (enrolled.labels i m.label).1 (by rw [held, Option.map_some])
    obtain ⟨positive, place⟩ := (mem_numbered_iff enrolled.fits).1 listed
    obtain ⟨inside, -⟩ := List.getElem?_eq_some_iff.1 place
    rw [index] at positive inside
    exact ⟨positive, by omega⟩
  · rintro ⟨positive, inside⟩
    have place : roll[i.toNat - 1]? = some roll[i.toNat - 1] := List.getElem?_eq_getElem (by omega)
    have listed : (i, roll[i.toNat - 1]) ∈ numbered roll :=
      (mem_numbered_iff enrolled.fits).2 ⟨positive, place⟩
    obtain ⟨m, held, -⟩ := Option.map_eq_some_iff.1 ((enrolled.labels i _).2 ⟨listed, rfl⟩)
    exact mem_mappings_of_held held

theorem mem_indexOf_iff (enrolled : s.Enrolled roll) (id : String) :
    id ∈ s.indexOf ↔ id ∈ roll.map Prod.fst := by
  have indexed := enrolled.configured.blank.toIndexed
  rw [Std.ExtTreeMap.mem_iff_isSome_getElem?, Option.isSome_iff_exists, List.mem_map]
  constructor
  · rintro ⟨i, known⟩
    obtain ⟨m, held, rfl⟩ := indexed.listed known
    obtain ⟨listed, -⟩ := (enrolled.labels i m.label).1 (by rw [held, Option.map_some])
    obtain ⟨-, place⟩ := (mem_numbered_iff enrolled.fits).1 listed
    exact ⟨m.label.2, List.mem_of_getElem? place, rfl⟩
  · rintro ⟨entry, there, rfl⟩
    obtain ⟨k, inside, rfl⟩ := List.getElem_of_mem there
    have listed : (UInt16.ofNat (k + 1), roll[k]) ∈ numbered roll :=
      List.mem_mapIdx.2 ⟨k, inside, rfl⟩
    obtain ⟨m, held, label⟩ := Option.map_eq_some_iff.1 ((enrolled.labels _ _).2 ⟨listed, rfl⟩)
    have name : m.id = roll[k].1 := congrArg (fun label => label.2.1) label
    exact ⟨_, name ▸ indexed.named held⟩

/-- A service that only closes, or puts mappings in the place of others configured alike, numbers
the same roll. -/
theorem of_label (enrolled : s.Enrolled roll) (configured : t.Configured)
    (size : t.mappings.size = s.mappings.size)
    (label : ∀ i : UInt16, t.mappings[i]?.map Mapping.label = s.mappings[i]?.map Mapping.label) :
    t.Enrolled roll where
  configured := configured
  fits := enrolled.fits
  size := size.trans enrolled.size
  labels i := by rw [label i]; exact enrolled.labels i

/-- Registering something on a mapping leaves the numbers alone. -/
theorem register (enrolled : s.Enrolled roll) (id : String) {f : Mapping → Mapping}
    (same : ∀ m, (f m).label = m.label) (configured : (s.register id f).2.Configured) :
    (s.register id f).2.Enrolled roll := by
  have indexed := enrolled.configured.blank.toIndexed
  unfold MappingService.register at configured ⊢
  split
  · exact enrolled
  next open_ =>
    rw [if_neg open_] at configured
    cases found : s.index? id >>= s.mapping? with
    | error failure => exact enrolled
    | ok m =>
      rw [found] at configured
      obtain ⟨held, -⟩ := indexed.found_iff.1 found
      have place : (f m).index = m.index := congrArg Prod.fst (same m)
      refine enrolled.of_label configured ?_ (label_store held (indexed.placed held) (same m))
      simp [store, Std.ExtTreeMap.size_insert, place, mem_mappings_of_held held]

/-- A new id gets the number after those given. -/
theorem configure_new (enrolled : s.Enrolled roll) (unsealed : s.isSealed = false) {id : String}
    (new : id ∉ roll.map Prod.fst) (room : roll.length + 1 < UInt16.size)
    (replication : Replication) :
    (s.configure id replication).1 = .ok (UInt16.ofNat (roll.length + 1)) ∧
      (s.configure id replication).2.Enrolled (roll ++ [(id, replication)]) := by
  have configured := Configured.configure id replication enrolled.configured
  have unknown : id ∉ s.indexOf := fun known => new ((enrolled.mem_indexOf_iff id).1 known)
  have number := UInt16.toNat_ofNat_of_lt' room
  have vacant : UInt16.ofNat (roll.length + 1) ∉ s.mappings := fun taken => by
    have := ((enrolled.mem_mappings_iff _).1 taken).2
    omega
  unfold MappingService.configure at configured ⊢
  rw [unsealed, if_neg Bool.false_ne_true, if_neg unknown, enrolled.size, if_pos room]
    at configured ⊢
  refine ⟨rfl, configured, by simpa using room, ?_, fun j label => ?_⟩
  · refine (Std.ExtTreeMap.size_insert.trans (if_neg vacant)).trans ?_
    rw [enrolled.size, List.length_append]
    rfl
  · show (s.mappings.insert _ _)[j]?.map _ = _ ↔ _
    rw [Std.ExtTreeMap.getElem?_insert, numbered_concat, List.mem_append, List.mem_singleton]
    split
    next eq =>
      obtain rfl := Std.compare_eq_iff_eq.1 eq
      have unlisted : ¬ (label ∈ numbered roll ∧ label.1 = UInt16.ofNat (roll.length + 1)) := by
        rintro ⟨listed, index⟩
        obtain ⟨m, held, -⟩ := Option.map_eq_some_iff.1 ((enrolled.labels _ _).2 ⟨listed, index⟩)
        exact vacant (mem_mappings_of_held held)
      constructor
      · intro found
        obtain rfl := Option.some.inj found
        exact ⟨.inr rfl, rfl⟩
      · rintro ⟨listed | rfl, index⟩
        · exact absurd ⟨listed, index⟩ unlisted
        · rfl
    next other =>
      rw [enrolled.labels]
      refine and_congr_left fun index => ⟨.inl, fun there => there.resolve_right ?_⟩
      rintro rfl
      exact other (Std.compare_eq_iff_eq.2 index)

/-- What one call makes of the roll while the configuration is open: the number that it is given, if
any, comes after all others. -/
theorem perform (enrolled : s.Enrolled roll) (unsealed : s.isSealed = false) (call : ConfigCall) :
    (s.perform call).2.Enrolled (call.asked?.toList.foldl enrol roll) ∧
      numbered roll ++ (s.grant? call).toList =
        numbered (call.asked?.toList.foldl enrol roll) := by
  cases call with
  | configure id replication =>
    show (s.configure id replication).2.Enrolled (enrol roll (id, replication)) ∧
      _ = numbered (enrol roll (id, replication))
    by_cases refused : id ∈ roll.map Prod.fst ∨ UInt16.size ≤ roll.length + 1
    · have failed : ∃ failure, s.configure id replication = (.error failure, s) := by
        unfold MappingService.configure
        rw [unsealed, if_neg Bool.false_ne_true]
        obtain taken | full := refused
        · exact ⟨_, if_pos ((enrolled.mem_indexOf_iff id).2 taken)⟩
        · rw [enrolled.size, if_neg (Nat.not_lt.2 full)]
          split <;> exact ⟨_, rfl⟩
      obtain ⟨failure, failed⟩ := failed
      rw [enrol, if_pos refused]
      exact ⟨by rw [failed]; exact enrolled,
        by simp [grant?, MappingService.perform, failed, Except.map]⟩
    · obtain ⟨new, room⟩ := not_or.1 refused
      obtain ⟨answer, enrolled'⟩ :=
        enrolled.configure_new unsealed new (Nat.lt_of_not_le room) replication
      rw [enrol, if_neg refused, numbered_concat]
      exact ⟨enrolled', by
        simp [grant?, MappingService.perform, answer, ConfigCall.asked?, Except.map]⟩
  | valueAction id name action =>
    refine ⟨enrolled.register id (fun _ => rfl) ?_, by simp [grant?, ConfigCall.asked?]⟩
    exact .valueAction id name action enrolled.configured
  | mapAction id name action =>
    refine ⟨enrolled.register id (fun _ => rfl) ?_, by simp [grant?, ConfigCall.asked?]⟩
    exact .mapAction id name action enrolled.configured
  | close =>
    refine ⟨enrolled.of_label (.close enrolled.configured) rfl fun _ => rfl, ?_⟩
    simp [grant?, ConfigCall.asked?]

end Enrolled

/-- What all calls make of the roll: it takes what they ask for in time. -/
theorem enrolled_configuredBy (enrolled : s.Enrolled roll) (unsealed : s.isSealed = false)
    (calls : List ConfigCall) :
    (s.configuredBy calls).Enrolled ((ConfigCall.askedInTime calls).foldl enrol roll) ∧
      numbered roll ++ s.granted calls =
        numbered ((ConfigCall.askedInTime calls).foldl enrol roll) := by
  induction calls generalizing s roll with
  | nil => exact ⟨enrolled, List.append_nil _⟩
  | cons call calls ih =>
    obtain ⟨enrolled', given⟩ := enrolled.perform unsealed call
    have sealed' := isSealed_perform_of_open unsealed call
    show ((s.perform call).2.configuredBy calls).Enrolled _ ∧ _
    rw [granted, ← List.append_assoc, given]
    cases closes : call.isClose with
    | true =>
      rw [closes] at sealed'
      rw [ConfigCall.asked?_of_isClose closes] at enrolled' ⊢
      simpa [configuredBy_of_sealed sealed', granted_of_sealed sealed', ConfigCall.askedInTime,
        ConfigCall.asked, closes] using enrolled'
    | false =>
      rw [closes] at sealed'
      have asked : ConfigCall.askedInTime (call :: calls) =
          call.asked?.toList ++ ConfigCall.askedInTime calls := by
        rw [ConfigCall.askedInTime, List.takeWhile_cons_of_pos (by rw [closes]; rfl)]
        cases entry : call.asked? <;>
          simp [ConfigCall.asked, ConfigCall.askedInTime, entry]
      rw [asked, List.foldl_append]
      exact ih enrolled' sealed'

/-- An id that is asked for is on the roll, unless all numbers are given. -/
theorem mem_enrol (roll : List (String × Replication)) (entry : String × Replication) :
    entry.1 ∈ (enrol roll entry).map Prod.fst ∨ UInt16.size ≤ (enrol roll entry).length + 1 := by
  unfold enrol
  split
  next refused => exact refused
  next => exact .inl (by simp)

theorem mem_foldl_enrol {asked : List (String × Replication)} {entry : String × Replication}
    (there : entry ∈ asked) (room : (asked.foldl enrol roll).length + 1 < UInt16.size) :
    entry.1 ∈ (asked.foldl enrol roll).map Prod.fst := by
  obtain ⟨before, after, rfl⟩ := List.append_of_mem there
  rw [List.foldl_append, List.foldl_cons] at room ⊢
  have kept : enrol (before.foldl enrol roll) entry <+:
      after.foldl enrol (enrol (before.foldl enrol roll) entry) :=
    prefix_foldl_enrol List.nil_prefix _
  have shorter := kept.length_le
  exact (kept.map Prod.fst).subset ((mem_enrol _ entry).resolve_right (by omega))

/-! ## The numbers -/

/-- The numbers that were given run from one on, and a service knows by them what they were given
for, and nothing else. -/
structure NumbersDensely (s : MappingService) (granted : List (UInt16 × String × Replication)) :
    Prop where
  /-- The `k`-th number that was given is `k`. -/
  counted : granted.map (fun label => label.1.toNat) = List.range' 1 granted.length
  bounded : granted.length ≤ 65535
  indices : ∀ i : UInt16, i ∈ s.mappings ↔ 1 ≤ i.toNat ∧ i.toNat ≤ granted.length
  /-- The ids that have a number are those that were given one. -/
  ids : ∀ (id : String) (i : UInt16),
    s.index? id = .ok i ↔ ∃ replication, (i, id, replication) ∈ granted
  /-- The way from ids to numbers is the inverse of the way from numbers to mappings. -/
  inverse : ∀ (id : String) (i : UInt16),
    s.index? id = .ok i ↔ ∃ m, s.mapping? i = .ok m ∧ m.id = id
  /-- A mapping bears its number, its id and its replication itself. -/
  labels : ∀ (i : UInt16) (m : Mapping), s.mapping? i = .ok m → m.index = i ∧ m.label ∈ granted

/-- Two services never mean different mappings by one number, nor one mapping by different numbers,
and one of them knows all that the other knows. -/
structure Agrees (s t : MappingService) : Prop where
  numbers : ∀ (id : String) (i j : UInt16), s.index? id = .ok i → t.index? id = .ok j → i = j
  mappings : ∀ (i : UInt16) (m n : Mapping), s.mapping? i = .ok m → t.mapping? i = .ok n →
    m.label = n.label
  nested : (∀ id i, s.index? id = .ok i → t.index? id = .ok i) ∨
    ∀ id i, t.index? id = .ok i → s.index? id = .ok i

theorem mapping?_eq_ok_iff : s.mapping? i = .ok m ↔ s.mappings[i]? = some m := by
  cases held : s.mappings[i]? <;> simp [mapping?, held]

theorem index?_eq_ok_iff {id : String} : s.index? id = .ok i ↔ s.indexOf[id]? = some i := by
  cases known : s.indexOf[id]? <;> simp [index?, known]

namespace Enrolled

theorem index?_eq_ok_iff (enrolled : s.Enrolled roll) (id : String) (i : UInt16) :
    s.index? id = .ok i ↔ ∃ replication, (i, id, replication) ∈ numbered roll := by
  have indexed := enrolled.configured.blank.toIndexed
  rw [MappingService.index?_eq_ok_iff]
  constructor
  · intro known
    obtain ⟨m, held, rfl⟩ := indexed.listed known
    obtain ⟨listed, index⟩ := (enrolled.labels i m.label).1 (by rw [held, Option.map_some])
    exact ⟨m.replication, by rw [← index]; exact listed⟩
  · rintro ⟨replication, listed⟩
    obtain ⟨m, held, label⟩ := Option.map_eq_some_iff.1 ((enrolled.labels i _).2 ⟨listed, rfl⟩)
    have name : m.id = id := congrArg (fun label => label.2.1) label
    exact name ▸ indexed.named held

theorem numbersDensely (enrolled : s.Enrolled roll) : s.NumbersDensely (numbered roll) where
  counted := by rw [numbers_numbered enrolled.fits, length_numbered]
  bounded := by rw [length_numbered]; exact Nat.le_of_lt_succ enrolled.fits
  indices i := by rw [length_numbered]; exact enrolled.mem_mappings_iff i
  ids := enrolled.index?_eq_ok_iff
  inverse id i := by
    have indexed := enrolled.configured.blank.toIndexed
    simp only [MappingService.index?_eq_ok_iff, mapping?_eq_ok_iff]
    refine ⟨indexed.listed, ?_⟩
    rintro ⟨m, held, rfl⟩
    exact indexed.named held
  labels i m found := by
    have held := mapping?_eq_ok_iff.1 found
    obtain ⟨listed, index⟩ := (enrolled.labels i m.label).1 (by rw [held, Option.map_some])
    exact ⟨index, listed⟩

/-- A service that numbers the beginning of another's roll knows less, and nothing else. -/
theorem index?_of_beginning {more : List (String × Replication)} (enrolled : s.Enrolled roll)
    (other : t.Enrolled more) (first : roll <+: more) (id : String) (i : UInt16)
    (known : s.index? id = .ok i) : t.index? id = .ok i := by
  obtain ⟨replication, listed⟩ := (enrolled.index?_eq_ok_iff id i).1 known
  obtain ⟨positive, place⟩ := (mem_numbered_iff enrolled.fits).1 listed
  refine (other.index?_eq_ok_iff id i).2 ⟨replication, ?_⟩
  obtain ⟨inside, same⟩ := List.getElem?_eq_some_iff.1 place
  refine (mem_numbered_iff other.fits).2 ⟨positive, ?_⟩
  rw [List.prefix_iff_getElem?.1 first _ inside, same]

end Enrolled

/-- Services that number the same roll know the same. -/
theorem Enrolled.index?_eq (enrolled : s.Enrolled roll) (other : t.Enrolled roll) (id : String) :
    s.index? id = t.index? id := by
  have same : s.indexOf[id]? = t.indexOf[id]? := by
    ext i
    rw [← MappingService.index?_eq_ok_iff, ← MappingService.index?_eq_ok_iff,
      enrolled.index?_eq_ok_iff, other.index?_eq_ok_iff]
  rw [index?, same]
  rfl

theorem agrees_of_beginning {more : List (String × Replication)} (enrolled : s.Enrolled roll)
    (other : t.Enrolled more) (first : roll <+: more) : s.Agrees t where
  numbers id i j known known' := by
    have known'' := enrolled.index?_of_beginning other first id i known
    exact Except.ok.inj (known''.symm.trans known')
  mappings i m n found found' := by
    have listed (s : MappingService) (roll) (enrolled : s.Enrolled roll) (m : Mapping)
        (found : s.mapping? i = .ok m) :
        m.label.1 = i ∧ 1 ≤ i.toNat ∧ roll[i.toNat - 1]? = some m.label.2 := by
      obtain ⟨index, listed⟩ := enrolled.numbersDensely.labels i m found
      have place := (mem_numbered_iff enrolled.fits).1 listed
      rw [show m.label.1 = i from index] at place
      exact ⟨index, place⟩
    obtain ⟨index, -, place⟩ := listed s roll enrolled m found
    obtain ⟨index', -, place'⟩ := listed t more other n found'
    obtain ⟨inside, same⟩ := List.getElem?_eq_some_iff.1 place
    rw [List.prefix_iff_getElem?.1 first _ inside, same] at place'
    exact Prod.ext (index.trans index'.symm) (Option.some.inj place')
  nested := .inl (enrolled.index?_of_beginning other first)

theorem Agrees.symm (agrees : s.Agrees t) : t.Agrees s where
  numbers id i j known known' := (agrees.numbers id j i known' known).symm
  mappings i m n found found' := (agrees.mappings i n m found' found).symm
  nested := agrees.nested.symm

theorem enrolled_fresh_configuredBy (node : NodeName) (ministerCount : Nat)
    (calls : List ConfigCall) :
    ((fresh node ministerCount).configuredBy calls).Enrolled
        ((ConfigCall.askedInTime calls).foldl enrol []) ∧
      (fresh node ministerCount).granted calls =
        numbered ((ConfigCall.askedInTime calls).foldl enrol []) :=
  enrolled_configuredBy (.fresh node ministerCount) rfl calls

/-- Whatever an application asks of a service before the node starts, the numbers that are given run
from one on, and ids, numbers and mappings belong together one to one; a call that fails changes
nothing, and none succeeds once the configuration is closed. Every id that is asked for in time has
a number, unless all of them are given. So services that are asked for the same mappings in the same
order agree on every number, whatever else they are asked; and where one was closed before it was
asked for all of them, it knows a part of what the other knows, in the same numbers. -/
theorem indices_are_dense_and_agreed :
    (∀ (node : NodeName) (ministerCount : Nat) (calls : List ConfigCall),
      ((fresh node ministerCount).configuredBy calls).NumbersDensely
          ((fresh node ministerCount).granted calls) ∧
        ∀ entry ∈ ConfigCall.askedInTime calls,
          ((fresh node ministerCount).granted calls).length < 65535 →
          ∃ i, ((fresh node ministerCount).configuredBy calls).index? entry.1 = .ok i) ∧
    (∀ (s : MappingService) (call : ConfigCall) (failure : Failure),
      (s.perform call).1 = .error failure → (s.perform call).2 = s) ∧
    (∀ (s : MappingService) (before after : List ConfigCall) (call : ConfigCall),
      call.isClose = false →
      ((s.configuredBy (before ++ .close :: after)).perform call).1 =
        .error .configurationClosed) ∧
    ∀ (node node' : NodeName) (ministerCount ministerCount' : Nat)
      (calls calls' : List ConfigCall), ConfigCall.asked calls = ConfigCall.asked calls' →
      ((fresh node ministerCount).configuredBy calls).Agrees
          ((fresh node' ministerCount').configuredBy calls') ∧
        (ConfigCall.askedInTime calls = ConfigCall.askedInTime calls' →
          ∀ id, ((fresh node ministerCount).configuredBy calls).index? id =
            ((fresh node' ministerCount').configuredBy calls').index? id) := by
  refine ⟨fun node count calls => ?_, fun s call failure => perform_of_error,
    fun s before after call other => ?_, fun node node' count count' calls calls' same => ?_⟩
  · obtain ⟨enrolled, given⟩ := enrolled_fresh_configuredBy node count calls
    rw [given]
    refine ⟨enrolled.numbersDensely, fun entry there room => ?_⟩
    rw [length_numbered] at room
    have known := mem_foldl_enrol there (Nat.succ_lt_succ room)
    obtain ⟨i, known⟩ := Option.isSome_iff_exists.1 (Std.ExtTreeMap.mem_iff_isSome_getElem?.1
      ((enrolled.mem_indexOf_iff entry.1).2 known))
    exact ⟨i, index?_eq_ok_iff.2 known⟩
  · have closed : ((s.configuredBy before).perform .close).2.isSealed = true := rfl
    have rest : s.configuredBy (before ++ .close :: after) =
        ((s.configuredBy before).perform .close).2 := by
      rw [configuredBy_append]
      exact configuredBy_of_sealed closed after
    rw [rest, perform_of_sealed closed other]
  · obtain ⟨enrolled, -⟩ := enrolled_fresh_configuredBy node count calls
    obtain ⟨enrolled', -⟩ := enrolled_fresh_configuredBy node' count' calls'
    constructor
    · -- What was asked for in time is the beginning of the same list on both sides.
      have first := ConfigCall.askedInTime_beginning calls
      rw [same] at first
      obtain shorter | longer :=
        List.prefix_or_prefix_of_prefix first (ConfigCall.askedInTime_beginning calls')
      · exact agrees_of_beginning enrolled enrolled' (prefix_foldl_enrol shorter [])
      · exact (agrees_of_beginning enrolled' enrolled (prefix_foldl_enrol longer [])).symm
    · intro inTime
      rw [← inTime] at enrolled'
      exact enrolled.index?_eq enrolled'

/-- Two applications ask for the same mappings in the same order, one of them twice. The first one
also registers an action on a mapping that is not there; the second one closes the configuration
before its last call. -/
def patientCalls : List ConfigCall :=
  [.configure "a" .immediate, .configure "a" .single,
    .valueAction "c" "grow" fun _ _ _ => .error .crashed, .configure "b" .single, .close]

def hastyCalls : List ConfigCall :=
  [.configure "a" .immediate, .configure "a" .single, .close, .configure "b" .single]

theorem indices_are_dense_and_agreed_in_hastyCalls :
    ConfigCall.asked patientCalls = ConfigCall.asked hastyCalls ∧
      (fresh "x" 1).granted patientCalls = [(1, "a", .immediate), (2, "b", .single)] ∧
      (fresh "y" 1).granted hastyCalls = [(1, "a", .immediate)] ∧
      ((fresh "x" 1).configuredBy patientCalls).NumbersDensely
        [(1, "a", .immediate), (2, "b", .single)] ∧
      ((fresh "y" 1).configuredBy hastyCalls).NumbersDensely [(1, "a", .immediate)] ∧
      ((fresh "x" 1).configuredBy patientCalls).Agrees
        ((fresh "y" 1).configuredBy hastyCalls) := by
  obtain ⟨dense, -, -, agrees⟩ := indices_are_dense_and_agreed
  have same : ConfigCall.asked patientCalls = ConfigCall.asked hastyCalls := rfl
  have first : (fresh "x" 1).granted patientCalls =
      [(1, "a", .immediate), (2, "b", .single)] := by rfl
  have other : (fresh "y" 1).granted hastyCalls = [(1, "a", .immediate)] := by rfl
  have dense₁ := (dense "x" 1 patientCalls).1
  have dense₂ := (dense "y" 1 hastyCalls).1
  rw [first] at dense₁
  rw [other] at dense₂
  exact ⟨same, first, other, dense₁, dense₂, (agrees "x" "y" 1 1 _ _ same).1⟩

end MappingService

end Cohort

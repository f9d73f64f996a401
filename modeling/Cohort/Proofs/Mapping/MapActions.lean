import Cohort.Mapping.Typed
import Cohort.Proofs.Mapping.Mail
import Cohort.Proofs.Mapping.Telling

/-!
# Actions on a whole mapping

An action on a whole mapping works on a table of typed entries: the copy is read, the logic makes of
it what it likes, and the outcome is written. What is done to the copy are the changes that lead
from what was there to what was written, and these are also what the other nodes are told. The copy
is then what was written, whatever the codecs are like: several octet strings may read as one key,
and several keys may be written as one octet string.

## Main definitions

* `MappingId.Reads`, `MappingId.Writes`: what typed entries octets read as and are written as.
* `MappingId.Performs`: what an action leaves, and what it answers.
* `MappingService.RunsAs`, `MappingService.Succeeds`: a call runs on a copy here, and succeeds.

## Main statements

* `MappingId.mem_difference_iff`, `MappingId.foldl_difference`: the changes between two tables lead
  from one to the other, and are no more than it takes.
* `MappingId.mapAction_eq_ok_iff`: when an action succeeds, and with what outcome.
* `MappingService.map_action_leaves_its_table`: what a call of an action makes of the copy, and what
  the other nodes are told.
-/

namespace Cohort

/-- The last change of a key is the only one it has. -/
theorem lastChange_of_unique {key : Bytes} {value : Option Bytes} {changes : List Change}
    (there : (key, value) ∈ changes)
    (unique : ∀ value', (key, value') ∈ changes → value' = value) :
    lastChange key changes = some value := by
  cases last : lastChange key changes with
  | none => exact absurd rfl (lastChange_eq_none_iff.1 last _ there)
  | some value' => rw [unique value' (mem_of_lastChange last)]

/-- Steps that each read an entry all succeed just if every entry reads, and take what was read one
after the other. -/
theorem foldlM_read_eq_ok_iff {σ α β α' β' : Type} {readKey : α → Outcome α'}
    {readValue : β → Outcome β'} {take : σ → α' → β' → σ} {entries : List (α × β)}
    {start stop : σ} :
    (entries.foldlM (fun state entry => do
        return take state (← readKey entry.1) (← readValue entry.2)) start : Outcome σ) = .ok stop ↔
      ∃ pairs : List (α' × β'), List.Forall₂ (fun entry pair =>
          readKey entry.1 = .ok pair.1 ∧ readValue entry.2 = .ok pair.2) entries pairs ∧
        stop = pairs.foldl (fun state pair => take state pair.1 pair.2) start := by
  induction entries generalizing start with
  | nil => simp [pure, Except.pure, eq_comm]
  | cons entry rest ih =>
    rw [List.foldlM_cons]
    simp only [List.forall₂_cons_left_iff]
    cases key : readKey entry.1 with
    | error failure => simp [bind, Except.bind]
    | ok key' =>
      cases value : readValue entry.2 with
      | error failure => simp [bind, Except.bind]
      | ok value' =>
        refine (@ih (take start key' value')).trans ⟨?_, ?_⟩
        · rintro ⟨pairs, reads, rfl⟩
          exact ⟨(key', value') :: pairs, ⟨_, _, ⟨rfl, rfl⟩, reads, rfl⟩, rfl⟩
        · rintro ⟨_, ⟨pair, pairs, ⟨first, second⟩, reads, rfl⟩, rfl⟩
          obtain ⟨key'', value''⟩ := pair
          cases first
          cases second
          exact ⟨pairs, reads, rfl⟩

/-- Two steps succeed just if the first one does, and the second one on what it gave. -/
theorem bind_eq_ok_iff {ε α β : Type} {first : Except ε α} {second : α → Except ε β} {b : β} :
    first >>= second = .ok b ↔ ∃ a, first = .ok a ∧ second a = .ok b := by
  cases first <;> simp [bind, Except.bind]

theorem attempt_eq_ok_iff {α : Type} {outcome : Outcome α} {a : α} :
    attempt outcome = .ok a ↔ outcome = .ok a := by
  cases outcome <;> simp [attempt]

/-! ## What several changes come to may take their place -/

namespace Mapping

variable (m : Mapping) (changes : List Change)

theorem committed_toList_ofList :
    m.committed (Std.ExtTreeMap.ofList changes : Changes).toList = m.committed changes := by
  have entries : (Std.ExtTreeMap.ofList changes : Changes).toList.foldl changed m.entries =
      changes.foldl changed m.entries := by
    refine Std.ExtTreeMap.ext_getElem? fun key => ?_
    simp only [getElem?_foldl_changed, lastChange_toList, getElem?_ofList]
  have dirty : m.dirty.insertMany (Std.ExtTreeMap.ofList changes : Changes).toList =
      m.dirty.insertMany changes := by
    refine Std.ExtTreeMap.ext_getElem? fun key => ?_
    simp only [getElem?_insertMany, lastChange_toList, getElem?_ofList]
  simp only [committed, entries, dirty]

theorem committedNews_toList_ofList :
    m.committedNews (Std.ExtTreeMap.ofList changes : Changes).toList = m.committedNews changes := by
  have table : (Std.ExtTreeMap.ofList (Std.ExtTreeMap.ofList changes : Changes).toList : Changes) =
      .ofList changes := by
    refine Std.ExtTreeMap.ext_getElem? fun key => ?_
    simp only [getElem?_ofList, lastChange_toList]
  have nothing : (Std.ExtTreeMap.ofList changes : Changes).toList.isEmpty = changes.isEmpty := by
    rw [Std.ExtTreeMap.isEmpty_toList, Std.ExtTreeMap.ofList_eq_insertMany_empty,
      Std.ExtTreeMap.isEmpty_insertMany_list, Std.ExtTreeMap.isEmpty_empty, Bool.true_and]
  simp only [committedNews, table, nothing]

end Mapping

namespace MappingId

variable {κ ν α ρ : Type} {before after : Entries} {key : Bytes} {value : Option Bytes}

/-! ## The changes between two tables -/

/-- A change leads from one table to another just if it gives a key what the other table has there,
and the tables differ there. -/
theorem mem_difference_iff :
    (key, value) ∈ difference before after ↔ before[key]? ≠ after[key]? ∧ value = after[key]? := by
  have held : ∀ (table : Entries) (key : Bytes), key ∈ table ↔ table[key]? ≠ none := by
    intro table key
    rw [Std.ExtTreeMap.mem_iff_isSome_getElem?, Option.isSome_iff_ne_none]
  have listed : ∀ (key value : Bytes), (key, value) ∈ after.toList ↔ after[key]? = some value :=
    fun key value => Std.ExtTreeMap.mem_toList_iff_getElem?_eq_some
  simp only [difference, List.mem_append, List.mem_map, List.mem_filter, Std.ExtTreeMap.mem_keys,
    Bool.not_eq_true', Prod.mk.injEq, decide_eq_true_eq]
  constructor
  · rintro (⟨key, ⟨was, gone⟩, rfl, rfl⟩ | ⟨⟨key, new⟩, ⟨is, differs⟩, rfl, rfl⟩)
    · rw [← Bool.not_eq_true, Std.ExtTreeMap.contains_iff_mem, held, not_not] at gone
      rw [gone]
      exact ⟨(held before key).1 was, rfl⟩
    · rw [(listed key new).1 is]
      exact ⟨differs, rfl⟩
  · rintro ⟨differs, rfl⟩
    cases is : after[key]? with
    | none =>
      rw [is] at differs
      refine .inl ⟨key, ⟨(held before key).2 differs, ?_⟩, rfl, rfl⟩
      rwa [← Bool.not_eq_true, Std.ExtTreeMap.contains_iff_mem, held, not_not]
    | some new => exact .inr ⟨(key, new), ⟨(listed key new).2 is, is ▸ differs⟩, rfl, rfl⟩

/-- Of the changes between two tables there is one for each key at which they differ. -/
theorem lastChange_difference (before after : Entries) (key : Bytes) :
    lastChange key (difference before after) =
      if before[key]? = after[key]? then none else some after[key]? := by
  split
  next same =>
    refine lastChange_eq_none_iff.2 fun change there eq => ?_
    obtain ⟨key', value⟩ := change
    obtain rfl : key' = key := eq
    exact (mem_difference_iff.1 there).1 same
  next differ =>
    refine lastChange_of_unique (mem_difference_iff.2 ⟨differ, rfl⟩) fun value there => ?_
    exact (mem_difference_iff.1 there).2

/-- The changes between two tables, made one after the other, lead from one to the other. -/
theorem foldl_difference (before after : Entries) :
    (difference before after).foldl Mapping.changed before = after := by
  refine Std.ExtTreeMap.ext_getElem? fun key => ?_
  rw [getElem?_foldl_changed, lastChange_difference]
  split
  next same => exact same
  next => rfl

/-! ## What an action does -/

section Actions

variable [Ord κ] [Std.TransOrd κ] {typed : Std.ExtTreeMap κ ν} {entries : Entries}

/-- The entries of a table read, in the order of their keys, as typed entries, and these make up a
typed table when they are stored one after the other. -/
def Reads (id : MappingId κ ν) (entries : Entries) (typed : Std.ExtTreeMap κ ν) : Prop :=
  ∃ pairs : List (κ × ν), List.Forall₂ (fun entry pair =>
      id.keys.decode entry.1 = .ok pair.1 ∧ id.values.decode entry.2 = .ok pair.2)
    entries.toList pairs ∧ typed = pairs.foldl (fun typed pair => storeUnder typed pair.1 pair.2) ∅

/-- The typed entries of a table are written, in the order of their keys, as entries, and these make
up a table when they are stored one after the other. -/
def Writes (id : MappingId κ ν) (typed : Std.ExtTreeMap κ ν) (entries : Entries) : Prop :=
  ∃ pairs : List (Bytes × Bytes), List.Forall₂ (fun entry pair =>
      id.keys.encode entry.1 = .ok pair.1 ∧ id.values.encode entry.2 = .ok pair.2)
    typed.toList pairs ∧ entries = pairs.foldl (fun entries pair => entries.insert pair.1 pair.2) ∅

theorem decodeEntries_eq_ok_iff {id : MappingId κ ν} :
    id.decodeEntries entries = .ok typed ↔ id.Reads entries typed :=
  foldlM_read_eq_ok_iff

theorem encodeEntries_eq_ok_iff {id : MappingId κ ν} :
    id.encodeEntries typed = .ok entries ↔ id.Writes typed entries :=
  foldlM_read_eq_ok_iff

/-- Logic that reads a copy and its arguments succeeds, and what it makes of the copy is written, as
is its result. -/
def Performs (id : MappingId κ ν) (args : Codec α) (result : Codec ρ)
    (logic : Std.ExtTreeMap κ ν → α → Attempted (Std.ExtTreeMap κ ν × ρ)) (before : Entries)
    (arguments : Bytes) (after : Entries) (answer : Bytes) : Prop :=
  ∃ typed a typed' r, id.Reads before typed ∧ args.decode arguments = .ok a ∧
    logic typed a = .ok (typed', r) ∧ id.Writes typed' after ∧ answer = result.encode r

/-- An action succeeds just if all its parts do, and asks for the changes that lead to what was
written. -/
theorem mapAction_eq_ok_iff {id : MappingId κ ν} {args : Codec α} {result : Codec ρ}
    {logic : Std.ExtTreeMap κ ν → α → Attempted (Std.ExtTreeMap κ ν × ρ)} {arguments : Bytes}
    {outcome : ActionOutcome} :
    id.mapAction args result logic before arguments = .ok outcome ↔
      ∃ after answer, id.Performs args result logic before arguments after answer ∧
        outcome = ⟨difference before after, answer⟩ := by
  simp only [mapAction, bind_eq_ok_iff, attempt_eq_ok_iff, decodeEntries_eq_ok_iff,
    encodeEntries_eq_ok_iff, pure, Except.pure, Except.ok.injEq, Performs]
  constructor
  · rintro ⟨typed, reads, a, decoded, ⟨typed', r⟩, ran, after, writes, rfl⟩
    exact ⟨after, _, ⟨typed, a, typed', r, reads, decoded, ran, writes, rfl⟩, rfl⟩
  · rintro ⟨after, answer, ⟨typed, a, typed', r, reads, decoded, ran, writes, rfl⟩, rfl⟩
    exact ⟨typed, reads, a, decoded, (typed', r), ran, after, writes, rfl⟩

end Actions

end MappingId

namespace MappingService

variable {s : MappingService} {m : Mapping} {i : UInt16} {call : MappingCall} {op : MappingOp}
  {reply : Option Bytes} {changes : List Change}

/-- A call, of a caller here or of another node, runs on the copy that is kept here. -/
inductive RunsAs (s : MappingService) (call : MappingCall) : MappingOp → Prop where
  | own (ticket : Ticket) (serves : s.servesOwn call.index = true) :
    s.RunsAs call (.submit call ticket)
  | others (serves : s.servesOthers call = true) : s.RunsAs call (.handle call)

/-- Whoever made a call is told at once that it has succeeded. -/
def Succeeds (s : MappingService) (op : MappingOp) (reply : Option Bytes) : Prop :=
  match op with
  | .submit _ ticket => .answer ticket (.ok reply) ∈ s.emitted op
  | .handle call => (s.handleCall call).1 = .ok reply
  | _ => False

/-- A caller here is answered when its call has run. -/
theorem step_own (serves : s.servesOwn call.index = true) (ticket : Ticket) :
    s.step (.submit call ticket) = (s.run call).2.answer ticket (s.run call).1 :=
  submit_of_serves serves ticket

namespace RunsAs

theorem mappings_eq (runs : s.RunsAs call op) :
    (s.step op).mappings = (s.run call).2.mappings := by
  cases runs with
  | own ticket serves =>
    rw [step_own serves]
    rfl
  | others serves =>
    show (s.handleCall call).2.mappings = _
    rw [handleCall_of_serves serves]

/-- A call that runs here succeeds just if it does so on the copy. -/
theorem succeeds_iff (runs : s.RunsAs call op) (held : s.mappings[call.index]? = some m) :
    s.Succeeds op reply ↔ (s.run call).1 = .ok reply := by
  cases runs with
  | own ticket serves =>
    obtain ⟨effects, grown, news⟩ := outbox_run held
    have emitted : s.emitted (.submit call ticket) =
        effects ++ [.answer ticket (s.run call).1] := by
      refine emitted_eq ?_
      rw [step_own serves, ← List.append_assoc, ← grown]
      rfl
    rw [Succeeds, emitted, List.mem_append, List.mem_singleton]
    constructor
    · rintro (early | last)
      · cases news _ early
      · exact (MappingEffect.answer.inj last).2.symm
    · exact fun succeeded => .inr (by rw [succeeded])
  | others serves => rw [Succeeds, handleCall_of_serves serves]

/-- A call that runs here publishes what its changes ask for. -/
theorem broadcasts_eq (runs : s.RunsAs call op)
    (ran : s.run call = (.ok reply, s.commit m changes)) :
    s.broadcasts op = m.committedNews changes := by
  have outbox : (s.run call).2.outbox = s.outbox ++ ((m.apply changes).2.map .told ++
      (m.committedNews changes).map .broadcast) := by rw [ran, commit_eq]
  cases runs with
  | own ticket serves =>
    have grown : (s.step (.submit call ticket)).outbox = s.outbox ++
        ((m.apply changes).2.map .told ++ (m.committedNews changes).map .broadcast ++
          [.answer ticket (s.run call).1]) := by
      rw [step_own serves, ← List.append_assoc, ← outbox]
      rfl
    rw [broadcasts, emitted_eq grown, List.filterMap_append, List.filterMap_append, event?_told,
      event?_broadcast]
    exact List.append_nil _
  | others serves =>
    have grown : (s.step (.handle call)).outbox = s.outbox ++
        ((m.apply changes).2.map .told ++ (m.committedNews changes).map .broadcast) := by
      rw [← outbox, ← handleCall_of_serves serves]
      rfl
    rw [broadcasts, emitted_eq grown, List.filterMap_append, event?_told, event?_broadcast]
    rfl

end RunsAs

section WithAll

variable {action : String} {arguments : Bytes} {run : MapAction} {outcome : ActionOutcome}

/-- An action that succeeds on a copy makes its changes and answers with its result. -/
theorem run_withAll (held : s.mappings[i]? = some m) (registered : m.mapActions[action]? = some run)
    (performed : run m.entries arguments = .ok outcome) :
    s.run (.withAll i action arguments) =
      (.ok (some outcome.result), s.commit m outcome.changes) := by
  have found : s.mapping? i = .ok m := by rw [mapping?, held]
  simp only [MappingService.run, MappingCall.index, found, Mapping.plan, registered, performed]

/-- A call of an action succeeds on a copy just if the action does. -/
theorem run_withAll_eq_ok_iff (held : s.mappings[i]? = some m)
    (registered : m.mapActions[action]? = some run) :
    (s.run (.withAll i action arguments)).1 = .ok reply ↔
      ∃ outcome, run m.entries arguments = .ok outcome ∧ reply = some outcome.result := by
  have found : s.mapping? i = .ok m := by rw [mapping?, held]
  cases performed : run m.entries arguments with
  | error fault =>
    simp [MappingService.run, MappingCall.index, found, Mapping.plan, registered, performed]
  | ok outcome => simp [run_withAll held registered performed, eq_comm]

end WithAll

/-- A call of an action that runs on a copy here succeeds just if the action can be performed on the
copy. It leaves what the action leaves, answers what the action answers, and the changes that the
other nodes are told, now or later, are those that lead from the copy as it was to the copy as it
is: one for each key at which they differ. -/
theorem map_action_leaves_its_table {κ ν α ρ : Type} [Ord κ] [Std.TransOrd κ] (id : MappingId κ ν)
    (args : Codec α) (result : Codec ρ)
    (logic : Std.ExtTreeMap κ ν → α → Attempted (Std.ExtTreeMap κ ν × ρ)) {action : String}
    {arguments : Bytes} (indexed : s.Indexed) (held : s.mappings[i]? = some m)
    (registered : m.mapActions[action]? = some (id.mapAction args result logic))
    (runs : s.RunsAs (.withAll i action arguments) op) :
    ((∃ reply, s.Succeeds op reply) ↔
      ∃ after answer, id.Performs args result logic m.entries arguments after answer) ∧
    ∀ reply, s.Succeeds op reply → ∃ (after : Entries) (answer : Bytes) (changes : Changes),
      id.Performs args result logic m.entries arguments after answer ∧
      reply = some answer ∧ (s.step op).stock i = after ∧
      (s.step op).mappings[i]? = some (m.committed changes.toList) ∧
      s.broadcasts op = m.committedNews changes.toList ∧
      changes.toList.foldl Mapping.changed m.entries = after ∧
      ∀ key : Bytes,
        changes[key]? = if m.entries[key]? = after[key]? then none else some after[key]? := by
  have succeeds : ∀ reply, s.Succeeds op reply ↔ ∃ outcome,
      id.mapAction args result logic m.entries arguments = .ok outcome ∧
        reply = some outcome.result := fun reply =>
    (runs.succeeds_iff held).trans (run_withAll_eq_ok_iff held registered)
  refine ⟨⟨?_, ?_⟩, fun reply succeeded => ?_⟩
  · rintro ⟨reply, succeeded⟩
    obtain ⟨outcome, performed, -⟩ := (succeeds reply).1 succeeded
    obtain ⟨after, answer, performs, -⟩ := MappingId.mapAction_eq_ok_iff.1 performed
    exact ⟨after, answer, performs⟩
  · rintro ⟨after, answer, performs⟩
    have performed := MappingId.mapAction_eq_ok_iff.2 ⟨after, answer, performs, rfl⟩
    exact ⟨some answer, (succeeds _).2 ⟨_, performed, rfl⟩⟩
  · obtain ⟨outcome, performed, rfl⟩ := (succeeds reply).1 succeeded
    have ran := run_withAll held registered performed
    obtain ⟨after, answer, performs, rfl⟩ := MappingId.mapAction_eq_ok_iff.1 performed
    have leads := MappingId.foldl_difference m.entries after
    generalize differ : MappingId.difference m.entries after = changes at ran leads
    have copy : (s.step op).mappings[i]? = some (m.committed changes) := by
      rw [runs.mappings_eq, ran, getElem?_commit, if_pos (indexed.placed held)]
    -- the table of the changes takes the place of the changes
    refine ⟨after, answer, .ofList changes, performs, rfl, ?_, ?_, ?_, ?_, fun key => ?_⟩
    · rw [stock_of_held copy]
      exact leads
    · rw [copy, Mapping.committed_toList_ofList]
    · rw [runs.broadcasts_eq ran, Mapping.committedNews_toList_ofList]
    · exact (congrArg Mapping.entries (m.committed_toList_ofList changes)).trans leads
    · rw [getElem?_ofList, ← differ, MappingId.lastChange_difference]

/-- A mapping from numbers in decimal to octets. Digits may have zeros in front. -/
def tally : MappingId UInt32 Bytes := ⟨"tally", .decimal, ⟨.ok, .ok⟩⟩

/-- Leaves all entries as they are read. -/
def settle (table : Std.ExtTreeMap UInt32 Bytes) (_ : Unit) :
    Attempted (Std.ExtTreeMap UInt32 Bytes × Unit) := .ok (table, ())

/-- A copy with entries under `007`, `7` and `8`, the first two of which read as one. -/
def tallies : MappingService :=
  let s := ((fresh "a" 1).configure "tally" (.batched 10)).2
  let s := (s.registerMapAction "tally" "settle" (tally.mapAction Codec.unit Codec.unit settle)).2
  s.close.after [.submit (.put 1 [48, 48, 55] [1]) 1, .submit (.put 1 [55] [2]) 2,
    .submit (.put 1 [56] [3]) 3, .flush 0 false]

theorem tallies_indexed : tallies.Indexed := by
  have configured : Configured _ := .close (.mapAction "tally" "settle"
    (tally.mapAction Codec.unit Codec.unit settle)
    (.configure "tally" (.batched 10) (.fresh "a" 1)))
  exact (configured.blank.sound.after _).toIndexed

theorem map_action_leaves_its_table_in_tallies :
    let op := MappingOp.submit (.withAll 1 "settle" []) 4
    (tallies.stock 1).toList = [([48, 48, 55], [1]), ([55], [2]), ([56], [3])] ∧
      tallies.Succeeds op (some []) ∧
      tally.Performs Codec.unit Codec.unit settle (tallies.stock 1) []
        ((tallies.step op).stock 1) [] ∧
      ((tallies.step op).stock 1).toList = [([55], [2]), ([56], [3])] ∧
      (tallies.step op).owed 1 = [([48, 48, 55], none)] := by
  intro op
  obtain ⟨m, held, registered⟩ : ∃ m, tallies.mappings[(1 : UInt16)]? = some m ∧
      m.mapActions["settle"]? = some (tally.mapAction Codec.unit Codec.unit settle) :=
    ⟨_, rfl, rfl⟩
  have succeeded : tallies.Succeeds op (some []) :=
    (List.mem_singleton.2 rfl : _ ∈ [MappingEffect.answer 4 (.ok (some []))])
  have serves : tallies.servesOwn 1 = true := by decide +kernel
  obtain ⟨-, leaves⟩ := map_action_leaves_its_table tally Codec.unit Codec.unit settle
    tallies_indexed held registered (.own 4 serves)
  obtain ⟨after, answer, changes, performs, answered, stock, -⟩ := leaves _ succeeded
  obtain rfl : answer = [] := (Option.some.inj answered).symm
  rw [← stock_of_held held, ← stock] at performs
  exact ⟨by decide +kernel, succeeded, performs, by decide +kernel, by decide +kernel⟩

end MappingService

end Cohort

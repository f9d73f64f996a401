import Cohort.Proofs.Mapping.Exchange
import Mathlib.Data.List.Induction

/-!
# Changes that cross

Nobody compares changes that cross on their way from one node to another: at every node the change
that reaches it last stays. So when everything has been told and has arrived, a node holds for each
key what the node whose change reached it last gave the key last. Copies may differ then in keys
that several nodes changed at once. They agree in each key whose last changes were made by one node
after those of the others had reached everybody.

## Main definitions

* `MappingMesh.Settled`: everything has been told and has arrived.
* `MappingMesh.lastSource`: the node whose change of a key reached a node last.
* `MappingMesh.HasLastWord`: the last changes of a key crossed no change of another node.

## Main statements

* `MappingMesh.copies_settle`: what copies come to, and when they agree.
* `MappingMesh.copies_after_forced_flushes`: the same of runs that end with flushes.
* `MappingMesh.crossing_changes_part_copies`: copies that differ for good.
-/

namespace Cohort

namespace MappingMesh

variable {mesh : MappingMesh} {i : UInt16} {id : String} {key : Bytes} {x y w : NodeName}
  {s : MappingService} {steps : List MeshStep} {all : List Change}

/-- Everything has been told and has arrived. -/
structure Settled (mesh : MappingMesh) (i : UInt16) : Prop where
  told : ∀ x, mesh.owed i x = []
  arrived : ∀ x y, mesh.nodes x ≠ none → mesh.nodes y ≠ none → mesh.links x y = []

/-- Nodes with the same replicated mapping to which nothing has happened but their configuration. -/
structure Starts (mesh : MappingMesh) (i : UInt16) (id : String) (replication : Replication) :
    Prop where
  configured : ∀ x s, mesh.nodes x = some s → s.Configured ∧ ∃ m : Mapping,
    s.mappings[i]? = some m ∧ m.id = id ∧ m.replication = replication
  replicated : replication.isReplicated = true
  idle : ∀ x y, mesh.links x y = []

/-- A change of a key that a node made has not reached everybody. -/
def Outstanding (mesh : MappingMesh) (i : UInt16) (id : String) (key : Bytes) (node : NodeName) :
    Prop :=
  lastChange key (mesh.owed i node) ≠ none ∨
    ∃ target, mesh.nodes target ≠ none ∧ lastChange key (mesh.pending id node target) ≠ none

/-- From some time on only one node changed a key, and it did so; by then the changes that others
had made of the key had reached everybody. -/
def HasLastWord (mesh : MappingMesh) (i : UInt16) (id : String) (key : Bytes)
    (steps : List MeshStep) (node : NodeName) : Prop :=
  ∃ before after, steps = before ++ after ∧
    lastChange key ((mesh.after before).ownOver i node after) ≠ none ∧
    ∀ other, other ≠ node → ¬ (mesh.after before).Outstanding i id key other ∧
      lastChange key ((mesh.after before).ownOver i other after) = none

/-! ## Who changed a key last -/

/-- The node that made the change of a key that reached a node last. -/
def lastSource (key : Bytes) (taken : List (NodeName × Change)) : Option NodeName :=
  (taken.reverse.find? fun entry => entry.2.1 = key).map Prod.fst

theorem lastSource_append (key : Bytes) (taken taken' : List (NodeName × Change)) :
    lastSource key (taken ++ taken') = (lastSource key taken').or (lastSource key taken) := by
  rw [lastSource, List.reverse_append, List.find?_append, Option.map_or]
  rfl

theorem lastSource_singleton (key : Bytes) (entry : NodeName × Change) :
    lastSource key [entry] = if entry.2.1 = key then some entry.1 else none := by
  by_cases eq : entry.2.1 = key <;> simp [lastSource, eq]

/-- The last change of a key is the last one that its source made. -/
theorem lastChange_of_lastSource {taken : List (NodeName × Change)}
    (last : lastSource key taken = some y) :
    lastChange key (taken.map Prod.snd) = lastChange key (madeBy y taken) := by
  induction taken using List.reverseRecOn with
  | nil => cases last
  | append_singleton taken entry ih =>
    rw [lastSource_append, lastSource_singleton] at last
    rw [List.map_append, lastChange_append, madeBy_append, lastChange_append]
    by_cases about : entry.2.1 = key
    · rw [if_pos about, Option.some_or] at last
      obtain rfl := Option.some.inj last
      simp [madeBy, about]
    · rw [if_neg about, Option.none_or] at last
      rw [ih last]
      by_cases same : entry.1 = y <;> simp [madeBy, about, same]

theorem lastSource_eq_none_iff {taken : List (NodeName × Change)} :
    lastSource key taken = none ↔ lastChange key (taken.map Prod.snd) = none := by
  rw [lastSource, Option.map_eq_none_iff, List.find?_eq_none, lastChange_eq_none_iff]
  constructor
  · rintro none change among
    obtain ⟨entry, there, rfl⟩ := List.mem_map.1 among
    simpa using none entry (List.mem_reverse.2 there)
  · rintro none entry there
    simpa using none entry.2 (List.mem_map_of_mem (List.mem_reverse.1 there))

/-- A change of the key was made by its last source. -/
theorem madeBy_of_lastSource {taken : List (NodeName × Change)}
    (last : lastSource key taken = some y) : lastChange key (madeBy y taken) ≠ none := by
  rw [← lastChange_of_lastSource last, ne_eq, ← lastSource_eq_none_iff, last]
  exact nofun

theorem lastSource_ne_none_of_madeBy {taken : List (NodeName × Change)}
    (some : lastChange key (madeBy y taken) ≠ none) : lastSource key taken ≠ none := by
  intro none
  rw [lastSource_eq_none_iff, lastChange_eq_none_iff] at none
  refine some (lastChange_eq_none_iff.2 fun change among => ?_)
  obtain ⟨entry, there, rfl⟩ := List.mem_map.1 among
  exact none entry.2 (List.mem_map_of_mem (List.mem_of_mem_filter there))

/-! ## What copies come to -/

section Settling

variable {replication : Replication}

theorem Starts.shares (starts : mesh.Starts i id replication) : mesh.Shares i id := by
  intro x s there
  obtain ⟨configured, m, held, named, rfl⟩ := starts.configured x s there
  exact ⟨configured.blank.sound, m, held, named, starts.replicated⟩

theorem Starts.proper (starts : mesh.Starts i id replication) : mesh.Proper :=
  fun x y _ => starts.idle x y

theorem Starts.owed (starts : mesh.Starts i id replication) (x : NodeName) :
    mesh.owed i x = [] := by
  unfold MappingMesh.owed
  cases there : mesh.nodes x with
  | none => rfl
  | some s =>
    obtain ⟨configured, m, held, -⟩ := starts.configured x s there
    show s.owed i = []
    rw [MappingService.owed_of_held held, (configured.blank.empty held).2.1]
    rfl

theorem Starts.copy (starts : mesh.Starts i id replication) (x : NodeName) :
    mesh.copy i x = ∅ := by
  unfold MappingMesh.copy
  cases there : mesh.nodes x with
  | none => rfl
  | some s =>
    obtain ⟨configured, m, held, -⟩ := starts.configured x s there
    show s.stock i = ∅
    rw [MappingService.stock_of_held held, (configured.blank.empty held).1]

theorem nodes_after (steps : List MeshStep) (x : NodeName) :
    (mesh.after steps).nodes x ≠ none ↔ mesh.nodes x ≠ none := by
  induction steps generalizing mesh with
  | nil => exact Iff.rfl
  | cons step steps ih => exact ih.trans (nodes_step step x)

/-- Nothing is on its way to a node when all is settled. -/
theorem Settled.pending (settled : mesh.Settled i) (proper : mesh.Proper) (id : String)
    (y : NodeName) (present : mesh.nodes x ≠ none) : mesh.pending id y x = [] := by
  rw [MappingMesh.pending]
  by_cases sender : mesh.nodes y = none
  · rw [proper y x (.inr sender)]
    rfl
  · rw [settled.arrived y x sender present]
    rfl

/-- When all is settled, a node has heard from another one what that one had to tell. -/
theorem heard_of_settled (shares : mesh.Shares i id) (proper : mesh.Proper)
    (writable : Writable all) (owes : mesh.owed i y ⊆ all) (makes : mesh.ownOver i y steps ⊆ all)
    (settled : (mesh.after steps).Settled i) (present : mesh.nodes x ≠ none) (ne : y ≠ x)
    (key : Bytes) : lastChange key (madeBy y (mesh.takenOver i id x steps)) =
      lastChange key (mesh.pending id y x ++ (mesh.owed i y ++ mesh.ownOver i y steps)) := by
  rw [conserves shares writable owes makes ne key, settled.told y,
    settled.pending (proper.after steps) id y ((nodes_after steps x).2 present), List.append_nil,
    List.append_nil]

/-- When all is settled, a node holds for each key what the node whose change of it came last gave
it last. -/
theorem copy_of_lastSource (starts : mesh.Starts i id replication)
    (writable : ∀ y, Writable (mesh.ownOver i y steps)) (settled : (mesh.after steps).Settled i)
    (present : mesh.nodes x ≠ none) (key : Bytes) :
    ((mesh.after steps).copy i x)[key]? = (lastSource key (mesh.takenOver i id x steps)).bind
      fun y => (lastChange key (mesh.ownOver i y steps)).join := by
  rw [copy_after starts.shares present, starts.copy, getElem?_foldl_changed]
  cases last : lastSource key (mesh.takenOver i id x steps) with
  | none =>
    rw [lastSource_eq_none_iff.1 last]
    simp
  | some y =>
    have own : lastChange key (madeBy y (mesh.takenOver i id x steps)) =
        lastChange key (mesh.ownOver i y steps) := by
      by_cases same : y = x
      · rw [same, madeBy_self starts.proper]
      · have idle : mesh.pending id y x = [] := by
          rw [MappingMesh.pending, starts.idle]
          rfl
        rw [heard_of_settled starts.shares starts.proper (writable y)
          (starts.owed y ▸ List.nil_subset _) (List.Subset.refl _) settled present same, idle,
          starts.owed]
        rfl
    rw [lastChange_of_lastSource last, own, Option.bind_some]
    cases lastChange key (mesh.ownOver i y steps) with
    | none => simp
    | some value => rfl

/-- A change that crosses no other one comes last everywhere. -/
theorem lastSource_of_hasLastWord (starts : mesh.Starts i id replication)
    (writable : ∀ y, Writable (mesh.ownOver i y steps)) (settled : (mesh.after steps).Settled i)
    (present : mesh.nodes x ≠ none) (word : mesh.HasLastWord i id key steps w) :
    lastSource key (mesh.takenOver i id x steps) = some w := by
  obtain ⟨before, after, rfl, spoken, others⟩ := word
  rw [after_append] at settled
  have shares := starts.shares.after before
  have proper := starts.proper.after before
  have present' := (nodes_after before x).2 present
  have heard : ∀ y, y ≠ x →
      lastChange key (madeBy y ((mesh.after before).takenOver i id x after)) =
        lastChange key ((mesh.after before).pending id y x ++
          ((mesh.after before).owed i y ++ (mesh.after before).ownOver i y after)) := by
    intro y ne
    have owes := owed_after_subset starts.shares before y
    rw [starts.owed, List.nil_append] at owes
    have all := writable y
    rw [ownOver_append] at all
    exact heard_of_settled shares proper all
      (fun change there => List.mem_append_left _ (owes there))
      (List.subset_append_right _ _) settled present' ne key
  -- after that time no change of another node arrives
  have silent : ∀ y, y ≠ w →
      lastChange key (madeBy y ((mesh.after before).takenOver i id x after)) = none := by
    intro y ne
    obtain ⟨arrived, none⟩ := others y ne
    by_cases same : y = x
    · rw [same, madeBy_self proper, ← same, none]
    · rw [Outstanding, not_or, not_exists, not_not] at arrived
      have nothing : lastChange key ((mesh.after before).pending id y x) = Option.none :=
        by_contra fun some => arrived.2 x ⟨present', some⟩
      rw [heard y same, lastChange_append, lastChange_append, none, arrived.1, nothing]
      rfl
  have said : lastChange key (madeBy w ((mesh.after before).takenOver i id x after)) ≠ none := by
    by_cases same : w = x
    · rw [same, madeBy_self proper, ← same]
      exact spoken
    · rw [heard w same, lastChange_append, lastChange_append]
      obtain ⟨value, eq⟩ := Option.ne_none_iff_exists'.1 spoken
      rw [eq]
      exact nofun
  have last : lastSource key ((mesh.after before).takenOver i id x after) = some w := by
    obtain ⟨y, last⟩ := Option.ne_none_iff_exists'.1 (lastSource_ne_none_of_madeBy said)
    by_cases same : y = w
    · rw [last, same]
    · exact absurd (silent y same) (madeBy_of_lastSource last)
  rw [takenOver_append, lastSource_append, last, Option.some_or]

/-- Copies of a replicated mapping, once everything has been told and has arrived: every node holds
for each key what the node whose change of the key reached it last gave the key last, and all nodes
agree in the keys whose last changes crossed no change of another node. -/
theorem copies_settle (starts : mesh.Starts i id replication)
    (writable : ∀ y, Writable (mesh.ownOver i y steps)) (settled : (mesh.after steps).Settled i) :
    (∀ x, mesh.nodes x ≠ none → ∀ key, ((mesh.after steps).copy i x)[key]? =
      (lastSource key (mesh.takenOver i id x steps)).bind
        fun y => (lastChange key (mesh.ownOver i y steps)).join) ∧
    ∀ key w, mesh.HasLastWord i id key steps w → ∀ x, mesh.nodes x ≠ none →
      ((mesh.after steps).copy i x)[key]? = (lastChange key (mesh.ownOver i w steps)).join := by
  have copies := fun x (present : mesh.nodes x ≠ none) =>
    copy_of_lastSource starts writable settled present
  refine ⟨copies, fun key w word x present => ?_⟩
  rw [copies x present key, lastSource_of_hasLastWord starts writable settled present word,
    Option.bind_some]

end Settling

/-- A forced flush leaves nothing to tell. -/
theorem owed_of_forced (shares : mesh.Shares i id) (x : NodeName) (now : Nat) :
    (mesh.step (.flush x now true)).owed i x = [] := by
  cases there : mesh.nodes x with
  | none =>
    show (mesh.act x _).owed i x = []
    rw [act_of_absent there, owed, there]
  | some s =>
    obtain ⟨sound, m, held, -, shared⟩ := shares x s there
    show (mesh.act x _).owed i x = []
    rw [owed, nodes_act_self there]
    show (s.step (.flush now true)).owed i = []
    rw [MappingService.owed_of_turned sound held shared]
    show (m.flushed now true).dirty.toList = []
    unfold Mapping.flushed
    split
    next => rfl
    next kept =>
      rw [Std.ExtTreeMap.toList_eq_nil_iff]
      unfold Mapping.flushes at kept
      split at kept
      next interval kind =>
        rw [Bool.or_true, Bool.and_true, Bool.not_eq_true', Bool.not_eq_false] at kept
        exact Std.ExtTreeMap.isEmpty_iff.1 kept
      next unbatched => exact sound.tidy held unbatched

/-! ## Runs that end with flushes -/

section Flushing

variable {replication : Replication} {early late : List MeshStep}

/-- Flushes and deliveries make no changes of their own. -/
theorem ownOver_of_quiet (quiet : ∀ node call ticket, MeshStep.submit node call ticket ∉ late) :
    mesh.ownOver i x late = [] := by
  induction late generalizing mesh with
  | nil => rfl
  | cons step late ih =>
    rw [ownOver, ih fun node call ticket there =>
      quiet node call ticket (List.mem_cons_of_mem _ there), List.append_nil]
    cases step with
    | submit node call ticket => exact absurd List.mem_cons_self (quiet node call ticket)
    | _ => rfl

/-- A forced flush of a node, with other flushes and deliveries around it, leaves the node nothing
to tell. -/
theorem told_of_forced (shares : mesh.Shares i id)
    (quiet : ∀ node call ticket, MeshStep.submit node call ticket ∉ late) {now : Nat}
    (forced : MeshStep.flush x now true ∈ late) : (mesh.after late).owed i x = [] := by
  obtain ⟨before, rest, rfl⟩ := List.append_of_mem forced
  have kept := owed_after_subset ((shares.after before).step (.flush x now true)) rest x
  rw [owed_of_forced (shares.after before), ownOver_of_quiet fun node call ticket there =>
    quiet node call ticket (List.mem_append_right _ (List.mem_cons_of_mem _ there))] at kept
  rw [after_append]
  exact List.subset_nil.1 kept

/-- Who had the last word on a key has it still after flushes and deliveries. -/
theorem HasLastWord.append (word : mesh.HasLastWord i id key early w)
    (quiet : ∀ node call ticket, MeshStep.submit node call ticket ∉ late) :
    mesh.HasLastWord i id key (early ++ late) w := by
  obtain ⟨before, after, rfl, spoken, others⟩ := word
  have silent (y : NodeName) : (mesh.after before).ownOver i y (after ++ late) =
      (mesh.after before).ownOver i y after := by
    rw [ownOver_append, ownOver_of_quiet quiet, List.append_nil]
  refine ⟨before, after ++ late, List.append_assoc .., (silent w).symm ▸ spoken, fun y ne => ?_⟩
  rw [silent y]
  exact others y ne

/-- Callers change copies of a replicated mapping, and after that every node is made to flush. Once
all news has arrived, copies have come to what the callers made of them: every node holds for each
key what the node whose change of the key reached it last gave the key last, and all nodes agree in
the keys whose last changes crossed no change of another node. -/
theorem copies_after_forced_flushes (starts : mesh.Starts i id replication)
    (writable : ∀ y, Writable (mesh.ownOver i y early))
    (quiet : ∀ node call ticket, MeshStep.submit node call ticket ∉ late)
    (forced : ∀ x, mesh.nodes x ≠ none → ∃ now, MeshStep.flush x now true ∈ late)
    (arrived : ∀ x y, mesh.nodes x ≠ none → mesh.nodes y ≠ none →
      (mesh.after (early ++ late)).links x y = []) :
    (∀ x, mesh.nodes x ≠ none → ∀ key, ((mesh.after (early ++ late)).copy i x)[key]? =
      (lastSource key (mesh.takenOver i id x (early ++ late))).bind
        fun y => (lastChange key (mesh.ownOver i y early)).join) ∧
    ∀ key w, mesh.HasLastWord i id key early w → ∀ x, mesh.nodes x ≠ none →
      ((mesh.after (early ++ late)).copy i x)[key]? =
        (lastChange key (mesh.ownOver i w early)).join := by
  have own (y : NodeName) : mesh.ownOver i y (early ++ late) = mesh.ownOver i y early := by
    rw [ownOver_append, ownOver_of_quiet quiet, List.append_nil]
  have writable : ∀ y, Writable (mesh.ownOver i y (early ++ late)) := fun y => own y ▸ writable y
  have settled : (mesh.after (early ++ late)).Settled i := by
    refine ⟨fun x => ?_, fun x y sender receiver => ?_⟩
    · by_cases present : mesh.nodes x = none
      · have absent := mt (nodes_after (early ++ late) x).1 (not_not.2 present)
        rw [owed, not_not.1 absent]
      · obtain ⟨now, flushed⟩ := forced x present
        rw [after_append]
        exact told_of_forced (starts.shares.after early) quiet flushed
    · exact arrived x y ((nodes_after _ x).1 sender) ((nodes_after _ y).1 receiver)
  have copies (x : NodeName) (present : mesh.nodes x ≠ none) (key : Bytes) :
      ((mesh.after (early ++ late)).copy i x)[key]? =
        (lastSource key (mesh.takenOver i id x (early ++ late))).bind
          fun y => (lastChange key (mesh.ownOver i y early)).join := by
    simpa only [own] using copy_of_lastSource starts writable settled present key
  refine ⟨copies, fun key w word x present => ?_⟩
  rw [copies x present key,
    lastSource_of_hasLastWord starts writable settled present (word.append quiet),
    Option.bind_some]

end Flushing

/-! ## Two nodes -/

/-- A node with one mapping whose changes are told at once. -/
def promptCopy (node : NodeName) : MappingService :=
  ((MappingService.fresh node 1).configure "m" .immediate).2.close

/-- Two nodes with copies of it. -/
def pair : MappingMesh where
  nodes node := if node = "a" ∨ node = "b" then some (promptCopy node) else none
  links _ _ := []

theorem pair_starts : pair.Starts 1 "m" .immediate where
  configured x s there := by
    simp only [pair] at there
    split at there
    next =>
      obtain rfl := Option.some.inj there
      have configured := (MappingService.Configured.fresh x 1).configure "m" .immediate
      exact ⟨configured.close, .fresh "m" 1 .immediate, rfl, rfl, rfl⟩
    next => cases there
  replicated := rfl
  idle _ _ := rfl

theorem present_pair (steps : List MeshStep) (x : NodeName) :
    (pair.after steps).nodes x ≠ none ↔ x = "a" ∨ x = "b" := by
  rw [nodes_after]
  by_cases first : x = "a" <;> simp [pair, first]

/-- The nodes change a key one after the other. -/
def orderedRun : List MeshStep :=
  [.submit "a" (.put 1 [107] [1]) 1, .deliver "a" "b", .submit "b" (.put 1 [107] [2]) 2,
   .deliver "b" "a"]

/-- The nodes change a key at once. -/
def crossingRun : List MeshStep :=
  [.submit "a" (.put 1 [107] [1]) 1, .submit "b" (.put 1 [107] [2]) 2, .flush "a" 0 true,
   .flush "b" 0 true, .deliver "a" "b", .deliver "b" "a"]

theorem settled_of_pair (told : ∀ x, x = "a" ∨ x = "b" → (pair.after steps).owed 1 x = [])
    (arrived : ∀ x y, (x = "a" ∨ x = "b") → (y = "a" ∨ y = "b") →
      (pair.after steps).links x y = []) : (pair.after steps).Settled 1 where
  told x := by
    by_cases there : (pair.after steps).nodes x = none
    · rw [owed, there]
    · exact told x ((present_pair steps x).1 there)
  arrived x y sender receiver :=
    arrived x y ((present_pair steps x).1 sender) ((present_pair steps y).1 receiver)

theorem ownOver_of_absent (absent : mesh.nodes x = none) (steps : List MeshStep) :
    mesh.ownOver i x steps = [] := by
  induction steps generalizing mesh with
  | nil => rfl
  | cons step steps ih =>
    have absent' : (mesh.step step).nodes x = none := not_not.1 fun there =>
      (nodes_step step x).1 there absent
    rw [ownOver, ih absent', List.append_nil]
    cases step with
    | submit node call ticket =>
      rw [own, madeAt, absent]
      exact ite_self _
    | _ => rfl

theorem hasLastWord_orderedRun : pair.HasLastWord 1 "m" [107] orderedRun "b" := by
  refine ⟨orderedRun.take 2, orderedRun.drop 2, rfl, by decide +kernel, fun other ne => ?_⟩
  by_cases there : (pair.after (orderedRun.take 2)).nodes other = none
  · refine ⟨?_, by rw [ownOver_of_absent there]; rfl⟩
    rintro (owes | ⟨target, -, sends⟩)
    · rw [owed, there] at owes
      exact owes rfl
    · rw [pending, pair_starts.proper.after _ other target (.inr there)] at sends
      exact sends rfl
  · obtain rfl := ((present_pair _ other).1 there).resolve_right ne
    refine ⟨?_, by decide +kernel⟩
    rintro (owes | ⟨target, present, sends⟩)
    · exact owes (by decide +kernel)
    · obtain rfl | rfl := (present_pair _ target).1 present
      · exact sends (by decide +kernel)
      · exact sends (by decide +kernel)

theorem copies_settle_in_orderedRun :
    pair.HasLastWord 1 "m" [107] orderedRun "b" ∧ ∀ x, x = "a" ∨ x = "b" →
      ((pair.after orderedRun).copy 1 x)[([107] : Bytes)]? = some [2] := by
  have settled : (pair.after orderedRun).Settled 1 := by
    refine settled_of_pair ?_ ?_
    · rintro x (rfl | rfl) <;> decide +kernel
    · rintro x y (rfl | rfl) (rfl | rfl) <;> decide +kernel
  have writable : ∀ x, Writable (pair.ownOver 1 x orderedRun) := by
    intro x
    by_cases there : pair.nodes x = none
    · rw [ownOver_of_absent there]
      unfold Writable Fit
      decide
    · unfold Writable Fit
      obtain rfl | rfl := (present_pair [] x).1 there <;> decide +kernel
  have agree := (copies_settle pair_starts writable settled).2 [107] "b" hasLastWord_orderedRun
  have value : (lastChange [107] (pair.ownOver 1 "b" orderedRun)).join = some [2] := by
    decide +kernel
  exact ⟨hasLastWord_orderedRun, fun x there =>
    (agree x ((present_pair [] x).2 there)).trans value⟩

/-- The nodes have told each other everything and hold different values. -/
theorem crossing_changes_part_copies :
    pair.Starts 1 "m" .immediate ∧ (pair.after crossingRun).Settled 1 ∧
      ((pair.after crossingRun).copy 1 "a")[([107] : Bytes)]? = some [2] ∧
      ((pair.after crossingRun).copy 1 "b")[([107] : Bytes)]? = some [1] := by
  refine ⟨pair_starts, settled_of_pair ?_ ?_, ?_, ?_⟩
  · rintro x (rfl | rfl) <;> decide +kernel
  · rintro x y (rfl | rfl) (rfl | rfl) <;> decide +kernel
  · decide +kernel
  · decide +kernel

end MappingMesh

end Cohort

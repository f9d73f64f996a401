import Cohort.Proofs.Mapping.Telling

/-!
# Copies that change each other

Nodes with copies of a replicated mapping, joined by links that keep what is sent over them in
order. What a node changes it tells every other node; what a node hears it makes and does not pass
on.

Nothing gets lost on the way: what a node has changed comes to what another one has heard of it and
what it still has not, and a copy is what the changes that reached it make of it.

## Main definitions

* `MappingMesh`, `MappingMesh.step`, `MappingMesh.after`: copies and the links between them.
* `MappingMesh.ownOver`, `MappingMesh.takenOver`: the changes that callers at a node make, and those
  that reach it.
* `MappingMesh.owed`, `MappingMesh.pending`: the changes that a node has not told, and those on
  their way.

## Main statements

* `MappingMesh.conserves`: what a node changed, another was told, or will be.
* `MappingMesh.copy_after`: a copy is what the changes that reach it make of it.
-/

namespace Cohort

/-- Services of several nodes, and the events on their way from one to another. -/
structure MappingMesh where
  nodes : NodeName → Option MappingService
  links : NodeName → NodeName → List NodeEvent

/-- What can happen between copies of mappings. -/
inductive MeshStep where
  /-- A caller calls on a mapping at a node. -/
  | submit (node : NodeName) (call : MappingCall) (ticket : Ticket)
  /-- It is time for a node to tell the others of changes. -/
  | flush (node : NodeName) (now : Nat) (force : Bool)
  /-- What is at the head of a link arrives. -/
  | deliver (source target : NodeName)

namespace MappingMesh

open MappingService (stepAt emittedAt)

variable {mesh : MappingMesh} {i : UInt16} {id : String} {key : Bytes} {x y w : NodeName}
  {s : MappingService} {steps : List MeshStep} {all : List Change}

/-- Something happens to a node, and what it publishes goes to every other node. -/
def act (mesh : MappingMesh) (node : NodeName) (op : MappingOp) : MappingMesh where
  nodes := stepAt mesh.nodes node op
  links source target :=
    if source = node ∧ target ≠ node then
      mesh.links source target ++ (emittedAt mesh.nodes node op).filterMap MappingEffect.event?
    else mesh.links source target

/-- The mesh with only so much on a link. -/
def left (mesh : MappingMesh) (source target : NodeName) (rest : List NodeEvent) : MappingMesh :=
  { mesh with links := fun a b => if a = source ∧ b = target then rest else mesh.links a b }

/-- What is at the head of a link reaches its target, if anything is on it. -/
def deliver (mesh : MappingMesh) (source target : NodeName) : MappingMesh :=
  match mesh.links source target with
  | event :: rest => (mesh.left source target rest).act target (.hear event)
  | [] => mesh

/-- The mesh after something happened. -/
def step (mesh : MappingMesh) : MeshStep → MappingMesh
  | .submit node call ticket => mesh.act node (.submit call ticket)
  | .flush node now force => mesh.act node (.flush now force)
  | .deliver source target => mesh.deliver source target

/-- The mesh after a run. -/
def after (mesh : MappingMesh) (steps : List MeshStep) : MappingMesh := steps.foldl step mesh

theorem after_append (mesh : MappingMesh) (steps steps' : List MeshStep) :
    mesh.after (steps ++ steps') = (mesh.after steps).after steps' :=
  List.foldl_append

/-- The changes of a mapping that a node has not told the others yet. -/
def owed (mesh : MappingMesh) (i : UInt16) (node : NodeName) : List Change :=
  match mesh.nodes node with
  | some s => s.owed i
  | none => []

/-- The changes of a mapping that are on their way from one node to another. -/
def pending (mesh : MappingMesh) (id : String) (source target : NodeName) : List Change :=
  (mesh.links source target).flatMap (NodeEvent.newsOf id)

/-- The changes of a mapping that a node makes when something happens to another one, or itself. -/
def madeAt (mesh : MappingMesh) (i : UInt16) (node other : NodeName) (op : MappingOp) :
    List Change :=
  if other = node then
    match mesh.nodes node with
    | some s => s.madeOn i op
    | none => []
  else []

/-- The changes of a mapping that callers at a node make by a step. -/
def own (mesh : MappingMesh) (i : UInt16) (node : NodeName) : MeshStep → List Change
  | .submit other call ticket => mesh.madeAt i node other (.submit call ticket)
  | _ => []

/-- The changes of a mapping that reach a node by a step, with the node that made them. -/
def taken (mesh : MappingMesh) (i : UInt16) (id : String) (node : NodeName) :
    MeshStep → List (NodeName × Change)
  | .deliver source target =>
    if target = node then
      match mesh.links source target with
      | event :: _ => (event.newsOf id).map fun change => (source, change)
      | [] => []
    else []
  | step => (mesh.own i node step).map fun change => (node, change)

/-- The changes of a mapping that callers at a node make by a run. -/
def ownOver (mesh : MappingMesh) (i : UInt16) (node : NodeName) : List MeshStep → List Change
  | [] => []
  | step :: steps => mesh.own i node step ++ (mesh.step step).ownOver i node steps

/-- The changes of a mapping that reach a node by a run, with the nodes that made them. -/
def takenOver (mesh : MappingMesh) (i : UInt16) (id : String) (node : NodeName) :
    List MeshStep → List (NodeName × Change)
  | [] => []
  | step :: steps => mesh.taken i id node step ++ (mesh.step step).takenOver i id node steps

/-- The changes that a certain node made among others. -/
def madeBy (source : NodeName) (taken : List (NodeName × Change)) : List Change :=
  (taken.filter fun entry => entry.1 = source).map Prod.snd

/-- The entries of a mapping that are kept at a node. -/
def copy (mesh : MappingMesh) (i : UInt16) (node : NodeName) : Entries :=
  match mesh.nodes node with
  | some s => s.stock i
  | none => ∅

/-- Every node keeps a copy of a mapping. -/
def Shares (mesh : MappingMesh) (i : UInt16) (id : String) : Prop :=
  ∀ x s, mesh.nodes x = some s → s.Sound ∧ ∃ m : Mapping, s.mappings[i]? = some m ∧ m.id = id ∧
    m.replication.isReplicated = true

/-! ## Lists of changes with their sources -/

theorem madeBy_append (source : NodeName) (taken taken' : List (NodeName × Change)) :
    madeBy source (taken ++ taken') = madeBy source taken ++ madeBy source taken' := by
  simp [madeBy]

@[simp] theorem madeBy_map_self (source : NodeName) (changes : List Change) :
    madeBy source (changes.map fun change => (source, change)) = changes := by
  simp [madeBy, List.filter_map, Function.comp_def]

theorem madeBy_map_of_ne {source other : NodeName} (ne : other ≠ source) (changes : List Change) :
    madeBy source (changes.map fun change => (other, change)) = [] := by
  simp [madeBy, List.filter_map, Function.comp_def, ne]

/-! ## Steps -/

theorem act_of_absent (absent : mesh.nodes x = none) (op : MappingOp) : mesh.act x op = mesh := by
  simp [act, MappingService.stepAt_of_absent absent, MappingService.emittedAt_of_absent absent]

theorem nodes_act_self (there : mesh.nodes x = some s) (op : MappingOp) :
    (mesh.act x op).nodes x = some (s.step op) :=
  MappingService.stepAt_self there op

theorem nodes_act_of_ne (ne : y ≠ x) (op : MappingOp) : (mesh.act x op).nodes y = mesh.nodes y :=
  MappingService.stepAt_of_ne ne op

theorem links_act (there : mesh.nodes x = some s) (op : MappingOp) (a b : NodeName) :
    (mesh.act x op).links a b =
      if a = x ∧ b ≠ x then mesh.links a b ++ s.broadcasts op else mesh.links a b := by
  simp only [act, MappingService.emittedAt_of_there there, MappingService.broadcasts]

theorem Shares.act (shares : mesh.Shares i id) (x : NodeName) (op : MappingOp) :
    (mesh.act x op).Shares i id := by
  intro y t found
  obtain ⟨-, before⟩ | ⟨s, there, rfl, rfl⟩ := MappingService.of_stepAt found
  · exact shares y t before
  · obtain ⟨sound, m, held, named, shared⟩ := shares _ s there
    obtain ⟨m', held', label⟩ := MappingService.held_step sound held op
    refine ⟨sound.step op, m', held', (Mapping.id_of_label label).trans named, ?_⟩
    rwa [Mapping.replication_of_label label]

theorem Shares.step (shares : mesh.Shares i id) (step : MeshStep) :
    (mesh.step step).Shares i id := by
  cases step with
  | submit node call ticket => exact shares.act node _
  | flush node now force => exact shares.act node _
  | deliver source target =>
    simp only [MappingMesh.step, MappingMesh.deliver]
    split
    next event rest on =>
      have shares' : (mesh.left source target rest).Shares i id := shares
      exact shares'.act target (.hear event)
    next => exact shares

theorem Shares.after (shares : mesh.Shares i id) (steps : List MeshStep) :
    (mesh.after steps).Shares i id := by
  induction steps generalizing mesh with
  | nil => exact shares
  | cons step steps ih => exact ih (shares.step step)

theorem owed_of_there (there : mesh.nodes x = some s) : mesh.owed i x = s.owed i := by
  rw [owed, there]

theorem madeAt_self (there : mesh.nodes x = some s) (op : MappingOp) :
    mesh.madeAt i x x op = s.madeOn i op := by
  rw [madeAt, if_pos rfl, there]

theorem madeAt_of_ne (ne : y ≠ x) (op : MappingOp) : mesh.madeAt i x y op = [] := if_neg ne

theorem owed_act_of_ne (ne : y ≠ x) (op : MappingOp) :
    (mesh.act x op).owed i y = mesh.owed i y := by
  rw [owed, owed, nodes_act_of_ne ne]

theorem pending_act_of_ne (ne : y ≠ x) (op : MappingOp) :
    (mesh.act x op).pending id y w = mesh.pending id y w := by
  have same : (mesh.act x op).links y w = mesh.links y w := if_neg fun both => ne both.1
  rw [pending, pending, same]

theorem pending_left (mesh : MappingMesh) (source target : NodeName) (rest : List NodeEvent)
    (id : String) (a b : NodeName) : (mesh.left source target rest).pending id a b =
      if a = source ∧ b = target then rest.flatMap (NodeEvent.newsOf id)
      else mesh.pending id a b := by
  show (if a = source ∧ b = target then rest else mesh.links a b).flatMap _ = _
  split <;> rfl

/-- What a node does on its own account it tells each of the others, or keeps for later. -/
theorem conserves_act {op : MappingOp} (shares : mesh.Shares i id) (writable : Writable all)
    (owes : mesh.owed i y ⊆ all) (makes : mesh.madeAt i y y op ⊆ all) (ne : y ≠ x)
    (concerns : op.isLocal = true ∨ ∃ event, op = .hear event) (key : Bytes) :
    lastChange key (mesh.pending id y x ++ (mesh.owed i y ++ mesh.madeAt i y y op)) =
      lastChange key ((mesh.act y op).pending id y x ++ (mesh.act y op).owed i y) := by
  cases there : mesh.nodes y with
  | none =>
    rw [act_of_absent there]
    simp [madeAt, there]
  | some s =>
    obtain ⟨sound, m, held, rfl, shared⟩ := shares y s there
    rw [owed_of_there there] at owes ⊢
    rw [madeAt_self there] at makes ⊢
    have told := MappingService.owed_step sound held shared writable owes makes concerns key
    have owed' : (mesh.act y op).owed i y = (s.step op).owed i := by
      rw [owed, nodes_act_self there]
    have pending' : (mesh.act y op).pending m.id y x = mesh.pending m.id y x ++
        (s.broadcasts op).flatMap (NodeEvent.newsOf m.id) := by
      rw [pending, links_act there, if_pos ⟨rfl, ne.symm⟩, List.flatMap_append, pending]
    rw [owed', pending', lastChange_append, told, ← lastChange_append, List.append_assoc]

theorem madeAt_of_not_submit {op : MappingOp} (silent : ∀ s : MappingService, s.madeOn i op = []) :
    mesh.madeAt i x y op = [] := by
  unfold madeAt
  split
  · split
    · exact silent _
    · rfl
  · rfl

/-- What a node has changed and another has not heard of comes, after a step, to what the other one
has heard by it and what it still has not. -/
theorem conserves_step (shares : mesh.Shares i id) (writable : Writable all)
    (owes : mesh.owed i y ⊆ all) (step : MeshStep) (makes : mesh.own i y step ⊆ all) (ne : y ≠ x)
    (key : Bytes) :
    lastChange key (mesh.pending id y x ++ (mesh.owed i y ++ mesh.own i y step)) =
      lastChange key (madeBy y (mesh.taken i id x step) ++
        ((mesh.step step).pending id y x ++ (mesh.step step).owed i y)) := by
  -- what happens on the account of one node, which no other one has heard of yet
  have acted : ∀ (other : NodeName) (op : MappingOp), op.isLocal = true →
      mesh.madeAt i y other op ⊆ all →
      lastChange key (mesh.pending id y x ++ (mesh.owed i y ++ mesh.madeAt i y other op)) =
        lastChange key ((mesh.act other op).pending id y x ++ (mesh.act other op).owed i y) := by
    intro other op here makes
    by_cases same : other = y
    · subst same
      exact conserves_act shares writable owes makes ne (.inl here) key
    · rw [madeAt_of_ne same, List.append_nil, pending_act_of_ne (Ne.symm same),
        owed_act_of_ne (Ne.symm same)]
  cases step with
  | submit other call ticket =>
    have untold : madeBy y (mesh.taken i id x (.submit other call ticket)) = [] :=
      madeBy_map_of_ne (Ne.symm ne) _
    rw [untold]
    exact acted other (.submit call ticket) rfl makes
  | flush other now force =>
    have none : mesh.madeAt i y other (.flush now force) = [] := madeAt_of_not_submit fun s => rfl
    have same := acted other (.flush now force) rfl (none ▸ List.nil_subset _)
    rw [none] at same
    exact same
  | deliver source target =>
    show lastChange key (mesh.pending id y x ++ (mesh.owed i y ++ [])) = _
    rw [List.append_nil]
    simp only [MappingMesh.step, MappingMesh.deliver, taken]
    cases on : mesh.links source target with
    | nil => simp [madeBy]
    | cons event rest =>
      simp only
      -- the link is shorter by what arrives
      have shorter : (mesh.left source target rest).Shares i id := shares
      set left := mesh.left source target rest
      have heard : lastChange key (left.pending id y x ++ mesh.owed i y) =
          lastChange key ((left.act target (.hear event)).pending id y x ++
            (left.act target (.hear event)).owed i y) := by
        by_cases same : target = y
        · subst same
          have none : (mesh.left source target rest).madeAt i target target (.hear event) = [] :=
            madeAt_of_not_submit fun s => rfl
          have told := conserves_act shorter writable owes (none ▸ List.nil_subset _) ne
            (.inr ⟨event, rfl⟩) key
          rw [none, List.append_nil] at told
          exact told
        · rw [pending_act_of_ne (Ne.symm same), owed_act_of_ne (Ne.symm same)]
          rfl
      have arrives : mesh.pending id y x =
          madeBy y
            (if target = x then (event.newsOf id).map fun change => (source, change) else []) ++
            (mesh.left source target rest).pending id y x := by
        by_cases mine : y = source ∧ x = target
        · obtain ⟨rfl, rfl⟩ := mine
          rw [if_pos rfl, pending_left, if_pos ⟨rfl, rfl⟩, madeBy_map_self, pending, on,
            List.flatMap_cons]
        · rw [pending_left, if_neg mine]
          by_cases here : target = x
          · rw [if_pos here, madeBy_map_of_ne, List.nil_append]
            rintro rfl
            exact mine ⟨rfl, here.symm⟩
          · rw [if_neg here]
            rfl
      rw [arrives, List.append_assoc, lastChange_append, heard, ← lastChange_append]

theorem owed_step_subset (shares : mesh.Shares i id) (step : MeshStep) (y : NodeName) :
    (mesh.step step).owed i y ⊆ mesh.owed i y ++ mesh.own i y step := by
  have acted : ∀ (mesh : MappingMesh) (other : NodeName) (op : MappingOp), mesh.Shares i id →
      (op.isLocal = true ∨ ∃ event, op = .hear event) →
      (mesh.act other op).owed i y ⊆ mesh.owed i y ++ mesh.madeAt i y other op := by
    intro mesh other op shares concerns
    by_cases same : other = y
    · subst same
      cases there : mesh.nodes other with
      | none =>
        rw [act_of_absent there]
        exact List.subset_append_left _ _
      | some s =>
        obtain ⟨sound, m, held, -, shared⟩ := shares other s there
        rw [owed_of_there there, madeAt_self there, owed, nodes_act_self there]
        exact MappingService.owed_step_subset sound held shared concerns
    · rw [owed_act_of_ne (Ne.symm same)]
      exact List.subset_append_left _ _
  cases step with
  | submit other call ticket => exact acted mesh other _ shares (.inl rfl)
  | flush other now force =>
    have kept := acted mesh other (.flush now force) shares (.inl rfl)
    rwa [madeAt_of_not_submit fun s => rfl] at kept
  | deliver source target =>
    simp only [MappingMesh.step, MappingMesh.deliver]
    split
    next event rest on =>
      have shorter : (mesh.left source target rest).Shares i id := shares
      have kept := acted _ target (.hear event) shorter (.inr ⟨event, rfl⟩)
      rwa [madeAt_of_not_submit fun s => rfl] at kept
    next => exact List.subset_append_left _ _

theorem nodes_step (step : MeshStep) (x : NodeName) :
    (mesh.step step).nodes x ≠ none ↔ mesh.nodes x ≠ none := by
  have acted : ∀ (mesh : MappingMesh) (other : NodeName) (op : MappingOp),
      (mesh.act other op).nodes x ≠ none ↔ mesh.nodes x ≠ none :=
    fun mesh other op => MappingService.stepAt_eq_none_iff.not
  cases step with
  | submit other call ticket => exact acted mesh other _
  | flush other now force => exact acted mesh other _
  | deliver source target =>
    simp only [MappingMesh.step, MappingMesh.deliver]
    split
    · exact acted _ target _
    · exact Iff.rfl

/-! ## Runs -/

/-- What a node has changed and another had not heard of comes, after a run, to what the other one
has heard by it and what it still has not. -/
theorem conserves (shares : mesh.Shares i id) (writable : Writable all)
    (owes : mesh.owed i y ⊆ all) (makes : mesh.ownOver i y steps ⊆ all) (ne : y ≠ x)
    (key : Bytes) :
    lastChange key (mesh.pending id y x ++ (mesh.owed i y ++ mesh.ownOver i y steps)) =
      lastChange key (madeBy y (mesh.takenOver i id x steps) ++
        ((mesh.after steps).pending id y x ++ (mesh.after steps).owed i y)) := by
  induction steps generalizing mesh with
  | nil =>
    show lastChange key (_ ++ (_ ++ [])) = lastChange key ([] ++ _)
    rw [List.append_nil]
    rfl
  | cons step steps ih =>
    obtain ⟨first, later⟩ := List.append_subset.1 makes
    have one := conserves_step shares writable owes step first ne key
    have owes' : (mesh.step step).owed i y ⊆ all := fun change there =>
      List.append_subset.2 ⟨owes, first⟩ (owed_step_subset shares step y there)
    have rest := ih (shares.step step) owes' later
    calc lastChange key (mesh.pending id y x ++
          (mesh.owed i y ++ (mesh.own i y step ++ (mesh.step step).ownOver i y steps)))
        = lastChange key ((mesh.pending id y x ++ (mesh.owed i y ++ mesh.own i y step)) ++
            (mesh.step step).ownOver i y steps) := by simp only [List.append_assoc]
      _ = lastChange key (madeBy y (mesh.taken i id x step) ++ ((mesh.step step).pending id y x ++
            ((mesh.step step).owed i y ++ (mesh.step step).ownOver i y steps))) := by
        rw [lastChange_append, one, ← lastChange_append]
        simp only [List.append_assoc]
      _ = lastChange key (madeBy y (mesh.takenOver i id x (step :: steps)) ++
            ((mesh.after (step :: steps)).pending id y x ++
              (mesh.after (step :: steps)).owed i y)) := by
        rw [lastChange_append, rest, ← lastChange_append, takenOver, madeBy_append,
          List.append_assoc]
        rfl

theorem takenOver_append (mesh : MappingMesh) (i : UInt16) (id : String) (x : NodeName)
    (steps steps' : List MeshStep) : mesh.takenOver i id x (steps ++ steps') =
      mesh.takenOver i id x steps ++ (mesh.after steps).takenOver i id x steps' := by
  induction steps generalizing mesh with
  | nil => rfl
  | cons step steps ih =>
    rw [List.cons_append, takenOver, takenOver, ih, List.append_assoc]
    rfl

theorem ownOver_append (mesh : MappingMesh) (i : UInt16) (x : NodeName)
    (steps steps' : List MeshStep) : mesh.ownOver i x (steps ++ steps') =
      mesh.ownOver i x steps ++ (mesh.after steps).ownOver i x steps' := by
  induction steps generalizing mesh with
  | nil => rfl
  | cons step steps ih =>
    rw [List.cons_append, ownOver, ownOver, ih, List.append_assoc]
    rfl

theorem owed_after_subset (shares : mesh.Shares i id) (steps : List MeshStep) (y : NodeName) :
    (mesh.after steps).owed i y ⊆ mesh.owed i y ++ mesh.ownOver i y steps := by
  induction steps generalizing mesh with
  | nil => exact List.subset_append_left _ _
  | cons step steps ih =>
    intro change there
    obtain owed | made := List.mem_append.1 (ih (shares.step step) there)
    · rw [ownOver, ← List.append_assoc]
      exact List.mem_append_left _ (owed_step_subset shares step y owed)
    · rw [ownOver]
      exact List.mem_append_right _ (List.mem_append_right _ made)

/-- The changes of a mapping that something happening to one node makes at another, or itself. -/
theorem copy_act {op : MappingOp} (shares : mesh.Shares i id) (there : mesh.nodes x = some s)
    (other : NodeName) : (mesh.act other op).copy i x =
      (if other = x then s.changesOn i op else []).foldl Mapping.changed (s.stock i) := by
  by_cases same : other = x
  · subst same
    obtain ⟨sound, m, held, -, shared⟩ := shares other s there
    rw [copy, nodes_act_self there, if_pos rfl]
    exact MappingService.stock_step_of_replicated sound held shared op
  · rw [if_neg same, copy, nodes_act_of_ne (Ne.symm same), there]
    rfl

/-- A copy is what the changes that reach it make of it. -/
theorem copy_step (shares : mesh.Shares i id) (there : mesh.nodes x = some s) (step : MeshStep) :
    (mesh.step step).copy i x =
      ((mesh.taken i id x step).map Prod.snd).foldl Mapping.changed (s.stock i) := by
  have sources : ∀ (source : NodeName) (changes : List Change),
      (changes.map fun change => (source, change)).map Prod.snd = changes := by
    intro source changes
    rw [List.map_map]
    exact List.map_id _
  cases step with
  | submit other call ticket =>
    refine (copy_act shares there other).trans ?_
    rw [taken, own, sources, madeAt, there, MappingService.changesOn_of_local rfl]
    exact fun _ _ eq => by cases eq
  | flush other now force =>
    refine (copy_act shares there other).trans ?_
    have none : s.changesOn i (.flush now force) = [] := rfl
    rw [none, ite_self]
    rfl
  | deliver source target =>
    simp only [MappingMesh.step, MappingMesh.deliver, taken]
    cases on : mesh.links source target with
    | nil => simp [copy, there]
    | cons event rest =>
      have shorter : (mesh.left source target rest).Shares i id := shares
      have there' : (mesh.left source target rest).nodes x = some s := there
      obtain ⟨-, m, held, named, -⟩ := shares x s there
      have heard : s.changesOn i (.hear event) = event.newsOf id := by
        simp [MappingService.changesOn, MappingService.madeOn, MappingService.heardOn, held, named]
      refine (copy_act shorter there' target).trans ?_
      rw [heard]
      by_cases here : target = x
      · simp only [if_pos here, sources]
      · simp only [if_neg here, List.map_nil]

theorem copy_after (shares : mesh.Shares i id) (present : mesh.nodes x ≠ none)
    (steps : List MeshStep) : (mesh.after steps).copy i x =
      ((mesh.takenOver i id x steps).map Prod.snd).foldl Mapping.changed (mesh.copy i x) := by
  induction steps generalizing mesh with
  | nil => rfl
  | cons step steps ih =>
    obtain ⟨s, there⟩ := Option.ne_none_iff_exists'.1 present
    have one := copy_step shares there step
    have rest := ih (shares.step step) ((nodes_step step x).2 present)
    rw [takenOver, List.map_append, List.foldl_append]
    have before : mesh.copy i x = s.stock i := by rw [copy, there]
    rw [before, ← one]
    exact rest

/-! ## Where a change comes from -/

/-- Nothing is on the link of a node to itself, and nothing comes from a node that is not there. -/
def Proper (mesh : MappingMesh) : Prop :=
  ∀ x y, x = y ∨ mesh.nodes x = none → mesh.links x y = []

theorem Proper.act (proper : mesh.Proper) (x : NodeName) (op : MappingOp) :
    (mesh.act x op).Proper := by
  intro a b apart
  replace apart : a = b ∨ mesh.nodes a = none :=
    apart.imp_right MappingService.stepAt_eq_none_iff.1
  show (if a = x ∧ b ≠ x then mesh.links a b ++ _ else mesh.links a b) = []
  rw [proper a b apart]
  split
  next both =>
    obtain ⟨rfl, ne⟩ := both
    rw [MappingService.emittedAt_of_absent (apart.resolve_left (Ne.symm ne))]
    rfl
  next => rfl

theorem Proper.step (proper : mesh.Proper) (step : MeshStep) : (mesh.step step).Proper := by
  cases step with
  | submit other call ticket => exact proper.act other _
  | flush other now force => exact proper.act other _
  | deliver source target =>
    simp only [MappingMesh.step, MappingMesh.deliver]
    split
    next event rest on =>
      refine Proper.act ?_ target _
      intro a b apart
      have before := proper a b apart
      show (if a = source ∧ b = target then rest else mesh.links a b) = []
      split
      next both =>
        obtain ⟨rfl, rfl⟩ := both
        rw [on] at before
        cases before
      next => exact before
    next => exact proper

theorem Proper.after (proper : mesh.Proper) (steps : List MeshStep) :
    (mesh.after steps).Proper := by
  induction steps generalizing mesh with
  | nil => exact proper
  | cons step steps ih => exact ih (proper.step step)

/-- A node makes by itself just what its callers ask for. -/
theorem madeBy_self (proper : mesh.Proper) (steps : List MeshStep) :
    madeBy x (mesh.takenOver i id x steps) = mesh.ownOver i x steps := by
  induction steps generalizing mesh with
  | nil => rfl
  | cons step steps ih =>
    rw [takenOver, ownOver, madeBy_append, ih (proper.step step)]
    congr 1
    cases step with
    | deliver source target =>
      simp only [taken]
      by_cases here : target = x
      · rw [if_pos here]
        cases on : mesh.links source target with
        | nil => rfl
        | cons event rest =>
          refine madeBy_map_of_ne ?_ _
          rintro rfl
          rw [proper source target (.inl here.symm)] at on
          cases on
      · rw [if_neg here]
        rfl
    | _ => exact madeBy_map_self x _

end MappingMesh

end Cohort

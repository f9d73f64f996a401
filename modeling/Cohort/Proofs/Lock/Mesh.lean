import Cohort.Proofs.Lock.Links
import Cohort.Proofs.Lock.Scene

/-!
# Clusters in which everybody follows everybody

A cluster that starts from `LockCluster.ofNodes`, and in which no node dies and no timer runs out,
stays `Meshed`. Cutting it down to one lock gives a scene, and each of its steps is a step of that
scene.

## Main definitions

* `LockCluster.scene`: the scene of a lock.
* `LockCluster.Meshed`: everybody follows everybody.
* `ClusterStep.Asks`: calls of callers, and deliveries.
* `LockCluster.run`, `LockCluster.chronicle`: several steps, and what was said on the way.

## Main statements

* `LockCluster.Meshed.step`: calls and deliveries keep a cluster meshed, and are steps of the scene
  of every lock.
* `LockCluster.meshed_ofNodes`, `LockCluster.scene_ofNodes`: how it starts.
-/

namespace Cohort

open Lock (Standing Stage Saying Signal Initiative Deed Deeds Hearing Response Chronicle Scene)

/-- What is said about a lock by what is on a link. -/
def LockWire.signal? (lock : Lock) : LockWire → Option Signal
  | .event news => news.signal? lock
  | .ratify other acquire => if other = lock then some (.consents acquire) else none

namespace LockCluster

variable {c : LockCluster} {t : Arbitrator}

/-! ### The scene of a lock -/

/-- The scene of a lock, with what is remembered of the past. -/
def scene (c : LockCluster) (lock : Lock) (h : Chronicle) : Scene where
  node k := match c.nodes[k]? with
    | some t => t.standing lock
    | none => ⟨False, ∅, .idle⟩
  link p q := (c.wires p q).filterMap (LockWire.signal? lock)
  chronicle := h

theorem node_scene {k : NodeName} (here : c.nodes[k]? = some t) (lock : Lock) (h : Chronicle) :
    (c.scene lock h).node k = t.standing lock := by
  simp [scene, here]

theorem signal?_wire? (lock : Lock) (q : NodeName) (effect : LockEffect) :
    (effect.wire? true q).bind (LockWire.signal? lock) =
      (effect.saying? lock).bind (Saying.signalTo? q) := by
  cases effect with
  | publish event =>
    cases said : event.signal? lock <;>
      simp [LockEffect.wire?, LockEffect.saying?, LockWire.signal?, said, Saying.signalTo?]
  | ratify peer other acquire =>
    by_cases target : peer = q <;> by_cases eq : other = lock <;>
      simp [LockEffect.wire?, LockEffect.saying?, LockWire.signal?, target, eq, Saying.signalTo?]
  | lost other =>
    by_cases eq : other = lock <;>
      simp [LockEffect.wire?, LockEffect.saying?, eq, Saying.signalTo?]
  | startTimer | answer => rfl

/-- What an outbox puts on the link to a follower says what the outbox says to it. -/
theorem signals_of_outbox (t : Arbitrator) (lock : Lock) (q : NodeName) :
    (t.outbox.filterMap (LockEffect.wire? true q)).filterMap (LockWire.signal? lock) =
      (t.sayings lock).filterMap (Saying.signalTo? q) := by
  rw [Arbitrator.sayings, List.filterMap_filterMap, List.filterMap_filterMap]
  congr 1
  funext effect
  exact signal?_wire? lock q effect

end LockCluster

/-- The table of a node of a cluster in which everybody follows everybody. -/
structure Arbitrator.Member (names : NameSet) (outranks : Precedence) (k : NodeName)
    (t : Arbitrator) : Prop where
  node : t.node = k
  subscribers : ∀ m, m ∈ t.subscribers ↔ m ∈ names ∧ m ≠ k
  outranks : t.outranks = outranks

namespace LockCluster

/-- Everybody follows everybody, by the same precedence, and nothing is left to be done. -/
structure Meshed (names : NameSet) (outranks : Precedence) (c : LockCluster) : Prop where
  nodes : ∀ k, k ∈ c.nodes ↔ k ∈ names
  member : ∀ (k : NodeName) (t : Arbitrator), c.nodes[k]? = some t → t.Member names outranks k
  outbox : ∀ (k : NodeName) (t : Arbitrator), c.nodes[k]? = some t → t.outbox = []
  wires : ∀ p q, c.wires p q ≠ [] → p ∈ names ∧ q ∈ names ∧ p ≠ q

variable {c : LockCluster} {names : NameSet} {outranks : Precedence} {k p q : NodeName}
  {t : Arbitrator} {op : LockOp} {free : Initiative → Prop}

namespace Meshed

theorem reaches_iff (mesh : c.Meshed names outranks) :
    c.reaches k q = true ↔ q ∈ names ∧ q ≠ k := by
  simp [reaches, mesh.nodes]

/-- An operation that consents only to other nodes of the cluster keeps it meshed. -/
theorem act (mesh : c.Meshed names outranks) (here : c.nodes[k]? = some t)
    (member : (t.step op).Member names outranks k)
    (consents : ∀ peer lock acquire, .ratify peer lock acquire ∈ (t.step op).outbox →
      peer ∈ names ∧ peer ≠ k) : (c.act k op).Meshed names outranks where
  nodes k' := by rw [mem_nodes_act here, mesh.nodes]
  member k' t' here' := by
    rw [nodes_act here, Std.ExtTreeMap.getElem?_insert] at here'
    split at here'
    next eq =>
      obtain rfl := Std.LawfulEqOrd.eq_of_compare eq
      obtain rfl := Option.some.inj here'
      exact ⟨member.node, member.subscribers, member.outranks⟩
    next => exact mesh.member k' t' here'
  outbox k' t' here' := by
    rw [nodes_act here, Std.ExtTreeMap.getElem?_insert] at here'
    split at here'
    next => obtain rfl := Option.some.inj here'; rfl
    next => exact mesh.outbox k' t' here'
  wires p q nonempty := by
    by_cases old : c.wires p q = []
    · rw [wires_act here, old, List.nil_append] at nonempty
      split at nonempty
      next eq =>
        subst eq
        have present : k ∈ names :=
          (mesh.nodes k).1 (Std.ExtTreeMap.mem_iff_isSome_getElem?.2 (by simp [here]))
        obtain ⟨wire, sent⟩ := List.exists_mem_of_ne_nil _ nonempty
        obtain ⟨effect, wanted, put⟩ := List.mem_filterMap.1 sent
        have target : q ∈ names ∧ q ≠ k := by
          obtain follower | ⟨lock, acquire, rfl⟩ := LockEffect.of_wire? put
          · exact mesh.reaches_iff.1 follower
          · exact consents q lock acquire wanted
        exact ⟨present, target.1, target.2.symm⟩
      next => exact absurd rfl nonempty
    · exact mesh.wires p q old

/-- An operation of a node is an act of it in the scene of every lock. -/
theorem scene_act (mesh : c.Meshed names outranks) (here : c.nodes[k]? = some t)
    (consents : ∀ peer lock acquire, .ratify peer lock acquire ∈ (t.step op).outbox →
      peer ∈ names ∧ peer ≠ k) (lock : Lock) (h : Chronicle) :
    (c.act k op).scene lock (h.notes k ((t.step op).sayings lock)) =
      (c.scene lock h).act names k ((t.step op).standing lock) ((t.step op).sayings lock) := by
  have node : ((c.act k op).scene lock (h.notes k ((t.step op).sayings lock))).node =
      Function.update (c.scene lock h).node k ((t.step op).standing lock) := by
    funext k'
    by_cases eq : k = k'
    · subst eq
      simp only [scene, nodes_act here, Std.ExtTreeMap.getElem?_insert_self,
        Function.update_self]
      rfl
    · simp only [scene, nodes_act here, Std.ExtTreeMap.getElem?_insert,
        Std.compare_eq_iff_eq, eq, if_false, Function.update_of_ne (Ne.symm eq)]
  have link : ∀ p q, ((c.act k op).scene lock (h.notes k ((t.step op).sayings lock))).link p q =
      if p = k ∧ q ∈ names ∧ q ≠ k then
        (c.scene lock h).link p q ++ ((t.step op).sayings lock).filterMap (Saying.signalTo? q)
      else (c.scene lock h).link p q := by
    intro p q
    simp only [scene, wires_act here, List.filterMap_append]
    by_cases source : k = p
    · subst source
      by_cases target : q ∈ names ∧ q ≠ k
      · rw [if_pos rfl, if_pos ⟨rfl, target⟩, mesh.reaches_iff.2 target, signals_of_outbox]
      · have silent : (t.step op).outbox.filterMap (LockEffect.wire? (c.reaches k q) q) = [] := by
          refine List.filterMap_eq_nil_iff.2 fun effect wanted => ?_
          refine Option.eq_none_iff_forall_ne_some.2 fun wire put => ?_
          obtain follower | ⟨other, acquire, rfl⟩ := LockEffect.of_wire? put
          · exact target (mesh.reaches_iff.1 follower)
          · exact target (consents q other acquire wanted)
        simp [silent, target]
    · simp [source, Ne.symm source]
  unfold Scene.act
  rw [← node]
  simp only [← link]
  rfl

end Meshed

end LockCluster

/-! ### Calls and deliveries -/

/-- The calls of callers, when callers may have a node do what the initiatives say. -/
def LockOp.Asks (may : Initiative → Prop) : LockOp → Prop
  | .acquire _ _ => may .claim
  | .release _ _ => may .leave
  | .reacquire _ => may .claim ∧ may .leave ∧ may .keep
  | .query _ _ => True
  | _ => False

/-- Calls of callers, and deliveries. -/
def ClusterStep.Asks (may : Initiative → Prop) : ClusterStep → Prop
  | .act _ op => op.Asks may
  | .deliver _ => True
  | .kill _ | .expire _ => False

namespace Arbitrator

variable {t : Arbitrator} {free : Initiative → Prop}

/-- Calls are served. -/
theorem call_serves {op : LockOp} {lock : Lock} {scope : Scope} (asks : op.Asks free)
    (names : op.lock? = some lock) (may : ∀ initiative, free initiative → scope.free initiative)
    (replies : ∀ owner, scope.replies (.ok owner)) :
    Served scope lock ⟨t, op.asking⟩ ⟨t.step op, []⟩ := by
  cases op with
  | acquire _ ticket =>
    cases names
    exact acquire_serves ticket (may _ asks) fun owner _ => replies (some owner)
  | release _ ticket => cases names; exact release_serves ticket (may _ asks) replies
  | query _ ticket => cases names; exact query_serves ticket (replies _)
  | reacquire =>
    cases names
    obtain ⟨claim, leave, keep⟩ := asks
    exact reacquire_serves (may _ keep)
      ⟨replies _, fun _ => ⟨may _ claim, replies⟩, fun _ => ⟨may _ leave, replies⟩⟩
  | _ => exact asks.elim

theorem lock_of_asks {op : LockOp} (asks : op.Asks free) : ∃ lock, op.lock? = some lock := by
  cases op with
  | acquire lock | release lock | query lock | reacquire lock => exact ⟨lock, rfl⟩
  | _ => exact asks.elim

theorem call_does {op : LockOp} (asks : op.Asks free) (lock : Lock) :
    t.Does lock free (t.step op) := by
  obtain ⟨other, names⟩ := lock_of_asks asks
  by_cases eq : lock = other
  · subst eq
    have served : Served (.doing free) lock ⟨t, op.asking⟩ ⟨t.step op, []⟩ :=
      call_serves asks names (fun _ => id) fun _ => trivial
    exact served.does
  · exact step_of_ne_does names eq t

/-- What arrives on a link and is about the lock is dealt with; whoever waits for the lock is served
if that settles it. -/
theorem arrival_moves {lock : Lock} {wire : LockWire} {signal : Signal} {op : LockOp}
    {channel : Channel} {scope : Scope} (about : wire.signal? lock = some signal)
    (party : channel.source ∈ scope.parties) (known : channel.source ∈ scope.record)
    (suits : ∀ owner, t.Verdict lock channel.source signal owner →
      scope.Suits (t.callers lock) owner)
    (means : LockCluster.arrival channel wire = some op) :
    Moves scope lock ⟨t, []⟩ ⟨t.step op, []⟩ := by
  cases wire with
  | event event =>
    cases event <;> simp only [LockCluster.arrival, LockOp.ofEvent?, Option.some.injEq,
      reduceCtorEq, LockWire.signal?, NodeEvent.signal?, Option.ite_none_right_eq_some]
      at means about
    all_goals obtain ⟨rfl, rfl⟩ := about; subst means
    · exact peerAcquiring_moves party
    · exact peerReleasing_moves party
    · exact peerAdded_moves known (suits _ .added)
    · exact peerKept_moves (suits _ .kept)
    · exact peerRemoved_moves known (suits _ .removed)
  | ratify other acquire =>
    simp only [LockCluster.arrival, LockWire.signal?, Option.some.injEq,
      Option.ite_none_right_eq_some] at means about
    obtain ⟨rfl, rfl⟩ := about
    subst means
    refine ratify_moves _ _ fun attempt ratifiers current same own ready => ?_
    have stage := stage_of_attempt current
    simp only [Attempt.stage, own, same] at stage
    -- The peer was the only one whose consent was still awaited.
    have last : {node | node ∈ ratifiers} \ {channel.source} = ∅ := by
      rw [← setOf_mem_erase, setOf_mem_eq_empty ready]
    rw [← callers_of_attempt current]
    cases acquire with
    | true => exact suits _ (.win stage last)
    | false => exact suits _ (.part stage last)

/-- What arrives on a link is heard if it is about the lock. -/
theorem arrival_hears {lock : Lock} {wire : LockWire} {signal : Signal} {op : LockOp}
    {channel : Channel} (about : wire.signal? lock = some signal)
    (allows : ∀ owner, t.Verdict lock channel.source signal owner → t.Allows lock free owner)
    (means : LockCluster.arrival channel wire = some op) :
    t.Hears lock free channel.source signal (t.response channel.source lock signal)
      (t.step op) := by
  cases wire with
  | event event =>
    cases event <;> simp only [LockCluster.arrival, LockOp.ofEvent?, Option.some.injEq,
      reduceCtorEq, LockWire.signal?, NodeEvent.signal?, Option.ite_none_right_eq_some]
      at means about
    all_goals obtain ⟨rfl, rfl⟩ := about; subst means
    · exact hears_claim _
    · exact hears_leave _
    · exact hears_added _ (allows _ .added)
    · exact hears_kept _ (allows _ .kept)
    · exact hears_removed _ (allows _ .removed)
  | ratify other acquire =>
    simp only [LockCluster.arrival, LockWire.signal?, Option.some.injEq,
      Option.ite_none_right_eq_some] at means about
    obtain ⟨rfl, rfl⟩ := about
    subst means
    exact hears_consents _ _ allows

theorem lock_of_arrival {lock : Lock} {wire : LockWire} {op : LockOp} {channel : Channel}
    (about : wire.signal? lock = none) (means : LockCluster.arrival channel wire = some op) :
    ∃ other, op.lock? = some other ∧ lock ≠ other := by
  cases wire with
  | event event =>
    cases event <;> simp only [LockCluster.arrival, LockOp.ofEvent?, Option.some.injEq,
      reduceCtorEq, LockWire.signal?, NodeEvent.signal?, ite_eq_right_iff, imp_false] at means about
    all_goals subst means; exact ⟨_, rfl, Ne.symm about⟩
  | ratify other acquire =>
    simp only [LockCluster.arrival, LockWire.signal?, Option.some.injEq, ite_eq_right_iff,
      reduceCtorEq, imp_false] at means about
    subst means
    exact ⟨_, rfl, Ne.symm about⟩

/-- What arrives on a link changes nothing about the locks it is not about. -/
theorem arrival_does {lock : Lock} {wire : LockWire} {op : LockOp} {channel : Channel}
    (about : wire.signal? lock = none) (means : LockCluster.arrival channel wire = some op) :
    t.Does lock free (t.step op) := by
  obtain ⟨other, names, ne⟩ := lock_of_arrival about means
  exact step_of_ne_does names ne t

theorem consent_mem_sayings {peer : NodeName} {lock : Lock} {acquire : Bool}
    (wanted : .ratify peer lock acquire ∈ t.outbox) :
    .consent peer acquire ∈ t.sayings lock :=
  List.mem_filterMap.2 ⟨_, wanted, by simp [LockEffect.saying?]⟩

theorem sayings_eq_nil {lock : Lock} (empty : t.outbox = []) : t.sayings lock = [] := by
  simp [sayings, empty]

end Arbitrator

namespace LockCluster

/-- The node that a step makes do something, and what. -/
def doing? (c : LockCluster) : ClusterStep → Option (NodeName × LockOp)
  | .act k op => some (k, op)
  | .deliver channel =>
    (c.wires channel.source channel.target).head?.bind fun wire =>
      (arrival channel wire).map fun op => (channel.target, op)
  | .kill _ | .expire _ => none

/-- What a step makes a node say about a lock. -/
def said (c : LockCluster) (lock : Lock) (step : ClusterStep) :
    Option (NodeName × List Saying) :=
  (c.doing? step).bind fun (k, op) =>
    c.nodes[k]?.map fun t => (k, (t.step op).sayings lock)

end LockCluster

/-- The chronicle of a lock after a step. -/
def Lock.Chronicle.after (h : Chronicle) (c : LockCluster) (lock : Lock) (step : ClusterStep) :
    Chronicle :=
  match c.said lock step with
  | some (k, said) => h.notes k said
  | none => h

theorem Lock.Chronicle.after_of_doing {h : Chronicle} {c : LockCluster} {lock : Lock}
    {step : ClusterStep} {k : NodeName} {op : LockOp} {t : Arbitrator}
    (doing : c.doing? step = some (k, op)) (here : c.nodes[k]? = some t) :
    h.after c lock step = h.notes k ((t.step op).sayings lock) := by
  simp [after, LockCluster.said, doing, here]

/-- A chronicle changes only by what a node says. -/
theorem Lock.Chronicle.after_cases (h : Chronicle) (c : LockCluster) (lock : Lock)
    (step : ClusterStep) : h.after c lock step = h ∨
      ∃ k op t, c.doing? step = some (k, op) ∧ c.nodes[k]? = some t ∧
        h.after c lock step = h.notes k ((t.step op).sayings lock) := by
  cases doing : c.doing? step with
  | none => exact .inl (by simp [after, LockCluster.said, doing])
  | some pair =>
    obtain ⟨k, op⟩ := pair
    cases here : c.nodes[k]? with
    | none => exact .inl (by simp [after, LockCluster.said, doing, here])
    | some t => exact .inr ⟨k, op, t, rfl, here, after_of_doing doing here⟩

namespace LockCluster

/-- No caller waits anywhere for what is not free to happen. -/
def Allows (c : LockCluster) (free : Initiative → Prop) : Prop :=
  ∀ (k : NodeName) (t : Arbitrator) (lock : Lock), c.nodes[k]? = some t →
    ∀ owner, t.Allows lock free owner

/-- A step makes no delivery of a signal about a lock that is not admitted. -/
def Admits (admits : Scene.Admission) (c : LockCluster) (lock : Lock) (h : Chronicle) :
    ClusterStep → Prop
  | .deliver channel => ∀ wire rest signal (t : Arbitrator),
    c.wires channel.source channel.target = wire :: rest → wire.signal? lock = some signal →
    c.nodes[channel.target]? = some t →
    admits (c.scene lock h) channel.source channel.target signal
      (rest.filterMap (LockWire.signal? lock)) (t.response channel.source lock signal)
  | .act _ _ | .kill _ | .expire _ => True

variable {c : LockCluster} {names : NameSet} {outranks : Precedence} {k p q : NodeName}
  {t : Arbitrator} {op : LockOp} {free : Initiative → Prop} {admits : Scene.Admission}

namespace Meshed

theorem company_eq (member : t.Member names outranks k) :
    {node | node ∈ t.subscribers} = Lock.company names k := by
  ext m
  exact member.subscribers m

theorem member_of_does {lock : Lock} {t' : Arbitrator} (member : t.Member names outranks k)
    (does : t.Does lock free t') : t'.Member names outranks k where
  node := does.node.trans member.node
  subscribers m := by rw [does.subscribers, member.subscribers]
  outranks := does.outranks.trans member.outranks

theorem member_of_hears {lock : Lock} {t' : Arbitrator} {signal : Signal} {response : Response}
    (member : t.Member names outranks k) (hears : t.Hears lock free p signal response t') :
    t'.Member names outranks k where
  node := hears.node.trans member.node
  subscribers m := by rw [hears.subscribers, member.subscribers]
  outranks := hears.outranks.trans member.outranks

theorem consents_of_does {lock : Lock} {t' : Arbitrator} (empty : t.outbox = [])
    (does : t.Does lock free t') {peer : NodeName} {acquire : Bool} :
    .ratify peer lock acquire ∉ t'.outbox := by
  intro wanted
  have consent := Arbitrator.consent_mem_sayings wanted
  obtain ⟨said, deeds, sayings⟩ := does.deeds
  rw [sayings, Arbitrator.sayings_eq_nil empty, List.nil_append] at consent
  obtain ⟨signal, eq⟩ := deeds.publishes _ consent
  cases eq

theorem consents_of_hears {lock : Lock} {t' : Arbitrator} {signal : Signal} {response : Response}
    (empty : t.outbox = []) (hears : t.Hears lock free p signal response t') {peer : NodeName}
    {acquire : Bool} (wanted : .ratify peer lock acquire ∈ t'.outbox) : peer = p := by
  have consent := Arbitrator.consent_mem_sayings wanted
  obtain ⟨b, said, said', hearing, deeds, sayings⟩ := hears.hearing
  rw [sayings, Arbitrator.sayings_eq_nil empty, List.nil_append] at consent
  obtain heard | done := List.mem_append.1 consent
  · exact hearing.consents_to heard
  · obtain ⟨signal, eq⟩ := deeds.publishes _ done
    cases eq

/-- Deeds of a table are a step of the scene. -/
theorem step_of_does (mesh : c.Meshed names outranks) (here : c.nodes[k]? = some t) {lock : Lock}
    {t' : Arbitrator} (does : t.Does lock free t') (h : Chronicle) :
    Scene.Step names outranks free admits (c.scene lock h)
      ((c.scene lock h).act names k (t'.standing lock) (t'.sayings lock)) := by
  obtain ⟨said, deeds, sayings⟩ := does.deeds
  have member := mesh.member k t here
  rw [sayings, Arbitrator.sayings_eq_nil (mesh.outbox k t here), List.nil_append]
  rw [company_eq member, member.node, ← node_scene here lock h] at deeds
  exact .deeds ((mesh.nodes k).1 (Std.ExtTreeMap.mem_iff_isSome_getElem?.2 (by simp [here]))) deeds

theorem after_act (here : c.nodes[k]? = some t) (lock : Lock) (h : Chronicle) :
    h.after c lock (.act k op) = h.notes k ((t.step op).sayings lock) := by
  simp [Chronicle.after, said, doing?, here]

theorem after_act_of_absent (absent : c.nodes[k]? = none) (lock : Lock) (h : Chronicle) :
    h.after c lock (.act k op) = h := by
  simp [Chronicle.after, said, doing?, absent]

/-- A call is a step of the scene of every lock. -/
theorem call (mesh : c.Meshed names outranks) (asks : op.Asks free) :
    (c.act k op).Meshed names outranks ∧ ∀ lock h,
      Scene.Step names outranks free admits (c.scene lock h)
        ((c.act k op).scene lock (h.after c lock (.act k op))) := by
  cases here : c.nodes[k]? with
  | none =>
    rw [act_of_absent here]
    refine ⟨mesh, fun lock h => ?_⟩
    rw [after_act_of_absent here]
    exact .rest _
  | some t =>
    have does := Arbitrator.call_does (t := t) asks
    have consents : ∀ peer lock acquire, .ratify peer lock acquire ∈ (t.step op).outbox →
        peer ∈ names ∧ peer ≠ k := fun peer lock acquire wanted =>
      absurd wanted (consents_of_does (mesh.outbox k t here) (does lock))
    have member := member_of_does (mesh.member k t here) (does ⟨"", none⟩)
    refine ⟨mesh.act here member consents, fun lock h => ?_⟩
    rw [after_act here, mesh.scene_act here consents]
    exact mesh.step_of_does here (does lock) h

theorem popped (mesh : c.Meshed names outranks) {channel : Channel} {wire : LockWire}
    {rest : List LockWire} (on : c.wires channel.source channel.target = wire :: rest)
    (report : ClusterReport) : ((c.popped channel rest).report report).Meshed names outranks where
  nodes := mesh.nodes
  member := mesh.member
  outbox := mesh.outbox
  wires p q nonempty := by
    change (c.popped channel rest).wires p q ≠ [] at nonempty
    rw [wires_popped] at nonempty
    split at nonempty
    next eq =>
      obtain ⟨rfl, rfl⟩ := eq
      exact mesh.wires _ _ (by simp [on])
    next => exact mesh.wires p q nonempty

theorem scene_popped (channel : Channel) (rest : List LockWire) (report : ClusterReport)
    (lock : Lock) (h : Chronicle) :
    ((c.popped channel rest).report report).scene lock h =
      (c.scene lock h).pop channel.source channel.target
        (rest.filterMap (LockWire.signal? lock)) := by
  have link : ∀ p q, ((c.popped channel rest).scene lock h).link p q =
      if p = channel.source ∧ q = channel.target then rest.filterMap (LockWire.signal? lock)
      else (c.scene lock h).link p q := by
    intro p q
    simp only [scene, wires_popped]
    split <;> rfl
  unfold Scene.pop
  simp only [← link]
  rfl

/-- Popping what is not about the lock leaves its scene as it is. -/
theorem scene_popped_of_none {channel : Channel} {wire : LockWire} {rest : List LockWire}
    (on : c.wires channel.source channel.target = wire :: rest) {lock : Lock}
    (about : wire.signal? lock = none) (report : ClusterReport) (h : Chronicle) :
    ((c.popped channel rest).report report).scene lock h = c.scene lock h := by
  rw [scene_popped]
  exact Scene.pop_self (by simp [scene, on, about])

/-- What arrives about a lock is heard in its scene. -/
theorem heard (mesh : c.Meshed names outranks) {channel : Channel} {wire : LockWire}
    {rest : List LockWire} (on : c.wires channel.source channel.target = wire :: rest)
    (here : c.nodes[channel.target]? = some t) {lock : Lock} {signal : Signal}
    (about : wire.signal? lock = some signal) (h : Chronicle) {b : Standing} {said : List Saying}
    {response : Response}
    (hearing : Hearing t.node t.outranks channel.source signal (t.standing lock) b said response) :
    Scene.Heard names outranks (c.scene lock h) channel.source channel.target signal
      (rest.filterMap (LockWire.signal? lock)) b said response := by
  obtain ⟨source, target, ne⟩ := mesh.wires channel.source channel.target (by simp [on])
  rw [(mesh.member _ t here).node, (mesh.member _ t here).outranks,
    ← node_scene here lock h] at hearing
  exact ⟨source, target, ne, by simp [scene, on, about], hearing⟩

/-- A delivery is a step of the scene of every lock. -/
theorem deliver (mesh : c.Meshed names outranks)
    (allows : c.Allows free)
    (channel : Channel) :
    (c.deliver channel).Meshed names outranks ∧ ∀ lock h,
      c.Admits admits lock h (.deliver channel) →
      Scene.Step names outranks free admits (c.scene lock h)
        ((c.deliver channel).scene lock (h.after c lock (.deliver channel))) := by
  cases on : c.wires channel.source channel.target with
  | nil =>
    rw [deliver_of_idle on]
    refine ⟨mesh, fun lock h _ => ?_⟩
    have same : h.after c lock (.deliver channel) = h := by
      simp [Chronicle.after, said, doing?, on]
    rw [same]
    exact .rest _
  | cons wire rest =>
    obtain ⟨source, target, ne⟩ := mesh.wires channel.source channel.target (by simp [on])
    obtain ⟨t, here⟩ := Option.isSome_iff_exists.1
      (Std.ExtTreeMap.isSome_getElem?_iff_mem.2 ((mesh.nodes _).2 target))
    rw [deliver_of_wire on ((mesh.nodes _).2 target)]
    have mesh' := mesh.popped on (.delivered channel wire)
    cases means : arrival channel wire with
    | none =>
      refine ⟨mesh', fun lock h _ => ?_⟩
      have same : h.after c lock (.deliver channel) = h := by
        simp [Chronicle.after, said, doing?, on, means]
      have about : wire.signal? lock = none := by
        cases wire with
        | event event => cases event <;> simp_all [arrival, LockOp.ofEvent?, LockWire.signal?,
            NodeEvent.signal?]
        | ratify => simp [arrival] at means
      rw [same]
      dsimp only
      rw [scene_popped_of_none on about]
      exact .rest _
    | some op =>
      -- Of the lock that the signal is about the node hears something; for all other locks it does
      -- nothing.
      have heard : ∀ lock signal, wire.signal? lock = some signal →
          t.Hears lock free channel.source signal (t.response channel.source lock signal)
            (t.step op) := fun lock signal about =>
        Arbitrator.arrival_hears about (fun owner _ => allows channel.target t lock here owner)
          means
      have quiet : ∀ lock, wire.signal? lock = none → t.Does lock free (t.step op) :=
        fun lock about => Arbitrator.arrival_does about means
      have member : (t.step op).Member names outranks channel.target := by
        cases about : wire.signal? ⟨"", none⟩ with
        | none => exact member_of_does (mesh.member _ t here) (quiet _ about)
        | some signal => exact member_of_hears (mesh.member _ t here) (heard _ signal about)
      have consents : ∀ peer lock acquire, .ratify peer lock acquire ∈ (t.step op).outbox →
          peer ∈ names ∧ peer ≠ channel.target := by
        intro peer lock acquire wanted
        cases about : wire.signal? lock with
        | none => exact absurd wanted (consents_of_does (mesh.outbox _ t here) (quiet _ about))
        | some signal =>
          obtain rfl := consents_of_hears (mesh.outbox _ t here) (heard _ signal about) wanted
          exact ⟨source, ne⟩
      refine ⟨mesh'.act here member consents, fun lock h admitted => ?_⟩
      have after : h.after c lock (.deliver channel) =
          h.notes channel.target ((t.step op).sayings lock) := by
        simp [Chronicle.after, said, doing?, on, means, here]
      dsimp only
      rw [after, mesh'.scene_act here consents]
      cases about : wire.signal? lock with
      | none =>
        rw [scene_popped_of_none on about]
        exact mesh.step_of_does here (quiet lock about) h
      | some signal =>
        obtain ⟨b, said, said', hearing, deeds, sayings⟩ := (heard lock signal about).hearing
        rw [company_eq (mesh.member _ t here), (mesh.member _ t here).node] at deeds
        rw [scene_popped, sayings, Arbitrator.sayings_eq_nil (mesh.outbox _ t here),
          List.nil_append]
        exact .hear (mesh.heard on here about h hearing)
          (admitted wire rest signal t on about here) deeds

/-- Calls and deliveries keep a cluster meshed, and are steps of the scene of every lock. -/
theorem step (mesh : c.Meshed names outranks) (admits : Scene.Admission) {step : ClusterStep}
    (asks : step.Asks free)
    (allows : c.Allows free) :
    (c.step step).Meshed names outranks ∧ ∀ lock h, c.Admits admits lock h step →
      Scene.Step names outranks free admits (c.scene lock h)
        ((c.step step).scene lock (h.after c lock step)) := by
  cases step with
  | act k op =>
    obtain ⟨mesh', steps⟩ := mesh.call asks
    exact ⟨mesh', fun lock h _ => steps lock h⟩
  | deliver channel => exact mesh.deliver allows channel
  | kill | expire => exact asks.elim

end Meshed

end LockCluster

/-! ### Runs from the start -/

/-- The table of a node that has heard nothing of any lock. -/
structure Arbitrator.Blank (t : Arbitrator) : Prop where
  held : t.held = ∅
  attempts : t.attempts = ∅
  peerLocks : ∀ peer : NodeName, t.peerLocks[peer]?.getD ∅ = ∅
  outbox : t.outbox = []

theorem Arbitrator.Blank.standing {t : Arbitrator} (blank : t.Blank) (lock : Lock) :
    t.standing lock = ⟨False, ∅, .idle⟩ := by
  simp only [Arbitrator.standing, blank.held, blank.attempts, blank.peerLocks]
  simp

namespace LockCluster

variable {names : NameSet} {outranks : Precedence} {k : NodeName}

/-- Making acquaintance with other nodes leaves a blank table blank. -/
theorem acquaint (others : List NodeName) {t : Arbitrator} (node : t.node = k) (blank : t.Blank) :
    let t' := others.foldl
      (fun t other => if other = k then t else (t.addSubscriber other).peerSubscribed other ∅) t
    t'.node = k ∧ t'.outranks = t.outranks ∧ t'.Blank ∧
      ∀ m, m ∈ t'.subscribers ↔ m ∈ t.subscribers ∨ m ∈ others ∧ m ≠ k := by
  induction others generalizing t with
  | nil => exact ⟨node, rfl, blank, by simp⟩
  | cons other others ih =>
    rw [List.foldl_cons]
    -- A node does not make its own acquaintance.
    by_cases self : other = k
    · rw [if_pos self]
      obtain ⟨node', outranks', blank', subscribers⟩ := ih node blank
      refine ⟨node', outranks', blank', fun m => ?_⟩
      rw [subscribers, List.mem_cons]
      constructor
      · rintro (old | ⟨new, ne⟩)
        · exact .inl old
        · exact .inr ⟨.inr new, ne⟩
      · rintro (old | ⟨rfl | new, ne⟩)
        · exact .inl old
        · exact absurd self ne
        · exact .inr ⟨new, ne⟩
    · rw [if_neg self]
      have subscribed : (t.addSubscriber other).peerSubscribed other ∅ =
          { t.addSubscriber other with peerLocks := t.peerLocks.insert other ∅ } := rfl
      rw [subscribed]
      have blank₁ : Arbitrator.Blank
          { t.addSubscriber other with peerLocks := t.peerLocks.insert other ∅ } := by
        refine ⟨blank.held, blank.attempts, fun peer => ?_, blank.outbox⟩
        rw [Std.ExtTreeMap.getElem?_insert]
        split
        · rfl
        · exact blank.peerLocks peer
      obtain ⟨node', outranks', blank', subscribers⟩ := ih
        (t := { t.addSubscriber other with peerLocks := t.peerLocks.insert other ∅ }) node blank₁
      refine ⟨node', outranks', blank', fun m => ?_⟩
      rw [subscribers, List.mem_cons]
      have added : m ∈ t.subscribers.insert other ↔ m = other ∨ m ∈ t.subscribers := by
        rw [Std.ExtTreeSet.mem_insert, Std.compare_eq_iff_eq, eq_comm]
      change m ∈ t.subscribers.insert other ∨ _ ↔ _
      rw [added]
      constructor
      · rintro ((rfl | old) | ⟨new, ne⟩)
        · exact .inr ⟨.inl rfl, self⟩
        · exact .inl old
        · exact .inr ⟨.inr new, ne⟩
      · rintro (old | ⟨rfl | new, ne⟩)
        · exact .inl (.inr old)
        · exact .inl (.inl rfl)
        · exact .inr ⟨new, ne⟩

theorem meshed_spec (outranks : Precedence) (names : NameSet) (k : NodeName) :
    (meshed outranks names.toList k).Member names outranks k ∧
      (meshed outranks names.toList k).Blank := by
  have blank : (Arbitrator.fresh k outranks).Blank := ⟨rfl, rfl, by simp [Arbitrator.fresh], rfl⟩
  obtain ⟨node, outranks', blank', subscribers⟩ := acquaint names.toList (k := k) rfl blank
  refine ⟨⟨node, fun m => ?_, outranks'⟩, blank'⟩
  rw [meshed, subscribers, Std.ExtTreeSet.mem_toList]
  simp [Arbitrator.fresh]

theorem nodes_ofNodes (outranks : Precedence) (names : NameSet) (k : NodeName) :
    (ofNodes outranks names).nodes[k]? =
      if k ∈ names then some (meshed outranks names.toList k) else none := by
  have general : ∀ (members : List NodeName) (nodes : Std.ExtTreeMap NodeName Arbitrator),
      (members.foldl (fun nodes name => nodes.insert name (meshed outranks names.toList name))
        nodes)[k]? =
      if k ∈ members then some (meshed outranks names.toList k) else nodes[k]? := by
    intro members
    induction members with
    | nil => simp
    | cons member members ih =>
      intro nodes
      rw [List.foldl_cons, ih, Std.ExtTreeMap.getElem?_insert]
      by_cases eq : member = k
      · subst eq
        simp
      · simp [eq, Ne.symm eq]
  rw [ofNodes, general]
  simp

theorem meshed_ofNodes (outranks : Precedence) (names : NameSet) :
    (ofNodes outranks names).Meshed names outranks where
  nodes k := by
    rw [Std.ExtTreeMap.mem_iff_isSome_getElem?, nodes_ofNodes]
    by_cases member : k ∈ names <;> simp [member]
  member k t here := by
    rw [nodes_ofNodes] at here
    split at here
    · exact Option.some.inj here ▸ (meshed_spec outranks names k).1
    · cases here
  outbox k t here := by
    rw [nodes_ofNodes] at here
    split at here
    · exact Option.some.inj here ▸ (meshed_spec outranks names k).2.outbox
    · cases here
  wires p q nonempty := absurd (by simp [wires, ofNodes]) nonempty

end LockCluster

/-- The scene of a lock nobody has done anything about. -/
def Lock.Scene.start : Scene where
  node _ := ⟨False, ∅, .idle⟩
  link _ _ := []
  chronicle := .blank

namespace LockCluster

theorem scene_ofNodes (outranks : Precedence) (names : NameSet) (lock : Lock) :
    (ofNodes outranks names).scene lock .blank = .start := by
  have node : ((ofNodes outranks names).scene lock .blank).node = Scene.start.node := by
    funext k
    simp only [scene, nodes_ofNodes]
    by_cases member : k ∈ names
    · simp only [member, if_true, (meshed_spec outranks names k).2.standing]
      rfl
    · simp only [member, if_false]
      rfl
  rw [scene] at node ⊢
  rw [Scene.start] at node ⊢
  simp only at node
  rw [node]
  simp [wires, ofNodes]

/-- Several steps. -/
def run (c : LockCluster) (steps : List ClusterStep) : LockCluster := steps.foldl step c

/-- The chronicle of a lock after several steps. -/
def chronicle (c : LockCluster) (lock : Lock) (steps : List ClusterStep) : Chronicle :=
  (steps.foldl (fun (c, h) step => (c.step step, h.after c lock step)) (c, Chronicle.blank)).2

@[simp] theorem run_nil (c : LockCluster) : c.run [] = c := rfl

theorem run_append_one (c : LockCluster) (steps : List ClusterStep) (step : ClusterStep) :
    c.run (steps ++ [step]) = (c.run steps).step step := by
  simp [run]

theorem chronicle_append_one (c : LockCluster) (lock : Lock) (steps : List ClusterStep)
    (step : ClusterStep) :
    c.chronicle lock (steps ++ [step]) =
      (c.chronicle lock steps).after (c.run steps) lock step := by
  have along : ∀ steps : List ClusterStep,
      (steps.foldl (fun (c, h) step => (c.step step, Chronicle.after h c lock step))
        (c, Chronicle.blank)).1 = c.run steps := by
    intro steps
    induction steps using List.reverseRecOn with
    | nil => rfl
    | append_singleton steps step ih =>
      rw [List.foldl_append, run_append_one, ← ih]
      rfl
  simp only [chronicle, List.foldl_append, List.foldl_cons, List.foldl_nil, along]

/-- No delivery of a run is one that is not admitted. -/
def Admitted (admits : Scene.Admission) (c : LockCluster) (lock : Lock)
    (steps : List ClusterStep) : Prop :=
  ∀ past step, past ++ [step] <+: steps →
    (c.run past).Admits admits lock (c.chronicle lock past) step

/-- Every run admits everything. -/
theorem admitted_all (c : LockCluster) (lock : Lock) (steps : List ClusterStep) :
    c.Admitted (fun _ _ _ _ _ _ => True) lock steps := by
  rintro past (_ | _ | _ | _) - <;> simp [Admits]

/-- What every step of a scene preserves holds of the scene of a lock after any run. -/
theorem preserved_of_run {free : Initiative → Prop} {admits : Scene.Admission}
    {P : Scene → Prop} {lock : Lock} {steps : List ClusterStep}
    (calls : ∀ step ∈ steps, step.Asks free)
    (allows : ∀ past, past <+: steps → ((ofNodes outranks names).run past).Allows free)
    (admitted : (ofNodes outranks names).Admitted admits lock steps) (start : P .start)
    (preserves : ∀ {s s'}, Scene.Step names outranks free admits s s' → P s → P s') :
    ((ofNodes outranks names).run steps).Meshed names outranks ∧
      P (((ofNodes outranks names).run steps).scene lock
        ((ofNodes outranks names).chronicle lock steps)) := by
  induction steps using List.reverseRecOn with
  | nil =>
    refine ⟨meshed_ofNodes outranks names, ?_⟩
    rw [run_nil, show (ofNodes outranks names).chronicle lock [] = .blank from rfl, scene_ofNodes]
    exact start
  | append_singleton steps step ih =>
    have shorter : steps <+: steps ++ [step] := List.prefix_append _ _
    obtain ⟨mesh, holds⟩ := ih (fun s member => calls s (List.mem_append_left _ member))
      (fun past sofar => allows past (sofar.trans shorter))
      (fun past last sofar => admitted past last (sofar.trans shorter))
    obtain ⟨mesh', steps'⟩ := mesh.step admits (calls step (by simp)) (allows steps shorter)
    rw [run_append_one, chronicle_append_one]
    exact ⟨mesh', preserves (steps' lock _ (admitted steps step List.prefix_rfl)) holds⟩

end LockCluster

end Cohort

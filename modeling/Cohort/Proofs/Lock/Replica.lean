import Cohort.Proofs.Lock.Accounts
import Cohort.Proofs.Lock.Exclusion

/-!
# What nodes have on record of each other

Whatever happens in a cluster, callers and deliveries, timers that run out at any time, nodes that
die: what a node has on record of another, brought up to date by what is still on its way, is what
the other holds. A lock may have several holders for a while, but once nothing is on its way any
more every node knows all there is to know, and so there is one holder at most.

## Main definitions

* `LockWire.apply`, `LockCluster.Replicated`.
* `ClusterStep.IsInternal`: everything but what only a surrounding program could do.

## Main statements

* `LockCluster.Replicated.step`: every step preserves the invariant.
* `LockCluster.records_converge`: the view of every node of every other converges.
-/

namespace Cohort

open Lock (Standing Saying Signal Response Chronicle replay replay_append)

/-- The locks a node holds, after one more wire from it. -/
def LockWire.apply (held : LockSet) : LockWire → LockSet
  | .event (.added lock) => held.insert lock
  | .event (.removed lock) => held.erase lock
  | .event _ | .ratify _ _ => held

theorem LockWire.mem_apply (held : LockSet) (wire : LockWire) (lock : Lock) :
    lock ∈ wire.apply held ↔ replay (lock ∈ held) (wire.signal? lock).toList := by
  cases wire with
  | event event =>
    cases event with
    | added other =>
      by_cases eq : other = lock <;>
        simp [apply, signal?, NodeEvent.signal?, eq, replay, Signal.turn]
    | removed other =>
      by_cases eq : other = lock <;>
        simp [apply, signal?, NodeEvent.signal?, eq, replay, Signal.turn]
    | acquiring other | releasing other | kept other =>
      by_cases eq : other = lock <;>
        simp [apply, signal?, NodeEvent.signal?, eq, replay, Signal.turn]
    | cacheData => rfl
  | ratify other acquire =>
    by_cases eq : other = lock <;> simp [apply, signal?, eq, replay, Signal.turn]

theorem LockWire.mem_applies (held : LockSet) (wires : List LockWire) (lock : Lock) :
    lock ∈ wires.foldl apply held ↔
      replay (lock ∈ held) (wires.filterMap (LockWire.signal? lock)) := by
  induction wires generalizing held with
  | nil => exact Iff.rfl
  | cons wire wires ih =>
    rw [List.foldl_cons, ih, propext (mem_apply held wire lock), ← replay_append]
    cases about : wire.signal? lock <;> simp [about]

/-- What may happen to an arbitrator of a cluster from outside the cluster. -/
def LockOp.IsInternal : LockOp → Prop
  | .acquire _ _ | .release _ _ | .query _ _ | .reacquire _ | .timeout _ _ | .setPrecedence _ =>
    True
  | _ => False

/-- What may happen in a cluster. -/
def ClusterStep.IsInternal : ClusterStep → Prop
  | .act _ op => op.IsInternal
  | .deliver _ | .kill _ | .expire _ => True

namespace Arbitrator

theorem internal_accounts {t : Arbitrator} {op : LockOp} (internal : op.IsInternal)
    (lock : Lock) : t.Accounts lock (t.standing lock).knows (t.step op) := by
  have call : op.Asks (fun _ => True) → t.Accounts lock (t.standing lock).knows (t.step op) :=
    fun asks => accounts_of_does (call_does asks lock)
  cases op with
  | timeout other generation => exact timeout_accounts generation
  | setPrecedence outranks => exact .nothing rfl rfl rfl
  | acquire | release | query | reacquire => exact call (by simp [LockOp.Asks])
  | _ => exact internal.elim

/-- The peers on record after the arrival of a wire. -/
def recorded (t : Arbitrator) (peer : NodeName) (wire : LockWire) (lock : Lock) : Set NodeName :=
  match wire.signal? lock with
  | some signal => signal.record peer (t.standing lock).knows
  | none => (t.standing lock).knows

theorem arrival_accounts {t : Arbitrator} {channel : Channel} {wire : LockWire} {op : LockOp}
    (ne : channel.source ≠ t.node) (means : LockCluster.arrival channel wire = some op)
    (lock : Lock) : t.Accounts lock (t.recorded channel.source wire lock) (t.step op) := by
  unfold recorded
  cases about : wire.signal? lock with
  | none =>
    have does : t.Does lock (fun _ => True) (t.step op) := arrival_does about means
    exact accounts_of_does does
  | some signal =>
    have allows : ∀ owner, t.Allows lock (fun _ => True) owner :=
      fun _ => ⟨fun _ => trivial, fun _ _ _ _ _ => trivial⟩
    exact accounts_of_hears ne (arrival_hears about (fun owner _ => allows owner) means)

/-- What the arrival of the head of a link puts on record is what the link told all along. -/
theorem replay_recorded (t : Arbitrator) (peer : NodeName) (wire : LockWire) (lock : Lock)
    (rest : List Signal) :
    replay (peer ∈ t.recorded peer wire lock) rest ↔
      replay (peer ∈ (t.standing lock).knows) ((wire.signal? lock).toList ++ rest) := by
  rw [replay_append]
  unfold recorded
  cases wire.signal? lock with
  | none => exact Iff.rfl
  | some signal =>
    have turn : (peer ∈ signal.record peer (t.standing lock).knows) =
        signal.turn (peer ∈ (t.standing lock).knows) := by
      cases signal <;> simp [Signal.record, Signal.turn]
    simp only [turn]
    exact Iff.rfl

theorem mem_recorded_of_ne {t : Arbitrator} {peer other : NodeName} {wire : LockWire} {lock : Lock}
    (ne : other ≠ peer) : other ∈ t.recorded peer wire lock ↔ other ∈ (t.standing lock).knows := by
  unfold recorded
  cases wire.signal? lock with
  | none => exact Iff.rfl
  | some signal => cases signal <;> simp [Signal.record, ne]

theorem mem_of_mem_recorded {t : Arbitrator} {peer other : NodeName} {wire : LockWire}
    {lock : Lock} (member : other ∈ t.recorded peer wire lock) :
    other = peer ∨ other ∈ (t.standing lock).knows := by
  by_cases eq : other = peer
  · exact .inl eq
  · exact .inr ((mem_recorded_of_ne eq).1 member)

end Arbitrator

namespace LockCluster

variable {c : LockCluster} {late late' : NodeName → NodeName → Prop} {told told' : NodeName → Prop}
  {k p q : NodeName} {t : Arbitrator} {op : LockOp}

/-- What a node that is `told` has on record of another is up to date but for what is on its way.
A node has nobody on record but nodes that are there, or that it is `late` to notice are gone. -/
structure Replicated (late : NodeName → NodeName → Prop) (told : NodeName → Prop)
    (c : LockCluster) : Prop where
  node : ∀ (k : NodeName) (t : Arbitrator), c.nodes[k]? = some t → t.node = k
  outbox : ∀ (k : NodeName) (t : Arbitrator), c.nodes[k]? = some t → t.outbox = []
  coherent : ∀ (k : NodeName) (t : Arbitrator), c.nodes[k]? = some t →
    ∀ lock, (t.standing lock).Coherent
  knows : ∀ (k : NodeName) (t : Arbitrator), c.nodes[k]? = some t → ∀ lock,
    ∀ peer ∈ (t.standing lock).knows, peer ≠ k ∧ (peer ∈ c.nodes ∨ late k peer)
  source : ∀ p q, c.wires p q ≠ [] → p ∈ c.nodes ∧ p ≠ q
  replica : ∀ (x y : NodeName) (tx ty : Arbitrator), c.nodes[x]? = some tx →
    c.nodes[y]? = some ty → x ≠ y → told y → ∀ lock,
      (replay (x ∈ (ty.standing lock).knows) ((c.wires x y).filterMap (LockWire.signal? lock)) ↔
        (tx.standing lock).holds)

namespace Replicated

theorem mem_nodes (here : c.nodes[k]? = some t) : k ∈ c.nodes :=
  Std.ExtTreeMap.mem_iff_isSome_getElem?.2 (by simp [here])

/-- The nodes after an act of one of them. -/
theorem nodes_act_iff (here : c.nodes[k]? = some t) {x : NodeName} {tx : Arbitrator} :
    (c.act k op).nodes[x]? = some tx ↔
      x = k ∧ tx = { t.step op with outbox := [] } ∨ x ≠ k ∧ c.nodes[x]? = some tx := by
  rw [nodes_act here, Std.ExtTreeMap.getElem?_insert]
  by_cases eq : k = x
  · subst eq
    simp [eq_comm]
  · simp [eq, Ne.symm eq]

/-- What is on the links to other nodes after an act. -/
theorem signals_act (here : c.nodes[k]? = some t) {lock : Lock} {x y : NodeName}
    (there : y ∈ c.nodes) (ne : y ≠ k) :
    ((c.act k op).wires x y).filterMap (LockWire.signal? lock) =
      (c.wires x y).filterMap (LockWire.signal? lock) ++
        if k = x then ((t.step op).sayings lock).filterMap (Saying.signalTo? y) else [] := by
  rw [wires_act here, List.filterMap_append]
  have reaches : c.reaches k y = true := by simp [reaches, there, ne]
  by_cases eq : k = x
  · rw [if_pos eq, if_pos eq, reaches, signals_of_outbox]
  · rw [if_neg eq, if_neg eq]
    rfl

/-- What a node sends goes to other nodes. -/
theorem source_act (rep : Replicated late told c) (here : c.nodes[k]? = some t)
    {K : Lock → Set NodeName} (accounts : ∀ lock, t.Accounts lock (K lock) (t.step op))
    (nonempty : (c.act k op).wires p q ≠ []) : p ∈ (c.act k op).nodes ∧ p ≠ q := by
  rw [mem_nodes_act here]
  by_cases old : c.wires p q = []
  · rw [wires_act here, old, List.nil_append] at nonempty
    split at nonempty
    next eq =>
      subst eq
      refine ⟨mem_nodes here, ?_⟩
      obtain ⟨wire, sent⟩ := List.exists_mem_of_ne_nil _ nonempty
      obtain ⟨effect, wanted, put⟩ := List.mem_filterMap.1 sent
      obtain follower | ⟨lock, acquire, rfl⟩ := LockEffect.of_wire? put
      · have reached : q ∈ c.nodes ∧ q ≠ k := by simpa [reaches] using follower
        exact reached.2.symm
      · obtain ⟨said, sayings, consents, -⟩ := (accounts lock).said
        have consent := Arbitrator.consent_mem_sayings wanted
        rw [sayings, Arbitrator.sayings_eq_nil (rep.outbox k t here), List.nil_append] at consent
        have other := consents q acquire consent
        rw [rep.node k t here] at other
        exact other.symm
    next => exact absurd rfl nonempty
  · exact rep.source p q old

/-- An act that accounts for itself preserves the invariant, if what the node has on record
afterwards is up to date. -/
theorem act (rep : Replicated late told c) (here : c.nodes[k]? = some t)
    (K : Lock → Set NodeName) (accounts : ∀ lock, t.Accounts lock (K lock) (t.step op))
    (noticed : ∀ x peer, x ≠ k → late x peer → late' x peer)
    (among : ∀ lock, ∀ peer ∈ K lock, peer ≠ k ∧ (peer ∈ c.nodes ∨ late' k peer))
    (current : ∀ (x : NodeName) (tx : Arbitrator), c.nodes[x]? = some tx → x ≠ k → ∀ lock,
      (replay (x ∈ K lock) ((c.wires x k).filterMap (LockWire.signal? lock)) ↔
        (tx.standing lock).holds))
    (others : ∀ y, y ≠ k → told y) :
    Replicated late' (fun _ => True) (c.act k op) where
  node x tx hx := by
    obtain ⟨rfl, rfl⟩ | ⟨-, old⟩ := (nodes_act_iff here).1 hx
    · exact (accounts ⟨"", none⟩).node.trans (rep.node x t here)
    · exact rep.node x tx old
  outbox x tx hx := by
    obtain ⟨rfl, rfl⟩ | ⟨-, old⟩ := (nodes_act_iff here).1 hx
    · rfl
    · exact rep.outbox x tx old
  coherent x tx hx lock := by
    obtain ⟨rfl, rfl⟩ | ⟨-, old⟩ := (nodes_act_iff here).1 hx
    · exact (accounts lock).coherent (rep.coherent x t here lock)
    · exact rep.coherent x tx old lock
  knows x tx hx lock peer known := by
    rw [mem_nodes_act here]
    obtain ⟨rfl, rfl⟩ | ⟨ne, old⟩ := (nodes_act_iff here).1 hx
    · refine among lock peer ?_
      rw [← (accounts lock).knows]
      exact known
    · obtain ⟨ne', there⟩ := rep.knows x tx old lock peer known
      exact ⟨ne', there.imp_right (noticed x peer ne)⟩
  source p q nonempty := rep.source_act here accounts nonempty
  replica x y tx ty hx hy ne _ lock := by
    obtain ⟨rfl, rfl⟩ | ⟨ney, oldy⟩ := (nodes_act_iff here).1 hy
    · obtain ⟨rfl, -⟩ | ⟨-, oldx⟩ := (nodes_act_iff here).1 hx
      · exact absurd rfl ne
      · have same : (c.act y op).wires x y = c.wires x y := by
          rw [wires_act here, if_neg (Ne.symm ne), List.append_nil]
        rw [same, ← current x tx oldx ne lock, ← (accounts lock).knows]
        exact Iff.rfl
    · -- What the node has published since is on its links behind what was there.
      rw [signals_act here (mem_nodes oldy) ney]
      obtain ⟨rfl, rfl⟩ | ⟨nex, oldx⟩ := (nodes_act_iff here).1 hx
      · obtain ⟨said, sayings, -, holds⟩ := (accounts lock).said
        rw [if_pos rfl, replay_append,
          propext (rep.replica x y t ty here oldy ne (others y ney) lock), sayings,
          Arbitrator.sayings_eq_nil (rep.outbox x t here), List.nil_append]
        exact (holds y).symm
      · rw [if_neg (Ne.symm nex), List.append_nil]
        exact rep.replica x y tx ty oldx oldy ne (others y ney) lock

/-- Whatever a node does that leaves what it has on record as it is, the invariant stays. -/
theorem act_same (rep : Replicated late (fun _ => True) c)
    (accounts : ∀ (t : Arbitrator) (lock : Lock), c.nodes[k]? = some t →
      t.Accounts lock (t.standing lock).knows (t.step op)) :
    Replicated late (fun _ => True) (c.act k op) := by
  cases here : c.nodes[k]? with
  | none => rwa [act_of_absent here]
  | some t =>
    refine rep.act here (fun lock => (t.standing lock).knows) (fun lock => accounts t lock here)
      (fun _ _ _ gone => gone) (rep.knows k t here) ?_ fun _ _ => trivial
    exact fun x tx hx ne lock => rep.replica x k tx t hx here ne trivial lock

/-! ### Deliveries -/

/-- Taking something off a link leaves what the other nodes were told as it was. -/
theorem popped (rep : Replicated late (fun _ => True) c) {channel : Channel} {wire : LockWire}
    {rest : List LockWire} (on : c.wires channel.source channel.target = wire :: rest)
    (unheard : told channel.target → channel.target ∈ c.nodes →
      ∀ lock, wire.signal? lock = none) :
    Replicated late told (c.popped channel rest) where
  node := rep.node
  outbox := rep.outbox
  coherent := rep.coherent
  knows := rep.knows
  source p q nonempty := by
    rw [wires_popped] at nonempty
    split at nonempty
    next eq =>
      obtain ⟨rfl, rfl⟩ := eq
      exact rep.source _ _ (by simp [on])
    next => exact rep.source p q nonempty
  replica x y tx ty hx hy ne heard lock := by
    have before := rep.replica x y tx ty hx hy ne trivial lock
    rw [wires_popped]
    split
    next eq =>
      obtain ⟨rfl, rfl⟩ := eq
      rw [on, List.filterMap_cons_none (unheard heard (mem_nodes hy) lock)] at before
      exact before
    next => exact before

theorem report (rep : Replicated late told c) (report : ClusterReport) :
    Replicated late told (c.report report) :=
  ⟨rep.node, rep.outbox, rep.coherent, rep.knows, rep.source, rep.replica⟩

theorem deliver (rep : Replicated late (fun _ => True) c) (channel : Channel) :
    Replicated late (fun _ => True) (c.deliver channel) := by
  cases on : c.wires channel.source channel.target with
  | nil => rwa [deliver_of_idle on]
  | cons wire rest =>
    have nonempty : c.wires channel.source channel.target ≠ [] := by simp [on]
    obtain ⟨source, ne⟩ := rep.source _ _ nonempty
    cases here : c.nodes[channel.target]? with
    | none =>
      have absent : channel.target ∉ c.nodes := by
        simp [Std.ExtTreeMap.mem_iff_isSome_getElem?, here]
      rw [deliver_of_absent on absent]
      exact rep.popped on fun _ there => absurd there absent
    | some t =>
      rw [deliver_of_wire on (mem_nodes here)]
      cases means : arrival channel wire with
      | none =>
        refine (rep.popped on fun _ _ lock => ?_).report _
        cases wire with
        | event event =>
          cases event <;> simp_all [arrival, LockOp.ofEvent?, LockWire.signal?, NodeEvent.signal?]
        | ratify => simp [arrival] at means
      | some op =>
        have node := rep.node _ t here
        have popped : Replicated late (· ≠ channel.target)
            ((c.popped channel rest).report (.delivered channel wire)) :=
          (rep.popped on fun ne => absurd rfl ne).report _
        refine popped.act here (fun lock => t.recorded channel.source wire lock)
          (fun lock => Arbitrator.arrival_accounts (node ▸ ne) means lock)
          (fun _ _ _ gone => gone) ?_ ?_ fun _ ne => ne
        · intro lock peer member
          obtain rfl | known := Arbitrator.mem_of_mem_recorded member
          · exact ⟨ne, .inl source⟩
          · exact rep.knows _ t here lock peer known
        · intro x tx hx nex lock
          have before := rep.replica x _ tx t hx here nex trivial lock
          change replay _ (((c.popped channel rest).wires x channel.target).filterMap _) ↔ _
          rw [wires_popped]
          by_cases eq : x = channel.source
          · -- The head of the link is on record now instead of on its way.
            subst eq
            rw [on] at before
            rw [if_pos ⟨rfl, rfl⟩, Arbitrator.replay_recorded, ← before]
            cases about : wire.signal? lock <;> simp [about]
          · rw [if_neg fun both => eq both.1, propext (Arbitrator.mem_recorded_of_ne eq)]
            exact before

/-! ### Nodes that die, and timers that run out -/

/-- What only the log of a cluster or its timers make different makes no difference. -/
theorem congr {c' : LockCluster} (rep : Replicated late told c) (nodes : c'.nodes = c.nodes)
    (links : c'.links = c.links) : Replicated late told c' := by
  obtain ⟨nodes', links', timers', reports'⟩ := c'
  dsimp only at nodes links
  subst nodes links
  exact ⟨rep.node, rep.outbox, rep.coherent, rep.knows, rep.source, rep.replica⟩

/-- When a node is gone, the others are late to notice. -/
theorem bereft (rep : Replicated (fun _ _ => False) (fun _ => True) c) (dead : NodeName) :
    Replicated (fun k peer => peer = dead ∧ k ∈ (c.bereft dead).nodes) (fun _ => True)
      (c.bereft dead) := by
  have left : ∀ {k : NodeName} {t : Arbitrator}, (c.bereft dead).nodes[k]? = some t →
      k ≠ dead ∧ c.nodes[k]? = some t := by
    intro k t here
    rw [nodes_bereft] at here
    split at here
    next => cases here
    next ne => exact ⟨ne, here⟩
  have stays : ∀ {k : NodeName}, k ≠ dead → k ∈ c.nodes → k ∈ (c.bereft dead).nodes := by
    intro k ne there
    rw [Std.ExtTreeMap.mem_iff_isSome_getElem?, nodes_bereft, if_neg ne]
    exact Std.ExtTreeMap.mem_iff_isSome_getElem?.1 there
  refine ⟨?_, ?_, ?_, ?_, ?_, ?_⟩
  · exact fun k t here => rep.node k t (left here).2
  · exact fun k t here => rep.outbox k t (left here).2
  · exact fun k t here => rep.coherent k t (left here).2
  · intro k t here lock peer known
    obtain ⟨ne, there⟩ := rep.knows k t (left here).2 lock peer known
    refine ⟨ne, ?_⟩
    by_cases eq : peer = dead
    · exact .inr ⟨eq, mem_nodes here⟩
    · exact .inl (stays eq (there.resolve_right id))
  · intro p q nonempty
    rw [wires_bereft] at nonempty
    split at nonempty
    next => exact absurd rfl nonempty
    next both =>
      obtain ⟨there, ne⟩ := rep.source p q nonempty
      exact ⟨stays (fun eq => both (.inl eq)) there, ne⟩
  · intro x y tx ty hx hy ne _ lock
    have both : ¬ (x = dead ∨ y = dead) := fun either => either.elim (left hx).1 (left hy).1
    rw [wires_bereft, if_neg both]
    exact rep.replica x y tx ty (left hx).2 (left hy).2 ne trivial lock

/-- A node notices that another is gone. -/
theorem notice {dead : NodeName} {rest : List NodeName}
    (rep : Replicated (fun x peer => peer = dead ∧ x ∈ k :: rest) (fun _ => True) c)
    (gone : dead ∉ c.nodes) :
    Replicated (fun x peer => peer = dead ∧ x ∈ rest) (fun _ => True)
      (c.act k (.peerDisconnected dead)) := by
  cases here : c.nodes[k]? with
  | none =>
    rw [act_of_absent here]
    refine ⟨rep.node, rep.outbox, rep.coherent, ?_, rep.source, rep.replica⟩
    intro x tx hx lock peer known
    obtain ⟨ne, there⟩ := rep.knows x tx hx lock peer known
    refine ⟨ne, there.imp_right fun late => ⟨late.1, (List.mem_cons.1 late.2).resolve_left ?_⟩⟩
    rintro rfl
    simp [here] at hx
  | some t =>
    refine rep.act here (fun lock => (t.standing lock).knows \ {dead})
      (fun lock => Arbitrator.peerDisconnected_accounts dead) ?_ ?_ ?_ fun _ _ => trivial
    · exact fun x peer ne late => ⟨late.1, (List.mem_cons.1 late.2).resolve_left ne⟩
    · intro lock peer known
      obtain ⟨ne, there⟩ := rep.knows k t here lock peer known.1
      exact ⟨ne, .inl (there.resolve_right fun late => known.2 late.1)⟩
    · intro x tx hx ne lock
      -- The locks of a dead node are the only ones that are forgotten.
      have other : x ≠ dead := fun eq => gone (eq ▸ mem_nodes hx)
      have same : (x ∈ (t.standing lock).knows \ {dead}) = (x ∈ (t.standing lock).knows) := by
        simp [other]
      simp only [same]
      exact rep.replica x k tx t hx here ne trivial lock

theorem mem_nodes_act_iff (k x : NodeName) (op : LockOp) :
    x ∈ (c.act k op).nodes ↔ x ∈ c.nodes := by
  cases here : c.nodes[k]? with
  | none => rw [act_of_absent here]
  | some t => exact mem_nodes_act here op

theorem kill (rep : Replicated (fun _ _ => False) (fun _ => True) c) (dead : NodeName) :
    Replicated (fun _ _ => False) (fun _ => True) (c.kill dead) := by
  have notices : ∀ (rest : List NodeName) (c : LockCluster), dead ∉ c.nodes →
      Replicated (fun x peer => peer = dead ∧ x ∈ rest) (fun _ => True) c →
      Replicated (fun _ _ => False) (fun _ => True) (rest.foldl (fun c other =>
        (c.act other (.peerDisconnected dead)).act other (.removeSubscriber dead)) c) := by
    intro rest
    -- By induction on the nodes that are still to notice.
    induction rest with
    | nil => exact fun c _ rep => by simpa using rep
    | cons k rest ih =>
      intro c gone rep
      refine ih _ ?_ ?_
      · rwa [mem_nodes_act_iff, mem_nodes_act_iff]
      · exact (rep.notice gone).act_same fun t lock _ => Arbitrator.removeSubscriber_accounts dead
  obtain ⟨reports, eq⟩ := kill_eq (c := c) dead
  rw [eq]
  refine notices _ _ ?_ ?_
  · simp [LockCluster.bereft]
  · have same : Replicated (fun _ _ => False) (fun _ => True) { c with reports } :=
      rep.congr rfl rfl
    simpa using same.bereft dead

theorem expire (rep : Replicated late (fun _ => True) c) (node : NodeName) :
    Replicated late (fun _ => True) (c.expire node) := by
  have runOut : ∀ (timers : List (Lock × Nat)) (c : LockCluster),
      Replicated late (fun _ => True) c → Replicated late (fun _ => True)
        (timers.foldl (fun c timer => c.act node (.timeout timer.1 timer.2)) c) := by
    intro timers
    induction timers with
    | nil => exact fun c rep => rep
    | cons timer timers ih =>
      exact fun c rep => ih _ (rep.act_same fun t lock _ => Arbitrator.timeout_accounts timer.2)
  exact runOut _ _ (rep.congr rfl rfl)

/-! ### Runs -/

/-- Whatever happens, what nodes have on record is up to date but for what is on its way. -/
theorem step (rep : Replicated (fun _ _ => False) (fun _ => True) c) {step : ClusterStep}
    (internal : step.IsInternal) :
    Replicated (fun _ _ => False) (fun _ => True) (c.step step) := by
  cases step with
  | act k op => exact rep.act_same fun t lock _ => Arbitrator.internal_accounts internal lock
  | deliver channel => exact rep.deliver channel
  | kill dead => exact rep.kill dead
  | expire node => exact rep.expire node

theorem ofNodes (outranks : Precedence) (names : NameSet) :
    Replicated (fun _ _ => False) (fun _ => True) (ofNodes outranks names) := by
  have mesh := meshed_ofNodes outranks names
  have standing : ∀ (k : NodeName) (t : Arbitrator),
      (LockCluster.ofNodes outranks names).nodes[k]? = some t → ∀ lock,
        t.standing lock = ⟨False, ∅, .idle⟩ := by
    intro k t here lock
    rw [nodes_ofNodes] at here
    split at here
    next => exact Option.some.inj here ▸ (meshed_spec outranks names k).2.standing lock
    next => cases here
  refine ⟨fun k t here => (mesh.member k t here).node, mesh.outbox, ?_, ?_, ?_, ?_⟩
  · intro k t here lock
    rw [standing k t here]
    exact Standing.coherent_start
  · intro k t here lock peer known
    rw [standing k t here] at known
    exact absurd known (Set.notMem_empty peer)
  · exact fun p q nonempty => absurd (by simp [wires, LockCluster.ofNodes]) nonempty
  · intro x y tx ty hx hy _ _ lock
    rw [standing x tx hx, standing y ty hy]
    simp [wires, LockCluster.ofNodes, replay]

theorem run (outranks : Precedence) (names : NameSet) {steps : List ClusterStep}
    (internal : ∀ step ∈ steps, step.IsInternal) :
    Replicated (fun _ _ => False) (fun _ => True)
      ((LockCluster.ofNodes outranks names).run steps) := by
  induction steps using List.reverseRecOn with
  | nil => exact ofNodes outranks names
  | append_singleton steps step ih =>
    rw [run_append_one]
    exact (ih fun s member => internal s (List.mem_append_left _ member)).step
      (internal step (by simp))

end Replicated

/-! ### When nothing is on its way -/

/-- Nothing is on its way from one node to another. -/
def Quiet (c : LockCluster) : Prop := ∀ p ∈ c.nodes, ∀ q ∈ c.nodes, c.wires p q = []

variable {lock : Lock}

theorem holds_iff (here : c.nodes[k]? = some t) : c.Holds k lock ↔ (t.standing lock).holds := by
  simp [Holds, here, Arbitrator.standing]

namespace Replicated

/-- Once nothing is on its way, a node has another on record exactly if it holds the lock. -/
theorem knows_iff (rep : Replicated (fun _ _ => False) (fun _ => True) c) (quiet : c.Quiet)
    (here : c.nodes[k]? = some t) {peer : NodeName} :
    peer ∈ (t.standing lock).knows ↔ peer ≠ k ∧ c.Holds peer lock := by
  have told : ∀ (tp : Arbitrator), c.nodes[peer]? = some tp → peer ≠ k →
      (peer ∈ (t.standing lock).knows ↔ (tp.standing lock).holds) := by
    intro tp there ne
    have replica := rep.replica peer k tp t there here ne trivial lock
    rwa [quiet peer (mem_nodes there) k (mem_nodes here)] at replica
  constructor
  · intro known
    obtain ⟨ne, there⟩ := rep.knows k t here lock peer known
    obtain ⟨tp, found⟩ := Option.isSome_iff_exists.1
      (Std.ExtTreeMap.isSome_getElem?_iff_mem.2 (there.resolve_right id))
    exact ⟨ne, (holds_iff found).2 ((told tp found ne).1 known)⟩
  · rintro ⟨ne, tp, found, held⟩
    exact (told tp found ne).2 held

/-- Once nothing is on its way, a lock has one holder at most. -/
theorem exclusive (rep : Replicated (fun _ _ => False) (fun _ => True) c) (quiet : c.Quiet) :
    c.Exclusive lock := by
  intro x y holdsx holdsy
  by_contra ne
  obtain ⟨ty, found, held⟩ := holdsy
  have known := (rep.knows_iff quiet found).2 ⟨ne, holdsx⟩
  exact (rep.coherent y ty found lock).sole held x known

/-- Once nothing is on its way, every node has the holder of a lock on record as its owner. -/
theorem owner_eq_some_iff (rep : Replicated (fun _ _ => False) (fun _ => True) c)
    (quiet : c.Quiet) (here : c.nodes[k]? = some t) {owner : NodeName} :
    t.owner lock = some owner ↔ c.Holds owner lock := by
  have sound : ∀ {owner}, t.owner lock = some owner → c.Holds owner lock := by
    intro owner owned
    obtain ⟨held, eq⟩ | known := Arbitrator.records_of_owner owned
    · rw [eq, rep.node k t here]
      exact ⟨t, here, held⟩
    · exact ((rep.knows_iff quiet here).1 known).2
  refine ⟨sound, fun holds => ?_⟩
  cases owned : t.owner lock with
  | some other => rw [rep.exclusive quiet other owner (sound owned) holds]
  | none =>
    obtain ⟨free, unknown⟩ := Arbitrator.owner_eq_none_iff.1 owned
    by_cases eq : owner = k
    · subst eq
      exact absurd ((holds_iff here).1 holds) free
    · exact absurd ((rep.knows_iff quiet here).2 ⟨eq, holds⟩) (unknown owner)

end Replicated

/-- Whatever happens in a cluster, what a node has on record of another, brought up to date by what
is on its way, is what the other holds; and once nothing is on its way any more, a lock has one
holder at most, which every node has on record as its owner. -/
theorem records_converge (outranks : Precedence) (names : NameSet) (steps : List ClusterStep)
    (internal : ∀ step ∈ steps, step.IsInternal) :
    let c := (ofNodes outranks names).run steps
    (∀ (x y : NodeName) (tx ty : Arbitrator), c.nodes[x]? = some tx → c.nodes[y]? = some ty →
      x ≠ y → (c.wires x y).foldl LockWire.apply (ty.peerLocks[x]?.getD ∅) = tx.held) ∧
    (c.Quiet → ∀ lock, c.Exclusive lock ∧
      ∀ (y : NodeName) (ty : Arbitrator), c.nodes[y]? = some ty →
        ∀ owner, ty.owner lock = some owner ↔ c.Holds owner lock) := by
  have rep := Replicated.run outranks names internal
  refine ⟨?_, fun quiet lock => ⟨rep.exclusive quiet, ?_⟩⟩
  · intro x y tx ty hx hy ne
    refine Std.ExtTreeSet.ext_mem fun lock => ?_
    rw [LockWire.mem_applies]
    exact rep.replica x y tx ty hx hy ne trivial lock
  · exact fun y ty hy owner => rep.owner_eq_some_iff quiet hy

/-- Both nodes take a lock when their time is up, without anybody's consent; then one of three
nodes dies, and what was sent arrives. -/
def grantingRun : List ClusterStep :=
  [.act "a" (.acquire contested 0), .act "b" (.acquire contested 1),
    .act "a" (.timeout contested 1), .act "b" (.timeout contested 1), .kill "c"] ++
  deliveries [("a", "b"), ("b", "a"), ("a", "b"), ("b", "a"), ("a", "b"), ("b", "a")]

theorem records_converge_in_grantingRun :
    ((ofNodes .byName (.ofList ["a", "b", "c"])).run (grantingRun.take 4)).Holds "a" contested ∧
    ((ofNodes .byName (.ofList ["a", "b", "c"])).run (grantingRun.take 4)).Holds "b" contested ∧
    (∀ step ∈ grantingRun, step.IsInternal) ∧
    ((ofNodes .byName (.ofList ["a", "b", "c"])).run grantingRun).Exclusive contested := by
  have internal : ∀ step ∈ grantingRun, step.IsInternal := by
    simp [grantingRun, deliveries, ClusterStep.IsInternal, LockOp.IsInternal]
  have idle : ((ofNodes .byName (.ofList ["a", "b", "c"])).run grantingRun).busy = [] := by
    decide +kernel
  refine ⟨by decide +kernel, by decide +kernel, internal, ?_⟩
  have quiet : ((ofNodes .byName (.ofList ["a", "b", "c"])).run grantingRun).Quiet :=
    fun p _ q _ => wires_of_busy idle p q
  obtain ⟨-, settled⟩ :=
    records_converge .byName (.ofList ["a", "b", "c"]) grantingRun internal
  exact (settled quiet contested).1

end LockCluster

end Cohort

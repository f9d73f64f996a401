import Cohort.Lock.Cluster
import Mathlib.Tactic.Common

/-!
# What the effects of an operation come to

An operation leaves what it wants done in the outbox of its node. This file says what doing it
makes of the rest of a cluster: what is appended to each link, what is reported, and that nothing
else changes.

## Main definitions

* `LockCluster.wires`: what is on the link from one node to another.

## Main statements

* `LockCluster.nodes_act`, `LockCluster.wires_act`, `LockCluster.reports_act`.
* `LockCluster.deliver_of_idle`, `LockCluster.deliver_of_wire`: a delivery takes the head off a
  link and makes its target act.
-/

namespace Cohort

namespace LockEffect

/-- What an arbitrator's wish puts on the link to a node. -/
def wire? (follower : Bool) (target : NodeName) : LockEffect → Option LockWire
  | publish event => if follower then some (.event event) else none
  | ratify peer lock acquire => if peer = target then some (.ratify lock acquire) else none
  | startTimer _ _ | lost _ | answer _ _ => none

/-- Only events for followers and consents for the node itself go on the link to it. -/
theorem of_wire? {follower : Bool} {target : NodeName} {effect : LockEffect} {wire : LockWire}
    (put : effect.wire? follower target = some wire) :
    follower = true ∨ ∃ lock acquire, effect = .ratify target lock acquire := by
  cases effect with
  | publish event =>
    cases follower with
    | true => exact .inl rfl
    | false => cases put
  | ratify peer lock acquire =>
    by_cases eq : peer = target
    · subst eq
      exact .inr ⟨lock, acquire, rfl⟩
    · simp [wire?, eq] at put
  | startTimer | lost | answer => cases put

/-- What can be seen of an arbitrator's wish. -/
def report? (node : NodeName) : LockEffect → Option ClusterReport
  | publish _ | ratify _ _ _ | startTimer _ _ => none
  | lost lock => some (.lost node lock)
  | answer ticket reply => some (.answered ticket reply)

end LockEffect

namespace LockCluster

/-! ### What the effects of an operation come to -/

/-- What is on the link from one node to another. -/
def wires (c : LockCluster) (p q : NodeName) : List LockWire :=
  c.links[(⟨p, q⟩ : Channel)]?.getD []

/-- Whether what one node publishes goes to another. -/
def reaches (c : LockCluster) (p q : NodeName) : Bool := q ∈ c.nodes ∧ q ≠ p

variable {c : LockCluster} {node p q : NodeName}

theorem wires_send (source target : NodeName) (wire : LockWire) :
    (c.send source target wire).wires p q =
      c.wires p q ++ if source = p ∧ target = q then [wire] else [] := by
  by_cases eq : source = p ∧ target = q
  · obtain ⟨rfl, rfl⟩ := eq
    simp [wires, send]
  · have ne : (⟨source, target⟩ : Channel) ≠ ⟨p, q⟩ := fun same => eq (by simpa using same)
    simp [wires, send, Std.ExtTreeMap.getElem?_insert, ne, eq]

theorem wires_sends {others : List NodeName} (nodup : others.Nodup) (source : NodeName)
    (wire : LockWire) :
    (others.foldl (fun c other => c.send source other wire) c).wires p q =
      c.wires p q ++ if source = p ∧ q ∈ others then [wire] else [] := by
  induction others generalizing c with
  | nil => simp
  | cons other others ih =>
    obtain ⟨new, nodup⟩ := List.nodup_cons.1 nodup
    rw [List.foldl_cons, ih nodup, wires_send]
    by_cases eq : other = q
    · subst eq
      simp [new]
    · simp [eq, Ne.symm eq]

theorem nodes_sends (others : List NodeName) (source : NodeName) (wire : LockWire) :
    (others.foldl (fun c other => c.send source other wire) c).nodes = c.nodes := by
  induction others generalizing c with
  | nil => rfl
  | cons other others ih => exact ih

theorem reports_sends (others : List NodeName) (source : NodeName) (wire : LockWire) :
    (others.foldl (fun c other => c.send source other wire) c).reports = c.reports := by
  induction others generalizing c with
  | nil => rfl
  | cons other others ih => exact ih

theorem mem_others : q ∈ c.others node ↔ c.reaches node q = true := by
  simp [others, reaches]

theorem nodup_others : (c.others node).Nodup :=
  (Std.ExtTreeMap.nodup_keys (t := c.nodes)).filter _

theorem nodes_perform (effect : LockEffect) : (perform node c effect).nodes = c.nodes := by
  cases effect with
  | publish event => exact nodes_sends _ _ _
  | ratify | startTimer | lost | answer => rfl

theorem wires_perform (effect : LockEffect) :
    (perform node c effect).wires p q =
      c.wires p q ++ if node = p then (effect.wire? (c.reaches node q) q).toList else [] := by
  cases effect with
  | publish event =>
    simp only [perform, wires_sends nodup_others, mem_others, LockEffect.wire?]
    by_cases source : node = p <;> cases other : c.reaches node q <;> simp [source]
  | ratify peer lock acquire =>
    simp only [perform, wires_send, LockEffect.wire?]
    by_cases source : node = p <;> by_cases target : peer = q <;> simp [source, target]
  | startTimer | lost | answer => simp [perform, LockEffect.wire?, report, wires]

theorem reports_perform (effect : LockEffect) :
    (perform node c effect).reports = c.reports ++ (effect.report? node).toList := by
  cases effect with
  | publish event => simp [perform, LockEffect.report?, reports_sends]
  | ratify | startTimer => simp [perform, LockEffect.report?, send]
  | lost | answer => rfl

variable {effects : List LockEffect}

theorem nodes_performs : (effects.foldl (perform node) c).nodes = c.nodes := by
  induction effects generalizing c with
  | nil => rfl
  | cons effect effects ih => rw [List.foldl_cons, ih, nodes_perform]

theorem wires_performs :
    (effects.foldl (perform node) c).wires p q =
      c.wires p q ++
        if node = p then effects.filterMap (LockEffect.wire? (c.reaches node q) q) else [] := by
  induction effects generalizing c with
  | nil => simp
  | cons effect effects ih =>
    have reaches : (perform node c effect).reaches node q = c.reaches node q := by
      simp only [LockCluster.reaches, nodes_perform]
    rw [List.foldl_cons, ih, wires_perform, reaches]
    by_cases source : node = p
    · subst source
      cases wire : effect.wire? (c.reaches node q) q <;> simp [wire]
    · simp [source]

theorem reports_performs :
    (effects.foldl (perform node) c).reports =
      c.reports ++ effects.filterMap (LockEffect.report? node) := by
  induction effects generalizing c with
  | nil => simp
  | cons effect effects ih =>
    rw [List.foldl_cons, ih, reports_perform]
    cases seen : effect.report? node <;> simp [seen]

theorem act_of_absent (absent : c.nodes[node]? = none) (op : LockOp) : c.act node op = c := by
  simp [act, absent]

variable {t : Arbitrator}

theorem nodes_act (here : c.nodes[node]? = some t) (op : LockOp) :
    (c.act node op).nodes = c.nodes.insert node { t.step op with outbox := [] } := by
  rw [act, here]
  exact nodes_performs

theorem mem_nodes_act {k : NodeName} (here : c.nodes[node]? = some t) (op : LockOp) :
    k ∈ (c.act node op).nodes ↔ k ∈ c.nodes := by
  have present : node ∈ c.nodes := Std.ExtTreeMap.mem_iff_isSome_getElem?.2 (by simp [here])
  rw [nodes_act here, Std.ExtTreeMap.mem_insert, Std.compare_eq_iff_eq]
  exact ⟨fun either => either.elim (fun eq => eq ▸ present) id, .inr⟩

theorem wires_act (here : c.nodes[node]? = some t) (op : LockOp) :
    (c.act node op).wires p q = c.wires p q ++
      if node = p then (t.step op).outbox.filterMap (LockEffect.wire? (c.reaches node q) q)
      else [] := by
  have present : node ∈ c.nodes := Std.ExtTreeMap.mem_iff_isSome_getElem?.2 (by simp [here])
  have reaches : ({ c with nodes := c.nodes.insert node { t.step op with outbox := [] } } :
      LockCluster).reaches node q = c.reaches node q := by
    have same : q ∈ c.nodes.insert node { t.step op with outbox := [] } ↔ q ∈ c.nodes := by
      rw [Std.ExtTreeMap.mem_insert, Std.compare_eq_iff_eq]
      exact ⟨fun either => either.elim (fun eq => eq ▸ present) id, .inr⟩
    simp only [LockCluster.reaches, same]
  rw [act, here, ← reaches]
  exact wires_performs

theorem reports_act (here : c.nodes[node]? = some t) (op : LockOp) :
    (c.act node op).reports =
      c.reports ++ (t.step op).outbox.filterMap (LockEffect.report? node) := by
  rw [act, here]
  exact reports_performs

/-- Take what is at the head of a link off it. -/
def popped (c : LockCluster) (channel : Channel) (rest : List LockWire) : LockCluster :=
  { c with links := c.links.insert channel rest }

theorem wires_popped (channel : Channel) (rest : List LockWire) :
    (c.popped channel rest).wires p q =
      if p = channel.source ∧ q = channel.target then rest else c.wires p q := by
  by_cases eq : p = channel.source ∧ q = channel.target
  · obtain ⟨rfl, rfl⟩ := eq
    simp [wires, popped]
  · have ne : channel ≠ ⟨p, q⟩ := by
      rintro rfl
      exact eq ⟨rfl, rfl⟩
    simp [wires, popped, Std.ExtTreeMap.getElem?_insert, ne, eq]

theorem link_of_wires {channel : Channel} {wire : LockWire} {rest : List LockWire}
    (on : c.wires channel.source channel.target = wire :: rest) :
    c.links[channel]? = some (wire :: rest) := by
  unfold wires at on
  cases content : c.links[channel]? with
  | none => simp [content] at on
  | some wires => simpa [content] using on

theorem deliver_of_idle {channel : Channel} (idle : c.wires channel.source channel.target = []) :
    c.deliver channel = c := by
  unfold deliver
  split
  next wire rest on => simp [wires, on] at idle
  next => rfl

/-- What is delivered to a node that is not there gets lost. -/
theorem deliver_of_absent {channel : Channel} {wire : LockWire} {rest : List LockWire}
    (on : c.wires channel.source channel.target = wire :: rest)
    (absent : channel.target ∉ c.nodes) : c.deliver channel = c.popped channel rest := by
  have link := link_of_wires on
  simp only [deliver, link, absent, if_false]
  rfl

/-- What a delivery makes of a cluster in which the target is there. -/
theorem deliver_of_wire {channel : Channel} {wire : LockWire} {rest : List LockWire}
    (on : c.wires channel.source channel.target = wire :: rest)
    (there : channel.target ∈ c.nodes) :
    c.deliver channel =
      match arrival channel wire with
      | some op => ((c.popped channel rest).report (.delivered channel wire)).act channel.target op
      | none => (c.popped channel rest).report (.delivered channel wire) := by
  have link := link_of_wires on
  simp only [deliver, link, there, if_true]
  rfl

/-- No link is busy only if nothing is on any. -/
theorem wires_of_busy (idle : c.busy = []) (p q : NodeName) : c.wires p q = [] := by
  rw [busy, List.map_eq_nil_iff, List.filter_eq_nil_iff] at idle
  unfold wires
  cases on : c.links[(⟨p, q⟩ : Channel)]? with
  | none => rfl
  | some wires =>
    have empty := idle _ (Std.ExtTreeMap.mem_toList_iff_getElem?_eq_some.2 on)
    simpa using empty

/-! ### A node that is gone -/

/-- What is left of a cluster when a node is gone. -/
def bereft (c : LockCluster) (node : NodeName) : LockCluster where
  nodes := c.nodes.erase node
  links := c.links.filter fun channel _ => channel.source ≠ node ∧ channel.target ≠ node
  timers := c.timers.erase node
  reports := c.reports

theorem nodes_bereft (dead k : NodeName) :
    (c.bereft dead).nodes[k]? = if k = dead then none else c.nodes[k]? := by
  rw [bereft, Std.ExtTreeMap.getElem?_erase]
  by_cases eq : dead = k
  · rw [if_pos (Std.compare_eq_iff_eq.2 eq), if_pos eq.symm]
  · rw [if_neg (fun same => eq (Std.compare_eq_iff_eq.1 same)), if_neg (Ne.symm eq)]

theorem wires_bereft (dead : NodeName) :
    (c.bereft dead).wires p q = if p = dead ∨ q = dead then [] else c.wires p q := by
  simp only [wires, bereft, Std.ExtTreeMap.getElem?_filter']
  by_cases gone : p = dead ∨ q = dead
  · have lost : ¬ (p ≠ dead ∧ q ≠ dead) := by tauto
    cases c.links[(⟨p, q⟩ : Channel)]? <;> simp [gone, lost, Option.filter]
  · have kept : p ≠ dead ∧ q ≠ dead := by tauto
    cases c.links[(⟨p, q⟩ : Channel)]? <;> simp [kept, Option.filter]

theorem kill_eq (dead : NodeName) : ∃ reports,
    let c' := ({ c with reports } : LockCluster).bereft dead
    c.kill dead = c'.nodes.keys.foldl (fun c other =>
      (c.act other (.peerDisconnected dead)).act other (.removeSubscriber dead)) c' := by
  have forsaken : ∀ (tickets : List Ticket) (c : LockCluster), ∃ reports,
      tickets.foldl (fun c ticket => c.report (.forsaken ticket)) c = { c with reports } := by
    intro tickets
    induction tickets with
    | nil => exact fun c => ⟨c.reports, rfl⟩
    | cons ticket tickets ih =>
      intro c
      obtain ⟨reports, eq⟩ := ih (c.report (.forsaken ticket))
      exact ⟨reports, eq⟩
  obtain ⟨reports, eq⟩ := forsaken (c.waiting dead) c
  refine ⟨reports, ?_⟩
  unfold kill
  rw [eq]
  rfl

end LockCluster

end Cohort

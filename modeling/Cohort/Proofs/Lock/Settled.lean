import Cohort.Proofs.Lock.Callers
import Cohort.Proofs.Lock.Progress
import Cohort.Proofs.Lock.Replica

/-!
# What is left when nothing is on its way

Callers acquire, release and query locks, and everything sent has arrived. Then all nodes agree on
the owner of a lock, and every caller was answered or waits at its own node for an attempt on the
lock to come to an end. An attempt that was refused on the word of an outdated record is left
behind until its time is up; but if all answers were given in time, no attempt is left, and
everybody was answered.

## Main definitions

* `LockState.ofOwner`: what a node says of a lock that is settled.

## Main statements

* `LockCluster.calls_settle`: what is left after a run of calls and deliveries.
* `LockCluster.outdated_refusal_strands`: a run after which a caller waits in vain.
-/

namespace Cohort

open Lock (Initiative Chronicle Scene)

/-- The state of a lock that is settled. -/
def LockState.ofOwner : Option NodeName → LockState
  | some owner => .held owner
  | none => .free

theorem Arbitrator.state_of_settled {t : Arbitrator} {lock : Lock}
    (settled : t.attempts[lock]? = none) : t.state lock = .ofOwner (t.owner lock) := by
  unfold state
  rw [settled]
  cases t.owner lock <;> rfl

namespace LockCluster

variable {names : NameSet} {outranks : Precedence} {lock : Lock} {steps : List ClusterStep}
  {k : NodeName} {t : Arbitrator} {free : Initiative → Prop} {op : LockOp}

/-- Calls and deliveries are among what may happen to a cluster. -/
theorem internal_of_asks {step : ClusterStep} (asks : step.Asks free) : step.IsInternal := by
  cases step with
  | act k op => cases op <;> first | exact trivial | exact asks.elim
  | deliver => exact trivial
  | kill | expire => exact asks.elim

theorem meshed_of_run (calls : ∀ step ∈ steps, step.Asks (· ≠ .keep)) :
    ((ofNodes outranks names).run steps).Meshed names outranks :=
  (preserved_of_run (P := fun _ => True) calls
    (fun _ _ => allows_of_free Initiative.noConfusion Initiative.noConfusion)
    (admitted_all _ ⟨"", none⟩ steps) trivial fun _ _ => trivial).1

/-- Whoever asked for a lock in a run waits for it, or was answered. -/
theorem attended_of_run (calls : ∀ step ∈ steps, step.Asks (· ≠ .keep))
    (made : .act k op ∈ steps) (member : k ∈ names) {waiter : Waiter}
    (asks : waiter ∈ op.asked lock) :
    ((ofNodes outranks names).run steps).Attended lock (fun _ => True) k waiter.ticket := by
  induction steps using List.reverseRecOn with
  | nil => cases made
  | append_singleton steps step ih =>
    have calls' : ∀ s ∈ steps, s.Asks (· ≠ .keep) :=
      fun s earlier => calls s (List.mem_append_left _ earlier)
    have last := calls step (by simp)
    rw [run_append_one]
    refine attended_step last
      (fun k op t doing _ => attends_of_doing last doing) ?_
    obtain earlier | now := List.mem_append.1 made
    · exact .inl (ih calls' earlier)
    · obtain rfl := List.mem_singleton.1 now
      exact .inr ⟨((meshed_of_run calls').nodes k).2 member, op, rfl, waiter, asks, rfl⟩

/-- As long as all answers are given in time, a run of calls and deliveries is lively. -/
theorem lively_of_run (orders : outranks.Orders names)
    (calls : ∀ step ∈ steps, step.Asks (· ≠ .keep))
    (timely : (ofNodes outranks names).Admitted Scene.Timely lock steps) :
    ((ofNodes outranks names).run steps).Meshed names outranks ∧
      (((ofNodes outranks names).run steps).scene lock
        ((ofNodes outranks names).chronicle lock steps)).Lively names outranks :=
  preserved_of_run calls
    (fun _ _ => allows_of_free Initiative.noConfusion Initiative.noConfusion) timely
    Scene.lively_start fun step lively => step.lively orders (fun ne => ne rfl) lively

/-- A scene is quiet once nothing is on its way. -/
theorem Meshed.quiet_scene {c : LockCluster} (mesh : c.Meshed names outranks) (quiet : c.Quiet)
    (h : Chronicle) : (c.scene lock h).Quiet names := by
  intro x hx y hy _
  simp [scene, quiet x ((mesh.nodes x).2 hx) y ((mesh.nodes y).2 hy)]

/-- Every attempt on a lively lock has come to an end when nothing is on its way. -/
theorem Meshed.attempts_of_quiet {c : LockCluster} (mesh : c.Meshed names outranks)
    (orders : outranks.Orders names) {h : Chronicle}
    (lively : (c.scene lock h).Lively names outranks) (quiet : c.Quiet)
    (here : c.nodes[k]? = some t) : t.attempts[lock]? = none := by
  have member := (mesh.nodes k).1 (Replicated.mem_nodes here)
  have idle := lively.idle_of_quiet orders (mesh.quiet_scene quiet h) member
  rw [node_scene here] at idle
  exact Arbitrator.attempts_of_idle idle

/-- Where no attempt is left, whoever asked for the lock was answered. -/
theorem Attended.answered {c : LockCluster} {good : Option NodeName → Prop} {ticket : Ticket}
    (attended : c.Attended lock good k ticket)
    (settled : ∀ t, c.nodes[k]? = some t → t.attempts[lock]? = none) :
    ∃ owner, good owner ∧ .answered ticket (.ok owner) ∈ c.reports := by
  refine attended.resolve_left ?_
  rintro ⟨t, here, waiter, waits, -⟩
  rw [Arbitrator.callers_of_none (settled t here)] at waits
  cases waits

/-- When nothing is on its way, all nodes agree on the owner of a lock. -/
theorem Replicated.agreed {c : LockCluster}
    (rep : Replicated (fun _ _ => False) (fun _ => True) c) (quiet : c.Quiet) :
    ∃ owner : Option NodeName, (∀ k, c.Holds k lock ↔ owner = some k) ∧
      ∀ (k : NodeName) (t : Arbitrator), c.nodes[k]? = some t → t.owner lock = owner := by
  by_cases held : ∃ w, c.Holds w lock
  · obtain ⟨w, holds⟩ := held
    refine ⟨some w, fun k => ?_, fun k t here => (rep.owner_eq_some_iff quiet here).2 holds⟩
    rw [Option.some.injEq]
    exact ⟨fun holds' => rep.exclusive quiet w k holds holds', fun eq => eq ▸ holds⟩
  · refine ⟨none, fun k => iff_of_false (fun holds => held ⟨k, holds⟩) nofun, fun k t here => ?_⟩
    cases owned : t.owner lock with
    | none => rfl
    | some w => exact absurd ⟨w, (rep.owner_eq_some_iff quiet here).1 owned⟩ held

/-- After calls and deliveries every caller was answered, or waits at its node for an attempt on the
lock to end. When nothing is on its way any more, all nodes agree on the owner of the lock, who is
the only node that holds it; and if all answers were given in time, no attempt is left, and
everybody was answered. -/
theorem calls_settle (outranks : Precedence) (names : NameSet) (lock : Lock)
    (steps : List ClusterStep) (calls : ∀ step ∈ steps, step.Asks (· ≠ .keep)) :
    let c := (ofNodes outranks names).run steps
    (∀ (k : NodeName) (op : LockOp), .act k op ∈ steps → k ∈ names → ∀ waiter ∈ op.asked lock,
      c.Attended lock (fun _ => True) k waiter.ticket) ∧
    (c.Quiet → ∃ owner : Option NodeName, (∀ k, c.Holds k lock ↔ owner = some k) ∧
      (∀ (k : NodeName) (t : Arbitrator), c.nodes[k]? = some t → t.owner lock = owner) ∧
      (outranks.Orders names → (ofNodes outranks names).Admitted Scene.Timely lock steps →
        (∀ (k : NodeName) (t : Arbitrator), c.nodes[k]? = some t →
          t.attempts[lock]? = none ∧ t.state lock = .ofOwner owner) ∧
        ∀ (k : NodeName) (op : LockOp), .act k op ∈ steps → k ∈ names →
          ∀ waiter ∈ op.asked lock, ∃ reply, .answered waiter.ticket (.ok reply) ∈ c.reports)) := by
  have rep := Replicated.run outranks names fun step member => internal_of_asks (calls step member)
  have attended : ∀ (k : NodeName) (op : LockOp), .act k op ∈ steps → k ∈ names →
      ∀ waiter ∈ op.asked lock, ((ofNodes outranks names).run steps).Attended lock
        (fun _ => True) k waiter.ticket :=
    fun k op made member waiter asks => attended_of_run calls made member asks
  refine ⟨attended, fun quiet => ?_⟩
  obtain ⟨owner, holder, agreed⟩ := rep.agreed quiet
  refine ⟨owner, holder, agreed, fun orders timely => ?_⟩
  obtain ⟨mesh, lively⟩ := lively_of_run orders calls timely
  have settled : ∀ (k : NodeName) (t : Arbitrator),
      ((ofNodes outranks names).run steps).nodes[k]? = some t → t.attempts[lock]? = none :=
    fun k t here => mesh.attempts_of_quiet orders lively quiet here
  refine ⟨fun k t here => ?_, fun k op made member waiter asks => ?_⟩
  · refine ⟨settled k t here, ?_⟩
    rw [Arbitrator.state_of_settled (settled k t here), agreed k t here]
  · obtain ⟨reply, -, answered⟩ :=
      (attended k op made member waiter asks).answered fun t here => settled k t here
    exact ⟨reply, answered⟩

/-- Two nodes want the lock at once. The one that comes first takes it and gives it up again, and
then the third node takes it. -/
def turnsRun : List ClusterStep :=
  [.act "c" (.acquire contested 0), .act "a" (.acquire contested 1)] ++
  deliveries [("c", "b"), ("c", "a")] ++ tellAll ++ deliveries [("b", "c")] ++ hearAll ++
  [.act "b" (.query contested 2)] ++ tellAll ++
  [.act "a" (.release contested 3)] ++ goThrough ++
  [.act "b" (.acquire contested 4)] ++
  deliveries [("b", "a"), ("b", "c"), ("a", "b"), ("c", "b"), ("b", "a"), ("b", "c")]

/-- In the end all nodes know that the last one has the lock, and all five callers were
answered. -/
theorem calls_settle_in_turnsRun :
    let c := (ofNodes .byName (.ofList ["a", "b", "c"])).run turnsRun
    (∀ step ∈ turnsRun, step.Asks (· ≠ .keep)) ∧ c.Quiet ∧
    (ofNodes .byName (.ofList ["a", "b", "c"])).Admitted Scene.Timely contested turnsRun ∧
    (∀ (k : NodeName) (t : Arbitrator), c.nodes[k]? = some t →
      t.attempts[contested]? = none ∧ t.state contested = .held "b") ∧
    ∀ ticket ∈ [0, 1, 2, 3, 4], ∃ reply, .answered ticket (.ok reply) ∈ c.reports := by
  intro c
  have calls : ∀ step ∈ turnsRun, step.Asks (· ≠ .keep) := by
    simp [turnsRun, goThrough, tellAll, hearAll, deliveries, ClusterStep.Asks, LockOp.Asks]
  have idle : c.busy = [] := by decide +kernel
  have quiet : c.Quiet := fun p _ q _ => wires_of_busy idle p q
  have timely : (ofNodes .byName (.ofList ["a", "b", "c"])).Admitted Scene.Timely contested
      turnsRun := admitted_of_areTimely (by decide +kernel)
  obtain ⟨-, settle⟩ := calls_settle .byName (.ofList ["a", "b", "c"]) contested turnsRun calls
  obtain ⟨owner, holder, -, settled⟩ := settle quiet
  obtain ⟨agreed, answered⟩ := settled (Precedence.byName_orders _) timely
  have holds : c.Holds "b" contested := by decide +kernel
  obtain rfl : owner = some "b" := (holder "b").1 holds
  refine ⟨calls, quiet, timely, agreed, fun ticket asked => ?_⟩
  have made : ∃ k op waiter, .act k op ∈ turnsRun ∧ k ∈ (.ofList ["a", "b", "c"] : NameSet) ∧
      waiter ∈ op.asked contested ∧ waiter.ticket = ticket := by
    simp only [List.mem_cons, List.not_mem_nil, or_false] at asked
    obtain rfl | rfl | rfl | rfl | rfl := asked
    · exact ⟨"c", .acquire contested 0, ⟨.acquire, 0⟩, by simp [turnsRun], by decide +kernel,
        by simp [LockOp.asked], rfl⟩
    · exact ⟨"a", .acquire contested 1, ⟨.acquire, 1⟩, by simp [turnsRun], by decide +kernel,
        by simp [LockOp.asked], rfl⟩
    · exact ⟨"b", .query contested 2, ⟨.outcome, 2⟩, by simp [turnsRun], by decide +kernel,
        by simp [LockOp.asked], rfl⟩
    · exact ⟨"a", .release contested 3, ⟨.release, 3⟩, by simp [turnsRun], by decide +kernel,
        by simp [LockOp.asked], rfl⟩
    · exact ⟨"b", .acquire contested 4, ⟨.acquire, 4⟩, by simp [turnsRun], by decide +kernel,
        by simp [LockOp.asked], rfl⟩
  obtain ⟨k, op, waiter, made, member, asks, rfl⟩ := made
  exact answered k op made member waiter asks

/-! ### A run after which a caller waits in vain -/

/-- By the time `c` hears that `b` acquires the lock it has not heard yet that `a` gave it up, and
keeps silent. -/
def strandedRun : List ClusterStep :=
  [.act "a" (.acquire contested 0)] ++ goThrough ++
  [.act "a" (.release contested 1)] ++ tellAll ++ hearAll ++ deliveries [("a", "b")] ++
  [.act "b" (.acquire contested 2)] ++
  deliveries [("b", "c"), ("a", "c"), ("b", "a"), ("a", "b")]

theorem asks_strandedRun : ∀ step ∈ strandedRun, step.Asks (· ≠ .keep) := by
  simp [strandedRun, goThrough, tellAll, hearAll, deliveries, ClusterStep.Asks, LockOp.Asks]

theorem quiet_strandedRun :
    ((ofNodes .byName (.ofList ["a", "b", "c"])).run strandedRun).Quiet := by
  have idle : ((ofNodes .byName (.ofList ["a", "b", "c"])).run strandedRun).busy = [] := by
    decide +kernel
  exact fun p _ q _ => wires_of_busy idle p q

/-- Calls and deliveries alone can leave a caller waiting when nothing is on its way any more, and
nodes that disagree about the state of the lock. -/
theorem outdated_refusal_strands :
    let c := (ofNodes .byName (.ofList ["a", "b", "c"])).run strandedRun
    Precedence.byName.Orders (.ofList ["a", "b", "c"]) ∧
    (∀ step ∈ strandedRun, step.Asks (· ≠ .keep)) ∧ c.Quiet ∧
    (∃ t ∈ c.nodes["b"]?, contested ∈ t.attempts ∧ t.state contested = .acquiring "b") ∧
    (∃ t ∈ c.nodes["c"]?, t.state contested = .free) ∧
    ∀ reply, .answered 2 reply ∉ c.reports := by
  refine ⟨Precedence.byName_orders _, asks_strandedRun, quiet_strandedRun, by decide +kernel,
    by decide +kernel, fun reply answered => ?_⟩
  have others : (((ofNodes .byName (.ofList ["a", "b", "c"])).run strandedRun).reports.all fun
      | .answered ticket _ => ticket != 2
      | _ => true) = true := by
    decide +kernel
  simpa using List.all_eq_true.1 others _ answered

end LockCluster

end Cohort

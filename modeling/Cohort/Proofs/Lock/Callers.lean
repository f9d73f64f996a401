import Cohort.Proofs.Lock.Mesh

/-!
# What becomes of callers

Whoever asks a node for a lock waits while the lock is being settled, or is answered. Nothing that
callers ask for and nothing that arrives makes a node forget about somebody who waits; and nobody
waits in order to release a lock who did not ask for that.

## Main definitions

* `Arbitrator.Attends`: an operation forgets about no caller.
* `LockCluster.Attended`: a caller waits at a node, or was answered.

## Main statements

* `Arbitrator.call_attends`, `Arbitrator.arrival_attends`: no operation forgets about a caller.
* `LockCluster.attended_step`: no step does.
-/

namespace Cohort

open Lock (Initiative Signal)

/-- The callers of some lock, as far as they concern another one. -/
def concerning (lock other : Lock) (waiters : List Waiter) : List Waiter :=
  if other = lock then waiters else []

@[simp] theorem concerning_self (lock : Lock) (waiters : List Waiter) :
    concerning lock lock waiters = waiters :=
  if_pos rfl

theorem concerning_of_ne {lock other : Lock} (ne : other ≠ lock) (waiters : List Waiter) :
    concerning lock other waiters = [] :=
  if_neg ne

/-- Who asks for a lock by an operation. -/
def LockOp.asked (lock : Lock) : LockOp → List Waiter
  | .acquire other ticket => concerning lock other [⟨.acquire, ticket⟩]
  | .release other ticket => concerning lock other [⟨.release, ticket⟩]
  | .query other ticket => concerning lock other [⟨.outcome, ticket⟩]
  | _ => []

namespace Arbitrator

variable {t t' t'' u : Arbitrator} {lock other : Lock} {good : Option NodeName → Prop}
  {asked asked' : List Waiter} {waiter : Waiter} {attempt : Attempt} {owner : Option NodeName}

/-- A caller waits for a lock, or was given a good answer. -/
def Attended (t : Arbitrator) (lock : Lock) (good : Option NodeName → Prop) (ticket : Ticket) :
    Prop :=
  (∃ waiter ∈ t.callers lock, waiter.ticket = ticket) ∨
    ∃ owner, good owner ∧ .answer ticket (.ok owner) ∈ t.outbox

theorem not_leaving (patient : waiter.wish ≠ .release) :
    ¬ Leaving (concerning lock other [waiter]) := by
  rintro ⟨w, waits, wish⟩
  unfold concerning at waits
  split at waits
  · exact patient (List.mem_singleton.1 waits ▸ wish)
  · cases waits

/-- Whoever waited for a lock, and whoever asked for it, waits for it now or was given a good
answer, and nobody wants to release the lock by now who did not ask for that. -/
structure Attends (t : Arbitrator) (lock : Lock) (good : Option NodeName → Prop)
    (asked : List Waiter) (t' : Arbitrator) : Prop where
  outbox : t.outbox ⊆ t'.outbox
  attended : ∀ waiter ∈ t.callers lock ++ asked, t'.Attended lock good waiter.ticket
  leaving : Leaving (t'.callers lock) → Leaving (t.callers lock ++ asked)

namespace Attends

theorem same (callers : t'.callers lock = t.callers lock) (outbox : t.outbox ⊆ t'.outbox) :
    t.Attends lock good [] t' where
  outbox := outbox
  attended waiter waits := by
    rw [List.append_nil, ← callers] at waits
    exact .inl ⟨waiter, waits, rfl⟩
  leaving := by
    rw [callers, List.append_nil]
    exact id

/-- Those who ask need not be attended to, as long as they do not want to release the lock. -/
theorem ignore (attends : t.Attends lock good asked t') (patient : ¬ Leaving asked) :
    t.Attends lock good [] t' where
  outbox := attends.outbox
  attended waiter waits := by
    rw [List.append_nil] at waits
    exact attends.attended waiter (List.mem_append_left _ waits)
  leaving leaving := by
    rw [List.append_nil]
    obtain ⟨w, waits, wish⟩ := attends.leaving leaving
    obtain early | late := List.mem_append.1 waits
    · exact ⟨w, early, wish⟩
    · exact absurd ⟨w, late, wish⟩ patient

end Attends

/-! ### Moves -/

/-- Callers get good answers only. -/
def Scope.answering (good : Option NodeName → Prop) : Scope :=
  { Scope.whole with replies := fun reply => ∃ owner, reply = .ok owner ∧ good owner }

/-- Whoever waited for a lock or was at hand waits for it now, is at hand or was given a good
answer, and nobody wants to release the lock by now who did not want to before. -/
structure Desk.Attends (good : Option NodeName → Prop) (lock : Lock) (d d' : Desk) : Prop where
  outbox : d.table.outbox ⊆ d'.table.outbox
  attended : ∀ waiter ∈ d.people lock, (∃ w ∈ d'.people lock, w.ticket = waiter.ticket) ∨
    ∃ owner, good owner ∧ .answer waiter.ticket (.ok owner) ∈ d'.table.outbox
  leaving : Leaving (d'.people lock) → Leaving (d.people lock)

namespace Desk.Attends

variable {d d' d'' : Desk}

theorem same (people : d'.people lock = d.people lock) (outbox : d.table.outbox ⊆ d'.table.outbox) :
    d.Attends good lock d' where
  outbox := outbox
  attended waiter waits := .inl ⟨waiter, people ▸ waits, rfl⟩
  leaving := by rw [people]; exact id

theorem trans (first : d.Attends good lock d') (second : d'.Attends good lock d'') :
    d.Attends good lock d'' where
  outbox := List.Subset.trans first.outbox second.outbox
  attended waiter waits := by
    obtain ⟨w, waits', same⟩ | ⟨owner, fine, answered⟩ := first.attended waiter waits
    · rw [← same]
      exact second.attended w waits'
    · exact .inr ⟨owner, fine, second.outbox answered⟩
  leaving leaving := first.leaving (second.leaving leaving)

end Desk.Attends

theorem Spares.outbox_subset (spares : t.Spares other t') : t.outbox ⊆ t'.outbox := by
  obtain ⟨effects, grown, -⟩ := spares.outbox
  rw [grown]
  exact List.subset_append_left _ _

theorem Serve.attends {d d' : Desk} (serve : Serve (.answering good) lock d d') :
    d.Attends good lock d' := by
  have outbox := serve.spares.outbox_subset
  cases serve with
  | @answered t waiter rest reply fits =>
    obtain ⟨owner, rfl, fine⟩ := fits
    refine ⟨outbox, fun w waits => ?_, fun ⟨w, waits, wish⟩ => ⟨w, ?_, wish⟩⟩
    · obtain early | late := List.mem_append.1 waits
      · exact .inl ⟨w, List.mem_append_left _ early, rfl⟩
      · obtain rfl | later := List.mem_cons.1 late
        · exact .inr ⟨owner, fine, by simp [answer, emit]⟩
        · exact .inl ⟨w, List.mem_append_right _ later, rfl⟩
    · obtain early | late := List.mem_append.1 waits
      · exact List.mem_append_left _ early
      · exact List.mem_append_right _ (List.mem_cons_of_mem _ late)
  | joined current => exact .same (people_enqueue current _ _) outbox
  | @begun t waiter rest acquire _ idle =>
    -- The caller has nothing left to do itself: it waits for the outcome of the attempt.
    have people : Desk.people ⟨t.beginLocal lock acquire waiter.ticket, rest⟩ lock =
        ⟨.outcome, waiter.ticket⟩ :: rest :=
      congrArg (· ++ rest) ((callers_startAttempt _ _ _ _).trans (if_pos rfl))
    have before : Desk.people ⟨t, waiter :: rest⟩ lock = waiter :: rest :=
      congrArg (· ++ waiter :: rest) (callers_of_none idle)
    refine ⟨outbox, ?_, ?_⟩
    · rw [people, before]
      intro w waits
      obtain rfl | later := List.mem_cons.1 waits
      · exact .inl ⟨_, List.mem_cons_self, rfl⟩
      · exact .inl ⟨w, List.mem_cons_of_mem _ later, rfl⟩
    · rw [people, before]
      rintro ⟨w, waits, wish⟩
      obtain rfl | later := List.mem_cons.1 waits
      · cases wish
      · exact ⟨w, List.mem_cons_of_mem _ later, wish⟩
  | taken | given => exact .same rfl outbox
  | withdrawn _ current => exact .same (people_drop current _) outbox

theorem Moves.attends_desk {d d' : Desk} (moves : Moves (.answering good) lock d d') :
    d.Attends good lock d' := by
  induction moves with
  | refl => exact .same rfl (List.Subset.refl _)
  | tail _ move ih =>
    refine ih.trans ?_
    obtain serve | ⟨-, people⟩ := move.people
    · exact serve.attends
    · exact .same people move.spares.outbox_subset

/-- An operation on a lock attends to whoever waits for it. -/
theorem Moves.attends (moves : Moves (.answering good) lock ⟨t, asked⟩ ⟨t', []⟩) :
    t.Attends lock good asked t' := by
  obtain ⟨outbox, attended, leaving⟩ := moves.attends_desk
  have people : Desk.people ⟨t', []⟩ lock = t'.callers lock := List.append_nil _
  rw [people] at attended leaving
  exact ⟨outbox, attended, leaving⟩

/-- An operation on another lock attends to nobody. -/
theorem Attends.aside {op : LockOp} (names : op.lock? = some other) (ne : lock ≠ other)
    (t : Arbitrator) : t.Attends lock good [] (t.step op) :=
  have spares := (step_handles names t).toSpares
  .same (callers_congr (spares.elsewhere lock ne).1) spares.outbox_subset

/-! ### Calls and arrivals -/

/-- It is good to answer callers with the owner of a lock, and good to give them any answer if they
may come to claim the lock or to leave it. -/
def Suits (good : Option NodeName → Prop) (waiters : List Waiter) (owner : Option NodeName) :
    Prop :=
  good owner ∧ (owner = none ∨ Leaving waiters → ∀ owner, good owner)

theorem Suits.scope (suits : Suits good asked owner) :
    (Scope.answering good).Suits asked owner where
  reply := ⟨owner, rfl, suits.1⟩
  claim none := ⟨trivial, fun any => ⟨any, rfl, suits.2 (.inl none) any⟩⟩
  leave leaving := ⟨trivial, fun any => ⟨any, rfl, suits.2 (.inr leaving) any⟩⟩

/-- What a node has on record as the owner of a lock is a good answer to whoever acquires it, and
so is the node itself if nobody follows it. -/
theorem acquire_attends (ticket : Ticket)
    (fine : other = lock → ∀ owner,
      t.owner lock = some owner ∨ owner = t.node ∧ t.subscribers.isEmpty = true →
        good (some owner)) :
    t.Attends lock good (concerning lock other [⟨.acquire, ticket⟩]) (t.acquire other ticket) := by
  by_cases eq : lock = other
  · subst eq
    rw [concerning_self]
    have served : Served (.answering good) lock ⟨t, [⟨.acquire, ticket⟩]⟩
        ⟨t.acquire lock ticket, []⟩ :=
      acquire_serves ticket trivial fun owner told => ⟨_, rfl, fine rfl owner told⟩
    exact served.moves.attends
  · rw [concerning_of_ne (Ne.symm eq)]
    have names : (LockOp.acquire other ticket).lock? = some other := rfl
    exact .aside names eq t

theorem arrival_attends {wire : LockWire} {op : LockOp} {channel : Channel}
    (suits : ∀ signal, wire.signal? lock = some signal →
      ∀ owner, t.Verdict lock channel.source signal owner → Suits good (t.callers lock) owner)
    (means : LockCluster.arrival channel wire = some op) : t.Attends lock good [] (t.step op) := by
  cases about : wire.signal? lock with
  | some signal =>
    have moves : Moves (.answering good) lock ⟨t, []⟩ ⟨t.step op, []⟩ :=
      arrival_moves about trivial trivial
        (fun owner verdict => (suits signal about owner verdict).scope) means
    exact moves.attends
  | none =>
    obtain ⟨other, names, ne⟩ := lock_of_arrival about means
    exact .aside names ne t

theorem asked_eq {op : LockOp} (names : op.lock? = some other) :
    op.asked lock = concerning lock other op.asking := by
  cases op <;> cases names <;> first | rfl | exact (ite_self _).symm

/-- Any answer is a good one. -/
theorem call_attends {free : Initiative → Prop} {op : LockOp} (asks : op.Asks free) :
    t.Attends lock (fun _ => True) (op.asked lock) (t.step op) := by
  obtain ⟨other, names⟩ := lock_of_asks asks
  rw [asked_eq names]
  by_cases eq : lock = other
  · subst eq
    rw [concerning_self]
    have served : Served (.answering fun _ => True) lock ⟨t, op.asking⟩ ⟨t.step op, []⟩ :=
      call_serves asks names (fun _ _ => trivial) fun owner => ⟨owner, rfl, trivial⟩
    exact served.moves.attends
  · rw [concerning_of_ne (Ne.symm eq)]
    exact .aside names eq t

/-- Whoever queries a lock is not in anybody's way. -/
theorem query_ignores {other : Lock} (ticket : Ticket) :
    t.Attends lock good [] (t.query other ticket) := by
  by_cases eq : lock = other
  · subst eq
    unfold query
    split
    next attempt current =>
      have joined : Serve (.answering good) lock ⟨t, [⟨.outcome, ticket⟩]⟩
          ⟨t.enqueue lock attempt ⟨.outcome, ticket⟩, []⟩ := .joined current
      refine (Moves.attends (.single (.served joined))).ignore ?_
      rintro ⟨w, waits, wish⟩
      obtain rfl := List.mem_singleton.1 waits
      cases wish
    next => exact .same rfl (List.subset_append_left _ _)
  · have names : (LockOp.query other ticket).lock? = some other := rfl
    exact .aside names eq t

end Arbitrator

/-! ### Clusters -/

namespace LockCluster

variable {c : LockCluster} {free : Initiative → Prop} {lock : Lock}
  {good : Option NodeName → Prop} {k j : NodeName} {t : Arbitrator} {ticket : Ticket}
  {step : ClusterStep} {asked : LockOp → List Waiter}

/-- A caller waits at a node for a lock, or was given a good answer. -/
def Attended (c : LockCluster) (lock : Lock) (good : Option NodeName → Prop) (k : NodeName)
    (ticket : Ticket) : Prop :=
  (∃ t ∈ c.nodes[k]?, ∃ waiter ∈ t.callers lock, waiter.ticket = ticket) ∨
    ∃ owner, good owner ∧ .answered ticket (.ok owner) ∈ c.reports

theorem Attended.mono {good' : Option NodeName → Prop} (better : ∀ owner, good owner → good' owner)
    (attended : c.Attended lock good k ticket) : c.Attended lock good' k ticket :=
  attended.imp_right fun ⟨owner, fine, answered⟩ => ⟨owner, better owner fine, answered⟩

/-- What a call or a delivery makes of the tables, and of what is reported. -/
theorem step_tables (asks : step.Asks free) : ∃ seen : List ClusterReport,
    (∀ report ∈ seen, ∃ channel wire, report = .delivered channel wire) ∧
    ((c.step step).nodes = c.nodes ∧ (c.step step).reports = c.reports ++ seen ∧
        (∀ k op, c.doing? step = some (k, op) → c.nodes[k]? = none) ∨
      ∃ k op t, c.doing? step = some (k, op) ∧ c.nodes[k]? = some t ∧
        (c.step step).nodes = c.nodes.insert k { t.step op with outbox := [] } ∧
        (c.step step).reports =
          c.reports ++ seen ++ (t.step op).outbox.filterMap (LockEffect.report? k)) := by
  cases step with
  | act k op =>
    refine ⟨[], nofun, ?_⟩
    rw [LockCluster.step, List.append_nil]
    cases here : c.nodes[k]? with
    | none =>
      rw [act_of_absent here]
      refine .inl ⟨rfl, rfl, ?_⟩
      rintro k' op' doing
      obtain ⟨rfl, -⟩ := Prod.mk.inj (Option.some.inj doing)
      exact here
    | some t => exact .inr ⟨k, op, t, rfl, here, nodes_act here op, reports_act here op⟩
  | deliver channel =>
    rw [LockCluster.step]
    cases on : c.wires channel.source channel.target with
    | nil =>
      rw [deliver_of_idle on]
      exact ⟨[], nofun, .inl ⟨rfl, (List.append_nil _).symm, by simp [doing?, on]⟩⟩
    | cons wire rest =>
      cases here : c.nodes[channel.target]? with
      | none =>
        have absent : channel.target ∉ c.nodes := by
          simp [Std.ExtTreeMap.mem_iff_isSome_getElem?, here]
        rw [deliver_of_absent on absent]
        refine ⟨[], nofun, .inl ⟨rfl, (List.append_nil _).symm, fun k op doing => ?_⟩⟩
        simp only [doing?, on, List.head?_cons, Option.bind_some, Option.map_eq_some_iff] at doing
        obtain ⟨op, -, eq⟩ := doing
        obtain ⟨rfl, -⟩ := Prod.mk.inj eq
        exact here
      | some t =>
        have there : channel.target ∈ c.nodes :=
          Std.ExtTreeMap.mem_iff_isSome_getElem?.2 (by simp [here])
        rw [deliver_of_wire on there]
        refine ⟨[.delivered channel wire], fun r seen => ⟨channel, wire, by simpa using seen⟩, ?_⟩
        cases means : arrival channel wire with
        | none => exact .inl ⟨rfl, rfl, by simp [doing?, on, means]⟩
        | some op =>
          have here' : ((c.popped channel rest).report
              (.delivered channel wire)).nodes[channel.target]? = some t := here
          exact .inr ⟨channel.target, op, t, by simp [doing?, on, means], here,
            nodes_act here' op, reports_act here' op⟩
  | kill | expire => exact asks.elim

/-- The table of a node that a step makes do something. -/
theorem node_of_doing {op : LockOp} (asks : step.Asks free) (doing : c.doing? step = some (k, op))
    (here : c.nodes[k]? = some t) :
    (c.step step).nodes[k]? = some { t.step op with outbox := [] } := by
  obtain ⟨-, -, ⟨-, -, absent⟩ | ⟨k', op', t', doing', here', nodes, -⟩⟩ :=
    step_tables (c := c) asks
  · simp [absent k op doing] at here
  · obtain ⟨rfl, rfl⟩ := Prod.mk.inj (Option.some.inj (doing.symm.trans doing'))
    obtain rfl := Option.some.inj (here.symm.trans here')
    simp [nodes]

/-- What is reported stays reported. -/
theorem reports_step (asks : step.Asks free) : c.reports ⊆ (c.step step).reports := by
  obtain ⟨seen, -, ⟨-, reports, -⟩ | ⟨k, op, t, -, -, -, reports⟩⟩ := step_tables (c := c) asks
  · rw [reports]
    exact List.subset_append_left _ _
  · rw [reports, List.append_assoc]
    exact List.subset_append_left _ _

/-- Nobody asks for a lock by what arrives. -/
theorem asked_of_arrival {channel : Channel} {wire : LockWire} {op : LockOp}
    (means : arrival channel wire = some op) : op.asked lock = [] := by
  cases wire with
  | event event =>
    cases event <;> simp only [arrival, LockOp.ofEvent?, Option.some.injEq, reduceCtorEq] at means
    all_goals subst means; rfl
  | ratify =>
    obtain rfl := Option.some.inj means
    rfl

/-- What a step makes a node do is a call, or it is an arrival. -/
theorem doing_cases {op : LockOp} (doing : c.doing? step = some (k, op)) :
    step = .act k op ∨ ∃ channel wire rest, step = .deliver channel ∧ channel.target = k ∧
      c.wires channel.source k = wire :: rest ∧ arrival channel wire = some op := by
  cases step with
  | act =>
    obtain ⟨rfl, rfl⟩ := Prod.mk.inj (Option.some.inj doing)
    exact .inl rfl
  | deliver channel =>
    cases on : c.wires channel.source channel.target with
    | nil => simp [doing?, on] at doing
    | cons wire rest =>
      simp only [doing?, on, List.head?_cons, Option.bind_some, Option.map_eq_some_iff] at doing
      obtain ⟨op', means, eq⟩ := doing
      obtain ⟨rfl, rfl⟩ := Prod.mk.inj eq
      exact .inr ⟨channel, wire, rest, rfl, rfl, on, means⟩
  | kill | expire => cases doing

theorem attends_of_doing {op : LockOp} (asks : step.Asks free)
    (doing : c.doing? step = some (k, op)) :
    t.Attends lock (fun _ => True) (op.asked lock) (t.step op) := by
  obtain rfl | ⟨channel, wire, rest, rfl, rfl, -, means⟩ := doing_cases doing
  · exact Arbitrator.call_attends asks
  · rw [asked_of_arrival means]
    exact Arbitrator.arrival_attends
      (fun _ _ _ _ => ⟨trivial, fun _ _ => trivial⟩) means

/-- No call and no delivery makes a node forget about a caller. -/
theorem attended_step (asks : step.Asks free)
    (attends : ∀ k op t, c.doing? step = some (k, op) → c.nodes[k]? = some t →
      t.Attends lock good (asked op) (t.step op))
    (either : c.Attended lock good j ticket ∨ j ∈ c.nodes ∧ ∃ op, c.doing? step = some (j, op) ∧
      ∃ waiter ∈ asked op, waiter.ticket = ticket) : (c.step step).Attended lock good j ticket := by
  have kept : c.reports ⊆ (c.step step).reports := reports_step asks
  obtain ⟨seen, -, ⟨nodes, -, absent⟩ | ⟨k, op, t, doing, here, nodes, reports⟩⟩ :=
    step_tables (c := c) asks
  · obtain (⟨t, here, waits⟩ | ⟨owner, fine, answered⟩) | ⟨there, op, doing, -⟩ := either
    · exact .inl ⟨t, nodes ▸ here, waits⟩
    · exact .inr ⟨owner, fine, kept answered⟩
    · simp [Std.ExtTreeMap.mem_iff_isSome_getElem?, absent j op doing] at there
  · have attends := attends k op t doing here
    -- At the node that does something, whoever waited or asks now goes on to wait or is answered.
    have serves : ∀ waiter ∈ t.callers lock ++ asked op,
        (c.step step).Attended lock good k waiter.ticket := by
      intro waiter waits
      obtain ⟨w, waits', same⟩ | ⟨owner, fine, answered⟩ := attends.attended waiter waits
      · exact .inl ⟨{ t.step op with outbox := [] }, by simp [nodes], w, waits', same⟩
      · refine .inr ⟨owner, fine, ?_⟩
        rw [reports]
        exact List.mem_append_right _ (List.mem_filterMap.2 ⟨_, answered, rfl⟩)
    rcases either with (⟨t', here', w, waits, rfl⟩ | ⟨owner, fine, answered⟩) |
      ⟨there, op', doing', w, waits, rfl⟩
    · -- Whoever waits at another node is not concerned.
      by_cases eq : k = j
      · subst eq
        obtain rfl := Option.some.inj (here.symm.trans here')
        exact serves w (List.mem_append_left _ waits)
      · refine .inl ⟨t', ?_, w, waits, rfl⟩
        rw [nodes, Std.ExtTreeMap.getElem?_insert, if_neg (by simpa using eq)]
        exact here'
    · exact .inr ⟨owner, fine, kept answered⟩
    · obtain ⟨rfl, rfl⟩ := Prod.mk.inj (Option.some.inj (doing.symm.trans doing'))
      exact serves w (List.mem_append_right _ waits)

/-- Nobody comes to wait in order to release a lock who did not ask for that. -/
theorem patient_step (asks : step.Asks free)
    (attends : ∀ k op t, c.doing? step = some (k, op) → c.nodes[k]? = some t →
      t.Attends lock good (asked op) (t.step op))
    (patient : ∀ (k : NodeName) (t : Arbitrator), c.nodes[k]? = some t →
      ¬ Arbitrator.Leaving (t.callers lock))
    (asking : ∀ k op, c.doing? step = some (k, op) → ¬ Arbitrator.Leaving (asked op))
    (here : (c.step step).nodes[k]? = some t) : ¬ Arbitrator.Leaving (t.callers lock) := by
  obtain ⟨-, -, ⟨nodes, -⟩ | ⟨k', op, t', doing, here', nodes, -⟩⟩ := step_tables (c := c) asks
  · exact patient k t (nodes ▸ here)
  · rw [nodes, Std.ExtTreeMap.getElem?_insert] at here
    split at here
    next =>
      obtain rfl := Option.some.inj here
      intro leaving
      obtain ⟨w, waits, wish⟩ := (attends k' op t' doing here').leaving leaving
      obtain early | late := List.mem_append.1 waits
      · exact patient k' t' here' ⟨w, early, wish⟩
      · exact asking k' op doing ⟨w, late, wish⟩
    next => exact patient k t here

end LockCluster

end Cohort

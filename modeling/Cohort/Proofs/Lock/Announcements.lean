import Cohort.Proofs.Lock.Conservation
import Cohort.Proofs.Lock.Publication

/-!
# How attempts come about

An attempt of a node's own begins with its announcement, which everybody who follows the node has to
consent to, and has a number that no attempt before had. While it is in flight it is not announced
again, and waits for nobody else than at first. So whatever an operation does, an attempt that it
leaves in flight is either the one from before, or was begun and announced by the operation.

## Main definitions

* `Attempt.Awaits`, `Attempt.announcement`: the nodes an attempt waits for, and what they are told.
* `Arbitrator.Proceeds`: what an operation on one lock does to the attempt on it.
* `Arbitrator.Heralds`: what any operation does to the attempts of the node's own.
* `Arbitrator.Waits`: attempts wait for nobody but those who follow this node.

* `Arbitrator.Traces`: where the attempts come from that an operation leaves in flight.

## Main statements

* `Arbitrator.Move.proceeds`, `Arbitrator.Move.traces`: what one move does.
* `Arbitrator.step_announces`: what every operation does.
-/

namespace Cohort

namespace Attempt

/-- An attempt waits for the consent of a node. -/
def Awaits (attempt : Attempt) (node : NodeName) : Prop :=
  ∃ ratifiers, attempt.ratifiers = some ratifiers ∧ node ∈ ratifiers

/-- What those who follow a node are told when it begins an attempt on a lock. -/
def announcement (attempt : Attempt) (lock : Lock) : NodeEvent :=
  if attempt.acquire then .acquiring lock else .releasing lock

/-- An attempt is another one further on: callers may have come to wait and nodes may have
consented. -/
structure Continues (attempt' attempt : Attempt) : Prop where
  generation : attempt'.generation = attempt.generation
  acquire : attempt'.acquire = attempt.acquire
  isLocal : attempt'.isLocal = attempt.isLocal
  awaits : ∀ node, attempt'.Awaits node → attempt.Awaits node

theorem Continues.refl (attempt : Attempt) : attempt.Continues attempt :=
  ⟨rfl, rfl, rfl, fun _ awaits => awaits⟩

theorem Continues.trans {attempt attempt' attempt'' : Attempt}
    (second : attempt''.Continues attempt') (first : attempt'.Continues attempt) :
    attempt''.Continues attempt :=
  ⟨second.generation.trans first.generation, second.acquire.trans first.acquire,
    second.isLocal.trans first.isLocal,
    fun node awaits => first.awaits node (second.awaits node awaits)⟩

theorem Continues.announcement {attempt attempt' : Attempt} (continues : attempt'.Continues attempt)
    (lock : Lock) : attempt'.announcement lock = attempt.announcement lock := by
  rw [Attempt.announcement, Attempt.announcement, continues.acquire]

theorem isLocal_of_awaits {attempt : Attempt} {node : NodeName} (awaits : attempt.Awaits node) :
    attempt.isLocal = true := by
  obtain ⟨ratifiers, own, -⟩ := awaits
  rw [isLocal, own]
  rfl

end Attempt

/-- Whether an effect has nothing to do with how attempts begin. -/
def LockEffect.isPlain : LockEffect → Bool
  | .publish (.acquiring _) | .publish (.releasing _) | .startTimer _ _ => false
  | _ => true

namespace Arbitrator

variable {t t' t'' : Arbitrator} {lock other : Lock} {attempt : Attempt}
  {events events' : List NodeEvent} {effects : List LockEffect} {scope : Scope} {d d' : Desk}
  {requests : List (Lock × Ticket)}

theorem announcement_not_mem (plain : ∀ effect ∈ effects, effect.isPlain = true)
    (attempt : Attempt) (lock : Lock) :
    attempt.announcement lock ∉ LockEffect.events effects := by
  intro there
  obtain ⟨effect, among, published⟩ := List.mem_filterMap.1 there
  have quiet := plain effect among
  cases effect with
  | publish event =>
    obtain rfl := Option.some.inj published
    unfold Attempt.announcement at quiet
    split at quiet <;> cases quiet
  | _ => cases published

/-- The attempt of the node's own on a lock, if there is one afterwards: it is the one from before
and was not announced again while these events were published, or it began meanwhile, was announced,
and waits for nobody but those who follow the node. -/
def Evolves (events : List NodeEvent) (lock : Lock) (t t' : Arbitrator) : Prop :=
  ∀ attempt', t'.attempts[lock]? = some attempt' → attempt'.isLocal = true →
    (∃ attempt, t.attempts[lock]? = some attempt ∧ attempt'.Continues attempt ∧
      attempt'.announcement lock ∉ events) ∨
    t.generation < attempt'.generation ∧ attempt'.generation ≤ t'.generation ∧
      (∀ node, attempt'.Awaits node → node ∈ t.subscribers) ∧ attempt'.announcement lock ∈ events

/-- An operation on one lock: it concerns neither who follows this node nor who outranks whom,
starts timers for this lock only, and begins attempts with a new number. -/
structure Proceeds (t : Arbitrator) (lock : Lock) (t' : Arbitrator) : Prop where
  subscribers : t'.subscribers = t.subscribers
  outranks : t'.outranks = t.outranks
  generation : t.generation ≤ t'.generation
  outbox : ∃ effects, t'.outbox = t.outbox ++ effects ∧
    (∀ other generation, .startTimer other generation ∈ effects → other = lock) ∧
    Evolves (LockEffect.events effects) lock t t'

namespace Proceeds

/-- Nothing begins, and the attempt on the lock goes on if there is one left. -/
theorem plain (effects : List LockEffect) (subscribers : t'.subscribers = t.subscribers)
    (outranks : t'.outranks = t.outranks)
    (generation : t'.generation = t.generation) (outbox : t'.outbox = t.outbox ++ effects)
    (plain : ∀ effect ∈ effects, effect.isPlain = true)
    (attempts : ∀ attempt', t'.attempts[lock]? = some attempt' →
      ∃ attempt, t.attempts[lock]? = some attempt ∧ attempt'.Continues attempt) :
    t.Proceeds lock t' := by
  refine ⟨subscribers, outranks, generation.ge, effects, outbox, fun other number there => ?_, ?_⟩
  · cases plain _ there
  · intro attempt' found own
    obtain ⟨attempt, before, continues⟩ := attempts attempt' found
    exact .inl ⟨attempt, before, continues, announcement_not_mem plain attempt' lock⟩

/-- Nothing is wanted, and the attempts are as they were. -/
theorem silent (subscribers : t'.subscribers = t.subscribers)
    (outranks : t'.outranks = t.outranks) (generation : t'.generation = t.generation)
    (outbox : t'.outbox = t.outbox) (attempts : t'.attempts = t.attempts) :
    t.Proceeds lock t' :=
  plain [] subscribers outranks generation (by rw [outbox, List.append_nil]) nofun
    fun attempt' found => ⟨attempt', attempts ▸ found, .refl attempt'⟩

theorem refl (t : Arbitrator) (lock : Lock) : t.Proceeds lock t :=
  silent rfl rfl rfl rfl rfl

theorem trans (first : t.Proceeds lock t') (second : t'.Proceeds lock t'') :
    t.Proceeds lock t'' := by
  obtain ⟨effects, grown, timers, evolves⟩ := first.outbox
  obtain ⟨effects', grown', timers', evolves'⟩ := second.outbox
  refine ⟨second.subscribers.trans first.subscribers, second.outranks.trans first.outranks,
    first.generation.trans second.generation, effects ++ effects', ?_, ?_, ?_⟩
  · rw [grown', grown, List.append_assoc]
  · intro other number there
    exact (List.mem_append.1 there).elim (timers other number) (timers' other number)
  · intro attempt'' found own
    rw [LockEffect.events_append, List.mem_append]
    obtain ⟨attempt', found', continues', silent'⟩ | ⟨new, latest, awaits, told⟩ :=
      evolves' attempt'' found own
    · have same := continues'.announcement lock
      obtain ⟨attempt, before, continues, silent⟩ | ⟨new, latest, awaits, told⟩ :=
        evolves attempt' found' (continues'.isLocal ▸ own)
      · exact .inl ⟨attempt, before, continues'.trans continues,
          not_or.2 ⟨same ▸ silent, silent'⟩⟩
      · rw [continues'.generation, same]
        exact .inr ⟨new, latest.trans second.generation,
          fun node waits => awaits node (continues'.awaits node waits), .inl told⟩
    · rw [first.subscribers] at awaits
      exact .inr ⟨first.generation.trans_lt new, latest, awaits, .inr told⟩

theorem emit {effect : LockEffect} (plain : effect.isPlain = true) :
    t.Proceeds lock (t.emit effect) :=
  Proceeds.plain [effect] rfl rfl rfl rfl
    (fun _ there => by rwa [List.mem_singleton.1 there])
    fun attempt' found => ⟨attempt', found, .refl attempt'⟩

theorem then_emit (first : t.Proceeds lock t') {effect : LockEffect}
    (plain : effect.isPlain = true) : t.Proceeds lock (t'.emit effect) :=
  first.trans (emit plain)

end Proceeds

/-! ## What moves do to attempts -/

theorem drop_proceeds : t.Proceeds lock (t.drop lock) := by
  refine .plain [] rfl rfl rfl (List.append_nil _).symm nofun fun attempt' found => ?_
  rw [attempts_drop_self] at found
  cases found

/-- A lock changes hands and is counted. -/
theorem rehold_proceeds (held : LockSet) (stats : LockStats) :
    t.Proceeds lock { t with held, stats } :=
  .silent rfl rfl rfl rfl rfl

theorem gain_proceeds : t.Proceeds lock (t.gain lock) :=
  (rehold_proceeds _ _).then_emit rfl

theorem relinquish_proceeds : t.Proceeds lock (t.relinquish lock) :=
  (rehold_proceeds _ _).then_emit rfl

/-- An attempt of the node's own is announced when it begins. -/
theorem beginLocal_proceeds (acquire : Bool) (ticket : Ticket) :
    t.Proceeds lock (t.beginLocal lock acquire ticket) where
  subscribers := rfl
  outranks := rfl
  generation := Nat.le_succ _
  outbox := by
    refine ⟨[.publish (if acquire then .acquiring lock else .releasing lock),
      .startTimer lock (t.generation + 1)], by simp [beginLocal, emit, startAttempt], ?_, ?_⟩
    · intro other number there
      obtain ⟨same, -⟩ : other = lock ∧ number = t.generation + 1 := by simpa using there
      exact same
    · intro attempt' found own
      have found : (t.attempts.insert lock _)[lock]? = some attempt' := found
      obtain rfl := Option.some.inj (Std.ExtTreeMap.getElem?_insert_self.symm.trans found)
      refine .inr ⟨Nat.lt_succ_self _, Nat.le_refl _, ?_, List.mem_cons_self⟩
      rintro node ⟨ratifiers, all, there⟩
      rwa [← Option.some.inj all] at there

/-- Following a peer's attempt is no attempt of the node's own. -/
theorem follow_proceeds (peer : NodeName) (acquire : Bool) (waiters : List Waiter) :
    t.Proceeds lock (t.follow peer lock acquire waiters) where
  subscribers := rfl
  outranks := rfl
  generation := Nat.le_succ _
  outbox := by
    refine ⟨[.ratify peer lock acquire], rfl, by simp, fun attempt' found own => ?_⟩
    have found : (t.attempts.insert lock _)[lock]? = some attempt' := found
    obtain rfl := Option.some.inj (Std.ExtTreeMap.getElem?_insert_self.symm.trans found)
    cases own

/-- An attempt that a node is struck from waits for the others as before. -/
theorem awaits_strike {node other : NodeName} :
    Attempt.Awaits { attempt with ratifiers := attempt.ratifiers.map (·.erase node) } other ↔
      attempt.Awaits other ∧ other ≠ node := by
  unfold Attempt.Awaits
  cases attempt.ratifiers with
  | none => simp
  | some ratifiers =>
    simp only [Option.map_some, Option.some.injEq, exists_eq_left', Std.ExtTreeSet.mem_erase]
    rw [Ne, Std.compare_eq_iff_eq, and_comm, eq_comm]

theorem strike_proceeds (node : NodeName) : t.Proceeds lock (t.strike lock node) := by
  refine .plain [] rfl rfl rfl (List.append_nil _).symm nofun fun attempt' found => ?_
  simp only [strike, Std.ExtTreeMap.getElem?_modify_self, Option.map_eq_some_iff] at found
  obtain ⟨attempt, current, rfl⟩ := found
  exact ⟨attempt, current, rfl, rfl, by simp [Attempt.isLocal], fun _ awaits =>
    (awaits_strike.1 awaits).1⟩

theorem surrender_proceeds : t.Proceeds lock (t.surrender lock) := by
  unfold surrender
  split
  next => exact ((rehold_proceeds _ _).then_emit rfl).then_emit rfl
  next => exact .refl t lock

theorem Serve.proceeds (serve : Serve scope lock d d') : d.table.Proceeds lock d'.table := by
  cases serve with
  | answered => exact .emit rfl
  | @joined t waiter _ attempt current =>
    refine .plain [] rfl rfl rfl (List.append_nil _).symm nofun fun attempt' found => ?_
    obtain rfl := Option.some.inj (Std.ExtTreeMap.getElem?_insert_self.symm.trans found)
    exact ⟨attempt, current, rfl, rfl, rfl, fun _ awaits => awaits⟩
  | begun acquire => exact beginLocal_proceeds acquire _
  | taken => exact gain_proceeds
  | given => exact relinquish_proceeds
  | withdrawn => exact drop_proceeds.then_emit rfl

theorem Move.proceeds (move : Move scope lock d d') : d.table.Proceeds lock d'.table := by
  cases move with
  | served serve => exact serve.proceeds
  | won => exact drop_proceeds.trans gain_proceeds
  | parted => exact drop_proceeds.trans relinquish_proceeds
  | dropped => exact drop_proceeds
  | followed _ acquire => exact drop_proceeds.trans (follow_proceeds _ acquire _)
  | struck node => exact strike_proceeds node
  | @yielded t _ peer =>
    have noted : (t.drop lock).Proceeds lock ((t.drop lock).notePeerLock peer lock) :=
      .silent rfl rfl rfl rfl rfl
    exact (drop_proceeds.trans noted).trans surrender_proceeds
  | forgotten | counted => exact .silent rfl rfl rfl rfl rfl

theorem Moves.proceeds (moves : Moves scope lock d d') : d.table.Proceeds lock d'.table := by
  induction moves with
  | refl => exact .refl _ lock
  | tail _ move ih => exact ih.trans move.proceeds

theorem step_proceeds {op : LockOp} (names : op.lock? = some lock) (t : Arbitrator) :
    t.Proceeds lock (t.step op) :=
  (step_moves (Scope.whole_admits op) names t).proceeds

/-! ## What any operation does -/

/-- Attempts wait for nobody but those who follow this node. -/
def Waits (t : Arbitrator) : Prop :=
  ∀ (lock : Lock) (attempt : Attempt) (node : NodeName), t.attempts[lock]? = some attempt →
    attempt.Awaits node → node ∈ t.subscribers

/-- While these events were published, the attempts of the node's own went on, or they began with a
new number and were announced. -/
structure Heralds (events : List NodeEvent) (t t' : Arbitrator) : Prop where
  generation : t.generation ≤ t'.generation
  waits : t.Waits → t'.Waits
  attempts : ∀ (lock : Lock) (attempt' : Attempt), t'.attempts[lock]? = some attempt' →
    attempt'.isLocal = true →
    (∃ attempt, t.attempts[lock]? = some attempt ∧ attempt'.Continues attempt ∧
      attempt'.announcement lock ∉ events) ∨
    t.generation < attempt'.generation ∧ attempt'.generation ≤ t'.generation ∧
      attempt'.announcement lock ∈ events

/-- What an operation wants published heralds the attempts that it begins. -/
def Announces (t t' : Arbitrator) : Prop :=
  ∃ effects, t'.outbox = t.outbox ++ effects ∧ Heralds (LockEffect.events effects) t t'

namespace Heralds

theorem refl (t : Arbitrator) : Heralds [] t t :=
  ⟨Nat.le_refl _, id, fun _ attempt' found _ => .inl ⟨attempt', found, .refl attempt', by simp⟩⟩

theorem trans (first : Heralds events t t') (second : Heralds events' t' t'') :
    Heralds (events ++ events') t t'' := by
  refine ⟨first.generation.trans second.generation, second.waits ∘ first.waits, ?_⟩
  intro lock attempt'' found own
  rw [List.mem_append]
  obtain ⟨attempt', found', continues', silent'⟩ | ⟨new, latest, told⟩ :=
    second.attempts lock attempt'' found own
  · have same := continues'.announcement lock
    obtain ⟨attempt, before, continues, silent⟩ | ⟨new, latest, told⟩ :=
      first.attempts lock attempt' found' (continues'.isLocal ▸ own)
    · exact .inl ⟨attempt, before, continues'.trans continues, not_or.2 ⟨same ▸ silent, silent'⟩⟩
    · rw [continues'.generation, same]
      exact .inr ⟨new, latest.trans second.generation, .inl told⟩
  · exact .inr ⟨first.generation.trans_lt new, latest, .inr told⟩

/-- Only announcements matter, in whatever order. -/
theorem congr (heralds : Heralds events t t') (same : ∀ (attempt : Attempt) (lock : Lock),
    attempt.announcement lock ∈ events ↔ attempt.announcement lock ∈ events') :
    Heralds events' t t' := by
  refine ⟨heralds.generation, heralds.waits, fun lock attempt' found own => ?_⟩
  rw [← same]
  exact heralds.attempts lock attempt' found own

end Heralds

namespace Announces

/-- Nothing begins, and attempts go on. -/
theorem of_continues (outbox : t'.outbox = t.outbox) (generation : t'.generation = t.generation)
    (waits : t.Waits → t'.Waits)
    (attempts : ∀ (lock : Lock) (attempt' : Attempt), t'.attempts[lock]? = some attempt' →
      ∃ attempt, t.attempts[lock]? = some attempt ∧ attempt'.Continues attempt) :
    t.Announces t' := by
  refine ⟨[], by rw [outbox, List.append_nil], generation.ge, waits, ?_⟩
  intro lock attempt' found _
  obtain ⟨attempt, before, continues⟩ := attempts lock attempt' found
  exact .inl ⟨attempt, before, continues, List.not_mem_nil⟩

/-- Attempts are not concerned, and nobody stops following this node. -/
theorem apart (outbox : t'.outbox = t.outbox) (generation : t'.generation = t.generation)
    (attempts : t'.attempts = t.attempts)
    (subscribers : ∀ node ∈ t.subscribers, node ∈ t'.subscribers) : t.Announces t' := by
  refine of_continues outbox generation (fun waits lock attempt node found awaits => ?_) ?_
  · rw [attempts] at found
    exact subscribers node (waits lock attempt node found awaits)
  · rw [attempts]
    exact fun lock attempt' found => ⟨attempt', found, .refl attempt'⟩

theorem refl (t : Arbitrator) : t.Announces t := apart rfl rfl rfl fun _ => id

theorem trans (first : t.Announces t') (second : t'.Announces t'') : t.Announces t'' := by
  obtain ⟨effects, grown, heralds⟩ := first
  obtain ⟨effects', grown', heralds'⟩ := second
  refine ⟨effects ++ effects', by rw [grown', grown, List.append_assoc], ?_⟩
  rw [LockEffect.events_append]
  exact heralds.trans heralds'

/-- What is said about one lock announces no attempt on another one. -/
theorem announcement_not_mem_of_quiet (quiet : ∀ effect ∈ effects, effect.saying? other = none)
    (attempt : Attempt) : attempt.announcement other ∉ LockEffect.events effects := by
  intro there
  obtain ⟨effect, among, published⟩ := List.mem_filterMap.1 there
  have silent := quiet effect among
  cases effect with
  | publish event =>
    obtain rfl := Option.some.inj published
    unfold Attempt.announcement at silent
    split at silent <;> simp [LockEffect.saying?, NodeEvent.signal?] at silent
  | _ => cases published

/-- An operation on one lock leaves the attempts on all others as they are. -/
theorem of_one (spares : t.Spares lock t') (proceeds : t.Proceeds lock t') : t.Announces t' := by
  obtain ⟨effects, grown, -, evolves⟩ := proceeds.outbox
  obtain ⟨effects', grown', quiet⟩ := spares.outbox
  obtain rfl : effects' = effects := List.append_cancel_left (grown'.symm.trans grown)
  refine ⟨effects', grown, proceeds.generation, ?_, ?_⟩
  · intro waits other attempt node found awaits
    rw [proceeds.subscribers]
    by_cases same : other = lock
    · subst same
      obtain ⟨attempt, before, continues, -⟩ | ⟨-, -, follow, -⟩ :=
        evolves attempt found (Attempt.isLocal_of_awaits awaits)
      · exact waits other attempt node before (continues.awaits node awaits)
      · exact follow node awaits
    · rw [(spares.elsewhere other same).1] at found
      exact waits other attempt node found awaits
  · intro other attempt' found own
    by_cases same : other = lock
    · subst same
      exact (evolves attempt' found own).imp_right fun ⟨new, latest, _, told⟩ =>
        ⟨new, latest, told⟩
    · rw [(spares.elsewhere other same).1] at found
      exact .inl ⟨attempt', found, .refl attempt',
        announcement_not_mem_of_quiet (quiet other same) _⟩

end Announces

theorem Moves.announces (moves : Moves scope lock d d') : d.table.Announces d'.table :=
  .of_one moves.spares moves.proceeds

theorem Course.announces (course : Course scope t t' requests) : t.Announces t' := by
  induction course with
  | done => exact .refl _
  | handled moves _ ih => exact moves.announces.trans ih

/-- The locks whose attempt waits for a node. -/
theorem mem_awaiting {node : NodeName} : lock ∈ t.awaiting node ↔
    ∃ attempt, t.attempts[lock]? = some attempt ∧ attempt.Awaits node := by
  simp only [awaiting, List.mem_map, List.mem_filter, Prod.exists, exists_and_right,
    exists_eq_right, Std.ExtTreeMap.mem_toList_iff_getElem?_eq_some]
  refine exists_congr fun attempt => and_congr_right fun _ => ?_
  unfold Attempt.Awaits
  cases attempt.ratifiers with
  | none => simp
  | some ratifiers => simp

/-- A node that is struck from several attempts is waited for by none of them. -/
theorem foldl_strike_continues {node : NodeName} (locks : List Lock) (t : Arbitrator) {lock : Lock}
    {attempt' : Attempt}
    (found : (locks.foldl (fun t lock => t.strike lock node) t).attempts[lock]? = some attempt') :
    ∃ attempt, t.attempts[lock]? = some attempt ∧ attempt'.Continues attempt ∧
      (lock ∈ locks → ¬ attempt'.Awaits node) := by
  induction locks generalizing t with
  | nil => exact ⟨attempt', found, .refl attempt', nofun⟩
  | cons first rest ih =>
    obtain ⟨attempt, struck, continues, last⟩ := ih (t.strike first node) found
    by_cases same : first = lock
    · subst same
      simp only [strike, Std.ExtTreeMap.getElem?_modify_self, Option.map_eq_some_iff] at struck
      obtain ⟨before, current, rfl⟩ := struck
      refine ⟨before, current, continues.trans ⟨rfl, rfl, by simp [Attempt.isLocal],
        fun _ awaits => (awaits_strike.1 awaits).1⟩, fun _ awaits => ?_⟩
      exact (awaits_strike.1 (continues.awaits node awaits)).2 rfl
    · refine ⟨attempt, ?_, continues, fun there => ?_⟩
      · simpa [strike, Std.ExtTreeMap.getElem?_modify, same] using struck
      · exact last ((List.mem_cons.1 there).resolve_left (Ne.symm same))

theorem struck_announces (t : Arbitrator) (node : NodeName) : t.Announces (t.struck node) := by
  have kept : ∀ (locks : List Lock) (u : Arbitrator),
      let struck := locks.foldl (fun t lock => t.strike lock node) u
      struck.outbox = u.outbox ∧ struck.generation = u.generation ∧
        struck.subscribers = u.subscribers := by
    intro locks u
    refine List.foldlRecOn locks _ (motive := fun v : Arbitrator => v.outbox = u.outbox ∧
      v.generation = u.generation ∧ v.subscribers = u.subscribers) ⟨rfl, rfl, rfl⟩ ?_
    exact fun v kept lock _ => kept
  obtain ⟨outbox, generation, subscribers⟩ := kept (t.awaiting node)
    { t with subscribers := t.subscribers.erase node }
  refine .of_continues outbox generation (fun waits lock attempt' other found awaits => ?_) ?_
  · obtain ⟨attempt, before, continues, last⟩ := foldl_strike_continues _ _ found
    have still := continues.awaits other awaits
    rw [struck, subscribers, Std.ExtTreeSet.mem_erase, Ne, Std.compare_eq_iff_eq]
    refine ⟨?_, waits lock attempt other before still⟩
    rintro rfl
    exact last (mem_awaiting.2 ⟨attempt, before, still⟩) awaits
  · intro lock attempt' found
    obtain ⟨attempt, before, continues, -⟩ := foldl_strike_continues _ _ found
    exact ⟨attempt, before, continues⟩

/-- Whatever happens to an arbitrator, the attempts that it leaves in flight go on or were announced
when they began. -/
theorem step_announces (t : Arbitrator) (op : LockOp) : t.Announces (t.step op) := by
  have course := (step_course (Scope.whole_admits op) t).announces
  have stays (followers : ∀ node ∈ t.subscribers, node ∈ (t.opened op).subscribers) :
      t.Announces (t.step op) :=
    Announces.trans (.apart (t.opened_outbox op) (t.opened_generation op) (t.opened_attempts op)
      followers) course
  cases op with
  | removeSubscriber node =>
    -- Attempts are waited for by the node that departs until it is struck from the last of them.
    exact (t.struck_announces node).trans
      (completed_course Scope.whole_lenient t node).announces
  | addSubscriber node => exact stays fun other there => Std.ExtTreeSet.mem_insert.2 (.inr there)
  | _ => exact stays fun _ => id

/-! ## Where attempts come from -/

/-- Whatever attempt is in flight afterwards was in flight before, or has a new number: it is one of
the node's own, or one of the given peers. -/
structure Traces (parties : Set NodeName) (t t' : Arbitrator) : Prop where
  node : t'.node = t.node
  generation : t.generation ≤ t'.generation
  attempts : ∀ (lock : Lock) (attempt' : Attempt), t'.attempts[lock]? = some attempt' →
    (∃ attempt, t.attempts[lock]? = some attempt ∧ attempt'.node = attempt.node ∧
      attempt'.Continues attempt) ∨
    t.generation < attempt'.generation ∧ attempt'.generation ≤ t'.generation ∧
      (if attempt'.isLocal then attempt'.node = t.node else attempt'.node ∈ parties)

namespace Traces

/-- Nothing begins, and the attempts go on that are left. -/
theorem of_continues (node : t'.node = t.node) (generation : t'.generation = t.generation)
    (attempts : ∀ (lock : Lock) (attempt' : Attempt), t'.attempts[lock]? = some attempt' →
      ∃ attempt, t.attempts[lock]? = some attempt ∧ attempt'.node = attempt.node ∧
        attempt'.Continues attempt) : t.Traces parties t' :=
  ⟨node, generation.ge, fun lock attempt' found => .inl (attempts lock attempt' found)⟩

/-- The attempts that are left are as they were. -/
theorem of_fewer (node : t'.node = t.node) (generation : t'.generation = t.generation)
    (attempts : ∀ (lock : Lock) (attempt : Attempt), t'.attempts[lock]? = some attempt →
      t.attempts[lock]? = some attempt) : t.Traces parties t' :=
  of_continues node generation fun lock attempt found =>
    ⟨attempt, attempts lock attempt found, rfl, .refl attempt⟩

theorem refl (t : Arbitrator) : t.Traces parties t := of_fewer rfl rfl fun _ _ => id

theorem trans (first : t.Traces parties t') (second : t'.Traces parties t'') :
    t.Traces parties t'' := by
  refine ⟨second.node.trans first.node, first.generation.trans second.generation, ?_⟩
  intro lock attempt'' found
  obtain ⟨attempt', found', node', continues'⟩ | ⟨new, latest, kin⟩ :=
    second.attempts lock attempt'' found
  · obtain ⟨attempt, before, node, continues⟩ | ⟨new, latest, kin⟩ :=
      first.attempts lock attempt' found'
    · exact .inl ⟨attempt, before, node'.trans node, continues'.trans continues⟩
    · rw [continues'.generation, continues'.isLocal, node']
      exact .inr ⟨new, latest.trans second.generation, kin⟩
  · rw [first.node] at kin
    exact .inr ⟨first.generation.trans_lt new, latest, kin⟩

/-- Only the attempt on one lock is concerned. -/
theorem of_one (lock : Lock) (node : t'.node = t.node) (generation : t.generation ≤ t'.generation)
    (elsewhere : ∀ other ≠ lock, t'.attempts[other]? = t.attempts[other]?)
    (here : ∀ attempt', t'.attempts[lock]? = some attempt' →
      (∃ attempt, t.attempts[lock]? = some attempt ∧ attempt'.node = attempt.node ∧
        attempt'.Continues attempt) ∨
      t.generation < attempt'.generation ∧ attempt'.generation ≤ t'.generation ∧
        (if attempt'.isLocal then attempt'.node = t.node else attempt'.node ∈ parties)) :
    t.Traces parties t' := by
  refine ⟨node, generation, fun other attempt' found => ?_⟩
  by_cases same : other = lock
  · subst same
    exact here attempt' found
  · rw [elsewhere other same] at found
    exact .inl ⟨attempt', found, rfl, .refl attempt'⟩

theorem drop (lock : Lock) : t.Traces parties (t.drop lock) := by
  refine of_fewer rfl rfl fun other attempt found => ?_
  simp only [Arbitrator.drop, Std.ExtTreeMap.getElem?_erase] at found
  split at found
  next => cases found
  next => exact found

end Traces

theorem Serve.traces {parties : Set NodeName} (serve : Serve scope lock d d') :
    d.table.Traces parties d'.table := by
  cases serve with
  | answered | taken | given => exact .of_fewer rfl rfl fun _ _ => id
  | @joined t waiter _ attempt current =>
    refine .of_one lock rfl (Nat.le_refl _) (fun other ne => getElem?_insert_of_ne ne _)
      fun attempt' found => ?_
    obtain rfl := Option.some.inj (Std.ExtTreeMap.getElem?_insert_self.symm.trans found)
    exact .inl ⟨attempt, current, rfl, rfl, rfl, rfl, fun _ awaits => awaits⟩
  | @begun t waiter _ acquire =>
    refine .of_one lock rfl (Nat.le_succ _) (fun other ne => getElem?_insert_of_ne ne _)
      fun attempt' found => ?_
    have found : (t.attempts.insert lock _)[lock]? = some attempt' := found
    obtain rfl := Option.some.inj (Std.ExtTreeMap.getElem?_insert_self.symm.trans found)
    exact .inr ⟨Nat.lt_succ_self _, Nat.le_refl _, rfl⟩
  | withdrawn => exact (Traces.drop lock).trans (.of_fewer rfl rfl fun _ _ => id)

theorem Move.traces (move : Move scope lock d d') : d.table.Traces scope.parties d'.table := by
  have dropped : d.table.Traces scope.parties (d.table.drop lock) := .drop lock
  cases move with
  | served serve => exact serve.traces
  | won | parted => exact dropped.trans (.of_fewer rfl rfl fun _ _ => id)
  | dropped => exact dropped
  | @followed t _ peer party acquire =>
    refine dropped.trans (.of_one lock rfl (Nat.le_succ _)
      (fun other ne => getElem?_insert_of_ne ne _) fun attempt' found => ?_)
    have found : ((t.drop lock).attempts.insert lock _)[lock]? = some attempt' := found
    obtain rfl := Option.some.inj (Std.ExtTreeMap.getElem?_insert_self.symm.trans found)
    exact .inr ⟨Nat.lt_succ_self _, Nat.le_refl _, party⟩
  | struck node =>
    refine .of_one lock rfl (Nat.le_refl _) (fun other ne => attempts_strike_of_ne ne node)
      fun attempt' found => .inl ?_
    simp only [strike, Std.ExtTreeMap.getElem?_modify_self, Option.map_eq_some_iff] at found
    obtain ⟨attempt, current, rfl⟩ := found
    exact ⟨attempt, current, rfl, rfl, rfl, by simp [Attempt.isLocal],
      fun _ awaits => (awaits_strike.1 awaits).1⟩
  | yielded =>
    refine dropped.trans (.of_fewer ?_ ?_ fun other attempt found => ?_)
    · unfold surrender
      split <;> rfl
    · unfold surrender
      split <;> rfl
    · rwa [attempts_surrender] at found
  | forgotten | counted => exact .of_fewer rfl rfl fun _ _ => id

theorem Moves.traces (moves : Moves scope lock d d') :
    d.table.Traces scope.parties d'.table := by
  induction moves with
  | refl => exact .refl _
  | tail _ move ih => exact ih.trans move.traces

theorem Course.traces (course : Course scope t t' requests) : t.Traces scope.parties t' := by
  induction course with
  | done => exact .refl _
  | handled moves _ ih => exact moves.traces.trans ih

/-- Whatever attempt an operation leaves in flight was in flight before or has a new number: it is
one of the node's own, or one of a peer that the operation names. -/
theorem step_traces {op : LockOp} (admits : scope.Admits op) (t : Arbitrator) :
    t.Traces scope.parties (t.step op) := by
  have opened : t.Traces scope.parties (t.opened op) :=
    .of_fewer (t.opened_node op) (t.opened_generation op) fun lock attempt found =>
      t.opened_attempts op ▸ found
  exact opened.trans (step_course admits t).traces

end Arbitrator

end Cohort

import Cohort.Proofs.Lock.Accounts
import Cohort.Proofs.Lock.Conservation

/-!
# The grip of a node on a lock

A caller is told the owner of a lock at a moment in the middle of an operation. What the node said
about the lock before that moment tells whether it holds the lock by then, and whether it is giving
it up: its `Grip` on the lock. Callers that wait for a lock are served one after the other, all
with one owner, and serving one of them may change the grip. So a caller is told the truth unless
somebody ahead of it wanted the opposite.

## Main definitions

* `Grip.replay`, `Grip.moments`: how the grip on a lock changes along what is said, and what it is
  whenever a caller is answered.
* `Grip.Bears`: the grip bears an answer out.
* `Behind`: somebody with a certain wish waits ahead of a caller.
* `Arbitrator.Reports`: what an operation does with the grip, and what callers are told.

## Main statements

* `Arbitrator.acquire_reports`, `Arbitrator.release_reports`, `Arbitrator.query_reports`: whoever
  asks is told the truth.
* `Arbitrator.resolve_reports`: what callers are told who waited for a lock.
-/

namespace Cohort

/-- How a node holds on to a lock. -/
structure Grip where
  holds : Bool
  /-- It is giving the lock up. -/
  leaves : Bool
  deriving DecidableEq

/-- The answer to a caller, and the grip on the lock at that moment. -/
structure Moment where
  grip : Grip
  ticket : Ticket
  owner : Option NodeName
  deriving DecidableEq

namespace Grip

/-- The grip on a lock after something is said. -/
def after (lock : Lock) (grip : Grip) (effect : LockEffect) : Grip :=
  match effect.saying? lock with
  | some (.publish .added) => ⟨true, false⟩
  | some (.publish .removed) => ⟨false, false⟩
  | some (.publish .kept) => { grip with leaves := false }
  | some (.publish (.begins false)) => { grip with leaves := true }
  | _ => grip

/-- The grip on a lock after several things are said in order. -/
def replay (lock : Lock) (grip : Grip) (effects : List LockEffect) : Grip :=
  effects.foldl (after lock) grip

/-- The answers that are given along the way, each with the grip on the lock at that moment. -/
def moments (lock : Lock) : Grip → List LockEffect → List Moment
  | _, [] => []
  | grip, .answer ticket (.ok owner) :: effects =>
    ⟨grip, ticket, owner⟩ :: moments lock grip effects
  | grip, effect :: effects => moments lock (grip.after lock effect) effects

variable {lock : Lock} {grip : Grip} {effects effects' : List LockEffect}

@[simp] theorem replay_nil : grip.replay lock [] = grip := rfl

theorem replay_append :
    grip.replay lock (effects ++ effects') = (grip.replay lock effects).replay lock effects' :=
  List.foldl_append

theorem after_of_quiet {effect : LockEffect} (quiet : effect.saying? lock = none) :
    grip.after lock effect = grip := by
  simp only [after, quiet]

theorem replay_of_quiet (quiet : ∀ effect ∈ effects, effect.saying? lock = none) :
    grip.replay lock effects = grip := by
  induction effects with
  | nil => rfl
  | cons effect effects ih =>
    have rest := ih fun effect later => quiet effect (List.mem_cons_of_mem _ later)
    rw [replay, List.foldl_cons, after_of_quiet (quiet effect List.mem_cons_self)]
    exact rest

theorem moments_append : grip.moments lock (effects ++ effects') =
    grip.moments lock effects ++ (grip.replay lock effects).moments lock effects' := by
  fun_induction moments lock grip effects with
  | case1 => rfl
  | case2 grip ticket owner effects ih =>
    have same : grip.after lock (.answer ticket (.ok owner)) = grip := after_of_quiet rfl
    simp only [List.cons_append, moments, ih, replay, List.foldl_cons, same]
  | case3 grip effect effects other ih =>
    rw [List.cons_append, moments, ih]
    · rfl
    · exact other

/-- Whoever is answered is among those for whom an answer is among the effects. -/
theorem answer_of_mem_moments {moment : Moment} (answered : moment ∈ grip.moments lock effects) :
    .answer moment.ticket (.ok moment.owner) ∈ effects := by
  fun_induction moments lock grip effects with
  | case1 => cases answered
  | case2 grip ticket owner effects ih =>
    obtain rfl | later := List.mem_cons.1 answered
    · exact List.mem_cons_self
    · exact List.mem_cons_of_mem _ (ih later)
  | case3 grip effect effects other ih => exact List.mem_cons_of_mem _ (ih answered)

theorem moments_of_unanswered (unanswered : ∀ effect ∈ effects, effect.answer? = none) :
    grip.moments lock effects = [] := by
  refine List.eq_nil_iff_forall_not_mem.2 fun moment answered => ?_
  have none_ := unanswered _ (answer_of_mem_moments answered)
  cases none_

/-- The grip of a node on a lock bears out what a caller is told about the lock. -/
structure Bears (grip : Grip) (node : NodeName) (owner : Option NodeName) : Prop where
  ours : owner = some node → grip = ⟨true, false⟩
  nobodys : owner = none → grip.holds = false

theorem bears_ours {grip : Grip} (firm : grip = ⟨true, false⟩) (node : NodeName) :
    grip.Bears node (some node) :=
  ⟨fun _ => firm, nofun⟩

theorem bears_nobodys {grip : Grip} (free : grip.holds = false) (node : NodeName) :
    grip.Bears node none :=
  ⟨nofun, fun _ => free⟩

theorem bears_peers {node peer : NodeName} (ne : peer ≠ node) (grip : Grip) :
    grip.Bears node (some peer) :=
  ⟨fun same => absurd (Option.some.inj same) ne, nofun⟩

end Grip

/-- Somebody with the given wish waits ahead of a caller. -/
def Behind (wish : Wish) (waiters : List Waiter) (ticket : Ticket) : Prop :=
  ∃ front waiter back, waiters = front ++ waiter :: back ∧ waiter.ticket = ticket ∧
    ∃ ahead ∈ front, ahead.wish = wish

theorem Behind.cons {wish : Wish} {waiters : List Waiter} {ticket : Ticket} (waiter : Waiter)
    (behind : Behind wish waiters ticket) : Behind wish (waiter :: waiters) ticket := by
  obtain ⟨front, w, back, split, same, ahead, waits, wishes⟩ := behind
  exact ⟨waiter :: front, w, back, by rw [split, List.cons_append], same, ahead,
    List.mem_cons_of_mem _ waits, wishes⟩

/-- Everybody waits behind the first. -/
theorem behind_first {waiter : Waiter} {waiters : List Waiter} {ticket : Ticket}
    (waits : ticket ∈ ticketsOf waiters) : Behind waiter.wish (waiter :: waiters) ticket := by
  obtain ⟨w, member, same⟩ := List.mem_map.1 waits
  obtain ⟨front, back, split⟩ := List.append_of_mem member
  exact ⟨waiter :: front, w, back, by rw [split, List.cons_append], same, waiter,
    List.mem_cons_self, rfl⟩

/-- Whoever is answered is told the truth, or else somebody ahead wanted the opposite. -/
def Moment.Fair (node : NodeName) (waiters : List Waiter) (moment : Moment) : Prop :=
  moment.grip.Bears node moment.owner ∨
    (moment.owner = some node ∧ Behind .release waiters moment.ticket) ∨
    (moment.owner = none ∧ Behind .acquire waiters moment.ticket)

theorem Moment.Fair.cons {node : NodeName} {waiters : List Waiter} {moment : Moment}
    (waiter : Waiter) (fair : moment.Fair node waiters) :
    moment.Fair node (waiter :: waiters) :=
  fair.imp_right (Or.imp (And.imp_right (Behind.cons waiter)) (And.imp_right (Behind.cons waiter)))

namespace Arbitrator

variable {t t' t'' u : Arbitrator} {lock other : Lock} {asked : List Ticket} {ticket : Ticket}
  {waiter : Waiter} {waiters : List Waiter} {attempt : Attempt} {owner : Option NodeName}
  {issued : List (Lock × Ticket)} {good good' : Moment → Prop} {peer : NodeName}

/-- How the node holds on to a lock. -/
def grip (t : Arbitrator) (lock : Lock) : Grip := ⟨decide (lock ∈ t.held), t.isReleasing lock⟩

/-- The node gives up only what it holds, it follows only others and while it does not hold the
lock itself, and it is no peer of its own. -/
structure Proper (t : Arbitrator) (lock : Lock) : Prop where
  own : ∀ attempt, t.attempts[lock]? = some attempt → attempt.isLocal = true →
    attempt.node = t.node ∧ (attempt.acquire = false → lock ∈ t.held)
  theirs : ∀ attempt, t.attempts[lock]? = some attempt → attempt.isLocal = false →
    attempt.node ≠ t.node ∧ lock ∉ t.held
  record : lock ∉ t.peerLocks[t.node]?.getD ∅

/-- An operation says what it does with the grip of the node on a lock, and it tells callers
nothing but what is good. -/
structure Reports (t : Arbitrator) (lock : Lock) (good : Moment → Prop) (t' : Arbitrator) :
    Prop where
  node : t'.node = t.node
  proper : t'.Proper lock
  outbox : ∃ effects, t'.outbox = t.outbox ++ effects ∧
    (t.grip lock).replay lock effects = t'.grip lock ∧
    ∀ moment ∈ (t.grip lock).moments lock effects, good moment

theorem isReleasing_of_none (idle : t.attempts[lock]? = none) : t.isReleasing lock = false := by
  simp [isReleasing, idle]

theorem isReleasing_of_attempt (current : t.attempts[lock]? = some attempt) :
    t.isReleasing lock = (attempt.isLocal && !attempt.acquire) := by
  simp [isReleasing, current]

theorem grip_congr (attempts : t'.attempts[lock]? = t.attempts[lock]?)
    (held : lock ∈ t'.held ↔ lock ∈ t.held) : t'.grip lock = t.grip lock := by
  simp only [grip, isReleasing, attempts, held]

theorem grip_of_none (idle : t.attempts[lock]? = none) :
    t.grip lock = ⟨decide (lock ∈ t.held), false⟩ := by
  rw [grip, isReleasing_of_none idle]

namespace Proper

theorem of_idle (idle : t.attempts[lock]? = none) (record : lock ∉ t.peerLocks[t.node]?.getD ∅) :
    t.Proper lock where
  own attempt current := by
    rw [idle] at current
    cases current
  theirs attempt current := by
    rw [idle] at current
    cases current
  record := record

theorem congr (proper : t.Proper lock) (node : t'.node = t.node)
    (attempts : t'.attempts[lock]? = t.attempts[lock]?) (held : lock ∈ t'.held ↔ lock ∈ t.held)
    (record : lock ∈ t'.peerLocks[t.node]?.getD ∅ → lock ∈ t.peerLocks[t.node]?.getD ∅) :
    t'.Proper lock where
  own attempt current := by
    rw [node, held]
    exact proper.own attempt (attempts ▸ current)
  theirs attempt current := by
    rw [node, held]
    exact proper.theirs attempt (attempts ▸ current)
  record := by
    rw [node]
    exact fun known => proper.record (record known)

theorem drop (proper : t.Proper lock) : (t.drop lock).Proper lock :=
  of_idle (by simp [Arbitrator.drop]) proper.record

/-- On an attempt of another node, the node has no grip on the lock at all. -/
theorem grip_of_other (proper : t.Proper lock) (current : t.attempts[lock]? = some attempt)
    (other : attempt.node ≠ t.node) : t.grip lock = ⟨false, false⟩ := by
  have foreign : attempt.isLocal = false :=
    Bool.eq_false_iff.2 fun isLocal => other (proper.own attempt current isLocal).1
  rw [grip, isReleasing_of_attempt current, foreign,
    decide_eq_false (proper.theirs attempt current foreign).2, Bool.false_and]

/-- A node that does not hold the lock is not giving it up. -/
theorem isReleasing_of_free (proper : t.Proper lock) (free : lock ∉ t.held) :
    t.isReleasing lock = false := by
  cases current : t.attempts[lock]? with
  | none => exact isReleasing_of_none current
  | some attempt =>
    refine (isReleasing_of_attempt current).trans (Bool.eq_false_iff.2 fun leaving => ?_)
    rw [Bool.and_eq_true, Bool.not_eq_true'] at leaving
    exact free ((proper.own attempt current leaving.1).2 leaving.2)

/-- Whoever the node has on record as the owner of a lock that is settled, its grip bears it
out. -/
theorem bears_owner (proper : t.Proper lock) (idle : t.attempts[lock]? = none) :
    (t.grip lock).Bears t.node (t.owner lock) := by
  rw [grip_of_none idle]
  refine ⟨fun ours => ?_, fun nobodys => ?_⟩
  · obtain ⟨holds, -⟩ | known := records_of_owner ours
    · have holds : lock ∈ t.held := holds
      rw [decide_eq_true holds]
    · exact absurd known proper.record
  · exact decide_eq_false (owner_eq_none_iff.1 nobodys).1

end Proper

namespace Reports

theorem refl (proper : t.Proper lock) : t.Reports lock good t :=
  ⟨rfl, proper, [], by simp, rfl, nofun⟩

theorem trans (first : t.Reports lock good t') (second : t'.Reports lock good t'') :
    t.Reports lock good t'' := by
  obtain ⟨effects, outbox, replay, told⟩ := first.outbox
  obtain ⟨effects', outbox', replay', told'⟩ := second.outbox
  refine ⟨second.node.trans first.node, second.proper, effects ++ effects', ?_, ?_, ?_⟩
  · rw [outbox', outbox, List.append_assoc]
  · rw [Grip.replay_append, replay, replay']
  · intro moment answered
    rw [Grip.moments_append, replay] at answered
    exact (List.mem_append.1 answered).elim (told moment) (told' moment)

theorem mono (reports : t.Reports lock good t') (weaker : ∀ moment, good moment → good' moment) :
    t.Reports lock good' t' := by
  obtain ⟨effects, outbox, replay, told⟩ := reports.outbox
  exact ⟨reports.node, reports.proper, effects, outbox, replay,
    fun moment answered => weaker moment (told moment answered)⟩

/-- Something is said, but not to any caller. -/
theorem unanswered {effects : List LockEffect} (node : t'.node = t.node) (proper : t'.Proper lock)
    (outbox : t'.outbox = t.outbox ++ effects)
    (replay : (t.grip lock).replay lock effects = t'.grip lock)
    (none_ : ∀ effect ∈ effects, effect.answer? = none) : t.Reports lock good t' := by
  refine ⟨node, proper, effects, outbox, replay, ?_⟩
  rw [Grip.moments_of_unanswered none_]
  exact nofun

/-- Nothing happens as far as the lock is concerned. -/
theorem same (proper : t.Proper lock) (node : t'.node = t.node) (outbox : t'.outbox = t.outbox)
    (attempts : t'.attempts[lock]? = t.attempts[lock]?) (held : lock ∈ t'.held ↔ lock ∈ t.held)
    (record : lock ∈ t'.peerLocks[t.node]?.getD ∅ → lock ∈ t.peerLocks[t.node]?.getD ∅) :
    t.Reports lock good t' := by
  have outbox : t'.outbox = t.outbox ++ [] := by rw [outbox, List.append_nil]
  exact unanswered node (proper.congr node attempts held record) outbox
    (grip_congr attempts held).symm nofun

end Reports

/-- Whatever is done about another lock, only its callers are told anything. -/
theorem reports_of_handles (proper : t.Proper lock) (handles : t.Handles other asked t')
    (ne : lock ≠ other) :
    t.Reports lock (fun moment => moment.ticket ∈ ticketsOf (t.callers other) ++ asked) t' := by
  obtain ⟨effects, outbox, quiet⟩ := handles.outbox
  obtain ⟨attempts, held⟩ := handles.elsewhere lock ne
  have record := (handles.record lock ne t.node).1
  refine ⟨handles.node, proper.congr handles.node attempts held record, effects, outbox, ?_, ?_⟩
  · rw [Grip.replay_of_quiet (quiet lock ne), grip_congr attempts held]
  · exact fun moment answered =>
      handles.mem_of_answered outbox (Grip.answer_of_mem_moments answered)

/-! ### Steps shared by the operations -/

theorem answer_reports (proper : t.Proper lock) (fine : good ⟨t.grip lock, ticket, owner⟩) :
    t.Reports lock good (t.answer ticket (.ok owner)) := by
  refine ⟨rfl, proper.congr rfl rfl Iff.rfl id, [.answer ticket (.ok owner)], rfl,
    Grip.replay_of_quiet (by simp [LockEffect.saying?]), ?_⟩
  intro moment answered
  obtain rfl := List.mem_singleton.1 answered
  exact fine

theorem gain_reports (proper : t.Proper lock) (idle : t.attempts[lock]? = none) :
    t.Reports lock good (t.gain lock) := by
  refine .unanswered rfl (.of_idle idle proper.record) rfl ?_ (by simp [LockEffect.answer?])
  rw [grip_of_none (t := t.gain lock) idle]
  simp [Grip.replay, Grip.after, LockEffect.saying?, NodeEvent.signal?, gain, emit]

theorem relinquish_reports (proper : t.Proper lock) (idle : t.attempts[lock]? = none) :
    t.Reports lock good (t.relinquish lock) := by
  refine .unanswered rfl (.of_idle idle proper.record) rfl ?_ (by simp [LockEffect.answer?])
  rw [grip_of_none (t := t.relinquish lock) idle]
  simp [Grip.replay, Grip.after, LockEffect.saying?, NodeEvent.signal?, relinquish, emit]

theorem grip_gain (idle : t.attempts[lock]? = none) : (t.gain lock).grip lock = ⟨true, false⟩ := by
  rw [grip_of_none (t := t.gain lock) idle]
  simp [gain, emit]

theorem grip_relinquish (idle : t.attempts[lock]? = none) :
    (t.relinquish lock).grip lock = ⟨false, false⟩ := by
  rw [grip_of_none (t := t.relinquish lock) idle]
  simp [relinquish, emit]

/-- Whoever waits along on an attempt changes nothing about it. -/
theorem enqueue_reports (proper : t.Proper lock) (current : t.attempts[lock]? = some attempt)
    (waiter : Waiter) : t.Reports lock good (t.enqueue lock attempt waiter) := by
  have entry : (t.enqueue lock attempt waiter).attempts[lock]? =
      some { attempt with waiters := attempt.waiters ++ [waiter] } := by
    simp [enqueue]
  refine .unanswered rfl ⟨?_, ?_, proper.record⟩ (List.append_nil _).symm ?_ (by simp)
  · intro attempt' there isLocal
    obtain rfl := Option.some.inj (entry.symm.trans there)
    exact proper.own attempt current isLocal
  · intro attempt' there foreign
    obtain rfl := Option.some.inj (entry.symm.trans there)
    exact proper.theirs attempt current foreign
  · rw [Grip.replay_nil, grip, grip, isReleasing_of_attempt current, isReleasing_of_attempt entry]
    rfl

theorem beginLocal_reports (proper : t.Proper lock) (idle : t.attempts[lock]? = none)
    (acquire : Bool) (holds : acquire = false → lock ∈ t.held) (ticket : Ticket) :
    t.Reports lock good (t.beginLocal lock acquire ticket) := by
  have entry : (t.beginLocal lock acquire ticket).attempts[lock]? =
      some ⟨t.node, acquire, some t.subscribers, [⟨.outcome, ticket⟩], t.generation + 1⟩ := by
    simp [beginLocal, startAttempt, emit]
  have outbox : (t.beginLocal lock acquire ticket).outbox = t.outbox ++
      [.publish (if acquire then .acquiring lock else .releasing lock),
        .startTimer lock (t.generation + 1)] := by
    simp [beginLocal, startAttempt, emit]
  refine .unanswered rfl ⟨?_, ?_, proper.record⟩ outbox ?_ (by simp [LockEffect.answer?])
  · intro attempt there _
    obtain rfl := Option.some.inj (entry.symm.trans there)
    exact ⟨rfl, holds⟩
  · intro attempt there foreign
    obtain rfl := Option.some.inj (entry.symm.trans there)
    cases foreign
  · rw [grip_of_none idle, grip, isReleasing_of_attempt entry]
    cases acquire <;>
      simp [Grip.replay, Grip.after, LockEffect.saying?, NodeEvent.signal?, Attempt.isLocal] <;> rfl

/-- The attempt of another node is followed while nobody tries anything else. -/
theorem follow_reports (proper : t.Proper lock) (ne : peer ≠ t.node) (free : lock ∉ t.held)
    (moves : t.isReleasing lock = false) (acquire : Bool) (waiters : List Waiter) :
    t.Reports lock good (t.follow peer lock acquire waiters) := by
  have entry : (t.follow peer lock acquire waiters).attempts[lock]? =
      some ⟨peer, acquire, none, waiters, t.generation + 1⟩ := by
    simp [follow, startAttempt, emit]
  refine .unanswered rfl ⟨?_, ?_, proper.record⟩ rfl ?_ (by simp [LockEffect.answer?])
  · intro attempt there isLocal
    obtain rfl := Option.some.inj (entry.symm.trans there)
    cases isLocal
  · intro attempt there _
    obtain rfl := Option.some.inj (entry.symm.trans there)
    exact ⟨ne, free⟩
  · rw [grip, moves, grip, isReleasing_of_attempt entry]
    simp [Grip.replay, Grip.after, LockEffect.saying?, Attempt.isLocal]
    rfl

/-! ### Requests of callers -/

/-- Nobody who asks is told anything but what the grip bears out. -/
def Truthful (node : NodeName) (ticket : Ticket) (moment : Moment) : Prop :=
  moment.ticket = ticket ∧ moment.grip.Bears node moment.owner

theorem query_reports (proper : t.Proper lock) (ticket : Ticket) :
    t.Reports lock (Truthful t.node ticket) (t.query lock ticket) := by
  unfold query
  split
  next attempt current => exact enqueue_reports proper current _
  next idle => exact answer_reports proper ⟨rfl, proper.bears_owner idle⟩

theorem acquire_reports (proper : t.Proper lock) (ticket : Ticket) :
    t.Reports lock (Truthful t.node ticket) (t.acquire lock ticket) := by
  unfold acquire
  split
  next attempt current => exact enqueue_reports proper current _
  next idle =>
    split
    next owner owned => exact answer_reports proper ⟨rfl, owned ▸ proper.bears_owner idle⟩
    next =>
      split
      next =>
        have gained : t.Reports lock (Truthful t.node ticket) (t.gain lock) :=
          gain_reports proper idle
        exact gained.trans <|
          answer_reports gained.proper ⟨rfl, Grip.bears_ours (grip_gain idle) _⟩
      next => exact beginLocal_reports proper idle true nofun ticket

theorem release_reports (proper : t.Proper lock) (ticket : Ticket) :
    t.Reports lock (Truthful t.node ticket) (t.release lock ticket) := by
  unfold release
  split
  next attempt current => exact enqueue_reports proper current _
  next idle =>
    split
    next holds =>
      split
      next =>
        have left : t.Reports lock (Truthful t.node ticket) (t.relinquish lock) :=
          relinquish_reports proper idle
        have free : ((t.relinquish lock).grip lock).holds = false := by rw [grip_relinquish idle]
        exact left.trans (answer_reports left.proper ⟨rfl, Grip.bears_nobodys free _⟩)
      next => exact beginLocal_reports proper idle false (fun _ => holds) ticket
    next => exact answer_reports proper ⟨rfl, proper.bears_owner idle⟩

/-! ### Locks that are settled -/

/-- Whoever waited is told the owner that the lock was settled with, but for who wants a lock that
nobody has, or wants to release one that the node has. -/
theorem serve_cases (t : Arbitrator) (lock : Lock) (owner : Option NodeName) (waiter : Waiter) :
    serve lock owner t waiter = t.answer waiter.ticket (.ok owner) ∨
    (owner = none ∧ waiter.wish = .acquire ∧
      serve lock owner t waiter = t.acquire lock waiter.ticket) ∨
    (owner = some t.node ∧ waiter.wish = .release ∧
      serve lock owner t waiter = t.release lock waiter.ticket) := by
  unfold serve
  split
  next wish => exact .inr (.inl ⟨rfl, wish, rfl⟩)
  next node wish =>
    split
    next ours => exact .inr (.inr ⟨congrArg some ours, wish, rfl⟩)
    next => exact .inl rfl
  next => exact .inl rfl

/-- Whoever waited is told the owner that the lock was settled with, or the truth. -/
theorem serve_reports (proper : t.Proper lock) (owner : Option NodeName) (waiter : Waiter) :
    t.Reports lock (fun moment => moment.ticket = waiter.ticket ∧
      (moment.grip.Bears t.node moment.owner ∨ moment.owner = owner))
      (serve lock owner t waiter) := by
  obtain served | ⟨-, -, served⟩ | ⟨-, -, served⟩ := serve_cases t lock owner waiter
  · rw [served]
    exact answer_reports proper ⟨rfl, .inr rfl⟩
  · rw [served]
    exact (acquire_reports proper _).mono fun _ told => told.imp_right .inl
  · rw [served]
    exact (release_reports proper _).mono fun _ told => told.imp_right .inl

theorem resolve_reports_owner (proper : t.Proper lock) (owner : Option NodeName)
    (waiters : List Waiter) :
    t.Reports lock (fun moment => moment.ticket ∈ ticketsOf waiters ∧
      (moment.grip.Bears t.node moment.owner ∨ moment.owner = owner))
      (t.resolve lock owner waiters) := by
  induction waiters generalizing t with
  | nil => exact .refl proper
  | cons waiter waiters ih =>
    have first := serve_reports proper owner waiter
    have rest := ih first.proper
    rw [first.node] at rest
    refine (first.mono ?_).trans (rest.mono ?_)
    · exact fun _ told => ⟨told.1 ▸ List.mem_cons_self, told.2⟩
    · exact fun _ told => ⟨List.mem_cons_of_mem _ told.1, told.2⟩

/-- A lock is settled with the owner that it has. Whoever waits is told the truth until somebody
is served who wants the opposite, and whoever waits behind that one is told the same owner. -/
theorem resolve_reports (proper : t.Proper lock) (bears : (t.grip lock).Bears t.node owner)
    (waiters : List Waiter) :
    t.Reports lock (Moment.Fair t.node waiters) (t.resolve lock owner waiters) := by
  induction waiters generalizing t with
  | nil => exact .refl proper
  | cons waiter waiters ih =>
    rw [resolve, List.foldl_cons]
    obtain served | ⟨rfl, claims, served⟩ | ⟨rfl, leaves, served⟩ :=
      serve_cases t lock owner waiter
    · -- An answer leaves the grip as it was, so the owner is the truth for the rest as well.
      have first : t.Reports lock (Moment.Fair t.node (waiter :: waiters))
          (t.answer waiter.ticket (.ok owner)) := answer_reports proper (.inl bears)
      have rest := ih (t := t.answer waiter.ticket (.ok owner)) first.proper bears
      rw [served]
      exact first.trans (rest.mono fun _ => Moment.Fair.cons waiter)
    · have first : t.Reports lock (Moment.Fair t.node (waiter :: waiters))
          (t.acquire lock waiter.ticket) :=
        (acquire_reports proper waiter.ticket).mono fun _ told => .inl told.2
      have rest := resolve_reports_owner first.proper none waiters
      rw [first.node] at rest
      rw [served]
      refine first.trans (rest.mono ?_)
      rintro moment ⟨waits, truth | same⟩
      · exact .inl truth
      · exact .inr (.inr ⟨same, claims ▸ behind_first waits⟩)
    · have first : t.Reports lock (Moment.Fair t.node (waiter :: waiters))
          (t.release lock waiter.ticket) :=
        (release_reports proper waiter.ticket).mono fun _ told => .inl told.2
      have rest := resolve_reports_owner first.proper (some t.node) waiters
      rw [first.node] at rest
      rw [served]
      refine first.trans (rest.mono ?_)
      rintro moment ⟨waits, truth | same⟩
      · exact .inl truth
      · exact .inr (.inl ⟨same, leaves ▸ behind_first waits⟩)

end Arbitrator

end Cohort

import Cohort.Proofs.Lock.Soundness
import Cohort.Proofs.Lock.Truth

/-!
# A departed node blocks nothing

Two notices tell that a node is gone: this node no longer follows it, and it no longer follows this
node. They come from different connections, in either order and with anything in between that does
not concern the node. Once both are there nothing is left of it, whatever happens then to others.
Whoever waited for it is not left behind: its attempts fail, locks that it was giving up are free,
and attempts that waited for its consent alone complete.

## Main definitions

* `Arbitrator.Forgets`: nothing is on record of a peer.
* `Arbitrator.Relieves`: whoever waited for a lock has an answer, or waits in a new attempt.
* `Arbitrator.Departure`: the two notices, in either order.

## Main statements

* `Arbitrator.Forgets.run`: a peer that is forgotten stays so until something is heard of it.
* `Arbitrator.peerDisconnected_dismisses`, `Arbitrator.removeSubscriber_excuses`: what becomes of
  those who wait for the peer.
* `Arbitrator.departed_blocks_nothing`: all of it, for any run.
-/

namespace Cohort

namespace Arbitrator

variable {t t' u : Arbitrator} {lock other : Lock} {attempt : Attempt} {parties : Set NodeName}
  {peer : NodeName} {asked : List Ticket} {op : LockOp} {scope : Scope}
  {requests : List (Lock × Ticket)}

/-! ## Nothing is left of a peer -/

/-- Nothing is on record of a peer: no locks, and no attempt. -/
structure Forgets (t : Arbitrator) (peer : NodeName) : Prop where
  record : peer ∉ t.peerLocks
  party : ∀ (lock : Lock) (attempt : Attempt), t.attempts[lock]? = some attempt →
    attempt.node ≠ peer

/-- Locks are put on record only of peers that an operation names. -/
theorem not_mem_record (absent : peer ∉ t.peerLocks) (quiet : ¬ op.Names peer) :
    peer ∉ op.record t.peerLocks := by
  cases op with
  | peerAdded other | peerSubscribed other =>
    have ne : other ≠ peer := quiet
    simpa [LockOp.record, ne] using absent
  | peerRemoved => exact fun there => absent (Std.ExtTreeMap.mem_modify.1 there)
  | peerDisconnected => exact fun there => absent (Std.ExtTreeMap.mem_of_mem_erase there)
  | _ => exact absent

/-- No attempt of a peer begins by an operation that does not concern it. -/
theorem Traces.party (traces : t.Traces parties t') (stranger : peer ∉ parties)
    (ne : peer ≠ t.node) (apart : ∀ (lock : Lock) (attempt : Attempt),
      t.attempts[lock]? = some attempt → attempt.node ≠ peer) :
    ∀ (lock : Lock) (attempt : Attempt), t'.attempts[lock]? = some attempt →
      attempt.node ≠ peer := by
  rintro lock attempt' found rfl
  obtain ⟨attempt, before, node, -⟩ | ⟨-, -, kin⟩ := traces.attempts lock attempt' found
  · exact apart lock attempt before node.symm
  · split at kin
    next => exact ne kin
    next => exact stranger kin

/-- Everything may happen, but only the given peers may begin attempts. -/
abbrev Scope.among (parties : Set NodeName) : Scope := .within parties Set.univ Set.univ

theorem Scope.among_admits (op : LockOp) : (Scope.among {peer | op.Names peer}).Admits op :=
  ⟨within_lenient, fun _ named => named, fun _ _ => trivial, fun _ _ => rfl⟩

theorem node_step (t : Arbitrator) (op : LockOp) : (t.step op).node = t.node :=
  (step_traces (Scope.whole_admits op) t).node

theorem node_run (t : Arbitrator) (ops : List LockOp) : (t.run ops).node = t.node := by
  induction ops generalizing t with
  | nil => rfl
  | cons op ops ih => exact (ih _).trans (node_step t op)

theorem Forgets.step (forgets : t.Forgets peer) (ne : peer ≠ t.node) (quiet : ¬ op.Names peer) :
    (t.step op).Forgets peer where
  record := by
    rw [peerLocks_step]
    exact not_mem_record forgets.record quiet
  party := (step_traces (Scope.among_admits op) t).party quiet ne forgets.party

/-- A peer that is forgotten stays so until something is heard of it. -/
theorem Forgets.run (forgets : t.Forgets peer) (ne : peer ≠ t.node) {ops : List LockOp}
    (quiet : ∀ op ∈ ops, ¬ op.Names peer) : (t.run ops).Forgets peer := by
  induction ops generalizing t with
  | nil => exact forgets
  | cons op ops ih =>
    exact ih (forgets.step ne (quiet op List.mem_cons_self)) (ne.trans_eq (node_step t op).symm)
      fun op' later => quiet op' (List.mem_cons_of_mem _ later)

/-! ## Who follows the node -/

theorem subscribers_step (t : Arbitrator) (op : LockOp) :
    (t.step op).subscribers = (t.opened op).subscribers :=
  (step_course (Scope.whole_admits op) t).subscribers

theorem not_mem_subscribers_removed (t : Arbitrator) (node : NodeName) :
    node ∉ (t.removeSubscriber node).subscribers := by
  have same := subscribers_step t (.removeSubscriber node)
  exact same ▸ fun there => (Std.ExtTreeSet.mem_erase.1 there).1 Std.ReflCmp.compare_self

/-- Whoever does not follow the node does not come to follow it unless an operation says so. -/
theorem not_mem_subscribers_step (absent : peer ∉ t.subscribers) (quiet : ¬ op.Names peer) :
    peer ∉ (t.step op).subscribers := by
  rw [subscribers_step]
  cases op with
  | addSubscriber node =>
    have ne : node ≠ peer := quiet
    simpa [opened, addSubscriber, ne] using absent
  | removeSubscriber => exact fun there => absent (Std.ExtTreeSet.mem_of_mem_erase there)
  | _ => exact absent

theorem not_mem_subscribers_run (absent : peer ∉ t.subscribers) {ops : List LockOp}
    (quiet : ∀ op ∈ ops, ¬ op.Names peer) : peer ∉ (t.run ops).subscribers := by
  induction ops generalizing t with
  | nil => exact absent
  | cons op ops ih =>
    exact ih (not_mem_subscribers_step absent (quiet op List.mem_cons_self))
      fun op' later => quiet op' (List.mem_cons_of_mem _ later)

/-! ## Several locks, each in its turn -/

/-- Other locks are handled; nothing becomes of this one. -/
theorem attempts_foldl_aside {f : Arbitrator → Lock → Arbitrator}
    (each : ∀ t lock, Moves .whole lock ⟨t, []⟩ ⟨f t lock, []⟩) {locks : List Lock}
    (absent : lock ∉ locks) (t : Arbitrator) :
    (locks.foldl f t).attempts[lock]? = t.attempts[lock]? := by
  induction locks generalizing t with
  | nil => rfl
  | cons other locks ih =>
    obtain ⟨ne, absent⟩ := not_or.1 (mt List.mem_cons.2 absent)
    exact (ih absent _).trans ((each t other).spares.elsewhere lock ne).1

theorem Course.grows (course : Course scope t t' requests) :
    ∃ effects, t'.outbox = t.outbox ++ effects := by
  obtain ⟨effects, grown, -⟩ := course.announces
  exact ⟨effects, grown⟩

/-- Among several locks that are handled one after the other, this one has its turn once, and what
is done then for it is all that is done for it. -/
theorem foldl_turn {f : Arbitrator → Lock → Arbitrator}
    (each : ∀ t lock, Moves .whole lock ⟨t, []⟩ ⟨f t lock, []⟩) {locks : List Lock}
    (once : locks.Nodup) (among : lock ∈ locks) (t : Arbitrator) :
    ∃ (u : Arbitrator) (front back : List LockEffect),
      u.attempts[lock]? = t.attempts[lock]? ∧ u.outbox = t.outbox ++ front ∧
      (locks.foldl f t).outbox = (f u lock).outbox ++ back ∧
      (locks.foldl f t).attempts[lock]? = (f u lock).attempts[lock]? := by
  obtain ⟨before, after, rfl⟩ := List.append_of_mem among
  obtain ⟨-, rest, apart⟩ := List.nodup_append.1 once
  have early : lock ∉ before := fun member => apart lock member lock List.mem_cons_self rfl
  have late : lock ∉ after := (List.nodup_cons.1 rest).1
  have course (u : Arbitrator) (locks : List Lock) : Course .whole u (locks.foldl f u) [] :=
    .foldl (fun t lock => (each t lock).course) locks u
  obtain ⟨front, grown⟩ := (course t before).grows
  obtain ⟨back, grown'⟩ := (course (f (before.foldl f t) lock) after).grows
  rw [List.foldl_append, List.foldl_cons]
  exact ⟨before.foldl f t, front, back, attempts_foldl_aside each early t, grown, grown',
    attempts_foldl_aside each late _⟩

/-- Whoever was answered or waits for a lock still is or does when any lock has been handled. -/
theorem Handles.tally_le (handles : t.Handles other asked t') (lock : Lock) (ticket : Ticket) :
    t.tally lock ticket ≤ t'.tally lock ticket := by
  by_cases same : lock = other
  · subst same
    rw [handles.tally]
    exact Nat.le_add_right _ _
  · obtain ⟨effects, grown, -⟩ := handles.outbox
    rw [Arbitrator.tally, Arbitrator.tally, callers_congr (handles.elsewhere lock same).1, answered,
      answered, grown, List.filterMap_append, List.count_append]
    omega

theorem Course.tally_le (course : Course scope t t' requests) (lock : Lock) (ticket : Ticket) :
    t.tally lock ticket ≤ t'.tally lock ticket := by
  induction course with
  | done => exact Nat.le_refl _
  | handled moves _ ih => exact (moves.handles.tally_le lock ticket).trans ih

theorem step_tally_le (t : Arbitrator) (op : LockOp) (lock : Lock) (ticket : Ticket) :
    t.tally lock ticket ≤ (t.step op).tally lock ticket := by
  have opened : (t.opened op).tally lock ticket = t.tally lock ticket := by cases op <;> rfl
  exact opened.symm.trans_le ((step_course (Scope.whole_admits op) t).tally_le lock ticket)

/-- Whoever waited for a lock was answered by what is among the effects, or waits for it still. An
attempt that there is on the lock now is the node's own, and began since. -/
structure Relieves (t : Arbitrator) (lock : Lock) (waiters : List Waiter)
    (effects : List LockEffect) (t' : Arbitrator) : Prop where
  renewed : ∀ attempt', t'.attempts[lock]? = some attempt' →
    attempt'.isLocal = true ∧ attempt'.node = t.node ∧ t.generation < attempt'.generation
  served : ∀ ticket, (ticketsOf waiters).count ticket ≤
    (effects.filterMap fun effect => effect.answer?.map Prod.fst).count ticket +
      (ticketsOf (t'.callers lock)).count ticket

/-- If callers are conserved, those of an attempt that another one has replaced are relieved. -/
theorem relieves_of_tally (current : t.attempts[lock]? = some attempt)
    (conserved : ∀ ticket, t.tally lock ticket ≤ t'.tally lock ticket)
    {effects : List LockEffect} (grown : t'.outbox = t.outbox ++ effects)
    (traces : t.Traces ∅ t') (replaced : ∀ attempt', t'.attempts[lock]? = some attempt' →
      attempt'.node = attempt.node → attempt'.Continues attempt → False) :
    t.Relieves lock attempt.waiters effects t' where
  renewed attempt' found := by
    obtain ⟨attempt', before, node, continues⟩ | ⟨new, -, kin⟩ := traces.attempts lock _ found
    · obtain rfl := Option.some.inj (current.symm.trans before)
      exact (replaced _ found node continues).elim
    · split at kin
      next own => exact ⟨own, kin, new⟩
      next => exact kin.elim
  served ticket := by
    have conserved := conserved ticket
    rw [tally, tally, callers_of_attempt current, answered, answered, grown, List.filterMap_append,
      List.count_append] at conserved
    omega

/-! ## This node no longer follows the peer -/

theorem mem_attemptsOf : lock ∈ t.attemptsOf peer ↔
    ∃ attempt, t.attempts[lock]? = some attempt ∧ attempt.node = peer := by
  simp [attemptsOf, Std.ExtTreeMap.mem_toList_iff_getElem?_eq_some]

theorem nodup_attemptsOf (t : Arbitrator) (peer : NodeName) : (t.attemptsOf peer).Nodup :=
  nodup_attempts t _

theorem attempts_failOfPeer_self (t : Arbitrator) (lock : Lock) :
    (t.failOfPeer lock).attempts[lock]? = none := by
  unfold failOfPeer
  split
  next => simp [abandon, attempts_failAll]
  next idle => exact idle

theorem outbox_failAll (t : Arbitrator) (failure : Failure) (waiters : List Waiter) :
    (t.failAll failure waiters).outbox =
      t.outbox ++ waiters.map fun waiter => .answer waiter.ticket (.error failure) := by
  induction waiters generalizing t with
  | nil => exact (List.append_nil _).symm
  | cons waiter waiters ih =>
    refine (ih _).trans ?_
    simp [answer, emit]

/-- Nothing is left of a peer that this node no longer follows. -/
theorem peerDisconnected_forgets (t : Arbitrator) (peer : NodeName) :
    (t.peerDisconnected peer).Forgets peer where
  record := by
    rw [show t.peerDisconnected peer = t.step (.peerDisconnected peer) from rfl, peerLocks_step]
    simp [LockOp.record]
  party lock attempt found theirs := by
    have each (t : Arbitrator) (lock : Lock) : Moves .whole lock ⟨t, []⟩ ⟨t.failOfPeer lock, []⟩ :=
      failOfPeer_moves Scope.whole_lenient
    rw [peerDisconnected_eq] at found
    by_cases among : lock ∈ (t.freed peer).attemptsOf peer
    · obtain ⟨u, -, -, -, -, -, after⟩ :=
        foldl_turn each (nodup_attemptsOf _ peer) among (t.freed peer)
      rw [after, attempts_failOfPeer_self] at found
      cases found
    · rw [attempts_foldl_aside each among] at found
      exact among (mem_attemptsOf.2 ⟨attempt, found, theirs⟩)

/-- No peer begins anything when another one disconnects. -/
theorem peerDisconnected_traces (t : Arbitrator) (peer : NodeName) :
    t.Traces ∅ (t.peerDisconnected peer) := by
  have lenient : (Scope.among ∅).Lenient := Scope.within_lenient
  have forgotten : t.Traces ∅ (t.forget peer) := .of_fewer rfl rfl fun _ _ => id
  exact forgotten.trans ((freed_course lenient t peer).trans (failed_course lenient t peer)).traces

/-- What becomes of those who wait for a peer that this node no longer follows: what it was
acquiring has failed for them, and what it was giving up is free. -/
def Dismisses (t : Arbitrator) (peer : NodeName) (effects : List LockEffect) (t' : Arbitrator) :
    Prop :=
  ∀ (lock : Lock) (attempt : Attempt), t.attempts[lock]? = some attempt → attempt.node = peer →
    if attempt.acquire then
      (attempt.waiters.map fun waiter =>
        LockEffect.answer waiter.ticket (.error .peerUnavailable)).Sublist effects
    else t.Relieves lock attempt.waiters effects t'

/-- Callers who wait for a peer to acquire a lock that nobody has are told that the peer is gone. -/
theorem peerDisconnected_fails (current : t.attempts[lock]? = some attempt)
    (free : t.owner lock = none) {effects : List LockEffect}
    (grown : (t.peerDisconnected attempt.node).outbox = t.outbox ++ effects) :
    (attempt.waiters.map fun waiter =>
      LockEffect.answer waiter.ticket (.error .peerUnavailable)).Sublist effects := by
  -- The lock is not among those of the peer, so nothing becomes of its attempt at first.
  have absent : lock ∉ (t.peerLocks[attempt.node]?.getD ∅).toList := fun there =>
    (owner_eq_none_iff.1 free).2 attempt.node (Std.ExtTreeSet.mem_toList.1 there)
  have kept : (t.freed attempt.node).attempts[lock]? = some attempt :=
    (attempts_foldl_aside (fun _ _ => freeOfPeer_moves (Scope.whole_lenient.suits _ _))
      absent _).trans current
  obtain ⟨effects', grown'⟩ := (freed_course Scope.whole_lenient t attempt.node).grows
  obtain ⟨u, front, back, same, before, after, -⟩ :=
    foldl_turn (fun _ _ => failOfPeer_moves Scope.whole_lenient) (nodup_attemptsOf _ _)
      (mem_attemptsOf.2 ⟨attempt, kept, rfl⟩) (t.freed attempt.node)
  rw [kept] at same
  have failed : u.failOfPeer lock = u.abandon lock attempt .peerUnavailable := by
    rw [failOfPeer, same]
  have started : (t.freed attempt.node).outbox = t.outbox ++ effects' := grown'
  rw [← peerDisconnected_eq, grown, failed, abandon, outbox_failAll, drop, before, started] at after
  simp only [List.append_assoc, List.append_cancel_left_eq] at after
  rw [after]
  exact ((List.sublist_append_left _ back).trans (List.sublist_append_right front _)).trans
    (List.sublist_append_right effects' _)

theorem peerDisconnected_dismisses (sound : t.Sound ∅) (ne : peer ≠ t.node)
    {effects : List LockEffect} (grown : (t.peerDisconnected peer).outbox = t.outbox ++ effects) :
    t.Dismisses peer effects (t.peerDisconnected peer) := by
  rintro lock attempt current rfl
  split
  next claims => exact peerDisconnected_fails current (sound.owner_of_claim current claims) grown
  next =>
    refine relieves_of_tally current (step_tally_le t (.peerDisconnected attempt.node) lock) grown
      (peerDisconnected_traces t attempt.node) ?_
    intro attempt' found theirs _
    exact (peerDisconnected_forgets t attempt.node).party lock attempt' found theirs

/-! ## The peer no longer follows this node -/

/-- An attempt that completes says so before its callers are served. -/
theorem outbox_complete (t : Arbitrator) (lock : Lock) (attempt : Attempt) :
    ∃ effects, (t.complete lock attempt).outbox = t.outbox ++
      .publish (if attempt.acquire then .added lock else .removed lock) :: effects := by
  have served (u : Arbitrator) (owner : Option NodeName) :
      ∃ effects, (u.resolve lock owner attempt.waiters).outbox = u.outbox ++ effects := by
    have served : Served .whole lock ⟨u, attempt.waiters⟩
        ⟨u.resolve lock owner attempt.waiters, []⟩ :=
      resolve_serves_all (Scope.whole_lenient.suits _ _)
    obtain ⟨effects, grown, -⟩ := served.moves.spares.outbox
    exact ⟨effects, grown⟩
  unfold complete
  dsimp only
  split
  next =>
    obtain ⟨effects, grown⟩ := served ((t.drop lock).gain lock) (some t.node)
    exact ⟨effects, grown.trans (List.append_cons _ _ _).symm⟩
  next =>
    obtain ⟨effects, grown⟩ := served ((t.drop lock).relinquish lock) none
    exact ⟨effects, grown.trans (List.append_cons _ _ _).symm⟩

theorem nodup_awaiting (t : Arbitrator) (node : NodeName) : (t.awaiting node).Nodup :=
  nodup_attempts t _

theorem outbox_struck (t : Arbitrator) (node : NodeName) : (t.struck node).outbox = t.outbox :=
  List.foldlRecOn _ _ (motive := fun u : Arbitrator => u.outbox = t.outbox) rfl
    fun _ same _ _ => same

/-- No peer begins anything when another one ceases to follow the node. -/
theorem removeSubscriber_traces (t : Arbitrator) (node : NodeName) :
    t.Traces ∅ (t.removeSubscriber node) := by
  have departed : t.Traces ∅ { t with subscribers := t.subscribers.erase node } :=
    .of_fewer rfl rfl fun _ _ => id
  have struck : Course (.among ∅) { t with subscribers := t.subscribers.erase node }
      (t.struck node) [] := foldl_strike_course node fun _ _ => trivial
  exact departed.trans (struck.trans (completed_course Scope.within_lenient t node)).traces

/-- An attempt of the node's own that waits for a follower who departs and for nobody else completes
when its turn comes. -/
theorem removeSubscriber_completes (current : t.attempts[lock]? = some attempt)
    (awaits : attempt.Awaits peer) (only : ∀ node, attempt.Awaits node → node = peer)
    {effects : List LockEffect} (grown : (t.removeSubscriber peer).outbox = t.outbox ++ effects) :
    .publish (if attempt.acquire then .added lock else .removed lock) ∈ effects := by
  have among : lock ∈ t.awaiting peer := mem_awaiting.2 ⟨attempt, current, awaits⟩
  obtain ⟨ratifiers, own, there⟩ := awaits
  -- The follower is struck, which leaves nobody.
  have strikes (u : Arbitrator) (lock : Lock) :
      Moves .whole lock ⟨u, []⟩ ⟨u.strike lock peer, []⟩ := .single (.struck peer (.inl trivial))
  obtain ⟨u, -, -, same, -, -, struck⟩ := foldl_turn strikes (t.nodup_awaiting peer) among
    { t with subscribers := t.subscribers.erase peer }
  rw [attempts_strike (same.trans current), own, Option.map_some] at struck
  have nobody : (ratifiers.erase peer).isEmpty = true := by
    refine Std.ExtTreeSet.isEmpty_iff.2 (Std.ExtTreeSet.ext_mem fun node => ?_)
    simp only [Std.ExtTreeSet.mem_erase, Std.ExtTreeSet.not_mem_empty, iff_false, not_and]
    intro ne there
    exact ne (Std.compare_eq_iff_eq.2 (only node ⟨ratifiers, own, there⟩).symm)
  -- In its turn the attempt completes.
  obtain ⟨v, front, back, same, before, after, -⟩ :=
    foldl_turn (fun _ _ => completeIfReady_moves Scope.whole_lenient) (t.nodup_awaiting peer) among
      (t.struck peer)
  have completed : v.completeIfReady lock =
      v.complete lock { attempt with ratifiers := some (ratifiers.erase peer) } := by
    simp only [completeIfReady, same.trans struck, nobody, if_true]
  obtain ⟨more, told⟩ := outbox_complete v lock
    { attempt with ratifiers := some (ratifiers.erase peer) }
  rw [← removeSubscriber_eq, grown, completed, told, before, outbox_struck] at after
  simp only [List.append_assoc, List.append_cancel_left_eq] at after
  rw [after]
  simp

/-- What becomes of the node's own attempts that wait only for a peer that no longer follows it:
they complete, and whoever waited for them is served. -/
def Excuses (t : Arbitrator) (peer : NodeName) (effects : List LockEffect) (t' : Arbitrator) :
    Prop :=
  ∀ (lock : Lock) (attempt : Attempt), t.attempts[lock]? = some attempt → attempt.isLocal = true →
    (∀ node, attempt.Awaits node → node = peer) →
    .publish (if attempt.acquire then .added lock else .removed lock) ∈ effects ∧
      t.Relieves lock attempt.waiters effects t'

theorem removeSubscriber_excuses (sound : t.Sound ∅) (waits : t.Waits)
    {effects : List LockEffect} (grown : (t.removeSubscriber peer).outbox = t.outbox ++ effects) :
    t.Excuses peer effects (t.removeSubscriber peer) := by
  intro lock attempt current own only
  -- It waits for somebody, as every attempt of the node's own does.
  have some_ (u : Arbitrator) (sound : u.Sound ∅) (attempt : Attempt)
      (current : u.attempts[lock]? = some attempt) (own : attempt.isLocal = true) :
      ∃ node, attempt.Awaits node := by
    obtain ⟨ratifiers, ours⟩ := Option.isSome_iff_exists.1 own
    obtain ⟨node, there⟩ := setOf_mem_nonempty (sound.hasCompany current ratifiers ours)
    exact ⟨node, ratifiers, ours, there⟩
  obtain ⟨node, awaits⟩ := some_ t sound attempt current own
  obtain rfl := only node awaits
  refine ⟨removeSubscriber_completes current awaits only grown, ?_⟩
  refine relieves_of_tally current (step_tally_le t (.removeSubscriber node) lock) grown
    (removeSubscriber_traces t node) ?_
  -- If it were still in flight it would wait for somebody who follows the node, but not for others.
  intro attempt' found _ continues
  obtain ⟨other, still⟩ := some_ _ (sound.removeSubscriber node) attempt' found
    (continues.isLocal.trans own)
  obtain ⟨_, -, heralds⟩ := step_announces t (.removeSubscriber node)
  have follows := heralds.waits waits lock attempt' other found still
  rw [only other (continues.awaits other still), subscribers_step] at follows
  simp [opened] at follows

/-! ## Both notices -/

/-- A table is told, in either order, that its node no longer follows a peer, when it is in the
state `linked`, and that the peer no longer follows it, when it is in the state `followed`. Nothing
in between names the peer, which is `gone` in the end. -/
inductive Departure (peer : NodeName) (t : Arbitrator) :
    (linked followed gone : Arbitrator) → Prop
  | unlinkedFirst (between : List LockOp) (quiet : ∀ op ∈ between, ¬ op.Names peer) :
    Departure peer t t ((t.peerDisconnected peer).run between)
      (((t.peerDisconnected peer).run between).removeSubscriber peer)
  | unfollowedFirst (between : List LockOp) (quiet : ∀ op ∈ between, ¬ op.Names peer) :
    Departure peer t ((t.removeSubscriber peer).run between) t
      (((t.removeSubscriber peer).run between).peerDisconnected peer)

namespace Departure

variable {linked followed gone : Arbitrator}

/-- The states that the notices find the table in are ones it can be in. -/
theorem runs (departure : Departure peer t linked followed gone) :
    ∃ ops ops' ops'' : List LockOp,
      linked = t.run ops ∧ followed = t.run ops' ∧ gone = t.run ops'' := by
  cases departure with
  | unlinkedFirst between =>
    exact ⟨[], .peerDisconnected peer :: between, _, rfl, rfl,
      (run_append_one t (.peerDisconnected peer :: between) (.removeSubscriber peer)).symm⟩
  | unfollowedFirst between =>
    exact ⟨.removeSubscriber peer :: between, [], _, rfl, rfl,
      (run_append_one t (.removeSubscriber peer :: between) (.peerDisconnected peer)).symm⟩

/-- In the end the peer is forgotten and does not follow the node. -/
theorem forgets (departure : Departure peer t linked followed gone) (ne : peer ≠ t.node) :
    gone.Forgets peer ∧ peer ∉ gone.subscribers := by
  cases departure with
  | unlinkedFirst between quiet =>
    have node : ((t.peerDisconnected peer).run between).node = t.node :=
      (node_run _ between).trans (node_step t (.peerDisconnected peer))
    have forgets : ((t.peerDisconnected peer).run between).Forgets peer :=
      (peerDisconnected_forgets t peer).run
        (ne.trans_eq (node_step t (.peerDisconnected peer)).symm) quiet
    refine ⟨⟨?_, ?_⟩, ?_⟩
    · exact (peerLocks_step _ (.removeSubscriber peer)).symm ▸ forgets.record
    · exact (removeSubscriber_traces _ peer).party (Set.notMem_empty peer) (ne.trans_eq node.symm)
        forgets.party
    · exact not_mem_subscribers_removed _ peer
  | unfollowedFirst between quiet =>
    refine ⟨peerDisconnected_forgets _ peer, ?_⟩
    have absent := not_mem_subscribers_run (not_mem_subscribers_removed t peer) quiet
    exact (subscribers_step _ (.peerDisconnected peer)).symm ▸ absent

end Departure

/-- Once a table has both notices that another node is gone, the node has no locks on record there
and no attempt, and no attempt waits for it, until something is heard of it again. Whoever waited
for it to acquire a lock is told that it is gone, whoever waited for it to give a lock up has an
answer or waits in a new attempt of the table's own node, and attempts of that node which waited
for nobody else complete. -/
theorem departed_blocks_nothing (node : NodeName) (outranks : Precedence) (ops : List LockOp)
    {peer : NodeName} (other : peer ≠ node) {linked followed gone : Arbitrator}
    (departure : Departure peer ((fresh node outranks).run ops) linked followed gone) :
    (∀ later : List LockOp, (∀ op ∈ later, ¬ op.Names peer) →
      peer ∉ (gone.run later).peerLocks ∧
      ∀ (lock : Lock) (attempt : Attempt), (gone.run later).attempts[lock]? = some attempt →
        attempt.node ≠ peer ∧ ¬ attempt.Awaits peer) ∧
    (∃ effects, (linked.peerDisconnected peer).outbox = linked.outbox ++ effects ∧
      linked.Dismisses peer effects (linked.peerDisconnected peer)) ∧
    ∃ effects, (followed.removeSubscriber peer).outbox = followed.outbox ++ effects ∧
      followed.Excuses peer effects (followed.removeSubscriber peer) := by
  have reached : ((fresh node outranks).run ops).node = node := node_run _ ops
  have sound : ((fresh node outranks).run ops).Sound ∅ := (sound_fresh node outranks).run ops
  have waits : ((fresh node outranks).run ops).Waits := (waits_fresh node outranks).run ops
  have ne : peer ≠ ((fresh node outranks).run ops).node := other.trans_eq reached.symm
  obtain ⟨forgets, absent⟩ := departure.forgets ne
  obtain ⟨ops, ops', ops'', rfl, rfl, rfl⟩ := departure.runs
  refine ⟨fun later quiet => ?_, ?_, ?_⟩
  · have forgets := forgets.run (ne.trans_eq (node_run _ ops'').symm) quiet
    refine ⟨forgets.record, fun lock attempt found => ⟨forgets.party lock attempt found, ?_⟩⟩
    intro awaits
    exact not_mem_subscribers_run absent quiet
      ((waits.run ops'').run later lock attempt peer found awaits)
  · obtain ⟨effects, grown, -⟩ := step_announces (run _ ops) (.peerDisconnected peer)
    exact ⟨effects, grown, peerDisconnected_dismisses (sound.run ops)
      (ne.trans_eq (node_run _ ops).symm) grown⟩
  · obtain ⟨effects, grown, -⟩ := step_announces (run _ ops') (.removeSubscriber peer)
    exact ⟨effects, grown, removeSubscriber_excuses (sound.run ops') (waits.run ops') grown⟩

/-- A peer acquires one lock and gives up another, callers wait for both, and the node waits for the
peer to consent to an attempt on a third. -/
def entwinedRun : List LockOp :=
  [.addSubscriber "a", .peerAdded "a" ⟨"e", none⟩, .peerAcquiring "a" ⟨"d", none⟩,
    .acquire ⟨"d", none⟩ 0, .peerReleasing "a" ⟨"e", none⟩, .acquire ⟨"e", none⟩ 1,
    .acquire ⟨"f", none⟩ 2]

/-- The peer disconnects while it still follows the node, which acquires the lock that is free now
and waits for the peer once more. Then the peer ceases to follow it, too. -/
theorem departed_blocks_nothing_in_entwinedRun :
    let t := (fresh "b" .byName).run entwinedRun
    let u := (t.peerDisconnected "a").run [.query ⟨"d", none⟩ 3]
    (∀ (lock : Lock) (attempt : Attempt),
      ((u.removeSubscriber "a").run [.acquire ⟨"g", none⟩ 4]).attempts[lock]? = some attempt →
        attempt.node ≠ "a") ∧
    (t.attempts[(⟨"e", none⟩ : Lock)]?.map Attempt.node) = some "a" ∧
    (u.attempts[(⟨"e", none⟩ : Lock)]?.map Attempt.node) = some "b" ∧
    (u.removeSubscriber "a").outbox.drop u.outbox.length =
      [.publish (.added ⟨"e", none⟩), .answer 1 (.ok (some "b")), .publish (.added ⟨"f", none⟩),
        .answer 2 (.ok (some "b"))] := by
  intro t u
  have departure : Departure "a" t t u (u.removeSubscriber "a") :=
    .unlinkedFirst [.query ⟨"d", none⟩ 3] (by simp [LockOp.Names])
  obtain ⟨left, -, -⟩ := departed_blocks_nothing "b" .byName entwinedRun (by decide) departure
  have quiet : ∀ op ∈ [LockOp.acquire ⟨"g", none⟩ 4], ¬ op.Names "a" := by simp [LockOp.Names]
  refine ⟨fun lock attempt found => ((left _ quiet).2 lock attempt found).1, ?_, ?_, ?_⟩
  · decide +kernel
  · decide +kernel
  · decide +kernel

end Arbitrator

end Cohort

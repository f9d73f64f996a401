import Cohort.Proofs.Lock.Moves

/-!
# What an arbitrator publishes

Replaying what an arbitrator publishes gives the locks that it holds: a lock is published as added
when it was absent, and as removed when it was there. This rests on the attempts of the node's own:
it tries to acquire only what it does not hold, and to release only what it holds. Besides, hardly
any operation concerns who follows this node and what its peers hold.

All this is shown of each move, and so of every operation.

## Main definitions

* `NodeEvent.Fitting`, `NodeEvent.heldAfter`: events that fit the locks held, and those held after.
* `Arbitrator.Poised`: the node's own attempts suit what it holds.
* `Arbitrator.Tells`: what is published tells what is done to the locks held.
* `LockOp.record`: what is noted of the peers by an operation.
* `Arbitrator.Publishes`: an operation tells so, and concerns nothing that is known of others.

## Main statements

* `Arbitrator.Move.tells`: every move tells what it does to the locks held.
* `Arbitrator.step_publishes`: what an operation publishes, and what is known of others after it.
-/

namespace Cohort

/-! ## Events and the locks held -/

namespace NodeEvent

/-- The locks that a node holds after an event. -/
def holding (held : LockSet) : NodeEvent → LockSet
  | .added lock => held.insert lock
  | .removed lock => held.erase lock
  | _ => held

/-- Only a lock that is absent is added, and only one that is there is removed. -/
def Fits (held : LockSet) : NodeEvent → Prop
  | .added lock => lock ∉ held
  | .removed lock => lock ∈ held
  | _ => True

/-- The locks that a node holds after several events. -/
def heldAfter (held : LockSet) (events : List NodeEvent) : LockSet := events.foldl holding held

/-- Each of several events fits the locks that are held when it comes up. -/
def Fitting (held : LockSet) : List NodeEvent → Prop
  | [] => True
  | event :: events => event.Fits held ∧ Fitting (event.holding held) events

variable {held : LockSet} {events : List NodeEvent}

theorem heldAfter_append (held : LockSet) (events events' : List NodeEvent) :
    heldAfter held (events ++ events') = heldAfter (heldAfter held events) events' :=
  List.foldl_append

theorem fitting_append (events' : List NodeEvent) :
    Fitting held (events ++ events') ↔
      Fitting held events ∧ Fitting (heldAfter held events) events' := by
  induction events generalizing held with
  | nil => exact ⟨fun fits => ⟨trivial, fits⟩, And.right⟩
  | cons event events ih =>
    show _ ∧ Fitting _ (events ++ events') ↔ (_ ∧ Fitting _ events) ∧ _
    rw [ih, and_assoc]
    rfl

end NodeEvent

/-- The event that an effect publishes, if it publishes one. -/
def LockEffect.event? : LockEffect → Option NodeEvent
  | .publish event => some event
  | _ => none

/-- The events that effects publish. -/
def LockEffect.events (effects : List LockEffect) : List NodeEvent :=
  effects.filterMap LockEffect.event?

@[simp] theorem LockEffect.events_append (effects effects' : List LockEffect) :
    events (effects ++ effects') = events effects ++ events effects' :=
  List.filterMap_append

namespace Arbitrator

open NodeEvent (Fitting heldAfter)

variable {t t' t'' : Arbitrator} {lock : Lock} {attempt : Attempt} {scope : Scope} {d d' : Desk}

/-- The node tries to acquire what it does not hold, and to release what it holds. -/
def Poised (t : Arbitrator) : Prop :=
  ∀ lock attempt, t.attempts[lock]? = some attempt → attempt.isLocal = true →
    (lock ∈ t.held ↔ attempt.acquire = false)

theorem poised_fresh (node : NodeName) (outranks : Precedence) : (fresh node outranks).Poised := by
  intro lock attempt found
  simp [fresh] at found

/-- What is published tells what is done to the locks held. -/
structure Tells (t t' : Arbitrator) : Prop where
  poised : t'.Poised
  outbox : ∃ effects, t'.outbox = t.outbox ++ effects ∧
    Fitting t.held (LockEffect.events effects) ∧
    heldAfter t.held (LockEffect.events effects) = t'.held

theorem Tells.refl (poised : t.Poised) : t.Tells t :=
  ⟨poised, [], (List.append_nil _).symm, trivial, rfl⟩

theorem Tells.trans (first : t.Tells t') (second : t'.Tells t'') : t.Tells t'' := by
  obtain ⟨effects, grown, fits, holds⟩ := first.outbox
  obtain ⟨effects', grown', fits', holds'⟩ := second.outbox
  refine ⟨second.poised, effects ++ effects', ?_, ?_, ?_⟩
  · rw [grown', grown, List.append_assoc]
  · rw [LockEffect.events_append, NodeEvent.fitting_append, holds]
    exact ⟨fits, fits'⟩
  · rw [LockEffect.events_append, NodeEvent.heldAfter_append, holds, holds']

namespace Tells

/-- Nothing is published, and nothing changes hands. -/
theorem silent (poised : t'.Poised) (outbox : t'.outbox = t.outbox) (held : t'.held = t.held) :
    t.Tells t' :=
  ⟨poised, [], by rw [outbox, List.append_nil], trivial, held.symm⟩

/-- Something is wanted that changes nothing for those who replay it. -/
theorem emit (poised : t.Poised) {effect : LockEffect}
    (fits : Fitting t.held (LockEffect.events [effect]))
    (holds : heldAfter t.held (LockEffect.events [effect]) = t.held) : t.Tells (t.emit effect) :=
  ⟨poised, [effect], rfl, fits, holds⟩

theorem then_emit (first : t.Tells t') {effect : LockEffect}
    (fits : Fitting t'.held (LockEffect.events [effect]))
    (holds : heldAfter t'.held (LockEffect.events [effect]) = t'.held) :
    t.Tells (t'.emit effect) :=
  first.trans (emit first.poised fits holds)

end Tells

/-- Attempts suit what is held further on if only a lock changes hands that nobody settles. -/
theorem Poised.rehold (poised : t.Poised) (attempts : t'.attempts = t.attempts)
    (settled : t.attempts[lock]? = none) (held : ∀ other ≠ lock, other ∈ t'.held ↔ other ∈ t.held) :
    t'.Poised := by
  intro other attempt found own
  rw [attempts] at found
  have ne : other ≠ lock := by
    rintro rfl
    exact nomatch settled.symm.trans found
  rw [held other ne]
  exact poised other attempt found own

/-- Attempts suit what is held further on if only one of them changes, to one that does. -/
theorem Poised.reattempt (poised : t.Poised) (held : t'.held = t.held)
    (others : ∀ other ≠ lock, t'.attempts[other]? = t.attempts[other]?)
    (suits : ∀ attempt : Attempt, t'.attempts[lock]? = some attempt → attempt.isLocal = true →
      (lock ∈ t.held ↔ attempt.acquire = false)) : t'.Poised := by
  intro other attempt found own
  rw [held]
  by_cases same : other = lock
  · subst same
    exact suits attempt found own
  · exact poised other attempt ((others other same).symm.trans found) own

/-! ## What moves publish -/

theorem drop_tells (poised : t.Poised) (lock : Lock) : t.Tells (t.drop lock) := by
  refine .silent ?_ rfl rfl
  refine poised.reattempt rfl (fun other ne => getElem?_erase_of_ne ne) fun attempt found => ?_
  rw [attempts_drop_self] at found
  cases found

/-- A lock that is absent, and is not being settled, becomes this node's. -/
theorem gain_tells (poised : t.Poised) (absent : lock ∉ t.held)
    (settled : t.attempts[lock]? = none) : t.Tells (t.gain lock) where
  poised := poised.rehold rfl settled fun other ne => by simp [gain, emit, ne.symm]
  outbox := ⟨[.publish (.added lock)], rfl, ⟨absent, trivial⟩, rfl⟩

/-- A lock that is there, and is not being settled, is this node's no longer. -/
theorem relinquish_tells (poised : t.Poised) (there : lock ∈ t.held)
    (settled : t.attempts[lock]? = none) : t.Tells (t.relinquish lock) where
  poised := poised.rehold rfl settled fun other ne => by simp [relinquish, emit, ne.symm]
  outbox := ⟨[.publish (.removed lock)], rfl, ⟨there, trivial⟩, rfl⟩

/-- A lock that nobody settles may be given up to another node. -/
theorem surrender_tells (poised : t.Poised) (settled : t.attempts[lock]? = none) :
    t.Tells (t.surrender lock) := by
  unfold surrender
  split
  next there =>
    refine ⟨?_, [.publish (.removed lock), .lost lock], ?_, ⟨there, trivial⟩, rfl⟩
    · exact poised.rehold rfl settled fun other ne => by simp [emit, ne.symm]
    · simp [emit]
  next => exact .refl poised

theorem startAttempt_tells (poised : t.Poised) (lock : Lock) (node : NodeName) (acquire : Bool)
    (ratifiers : Option NameSet) (waiters : List Waiter)
    (suits : ratifiers.isSome = true → (lock ∈ t.held ↔ acquire = false)) :
    t.Tells (t.startAttempt lock node acquire ratifiers waiters) := by
  refine .silent ?_ rfl rfl
  refine poised.reattempt rfl (fun other ne => getElem?_insert_of_ne ne _) ?_
  intro attempt' found own
  obtain rfl := Option.some.inj (Std.ExtTreeMap.getElem?_insert_self.symm.trans found)
  exact suits own

theorem beginLocal_tells (poised : t.Poised) {acquire : Bool}
    (suits : lock ∈ t.held ↔ acquire = false) (ticket : Ticket) :
    t.Tells (t.beginLocal lock acquire ticket) := by
  have announced : t.Tells
      (t.emit (.publish (if acquire then .acquiring lock else .releasing lock))) := by
    cases acquire <;> exact .emit poised ⟨trivial, trivial⟩ rfl
  have started := startAttempt_tells announced.poised lock t.node acquire (some t.subscribers)
    [⟨.outcome, ticket⟩] fun _ => suits
  exact (announced.trans started).then_emit trivial rfl

theorem strike_tells (poised : t.Poised) (lock : Lock) (node : NodeName) :
    t.Tells (t.strike lock node) := by
  have others : ∀ other ≠ lock, (t.strike lock node).attempts[other]? = t.attempts[other]? :=
    fun other ne => attempts_strike_of_ne ne node
  refine .silent (poised.reattempt rfl others fun attempt' found own => ?_) rfl rfl
  -- the attempt itself is the same but for those who still have to consent
  simp only [strike, Std.ExtTreeMap.getElem?_modify_self, Option.map_eq_some_iff] at found
  obtain ⟨attempt, current, rfl⟩ := found
  exact poised lock attempt current (by simpa [Attempt.isLocal] using own)

theorem not_held_of_owner (free : t.owner lock = none) : lock ∉ t.held := fun there => by
  rw [owner, if_pos there] at free
  cases free

theorem Serve.tells (serve : Serve scope lock d d') (poised : d.table.Poised) :
    d.table.Tells d'.table := by
  cases serve with
  | answered => exact .emit poised trivial rfl
  | @joined t waiter _ attempt current =>
    refine .silent (poised.reattempt rfl (fun other ne => getElem?_insert_of_ne ne _) ?_) rfl rfl
    intro attempt' found own
    obtain rfl := Option.some.inj (Std.ExtTreeMap.getElem?_insert_self.symm.trans found)
    exact poised lock attempt current own
  | @begun t _ _ acquire _ _ free there =>
    refine beginLocal_tells poised ⟨fun holds => ?_, there⟩ _
    exact Bool.eq_false_iff.2 fun claims => not_held_of_owner (free claims) holds
  | taken _ idle free => exact gain_tells poised (not_held_of_owner free) idle
  | given _ idle there => exact relinquish_tells poised there idle
  | withdrawn => exact (drop_tells poised lock).then_emit ⟨trivial, trivial⟩ rfl

/-- An attempt of this node's own that completes changes what is held, as it was meant to. -/
theorem Move.tells (move : Move scope lock d d') (poised : d.table.Poised) :
    d.table.Tells d'.table := by
  have dropped := drop_tells poised lock
  have idle := attempts_drop_self d.table lock
  cases move with
  | served serve => exact serve.tells poised
  | won current own claims =>
    refine dropped.trans (gain_tells dropped.poised (fun there => ?_) idle)
    have leaves := (poised lock _ current own).1 there
    exact Bool.noConfusion (claims.symm.trans leaves)
  | parted current own leaves =>
    exact dropped.trans
      (relinquish_tells dropped.poised ((poised lock _ current own).2 leaves) idle)
  | dropped => exact dropped
  | @followed t _ peer _ acquire =>
    have started := startAttempt_tells dropped.poised lock peer acquire none (t.callers lock) nofun
    exact (dropped.trans started).then_emit trivial rfl
  | struck node => exact strike_tells poised lock node
  | @yielded t _ peer =>
    have noted : t.Tells ((t.drop lock).notePeerLock peer lock) :=
      .silent dropped.poised rfl rfl
    exact noted.trans (surrender_tells noted.poised idle)
  | forgotten | counted => exact .silent poised rfl rfl

theorem Moves.tells (moves : Moves scope lock d d') (poised : d.table.Poised) :
    d.table.Tells d'.table := by
  induction moves with
  | refl => exact .refl poised
  | tail _ move ih => exact ih.trans (move.tells ih.poised)

theorem Course.tells {requests : List (Lock × Ticket)} (course : Course scope t t' requests)
    (poised : t.Poised) : t.Tells t' := by
  induction course with
  | done => exact .refl poised
  | handled moves _ ih =>
    have first := moves.tells poised
    exact first.trans (ih first.poised)

theorem opened_tells (poised : t.Poised) (op : LockOp) : t.Tells (t.opened op) := by
  cases op <;> exact .silent poised rfl rfl

/-- Whatever an operation publishes tells what it does to the locks held. -/
theorem step_tells (poised : t.Poised) (op : LockOp) : t.Tells (t.step op) := by
  have opened := opened_tells poised op
  exact opened.trans ((step_course (Scope.whole_admits op) t).tells opened.poised)

end Arbitrator

/-! ## What is known of others -/

/-- What is noted of the peers by an operation. -/
def LockOp.record (peerLocks : Std.ExtTreeMap NodeName LockSet) :
    LockOp → Std.ExtTreeMap NodeName LockSet
  | .peerAdded peer lock => peerLocks.insert peer ((peerLocks[peer]?.getD ∅).insert lock)
  | .peerRemoved peer lock => peerLocks.modify peer (·.erase lock)
  | .peerSubscribed peer locks => peerLocks.insert peer locks
  | .peerDisconnected peer => peerLocks.erase peer
  | _ => peerLocks

namespace Arbitrator

variable {t t' t'' : Arbitrator} {lock : Lock} {scope : Scope} {d d' : Desk} {peer : NodeName}

theorem Move.peerLocks (move : Move scope lock d d') (unknown : scope.record = ∅) :
    d'.table.peerLocks = d.table.peerLocks := by
  cases move with
  | served serve => cases serve <;> rfl
  | yielded known | forgotten known => exact absurd known (unknown ▸ Set.notMem_empty _)
  | _ => rfl

theorem Course.peerLocks {requests : List (Lock × Ticket)} (course : Course scope t t' requests)
    (unknown : scope.record = ∅) : t'.peerLocks = t.peerLocks :=
  course.keeps (P := fun u => u.peerLocks = t.peerLocks)
    (fun _ _ _ move same => (move.peerLocks unknown).trans same) rfl

/-- Everything may happen but that something is noted of a peer. -/
abbrev Scope.unrecorded : Scope := .within Set.univ ∅ Set.univ

theorem Scope.unrecorded_admits {op : LockOp} (quiet : ∀ peer, ¬ op.Records peer) :
    Scope.unrecorded.Admits op :=
  ⟨within_lenient, fun _ _ => trivial, fun peer told => absurd told (quiet peer),
    fun _ _ => rfl⟩

theorem peerLocks_peerAdded (t : Arbitrator) (peer : NodeName) (lock : Lock) :
    (t.peerAdded peer lock).peerLocks =
      t.peerLocks.insert peer ((t.peerLocks[peer]?.getD ∅).insert lock) := by
  unfold peerAdded
  dsimp only
  split
  next attempt current =>
    have settled : Moves .unrecorded lock ⟨(t.notePeerLock peer lock).surrender lock, []⟩
        ⟨((t.notePeerLock peer lock).surrender lock).settle lock attempt (some peer), []⟩ :=
      settle_moves current (Scope.within_lenient.suits _ _)
    exact (settled.course.peerLocks rfl).trans peerLocks_surrender
  next => exact peerLocks_surrender

theorem insert_insert_peerLocks (table : Std.ExtTreeMap NodeName LockSet) (peer : NodeName)
    (locks locks' : LockSet) :
    (table.insert peer locks).insert peer locks' = table.insert peer locks' := by
  refine Std.ExtTreeMap.ext_getElem? fun node => ?_
  simp only [Std.ExtTreeMap.getElem?_insert]
  split <;> rfl

/-- Several locks of a peer are noted one after the other. -/
theorem peerLocks_foldl_peerAdded (t : Arbitrator) (peer : NodeName) (locks : List Lock)
    {known : LockSet} (knows : t.peerLocks[peer]? = some known) :
    (locks.foldl (fun t lock => t.peerAdded peer lock) t).peerLocks =
      t.peerLocks.insert peer (locks.foldl (fun known lock => known.insert lock) known) := by
  induction locks generalizing t known with
  | nil =>
    refine Std.ExtTreeMap.ext_getElem? fun node => ?_
    rw [List.foldl_nil, List.foldl_nil, Std.ExtTreeMap.getElem?_insert]
    split
    next eq => rw [← Std.compare_eq_iff_eq.1 eq, knows]
    next => rfl
  | cons lock rest ih =>
    have noted : (t.peerAdded peer lock).peerLocks =
        t.peerLocks.insert peer (known.insert lock) := by
      rw [peerLocks_peerAdded, knows]
      rfl
    rw [List.foldl_cons, ih _ (noted ▸ Std.ExtTreeMap.getElem?_insert_self), noted,
      insert_insert_peerLocks, List.foldl_cons]

theorem toList_foldl_insert (locks : LockSet) :
    locks.toList.foldl (fun known lock => known.insert lock) (∅ : LockSet) = locks := by
  have folded : ∀ (l : List Lock) (known : LockSet) (lock : Lock),
      lock ∈ l.foldl (fun known lock => known.insert lock) known ↔ lock ∈ known ∨ lock ∈ l := by
    intro l
    induction l with
    | nil => simp
    | cons first rest ih =>
      intro known lock
      rw [List.foldl_cons, ih, Std.ExtTreeSet.mem_insert, Std.compare_eq_iff_eq, List.mem_cons]
      tauto
  refine Std.ExtTreeSet.ext_mem fun lock => ?_
  rw [folded, Std.ExtTreeSet.mem_toList]
  simp

theorem peerLocks_step (t : Arbitrator) (op : LockOp) :
    (t.step op).peerLocks = op.record t.peerLocks := by
  -- What is noted of no peer leaves only what concerns all locks alike.
  have quiet (never : ∀ peer, ¬ op.Records peer) :
      (t.step op).peerLocks = (t.opened op).peerLocks :=
    (step_course (Scope.unrecorded_admits never) t).peerLocks rfl
  cases op with
  | peerAdded peer lock => exact peerLocks_peerAdded t peer lock
  | peerRemoved peer lock =>
    have freed : Moves .unrecorded lock ⟨t.forgetPeerLock peer lock, []⟩
        ⟨t.peerRemoved peer lock, []⟩ :=
      freeOfPeer_moves (t := t.forgetPeerLock peer lock) (Scope.within_lenient.suits _ _)
    exact freed.course.peerLocks rfl
  | peerSubscribed peer locks =>
    have known : (t.opened (.peerSubscribed peer locks)).peerLocks[peer]? = some ∅ :=
      Std.ExtTreeMap.getElem?_insert_self
    refine (peerLocks_foldl_peerAdded _ peer locks.toList known).trans ?_
    rw [toList_foldl_insert]
    exact insert_insert_peerLocks t.peerLocks peer ∅ locks
  | _ => exact quiet fun _ => id

/-- An operation publishes what it does to the locks held, and does not concern who follows this
node and what its peers hold. -/
structure Publishes (t t' : Arbitrator) : Prop extends Tells t t' where
  subscribers : t'.subscribers = t.subscribers
  peerLocks : t'.peerLocks = t.peerLocks

theorem Publishes.refl (poised : t.Poised) : t.Publishes t := ⟨.refl poised, rfl, rfl⟩

theorem Publishes.trans (first : t.Publishes t') (second : t'.Publishes t'') : t.Publishes t'' :=
  ⟨first.toTells.trans second.toTells, second.subscribers.trans first.subscribers,
    second.peerLocks.trans first.peerLocks⟩

/-- What is noted of peers besides makes no difference. -/
theorem Publishes.noting (publishes : t.Publishes t')
    (peerLocks : Std.ExtTreeMap NodeName LockSet) :
    { t with peerLocks }.Publishes { t' with peerLocks } :=
  ⟨⟨publishes.poised, publishes.outbox⟩, publishes.subscribers, rfl⟩

/-- An operation publishes what it does to the locks held. Besides it changes who follows this node,
or what is noted of a peer, only as it says itself. -/
theorem step_publishes (poised : t.Poised) (op : LockOp) :
    { t.opened op with peerLocks := op.record t.peerLocks }.Publishes (t.step op) := by
  obtain ⟨poised, outbox⟩ := step_tells poised op
  rw [← t.opened_outbox op, ← t.opened_held op] at outbox
  exact ⟨⟨poised, outbox⟩, (step_course (Scope.whole_admits op) t).subscribers, peerLocks_step t op⟩

end Arbitrator

end Cohort

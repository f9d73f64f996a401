import Cohort.Proofs.Lock.Grip

/-!
# Whether callers are told the truth

Every operation on a lock table tells callers the truth about the lock they asked for, unless
somebody who wanted the opposite waited ahead of them: whoever is served last hears the owner that
the lock was settled with, whatever has become of it since. This turns on the order in which callers
are served, which the moves of an operation do not show, so each operation on one lock is looked at
for itself.

## Main definitions

* `Arbitrator.Refuses`: an operation that tells callers about failures only.
* `Arbitrator.Answers`: what is good to tell whoever asked for a lock.
* `LockOp.Foreign`: no peer goes by the name of the node itself.

## Main statements

* `Arbitrator.step_reports`: what callers are told by one operation.
* `Arbitrator.answers_truthful`: over every run, callers are told the truth unless somebody ahead
  of them wanted the opposite.
* `Arbitrator.answers_untruthful`: runs in which somebody ahead wanted the opposite.
-/

namespace Cohort

namespace Arbitrator

variable {t t' t'' u : Arbitrator} {lock other : Lock} {asked : List Ticket} {attempt : Attempt}
  {owner : Option NodeName} {issued : List (Lock × Ticket)} {good : Moment → Prop}
  {peer : NodeName}

/-- An attempt is dropped that is not one to give the lock up. -/
theorem drop_reports (proper : t.Proper lock) (moves : t.isReleasing lock = false) :
    t.Reports lock good (t.drop lock) := by
  refine .unanswered rfl proper.drop (List.append_nil _).symm ?_ nofun
  rw [Grip.replay_nil, grip, moves, grip_of_none (t := t.drop lock) (by simp [drop])]
  rfl

/-- The attempt of another node ends, with somebody else as the owner of the lock or nobody. -/
theorem settle_reports (proper : t.Proper lock) (current : t.attempts[lock]? = some attempt)
    (foreign : attempt.node ≠ t.node) (fit : owner ≠ some t.node) :
    t.Reports lock (Moment.Fair t.node attempt.waiters) (t.settle lock attempt owner) := by
  have none_ := proper.grip_of_other current foreign
  have dropped : t.Reports lock (Moment.Fair t.node attempt.waiters) (t.drop lock) :=
    drop_reports proper (congrArg Grip.leaves none_)
  have free : ((t.drop lock).grip lock).holds = false := congrArg Grip.holds none_
  exact dropped.trans (resolve_reports dropped.proper ⟨(absurd · fit), fun _ => free⟩ _)

theorem complete_reports (proper : t.Proper lock) (current : t.attempts[lock]? = some attempt) :
    t.Reports lock (Moment.Fair t.node (t.callers lock)) (t.complete lock attempt) := by
  have idle : (t.drop lock).attempts[lock]? = none := by simp [drop]
  rw [callers_of_attempt current]
  unfold complete
  dsimp only
  split
  next =>
    have grip := grip_gain idle
    have gained : t.Reports lock (Moment.Fair t.node attempt.waiters)
        ((t.drop lock).gain lock) := by
      refine .unanswered rfl (.of_idle idle proper.record) rfl ?_ (by simp [LockEffect.answer?])
      rw [grip]
      simp [Grip.replay, Grip.after, LockEffect.saying?, NodeEvent.signal?]
    exact gained.trans (resolve_reports gained.proper (Grip.bears_ours grip _) _)
  next =>
    have grip := grip_relinquish idle
    have left : t.Reports lock (Moment.Fair t.node attempt.waiters)
        ((t.drop lock).relinquish lock) := by
      refine .unanswered rfl (.of_idle idle proper.record) rfl ?_ (by simp [LockEffect.answer?])
      rw [grip]
      simp [Grip.replay, Grip.after, LockEffect.saying?, NodeEvent.signal?]
    have free := congrArg Grip.holds grip
    exact left.trans (resolve_reports left.proper (Grip.bears_nobodys free _) _)

theorem reacquire_reports (proper : t.Proper lock) :
    t.Reports lock (Moment.Fair t.node (t.callers lock)) (t.reacquire lock) := by
  unfold reacquire
  split
  next attempt current =>
    split
    next leaving =>
      rw [Bool.and_eq_true, Bool.not_eq_true'] at leaving
      have holds := (proper.own attempt current leaving.1).2 leaving.2
      have idle : (t.drop lock).attempts[lock]? = none := by simp [drop]
      have grip : ((t.drop lock).emit (.publish (.kept lock))).grip lock = ⟨true, false⟩ := by
        rw [grip_of_none (t := (t.drop lock).emit _) idle]
        exact congrArg (Grip.mk · false) (decide_eq_true holds)
      have kept : t.Reports lock (Moment.Fair t.node attempt.waiters)
          ((t.drop lock).emit (.publish (.kept lock))) := by
        refine .unanswered rfl (.of_idle idle proper.record) rfl ?_ (by simp [LockEffect.answer?])
        rw [grip]
        simp [Grip.replay, Grip.after, LockEffect.saying?, NodeEvent.signal?, Arbitrator.grip,
          holds]
      rw [callers_of_attempt current]
      exact kept.trans (resolve_reports kept.proper (Grip.bears_ours grip _) _)
    next => exact .refl proper
  next => exact .refl proper

/-! ### Consent and time -/

theorem strike_reports (proper : t.Proper lock) (node : NodeName) :
    t.Reports lock good (t.strike lock node) := by
  cases current : t.attempts[lock]? with
  | none => exact .same proper rfl rfl (by simp [strike, current]) Iff.rfl id
  | some attempt =>
    have entry := attempts_strike current node
    have isLocal : (attempt.ratifiers.map (·.erase node)).isSome = attempt.isLocal :=
      Option.isSome_map
    refine .unanswered rfl ⟨?_, ?_, proper.record⟩ (List.append_nil _).symm ?_ (by simp)
    · intro attempt' there own
      obtain rfl := Option.some.inj (entry.symm.trans there)
      exact proper.own attempt current (isLocal.symm.trans own)
    · intro attempt' there foreign
      obtain rfl := Option.some.inj (entry.symm.trans there)
      exact proper.theirs attempt current (isLocal.symm.trans foreign)
    · rw [Grip.replay_nil, grip, grip, isReleasing_of_attempt current,
        isReleasing_of_attempt entry, ← isLocal]
      rfl

theorem completeIfReady_reports (proper : t.Proper lock) :
    t.Reports lock (Moment.Fair t.node (t.callers lock)) (t.completeIfReady lock) := by
  unfold completeIfReady
  split
  next attempt current =>
    split
    next =>
      split
      next => exact complete_reports proper current
      next => exact .refl proper
    next => exact .refl proper
  next => exact .refl proper

theorem ratify_reports (proper : t.Proper lock) (node : NodeName) (acquire : Bool) :
    t.Reports lock (Moment.Fair t.node (t.callers lock)) (t.ratify node lock acquire) := by
  unfold ratify
  split
  next =>
    split
    next =>
      have struck : t.Reports lock (Moment.Fair t.node (t.callers lock)) (t.strike lock node) :=
        strike_reports proper node
      have completed := completeIfReady_reports struck.proper
      rw [callers_strike] at completed
      exact struck.trans completed
    next => exact .refl proper
  next => exact .refl proper

theorem timeout_reports (proper : t.Proper lock) (generation : Nat) :
    t.Reports lock (Moment.Fair t.node (t.callers lock)) (t.timeout lock generation) := by
  unfold timeout
  split
  next attempt current =>
    split
    next =>
      have counted : t.Reports lock (Moment.Fair t.node (t.callers lock))
          { t with stats := { t.stats with timeouts := t.stats.timeouts + 1 } } :=
        .same proper rfl rfl rfl Iff.rfl id
      exact counted.trans (complete_reports counted.proper current)
    next => exact .refl proper
  next => exact .refl proper

/-! ### News from peers -/

theorem peerAcquiring_reports (proper : t.Proper lock) (ne : peer ≠ t.node) :
    t.Reports lock good (t.peerAcquiring peer lock) := by
  unfold peerAcquiring
  split
  next => exact .refl proper
  next unowned =>
    have free : lock ∉ t.held := (owner_eq_none_iff.1 unowned).1
    split
    next idle => exact follow_reports proper ne free (isReleasing_of_none idle) true []
    next attempt current =>
      split
      next => exact .refl proper
      next =>
        have dropped : t.Reports lock good (t.drop lock) :=
          drop_reports proper (proper.isReleasing_of_free free)
        have idle : (t.drop lock).attempts[lock]? = none := by simp [drop]
        exact dropped.trans
          (follow_reports dropped.proper ne free (isReleasing_of_none idle) true _)

theorem peerReleasing_reports (proper : t.Proper lock) (ne : peer ≠ t.node) :
    t.Reports lock good (t.peerReleasing peer lock) := by
  unfold peerReleasing
  split
  next theirs =>
    have free : lock ∉ t.held := by
      intro holds
      have ours : t.owner lock = some t.node := if_pos holds
      exact ne (Option.some.inj (theirs.1.symm.trans ours))
    have idle : t.attempts[lock]? = none := Std.ExtTreeMap.getElem?_eq_none theirs.2
    exact follow_reports proper ne free (isReleasing_of_none idle) false []
  next => exact .refl proper

/-- The node has no grip on a lock any more once another node took it. -/
theorem surrender_says (proper : t.Proper lock) :
    ∃ effects, (t.surrender lock).outbox = t.outbox ++ effects ∧
      (∀ effect ∈ effects, effect.answer? = none) ∧
      (t.grip lock).replay lock effects = ⟨false, false⟩ ∧ lock ∉ (t.surrender lock).held := by
  unfold surrender
  split
  next holds =>
    refine ⟨[.publish (.removed lock), .lost lock], by simp [emit], by simp [LockEffect.answer?],
      ?_, by simp [emit]⟩
    simp [Grip.replay, Grip.after, LockEffect.saying?, NodeEvent.signal?]
  next free =>
    refine ⟨[], (List.append_nil _).symm, by simp, ?_, free⟩
    rw [Grip.replay_nil, grip, proper.isReleasing_of_free free, decide_eq_false free]

theorem peerAdded_reports (proper : t.Proper lock) (ne : peer ≠ t.node) :
    t.Reports lock (Moment.Fair t.node (t.callers lock)) (t.peerAdded peer lock) := by
  have noted : (t.notePeerLock peer lock).Proper lock := by
    refine proper.congr rfl rfl Iff.rfl fun known => ?_
    have knows : ((t.notePeerLock peer lock).standing lock).knows =
        insert peer (t.standing lock).knows :=
      congrArg Lock.Standing.knows (standing_notePeerLock_self peer)
    have among : t.node ∈ insert peer (t.standing lock).knows := knows ▸ known
    exact among.resolve_left (Ne.symm ne)
  obtain ⟨effects, outbox, unanswered, replay, free⟩ := surrender_says noted
  have attempts : ((t.notePeerLock peer lock).surrender lock).attempts = t.attempts :=
    attempts_surrender
  have node : ((t.notePeerLock peer lock).surrender lock).node = t.node := node_surrender
  have record : lock ∉ ((t.notePeerLock peer lock).surrender lock).peerLocks[
      ((t.notePeerLock peer lock).surrender lock).node]?.getD ∅ := by
    rw [peerLocks_surrender, node_surrender]
    exact noted.record
  unfold peerAdded
  dsimp only
  cases current : ((t.notePeerLock peer lock).surrender lock).attempts[lock]? with
  | none =>
    refine .unanswered node (.of_idle current record) outbox (replay.trans ?_) unanswered
    rw [grip_of_none current, decide_eq_false free]
  | some attempt =>
    have idle : (((t.notePeerLock peer lock).surrender lock).drop lock).attempts[lock]? = none := by
      simp [drop]
    have dropped : t.Reports lock (Moment.Fair t.node (t.callers lock))
        (((t.notePeerLock peer lock).surrender lock).drop lock) := by
      refine .unanswered node (.of_idle idle record) outbox (replay.trans ?_) unanswered
      rw [grip_of_none idle]
      exact congrArg (Grip.mk · false) (decide_eq_false free).symm
    have served := resolve_reports dropped.proper
      (Grip.bears_peers (ne.trans_eq dropped.node.symm) _) attempt.waiters
    rw [callers_of_attempt (t := t) (attempts ▸ current)] at dropped ⊢
    rw [dropped.node] at served
    exact dropped.trans served

theorem peerKept_reports (proper : t.Proper lock) (ne : peer ≠ t.node) :
    t.Reports lock (Moment.Fair t.node (t.callers lock)) (t.peerKept peer lock) := by
  unfold peerKept
  split
  next attempt current =>
    split
    next theirs =>
      rw [callers_of_attempt current]
      exact settle_reports proper current (theirs.1.symm ▸ ne)
        fun same => ne (Option.some.inj same)
    next => exact .refl proper
  next => exact .refl proper

theorem freeOfPeer_reports (proper : t.Proper lock) (ne : peer ≠ t.node) :
    t.Reports lock (Moment.Fair t.node (t.callers lock)) (t.freeOfPeer peer lock) := by
  unfold freeOfPeer
  split
  next attempt current =>
    split
    next theirs =>
      rw [callers_of_attempt current]
      exact settle_reports proper current (theirs.symm ▸ ne) nofun
    next => exact .refl proper
  next => exact .refl proper

theorem peerRemoved_reports (proper : t.Proper lock) (ne : peer ≠ t.node) :
    t.Reports lock (Moment.Fair t.node (t.callers lock)) (t.peerRemoved peer lock) := by
  have forgotten : t.Reports lock (Moment.Fair t.node (t.callers lock))
      (t.forgetPeerLock peer lock) := by
    refine .same proper rfl rfl rfl Iff.rfl fun known => ?_
    have knows : ((t.forgetPeerLock peer lock).standing lock).knows =
        (t.standing lock).knows \ {peer} :=
      congrArg Lock.Standing.knows (standing_forgetPeerLock_self peer)
    have among : t.node ∈ (t.standing lock).knows \ {peer} := knows ▸ known
    exact among.1
  -- From here on the operation is the one that frees the lock of a peer that went away.
  exact forgotten.trans (freeOfPeer_reports (t := t.forgetPeerLock peer lock) forgotten.proper ne)

/-! ### Failures -/

/-- Callers are told about failures, and nothing else is said; nobody's hold on a lock changes. -/
structure Refuses (t t' : Arbitrator) : Prop where
  node : t'.node = t.node
  held : t'.held = t.held
  peerLocks : t'.peerLocks = t.peerLocks
  outbox : ∃ effects, t'.outbox = t.outbox ++ effects ∧
    ∀ effect ∈ effects, ∃ ticket failure, effect = .answer ticket (.error failure)

namespace Refuses

theorem refl (t : Arbitrator) : t.Refuses t := ⟨rfl, rfl, rfl, [], by simp, nofun⟩

theorem trans (first : t.Refuses t') (second : t'.Refuses t'') : t.Refuses t'' := by
  obtain ⟨effects, outbox, failures⟩ := first.outbox
  obtain ⟨effects', outbox', failures'⟩ := second.outbox
  refine ⟨second.node.trans first.node, second.held.trans first.held,
    second.peerLocks.trans first.peerLocks, effects ++ effects', ?_, ?_⟩
  · rw [outbox', outbox, List.append_assoc]
  · exact fun effect member => (List.mem_append.1 member).elim (failures effect) (failures' effect)

/-- What refuses callers at each of several steps does so over all of them. -/
theorem foldl {α : Type} {f : Arbitrator → α → Arbitrator} (step : ∀ t a, Refuses t (f t a))
    (l : List α) : t.Refuses (l.foldl f t) := by
  induction l generalizing t with
  | nil => exact .refl t
  | cons a l ih => exact (step t a).trans ih

/-- Nobody is told an owner. -/
theorem outbox_unanswered (refuses : t.Refuses t') (lock : Lock) :
    ∃ effects, t'.outbox = t.outbox ++ effects ∧
      (t.grip lock).replay lock effects = t.grip lock ∧
      (t.grip lock).moments lock effects = [] := by
  obtain ⟨effects, outbox, failures⟩ := refuses.outbox
  refine ⟨effects, outbox, Grip.replay_of_quiet fun effect member => ?_,
    List.eq_nil_iff_forall_not_mem.2 fun moment told => ?_⟩
  · obtain ⟨ticket, failure, rfl⟩ := failures effect member
    rfl
  · obtain ⟨ticket, failure, eq⟩ := failures _ (Grip.answer_of_mem_moments told)
    cases eq

end Refuses

theorem abandon_refuses (lock : Lock) (attempt : Attempt) (failure : Failure) :
    t.Refuses (t.abandon lock attempt failure) := by
  have dropped : t.Refuses (t.drop lock) := ⟨rfl, rfl, rfl, [], (List.append_nil _).symm, nofun⟩
  have told (u : Arbitrator) (waiter : Waiter) :
      u.Refuses (u.answer waiter.ticket (.error failure)) :=
    ⟨rfl, rfl, rfl, [.answer waiter.ticket (.error failure)], rfl, by simp⟩
  exact dropped.trans (.foldl told attempt.waiters)

theorem shutDown_refuses : t.Refuses t.shutDown := by
  rw [shutDown_eq]
  refine .foldl (fun t lock => ?_) _
  unfold endAttempt
  split
  next => exact abandon_refuses ..
  next => exact .refl t

/-- A failure of another node's attempt concerns only whoever waits for the lock. -/
theorem failOfPeer_reports (proper : t.Proper lock)
    (foreign : ∀ attempt, t.attempts[lock]? = some attempt → attempt.node ≠ t.node) :
    t.Reports lock good (t.failOfPeer lock) := by
  unfold failOfPeer
  split
  next attempt current =>
    have none_ := proper.grip_of_other current (foreign attempt current)
    have refuses := abandon_refuses (t := t) lock attempt .peerUnavailable
    obtain ⟨effects, outbox, replay, silent⟩ := refuses.outbox_unanswered lock
    have idle : (t.abandon lock attempt .peerUnavailable).attempts[lock]? = none := by
      rw [abandon, attempts_failAll]
      simp [drop]
    refine ⟨refuses.node, .of_idle idle ?_, effects, outbox, ?_, by simp [silent]⟩
    · rw [refuses.node, refuses.peerLocks]
      exact proper.record
    · have free : lock ∉ t.held := of_decide_eq_false (congrArg Grip.holds none_)
      rw [replay, none_, grip_of_none idle, refuses.held, decide_eq_false free]
  next => exact .refl proper

/-! ### Several locks -/

/-- Whoever is told anything when another lock is handled did not ask for this one. -/
theorem reports_aside (proper : t.Proper lock) (accounted : t.Accounted issued)
    (distinct : ((issued ++ asked.map (other, ·)).map Prod.snd).Nodup)
    (handles : t.Handles other asked t') (ne : lock ≠ other) :
    t.Reports lock (fun moment => (lock, moment.ticket) ∉ issued ++ asked.map (other, ·)) t' := by
  refine (reports_of_handles proper handles ne).mono fun moment told issuedHere => ?_
  have there : (other, moment.ticket) ∈ issued ++ asked.map (other, ·) := by
    obtain waits | asks := List.mem_append.1 told
    · refine List.mem_append_left _ (by_contra fun stranger => ?_)
      exact accounted.elsewhere other moment.ticket stranger waits
    · exact List.mem_append_right _ (List.mem_map.2 ⟨_, asks, rfl⟩)
  exact ne (Accounted.lock_eq distinct there issuedHere)

/-- Other locks are handled one after the other. -/
theorem foldl_aside {f : Arbitrator → Lock → Arbitrator}
    (each : ∀ t lock, Moves .whole lock ⟨t, []⟩ ⟨f t lock, []⟩)
    (distinct : (issued.map Prod.snd).Nodup) {locks : List Lock} (absent : lock ∉ locks)
    (proper : t.Proper lock) (accounted : t.Accounted issued) :
    t.Reports lock (fun moment => (lock, moment.ticket) ∉ issued) (locks.foldl f t) ∧
      (locks.foldl f t).attempts[lock]? = t.attempts[lock]? := by
  induction locks generalizing t with
  | nil => exact ⟨.refl proper, rfl⟩
  | cons other locks ih =>
    obtain ⟨ne, absent⟩ := not_or.1 (mt List.mem_cons.2 absent)
    have handles : t.Handles other [] (f t other) := (each t other).handles
    have first := reports_aside proper accounted (by simpa using distinct) handles ne
    rw [List.map_nil, List.append_nil] at first
    obtain ⟨rest, same⟩ :=
      ih absent first.proper (accounted.unasked (each t other).course distinct)
    exact ⟨first.trans rest, same.trans (handles.elsewhere lock ne).1⟩

/-- Several locks are handled one after the other, each of them once. -/
theorem foldl_reports {f : Arbitrator → Lock → Arbitrator}
    (each : ∀ t lock, Moves .whole lock ⟨t, []⟩ ⟨f t lock, []⟩)
    (distinct : (issued.map Prod.snd).Nodup) {locks : List Lock} (once : locks.Nodup)
    (proper : t.Proper lock) (accounted : t.Accounted issued)
    (turn : lock ∈ locks → ∀ u : Arbitrator, u.Proper lock → u.node = t.node →
      u.attempts[lock]? = t.attempts[lock]? → u.Reports lock good (f u lock)) :
    t.Reports lock (fun moment => (lock, moment.ticket) ∈ issued → good moment)
      (locks.foldl f t) := by
  have aside {moment : Moment} (stranger : (lock, moment.ticket) ∉ issued) :
      (lock, moment.ticket) ∈ issued → good moment := fun asked => absurd asked stranger
  by_cases among : lock ∈ locks
  · -- The lock has its turn once; before it and after it only others are handled.
    obtain ⟨front, back, rfl⟩ := List.append_of_mem among
    obtain ⟨-, rest, apart⟩ := List.nodup_append.1 once
    have before : lock ∉ front := fun member => apart lock member lock List.mem_cons_self rfl
    have after : lock ∉ back := (List.nodup_cons.1 rest).1
    obtain ⟨first, same⟩ := foldl_aside each distinct before proper accounted
    have second := turn among _ first.proper first.node same
    have course : Course .whole t (f (front.foldl f t) lock) [] :=
      (Course.foldl (fun t lock => (each t lock).course) front t).trans (each _ lock).course
    have kept := accounted.unasked course distinct
    obtain ⟨third, -⟩ := foldl_aside each distinct after second.proper kept
    rw [List.foldl_append, List.foldl_cons]
    exact ((first.mono fun _ => aside).trans (second.mono fun _ fine _ => fine)).trans
      (third.mono fun _ => aside)
  · exact (foldl_aside each distinct among proper accounted).1.mono fun _ => aside

theorem LockSet.nodup_toList (locks : LockSet) : locks.toList.Nodup := by
  refine locks.distinct_toList.imp fun {a b} distinct same => distinct ?_
  rw [same]
  exact Std.ReflCmp.compare_self

/-- Every lock occurs once among the attempts. -/
theorem nodup_attempts (t : Arbitrator) (p : Lock × Attempt → Bool) :
    ((t.attempts.toList.filter p).map Prod.fst).Nodup := by
  have keys : (t.attempts.toList.map Prod.fst).Nodup := by
    rw [Std.ExtTreeMap.map_fst_toList_eq_keys]
    exact t.attempts.nodup_keys
  exact keys.sublist (List.filter_sublist.map _)

theorem node_of_mem_attemptsOf (among : lock ∈ t.attemptsOf peer)
    (current : t.attempts[lock]? = some attempt) : attempt.node = peer := by
  obtain ⟨⟨lock', attempt'⟩, member, same⟩ := List.mem_map.1 among
  obtain rfl : lock' = lock := same
  obtain ⟨entry, theirs⟩ := List.mem_filter.1 member
  have there := Std.ExtTreeMap.mem_toList_iff_getElem?_eq_some.1 entry
  obtain rfl := Option.some.inj (current.symm.trans there)
  exact of_decide_eq_true theirs

theorem foldl_strike_reports (proper : t.Proper lock) (node : NodeName) (locks : List Lock) :
    t.Reports lock good (locks.foldl (fun t lock => t.strike lock node) t) ∧
      (locks.foldl (fun t lock => t.strike lock node) t).callers lock = t.callers lock := by
  induction locks generalizing t with
  | nil => exact ⟨.refl proper, rfl⟩
  | cons other locks ih =>
    have first : t.Reports lock good (t.strike other node) := by
      by_cases eq : other = lock
      · subst eq
        exact strike_reports proper node
      · refine .same proper rfl rfl ?_ Iff.rfl id
        simp [strike, Std.ExtTreeMap.getElem?_modify, eq]
    obtain ⟨rest, same⟩ := ih first.proper
    exact ⟨first.trans rest, same.trans (callers_strike node)⟩

/-- What is good to tell whoever waits for a lock or asks for it. -/
def Answers (node : NodeName) (lock : Lock) (issued : List (Lock × Ticket))
    (waiters : List Waiter) (moment : Moment) : Prop :=
  (lock, moment.ticket) ∈ issued → moment.Fair node waiters

theorem removeSubscriber_reports (proper : t.Proper lock) (accounted : t.Accounted issued)
    (distinct : (issued.map Prod.snd).Nodup) (node : NodeName) :
    t.Reports lock (Answers t.node lock issued (t.callers lock)) (t.removeSubscriber node) := by
  have erased : t.Reports lock (Answers t.node lock issued (t.callers lock))
      { t with subscribers := t.subscribers.erase node } := .same proper rfl rfl rfl Iff.rfl id
  obtain ⟨struck, callers⟩ := foldl_strike_reports erased.proper node (t.awaiting node)
  have waiting : Accounted { t with subscribers := t.subscribers.erase node } issued :=
    accounted.congr rfl rfl
  have course : Course .whole { t with subscribers := t.subscribers.erase node }
      (t.struck node) [] := foldl_strike_course node fun _ _ => trivial
  refine (erased.trans struck).trans (foldl_reports
    (fun _ _ => completeIfReady_moves Scope.whole_lenient) distinct (t.nodup_attempts _)
    struck.proper (waiting.unasked course distinct) fun _ u proper' node' attempts => ?_)
  have completed := completeIfReady_reports proper'
  rw [callers_congr attempts, callers, node', struck.node] at completed
  exact completed

theorem peerSubscribed_reports (proper : t.Proper lock) (accounted : t.Accounted issued)
    (distinct : (issued.map Prod.snd).Nodup) (ne : peer ≠ t.node) (locks : LockSet) :
    t.Reports lock (Answers t.node lock issued (t.callers lock)) (t.peerSubscribed peer locks) := by
  have blank : t.Reports lock (Answers t.node lock issued (t.callers lock))
      { t with peerLocks := t.peerLocks.insert peer ∅ } := by
    refine .same proper rfl rfl rfl Iff.rfl fun known => ?_
    simpa [Std.ExtTreeMap.getElem?_insert, ne] using known
  have waiting : Accounted { t with peerLocks := t.peerLocks.insert peer ∅ } issued :=
    accounted.congr rfl rfl
  refine blank.trans (foldl_reports
    (fun _ _ => peerAdded_moves trivial (Scope.whole_lenient.suits _ _)) distinct
    (LockSet.nodup_toList locks) blank.proper waiting fun _ u proper' node' attempts => ?_)
  have added := peerAdded_reports proper' (ne.trans_eq node'.symm)
  rw [callers_congr attempts, node'] at added
  exact added

theorem peerDisconnected_reports (proper : t.Proper lock) (accounted : t.Accounted issued)
    (distinct : (issued.map Prod.snd).Nodup) (ne : peer ≠ t.node) :
    t.Reports lock (Answers t.node lock issued (t.callers lock)) (t.peerDisconnected peer) := by
  have forgotten : t.Reports lock (Answers t.node lock issued (t.callers lock))
      (t.forget peer) := by
    refine .same proper rfl rfl rfl Iff.rfl fun known => ?_
    simpa [forget, Std.ExtTreeMap.getElem?_erase, ne] using known
  have waiting : (t.forget peer).Accounted issued := accounted.congr rfl rfl
  have freed : (t.forget peer).Reports lock (Answers t.node lock issued (t.callers lock))
      (t.freed peer) := by
    refine foldl_reports (fun _ _ => freeOfPeer_moves (Scope.whole_lenient.suits _ _)) distinct
      (LockSet.nodup_toList _) forgotten.proper waiting fun _ u proper' node' attempts => ?_
    have fair := freeOfPeer_reports proper' (ne.trans_eq node'.symm)
    rw [callers_congr attempts, node'] at fair
    exact fair
  have waiting' := waiting.unasked (freed_course Scope.whole_lenient t peer) distinct
  refine (forgotten.trans freed).trans (foldl_reports
    (fun _ _ => failOfPeer_moves Scope.whole_lenient) distinct (nodup_attempts _ _) freed.proper
    waiting' fun among u proper' node' attempts => ?_)
  refine failOfPeer_reports proper' fun attempt current => ?_
  rw [attempts] at current
  rw [node_of_mem_attemptsOf among current, node', freed.node]
  exact ne

end Arbitrator

/-- The operation is no news from a peer by the name of the node itself. -/
def LockOp.Foreign (node : NodeName) : LockOp → Prop
  | .peerAcquiring peer _ | .peerReleasing peer _ | .peerAdded peer _ | .peerKept peer _
  | .peerRemoved peer _ | .peerSubscribed peer _ | .peerDisconnected peer => peer ≠ node
  | _ => True

namespace Arbitrator

variable {t t' : Arbitrator} {lock target : Lock} {issued : List (Lock × Ticket)}

/-- Whatever happens but a shutdown, callers are told the truth unless somebody ahead of them
wanted the opposite. -/
theorem step_reports (proper : t.Proper lock) (accounted : t.Accounted issued) (op : LockOp)
    (foreign : op.Foreign t.node) (stays : op ≠ .shutDown)
    (distinct : ((issued ++ op.requests).map Prod.snd).Nodup) :
    t.Reports lock (Answers t.node lock (issued ++ op.requests) (t.callers lock)) (t.step op) := by
  have aimed {target} (names : op.lock? = some target)
      (fair : ∀ proper : t.Proper target,
        t.Reports target (Moment.Fair t.node (t.callers target)) (t.step op)) :
      t.Reports lock (Answers t.node lock (issued ++ op.requests) (t.callers lock))
        (t.step op) := by
    by_cases eq : lock = target
    · subst eq
      exact (fair proper).mono fun _ told _ => told
    · rw [LockOp.requests_eq names] at distinct ⊢
      have handles := (step_moves (Scope.whole_admits op) names t).handles
      exact (reports_aside proper accounted distinct handles eq).mono
        fun _ stranger asked => absurd asked stranger
  have unasked {t' : Arbitrator} (requests : op.requests = [])
      (fair : (issued.map Prod.snd).Nodup →
        t.Reports lock (Answers t.node lock issued (t.callers lock)) t') :
      t.Reports lock (Answers t.node lock (issued ++ op.requests) (t.callers lock)) t' := by
    rw [requests, List.append_nil] at distinct ⊢
    exact fair distinct
  cases op with
  | acquire _ ticket =>
    exact aimed rfl fun proper => (acquire_reports proper ticket).mono fun _ told => .inl told.2
  | release _ ticket =>
    exact aimed rfl fun proper => (release_reports proper ticket).mono fun _ told => .inl told.2
  | query _ ticket =>
    exact aimed rfl fun proper => (query_reports proper ticket).mono fun _ told => .inl told.2
  | reacquire => exact aimed rfl reacquire_reports
  | ratify node _ acquire => exact aimed rfl fun proper => ratify_reports proper node acquire
  | timeout _ generation => exact aimed rfl fun proper => timeout_reports proper generation
  | addSubscriber | setPrecedence => exact .same proper rfl rfl rfl Iff.rfl id
  | removeSubscriber node =>
    exact unasked rfl fun once => removeSubscriber_reports proper accounted once node
  | peerAcquiring => exact aimed rfl fun proper => peerAcquiring_reports proper foreign
  | peerReleasing => exact aimed rfl fun proper => peerReleasing_reports proper foreign
  | peerAdded => exact aimed rfl fun proper => peerAdded_reports proper foreign
  | peerKept => exact aimed rfl fun proper => peerKept_reports proper foreign
  | peerRemoved => exact aimed rfl fun proper => peerRemoved_reports proper foreign
  | peerSubscribed peer locks =>
    exact unasked rfl fun once => peerSubscribed_reports proper accounted once foreign locks
  | peerDisconnected peer =>
    exact unasked rfl fun once => peerDisconnected_reports proper accounted once foreign
  | shutDown => exact absurd rfl stays

/-! ### Runs -/

theorem proper_fresh (node : NodeName) (outranks : Precedence) (lock : Lock) :
    (fresh node outranks).Proper lock :=
  .of_idle (by simp [fresh]) (by simp [fresh])

theorem proper_step (proper : t.Proper lock) (accounted : t.Accounted issued) (op : LockOp)
    (foreign : op.Foreign t.node) (distinct : ((issued ++ op.requests).map Prod.snd).Nodup) :
    (t.step op).node = t.node ∧ (t.step op).Proper lock := by
  by_cases stays : op = .shutDown
  · subst stays
    have refuses := shutDown_refuses (t := t)
    refine ⟨refuses.node, .of_idle (t.attempts_shutDown lock) ?_⟩
    have record := proper.record
    rwa [← refuses.node, ← refuses.peerLocks] at record
  · have reports := step_reports proper accounted op foreign stays distinct
    exact ⟨reports.node, reports.proper⟩

theorem proper_of_run (node : NodeName) (outranks : Precedence) (lock : Lock) (ops : List LockOp)
    (foreign : ∀ op ∈ ops, op.Foreign node) (distinct : ((requestsOf ops).map Prod.snd).Nodup) :
    ((fresh node outranks).run ops).node = node ∧
      ((fresh node outranks).run ops).Proper lock := by
  induction ops using List.reverseRecOn with
  | nil => exact ⟨rfl, proper_fresh node outranks lock⟩
  | append_singleton ops op ih =>
    rw [requestsOf_append_one] at distinct
    have early : ((requestsOf ops).map Prod.snd).Nodup := by
      rw [List.map_append] at distinct
      exact (List.nodup_append.1 distinct).1
    obtain ⟨same, proper⟩ :=
      ih (fun op' member => foreign op' (List.mem_append_left _ member)) early
    have foreignNow : op.Foreign ((fresh node outranks).run ops).node := by
      rw [same]
      exact foreign op (List.mem_append_right _ (List.mem_singleton_self op))
    obtain ⟨same', proper'⟩ :=
      proper_step proper (accounted_of_run node outranks ops early) op foreignNow distinct
    rw [run_append_one]
    exact ⟨same'.trans same, proper'⟩

/-- Over every run, whoever is told that the node has a lock is told so while the node holds the
lock and is not giving it up, unless somebody who wants to release it waits ahead; and whoever is
told that nobody has the lock is told so while the node does not hold it, unless somebody who wants
to acquire it waits ahead. Unless the node goes away, what it says ends with the grip that it has
on the lock. -/
theorem answers_truthful (node : NodeName) (outranks : Precedence) (ops : List LockOp)
    (op : LockOp) (foreign : ∀ op' ∈ ops ++ [op], op'.Foreign node)
    (distinct : ((requestsOf (ops ++ [op])).map Prod.snd).Nodup) (lock : Lock) :
    let t := (fresh node outranks).run ops
    ∃ effects, (t.step op).outbox = t.outbox ++ effects ∧
      (op ≠ .shutDown → (t.grip lock).replay lock effects = (t.step op).grip lock) ∧
      ∀ moment ∈ (t.grip lock).moments lock effects,
        (lock, moment.ticket) ∈ requestsOf (ops ++ [op]) →
        (moment.owner = some node →
          moment.grip = ⟨true, false⟩ ∨ Behind .release (t.callers lock) moment.ticket) ∧
        (moment.owner = none →
          moment.grip.holds = false ∨ Behind .acquire (t.callers lock) moment.ticket) := by
  intro t
  rw [requestsOf_append_one] at distinct ⊢
  have early : ((requestsOf ops).map Prod.snd).Nodup := by
    rw [List.map_append] at distinct
    exact (List.nodup_append.1 distinct).1
  obtain ⟨same, proper⟩ := proper_of_run node outranks lock ops
    (fun op' member => foreign op' (List.mem_append_left _ member)) early
  by_cases stays : op = .shutDown
  · subst stays
    obtain ⟨effects, outbox, -, silent⟩ := shutDown_refuses.outbox_unanswered lock
    exact ⟨effects, outbox, fun ne => absurd rfl ne, by rw [silent]; exact nofun⟩
  · have foreignNow : op.Foreign t.node := by
      rw [same]
      exact foreign op (List.mem_append_right _ (List.mem_singleton_self op))
    have reports := step_reports proper (accounted_of_run node outranks ops early) op foreignNow
      stays distinct
    rw [same] at reports
    obtain ⟨effects, outbox, replay, told⟩ := reports.outbox
    refine ⟨effects, outbox, fun _ => replay, fun moment answered asked => ?_⟩
    obtain bears | ⟨ours, behind⟩ | ⟨nobodys, behind⟩ := told moment answered asked
    · exact ⟨fun ours => .inl (bears.ours ours), fun nobodys => .inl (bears.nobodys nobodys)⟩
    · exact ⟨fun _ => .inr behind, fun nobodys => (nomatch nobodys.symm.trans ours)⟩
    · exact ⟨fun ours => (nomatch ours.symm.trans nobodys), fun _ => .inr behind⟩

/-- A node acquires a lock that others follow; two callers more want to know who has it, and then
to release it. -/
def orderlyRun : List LockOp :=
  [.addSubscriber "b", .acquire ⟨"d", none⟩ 0, .query ⟨"d", none⟩ 1, .release ⟨"d", none⟩ 2]

theorem answers_truthful_in_orderlyRun :
    (∀ op ∈ orderlyRun ++ [.ratify "b" ⟨"d", none⟩ true], op.Foreign "a") ∧
    ((requestsOf (orderlyRun ++ [.ratify "b" ⟨"d", none⟩ true])).map Prod.snd).Nodup ∧
    let t := (fresh "a" .byName).run orderlyRun
    ∃ effects, (t.step (.ratify "b" ⟨"d", none⟩ true)).outbox = t.outbox ++ effects ∧
      (t.grip ⟨"d", none⟩).replay ⟨"d", none⟩ effects = ⟨true, true⟩ := by
  have foreign : ∀ op ∈ orderlyRun ++ [.ratify "b" ⟨"d", none⟩ true], op.Foreign "a" := by
    simp [orderlyRun, LockOp.Foreign]
  have distinct :
      ((requestsOf (orderlyRun ++ [.ratify "b" ⟨"d", none⟩ true])).map Prod.snd).Nodup := by
    decide
  obtain ⟨effects, outbox, replay, -⟩ :=
    answers_truthful "a" .byName orderlyRun (.ratify "b" ⟨"d", none⟩ true) foreign distinct
      ⟨"d", none⟩
  refine ⟨foreign, distinct, effects, outbox, (replay nofun).trans ?_⟩
  decide +kernel

/-- Two callers want a lock, and one between them wants to release it. Once the node has the lock
it begins to give it up, and only then tells the last caller that the node has it. -/
def contraryRun : List LockOp :=
  [.addSubscriber "b", .acquire ⟨"d", none⟩ 0, .release ⟨"d", none⟩ 1, .acquire ⟨"d", none⟩ 2]

/-- While another node gives a lock up, a caller wants it and another wants to release it. -/
def forlornRun : List LockOp :=
  [.peerAdded "b" ⟨"d", none⟩, .peerReleasing "b" ⟨"d", none⟩, .acquire ⟨"d", none⟩ 0,
    .release ⟨"d", none⟩ 1]

/-- A caller that acquires a lock is told that the node has it while the node is giving it up, and
a caller that releases a lock is told that nobody has it just after the node took it. -/
theorem answers_untruthful :
    (let t := (fresh "a" .byName).run contraryRun;
      ⟨⟨true, true⟩, 2, some "a"⟩ ∈ (t.grip ⟨"d", none⟩).moments ⟨"d", none⟩
        ((t.step (.ratify "b" ⟨"d", none⟩ true)).outbox.drop t.outbox.length)) ∧
    (let t := (fresh "a" .byName).run forlornRun;
      ⟨⟨true, false⟩, 1, none⟩ ∈ (t.grip ⟨"d", none⟩).moments ⟨"d", none⟩
        ((t.step (.peerRemoved "b" ⟨"d", none⟩)).outbox.drop t.outbox.length)) := by
  constructor <;> decide +kernel

end Arbitrator

end Cohort

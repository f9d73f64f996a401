import Cohort.Proofs.Lock.Moves
import Mathlib.Data.List.Induction
import Mathlib.Data.List.Nodup

/-!
# Callers are conserved

A caller that asks for a lock is either answered, once, or it waits, once, for the lock it asked
for. Every operation handles one lock after the other: the callers of that lock are answered or
wait on, all other locks are left alone. Over a run, no caller is lost, doubled or moved to
another lock.

This rests on the moves that operations are made of: a move neither loses nor doubles a caller,
counting those at hand, and has nothing to do with other locks.

## Main definitions

* `Arbitrator.tally`: how often a ticket was answered, and how often it waits for a lock.
* `Arbitrator.Spares`: nothing is done or said about any other lock.
* `Arbitrator.Handles`: an operation on one lock, and what it does with its callers.
* `Arbitrator.Accounted`: the callers of a run are all accounted for.

## Main statements

* `Arbitrator.Moves.handles`: what is made of moves handles a lock.
* `Arbitrator.Accounted.step`: every operation preserves the account.
* `Arbitrator.callers_conserved`: over every run each caller is kept or answered once.
-/

namespace Cohort

namespace Arbitrator

variable {t t' t'' u : Arbitrator} {lock other : Lock} {asked asked' : List Ticket}
  {ticket : Ticket} {attempt : Attempt} {issued requests : List (Lock × Ticket)} {scope : Scope}
  {d d' : Desk}

/-! ### Other locks -/

/-- An operation on one lock: nothing is done or said about any other lock, and it does not matter
who follows the node and who outranks whom. -/
structure Spares (t : Arbitrator) (lock : Lock) (t' : Arbitrator) : Prop where
  node : t'.node = t.node
  subscribers : t'.subscribers = t.subscribers
  outranks : t'.outranks = t.outranks
  outbox : ∃ effects, t'.outbox = t.outbox ++ effects ∧
    ∀ other ≠ lock, ∀ effect ∈ effects, effect.saying? other = none
  elsewhere : ∀ other ≠ lock,
    t'.attempts[other]? = t.attempts[other]? ∧ (other ∈ t'.held ↔ other ∈ t.held)
  record : ∀ other ≠ lock, ∀ peer : NodeName,
    other ∈ t'.peerLocks[peer]?.getD ∅ ↔ other ∈ t.peerLocks[peer]?.getD ∅

namespace Spares

theorem refl (t : Arbitrator) (lock : Lock) : t.Spares lock t where
  node := rfl
  subscribers := rfl
  outranks := rfl
  outbox := ⟨[], (List.append_nil _).symm, nofun⟩
  elsewhere _ _ := ⟨rfl, Iff.rfl⟩
  record _ _ _ := Iff.rfl

theorem trans (first : t.Spares lock t') (second : t'.Spares lock t'') : t.Spares lock t'' := by
  obtain ⟨effects, outbox, quiet⟩ := first.outbox
  obtain ⟨effects', outbox', quiet'⟩ := second.outbox
  refine ⟨second.node.trans first.node, second.subscribers.trans first.subscribers,
    second.outranks.trans first.outranks, ⟨effects ++ effects', ?_, ?_⟩, ?_, ?_⟩
  · rw [outbox', outbox, List.append_assoc]
  · intro other ne effect wanted
    obtain early | late := List.mem_append.1 wanted
    · exact quiet other ne effect early
    · exact quiet' other ne effect late
  · intro other ne
    obtain ⟨attempts, held⟩ := first.elsewhere other ne
    obtain ⟨attempts', held'⟩ := second.elsewhere other ne
    exact ⟨attempts'.trans attempts, held'.trans held⟩
  · exact fun other ne peer => (second.record other ne peer).trans (first.record other ne peer)

theorem then_emit (first : t.Spares lock t') {effect : LockEffect}
    (quiet : ∀ other ≠ lock, effect.saying? other = none) : t.Spares lock (t'.emit effect) :=
  first.trans { refl t' lock with outbox := ⟨[effect], rfl, by simpa using quiet⟩ }

theorem then_publish (first : t.Spares lock t') {event : NodeEvent}
    (quiet : ∀ other ≠ lock, event.signal? other = none) :
    t.Spares lock (t'.emit (.publish event)) :=
  first.then_emit fun other ne => by simp [LockEffect.saying?, quiet other ne]

/-- Only the attempt on the lock is concerned, and the number of the latest attempt. -/
theorem reattempt (generation : Nat) {attempts : Std.ExtTreeMap Lock Attempt}
    (same : ∀ other ≠ lock, attempts[other]? = t.attempts[other]?) :
    t.Spares lock { t with generation, attempts } :=
  { refl t lock with elsewhere := fun other ne => ⟨same other ne, Iff.rfl⟩ }

/-- A lock changes hands and is counted. -/
theorem rehold {held : LockSet} (stats : LockStats)
    (same : ∀ other ≠ lock, other ∈ held ↔ other ∈ t.held) :
    t.Spares lock { t with held, stats } :=
  { refl t lock with elsewhere := fun other ne => ⟨rfl, same other ne⟩ }

theorem rerecord {peerLocks : Std.ExtTreeMap NodeName LockSet}
    (same : ∀ other ≠ lock, ∀ peer : NodeName,
      other ∈ peerLocks[peer]?.getD ∅ ↔ other ∈ t.peerLocks[peer]?.getD ∅) :
    t.Spares lock { t with peerLocks } :=
  { refl t lock with record := same }

theorem drop : t.Spares lock (t.drop lock) :=
  reattempt t.generation fun _ ne => getElem?_erase_of_ne ne

theorem gain : t.Spares lock (t.gain lock) :=
  (rehold _ fun other ne => by simp [ne.symm]).then_publish fun _ ne => if_neg ne.symm

theorem relinquish : t.Spares lock (t.relinquish lock) :=
  (rehold _ fun other ne => by simp [ne.symm]).then_publish fun _ ne => if_neg ne.symm

theorem startAttempt (node : NodeName) (acquire : Bool) (ratifiers : Option NameSet)
    (waiters : List Waiter) : t.Spares lock (t.startAttempt lock node acquire ratifiers waiters) :=
  reattempt _ fun _ ne => getElem?_insert_of_ne ne _

theorem strike (node : NodeName) : t.Spares lock (t.strike lock node) :=
  reattempt t.generation fun _ ne => attempts_strike_of_ne ne node

theorem notePeerLock (peer : NodeName) : t.Spares lock (t.notePeerLock peer lock) :=
  rerecord fun _ ne p =>
    iff_of_eq (congrArg (p ∈ ·.knows) (standing_notePeerLock_of_ne ne.symm peer))

theorem forgetPeerLock (peer : NodeName) : t.Spares lock (t.forgetPeerLock peer lock) :=
  rerecord fun _ ne p =>
    iff_of_eq (congrArg (p ∈ ·.knows) (standing_forgetPeerLock_of_ne ne.symm peer))

theorem surrender : t.Spares lock (t.surrender lock) := by
  unfold Arbitrator.surrender
  split
  next =>
    have lost : t.Spares lock { t with
        held := t.held.erase lock
        stats := { t.stats with hijacked := t.stats.hijacked + 1 } } :=
      rehold _ fun other ne => by simp [ne.symm]
    have told : t.Spares lock ((_ : Arbitrator).emit (.publish (.removed lock))) :=
      lost.then_publish fun _ ne => if_neg ne.symm
    exact told.then_emit fun _ ne => if_neg ne.symm
  next => exact refl t lock

theorem standing (spares : t.Spares lock t') (ne : other ≠ lock) :
    t'.standing other = t.standing other := by
  have knows : (t'.standing other).knows = (t.standing other).knows := by
    ext peer
    rw [mem_knows, mem_knows]
    exact spares.record other ne peer
  obtain ⟨attempts, held⟩ := spares.elsewhere other ne
  simp only [Arbitrator.standing] at knows ⊢
  simp only [attempts, propext held, knows]

theorem sayings (spares : t.Spares lock t') (ne : other ≠ lock) :
    t'.sayings other = t.sayings other := by
  obtain ⟨effects, grown, quiet⟩ := spares.outbox
  rw [Arbitrator.sayings, grown, List.filterMap_append,
    List.filterMap_eq_nil_iff.2 (quiet other ne), List.append_nil, Arbitrator.sayings]

end Spares

theorem Serve.spares (serve : Serve scope lock d d') : d.table.Spares lock d'.table := by
  cases serve with
  | answered => exact (Spares.refl _ lock).then_emit fun _ _ => rfl
  | joined => exact .reattempt _ fun _ ne => getElem?_insert_of_ne ne _
  | @begun t _ _ acquire =>
    have announced : t.Spares lock
        (t.emit (.publish (if acquire then .acquiring lock else .releasing lock))) :=
      (Spares.refl t lock).then_publish fun _ ne => by cases acquire <;> exact if_neg ne.symm
    exact (announced.trans (.startAttempt ..)).then_emit fun _ _ => rfl
  | taken => exact .gain
  | given => exact .relinquish
  | withdrawn => exact Spares.drop.then_publish fun _ ne => if_neg ne.symm

/-- A move has nothing to do with other locks. -/
theorem Move.spares (move : Move scope lock d d') : d.table.Spares lock d'.table := by
  cases move with
  | served serve => exact serve.spares
  | won => exact Spares.drop.trans .gain
  | parted => exact Spares.drop.trans .relinquish
  | dropped => exact .drop
  | followed =>
    exact (Spares.drop.trans (.startAttempt ..)).then_emit fun _ ne => if_neg ne.symm
  | struck node => exact .strike node
  | yielded => exact (Spares.drop.trans (.notePeerLock _)).trans .surrender
  | forgotten => exact .forgetPeerLock _
  | counted => exact .rehold _ fun _ _ => Iff.rfl

theorem Moves.spares (moves : Moves scope lock d d') : d.table.Spares lock d'.table := by
  induction moves with
  | refl => exact .refl _ lock
  | tail _ move ih => exact ih.trans move.spares

/-! ### Callers of the lock -/

/-- How often a ticket was answered, and how often it waits for a lock. -/
def tally (t : Arbitrator) (lock : Lock) (ticket : Ticket) : Nat :=
  t.answered.count ticket + (ticketsOf (t.callers lock)).count ticket

/-- How often a ticket was answered, waits for the lock or is at hand. -/
def Desk.tally (d : Desk) (lock : Lock) (ticket : Ticket) : Nat :=
  d.table.answered.count ticket + (ticketsOf (d.people lock)).count ticket

theorem tally_of_same (answered : d'.table.answered = d.table.answered)
    (people : d'.people lock = d.people lock) (ticket : Ticket) :
    d'.tally lock ticket = d.tally lock ticket := by
  rw [Desk.tally, Desk.tally, answered, people]

theorem Serve.tally (serve : Serve scope lock d d') (ticket : Ticket) :
    d'.tally lock ticket = d.tally lock ticket := by
  cases serve with
  | @answered t waiter rest reply =>
    have answered : (t.answer waiter.ticket reply).answered = t.answered ++ [waiter.ticket] := by
      simp [Arbitrator.answered, answer, emit, LockEffect.answer?]
    have callers : (t.answer waiter.ticket reply).callers lock = t.callers lock := rfl
    simp only [Desk.tally, Desk.people, answered, callers, ticketsOf_append, ticketsOf_cons,
      List.count_append, List.count_cons, List.count_nil]
    omega
  | joined current =>
    refine tally_of_same ?_ ?_ ticket
    · rfl
    · exact people_enqueue current _ _
  | @begun t waiter rest acquire _ idle =>
    have callers : (t.beginLocal lock acquire waiter.ticket).callers lock =
        [⟨.outcome, waiter.ticket⟩] :=
      (callers_startAttempt _ _ _ _).trans (if_pos rfl)
    have answered : (t.beginLocal lock acquire waiter.ticket).answered = t.answered := by
      cases acquire <;> simp [Arbitrator.answered, beginLocal, emit, startAttempt,
        LockEffect.answer?]
    simp only [Desk.tally, Desk.people, answered, callers, callers_of_none idle, ticketsOf_cons,
      List.nil_append, List.singleton_append]
  | taken | given =>
    refine tally_of_same ?_ ?_ ticket
    · exact answered_emit rfl
    · rfl
  | withdrawn _ current =>
    refine tally_of_same ?_ ?_ ticket
    · exact answered_emit rfl
    · exact people_drop current _

/-- A move neither loses nor doubles a caller. -/
theorem Move.tally (move : Move scope lock d d') (ticket : Ticket) :
    d'.tally lock ticket = d.tally lock ticket := by
  obtain serve | ⟨answered, people⟩ := move.people
  · exact serve.tally ticket
  · exact tally_of_same answered people ticket

/-- An operation handles one lock, for which the given callers ask: whoever waited for the lock and
whoever asks for it now is answered or waits on. Nothing is done or said about any other lock. -/
structure Handles (t : Arbitrator) (lock : Lock) (asked : List Ticket) (t' : Arbitrator) :
    Prop extends Spares t lock t' where
  tally : ∀ ticket, t'.tally lock ticket = t.tally lock ticket + asked.count ticket

theorem Moves.tally (moves : Moves scope lock d d') (ticket : Ticket) :
    d'.tally lock ticket = d.tally lock ticket := by
  induction moves with
  | refl => rfl
  | tail _ move ih => exact (move.tally ticket).trans ih

/-- What is made of moves handles the lock. -/
theorem Moves.handles {queue : List Waiter} (moves : Moves scope lock ⟨t, queue⟩ ⟨t', []⟩) :
    t.Handles lock (ticketsOf queue) t' := by
  refine ⟨moves.spares, fun ticket => ?_⟩
  have tally := moves.tally ticket
  simp only [Desk.tally, Desk.people, List.append_nil, ticketsOf_append, List.count_append] at tally
  rw [Arbitrator.tally, Arbitrator.tally, tally, Nat.add_assoc]

theorem step_handles {op : LockOp} (names : op.lock? = some lock) (t : Arbitrator) :
    t.Handles lock (op.requests.map Prod.snd) (t.step op) := by
  have handles := (step_moves (Scope.whole_admits op) names t).handles
  rw [LockOp.requests_eq names, List.map_map]
  exact List.map_id _ ▸ handles

namespace Handles

/-- The tickets that are newly answered waited for the lock or asked for it. -/
theorem mem_of_answered (handles : t.Handles lock asked t') {effects : List LockEffect}
    (outbox : t'.outbox = t.outbox ++ effects) {reply : LockReply}
    (answers : .answer ticket reply ∈ effects) :
    ticket ∈ ticketsOf (t.callers lock) ++ asked := by
  have more : t'.answered.count ticket = t.answered.count ticket +
      (effects.filterMap fun effect => effect.answer?.map Prod.fst).count ticket := by
    rw [answered, outbox, List.filterMap_append, List.count_append]
    rfl
  have once : 0 < (effects.filterMap fun effect => effect.answer?.map Prod.fst).count ticket :=
    List.count_pos_iff.2 (List.mem_filterMap.2 ⟨_, answers, rfl⟩)
  have tally := handles.tally ticket
  simp only [Arbitrator.tally] at tally
  rw [← List.count_pos_iff, List.count_append]
  omega

end Handles

/-! ### Runs -/

/-- The attempt that takes the place of another takes its callers over, in their order. -/
theorem peerAcquiring_keeps (peer : NodeName) (current : t.attempts[lock]? = some attempt) :
    ∃ attempt', (t.peerAcquiring peer lock).attempts[lock]? = some attempt' ∧
      attempt'.waiters = attempt.waiters ∧
      (attempt' = attempt ∨ attempt'.node = peer ∧ attempt'.acquire = true) := by
  unfold peerAcquiring
  split
  next => exact ⟨attempt, current, rfl, .inl rfl⟩
  next =>
    rw [current]
    dsimp only
    split
    next => exact ⟨attempt, current, rfl, .inl rfl⟩
    next =>
      refine ⟨⟨peer, true, none, attempt.waiters, t.generation + 1⟩, ?_, rfl, .inr ⟨rfl, rfl⟩⟩
      simp [follow, emit, startAttempt, drop]

/-- Whoever asked for a lock was answered once or waits once, for that lock; nobody waits for a
lock that they did not ask for, and nobody is answered who did not ask. -/
structure Accounted (t : Arbitrator) (issued : List (Lock × Ticket)) : Prop where
  once : ∀ lock ticket, (lock, ticket) ∈ issued → t.tally lock ticket = 1
  elsewhere : ∀ lock ticket, (lock, ticket) ∉ issued → ticket ∉ ticketsOf (t.callers lock)
  unknown : ∀ ticket, ticket ∉ issued.map Prod.snd → ticket ∉ t.answered

namespace Accounted

theorem fresh (node : NodeName) (outranks : Precedence) :
    (fresh node outranks).Accounted [] where
  once := nofun
  elsewhere lock ticket _ := by simp [callers, Arbitrator.fresh]
  unknown ticket _ := List.not_mem_nil

theorem congr (accounted : t.Accounted issued) (outbox : t'.outbox = t.outbox)
    (attempts : t'.attempts = t.attempts) : t'.Accounted issued := by
  have callers (lock) : t'.callers lock = t.callers lock := callers_congr (by rw [attempts])
  have answered : t'.answered = t.answered := by rw [answered, answered, outbox]
  refine ⟨?_, ?_, ?_⟩
  · intro lock ticket asked
    rw [tally, answered, callers]
    exact accounted.once lock ticket asked
  · intro lock ticket asked
    rw [callers]
    exact accounted.elsewhere lock ticket asked
  · intro ticket asked
    rw [answered]
    exact accounted.unknown ticket asked

/-- A ticket is issued for one lock only. -/
theorem lock_eq (distinct : (issued.map Prod.snd).Nodup) (here : (lock, ticket) ∈ issued)
    (there : (other, ticket) ∈ issued) : other = lock :=
  congrArg Prod.fst (List.inj_on_of_nodup_map distinct there here rfl)

/-- Nobody is answered or comes to wait who did not ask for the lock that is handled. -/
theorem untouched (accounted : t.Accounted issued) (handles : t.Handles lock asked t')
    (stranger : (lock, ticket) ∉ issued ++ asked.map (lock, ·)) :
    t'.answered.count ticket = t.answered.count ticket ∧ ticket ∉ ticketsOf (t'.callers lock) := by
  obtain ⟨old, new⟩ := not_or.1 (mt List.mem_append.2 stranger)
  have waits : (ticketsOf (t.callers lock)).count ticket = 0 :=
    List.count_eq_zero.2 (accounted.elsewhere lock ticket old)
  have asks : asked.count ticket = 0 :=
    List.count_eq_zero.2 fun member => new (List.mem_map.2 ⟨ticket, member, rfl⟩)
  have grows : t.answered.count ticket ≤ t'.answered.count ticket := by
    obtain ⟨effects, outbox, -⟩ := handles.outbox
    simp [answered, outbox, List.filterMap_append]
  have tally := handles.tally ticket
  simp only [Arbitrator.tally] at tally
  rw [← List.count_eq_zero]
  omega

/-- Handling one lock keeps the account, together with the callers that ask. -/
theorem handles (accounted : t.Accounted issued) (handles : t.Handles lock asked t')
    (distinct : ((issued ++ asked.map (lock, ·)).map Prod.snd).Nodup) :
    t'.Accounted (issued ++ asked.map (lock, ·)) := by
  -- Whoever asks now was neither answered before nor waits anywhere.
  have newcomer : ∀ ticket ∈ asked, ticket ∉ issued.map Prod.snd := by
    intro ticket asks known
    rw [List.map_append] at distinct
    refine List.disjoint_of_nodup_append distinct known (List.mem_map.2 ⟨(lock, ticket), ?_, rfl⟩)
    exact List.mem_map.2 ⟨ticket, asks, rfl⟩
  have callers : ∀ other ≠ lock, t'.callers other = t.callers other := fun other ne =>
    callers_congr (handles.elsewhere other ne).1
  refine ⟨?_, ?_, ?_⟩
  · intro other ticket member
    by_cases eq : other = lock
    · subst eq
      rw [handles.tally]
      obtain old | new := List.mem_append.1 member
      · have asks : asked.count ticket = 0 := List.count_eq_zero.2 fun asks =>
          newcomer ticket asks (List.mem_map.2 ⟨_, old, rfl⟩)
        rw [accounted.once other ticket old, asks]
      · obtain ⟨ticket', asks, same⟩ := List.mem_map.1 new
        obtain rfl : ticket' = ticket := congrArg Prod.snd same
        have answered := List.count_eq_zero.2 (accounted.unknown ticket' (newcomer ticket' asks))
        have waits := List.count_eq_zero.2 (accounted.elsewhere other ticket' fun old =>
          newcomer ticket' asks (List.mem_map.2 ⟨_, old, rfl⟩))
        have single : asked.count ticket' = 1 := by
          rw [List.map_append] at distinct
          refine List.count_eq_one_of_mem ?_ asks
          simpa [Function.comp_def] using (List.nodup_append.1 distinct).2.1
        rw [tally, answered, waits, single]
    · have stranger : (lock, ticket) ∉ issued ++ asked.map (lock, ·) := fun there =>
        eq (lock_eq distinct there member)
      have old : (other, ticket) ∈ issued := (List.mem_append.1 member).resolve_right fun new => by
        obtain ⟨_, -, same⟩ := List.mem_map.1 new
        exact eq (congrArg Prod.fst same).symm
      rw [tally, (accounted.untouched handles stranger).1, callers other eq]
      exact accounted.once other ticket old
  · intro other ticket stranger
    by_cases eq : other = lock
    · subst eq
      exact (accounted.untouched handles stranger).2
    · rw [callers other eq]
      exact accounted.elsewhere other ticket fun old => stranger (List.mem_append_left _ old)
  · intro ticket stranger
    have foreign : (lock, ticket) ∉ issued ++ asked.map (lock, ·) := fun member =>
      stranger (List.mem_map.2 ⟨_, member, rfl⟩)
    rw [← List.count_eq_zero, (accounted.untouched handles foreign).1, List.count_eq_zero]
    exact accounted.unknown ticket fun old => stranger (by simp_all)

/-- Handling one lock after the other keeps the account, together with the callers that ask. -/
theorem course (accounted : t.Accounted issued) (course : Course scope t t' requests)
    (distinct : ((issued ++ requests).map Prod.snd).Nodup) : t'.Accounted (issued ++ requests) := by
  induction course generalizing issued with
  | done => rwa [List.append_nil]
  | handled moves _ ih =>
    rw [← List.append_assoc] at distinct ⊢
    refine ih (accounted.handles moves.handles ?_) distinct
    rw [List.map_append] at distinct
    exact (List.nodup_append.1 distinct).1

theorem unasked (accounted : t.Accounted issued) (course : Course scope t t' [])
    (distinct : (issued.map Prod.snd).Nodup) : t'.Accounted issued := by
  have kept := accounted.course course (by simpa using distinct)
  rwa [List.append_nil] at kept

/-- Every operation keeps the account, together with the caller that asks by it. -/
theorem step (accounted : t.Accounted issued) (op : LockOp)
    (distinct : ((issued ++ op.requests).map Prod.snd).Nodup) :
    (t.step op).Accounted (issued ++ op.requests) := by
  have opened : (t.opened op).Accounted issued := by cases op <;> exact accounted.congr rfl rfl
  exact opened.course (step_course (Scope.whole_admits op) t) distinct

end Accounted

/-- Several operations. -/
def run (t : Arbitrator) (ops : List LockOp) : Arbitrator := ops.foldl step t

theorem run_append_one (t : Arbitrator) (ops : List LockOp) (op : LockOp) :
    t.run (ops ++ [op]) = (t.run ops).step op := by
  simp [run]

/-- Who asks by several operations, and for which locks. -/
def requestsOf (ops : List LockOp) : List (Lock × Ticket) := ops.flatMap LockOp.requests

theorem requestsOf_append_one (ops : List LockOp) (op : LockOp) :
    requestsOf (ops ++ [op]) = requestsOf ops ++ op.requests := by
  simp [requestsOf]

/-- Every run accounts for whoever asks by it. -/
theorem accounted_of_run (node : NodeName) (outranks : Precedence) (ops : List LockOp)
    (distinct : ((requestsOf ops).map Prod.snd).Nodup) :
    ((fresh node outranks).run ops).Accounted (requestsOf ops) := by
  induction ops using List.reverseRecOn with
  | nil => exact .fresh node outranks
  | append_singleton ops op ih =>
    rw [requestsOf_append_one] at distinct ⊢
    rw [run_append_one]
    refine (ih ?_).step op distinct
    rw [List.map_append] at distinct
    exact (List.nodup_append.1 distinct).1

theorem attempts_failAll (t : Arbitrator) (failure : Failure) (waiters : List Waiter) :
    (t.failAll failure waiters).attempts = t.attempts := by
  unfold failAll
  induction waiters generalizing t with
  | nil => rfl
  | cons waiter waiters ih => exact ih _

theorem attempts_endAttempt_self (t : Arbitrator) (lock : Lock) :
    (t.endAttempt lock).attempts[lock]? = none := by
  unfold endAttempt
  split
  next => simp [abandon, attempts_failAll, drop]
  next idle => exact idle

/-- A shutdown ends every attempt. -/
theorem attempts_shutDown (t : Arbitrator) (lock : Lock) : t.shutDown.attempts[lock]? = none := by
  -- The attempt on a lock is ended when its turn comes, and none begins after that.
  have ended (locks : List Lock) (t : Arbitrator)
      (either : t.attempts[lock]? = none ∨ lock ∈ locks) :
      (locks.foldl endAttempt t).attempts[lock]? = none := by
    induction locks generalizing t with
    | nil => exact either.resolve_right List.not_mem_nil
    | cons other locks ih =>
      by_cases eq : lock = other
      · subst eq
        exact ih _ (.inl (attempts_endAttempt_self t lock))
      · have ended : Moves .whole other ⟨t, []⟩ ⟨t.endAttempt other, []⟩ :=
          endAttempt_moves Scope.whole_lenient
        have same := ended.spares.elsewhere lock eq
        refine ih _ (either.imp (fun idle => same.1.trans idle) fun member => ?_)
        exact (List.mem_cons.1 member).resolve_left eq
  rw [shutDown_eq]
  refine ended _ t ?_
  by_cases member : lock ∈ t.attempts
  · exact .inr (Std.ExtTreeMap.mem_keys.2 member)
  · exact .inl (Std.ExtTreeMap.getElem?_eq_none member)

/-- Over every run each caller is kept or answered, once. It waits for the lock it asked for and
for no other, and nobody waits or is answered who did not ask. The attempt of a peer that takes
the place of another takes its callers over in their order, and a shutdown leaves no attempt and
no unanswered caller. -/
theorem callers_conserved (node : NodeName) (outranks : Precedence) (ops : List LockOp)
    (distinct : ((requestsOf ops).map Prod.snd).Nodup) :
    let t := (fresh node outranks).run ops
    (∀ lock ticket, (lock, ticket) ∈ requestsOf ops →
      (t.answered.count ticket = 1 ∧ (∀ other, ticket ∉ ticketsOf (t.callers other))) ∨
      (ticket ∉ t.answered ∧ (ticketsOf (t.callers lock)).count ticket = 1 ∧
        ∀ other ≠ lock, ticket ∉ ticketsOf (t.callers other))) ∧
    (∀ ticket, ticket ∉ (requestsOf ops).map Prod.snd →
      ticket ∉ t.answered ∧ ∀ lock, ticket ∉ ticketsOf (t.callers lock)) ∧
    (∀ peer lock attempt, t.attempts[lock]? = some attempt →
      ∃ attempt', (t.step (.peerAcquiring peer lock)).attempts[lock]? = some attempt' ∧
        attempt'.waiters = attempt.waiters ∧
        (attempt' = attempt ∨ attempt'.node = peer ∧ attempt'.acquire = true)) ∧
    (∀ lock : Lock, (t.step .shutDown).attempts[lock]? = none) ∧
    ∀ lock ticket, (lock, ticket) ∈ requestsOf ops →
      (t.step .shutDown).answered.count ticket = 1 := by
  intro t
  have accounted : t.Accounted (requestsOf ops) := accounted_of_run node outranks ops distinct
  have elsewhere : ∀ {lock ticket}, (lock, ticket) ∈ requestsOf ops → ∀ other ≠ lock,
      ticket ∉ ticketsOf (t.callers other) := fun asked other ne =>
    accounted.elsewhere other _ fun there => ne (Accounted.lock_eq distinct asked there)
  refine ⟨?_, ?_, ?_, t.attempts_shutDown, ?_⟩
  · intro lock ticket asked
    have once := accounted.once lock ticket asked
    rw [tally] at once
    by_cases waits : ticket ∈ ticketsOf (t.callers lock)
    · have some_ := List.count_pos_iff.2 waits
      refine .inr ⟨List.count_eq_zero.1 ?_, ?_, elsewhere asked⟩ <;> omega
    · have none_ := List.count_eq_zero.2 waits
      refine .inl ⟨by omega, fun other => ?_⟩
      by_cases eq : other = lock
      · exact eq ▸ waits
      · exact elsewhere asked other eq
  · intro ticket stranger
    refine ⟨accounted.unknown ticket stranger, fun lock => accounted.elsewhere lock ticket ?_⟩
    exact fun asked => stranger (List.mem_map.2 ⟨_, asked, rfl⟩)
  · exact fun peer lock attempt current => peerAcquiring_keeps peer current
  · intro lock ticket asked
    have shut := accounted.step .shutDown (by simpa [LockOp.requests] using distinct)
    have once := shut.once lock ticket (List.mem_append_left _ asked)
    have gone : (t.step .shutDown).attempts[lock]? = none := t.attempts_shutDown lock
    rwa [tally, callers_of_none gone, ticketsOf_nil, List.count_nil, Nat.add_zero] at once

/-- Two callers want a lock and a third wants to know its owner, when a peer that comes first wants
it as well. -/
def preemptedRun : List LockOp :=
  [.addSubscriber "a", .acquire ⟨"d", none⟩ 0, .acquire ⟨"d", none⟩ 1, .query ⟨"d", none⟩ 2,
    .peerAcquiring "a" ⟨"d", none⟩]

theorem callers_conserved_in_preemptedRun :
    ((requestsOf preemptedRun).map Prod.snd).Nodup ∧
    ((fresh "b" .byName).run (preemptedRun.take 4)).attempts[(⟨"d", none⟩ : Lock)]?.map
      (fun attempt => (attempt.node, ticketsOf attempt.waiters)) = some ("b", [0, 1, 2]) ∧
    ((fresh "b" .byName).run preemptedRun).attempts[(⟨"d", none⟩ : Lock)]?.map
      (fun attempt => (attempt.node, attempt.acquire, ticketsOf attempt.waiters)) =
        some ("a", true, [0, 1, 2]) ∧
    ∀ ticket ∈ [0, 1, 2],
      (((fresh "b" .byName).run preemptedRun).step .shutDown).answered.count ticket = 1 := by
  have distinct : ((requestsOf preemptedRun).map Prod.snd).Nodup := by decide
  obtain ⟨-, -, -, -, answered⟩ := callers_conserved "b" .byName preemptedRun distinct
  refine ⟨distinct, by decide +kernel, by decide +kernel, fun ticket asked =>
    answered ⟨"d", none⟩ ticket ?_⟩
  rw [show requestsOf preemptedRun = [0, 1, 2].map (⟨"d", none⟩, ·) from rfl]
  exact List.mem_map.2 ⟨ticket, asked, rfl⟩

end Arbitrator

end Cohort

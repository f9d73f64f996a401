import Cohort.Proofs.Lock.Standing
import Mathlib.Logic.Relation

/-!
# Operations on a lock table, move by move

Whatever happens to a lock table is made of a few moves: a caller is answered or comes to wait, an
attempt begins, completes, is dropped or gives way to another, a lock is noted as a peer's. Each
operation is taken apart into such moves here, once. A move says what it finds, so whatever follows
from the moves goes for every operation: what is published, what becomes of callers, which attempts
there are, that tables stay sound.

An operation on one lock has callers at hand: those who ask by it, and those who waited on an
attempt that it ends. It is over when none of them is left. Operations that concern several locks
handle them one after the other.

An attempt that loses the last node it waits for is completed at once, but for the departure of a
follower, who is struck from all attempts before any of them completes. The locks whose attempts
may be in that position meanwhile are `pending`.

What moves do not show is the order of callers that are served together, and what a node makes of a
peer's signal as seen from the lock that it is about.

## Main definitions

* `Arbitrator.Scope`: what may happen in the course of an operation.
* `Arbitrator.Desk`: a lock table, and the callers at hand.
* `Arbitrator.Serve`, `Arbitrator.Served`: a caller at hand is served, and several are.
* `Arbitrator.Move`, `Arbitrator.Moves`: one thing that happens about a lock, and several.
* `Arbitrator.opened`: what an operation does that concerns all locks alike.
* `Arbitrator.Course`: several operations on one lock each.

## Main statements

* `Arbitrator.acquire_serves`, `Arbitrator.complete_moves` and the like: what each operation
  consists of.
* `Arbitrator.step_moves`: the operations that name a lock.
* `Arbitrator.step_course`: every operation.
-/

namespace Cohort

/-! ## What an operation says -/

/-- The tickets of callers, in order. -/
def ticketsOf (waiters : List Waiter) : List Ticket := waiters.map Waiter.ticket

@[simp] theorem ticketsOf_nil : ticketsOf [] = [] := rfl

@[simp] theorem ticketsOf_cons (waiter : Waiter) (waiters : List Waiter) :
    ticketsOf (waiter :: waiters) = waiter.ticket :: ticketsOf waiters := rfl

@[simp] theorem ticketsOf_append (waiters waiters' : List Waiter) :
    ticketsOf (waiters ++ waiters') = ticketsOf waiters ++ ticketsOf waiters' :=
  List.map_append

namespace LockOp

/-- The lock that an operation names. -/
def lock? : LockOp → Option Lock
  | .acquire lock _ | .release lock _ | .query lock _ | .reacquire lock | .ratify _ lock _
  | .timeout lock _ | .peerAcquiring _ lock | .peerReleasing _ lock | .peerAdded _ lock
  | .peerKept _ lock | .peerRemoved _ lock => some lock
  | .addSubscriber _ | .removeSubscriber _ | .peerSubscribed _ _ | .peerDisconnected _
  | .setPrecedence _ | .shutDown => none

/-- Who asks by an operation, and what for. -/
def asking : LockOp → List Waiter
  | .acquire _ ticket => [⟨.acquire, ticket⟩]
  | .release _ ticket => [⟨.release, ticket⟩]
  | .query _ ticket => [⟨.outcome, ticket⟩]
  | _ => []

/-- Who asks by an operation, and for which lock. -/
def requests : LockOp → List (Lock × Ticket)
  | .acquire lock ticket | .release lock ticket | .query lock ticket => [(lock, ticket)]
  | _ => []

theorem requests_eq {lock : Lock} {op : LockOp} (names : op.lock? = some lock) :
    op.requests = (ticketsOf op.asking).map (lock, ·) := by
  cases op <;> cases names <;> rfl

/-- An operation names a node: the node consents, follows this one or ceases to, or is a peer that
something is heard of. -/
def Names (node : NodeName) : LockOp → Prop
  | .ratify other _ _ | .addSubscriber other | .removeSubscriber other | .peerAcquiring other _
  | .peerReleasing other _ | .peerAdded other _ | .peerKept other _ | .peerRemoved other _
  | .peerSubscribed other _ | .peerDisconnected other => other = node
  | _ => False

/-- An operation tells that a peer has a lock, or has it no longer. -/
def Records (peer : NodeName) : LockOp → Prop
  | .peerAdded other _ | .peerRemoved other _ | .peerSubscribed other _ => other = peer
  | _ => False

end LockOp

/-- An attempt of the node's own has somebody left to wait for. -/
def Attempt.HasCompany (attempt : Attempt) : Prop :=
  ∀ ratifiers, attempt.ratifiers = some ratifiers → ratifiers.isEmpty = false

namespace Arbitrator

open Lock (Initiative)

variable {t t' u : Arbitrator} {lock other : Lock} {attempt : Attempt} {peer : NodeName}
  {waiter : Waiter} {waiters rest : List Waiter} {owner : Option NodeName}

/-! ## Attempts and their callers -/

/-- The callers that wait for a lock to be settled. -/
def callers (t : Arbitrator) (lock : Lock) : List Waiter :=
  match t.attempts[lock]? with
  | some attempt => attempt.waiters
  | none => []

theorem callers_of_attempt (current : t.attempts[lock]? = some attempt) :
    t.callers lock = attempt.waiters := by
  simp [callers, current]

theorem callers_of_none (idle : t.attempts[lock]? = none) : t.callers lock = [] := by
  simp [callers, idle]

theorem callers_congr (same : t'.attempts[lock]? = t.attempts[lock]?) :
    t'.callers lock = t.callers lock := by
  simp only [callers, same]

theorem callers_drop :
    (t.drop other).callers lock = if other = lock then [] else t.callers lock := by
  by_cases eq : other = lock
  · subst eq
    simp [callers, drop]
  · rw [if_neg eq]
    exact callers_congr (by simp [drop, Std.ExtTreeMap.getElem?_erase, eq])

theorem callers_drop_self (t : Arbitrator) (lock : Lock) : (t.drop lock).callers lock = [] :=
  callers_drop.trans (if_pos rfl)

theorem callers_startAttempt (node : NodeName) (acquire : Bool) (ratifiers : Option NameSet)
    (waiters : List Waiter) : (t.startAttempt other node acquire ratifiers waiters).callers lock =
      if other = lock then waiters else t.callers lock := by
  by_cases eq : other = lock
  · subst eq
    simp [callers, startAttempt]
  · rw [if_neg eq]
    exact callers_congr (by simp [startAttempt, Std.ExtTreeMap.getElem?_insert, eq])

theorem callers_follow (peer : NodeName) (acquire : Bool) (waiters : List Waiter) :
    (t.follow peer lock acquire waiters).callers lock = waiters :=
  (callers_startAttempt peer acquire none waiters).trans (if_pos rfl)

/-- The tickets that were answered, in order. -/
def answered (t : Arbitrator) : List Ticket :=
  t.outbox.filterMap fun effect => effect.answer?.map Prod.fst

theorem answered_emit {effect : LockEffect} (unanswered : effect.answer? = none) :
    (t.emit effect).answered = t.answered := by
  simp [answered, emit, unanswered]

/-- Somebody who waits for a lock wants to release it. -/
def Leaving (waiters : List Waiter) : Prop := ∃ waiter ∈ waiters, waiter.wish = .release

theorem getElem?_insert_of_ne (ne : other ≠ lock) (attempt : Attempt) :
    (t.attempts.insert lock attempt)[other]? = t.attempts[other]? := by
  rw [Std.ExtTreeMap.getElem?_insert, if_neg]
  rw [Std.compare_eq_iff_eq]
  exact ne.symm

theorem getElem?_erase_of_ne (ne : other ≠ lock) :
    (t.attempts.erase lock)[other]? = t.attempts[other]? := by
  rw [Std.ExtTreeMap.getElem?_erase, if_neg]
  rw [Std.compare_eq_iff_eq]
  exact ne.symm

@[simp] theorem attempts_drop_self (t : Arbitrator) (lock : Lock) :
    (t.drop lock).attempts[lock]? = none :=
  Std.ExtTreeMap.getElem?_erase_self

theorem drop_of_none (idle : t.attempts[lock]? = none) : t.drop lock = t := by
  have same : t.attempts.erase lock = t.attempts := by
    refine Std.ExtTreeMap.ext_getElem? fun other => ?_
    rw [Std.ExtTreeMap.getElem?_erase]
    split
    next eq => rw [← Std.compare_eq_iff_eq.1 eq, idle]
    next => rfl
  simp only [drop, same]

theorem attempts_strike (current : t.attempts[lock]? = some attempt) (node : NodeName) :
    (t.strike lock node).attempts[lock]? =
      some { attempt with ratifiers := attempt.ratifiers.map (·.erase node) } := by
  simp [strike, current]

theorem attempts_strike_of_ne (ne : other ≠ lock) (node : NodeName) :
    (t.strike lock node).attempts[other]? = t.attempts[other]? := by
  simp [strike, Std.ExtTreeMap.getElem?_modify, ne.symm]

theorem callers_strike (node : NodeName) : (t.strike other node).callers lock = t.callers lock := by
  by_cases eq : other = lock
  · subst eq
    cases current : t.attempts[other]? with
    | none => rw [callers_of_none current, callers_of_none (by simp [strike, current])]
    | some attempt =>
      rw [callers_of_attempt current, callers_of_attempt (attempts_strike current node)]
  · exact callers_congr (attempts_strike_of_ne (Ne.symm eq) node)

theorem drop_strike (node : NodeName) : (t.strike lock node).drop lock = t.drop lock := by
  have attempts : (t.strike lock node).attempts.erase lock = t.attempts.erase lock := by
    refine Std.ExtTreeMap.ext_getElem? fun l => ?_
    by_cases eq : lock = l
    · simp [eq]
    · simp [Std.ExtTreeMap.getElem?_erase, eq, strike, Std.ExtTreeMap.getElem?_modify]
  simp only [drop, attempts]
  rfl

/-- Giving a lock up to another node does not depend on who settles it. -/
theorem drop_surrender (t : Arbitrator) (lock : Lock) :
    (t.surrender lock).drop lock = (t.drop lock).surrender lock := by
  unfold surrender
  by_cases there : lock ∈ t.held
  · rw [if_pos there, if_pos (show lock ∈ (t.drop lock).held from there)]
    rfl
  · rw [if_neg there, if_neg (show lock ∉ (t.drop lock).held from there)]

theorem attempts_surrender : (t.surrender lock).attempts = t.attempts := by
  unfold surrender
  split <;> rfl

theorem peerLocks_surrender : (t.surrender lock).peerLocks = t.peerLocks := by
  unfold surrender
  split <;> rfl

theorem subscribers_surrender : (t.surrender lock).subscribers = t.subscribers := by
  unfold surrender
  split <;> rfl

/-- Note that a lock is a peer's no longer. -/
def forgetPeerLock (t : Arbitrator) (peer : NodeName) (lock : Lock) : Arbitrator :=
  { t with peerLocks := t.peerLocks.modify peer (·.erase lock) }

theorem standing_forgetPeerLock_self (peer : NodeName) :
    (t.forgetPeerLock peer lock).standing lock =
      { t.standing lock with knows := (t.standing lock).knows \ {peer} } := by
  have recorded : {p | lock ∈ (t.forgetPeerLock peer lock).peerLocks[p]?.getD ∅} =
      (t.standing lock).knows \ {peer} := by
    ext p
    by_cases eq : peer = p
    · subst eq
      cases entry : t.peerLocks[peer]? <;>
        simp [forgetPeerLock, Std.ExtTreeMap.getElem?_modify, entry]
    · simp [forgetPeerLock, Std.ExtTreeMap.getElem?_modify, eq, mem_knows, Ne.symm eq]
  simp only [standing, recorded]
  rfl

theorem standing_forgetPeerLock_of_ne (ne : other ≠ lock) (peer : NodeName) :
    (t.forgetPeerLock peer other).standing lock = t.standing lock := by
  have recorded : {p | lock ∈ (t.forgetPeerLock peer other).peerLocks[p]?.getD ∅} =
      (t.standing lock).knows := by
    ext p
    by_cases eq : peer = p
    · subst eq
      cases entry : t.peerLocks[peer]? <;>
        simp [forgetPeerLock, Std.ExtTreeMap.getElem?_modify, entry, mem_knows, ne]
    · simp [forgetPeerLock, Std.ExtTreeMap.getElem?_modify, eq, mem_knows]
  simp only [standing, recorded]
  rfl

/-- End the attempt on a lock; the node goes away. -/
def endAttempt (t : Arbitrator) (lock : Lock) : Arbitrator :=
  match t.attempts[lock]? with
  | some attempt => t.abandon lock attempt .shutDown
  | none => t

theorem shutDown_eq : t.shutDown = t.attempts.keys.foldl endAttempt t := rfl

/-! ## Moves -/

/-- What may happen in the course of an operation. -/
structure Scope where
  /-- The peers whose attempts may be followed. -/
  parties : Set NodeName
  /-- The peers whose locks on record may change. -/
  record : Set NodeName
  /-- The locks whose attempts may be left with nobody to wait for. -/
  pending : Set Lock
  /-- What callers may come to do. -/
  free : Initiative → Prop
  /-- The answers that callers may get. -/
  replies : LockReply → Prop

/-- Callers may do what they want, and get any answer. -/
structure Scope.Lenient (scope : Scope) : Prop where
  free : ∀ initiative, scope.free initiative
  replies : ∀ reply, scope.replies reply

/-- Callers may be served once a lock is settled with the given owner. -/
structure Scope.Suits (scope : Scope) (waiters : List Waiter) (owner : Option NodeName) :
    Prop where
  reply : scope.replies (.ok owner)
  claim : owner = none → scope.free .claim ∧ ∀ owner, scope.replies (.ok owner)
  leave : Leaving waiters → scope.free .leave ∧ ∀ owner, scope.replies (.ok owner)

variable {scope : Scope}

theorem Scope.Lenient.suits (lenient : scope.Lenient) (waiters : List Waiter)
    (owner : Option NodeName) : scope.Suits waiters owner where
  reply := lenient.replies _
  claim _ := ⟨lenient.free _, fun _ => lenient.replies _⟩
  leave _ := ⟨lenient.free _, fun _ => lenient.replies _⟩

/-- A lock table in the course of an operation on a lock, and the callers at hand: those who are
still to be answered or to wait. -/
structure Desk where
  table : Arbitrator
  queue : List Waiter

/-- Something is done for the callers at hand: the first of them is answered or comes to wait, or
the lock changes hands so that it can be answered. -/
inductive Serve (scope : Scope) (lock : Lock) : Desk → Desk → Prop where
  | answered {t : Arbitrator} {waiter : Waiter} {rest : List Waiter} (reply : LockReply)
    (fits : scope.replies reply) :
    Serve scope lock ⟨t, waiter :: rest⟩ ⟨t.answer waiter.ticket reply, rest⟩
  /-- The caller waits. -/
  | joined {t : Arbitrator} {waiter : Waiter} {rest : List Waiter} {attempt : Attempt}
    (current : t.attempts[lock]? = some attempt) :
    Serve scope lock ⟨t, waiter :: rest⟩ ⟨t.enqueue lock attempt waiter, rest⟩
  /-- The caller waits on an attempt of the node's own that begins. -/
  | begun {t : Arbitrator} {waiter : Waiter} {rest : List Waiter} (acquire : Bool)
    (may : scope.free (if acquire then .claim else .leave)) (idle : t.attempts[lock]? = none)
    (free : acquire = true → t.owner lock = none) (there : acquire = false → lock ∈ t.held)
    (company : t.subscribers.isEmpty = false) :
    Serve scope lock ⟨t, waiter :: rest⟩ ⟨t.beginLocal lock acquire waiter.ticket, rest⟩
  /-- The lock is taken, or given up, without asking anybody. -/
  | taken {t : Arbitrator} {queue : List Waiter} (may : scope.free .claim)
    (idle : t.attempts[lock]? = none) (free : t.owner lock = none)
    (alone : t.subscribers.isEmpty = true) : Serve scope lock ⟨t, queue⟩ ⟨t.gain lock, queue⟩
  | given {t : Arbitrator} {queue : List Waiter} (may : scope.free .leave)
    (idle : t.attempts[lock]? = none) (there : lock ∈ t.held)
    (alone : t.subscribers.isEmpty = true) : Serve scope lock ⟨t, queue⟩ ⟨t.relinquish lock, queue⟩
  /-- An attempt of the node's own to release the lock is called off, and whoever waited on
  it is at hand. -/
  | withdrawn {t : Arbitrator} {queue : List Waiter} {attempt : Attempt} (may : scope.free .keep)
    (current : t.attempts[lock]? = some attempt) (own : attempt.isLocal = true)
    (leaves : attempt.acquire = false) :
    Serve scope lock ⟨t, queue⟩
      ⟨(t.drop lock).emit (.publish (.kept lock)), attempt.waiters ++ queue⟩

/-- Callers at hand are served, one after the other. -/
abbrev Served (scope : Scope) (lock : Lock) : Desk → Desk → Prop :=
  Relation.ReflTransGen (Serve scope lock)

/-- One thing that happens about a lock in the course of an operation. Whoever waited on an attempt
that ends is at hand then. -/
inductive Move (scope : Scope) (lock : Lock) : Desk → Desk → Prop where
  | served {d d' : Desk} (serve : Serve scope lock d d') : Move scope lock d d'
  /-- An attempt of the node's own completes. -/
  | won {t : Arbitrator} {queue : List Waiter} {attempt : Attempt}
    (current : t.attempts[lock]? = some attempt) (own : attempt.isLocal = true)
    (claims : attempt.acquire = true) :
    Move scope lock ⟨t, queue⟩ ⟨(t.drop lock).gain lock, attempt.waiters ++ queue⟩
  | parted {t : Arbitrator} {queue : List Waiter} {attempt : Attempt}
    (current : t.attempts[lock]? = some attempt) (own : attempt.isLocal = true)
    (leaves : attempt.acquire = false) :
    Move scope lock ⟨t, queue⟩ ⟨(t.drop lock).relinquish lock, attempt.waiters ++ queue⟩
  | dropped {t : Arbitrator} {queue : List Waiter} {attempt : Attempt}
    (current : t.attempts[lock]? = some attempt) :
    Move scope lock ⟨t, queue⟩ ⟨t.drop lock, attempt.waiters ++ queue⟩
  /-- An attempt of a peer is followed from now on. If it is one to acquire the lock, it takes the
  place of any other and takes over its callers. -/
  | followed {t : Arbitrator} {queue : List Waiter} {peer : NodeName} (party : peer ∈ scope.parties)
    (acquire : Bool) (free : acquire = true → t.owner lock = none)
    (idle : acquire = false → t.attempts[lock]? = none) :
    Move scope lock ⟨t, queue⟩
      ⟨(t.drop lock).follow peer lock acquire (t.callers lock), queue⟩
  /-- A node consents. -/
  | struck {t : Arbitrator} {queue : List Waiter} (node : NodeName)
    (rest : lock ∈ scope.pending ∨ ∀ attempt, (t.strike lock node).attempts[lock]? = some attempt →
      attempt.HasCompany) : Move scope lock ⟨t, queue⟩ ⟨t.strike lock node, queue⟩
  /-- A peer has the lock, whoever tried to get it. -/
  | yielded {t : Arbitrator} {queue : List Waiter} {peer : NodeName} (known : peer ∈ scope.record) :
    Move scope lock ⟨t, queue⟩
      ⟨((t.drop lock).notePeerLock peer lock).surrender lock, t.callers lock ++ queue⟩
  /-- A peer has the lock no longer. -/
  | forgotten {t : Arbitrator} {queue : List Waiter} {peer : NodeName}
    (known : peer ∈ scope.record) : Move scope lock ⟨t, queue⟩ ⟨t.forgetPeerLock peer lock, queue⟩
  | counted {t : Arbitrator} {queue : List Waiter} :
    Move scope lock ⟨t, queue⟩
      ⟨{ t with stats := { t.stats with timeouts := t.stats.timeouts + 1 } }, queue⟩

/-- Several things that happen about a lock, one after the other. -/
abbrev Moves (scope : Scope) (lock : Lock) : Desk → Desk → Prop :=
  Relation.ReflTransGen (Move scope lock)

theorem Served.moves {d d' : Desk} (served : Served scope lock d d') : Moves scope lock d d' :=
  Relation.ReflTransGen.mono (fun _ _ => Move.served) _ _ served

theorem Move.moves {d d' : Desk} (move : Move scope lock d d') : Moves scope lock d d' :=
  .single move

/-- What every move keeps, several moves keep. -/
theorem Moves.keeps {P : Arbitrator → Prop} {d d' : Desk} (moves : Moves scope lock d d')
    (each : ∀ d d', Move scope lock d d' → P d.table → P d'.table) (start : P d.table) :
    P d'.table := by
  induction moves with
  | refl => exact start
  | tail _ move ih => exact each _ _ move ih

/-- Whoever waits for a lock, and whoever is at hand. -/
def Desk.people (d : Desk) (lock : Lock) : List Waiter := d.table.callers lock ++ d.queue

/-- Whoever waited on an attempt that ends is at hand then. -/
theorem people_drop (current : t.attempts[lock]? = some attempt) (queue : List Waiter) :
    Desk.people ⟨t.drop lock, attempt.waiters ++ queue⟩ lock = Desk.people ⟨t, queue⟩ lock := by
  simp only [Desk.people, callers_drop_self, callers_of_attempt current, List.nil_append]

theorem people_enqueue (current : t.attempts[lock]? = some attempt) (waiter : Waiter)
    (rest : List Waiter) : Desk.people ⟨t.enqueue lock attempt waiter, rest⟩ lock =
      Desk.people ⟨t, waiter :: rest⟩ lock := by
  have callers : (t.enqueue lock attempt waiter).callers lock = t.callers lock ++ [waiter] := by
    rw [callers_of_attempt current, callers, enqueue]
    simp
  simp only [Desk.people, callers, List.append_assoc, List.singleton_append]

/-- Unless something is done for callers, nobody is answered, and whoever waits is at hand then or
waits on. -/
theorem Move.people {d d' : Desk} (move : Move scope lock d d') :
    Serve scope lock d d' ∨
      d'.table.answered = d.table.answered ∧ d'.people lock = d.people lock := by
  cases move with
  | served serve => exact .inl serve
  | won current | parted current => exact .inr ⟨answered_emit rfl, people_drop current _⟩
  | dropped current => exact .inr ⟨rfl, people_drop current _⟩
  | followed _ acquire =>
    exact .inr ⟨answered_emit rfl, congrArg (· ++ _) (callers_follow _ acquire _)⟩
  | struck node => exact .inr ⟨rfl, congrArg (· ++ _) (callers_strike node)⟩
  | @yielded t queue peer =>
    refine .inr ⟨?_, ?_⟩
    · unfold surrender
      split
      next => exact (answered_emit rfl).trans (answered_emit rfl)
      next => rfl
    · have idle : (((t.drop lock).notePeerLock peer lock).surrender lock).callers lock = [] := by
        refine callers_of_none ?_
        rw [attempts_surrender]
        exact attempts_drop_self t lock
      simp only [Desk.people, idle, List.nil_append]
  | forgotten | counted => exact .inr ⟨rfl, rfl⟩

/-! ## Requests of callers -/

theorem query_serves (ticket : Ticket) (fits : scope.replies (.ok (t.owner lock))) :
    Served scope lock ⟨t, ⟨.outcome, ticket⟩ :: rest⟩ ⟨t.query lock ticket, rest⟩ := by
  unfold query
  split
  next attempt current => exact .single (.joined current)
  next => exact .single (.answered _ fits)

theorem acquire_serves (ticket : Ticket) (may : scope.free .claim)
    (fits : ∀ owner, t.owner lock = some owner ∨ owner = t.node ∧ t.subscribers.isEmpty = true →
      scope.replies (.ok (some owner))) :
    Served scope lock ⟨t, ⟨.acquire, ticket⟩ :: rest⟩ ⟨t.acquire lock ticket, rest⟩ := by
  unfold acquire
  split
  next attempt current => exact .single (.joined current)
  next idle =>
    split
    next owner owned => exact .single (.answered _ (fits owner (.inl owned)))
    next free =>
      split
      next alone =>
        exact .head (.taken may idle free alone)
          (.single (.answered _ (fits t.node (.inr ⟨rfl, alone⟩))))
      next company =>
        exact .single (.begun true may idle (fun _ => free) nofun (Bool.eq_false_iff.2 company))

theorem release_serves (ticket : Ticket) (may : scope.free .leave)
    (fits : ∀ owner, scope.replies (.ok owner)) :
    Served scope lock ⟨t, ⟨.release, ticket⟩ :: rest⟩ ⟨t.release lock ticket, rest⟩ := by
  unfold release
  split
  next attempt current => exact .single (.joined current)
  next idle =>
    split
    next there =>
      split
      next alone => exact .head (.given may idle there alone) (.single (.answered _ (fits none)))
      next company =>
        exact .single (.begun false may idle nofun (fun _ => there) (Bool.eq_false_iff.2 company))
    next => exact .single (.answered _ (fits _))

/-! ## Locks that are settled -/

theorem serve_serves (suits : scope.Suits [waiter] owner) :
    Served scope lock ⟨t, waiter :: rest⟩ ⟨serve lock owner t waiter, rest⟩ := by
  obtain ⟨wish, ticket⟩ := waiter
  unfold serve
  split
  next wish =>
    obtain rfl : _ = Wish.acquire := wish
    obtain ⟨may, fits⟩ := suits.claim rfl
    exact acquire_serves ticket may fun owner _ => fits (some owner)
  next node wish =>
    obtain rfl : _ = Wish.release := wish
    obtain ⟨may, fits⟩ := suits.leave ⟨_, List.mem_singleton_self _, rfl⟩
    split
    next => exact release_serves ticket may fits
    next => exact .single (.answered _ suits.reply)
  next => exact .single (.answered _ suits.reply)

theorem resolve_serves (suits : scope.Suits waiters owner) :
    Served scope lock ⟨t, waiters ++ rest⟩ ⟨t.resolve lock owner waiters, rest⟩ := by
  induction waiters generalizing t with
  | nil => exact .refl
  | cons waiter waiters ih =>
    have first : scope.Suits [waiter] owner := ⟨suits.reply, suits.claim, fun ⟨w, waits, wish⟩ =>
      suits.leave ⟨w, List.mem_singleton.1 waits ▸ List.mem_cons_self, wish⟩⟩
    have others : scope.Suits waiters owner := ⟨suits.reply, suits.claim, fun ⟨w, waits, wish⟩ =>
      suits.leave ⟨w, List.mem_cons_of_mem _ waits, wish⟩⟩
    exact (serve_serves first).trans (ih others)

/-- Nobody but the callers that are served is at hand. -/
theorem resolve_serves_all (suits : scope.Suits waiters owner) :
    Served scope lock ⟨t, waiters⟩ ⟨t.resolve lock owner waiters, []⟩ := by
  have served : Served scope lock ⟨t, waiters ++ []⟩ ⟨t.resolve lock owner waiters, []⟩ :=
    resolve_serves suits
  rwa [List.append_nil] at served

theorem failAll_serves (failure : Failure) (fits : scope.replies (.error failure)) :
    Served scope lock ⟨t, waiters ++ rest⟩ ⟨t.failAll failure waiters, rest⟩ := by
  unfold failAll
  induction waiters generalizing t with
  | nil => exact .refl
  | cons waiter waiters ih => exact .head (.answered _ fits) ih

theorem settle_moves (current : t.attempts[lock]? = some attempt)
    (suits : scope.Suits attempt.waiters owner) :
    Moves scope lock ⟨t, rest⟩ ⟨t.settle lock attempt owner, rest⟩ :=
  .head (.dropped current) (resolve_serves suits).moves

theorem abandon_moves (current : t.attempts[lock]? = some attempt) (failure : Failure)
    (fits : scope.replies (.error failure)) :
    Moves scope lock ⟨t, rest⟩ ⟨t.abandon lock attempt failure, rest⟩ :=
  .head (.dropped current) (failAll_serves failure fits).moves

theorem reacquire_serves (may : scope.free .keep)
    (suits : scope.Suits (t.callers lock) (some t.node)) :
    Served scope lock ⟨t, rest⟩ ⟨t.reacquire lock, rest⟩ := by
  unfold reacquire
  split
  next attempt current =>
    rw [callers_of_attempt current] at suits
    split
    next leaving =>
      rw [Bool.and_eq_true, Bool.not_eq_true'] at leaving
      exact .head (.withdrawn may current leaving.1 leaving.2) (resolve_serves suits)
    next => exact .refl
  next => exact .refl

/-! ## Consent and time -/

/-- An attempt of the node's own completes, whoever still had to consent. -/
theorem complete_moves (current : t.attempts[lock]? = some attempt) (own : attempt.isLocal = true)
    (suits : scope.Suits attempt.waiters (if attempt.acquire then some t.node else none)) :
    Moves scope lock ⟨t, rest⟩ ⟨t.complete lock attempt, rest⟩ := by
  unfold complete
  dsimp only
  split
  next claims =>
    rw [if_pos claims] at suits
    exact .head (.won current own claims) (resolve_serves suits).moves
  next leaves =>
    rw [if_neg leaves] at suits
    exact .head (.parted current own (Bool.eq_false_iff.2 leaves)) (resolve_serves suits).moves

theorem completeIfReady_moves (lenient : scope.Lenient) :
    Moves scope lock ⟨t, rest⟩ ⟨t.completeIfReady lock, rest⟩ := by
  unfold completeIfReady
  split
  next attempt current =>
    split
    next ratifiers own =>
      split
      next =>
        exact complete_moves current (by rw [Attempt.isLocal, own]; rfl) (lenient.suits _ _)
      next => exact .refl
    next => exact .refl
  next => exact .refl

/-- A node that completes an attempt does not care who was struck from it. -/
theorem complete_strike (t : Arbitrator) (lock : Lock) (node : NodeName)
    (attempt : Attempt) (ratifiers : Option NameSet) :
    (t.strike lock node).complete lock { attempt with ratifiers } = t.complete lock attempt := by
  unfold complete
  rw [drop_strike]

/-- A consent completes the attempt if it was the last, or else leaves somebody to wait for. -/
theorem ratify_moves (node : NodeName) (acquire : Bool)
    (suits : ∀ attempt ratifiers, t.attempts[lock]? = some attempt → attempt.acquire = acquire →
      attempt.ratifiers = some ratifiers → (ratifiers.erase node).isEmpty = true →
      scope.Suits attempt.waiters (if acquire then some t.node else none)) :
    Moves scope lock ⟨t, rest⟩ ⟨t.ratify node lock acquire, rest⟩ := by
  unfold ratify
  split
  next attempt current =>
    split
    next due =>
      obtain ⟨ratifiers, own⟩ := Option.isSome_iff_exists.1 due.2
      have struck := attempts_strike current node
      rw [own, Option.map_some] at struck
      simp only [completeIfReady, struck]
      split
      next last =>
        rw [complete_strike]
        refine complete_moves current due.2 ?_
        rw [due.1]
        exact suits attempt ratifiers current due.1 own last
      next more =>
        refine .single (.struck node (.inr fun attempt' found => ?_))
        obtain rfl := Option.some.inj (struck.symm.trans found)
        rintro _ ⟨⟩
        exact Bool.eq_false_iff.2 more
    next => exact .refl
  next => exact .refl

theorem timeout_moves (generation : Nat) (lenient : scope.Lenient) :
    Moves scope lock ⟨t, rest⟩ ⟨t.timeout lock generation, rest⟩ := by
  unfold timeout
  split
  next attempt current =>
    split
    next due => exact .head .counted (complete_moves current due.2 (lenient.suits _ _))
    next => exact .refl
  next => exact .refl

/-! ## News from peers -/

theorem peerAcquiring_moves (party : peer ∈ scope.parties) :
    Moves scope lock ⟨t, rest⟩ ⟨t.peerAcquiring peer lock, rest⟩ := by
  unfold peerAcquiring
  split
  next => exact .refl
  next free =>
    have followed : Move scope lock ⟨t, rest⟩
        ⟨(t.drop lock).follow peer lock true (t.callers lock), rest⟩ :=
      .followed party true (fun _ => free) nofun
    split
    next idle =>
      rw [drop_of_none idle, callers_of_none idle] at followed
      exact .single followed
    next attempt current =>
      split
      next => exact .refl
      next => exact .single (callers_of_attempt current ▸ followed)

theorem peerReleasing_moves (party : peer ∈ scope.parties) :
    Moves scope lock ⟨t, rest⟩ ⟨t.peerReleasing peer lock, rest⟩ := by
  unfold peerReleasing
  split
  next leaves =>
    have idle : t.attempts[lock]? = none := Std.ExtTreeMap.getElem?_eq_none leaves.2
    have followed : Move scope lock ⟨t, rest⟩
        ⟨(t.drop lock).follow peer lock false (t.callers lock), rest⟩ :=
      .followed party false nofun fun _ => idle
    rw [drop_of_none idle, callers_of_none idle] at followed
    exact .single followed
  next => exact .refl

/-- Whoever tried to get a lock that a peer has gives way, and then its callers are served. -/
theorem peerAdded_moves (known : peer ∈ scope.record)
    (suits : scope.Suits (t.callers lock) (some peer)) :
    Moves scope lock ⟨t, rest⟩ ⟨t.peerAdded peer lock, rest⟩ := by
  have yielded : Move scope lock ⟨t, rest⟩
      ⟨((t.drop lock).notePeerLock peer lock).surrender lock, t.callers lock ++ rest⟩ :=
    .yielded known
  have attempts : ((t.notePeerLock peer lock).surrender lock).attempts = t.attempts :=
    attempts_surrender
  unfold peerAdded
  dsimp only
  rw [attempts]
  split
  next attempt current =>
    rw [callers_of_attempt current] at yielded suits
    rw [settle, drop_surrender]
    exact .head yielded (resolve_serves suits).moves
  next idle =>
    rw [drop_of_none idle, callers_of_none idle] at yielded
    exact .single yielded

theorem peerKept_moves (suits : scope.Suits (t.callers lock) (some peer)) :
    Moves scope lock ⟨t, rest⟩ ⟨t.peerKept peer lock, rest⟩ := by
  unfold peerKept
  split
  next attempt current =>
    split
    next => exact settle_moves current (callers_of_attempt current ▸ suits)
    next => exact .refl
  next => exact .refl

theorem freeOfPeer_moves (suits : scope.Suits (t.callers lock) none) :
    Moves scope lock ⟨t, rest⟩ ⟨freeOfPeer peer t lock, rest⟩ := by
  unfold freeOfPeer
  split
  next attempt current =>
    split
    next => exact settle_moves current (callers_of_attempt current ▸ suits)
    next => exact .refl
  next => exact .refl

theorem peerRemoved_moves (known : peer ∈ scope.record)
    (suits : scope.Suits (t.callers lock) none) :
    Moves scope lock ⟨t, rest⟩ ⟨t.peerRemoved peer lock, rest⟩ := by
  have freed : Moves scope lock ⟨t.forgetPeerLock peer lock, rest⟩
      ⟨t.peerRemoved peer lock, rest⟩ :=
    freeOfPeer_moves (t := t.forgetPeerLock peer lock) suits
  exact .head (.forgotten known) freed

theorem failOfPeer_moves (lenient : scope.Lenient) :
    Moves scope lock ⟨t, rest⟩ ⟨t.failOfPeer lock, rest⟩ := by
  unfold failOfPeer
  split
  next attempt current => exact abandon_moves current _ (lenient.replies _)
  next => exact .refl

theorem endAttempt_moves (lenient : scope.Lenient) :
    Moves scope lock ⟨t, rest⟩ ⟨t.endAttempt lock, rest⟩ := by
  unfold endAttempt
  split
  next attempt current => exact abandon_moves current _ (lenient.replies _)
  next => exact .refl

/-! ## Operations that name a lock -/

/-- Everything may happen that an operation amounts to. -/
structure Scope.Admits (scope : Scope) (op : LockOp) : Prop extends scope.Lenient where
  parties : ∀ peer, op.Names peer → peer ∈ scope.parties
  record : ∀ peer, op.Records peer → peer ∈ scope.record
  pending : ∀ node, op = .removeSubscriber node → scope.pending = Set.univ

/-- Callers may do what they want. Attempts of the given peers may be followed, locks of the given
ones may be noted or forgotten, and the given locks may be pending. -/
abbrev Scope.within (parties record : Set NodeName) (pending : Set Lock) : Scope :=
  ⟨parties, record, pending, fun _ => True, fun _ => True⟩

theorem Scope.within_lenient {parties record : Set NodeName} {pending : Set Lock} :
    (Scope.within parties record pending).Lenient :=
  ⟨fun _ => trivial, fun _ => trivial⟩

/-- Nothing is ruled out. -/
abbrev Scope.whole : Scope := .within Set.univ Set.univ Set.univ

theorem Scope.whole_lenient : Scope.whole.Lenient := within_lenient

theorem Scope.whole_admits (op : LockOp) : Scope.whole.Admits op :=
  ⟨whole_lenient, fun _ _ => trivial, fun _ _ => trivial, fun _ _ => rfl⟩

/-- An operation that names a lock is over when whoever asks by it, and whoever waited on an attempt
that it ends, was answered or waits. -/
theorem step_moves {op : LockOp} (admits : scope.Admits op) (names : op.lock? = some lock)
    (t : Arbitrator) : Moves scope lock ⟨t, op.asking⟩ ⟨t.step op, []⟩ := by
  have suits (waiters owner) : scope.Suits waiters owner := admits.suits waiters owner
  cases op with
  | acquire _ ticket =>
    cases names
    exact (acquire_serves ticket (admits.free _) fun _ _ => admits.replies _).moves
  | release _ ticket =>
    cases names
    exact (release_serves ticket (admits.free _) fun _ => admits.replies _).moves
  | query _ ticket => cases names; exact (query_serves ticket (admits.replies _)).moves
  | reacquire => cases names; exact (reacquire_serves (admits.free _) (suits _ _)).moves
  | ratify node _ acquire =>
    cases names
    exact ratify_moves node acquire fun _ _ _ _ _ _ => suits _ _
  | timeout _ generation => cases names; exact timeout_moves generation admits.toLenient
  | peerAcquiring peer => cases names; exact peerAcquiring_moves (admits.parties peer rfl)
  | peerReleasing peer => cases names; exact peerReleasing_moves (admits.parties peer rfl)
  | peerAdded peer => cases names; exact peerAdded_moves (admits.record peer rfl) (suits _ _)
  | peerKept peer => cases names; exact peerKept_moves (suits _ _)
  | peerRemoved peer => cases names; exact peerRemoved_moves (admits.record peer rfl) (suits _ _)
  | _ => cases names

/-! ## Everything that can happen -/

/-- Operations on one lock each, one after the other, and who asks by them. -/
inductive Course (scope : Scope) : Arbitrator → Arbitrator → List (Lock × Ticket) → Prop where
  | done (t : Arbitrator) : Course scope t t []
  | handled {t u t' : Arbitrator} {lock : Lock} {asked : List Waiter}
    {requests : List (Lock × Ticket)} (moves : Moves scope lock ⟨t, asked⟩ ⟨u, []⟩)
    (rest : Course scope u t' requests) :
    Course scope t t' ((ticketsOf asked).map (lock, ·) ++ requests)

theorem Moves.course {asked : List Waiter} (moves : Moves scope lock ⟨t, asked⟩ ⟨t', []⟩) :
    Course scope t t' ((ticketsOf asked).map (lock, ·)) := by
  have course := Course.handled moves (.done t')
  rwa [List.append_nil] at course

namespace Course

variable {requests requests' : List (Lock × Ticket)}

theorem trans (first : Course scope t u requests) (second : Course scope u t' requests') :
    Course scope t t' (requests ++ requests') := by
  induction first with
  | done => exact second
  | handled moves _ ih =>
    rw [List.append_assoc]
    exact .handled moves (ih second)

theorem foldl {α : Type} {f : Arbitrator → α → Arbitrator}
    (each : ∀ t a, Course scope t (f t a) []) (l : List α) (t : Arbitrator) :
    Course scope t (l.foldl f t) [] :=
  List.foldlRecOn l f (motive := fun u => Course scope t u []) (.done t)
    fun _ course a _ => course.trans (each _ a)

/-- What every move keeps is kept. -/
theorem keeps {P : Arbitrator → Prop} (course : Course scope t t' requests)
    (each : ∀ lock d d', Move scope lock d d' → P d.table → P d'.table) (start : P t) : P t' := by
  induction course with
  | done => exact start
  | handled moves _ ih => exact ih (moves.keeps (each _) start)

end Course

/-! ### What no move concerns -/

theorem Move.subscribers {d d' : Desk} (move : Move scope lock d d') :
    d'.table.subscribers = d.table.subscribers := by
  cases move with
  | served serve => cases serve <;> rfl
  | yielded => exact subscribers_surrender
  | _ => rfl

theorem Course.subscribers {requests : List (Lock × Ticket)}
    (course : Course scope t t' requests) : t'.subscribers = t.subscribers :=
  course.keeps (P := fun u => u.subscribers = t.subscribers)
    (fun _ _ _ move same => move.subscribers.trans same) rfl

/-- The table when an operation has done what concerns all locks alike. -/
def opened (t : Arbitrator) : LockOp → Arbitrator
  | .addSubscriber node => t.addSubscriber node
  | .removeSubscriber node => { t with subscribers := t.subscribers.erase node }
  | .peerSubscribed peer _ => { t with peerLocks := t.peerLocks.insert peer ∅ }
  | .peerDisconnected peer => { t with peerLocks := t.peerLocks.erase peer }
  | .setPrecedence outranks => { t with outranks }
  | _ => t

theorem opened_node (t : Arbitrator) (op : LockOp) : (t.opened op).node = t.node := by
  cases op <;> rfl

theorem opened_held (t : Arbitrator) (op : LockOp) : (t.opened op).held = t.held := by
  cases op <;> rfl

theorem opened_attempts (t : Arbitrator) (op : LockOp) : (t.opened op).attempts = t.attempts := by
  cases op <;> rfl

theorem opened_generation (t : Arbitrator) (op : LockOp) :
    (t.opened op).generation = t.generation := by
  cases op <;> rfl

theorem opened_outbox (t : Arbitrator) (op : LockOp) : (t.opened op).outbox = t.outbox := by
  cases op <;> rfl

/-- The table after the locks of a peer are forgotten. -/
def forget (t : Arbitrator) (peer : NodeName) : Arbitrator :=
  { t with peerLocks := t.peerLocks.erase peer }

/-- A table whose node no longer follows a peer, before the attempts of the peer fail. -/
def freed (t : Arbitrator) (peer : NodeName) : Arbitrator :=
  (t.peerLocks[peer]?.getD ∅).toList.foldl (freeOfPeer peer) (t.forget peer)

theorem peerDisconnected_eq (t : Arbitrator) (peer : NodeName) : t.peerDisconnected peer =
    ((t.freed peer).attemptsOf peer).foldl failOfPeer (t.freed peer) := rfl

/-- A table whose node has lost a follower, before attempts complete for want of others. -/
def struck (t : Arbitrator) (node : NodeName) : Arbitrator :=
  (t.awaiting node).foldl (fun t lock => t.strike lock node)
    { t with subscribers := t.subscribers.erase node }

theorem removeSubscriber_eq (t : Arbitrator) (node : NodeName) :
    t.removeSubscriber node = (t.awaiting node).foldl completeIfReady (t.struck node) := rfl

/-- A follower that departs is struck from the attempts that wait for it. -/
theorem foldl_strike_course (node : NodeName) {locks : List Lock}
    (among : ∀ lock ∈ locks, lock ∈ scope.pending) :
    Course scope t (locks.foldl (fun t lock => t.strike lock node) t) [] := by
  induction locks generalizing t with
  | nil => exact .done t
  | cons lock locks ih =>
    have struck : Move scope lock ⟨t, []⟩ ⟨t.strike lock node, []⟩ :=
      .struck node (.inl (among lock List.mem_cons_self))
    exact struck.moves.course.trans
      (ih fun other there => among other (List.mem_cons_of_mem _ there))

theorem completed_course (lenient : scope.Lenient) (t : Arbitrator) (node : NodeName) :
    Course scope (t.struck node) (t.removeSubscriber node) [] :=
  .foldl (fun _ _ => (completeIfReady_moves lenient).course) (t.awaiting node) (t.struck node)

theorem freed_course (lenient : scope.Lenient) (t : Arbitrator) (peer : NodeName) :
    Course scope (t.forget peer) (t.freed peer) [] :=
  .foldl (fun _ _ => (freeOfPeer_moves (lenient.suits _ _)).course) _ _

theorem failed_course (lenient : scope.Lenient) (t : Arbitrator) (peer : NodeName) :
    Course scope (t.freed peer) (t.peerDisconnected peer) [] :=
  .foldl (fun _ _ => (failOfPeer_moves lenient).course) _ _

/-- Every operation does what concerns all locks alike, and then deals with one lock after the
other. Only the departure of a follower may leave an attempt with nobody to wait for, until it
completes it. -/
theorem step_course {op : LockOp} (admits : scope.Admits op) (t : Arbitrator) :
    Course scope (t.opened op) (t.step op) op.requests := by
  have lenient := admits.toLenient
  cases op with
  | addSubscriber | setPrecedence => exact .done _
  | removeSubscriber node =>
    have pending := admits.pending node rfl
    have gone : Course scope (t.opened (.removeSubscriber node)) (t.struck node) [] :=
      foldl_strike_course node fun _ _ => pending ▸ trivial
    exact gone.trans (completed_course lenient t node)
  | peerSubscribed peer locks =>
    have known := admits.record peer rfl
    exact .foldl (fun _ _ => (peerAdded_moves known (lenient.suits _ _)).course) _ _
  | peerDisconnected peer =>
    exact (freed_course lenient t peer).trans (failed_course lenient t peer)
  | shutDown => exact .foldl (fun _ _ => (endAttempt_moves lenient).course) t.attempts.keys t
  | _ => exact (step_moves admits rfl t).course

end Arbitrator

end Cohort

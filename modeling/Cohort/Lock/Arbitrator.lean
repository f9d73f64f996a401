import Cohort.Message

/-!
# Lock arbitration

There is no lock server. A node that wants a lock publishes that it is acquiring it, and waits
until every node subscribed to it has consented; then it publishes that it holds the lock. A node
that sees such an attempt consents unless the lock has an owner, or it already follows an attempt
that outranks the new one. Giving a lock up works the same way.

While a lock is being settled, its `Attempt` keeps the callers that wait for the outcome. When an
attempt that outranks it turns up, the waiting callers move on to the attempt that takes its
place, so that each is answered once, with the node that wins in the end.

The arbitrator does no input or output. Everything it wants done, answers to callers included,
goes into its `outbox` in the order in which it happens.

## Main definitions

* `Arbitrator`: the lock table of one node.
* `Arbitrator.owner`, `Arbitrator.state`: what the node knows about a lock.
* `LockOp`, `Arbitrator.step`: everything that can happen to an arbitrator.
-/

namespace Cohort

/-- What a node knows about a lock. -/
inductive LockState where
  | free
  | acquiring (node : NodeName)
  | held (node : NodeName)
  | releasing (node : NodeName)
  deriving DecidableEq, Repr

/-- The wording of a lock's state. -/
def LockState.render : LockState → String
  | free => "free"
  | acquiring node => "acquiring by " ++ node
  | held node => "held by " ++ node
  | releasing node => "releasing by " ++ node

/-- The owner of a lock once it is settled, if it has one. -/
abbrev LockReply := Outcome (Option NodeName)

/-- What an arbitrator wants done. -/
inductive LockEffect where
  /-- Publish an event to all subscribers. -/
  | publish (event : NodeEvent)
  /-- Consent to a peer's attempt. -/
  | ratify (peer : NodeName) (lock : Lock) (acquire : Bool)
  /-- Report after the lock timeout that it has passed. -/
  | startTimer (lock : Lock) (generation : Nat)
  /-- A lock was lost to another node without being released. -/
  | lost (lock : Lock)
  /-- Answer a caller. -/
  | answer (ticket : Ticket) (reply : LockReply)
  deriving DecidableEq

/-- The answer to a caller, if that is what is wanted. -/
def LockEffect.answer? : LockEffect → Option (Ticket × LockReply)
  | answer ticket reply => some (ticket, reply)
  | _ => none

/-- What a caller that waits on a lock wants. -/
inductive Wish where
  /-- To know the outcome. -/
  | outcome
  /-- To acquire the lock once it is settled. -/
  | acquire
  /-- To release the lock once it is settled. -/
  | release
  deriving DecidableEq, Repr

/-- A caller that waits on a lock. -/
structure Waiter where
  wish : Wish
  ticket : Ticket
  deriving DecidableEq, Repr

/-- A lock that is being settled. -/
structure Attempt where
  /-- The node that acquires or releases the lock. -/
  node : NodeName
  acquire : Bool
  /-- The subscribers that still have to consent; nothing when the attempt is a peer's. -/
  ratifiers : Option NameSet
  waiters : List Waiter
  generation : Nat
  deriving DecidableEq

/-- Whether an attempt is the node's own. -/
def Attempt.isLocal (attempt : Attempt) : Bool := attempt.ratifiers.isSome

/-- How often locks changed hands. -/
structure LockStats where
  acquired : Nat
  released : Nat
  /-- Locks lost to another node without being released. -/
  hijacked : Nat
  timeouts : Nat
  deriving DecidableEq, Repr

/-- Decides between two nodes that want the same lock: whether the first outranks the second. -/
abbrev Precedence := NodeName → NodeName → Bool

namespace Precedence

/-- The node whose name comes first wins. -/
def byName : Precedence := fun a b => a < b

/-- The node whose name comes last wins. -/
def byNameReversed : Precedence := fun a b => b < a

/-- The node whose name is shorter in UTF-8 wins. -/
def byLength : Precedence := fun a b => a.utf8ByteSize < b.utf8ByteSize

end Precedence

/-- The lock table of one node. -/
structure Arbitrator where
  node : NodeName
  /-- The locks this node holds. -/
  held : LockSet
  /-- The locks that each peer it follows holds. -/
  peerLocks : Std.ExtTreeMap NodeName LockSet
  /-- The locks that are being settled. -/
  attempts : Std.ExtTreeMap Lock Attempt
  /-- The nodes that follow this one; each has to consent to its attempts. -/
  subscribers : NameSet
  outranks : Precedence
  /-- The generation of the latest attempt. -/
  generation : Nat
  stats : LockStats
  /-- What is to be done, in the order in which it came up. -/
  outbox : List LockEffect

namespace Arbitrator

/-- The table of a node that holds nothing and knows nobody. -/
def fresh (node : NodeName) (outranks : Precedence) : Arbitrator where
  node := node
  held := ∅
  peerLocks := ∅
  attempts := ∅
  subscribers := ∅
  outranks := outranks
  generation := 0
  stats := ⟨0, 0, 0, 0⟩
  outbox := []

/-! ## What the node knows -/

/-- The owner of a lock as far as this node knows, whatever is being settled. -/
def owner (t : Arbitrator) (lock : Lock) : Option NodeName :=
  if lock ∈ t.held then some t.node
  else (t.peerLocks.toList.find? fun entry => entry.2.contains lock).map Prod.fst

/-- What this node knows about a lock. -/
def state (t : Arbitrator) (lock : Lock) : LockState :=
  match t.attempts[lock]? with
  | some attempt => if attempt.acquire then .acquiring attempt.node else .releasing attempt.node
  | none =>
    match t.owner lock with
    | some owner => .held owner
    | none => .free

/-- The callers that wait for an answer, lock by lock. -/
def waiting (t : Arbitrator) : List Ticket :=
  t.attempts.toList.flatMap fun entry => entry.2.waiters.map Waiter.ticket

/-! ## Steps shared by the operations -/

/-- Something to be done. -/
def emit (t : Arbitrator) (effect : LockEffect) : Arbitrator :=
  { t with outbox := t.outbox ++ [effect] }

/-- Answer a caller. -/
def answer (t : Arbitrator) (ticket : Ticket) (reply : LockReply) : Arbitrator :=
  t.emit (.answer ticket reply)

/-- The lock becomes this node's. -/
def gain (t : Arbitrator) (lock : Lock) : Arbitrator :=
  { t with
    held := t.held.insert lock
    stats := { t.stats with acquired := t.stats.acquired + 1 } }.emit (.publish (.added lock))

/-- The lock is this node's no longer, by its own will. -/
def relinquish (t : Arbitrator) (lock : Lock) : Arbitrator :=
  { t with
    held := t.held.erase lock
    stats := { t.stats with released := t.stats.released + 1 } }.emit (.publish (.removed lock))

/-- Let a caller wait on an attempt in flight. -/
def enqueue (t : Arbitrator) (lock : Lock) (attempt : Attempt) (waiter : Waiter) : Arbitrator :=
  { t with
    attempts := t.attempts.insert lock { attempt with waiters := attempt.waiters ++ [waiter] } }

/-- Begin an attempt. -/
def startAttempt (t : Arbitrator) (lock : Lock) (node : NodeName) (acquire : Bool)
    (ratifiers : Option NameSet) (waiters : List Waiter) : Arbitrator :=
  { t with
    generation := t.generation + 1
    attempts := t.attempts.insert lock
      { node, acquire, ratifiers, waiters, generation := t.generation + 1 } }

/-- Begin an attempt of this node's own: every subscriber has to consent, or time has to pass. -/
def beginLocal (t : Arbitrator) (lock : Lock) (acquire : Bool) (ticket : Ticket) : Arbitrator :=
  let t := t.emit (.publish (if acquire then .acquiring lock else .releasing lock))
  let t := t.startAttempt lock t.node acquire (some t.subscribers) [⟨.outcome, ticket⟩]
  t.emit (.startTimer lock t.generation)

/-- Follow a peer's attempt, and consent to it. -/
def follow (t : Arbitrator) (peer : NodeName) (lock : Lock) (acquire : Bool)
    (waiters : List Waiter) : Arbitrator :=
  (t.startAttempt lock peer acquire none waiters).emit (.ratify peer lock acquire)

/-- Drop the attempt on a lock. -/
def drop (t : Arbitrator) (lock : Lock) : Arbitrator :=
  { t with attempts := t.attempts.erase lock }

/-! ## Requests of callers -/

/-- A caller wants to know the owner of a lock, once it is settled. -/
def query (t : Arbitrator) (lock : Lock) (ticket : Ticket) : Arbitrator :=
  match t.attempts[lock]? with
  | some attempt => t.enqueue lock attempt ⟨.outcome, ticket⟩
  | none => t.answer ticket (.ok (t.owner lock))

/-- A caller wants this node to have a lock. -/
def acquire (t : Arbitrator) (lock : Lock) (ticket : Ticket) : Arbitrator :=
  match t.attempts[lock]? with
  | some attempt => t.enqueue lock attempt ⟨.acquire, ticket⟩
  | none =>
    match t.owner lock with
    | some owner => t.answer ticket (.ok (some owner))
    | none =>
      if t.subscribers.isEmpty then (t.gain lock).answer ticket (.ok (some t.node))
      else t.beginLocal lock true ticket

/-- A caller wants this node to give a lock up. -/
def release (t : Arbitrator) (lock : Lock) (ticket : Ticket) : Arbitrator :=
  match t.attempts[lock]? with
  | some attempt => t.enqueue lock attempt ⟨.release, ticket⟩
  | none =>
    if lock ∈ t.held then
      if t.subscribers.isEmpty then (t.relinquish lock).answer ticket (.ok none)
      else t.beginLocal lock false ticket
    else t.answer ticket (.ok (t.owner lock))

/-- Serve a caller that waited on a lock which is now settled, with the given owner. -/
def serve (lock : Lock) (owner : Option NodeName) (t : Arbitrator) (waiter : Waiter) :
    Arbitrator :=
  match waiter.wish, owner with
  | .acquire, none => t.acquire lock waiter.ticket
  | .release, some node =>
    if node = t.node then t.release lock waiter.ticket else t.answer waiter.ticket (.ok owner)
  | _, _ => t.answer waiter.ticket (.ok owner)

/-- Serve everybody who waited on a lock, in order. -/
def resolve (t : Arbitrator) (lock : Lock) (owner : Option NodeName) (waiters : List Waiter) :
    Arbitrator :=
  waiters.foldl (serve lock owner) t

/-- Tell everybody who waited on a lock that it failed. -/
def failAll (t : Arbitrator) (failure : Failure) (waiters : List Waiter) : Arbitrator :=
  waiters.foldl (fun t waiter => t.answer waiter.ticket (.error failure)) t

/-- End an attempt with the given owner. -/
def settle (t : Arbitrator) (lock : Lock) (attempt : Attempt) (owner : Option NodeName) :
    Arbitrator :=
  (t.drop lock).resolve lock owner attempt.waiters

/-- End an attempt with a failure. -/
def abandon (t : Arbitrator) (lock : Lock) (attempt : Attempt) (failure : Failure) : Arbitrator :=
  (t.drop lock).failAll failure attempt.waiters

/-- Whether this node is giving a lock up. -/
def isReleasing (t : Arbitrator) (lock : Lock) : Bool :=
  match t.attempts[lock]? with
  | some attempt => attempt.isLocal && !attempt.acquire
  | none => false

/-- Keep a lock that is being given up. -/
def reacquire (t : Arbitrator) (lock : Lock) : Arbitrator :=
  match t.attempts[lock]? with
  | some attempt =>
    if attempt.isLocal && !attempt.acquire then
      ((t.drop lock).emit (.publish (.kept lock))).resolve lock (some t.node) attempt.waiters
    else t
  | none => t

/-! ## Consent and time -/

/-- Complete an attempt of this node's own. -/
def complete (t : Arbitrator) (lock : Lock) (attempt : Attempt) : Arbitrator :=
  let t := t.drop lock
  if attempt.acquire then (t.gain lock).resolve lock (some t.node) attempt.waiters
  else (t.relinquish lock).resolve lock none attempt.waiters

/-- Complete an attempt of this node's own if nobody is left to consent. -/
def completeIfReady (t : Arbitrator) (lock : Lock) : Arbitrator :=
  match t.attempts[lock]? with
  | some attempt =>
    match attempt.ratifiers with
    | some ratifiers => if ratifiers.isEmpty then t.complete lock attempt else t
    | none => t
  | none => t

/-- Strike a node from those that have to consent to the attempt on a lock. -/
def strike (t : Arbitrator) (lock : Lock) (node : NodeName) : Arbitrator :=
  { t with
    attempts := t.attempts.modify lock fun attempt =>
      { attempt with ratifiers := attempt.ratifiers.map (·.erase node) } }

/-- A subscriber consents to an attempt. -/
def ratify (t : Arbitrator) (node : NodeName) (lock : Lock) (acquire : Bool) : Arbitrator :=
  match t.attempts[lock]? with
  | some attempt =>
    if attempt.acquire = acquire ∧ attempt.isLocal then (t.strike lock node).completeIfReady lock
    else t
  | none => t

/-- The time for an attempt of the given generation is up. -/
def timeout (t : Arbitrator) (lock : Lock) (generation : Nat) : Arbitrator :=
  match t.attempts[lock]? with
  | some attempt =>
    if attempt.generation = generation ∧ attempt.isLocal then
      { t with stats := { t.stats with timeouts := t.stats.timeouts + 1 } }.complete lock attempt
    else t
  | none => t

/-- A node follows this one from now on. -/
def addSubscriber (t : Arbitrator) (node : NodeName) : Arbitrator :=
  { t with subscribers := t.subscribers.insert node }

/-- The locks whose attempt waits for the consent of a node. -/
def awaiting (t : Arbitrator) (node : NodeName) : List Lock :=
  (t.attempts.toList.filter fun entry =>
    match entry.2.ratifiers with
    | some ratifiers => ratifiers.contains node
    | none => false).map Prod.fst

/-- A node no longer follows this one, which counts as its consent. -/
def removeSubscriber (t : Arbitrator) (node : NodeName) : Arbitrator :=
  let locks := t.awaiting node
  let t := { t with subscribers := t.subscribers.erase node }
  let t := locks.foldl (fun t lock => t.strike lock node) t
  locks.foldl completeIfReady t

/-! ## News from peers -/

/-- A peer tries to acquire a lock. -/
def peerAcquiring (t : Arbitrator) (peer : NodeName) (lock : Lock) : Arbitrator :=
  match t.owner lock with
  | some _ => t
  | none =>
    match t.attempts[lock]? with
    | none => t.follow peer lock true []
    | some attempt =>
      if attempt.node = peer ∨ t.outranks attempt.node peer then t
      else (t.drop lock).follow peer lock true attempt.waiters

/-- A peer tries to release a lock. -/
def peerReleasing (t : Arbitrator) (peer : NodeName) (lock : Lock) : Arbitrator :=
  if t.owner lock = some peer ∧ lock ∉ t.attempts then t.follow peer lock false [] else t

/-- Note a lock as a peer's. -/
def notePeerLock (t : Arbitrator) (peer : NodeName) (lock : Lock) : Arbitrator :=
  { t with peerLocks := t.peerLocks.insert peer ((t.peerLocks[peer]?.getD ∅).insert lock) }

/-- Give up a lock that another node took. -/
def surrender (t : Arbitrator) (lock : Lock) : Arbitrator :=
  if lock ∈ t.held then
    ({ t with
      held := t.held.erase lock
      stats := { t.stats with hijacked := t.stats.hijacked + 1 } }.emit
        (.publish (.removed lock))).emit (.lost lock)
  else t

/-- A peer holds a lock. -/
def peerAdded (t : Arbitrator) (peer : NodeName) (lock : Lock) : Arbitrator :=
  let t := (t.notePeerLock peer lock).surrender lock
  match t.attempts[lock]? with
  | some attempt => t.settle lock attempt (some peer)
  | none => t

/-- A peer keeps a lock it had started to release. -/
def peerKept (t : Arbitrator) (peer : NodeName) (lock : Lock) : Arbitrator :=
  match t.attempts[lock]? with
  | some attempt =>
    if attempt.node = peer ∧ attempt.acquire = false then t.settle lock attempt (some peer) else t
  | none => t

/-- A peer no longer holds a lock. -/
def peerRemoved (t : Arbitrator) (peer : NodeName) (lock : Lock) : Arbitrator :=
  let t := { t with peerLocks := t.peerLocks.modify peer (·.erase lock) }
  match t.attempts[lock]? with
  | some attempt => if attempt.node = peer then t.settle lock attempt none else t
  | none => t

/-- This node follows a peer from now on, which holds the given locks. -/
def peerSubscribed (t : Arbitrator) (peer : NodeName) (locks : LockSet) : Arbitrator :=
  locks.toList.foldl (fun t lock => t.peerAdded peer lock)
    { t with peerLocks := t.peerLocks.insert peer ∅ }

/-- End the release of a lock by a peer that went away: the lock is free. -/
def freeOfPeer (peer : NodeName) (t : Arbitrator) (lock : Lock) : Arbitrator :=
  match t.attempts[lock]? with
  | some attempt => if attempt.node = peer then t.settle lock attempt none else t
  | none => t

/-- End the attempt on a lock of a peer that went away: it failed. -/
def failOfPeer (t : Arbitrator) (lock : Lock) : Arbitrator :=
  match t.attempts[lock]? with
  | some attempt => t.abandon lock attempt .peerUnavailable
  | none => t

/-- The locks that a node tries to acquire or release. -/
def attemptsOf (t : Arbitrator) (node : NodeName) : List Lock :=
  (t.attempts.toList.filter fun entry => entry.2.node = node).map Prod.fst

/-- This node no longer follows a peer. Its locks are forgotten, what it was releasing is free, and
what it was acquiring has failed. -/
def peerDisconnected (t : Arbitrator) (peer : NodeName) : Arbitrator :=
  let locks := (t.peerLocks[peer]?.getD ∅).toList
  let t := locks.foldl (freeOfPeer peer) { t with peerLocks := t.peerLocks.erase peer }
  (t.attemptsOf peer).foldl failOfPeer t

/-- End every attempt; the node goes away. -/
def shutDown (t : Arbitrator) : Arbitrator :=
  t.attempts.keys.foldl
    (fun t lock => match t.attempts[lock]? with
      | some attempt => t.abandon lock attempt .shutDown
      | none => t) t

/-- Hand out what is to be done. -/
def takeOutbox (t : Arbitrator) : List LockEffect × Arbitrator :=
  (t.outbox, { t with outbox := [] })

end Arbitrator

/-! ## Everything that can happen -/

/-- What can happen to an arbitrator. -/
inductive LockOp where
  | acquire (lock : Lock) (ticket : Ticket)
  | release (lock : Lock) (ticket : Ticket)
  | query (lock : Lock) (ticket : Ticket)
  | reacquire (lock : Lock)
  | ratify (node : NodeName) (lock : Lock) (acquire : Bool)
  | timeout (lock : Lock) (generation : Nat)
  | addSubscriber (node : NodeName)
  | removeSubscriber (node : NodeName)
  | peerAcquiring (peer : NodeName) (lock : Lock)
  | peerReleasing (peer : NodeName) (lock : Lock)
  | peerAdded (peer : NodeName) (lock : Lock)
  | peerKept (peer : NodeName) (lock : Lock)
  | peerRemoved (peer : NodeName) (lock : Lock)
  | peerSubscribed (peer : NodeName) (locks : LockSet)
  | peerDisconnected (peer : NodeName)
  | setPrecedence (outranks : Precedence)
  | shutDown

/-- The arbitrator after something happened. -/
def Arbitrator.step (t : Arbitrator) : LockOp → Arbitrator
  | .acquire lock ticket => t.acquire lock ticket
  | .release lock ticket => t.release lock ticket
  | .query lock ticket => t.query lock ticket
  | .reacquire lock => t.reacquire lock
  | .ratify node lock acquire => t.ratify node lock acquire
  | .timeout lock generation => t.timeout lock generation
  | .addSubscriber node => t.addSubscriber node
  | .removeSubscriber node => t.removeSubscriber node
  | .peerAcquiring peer lock => t.peerAcquiring peer lock
  | .peerReleasing peer lock => t.peerReleasing peer lock
  | .peerAdded peer lock => t.peerAdded peer lock
  | .peerKept peer lock => t.peerKept peer lock
  | .peerRemoved peer lock => t.peerRemoved peer lock
  | .peerSubscribed peer locks => t.peerSubscribed peer locks
  | .peerDisconnected peer => t.peerDisconnected peer
  | .setPrecedence outranks => { t with outranks }
  | .shutDown => t.shutDown

/-- What a peer's event means for the locks; news about caches means nothing. -/
def LockOp.ofEvent? (peer : NodeName) : NodeEvent → Option LockOp
  | .acquiring lock => some (.peerAcquiring peer lock)
  | .releasing lock => some (.peerReleasing peer lock)
  | .added lock => some (.peerAdded peer lock)
  | .kept lock => some (.peerKept peer lock)
  | .removed lock => some (.peerRemoved peer lock)
  | .cacheData _ _ => none

end Cohort

import Cohort.Proofs.Lock.Announcements

/-!
# Two arbitrators that are alike for one lock

Two nodes may have different things to do with all other locks, and have made different numbers of
attempts. As long as they agree about one lock, every operation on that lock does the same to both,
but for the numbers of the attempts that it begins. What one of them does about other locks makes no
difference to the other one.

## Main definitions

* `LockEffect.isAbout`: whether an effect is about a lock, or answers somebody who asked for it.
* `Arbitrator.Numbered`: the numbers that one arbitrator gives to its attempts on a lock, among
  those of all its attempts, are counted by the other one.
* `Arbitrator.Alike`: two arbitrators agree about a lock.

## Main statements

* `Arbitrator.Alike.acquire` and the like, for every operation on that lock.
* `Arbitrator.Alike.apart`: what one of them does about another lock.
-/

namespace Cohort

/-- The lock that an event is about. -/
def NodeEvent.lock? : NodeEvent → Option Lock
  | .acquiring lock | .releasing lock | .added lock | .kept lock | .removed lock => some lock
  | .cacheData _ _ => none

/-- Whether an effect is about a lock, or answers a caller that asked for it. -/
def LockEffect.isAbout (lock : Lock) (issued : List (Lock × Ticket)) : LockEffect → Bool
  | .publish event => event.lock? = some lock
  | .ratify _ other _ | .startTimer other _ | .lost other => other = lock
  | .answer ticket _ => (lock, ticket) ∈ issued

/-- An attempt under another number. -/
abbrev Attempt.under (attempt : Attempt) (generation : Nat) : Attempt := { attempt with generation }

theorem Attempt.isLocal_under (attempt : Attempt) (generation : Nat) :
    (attempt.under generation).isLocal = attempt.isLocal := rfl

namespace Arbitrator

variable {lock other : Lock} {issued : List (Lock × Ticket)} {born later : List Nat}
  {t t' s s' : Arbitrator} {attempt : Attempt} {generation number : Nat} {ticket : Ticket}
  {effect effect' : LockEffect} {asked : List Ticket}

/-- The attempts on a lock have numbers among those of all attempts. In the order in which they
began they are numbered from one. -/
def Numbered (born : List Nat) (generation number : Nat) : Prop :=
  ∃ place, born[place]? = some generation ∧ number = place + 1

theorem Numbered.append (numbered : Numbered born generation number) (later : List Nat) :
    Numbered (born ++ later) generation number := by
  obtain ⟨place, there, rfl⟩ := numbered
  exact ⟨place, List.getElem?_append_left (List.getElem?_eq_some_iff.1 there).1 ▸ there, rfl⟩

theorem numbered_last (born : List Nat) (generation : Nat) :
    Numbered (born ++ [generation]) generation (born.length + 1) :=
  ⟨born.length, List.getElem?_concat_length, rfl⟩

/-- Effects are the same but for the number of the attempt that a timer is for. -/
inductive SameEffect (born : List Nat) : LockEffect → LockEffect → Prop
  | same {effect : LockEffect} (untimed : ∀ lock generation, effect ≠ .startTimer lock generation) :
    SameEffect born effect effect
  | timer (lock : Lock) {generation number : Nat} (numbered : Numbered born generation number) :
    SameEffect born (.startTimer lock generation) (.startTimer lock number)

theorem SameEffect.append (same : SameEffect born effect effect') (later : List Nat) :
    SameEffect (born ++ later) effect effect' := by
  cases same with
  | same untimed => exact .same untimed
  | timer lock numbered => exact .timer lock (numbered.append later)

/-- Two arbitrators agree about a lock. The first one began its attempts on it under the numbers
`born`; the second one has made no other attempts. -/
structure Alike (lock : Lock) (issued : List (Lock × Ticket)) (born : List Nat)
    (t s : Arbitrator) : Prop where
  node : s.node = t.node
  outranks : s.outranks = t.outranks
  subscribers : s.subscribers = t.subscribers
  held : lock ∈ s.held ↔ lock ∈ t.held
  record : ∀ peer : NodeName, lock ∈ s.peerLocks[peer]?.getD ∅ ↔ lock ∈ t.peerLocks[peer]?.getD ∅
  attempts : t.attempts[lock]? = none ∧ s.attempts[lock]? = none ∨
    ∃ attempt number, t.attempts[lock]? = some attempt ∧
      s.attempts[lock]? = some (attempt.under number) ∧ Numbered born attempt.generation number
  outbox : List.Forall₂ (SameEffect born) (t.outbox.filter (·.isAbout lock issued)) s.outbox
  generation : s.generation = born.length
  recent : ∀ number ∈ born, number ≤ t.generation
  increasing : born.Pairwise (· < ·)

/-- The second arbitrator may have begun further attempts on the lock. -/
def Abreast (lock : Lock) (issued : List (Lock × Ticket)) (born : List Nat) (t s : Arbitrator) :
    Prop :=
  ∃ later, Alike lock issued (born ++ later) t s

/-- Callers wait for the lock that they asked for. -/
def Filed (issued : List (Lock × Ticket)) (t : Arbitrator) : Prop :=
  ∀ lock, ∀ ticket ∈ ticketsOf (t.callers lock), (lock, ticket) ∈ issued

namespace Filed

/-- Whoever waits on the attempt asked for the lock. -/
theorem asks (filed : t.Filed issued) (current : t.attempts[lock]? = some attempt) :
    ∀ waiter ∈ attempt.waiters, (lock, waiter.ticket) ∈ issued := by
  intro waiter there
  refine filed lock waiter.ticket ?_
  rw [callers_of_attempt current]
  exact List.mem_map_of_mem there

theorem congr (filed : t.Filed issued) (attempts : t'.attempts = t.attempts) :
    t'.Filed issued := by
  intro lock ticket waits
  rw [callers_congr (congrArg (·[lock]?) attempts)] at waits
  exact filed lock ticket waits

theorem strike (filed : t.Filed issued) (node : NodeName) :
    (t.strike other node).Filed issued := by
  intro lock ticket there
  rw [callers_strike] at there
  exact filed lock ticket there

/-- Whoever waits for a lock that is handled waited for it or asked for it. -/
theorem handled (filed : t.Filed issued) (handles : t.Handles other asked t')
    (ask : ∀ ticket ∈ asked, (other, ticket) ∈ issued) : t'.Filed issued := by
  intro lock ticket waits
  by_cases same : lock = other
  · subst same
    have grows : t.answered.count ticket ≤ t'.answered.count ticket := by
      obtain ⟨effects, outbox, -⟩ := handles.outbox
      simp [answered, outbox, List.filterMap_append]
    have tally := handles.tally ticket
    simp only [Arbitrator.tally] at tally
    have waits := List.count_pos_iff.2 waits
    by_cases asks : ticket ∈ asked
    · exact ask ticket asks
    · have none := List.count_eq_zero.2 asks
      exact filed lock ticket (List.count_pos_iff.1 (by omega))
  · rw [callers_congr (handles.elsewhere lock same).1] at waits
    exact filed lock ticket waits

end Filed

namespace Alike

theorem abreast (alike : Alike lock issued born t s) : Abreast lock issued born t s :=
  ⟨[], by rwa [List.append_nil]⟩

end Alike

/-- What keeps two arbitrators abreast that are alike, keeps them abreast that are abreast. -/
theorem Abreast.bind (abreast : Abreast lock issued born t s)
    (next : ∀ born, Alike lock issued born t s → Abreast lock issued born t' s') :
    Abreast lock issued born t' s' := by
  obtain ⟨later, alike⟩ := abreast
  obtain ⟨later', alike'⟩ := next _ alike
  exact ⟨later ++ later', by rwa [← List.append_assoc]⟩

/-! ## What is known of the owner -/

/-- The peers that hold a lock, as far as the node knows, in the order of their names. -/
def keepers (t : Arbitrator) (lock : Lock) : List NodeName :=
  (t.peerLocks.toList.filter fun entry => entry.2.contains lock).map Prod.fst

theorem owner_eq (t : Arbitrator) (lock : Lock) :
    t.owner lock = if lock ∈ t.held then some t.node else (t.keepers lock).head? := by
  rw [owner, keepers, List.head?_map, List.head?_filter]

theorem mem_keepers {peer : NodeName} :
    peer ∈ t.keepers lock ↔ lock ∈ t.peerLocks[peer]?.getD ∅ := by
  simp only [keepers, List.mem_map, List.mem_filter, Prod.exists, exists_and_right, exists_eq_right,
    Std.ExtTreeMap.mem_toList_iff_getElem?_eq_some, Std.ExtTreeSet.contains_iff_mem]
  cases t.peerLocks[peer]? with
  | none => simp
  | some locks => simp

theorem keepers_ordered (t : Arbitrator) (lock : Lock) :
    (t.keepers lock).Pairwise fun peer peer' => compare peer peer' = .lt :=
  List.pairwise_map.2 (t.peerLocks.ordered_keys_toList.sublist List.filter_sublist)

/-- Names in order are determined by which of them there are. -/
theorem eq_of_ordered {names names' : List NodeName}
    (ordered : names.Pairwise fun peer peer' => compare peer peer' = .lt)
    (ordered' : names'.Pairwise fun peer peer' => compare peer peer' = .lt)
    (same : ∀ peer, peer ∈ names ↔ peer ∈ names') : names = names' := by
  have distinct : ∀ peer peer' : NodeName, compare peer peer' = .lt → peer ≠ peer' := by
    rintro peer _ before rfl
    cases before.symm.trans Std.ReflCmp.compare_self
  refine List.Perm.eq_of_pairwise (fun peer peer' _ _ before after => ?_) ordered ordered'
    ((List.perm_ext_iff_of_nodup (ordered.imp fun {_ _} => distinct _ _)
      (ordered'.imp fun {_ _} => distinct _ _)).2 same)
  rw [← Std.OrientedCmp.gt_iff_lt, before] at after
  cases after

theorem Alike.owner (alike : Alike lock issued born t s) : s.owner lock = t.owner lock := by
  have same : s.keepers lock = t.keepers lock :=
    eq_of_ordered (s.keepers_ordered lock) (t.keepers_ordered lock) fun peer => by
      rw [mem_keepers, mem_keepers, alike.record]
  rw [owner_eq, owner_eq, same, alike.node]
  simp only [alike.held]

/-! ## Steps shared by the operations -/

namespace Alike

/-- Both want the same done. -/
theorem emit (alike : Alike lock issued born t s) (same : SameEffect born effect effect')
    (about : effect.isAbout lock issued = true) :
    Alike lock issued born (t.emit effect) (s.emit effect') :=
  { alike with
    outbox := by
      rw [Arbitrator.emit, List.filter_append, List.filter_singleton, about]
      exact List.rel_append alike.outbox (.cons same .nil) }

theorem publish (alike : Alike lock issued born t s) {event : NodeEvent}
    (about : event.lock? = some lock) :
    Alike lock issued born (t.emit (.publish event)) (s.emit (.publish event)) :=
  alike.emit (.same nofun) (decide_eq_true about)

theorem answer (alike : Alike lock issued born t s) (asks : (lock, ticket) ∈ issued)
    (reply : LockReply) : Alike lock issued born (t.answer ticket reply) (s.answer ticket reply) :=
  alike.emit (.same nofun) (decide_eq_true asks)

theorem gain (alike : Alike lock issued born t s) :
    Alike lock issued born (t.gain lock) (s.gain lock) := by
  refine publish ?_ rfl
  exact { alike with held := by simp }

theorem relinquish (alike : Alike lock issued born t s) :
    Alike lock issued born (t.relinquish lock) (s.relinquish lock) := by
  refine publish ?_ rfl
  exact { alike with held := by simp }

theorem drop (alike : Alike lock issued born t s) :
    Alike lock issued born (t.drop lock) (s.drop lock) :=
  { alike with attempts := .inl (by simp [Arbitrator.drop]) }

/-- A caller comes to wait on both attempts. -/
theorem enqueue (alike : Alike lock issued born t s)
    (numbered : Numbered born attempt.generation number) (waiter : Waiter) :
    Alike lock issued born (t.enqueue lock attempt waiter)
      (s.enqueue lock (attempt.under number) waiter) :=
  { alike with
    attempts := .inr ⟨{ attempt with waiters := attempt.waiters ++ [waiter] }, number,
      by simp [Arbitrator.enqueue], by simp [Arbitrator.enqueue, Attempt.under], numbered⟩ }

/-- Both begin an attempt, each under its next number. -/
theorem startAttempt (alike : Alike lock issued born t s) (node : NodeName) (acquire : Bool)
    (ratifiers : Option NameSet) (waiters : List Waiter) :
    Alike lock issued (born ++ [t.generation + 1])
      (t.startAttempt lock node acquire ratifiers waiters)
      (s.startAttempt lock node acquire ratifiers waiters) where
  node := alike.node
  outranks := alike.outranks
  subscribers := alike.subscribers
  held := alike.held
  record := alike.record
  attempts := by
    refine .inr ⟨⟨node, acquire, ratifiers, waiters, t.generation + 1⟩, s.generation + 1,
      ?_, ?_, ?_⟩
    · simp [Arbitrator.startAttempt]
    · simp [Arbitrator.startAttempt, Attempt.under]
    · rw [alike.generation]
      exact numbered_last born _
  outbox := alike.outbox.imp fun _ _ same => same.append _
  generation := by simp [Arbitrator.startAttempt, alike.generation]
  recent := by
    intro number there
    obtain before | now := List.mem_append.1 there
    · exact (alike.recent number before).trans (Nat.le_succ _)
    · rw [List.mem_singleton.1 now]
      exact Nat.le_refl _
  increasing := by
    refine List.pairwise_append.2 ⟨alike.increasing, List.pairwise_singleton _ _, ?_⟩
    intro number before _ now
    rw [List.mem_singleton.1 now]
    exact Nat.lt_succ_of_le (alike.recent number before)

theorem beginLocal (alike : Alike lock issued born t s) (acquire : Bool) (ticket : Ticket) :
    Abreast lock issued born (t.beginLocal lock acquire ticket)
      (s.beginLocal lock acquire ticket) := by
  have announced : Alike lock issued born
      (t.emit (.publish (if acquire then .acquiring lock else .releasing lock)))
      (s.emit (.publish (if acquire then .acquiring lock else .releasing lock))) :=
    alike.publish (by cases acquire <;> rfl)
  have begun := announced.startAttempt t.node acquire (some t.subscribers) [⟨.outcome, ticket⟩]
  have numbered : Numbered (born ++ [t.generation + 1]) (t.generation + 1) (s.generation + 1) := by
    rw [alike.generation]
    exact numbered_last born _
  refine ⟨[t.generation + 1], ?_⟩
  have timed := begun.emit (.timer lock numbered) (decide_eq_true rfl)
  simp only [Arbitrator.beginLocal]
  rwa [show (s.emit _).node = t.node from alike.node,
    show (s.emit _).subscribers = t.subscribers from alike.subscribers]

theorem follow (alike : Alike lock issued born t s) (peer : NodeName) (acquire : Bool)
    (waiters : List Waiter) :
    Abreast lock issued born (t.follow peer lock acquire waiters)
      (s.follow peer lock acquire waiters) :=
  ⟨[t.generation + 1], (alike.startAttempt peer acquire none waiters).emit (.same nofun)
    (decide_eq_true rfl)⟩

/-! ## Requests of callers -/

theorem query (alike : Alike lock issued born t s) (asks : (lock, ticket) ∈ issued) :
    Alike lock issued born (t.query lock ticket) (s.query lock ticket) := by
  unfold Arbitrator.query
  obtain ⟨idle, idle'⟩ | ⟨attempt, number, current, current', numbered⟩ := alike.attempts
  · rw [idle, idle']
    dsimp only
    rw [alike.owner]
    exact alike.answer asks _
  · rw [current, current']
    exact alike.enqueue numbered _

theorem acquire (alike : Alike lock issued born t s) (asks : (lock, ticket) ∈ issued) :
    Abreast lock issued born (t.acquire lock ticket) (s.acquire lock ticket) := by
  unfold Arbitrator.acquire
  obtain ⟨idle, idle'⟩ | ⟨attempt, number, current, current', numbered⟩ := alike.attempts
  · rw [idle, idle', alike.owner, alike.subscribers, alike.node]
    dsimp only
    split
    next => exact (alike.answer asks _).abreast
    next =>
      split
      next => exact (alike.gain.answer asks _).abreast
      next => exact alike.beginLocal true ticket
  · rw [current, current']
    exact (alike.enqueue numbered _).abreast

theorem release (alike : Alike lock issued born t s) (asks : (lock, ticket) ∈ issued) :
    Abreast lock issued born (t.release lock ticket) (s.release lock ticket) := by
  unfold Arbitrator.release
  obtain ⟨idle, idle'⟩ | ⟨attempt, number, current, current', numbered⟩ := alike.attempts
  · rw [idle, idle', alike.owner, alike.subscribers]
    simp only [alike.held]
    split
    next =>
      split
      next => exact (alike.relinquish.answer asks _).abreast
      next => exact alike.beginLocal false ticket
    next => exact (alike.answer asks _).abreast
  · rw [current, current']
    exact (alike.enqueue numbered _).abreast

/-! ## Attempts that end -/

theorem serve (alike : Alike lock issued born t s) (owner : Option NodeName) {waiter : Waiter}
    (asks : (lock, waiter.ticket) ∈ issued) :
    Abreast lock issued born (serve lock owner t waiter) (serve lock owner s waiter) := by
  unfold Arbitrator.serve
  split
  next => exact alike.acquire asks
  next =>
    rw [alike.node]
    split
    next => exact alike.release asks
    next => exact (alike.answer asks _).abreast
  next => exact (alike.answer asks _).abreast

theorem resolve (alike : Alike lock issued born t s) (owner : Option NodeName)
    (waiters : List Waiter) (ask : ∀ waiter ∈ waiters, (lock, waiter.ticket) ∈ issued) :
    Abreast lock issued born (t.resolve lock owner waiters) (s.resolve lock owner waiters) := by
  induction waiters generalizing born t s with
  | nil => exact alike.abreast
  | cons waiter waiters ih =>
    exact (alike.serve owner (ask waiter List.mem_cons_self)).bind fun _ alike =>
      ih alike fun other there => ask other (List.mem_cons_of_mem _ there)

theorem failAll (alike : Alike lock issued born t s) (failure : Failure) (waiters : List Waiter)
    (ask : ∀ waiter ∈ waiters, (lock, waiter.ticket) ∈ issued) :
    Alike lock issued born (t.failAll failure waiters) (s.failAll failure waiters) := by
  induction waiters generalizing t s with
  | nil => exact alike
  | cons waiter waiters ih =>
    exact ih (alike.answer (ask waiter List.mem_cons_self) _) fun other there =>
      ask other (List.mem_cons_of_mem _ there)

theorem settle (alike : Alike lock issued born t s) (filed : t.Filed issued)
    (current : t.attempts[lock]? = some attempt) (owner : Option NodeName) (number : Nat) :
    Abreast lock issued born (t.settle lock attempt owner)
      (s.settle lock (attempt.under number) owner) :=
  alike.drop.resolve owner attempt.waiters (filed.asks current)

theorem abandon (alike : Alike lock issued born t s) (filed : t.Filed issued)
    (current : t.attempts[lock]? = some attempt) (failure : Failure) (number : Nat) :
    Alike lock issued born (t.abandon lock attempt failure)
      (s.abandon lock (attempt.under number) failure) :=
  alike.drop.failAll failure attempt.waiters (filed.asks current)

theorem reacquire (alike : Alike lock issued born t s) (filed : t.Filed issued) :
    Abreast lock issued born (t.reacquire lock) (s.reacquire lock) := by
  unfold Arbitrator.reacquire
  obtain ⟨idle, idle'⟩ | ⟨attempt, number, current, current', -⟩ := alike.attempts
  · rw [idle, idle']
    exact alike.abreast
  · simp only [current, current', alike.node, Attempt.isLocal_under]
    split
    · exact (alike.drop.publish rfl).resolve _ attempt.waiters (filed.asks current)
    · exact alike.abreast

theorem complete (alike : Alike lock issued born t s) (filed : t.Filed issued)
    (current : t.attempts[lock]? = some attempt) (number : Nat) :
    Abreast lock issued born (t.complete lock attempt)
      (s.complete lock (attempt.under number)) := by
  have ask := filed.asks current
  simp only [Arbitrator.complete]
  rw [show (s.drop lock).node = (t.drop lock).node from alike.node]
  split
  · exact alike.drop.gain.resolve _ attempt.waiters ask
  · exact alike.drop.relinquish.resolve _ attempt.waiters ask

theorem completeIfReady (alike : Alike lock issued born t s) (filed : t.Filed issued) :
    Abreast lock issued born (t.completeIfReady lock) (s.completeIfReady lock) := by
  unfold Arbitrator.completeIfReady
  obtain ⟨idle, idle'⟩ | ⟨attempt, number, current, current', -⟩ := alike.attempts
  · rw [idle, idle']
    exact alike.abreast
  · simp only [current, current']
    split
    · split
      · exact alike.complete filed current number
      · exact alike.abreast
    · exact alike.abreast

/-! ## Consent and time -/

theorem strike (alike : Alike lock issued born t s) (node : NodeName) :
    Alike lock issued born (t.strike lock node) (s.strike lock node) := by
  refine { alike with attempts := ?_ }
  simp only [Arbitrator.strike, Std.ExtTreeMap.getElem?_modify_self]
  obtain ⟨idle, idle'⟩ | ⟨attempt, number, current, current', numbered⟩ := alike.attempts
  · exact .inl (by simp [idle, idle'])
  · rw [current, current']
    exact .inr ⟨_, number, rfl, rfl, numbered⟩

theorem ratify (alike : Alike lock issued born t s) (filed : t.Filed issued) (node : NodeName)
    (acquire : Bool) :
    Abreast lock issued born (t.ratify node lock acquire) (s.ratify node lock acquire) := by
  unfold Arbitrator.ratify
  obtain ⟨idle, idle'⟩ | ⟨attempt, number, current, current', -⟩ := alike.attempts
  · rw [idle, idle']
    exact alike.abreast
  · rw [current, current']
    dsimp only
    have same : (attempt.under number).acquire = acquire ∧ (attempt.under number).isLocal = true ↔
        attempt.acquire = acquire ∧ attempt.isLocal = true := Iff.rfl
    rw [if_congr same rfl rfl]
    split
    · exact (alike.strike node).completeIfReady (filed.strike node)
    · exact alike.abreast

/-- Time is up for an attempt in both, or in none of them. -/
theorem timeout (alike : Alike lock issued born t s) (filed : t.Filed issued)
    {generation generation' : Nat}
    (same : ∀ g number, Numbered born g number → (number = generation' ↔ g = generation)) :
    Abreast lock issued born (t.timeout lock generation) (s.timeout lock generation') := by
  unfold Arbitrator.timeout
  obtain ⟨idle, idle'⟩ | ⟨attempt, number, current, current', numbered⟩ := alike.attempts
  · rw [idle, idle']
    exact alike.abreast
  · simp only [current, current', Attempt.isLocal_under, same _ _ numbered]
    split
    · have counted : Alike lock issued born
          { t with stats := { t.stats with timeouts := t.stats.timeouts + 1 } }
          { s with stats := { s.stats with timeouts := s.stats.timeouts + 1 } } := { alike with }
      exact counted.complete filed current number
    · exact alike.abreast

/-! ## News from peers -/

theorem peerAcquiring (alike : Alike lock issued born t s) (peer : NodeName) :
    Abreast lock issued born (t.peerAcquiring peer lock) (s.peerAcquiring peer lock) := by
  unfold Arbitrator.peerAcquiring
  rw [alike.owner]
  split
  · exact alike.abreast
  · obtain ⟨idle, idle'⟩ | ⟨attempt, number, current, current', -⟩ := alike.attempts
    · rw [idle, idle']
      exact alike.follow peer true []
    · simp only [current, current', alike.outranks]
      split
      · exact alike.abreast
      · exact alike.drop.follow peer true attempt.waiters

theorem mem_attempts_iff (alike : Alike lock issued born t s) :
    lock ∈ s.attempts ↔ lock ∈ t.attempts := by
  rw [Std.ExtTreeMap.mem_iff_isSome_getElem?, Std.ExtTreeMap.mem_iff_isSome_getElem?]
  obtain ⟨idle, idle'⟩ | ⟨attempt, number, current, current', -⟩ := alike.attempts
  · rw [idle, idle']
  · rw [current, current']
    exact Iff.rfl

theorem peerReleasing (alike : Alike lock issued born t s) (peer : NodeName) :
    Abreast lock issued born (t.peerReleasing peer lock) (s.peerReleasing peer lock) := by
  unfold Arbitrator.peerReleasing
  rw [alike.owner]
  simp only [alike.mem_attempts_iff]
  split
  · exact alike.follow peer false []
  · exact alike.abreast

theorem surrender (alike : Alike lock issued born t s) :
    Alike lock issued born (t.surrender lock) (s.surrender lock) := by
  unfold Arbitrator.surrender
  simp only [alike.held]
  split
  · refine emit (publish ?_ rfl) (.same nofun) (decide_eq_true rfl)
    exact { alike with held := by simp }
  · exact alike

theorem notePeerLock (alike : Alike lock issued born t s) (peer : NodeName) :
    Alike lock issued born (t.notePeerLock peer lock) (s.notePeerLock peer lock) :=
  { alike with
    record := fun other => by
      have noted : ∀ u : Arbitrator, lock ∈ (u.notePeerLock peer lock).peerLocks[other]?.getD ∅ ↔
          other = peer ∨ lock ∈ u.peerLocks[other]?.getD ∅ := by
        intro u
        rw [← mem_knows, standing_notePeerLock_self]
        rfl
      rw [noted, noted, alike.record] }

theorem forgetPeerLock (alike : Alike lock issued born t s) (peer : NodeName) :
    Alike lock issued born (t.forgetPeerLock peer lock) (s.forgetPeerLock peer lock) :=
  { alike with
    record := fun other => by
      have forgotten : ∀ u : Arbitrator,
          lock ∈ (u.forgetPeerLock peer lock).peerLocks[other]?.getD ∅ ↔
            lock ∈ u.peerLocks[other]?.getD ∅ ∧ other ≠ peer := by
        intro u
        rw [← mem_knows, standing_forgetPeerLock_self]
        rfl
      rw [forgotten, forgotten, alike.record] }

theorem peerAdded (alike : Alike lock issued born t s) (filed : t.Filed issued) (peer : NodeName) :
    Abreast lock issued born (t.peerAdded peer lock) (s.peerAdded peer lock) := by
  have noted := (alike.notePeerLock peer).surrender
  have filed' : ((t.notePeerLock peer lock).surrender lock).Filed issued :=
    filed.congr attempts_surrender
  unfold Arbitrator.peerAdded
  obtain ⟨idle, idle'⟩ | ⟨attempt, number, current, current', -⟩ := noted.attempts
  · simp only [idle, idle']
    exact noted.abreast
  · simp only [current, current']
    exact noted.settle filed' current _ number

theorem peerKept (alike : Alike lock issued born t s) (filed : t.Filed issued) (peer : NodeName) :
    Abreast lock issued born (t.peerKept peer lock) (s.peerKept peer lock) := by
  unfold Arbitrator.peerKept
  obtain ⟨idle, idle'⟩ | ⟨attempt, number, current, current', -⟩ := alike.attempts
  · rw [idle, idle']
    exact alike.abreast
  · simp only [current, current']
    split
    · exact alike.settle filed current _ number
    · exact alike.abreast

theorem freeOfPeer (alike : Alike lock issued born t s) (filed : t.Filed issued) (peer : NodeName) :
    Abreast lock issued born (t.freeOfPeer peer lock) (s.freeOfPeer peer lock) := by
  unfold Arbitrator.freeOfPeer
  obtain ⟨idle, idle'⟩ | ⟨attempt, number, current, current', -⟩ := alike.attempts
  · rw [idle, idle']
    exact alike.abreast
  · simp only [current, current']
    split
    · exact alike.settle filed current _ number
    · exact alike.abreast

/-- With a lock, a peer gives up what it was doing about it. -/
theorem peerRemoved (alike : Alike lock issued born t s) (filed : t.Filed issued)
    (peer : NodeName) :
    Abreast lock issued born (t.peerRemoved peer lock) (s.peerRemoved peer lock) :=
  (alike.forgetPeerLock peer).freeOfPeer (t := t.forgetPeerLock peer lock) filed peer

theorem failOfPeer (alike : Alike lock issued born t s) (filed : t.Filed issued) :
    Alike lock issued born (t.failOfPeer lock) (s.failOfPeer lock) := by
  unfold Arbitrator.failOfPeer
  obtain ⟨idle, idle'⟩ | ⟨attempt, number, current, current', -⟩ := alike.attempts
  · rw [idle, idle']
    exact alike
  · rw [current, current']
    exact alike.abandon filed current _ number

theorem endAttempt (alike : Alike lock issued born t s) (filed : t.Filed issued) :
    Alike lock issued born (t.endAttempt lock) (s.endAttempt lock) := by
  unfold Arbitrator.endAttempt
  obtain ⟨idle, idle'⟩ | ⟨attempt, number, current, current', -⟩ := alike.attempts
  · rw [idle, idle']
    exact alike
  · rw [current, current']
    exact alike.abandon filed current _ number

/-! ## What one of them does about another lock -/

/-- What is done about another lock is not about this one. -/
theorem isAbout_eq_false (ne : lock ≠ other) (proceeds : t.Proceeds other t')
    (handles : t.Handles other asked t')
    (foreign : ∀ ticket ∈ ticketsOf (t.callers other) ++ asked, (lock, ticket) ∉ issued) :
    ∃ effects, t'.outbox = t.outbox ++ effects ∧
      ∀ effect ∈ effects, effect.isAbout lock issued = false := by
  obtain ⟨effects, grown, timers, -⟩ := proceeds.outbox
  obtain ⟨effects', grown', quiet⟩ := handles.outbox
  obtain rfl : effects' = effects := List.append_cancel_left (grown'.symm.trans grown)
  refine ⟨effects', grown, fun effect there => ?_⟩
  have silent := quiet lock ne effect there
  cases effect with
  | answer ticket reply =>
    exact decide_eq_false (foreign ticket (handles.mem_of_answered grown there))
  | startTimer lock' generation =>
    obtain rfl := timers _ _ there
    exact decide_eq_false ne.symm
  | publish event =>
    refine decide_eq_false fun about => ?_
    cases event <;> simp_all [LockEffect.saying?, NodeEvent.signal?, NodeEvent.lock?]
  | ratify peer lock' acquire =>
    refine decide_eq_false fun about => ?_
    simp [LockEffect.saying?, about] at silent
  | lost lock' =>
    refine decide_eq_false fun about => ?_
    simp [LockEffect.saying?, about] at silent

/-- What one of two arbitrators does about another lock makes no difference to the other one. -/
theorem apart (alike : Alike lock issued born t s) (ne : lock ≠ other)
    (proceeds : t.Proceeds other t') (handles : t.Handles other asked t')
    (foreign : ∀ ticket ∈ ticketsOf (t.callers other) ++ asked, (lock, ticket) ∉ issued) :
    Alike lock issued born t' s where
  node := alike.node.trans handles.node.symm
  outranks := alike.outranks.trans proceeds.outranks.symm
  subscribers := alike.subscribers.trans proceeds.subscribers.symm
  held := alike.held.trans (handles.elsewhere lock ne).2.symm
  record peer := (alike.record peer).trans (handles.record lock ne peer).symm
  attempts := by
    rw [(handles.elsewhere lock ne).1]
    exact alike.attempts
  outbox := by
    obtain ⟨effects, grown, silent⟩ := isAbout_eq_false ne proceeds handles foreign
    have nothing : effects.filter (·.isAbout lock issued) = [] :=
      List.filter_eq_nil_iff.2 fun effect there => by simp [silent effect there]
    rw [grown, List.filter_append, nothing, List.append_nil]
    exact alike.outbox
  generation := alike.generation
  recent number there := (alike.recent number there).trans proceeds.generation
  increasing := alike.increasing

end Alike

end Arbitrator

end Cohort

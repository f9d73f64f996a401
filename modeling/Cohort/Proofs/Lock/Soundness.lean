import Cohort.Proofs.Lock.Announcements
import Cohort.Proofs.Lock.Coherence

/-!
# Lock tables stay sound

Nobody has a lock that this node holds, and nobody has a lock that is being acquired. The node gives
up only what it holds, and its own attempts wait for nodes that follow it, at least for one. Its
statistics account for the locks that it holds. All of this is kept by every move, whatever a table
is told and by whom, so that it holds between any two operations.

## Main definitions

* `Lock.Standing.Sound`: what goes for a node and one lock.
* `Arbitrator.Sound`: what goes for a lock table.

## Main statements

* `Arbitrator.Move.sound`: every move keeps a table sound.
* `Arbitrator.step_sound`: so does every operation.
* `Arbitrator.tables_stay_sound`: what this says of every run.
-/

namespace Cohort

namespace Lock

variable {pending : Prop} {b : Standing}

/-- What goes for a node and one lock. An attempt of the node's own may have nobody left to wait for
only while it is `pending` that it completes. -/
structure Standing.Sound (pending : Prop) (b : Standing) : Prop where
  sole : b.holds → ∀ peer, peer ∉ b.knows
  claim : b.stage.IsClaim → b.Unowned
  leave : ∀ {node awaits}, b.stage = .own node false awaits → b.holds
  company : ∀ {node acquire awaits}, b.stage = .own node acquire awaits →
    pending ∨ awaits.Nonempty

namespace Standing.Sound

/-- A node that settles nothing only has to be the sole owner if it holds the lock. -/
theorem of_idle (idle : b.stage = .idle) (sole : b.holds → ∀ peer, peer ∉ b.knows) :
    b.Sound pending where
  sole := sole
  claim claim := by
    rw [idle] at claim
    exact claim.elim
  leave own := nomatch idle.symm.trans own
  company own := nomatch idle.symm.trans own

theorem idle (sound : b.Sound pending) : Standing.Sound pending { b with stage := .idle } :=
  of_idle rfl sound.sole

/-- A peer's attempt asks for nothing but that nobody has a lock that the peer tries to acquire. -/
theorem follows (sound : b.Sound pending) (peer : NodeName) (acquire : Bool)
    (free : acquire = true → b.Unowned) :
    Standing.Sound pending { b with stage := .follows peer acquire } where
  sole := sound.sole
  claim claim := free claim
  leave own := nomatch own
  company own := nomatch own

/-- The fewer peers are on record, the better. -/
theorem forget (sound : b.Sound pending) {knows : Set NodeName} (fewer : knows ⊆ b.knows) :
    Standing.Sound pending { b with knows } where
  sole holds peer known := sound.sole holds peer (fewer known)
  claim claim := ⟨(sound.claim claim).1, fun peer known => (sound.claim claim).2 peer (fewer known)⟩
  leave := sound.leave
  company := sound.company

theorem mono {pending' : Prop} (more : pending → pending') (sound : b.Sound pending) :
    b.Sound pending' :=
  ⟨sound.sole, sound.claim, sound.leave, fun own => (sound.company own).imp_left more⟩

end Standing.Sound

end Lock

namespace Arbitrator

open Lock (Standing)

variable {t t' : Arbitrator} {lock other : Lock} {attempt : Attempt} {scope : Scope}
  {d d' : Desk} {pending pending' : Set Lock}

/-- What goes for a lock table, but for the locks that are `pending`. -/
structure Sound (t : Arbitrator) (pending : Set Lock) : Prop where
  standings : ∀ lock, (t.standing lock).Sound (lock ∈ pending)
  balance : t.stats.acquired = t.stats.released + t.stats.hijacked + t.held.size

theorem sound_fresh (node : NodeName) (outranks : Precedence) : (fresh node outranks).Sound ∅ where
  standings lock := .of_idle (stage_eq_idle (by simp [fresh])) fun holds => by
    simp [standing, fresh] at holds
  balance := by simp [fresh]

namespace Sound

theorem mono (more : pending ⊆ pending') (sound : t.Sound pending) : t.Sound pending' :=
  ⟨fun lock => (sound.standings lock).mono fun among => more among, sound.balance⟩

/-- Only one lock is concerned. -/
theorem revise (sound : t.Sound pending) (lock : Lock)
    (elsewhere : ∀ other ≠ lock, t'.standing other = t.standing other)
    (here : (t'.standing lock).Sound (lock ∈ pending))
    (balance : t'.stats.acquired = t'.stats.released + t'.stats.hijacked + t'.held.size) :
    t'.Sound pending := by
  refine ⟨fun other => ?_, balance⟩
  by_cases same : other = lock
  · exact same ▸ here
  · rw [elsewhere other same]
    exact sound.standings other

theorem drop (sound : t.Sound pending) (lock : Lock) : (t.drop lock).Sound pending := by
  refine sound.revise lock (fun _ ne => Spares.drop.standing ne) ?_ sound.balance
  rw [standing_drop_self]
  exact (sound.standings lock).idle

/-- A lock that is dropped is not pending. -/
theorem drop_settles (sound : t.Sound pending) (lock : Lock) :
    (t.drop lock).Sound (pending \ {lock}) := by
  refine ⟨fun other => ?_, sound.balance⟩
  by_cases same : other = lock
  · subst same
    exact .of_idle (stage_eq_idle (attempts_drop_self t other)) (sound.standings other).sole
  · rw [Spares.drop.standing same]
    exact (sound.standings other).mono fun among => ⟨among, same⟩

theorem gain (sound : t.Sound pending) (idle : t.attempts[lock]? = none)
    (free : t.owner lock = none) : (t.gain lock).Sound pending := by
  have unowned := owner_eq_none_iff.1 free
  refine sound.revise lock (fun _ ne => Spares.gain.standing ne) ?_ ?_
  · rw [standing_gain_self]
    exact .of_idle (stage_eq_idle idle) fun _ => unowned.2
  · have absent : lock ∉ t.held := unowned.1
    have balance := sound.balance
    simp only [Arbitrator.gain, emit, Std.ExtTreeSet.size_insert, Std.ExtTreeSet.contains_iff_mem,
      if_neg absent]
    omega

theorem relinquish (sound : t.Sound pending) (idle : t.attempts[lock]? = none)
    (there : lock ∈ t.held) : (t.relinquish lock).Sound pending := by
  refine sound.revise lock (fun _ ne => Spares.relinquish.standing ne) ?_ ?_
  · rw [standing_relinquish_self]
    exact .of_idle (stage_eq_idle idle) False.elim
  · have balance := sound.balance
    have some : 0 < t.held.size := by
      rw [Nat.pos_iff_ne_zero, Ne, ← Std.ExtTreeSet.eq_empty_iff_size_eq_zero]
      rintro none_
      simp [none_] at there
    simp only [Arbitrator.relinquish, emit, Std.ExtTreeSet.size_erase,
      Std.ExtTreeSet.contains_iff_mem, if_pos there]
    omega

/-- A peer has a lock that nobody here settles. -/
theorem yield (sound : t.Sound pending) (idle : t.attempts[lock]? = none) (peer : NodeName) :
    ((t.notePeerLock peer lock).surrender lock).Sound pending := by
  refine sound.revise lock
    (fun _ ne => ((Spares.notePeerLock peer).trans .surrender).standing ne) ?_ ?_
  · rw [standing_surrender_self, standing_notePeerLock_self]
    exact .of_idle (stage_eq_idle idle) False.elim
  · have balance := sound.balance
    unfold surrender
    split
    next there =>
      have there : lock ∈ t.held := there
      have some : 0 < t.held.size := by
        rw [Nat.pos_iff_ne_zero, Ne, ← Std.ExtTreeSet.eq_empty_iff_size_eq_zero]
        rintro none_
        simp [none_] at there
      simp only [notePeerLock, emit, Std.ExtTreeSet.size_erase, Std.ExtTreeSet.contains_iff_mem,
        if_pos there]
      omega
    next => exact balance

/-- A node consents to an attempt that has others left to wait for, unless it is pending. -/
theorem strike (sound : t.Sound pending) (node : NodeName)
    (rest : lock ∈ pending ∨ ∀ attempt, (t.strike lock node).attempts[lock]? = some attempt →
      attempt.HasCompany) : (t.strike lock node).Sound pending := by
  refine sound.revise lock (fun _ ne => (Spares.strike node).standing ne) ?_ sound.balance
  have here := sound.standings lock
  cases current : t.attempts[lock]? with
  | none =>
    have same : (t.strike lock node).standing lock = t.standing lock := by
      simp [standing, Arbitrator.strike, current]
    rwa [same]
  | some attempt =>
    cases own : attempt.ratifiers with
    | none =>
      have same : (t.strike lock node).standing lock = t.standing lock := by
        simp [standing, Arbitrator.strike, current, Attempt.stage, own]
      rwa [same]
    | some ratifiers =>
      have stage := stage_of_attempt current
      simp only [Attempt.stage, own] at stage
      rw [standing_strike_self current own]
      refine ⟨here.sole, fun claim => here.claim ?_, fun {n aw} same => ?_, fun {n a aw} same => ?_⟩
      · rw [stage]
        exact claim
      · obtain ⟨-, leaves, -⟩ := Lock.Stage.own.inj same
        rw [leaves] at stage
        exact here.leave stage
      · obtain ⟨-, -, rfl⟩ := Lock.Stage.own.inj same
        refine rest.imp_right fun company => ?_
        rw [← setOf_mem_erase]
        exact setOf_mem_nonempty (company _ (attempts_strike current node) _ (by simp [own]))

/-- The fewer locks of peers are on record, the better. -/
theorem unrecord (sound : t.Sound pending) {peerLocks : Std.ExtTreeMap NodeName LockSet}
    (fewer : ∀ (peer : NodeName) (lock : Lock), lock ∈ peerLocks[peer]?.getD ∅ →
      lock ∈ t.peerLocks[peer]?.getD ∅) : Arbitrator.Sound { t with peerLocks } pending :=
  ⟨fun lock => (sound.standings lock).forget fun peer there => fewer peer lock there,
    sound.balance⟩

/-- Whoever acquires a lock becomes its only owner. -/
theorem win (sound : t.Sound pending) (current : t.attempts[lock]? = some attempt)
    (own : attempt.isLocal = true) (claims : attempt.acquire = true) :
    ((t.drop lock).gain lock).Sound (pending \ {lock}) := by
  obtain ⟨ratifiers, ours⟩ := Option.isSome_iff_exists.1 own
  have stage := stage_of_attempt current
  simp only [Attempt.stage, ours, claims] at stage
  have unowned := (sound.standings lock).claim (by rw [stage]; rfl)
  refine (sound.drop_settles lock).gain (attempts_drop_self t lock) (owner_eq_none_iff.2 ?_)
  rw [standing_drop_self]
  exact unowned

/-- Whoever gives a lock up holds it until then. -/
theorem part (sound : t.Sound pending) (current : t.attempts[lock]? = some attempt)
    (own : attempt.isLocal = true) (leaves : attempt.acquire = false) :
    ((t.drop lock).relinquish lock).Sound (pending \ {lock}) := by
  obtain ⟨ratifiers, ours⟩ := Option.isSome_iff_exists.1 own
  have stage := stage_of_attempt current
  simp only [Attempt.stage, ours, leaves] at stage
  exact (sound.drop_settles lock).relinquish (attempts_drop_self t lock)
    ((sound.standings lock).leave stage)

end Sound

/-! ## Moves and operations -/

theorem Serve.sound (serve : Serve scope lock d d') (sound : d.table.Sound pending) :
    d'.table.Sound pending := by
  have elsewhere : ∀ other ≠ lock, d'.table.standing other = d.table.standing other :=
    fun _ ne => serve.spares.standing ne
  cases serve with
  | answered => exact ⟨sound.standings, sound.balance⟩
  | joined current =>
    exact ⟨fun lock => (standing_enqueue current _) ▸ sound.standings lock, sound.balance⟩
  | @begun t waiter rest acquire _ idle free there company =>
    refine sound.revise lock elsewhere ?_ sound.balance
    rw [standing_beginLocal_self]
    refine ⟨(sound.standings lock).sole, fun claim => ?_, fun own => ?_, fun own => ?_⟩
    · exact owner_eq_none_iff.1 (free claim)
    · obtain ⟨-, leaves, -⟩ := Lock.Stage.own.inj own
      exact there leaves
    · obtain ⟨-, -, rfl⟩ := Lock.Stage.own.inj own
      exact .inr (setOf_mem_nonempty company)
  | taken _ idle free => exact sound.gain idle free
  | given _ idle there => exact sound.relinquish idle there
  | withdrawn => exact ⟨(sound.drop lock).standings, sound.balance⟩

/-- Every move keeps a table sound. -/
theorem Move.sound (move : Move scope lock d d') (sound : d.table.Sound scope.pending) :
    d'.table.Sound scope.pending := by
  have elsewhere : ∀ other ≠ lock, d'.table.standing other = d.table.standing other :=
    fun _ ne => move.spares.standing ne
  cases move with
  | served serve => exact serve.sound sound
  | won current own claims => exact (sound.win current own claims).mono Set.sdiff_subset
  | parted current own leaves => exact (sound.part current own leaves).mono Set.sdiff_subset
  | dropped => exact sound.drop lock
  | @followed t queue peer party acquire free =>
    refine sound.revise lock elsewhere ?_ sound.balance
    rw [standing_follow_self]
    refine ((sound.drop lock).standings lock).follows peer acquire fun claims => ?_
    rw [standing_drop_self]
    exact owner_eq_none_iff.1 (free claims)
  | struck node rest => exact sound.strike node rest
  | yielded => exact (sound.drop lock).yield (attempts_drop_self _ lock) _
  | @forgotten t queue peer =>
    refine sound.revise lock elsewhere ?_ sound.balance
    rw [standing_forgetPeerLock_self]
    exact (sound.standings lock).forget Set.sdiff_subset
  | counted => exact ⟨sound.standings, sound.balance⟩

theorem Moves.sound (moves : Moves scope lock d d') (sound : d.table.Sound scope.pending) :
    d'.table.Sound scope.pending :=
  moves.keeps (P := fun u => u.Sound scope.pending) (fun _ _ move => move.sound) sound

theorem Course.sound {requests : List (Lock × Ticket)} (course : Course scope t t' requests)
    (sound : t.Sound scope.pending) : t'.Sound scope.pending :=
  course.keeps (P := fun u => u.Sound scope.pending) (fun _ _ _ move => move.sound) sound

/-- Anything may happen, and the given locks may be pending. -/
abbrev Scope.owing (pending : Set Lock) : Scope := .within Set.univ Set.univ pending

namespace Sound

theorem resolve (sound : t.Sound pending) (lock : Lock) (owner : Option NodeName)
    (waiters : List Waiter) : (t.resolve lock owner waiters).Sound pending := by
  have served : Served (.owing pending) lock ⟨t, waiters⟩ ⟨t.resolve lock owner waiters, []⟩ :=
    resolve_serves_all (Scope.within_lenient.suits _ _)
  exact served.moves.sound sound

/-- An attempt of the node's own that completes is no longer pending. -/
theorem complete (sound : t.Sound pending) (current : t.attempts[lock]? = some attempt)
    (own : attempt.isLocal = true) :
    (t.complete lock attempt).Sound (pending \ {lock}) := by
  unfold Arbitrator.complete
  dsimp only
  split
  next claims => exact (sound.win current own claims).resolve lock _ _
  next leaves =>
    exact (sound.part current own (Bool.eq_false_iff.2 leaves)).resolve lock _ _

/-- An attempt that has nobody left to wait for completes when its turn comes. -/
theorem completeIfReady (sound : t.Sound pending) (lock : Lock) :
    (t.completeIfReady lock).Sound (pending \ {lock}) := by
  -- Without an attempt that is due, the lock was not pending in the first place.
  have kept (here : (t.standing lock).Sound False) : t.Sound (pending \ {lock}) := by
    refine ⟨fun other => ?_, sound.balance⟩
    by_cases same : other = lock
    · exact (same ▸ here).mono False.elim
    · exact (sound.standings other).mono fun among => ⟨among, same⟩
  have here := sound.standings lock
  unfold Arbitrator.completeIfReady
  split
  next attempt current =>
    have stage := stage_of_attempt current
    split
    next ratifiers own =>
      split
      next => exact sound.complete current (by rw [Attempt.isLocal, own]; rfl)
      next more =>
        refine kept ⟨here.sole, here.claim, here.leave, fun ours => .inr ?_⟩
        simp only [Attempt.stage, own] at stage
        obtain ⟨-, -, rfl⟩ := Lock.Stage.own.inj (stage.symm.trans ours)
        exact setOf_mem_nonempty (Bool.eq_false_iff.2 more)
    next foreign =>
      refine kept ⟨here.sole, here.claim, here.leave, fun ours => ?_⟩
      simp [Attempt.stage, foreign, stage] at ours
  next idle => exact kept (.of_idle (stage_eq_idle idle) here.sole)

/-- Attempts complete one after the other until none is pending. -/
theorem foldl_completeIfReady (locks : List Lock) (sound : t.Sound {lock | lock ∈ locks}) :
    (locks.foldl Arbitrator.completeIfReady t).Sound ∅ := by
  induction locks generalizing t with
  | nil => exact sound.mono fun _ there => absurd there List.not_mem_nil
  | cons lock rest ih =>
    refine ih ((sound.completeIfReady lock).mono ?_)
    rintro other ⟨there, ne⟩
    exact (List.mem_cons.1 there).resolve_left ne

/-- A follower departs: it is struck from all attempts, and those that waited for nobody else
complete. -/
theorem removeSubscriber (sound : t.Sound ∅) (node : NodeName) :
    (t.removeSubscriber node).Sound ∅ := by
  have departed : Arbitrator.Sound { t with subscribers := t.subscribers.erase node }
      {lock | lock ∈ t.awaiting node} :=
    ⟨fun lock => (sound.standings lock).mono False.elim, sound.balance⟩
  have struck : Course (.owing {lock | lock ∈ t.awaiting node})
      { t with subscribers := t.subscribers.erase node } (t.struck node) [] :=
    foldl_strike_course node fun _ there => there
  exact foldl_completeIfReady _ (struck.sound departed)

theorem opened (sound : t.Sound pending) (op : LockOp) : (t.opened op).Sound pending := by
  cases op with
  | peerSubscribed peer =>
    refine sound.unrecord fun other lock known => ?_
    rw [Std.ExtTreeMap.getElem?_insert] at known
    split at known
    next => exact absurd known Std.ExtTreeSet.not_mem_empty
    next => exact known
  | peerDisconnected peer =>
    refine sound.unrecord fun other lock known => ?_
    rw [Std.ExtTreeMap.getElem?_erase] at known
    split at known
    next => exact absurd known Std.ExtTreeSet.not_mem_empty
    next => exact known
  | _ => exact ⟨sound.standings, sound.balance⟩

end Sound

/-- Every operation keeps a table sound. -/
theorem step_sound (sound : t.Sound ∅) (op : LockOp) : (t.step op).Sound ∅ := by
  by_cases departs : ∃ node, op = .removeSubscriber node
  · obtain ⟨node, rfl⟩ := departs
    exact sound.removeSubscriber node
  · have admits : (Scope.owing ∅).Admits op :=
      ⟨Scope.within_lenient, fun _ _ => trivial, fun _ _ => trivial,
        fun node same => (departs ⟨node, same⟩).elim⟩
    exact (step_course admits t).sound (sound.opened op)

/-! ## Runs -/

theorem Sound.run (sound : t.Sound ∅) (ops : List LockOp) : (t.run ops).Sound ∅ := by
  induction ops generalizing t with
  | nil => exact sound
  | cons op ops ih => exact ih (step_sound sound op)

/-- Attempts wait for nobody but those who follow the node at the time. -/
theorem Waits.run (waits : t.Waits) (ops : List LockOp) : (t.run ops).Waits := by
  induction ops generalizing t with
  | nil => exact waits
  | cons op ops ih =>
    obtain ⟨effects, -, heralds⟩ := step_announces t op
    exact ih (heralds.waits waits)

theorem waits_fresh (node : NodeName) (outranks : Precedence) : (fresh node outranks).Waits := by
  intro lock attempt peer current
  simp [fresh] at current

namespace Sound

/-- A lock that is held is nobody else's. -/
theorem not_known (sound : t.Sound pending) (there : lock ∈ t.held) (peer : NodeName) :
    lock ∉ t.peerLocks[peer]?.getD ∅ :=
  (sound.standings lock).sole there peer

/-- A lock that is being acquired has no owner. -/
theorem owner_of_claim (sound : t.Sound pending) (current : t.attempts[lock]? = some attempt)
    (claims : attempt.acquire = true) : t.owner lock = none := by
  refine owner_eq_none_iff.2 ((sound.standings lock).claim ?_)
  rw [stage_of_attempt current, Attempt.stage]
  split
  next => exact claims
  next => exact claims

/-- A lock that the node gives up is still held. -/
theorem held_of_leave (sound : t.Sound pending) (current : t.attempts[lock]? = some attempt)
    (own : attempt.isLocal = true) (leaves : attempt.acquire = false) : lock ∈ t.held := by
  obtain ⟨ratifiers, ours⟩ := Option.isSome_iff_exists.1 own
  have stage := stage_of_attempt current
  simp only [Attempt.stage, ours, leaves] at stage
  exact (sound.standings lock).leave stage

/-- An attempt of the node's own that is not pending waits for somebody. -/
theorem hasCompany (sound : t.Sound ∅) (current : t.attempts[lock]? = some attempt) :
    attempt.HasCompany := by
  intro ratifiers ours
  have stage := stage_of_attempt current
  simp only [Attempt.stage, ours] at stage
  obtain ⟨peer, there⟩ := ((sound.standings lock).company stage).resolve_left id
  refine Std.ExtTreeSet.isEmpty_eq_false_iff.2 ?_
  rintro rfl
  exact Std.ExtTreeSet.not_mem_empty there

end Sound

/-- Between any two operations, whatever they were and whoever asked for them:

* no lock is both held and on record as a peer's;
* a lock that is being acquired, by this node or by a peer, has no owner;
* a lock that this node is giving up is held;
* an attempt of this node's own waits for somebody, and for nobody who does not follow the node;
* every lock ever acquired was released, or was lost to another node, or is held. -/
theorem tables_stay_sound (node : NodeName) (outranks : Precedence) (ops : List LockOp) :
    let t := (fresh node outranks).run ops
    (∀ lock ∈ t.held, ∀ peer : NodeName, lock ∉ t.peerLocks[peer]?.getD ∅) ∧
    (∀ (lock : Lock) (attempt : Attempt), t.attempts[lock]? = some attempt →
      (attempt.acquire = true → t.owner lock = none) ∧
      (attempt.isLocal = true → attempt.acquire = false → lock ∈ t.held) ∧
      ∀ ratifiers, attempt.ratifiers = some ratifiers →
        ratifiers ≠ ∅ ∧ ∀ peer ∈ ratifiers, peer ∈ t.subscribers) ∧
    t.stats.acquired = t.stats.released + t.stats.hijacked + t.held.size := by
  intro t
  have sound : t.Sound ∅ := (sound_fresh node outranks).run ops
  have waits : t.Waits := (waits_fresh node outranks).run ops
  refine ⟨fun lock there => sound.not_known there, fun lock attempt current => ?_, sound.balance⟩
  refine ⟨sound.owner_of_claim current, sound.held_of_leave current, fun ratifiers ours => ⟨?_, ?_⟩⟩
  · rintro rfl
    have some := sound.hasCompany current ∅ ours
    simp at some
  · intro peer there
    exact waits lock attempt peer current ⟨ratifiers, ours, there⟩

end Arbitrator

end Cohort

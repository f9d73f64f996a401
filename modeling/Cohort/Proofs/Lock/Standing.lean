import Cohort.Lock.Cluster
import Mathlib.Data.Set.Insert
import Mathlib.Tactic.Common
import Mathlib.Tactic.Tauto

/-!
# What one node has to do with one lock

The operations of an arbitrator look at one lock at a time. This file cuts a lock table down to
what it says about a single lock, its `Standing`, and the outbox to what it says about that lock,
a list of `Saying`s, and states once what can happen to the two:

* `Deed`: what a node does on its own account, for a caller;
* `Hearing`: what a node makes of a signal that reaches it.

## Main statements

* `Arbitrator.Does`: an operation amounts to a sequence of deeds; `acquire_does`, `release_does`,
  `query_does`, `resolve_does`, `reacquire_does`.
* `Arbitrator.Hears`: an arrival amounts to one hearing followed by deeds; one lemma for each
  kind of signal.
* Operations on other locks change neither the standing nor the sayings; this is part of each of
  these statements.
-/

namespace Cohort

namespace Lock

/-- What one node tells another about a lock. -/
inductive Signal where
  /-- The sender begins to acquire the lock, or to release it. -/
  | begins (acquire : Bool)
  | added
  | kept
  | removed
  /-- The sender consents to an attempt of the receiver. -/
  | consents (acquire : Bool)
  deriving DecidableEq

/-- How a node settles a lock at the moment. -/
inductive Stage where
  | idle
  /-- By an attempt of its own; the nodes awaited have not consented yet. -/
  | own (node : NodeName) (acquire : Bool) (awaits : Set NodeName)
  /-- By following an attempt of another node. -/
  | follows (node : NodeName) (acquire : Bool)

/-- The node whose attempt is being settled. -/
def Stage.party : Stage → Option NodeName
  | idle => none
  | own node _ _ | follows node _ => some node

/-- Whether the attempt that is being settled is one to release the lock. -/
def Stage.IsRelease : Stage → Prop
  | idle => False
  | own _ acquire _ | follows _ acquire => acquire = false

/-- What a node has to do with a lock. -/
structure Standing where
  /-- The node holds the lock. -/
  holds : Prop
  /-- The peers that hold the lock, as far as the node knows. -/
  knows : Set NodeName
  stage : Stage

namespace Standing

/-- Nobody holds the lock, as far as the node knows. -/
def Unowned (b : Standing) : Prop := ¬ b.holds ∧ ∀ peer, peer ∉ b.knows

/-- The node `self` has `owner` on record as an owner of the lock. -/
def Records (b : Standing) (self owner : NodeName) : Prop :=
  b.holds ∧ owner = self ∨ owner ∈ b.knows

end Standing

/-- What a node says about a lock. -/
inductive Saying where
  | publish (signal : Signal)
  | consent (peer : NodeName) (acquire : Bool)
  /-- To its own user: that it lost the lock. -/
  | lose
  deriving DecidableEq

/-- What of a saying goes to a node. -/
def Saying.signalTo? (target : NodeName) : Saying → Option Signal
  | publish signal => some signal
  | consent peer acquire => if peer = target then some (.consents acquire) else none
  | lose => none

/-- What moves a node to do something about a lock on its own account. -/
inductive Initiative where
  | claim
  | leave
  | keep

/-- What the node `self` does about a lock on its own account, when `others` follow it. -/
inductive Deed (self : NodeName) (others : Set NodeName) :
    Initiative → Standing → Standing → List Saying → Prop
  | claim {b : Standing} (idle : b.stage = .idle) (unowned : b.Unowned)
      (company : others.Nonempty) :
      Deed self others .claim b { b with stage := .own self true others }
        [.publish (.begins true)]
  | claimAlone {b : Standing} (idle : b.stage = .idle) (unowned : b.Unowned)
      (alone : others = ∅) :
      Deed self others .claim b { b with holds := True } [.publish .added]
  | leave {b : Standing} (idle : b.stage = .idle) (holds : b.holds) (company : others.Nonempty) :
      Deed self others .leave b { b with stage := .own self false others }
        [.publish (.begins false)]
  | leaveAlone {b : Standing} (idle : b.stage = .idle) (holds : b.holds) (alone : others = ∅) :
      Deed self others .leave b { b with holds := False } [.publish .removed]
  | keep {b : Standing} {node : NodeName} {awaits : Set NodeName}
      (leaving : b.stage = .own node false awaits) :
      Deed self others .keep b { b with stage := .idle } [.publish .kept]

/-- Deeds one after the other, each out of one of the given initiatives. -/
inductive Deeds (self : NodeName) (others : Set NodeName) (free : Initiative → Prop) :
    Standing → Standing → List Saying → Prop
  | none (b : Standing) : Deeds self others free b b []
  | more {b b' b'' : Standing} {said said' : List Saying} {initiative : Initiative}
      (may : free initiative) (deed : Deed self others initiative b b' said)
      (rest : Deeds self others free b' b'' said') :
      Deeds self others free b b'' (said ++ said')

theorem Deeds.trans {self : NodeName} {others : Set NodeName} {free : Initiative → Prop}
    {b b' b'' : Standing} {said said' : List Saying} (first : Deeds self others free b b' said)
    (second : Deeds self others free b' b'' said') :
    Deeds self others free b b'' (said ++ said') := by
  induction first with
  | none => exact second
  | more may deed _ ih => simpa [List.append_assoc] using Deeds.more may deed (ih second)

theorem Deeds.one {self : NodeName} {others : Set NodeName} {free : Initiative → Prop}
    {b b' : Standing} {said : List Saying} {initiative : Initiative} (may : free initiative)
    (deed : Deed self others initiative b b' said) : Deeds self others free b b' said := by
  simpa using Deeds.more may deed (.none b')

/-- On its own account a node says everything to all others. -/
theorem Deeds.publishes {self : NodeName} {others : Set NodeName} {free : Initiative → Prop}
    {b b' : Standing} {said : List Saying} (deeds : Deeds self others free b b' said) :
    ∀ saying ∈ said, ∃ signal, saying = .publish signal := by
  induction deeds with
  | none => exact nofun
  | more may deed _ ih =>
    intro saying member
    obtain first | later := List.mem_append.1 member
    · cases deed <;> exact ⟨_, List.mem_singleton.1 first⟩
    · exact ih saying later

/-- Without any initiative nothing is done. -/
theorem Deeds.eq_of_never {self : NodeName} {others : Set NodeName} {b b' : Standing}
    {said : List Saying} (deeds : Deeds self others (fun _ => False) b b' said) :
    b' = b ∧ said = [] := by
  cases deeds with
  | none => exact ⟨rfl, rfl⟩
  | more may => exact may.elim

/-- How a node answers an announcement. -/
inductive Response where
  | consents
  /-- It keeps silent, because it has another node on record as the owner. -/
  | refuses (owner : NodeName)
  /-- It keeps silent for another reason, or was not asked for anything. -/
  | silent

/-- What the node `self` makes of a signal from `peer`. -/
inductive Hearing (self : NodeName) (outranks : Precedence) (peer : NodeName) :
    Signal → Standing → Standing → List Saying → Response → Prop
  | followClaim {b : Standing} (unowned : b.Unowned)
      (yields : ∀ node, b.stage.party = some node → node ≠ peer ∧ outranks node peer = false) :
      Hearing self outranks peer (.begins true) b { b with stage := .follows peer true }
        [.consent peer true] .consents
  | followLeave {b : Standing} (recorded : b.Records self peer) (idle : b.stage = .idle) :
      Hearing self outranks peer (.begins false) b { b with stage := .follows peer false }
        [.consent peer false] .consents
  | refuse {b : Standing} {acquire : Bool} {owner : NodeName} (recorded : b.Records self owner)
      (other : owner ≠ peer) :
      Hearing self outranks peer (.begins acquire) b b [] (.refuses owner)
  | alreadyOwner {b : Standing} (recorded : b.Records self peer) :
      Hearing self outranks peer (.begins true) b b [] .silent
  | defer {b : Standing} {node : NodeName} (unowned : b.Unowned)
      (party : b.stage.party = some node) (prevails : node = peer ∨ outranks node peer = true) :
      Hearing self outranks peer (.begins true) b b [] .silent
  | notOwner {b : Standing} (unowned : b.Unowned) :
      Hearing self outranks peer (.begins false) b b [] .silent
  | busy {b : Standing} (recorded : b.Records self peer) (busy : b.stage ≠ .idle) :
      Hearing self outranks peer (.begins false) b b [] .silent
  | added {b : Standing} (free : ¬ b.holds) :
      Hearing self outranks peer .added b
        { holds := False, knows := insert peer b.knows, stage := .idle } [] .silent
  | hijacked {b : Standing} (holds : b.holds) :
      Hearing self outranks peer .added b
        { holds := False, knows := insert peer b.knows, stage := .idle } [.publish .removed, .lose]
        .silent
  | kept {b : Standing} (party : b.stage.party = some peer) (release : b.stage.IsRelease) :
      Hearing self outranks peer .kept b { b with stage := .idle } [] .silent
  | keptElsewhere {b : Standing} (other : ¬ (b.stage.party = some peer ∧ b.stage.IsRelease)) :
      Hearing self outranks peer .kept b b [] .silent
  | removed {b : Standing} (party : b.stage.party = some peer) :
      Hearing self outranks peer .removed b
        { b with knows := b.knows \ {peer}, stage := .idle } [] .silent
  | removedElsewhere {b : Standing} (other : b.stage.party ≠ some peer) :
      Hearing self outranks peer .removed b { b with knows := b.knows \ {peer} } [] .silent
  | strike {b : Standing} {node : NodeName} {acquire : Bool} {awaits : Set NodeName}
      (own : b.stage = .own node acquire awaits) (more : (awaits \ {peer}).Nonempty) :
      Hearing self outranks peer (.consents acquire) b
        { b with stage := .own node acquire (awaits \ {peer}) } [] .silent
  | win {b : Standing} {node : NodeName} {awaits : Set NodeName}
      (own : b.stage = .own node true awaits) (last : awaits \ {peer} = ∅) :
      Hearing self outranks peer (.consents true) b
        { b with holds := True, stage := .idle } [.publish .added] .silent
  | part {b : Standing} {node : NodeName} {awaits : Set NodeName}
      (own : b.stage = .own node false awaits) (last : awaits \ {peer} = ∅) :
      Hearing self outranks peer (.consents false) b
        { b with holds := False, stage := .idle } [.publish .removed] .silent
  | stale {b : Standing} {acquire : Bool}
      (other : ∀ node awaits, b.stage ≠ .own node acquire awaits) :
      Hearing self outranks peer (.consents acquire) b b [] .silent

/-- A node consents to nobody but the one it hears. -/
theorem Hearing.consents_to {self : NodeName} {outranks : Precedence} {peer other : NodeName}
    {signal : Signal} {b b' : Standing} {said : List Saying} {response : Response}
    (hearing : Hearing self outranks peer signal b b' said response) {acquire : Bool}
    (consent : .consent other acquire ∈ said) : other = peer := by
  cases hearing <;> simp at consent <;> exact consent.1

end Lock

/-! ## The standing of a node and what it says -/

/-- What an event says about a lock. -/
def NodeEvent.signal? (lock : Lock) : NodeEvent → Option Lock.Signal
  | acquiring other => if other = lock then some (.begins true) else none
  | releasing other => if other = lock then some (.begins false) else none
  | added other => if other = lock then some .added else none
  | kept other => if other = lock then some .kept else none
  | removed other => if other = lock then some .removed else none
  | cacheData _ _ => none

/-- What is said about a lock by what an arbitrator wants done. -/
def LockEffect.saying? (lock : Lock) : LockEffect → Option Lock.Saying
  | publish event => (event.signal? lock).map .publish
  | ratify peer other acquire => if other = lock then some (.consent peer acquire) else none
  | lost other => if other = lock then some .lose else none
  | startTimer _ _ | answer _ _ => none

/-- How a node settles a lock by an attempt. -/
def Attempt.stage (attempt : Attempt) : Lock.Stage :=
  match attempt.ratifiers with
  | some ratifiers => .own attempt.node attempt.acquire {node | node ∈ ratifiers}
  | none => .follows attempt.node attempt.acquire

namespace Arbitrator

open Lock (Standing Stage Saying Signal Initiative Deed Deeds Hearing Response)

/-- What the node has to do with a lock. -/
def standing (t : Arbitrator) (lock : Lock) : Standing where
  holds := lock ∈ t.held
  knows := {peer | lock ∈ t.peerLocks[peer]?.getD ∅}
  stage := match t.attempts[lock]? with
    | some attempt => attempt.stage
    | none => .idle

/-- What the outbox says about a lock. -/
def sayings (t : Arbitrator) (lock : Lock) : List Saying :=
  t.outbox.filterMap (LockEffect.saying? lock)

/-! ### What the node has on record -/

variable {t : Arbitrator} {lock other : Lock}

theorem mem_knows {peer : NodeName} :
    peer ∈ (t.standing lock).knows ↔ lock ∈ t.peerLocks[peer]?.getD ∅ := Iff.rfl

private theorem find?_peerLocks_eq_none_iff :
    (t.peerLocks.toList.find? fun entry => entry.2.contains lock) = none ↔
      ∀ peer, peer ∉ (t.standing lock).knows := by
  simp only [List.find?_eq_none, mem_knows, Bool.not_eq_true]
  constructor
  · intro none peer
    cases entry : t.peerLocks[peer]? with
    | none => simp
    | some locks =>
      have := none (peer, locks) (Std.ExtTreeMap.mem_toList_iff_getElem?_eq_some.2 entry)
      simpa [← Std.ExtTreeSet.contains_iff_mem] using this
  · rintro none ⟨peer, locks⟩ member
    have entry := Std.ExtTreeMap.mem_toList_iff_getElem?_eq_some.1 member
    have := none peer
    simpa [entry, ← Std.ExtTreeSet.contains_iff_mem] using this

theorem owner_eq_none_iff : t.owner lock = none ↔ (t.standing lock).Unowned := by
  unfold owner
  by_cases held : lock ∈ t.held
  · simp [held, Standing.Unowned, standing]
  · rw [if_neg held, Option.map_eq_none_iff, find?_peerLocks_eq_none_iff]
    exact ⟨fun none => ⟨held, none⟩, And.right⟩

theorem records_of_owner {owner : NodeName} (h : t.owner lock = some owner) :
    (t.standing lock).Records t.node owner := by
  unfold Arbitrator.owner at h
  split at h
  next held => exact .inl ⟨held, (Option.some.inj h).symm⟩
  next =>
    obtain ⟨⟨peer, locks⟩, found, rfl⟩ := Option.map_eq_some_iff.1 h
    have entry := Std.ExtTreeMap.mem_toList_iff_getElem?_eq_some.1 (List.mem_of_find?_eq_some found)
    have locked := List.find?_some found
    refine .inr (mem_knows.2 ?_)
    simpa [entry, ← Std.ExtTreeSet.contains_iff_mem] using locked

/-! ### What the steps shared by the operations do to one lock -/

@[simp] theorem standing_emit (effect : LockEffect) :
    (t.emit effect).standing lock = t.standing lock := rfl

@[simp] theorem sayings_emit (effect : LockEffect) :
    (t.emit effect).sayings lock = t.sayings lock ++ (effect.saying? lock).toList := by
  simp only [sayings, emit, List.filterMap_append]
  cases h : effect.saying? lock <;> simp [h]

@[simp] theorem standing_answer (ticket : Ticket) (reply : LockReply) :
    (t.answer ticket reply).standing lock = t.standing lock := rfl

@[simp] theorem sayings_answer (ticket : Ticket) (reply : LockReply) :
    (t.answer ticket reply).sayings lock = t.sayings lock := by
  simp [answer, LockEffect.saying?]

theorem standing_gain_self :
    (t.gain lock).standing lock = { t.standing lock with holds := True } := by
  simp [standing, gain, emit]

theorem sayings_gain_self : (t.gain lock).sayings lock = t.sayings lock ++ [.publish .added] := by
  simp [gain, LockEffect.saying?, NodeEvent.signal?]
  rfl

theorem standing_relinquish_self :
    (t.relinquish lock).standing lock = { t.standing lock with holds := False } := by
  simp [standing, relinquish, emit]

theorem sayings_relinquish_self :
    (t.relinquish lock).sayings lock = t.sayings lock ++ [.publish .removed] := by
  simp [relinquish, LockEffect.saying?, NodeEvent.signal?]
  rfl

theorem standing_enqueue {attempt : Attempt} (current : t.attempts[other]? = some attempt)
    (waiter : Waiter) : (t.enqueue other attempt waiter).standing lock = t.standing lock := by
  by_cases eq : other = lock
  · subst eq
    simp [standing, enqueue, current, Attempt.stage]
  · simp [standing, enqueue, Std.ExtTreeMap.getElem?_insert, eq]

@[simp] theorem sayings_enqueue (attempt : Attempt) (waiter : Waiter) :
    (t.enqueue other attempt waiter).sayings lock = t.sayings lock := rfl

theorem standing_startAttempt_self (node : NodeName) (acquire : Bool)
    (ratifiers : Option NameSet) (waiters : List Waiter) :
    (t.startAttempt lock node acquire ratifiers waiters).standing lock =
      { t.standing lock with
        stage := Attempt.stage ⟨node, acquire, ratifiers, waiters, t.generation + 1⟩ } := by
  simp [standing, startAttempt]

@[simp] theorem sayings_startAttempt (node : NodeName) (acquire : Bool)
    (ratifiers : Option NameSet) (waiters : List Waiter) :
    (t.startAttempt other node acquire ratifiers waiters).sayings lock = t.sayings lock := rfl

theorem standing_beginLocal_self (acquire : Bool) (ticket : Ticket) :
    (t.beginLocal lock acquire ticket).standing lock =
      { t.standing lock with stage := .own t.node acquire {node | node ∈ t.subscribers} } := by
  simp only [beginLocal, standing_emit, standing_startAttempt_self]
  rfl

theorem sayings_beginLocal_self (acquire : Bool) (ticket : Ticket) :
    (t.beginLocal lock acquire ticket).sayings lock =
      t.sayings lock ++ [.publish (.begins acquire)] := by
  cases acquire <;> simp [beginLocal, LockEffect.saying?, NodeEvent.signal?]

theorem standing_follow_self (peer : NodeName) (acquire : Bool) (waiters : List Waiter) :
    (t.follow peer lock acquire waiters).standing lock =
      { t.standing lock with stage := .follows peer acquire } := by
  simp only [follow, standing_emit, standing_startAttempt_self]
  rfl

theorem sayings_follow_self (peer : NodeName) (acquire : Bool) (waiters : List Waiter) :
    (t.follow peer lock acquire waiters).sayings lock =
      t.sayings lock ++ [.consent peer acquire] := by
  simp [follow, LockEffect.saying?]

theorem standing_drop_self :
    (t.drop lock).standing lock = { t.standing lock with stage := .idle } := by
  simp [standing, drop]

@[simp] theorem sayings_drop : (t.drop other).sayings lock = t.sayings lock := rfl

@[simp] theorem sayings_strike (node : NodeName) :
    (t.strike other node).sayings lock = t.sayings lock := rfl

theorem standing_notePeerLock_self (peer : NodeName) :
    (t.notePeerLock peer lock).standing lock =
      { t.standing lock with knows := insert peer (t.standing lock).knows } := by
  have recorded : {p | lock ∈ (t.notePeerLock peer lock).peerLocks[p]?.getD ∅} =
      insert peer (t.standing lock).knows := by
    ext p
    by_cases eq : peer = p <;>
      simp [notePeerLock, Std.ExtTreeMap.getElem?_insert, eq, mem_knows, Ne.symm]
  simp only [standing, recorded]
  rfl

theorem standing_notePeerLock_of_ne (ne : other ≠ lock) (peer : NodeName) :
    (t.notePeerLock peer other).standing lock = t.standing lock := by
  have recorded : {p | lock ∈ (t.notePeerLock peer other).peerLocks[p]?.getD ∅} =
      (t.standing lock).knows := by
    ext p
    by_cases eq : peer = p
    · subst eq
      simp [notePeerLock, mem_knows, ne]
    · simp [notePeerLock, Std.ExtTreeMap.getElem?_insert, eq, mem_knows]
  simp only [standing, recorded]
  rfl

@[simp] theorem sayings_notePeerLock (peer : NodeName) :
    (t.notePeerLock peer other).sayings lock = t.sayings lock := rfl

end Arbitrator

end Cohort

import Cohort.Proofs.Lock.Conservation

/-!
# What the operations do to one lock

Every operation of an arbitrator, seen from one lock, is a sequence of deeds, and every arrival is
one hearing followed by deeds: the callers that waited for the lock to be settled may start the
next attempt at once. Seen from any other lock, nothing happens.

Whatever is done for callers is a deed. What a node hears is none, so each signal of a peer has its
own lemma.

## Main definitions

* `Arbitrator.Does`: an operation amounts to deeds.
* `Arbitrator.Hears`: an arrival amounts to a hearing, followed by deeds.

## Main statements

* `Arbitrator.Served.does`, `Arbitrator.step_of_ne_does`.
* `Arbitrator.hears_claim`, `Arbitrator.hears_leave`, `Arbitrator.hears_added`,
  `Arbitrator.hears_kept`, `Arbitrator.hears_removed`, `Arbitrator.hears_consents`.
-/

namespace Cohort

namespace Arbitrator

open Lock (Standing Stage Saying Signal Initiative Deed Deeds Hearing Response)

variable {t t' t'' : Arbitrator} {lock other : Lock} {free : Initiative → Prop} {scope : Scope}
  {d d' : Desk}

/-- One lock table comes from another by deeds, as far as one lock is concerned. -/
structure Does (t : Arbitrator) (lock : Lock) (free : Initiative → Prop) (t' : Arbitrator) :
    Prop where
  node : t'.node = t.node
  subscribers : t'.subscribers = t.subscribers
  outranks : t'.outranks = t.outranks
  deeds : ∃ said, Deeds t.node {node | node ∈ t.subscribers} free (t.standing lock)
    (t'.standing lock) said ∧ t'.sayings lock = t.sayings lock ++ said

namespace Does

theorem nothing (node : t'.node = t.node) (subscribers : t'.subscribers = t.subscribers)
    (outranks : t'.outranks = t.outranks) (standing : t'.standing lock = t.standing lock)
    (sayings : t'.sayings lock = t.sayings lock) : t.Does lock free t' where
  node := node
  subscribers := subscribers
  outranks := outranks
  deeds := ⟨[], by rw [standing]; exact .none _, by simp [sayings]⟩

theorem refl (t : Arbitrator) (lock : Lock) (free : Initiative → Prop) : t.Does lock free t :=
  nothing rfl rfl rfl rfl rfl

theorem trans (first : t.Does lock free t') (second : t'.Does lock free t'') :
    t.Does lock free t'' := by
  obtain ⟨said, deeds, sayings⟩ := first.deeds
  obtain ⟨said', deeds', sayings'⟩ := second.deeds
  rw [first.node, first.subscribers] at deeds'
  refine ⟨second.node.trans first.node, second.subscribers.trans first.subscribers,
    second.outranks.trans first.outranks, said ++ said', deeds.trans deeds', ?_⟩
  rw [sayings', sayings, List.append_assoc]

/-- An operation on another lock does nothing. -/
theorem of_spares (spares : t.Spares other t') (ne : lock ≠ other) : t.Does lock free t' :=
  nothing spares.node spares.subscribers spares.outranks (spares.standing ne) (spares.sayings ne)

end Does

/-! ### Requests of callers -/

theorem stage_eq_idle (idle : t.attempts[lock]? = none) : (t.standing lock).stage = .idle := by
  simp [standing, idle]

theorem stage_of_attempt {attempt : Attempt} (current : t.attempts[lock]? = some attempt) :
    (t.standing lock).stage = attempt.stage := by
  simp [standing, current]

theorem setOf_mem_eq_empty {names : NameSet} (empty : names.isEmpty = true) :
    {node | node ∈ names} = (∅ : Set NodeName) := by
  rw [Std.ExtTreeSet.isEmpty_iff.1 empty]
  ext
  simp

theorem setOf_mem_nonempty {names : NameSet} (empty : names.isEmpty = false) :
    {node | node ∈ names}.Nonempty := by
  have ne := Std.ExtTreeSet.isEmpty_eq_false_iff.1 empty
  by_contra none
  exact ne (Std.ExtTreeSet.eq_empty_iff_forall_not_mem.2 fun node member => none ⟨node, member⟩)

/-- Whatever is done for callers is a deed. -/
theorem Serve.does (serve : Serve scope lock d d') : d.table.Does lock scope.free d'.table := by
  cases serve with
  | answered => exact .nothing rfl rfl rfl rfl (sayings_answer _ _)
  | joined current => exact .nothing rfl rfl rfl (standing_enqueue current _) rfl
  | @begun t waiter _ acquire may idle free there company =>
    refine ⟨rfl, rfl, rfl, _, ?_, sayings_beginLocal_self acquire waiter.ticket⟩
    rw [standing_beginLocal_self]
    cases acquire with
    | true =>
      exact .one may (.claim (stage_eq_idle idle) (owner_eq_none_iff.1 (free rfl))
        (setOf_mem_nonempty company))
    | false => exact .one may (.leave (stage_eq_idle idle) (there rfl) (setOf_mem_nonempty company))
  | taken may idle free alone =>
    refine ⟨rfl, rfl, rfl, _, ?_, sayings_gain_self⟩
    rw [standing_gain_self]
    exact .one may (.claimAlone (stage_eq_idle idle) (owner_eq_none_iff.1 free)
      (setOf_mem_eq_empty alone))
  | given may idle there alone =>
    refine ⟨rfl, rfl, rfl, _, ?_, sayings_relinquish_self⟩
    rw [standing_relinquish_self]
    exact .one may (.leaveAlone (stage_eq_idle idle) there (setOf_mem_eq_empty alone))
  | withdrawn may current own leaves =>
    obtain ⟨ratifiers, ours⟩ := Option.isSome_iff_exists.1 own
    have stage := stage_of_attempt current
    simp only [Attempt.stage, ours, leaves] at stage
    refine ⟨rfl, rfl, rfl, [.publish .kept], ?_, ?_⟩
    · rw [standing_emit, standing_drop_self]
      exact .one may (.keep stage)
    · simp [LockEffect.saying?, NodeEvent.signal?]

theorem Served.does (served : Served scope lock d d') :
    d.table.Does lock scope.free d'.table := by
  induction served with
  | refl => exact .refl _ lock _
  | tail _ serve ih => exact ih.trans serve.does

/-- Callers come to do nothing but what is free to happen. -/
def Scope.doing (free : Initiative → Prop) : Scope := { Scope.whole with free }

/-- What names another lock does nothing. -/
theorem step_of_ne_does {op : LockOp} (names : op.lock? = some other) (ne : lock ≠ other)
    (t : Arbitrator) : t.Does lock free (t.step op) :=
  .of_spares (step_handles names t).toSpares ne

/-! ### Arrivals -/

/-- How a node answers a signal of a peer about a lock. -/
def response (t : Arbitrator) (peer : NodeName) (lock : Lock) : Signal → Response
  | .begins acquire =>
    match t.owner lock with
    | some owner =>
      if owner ≠ peer then .refuses owner
      else if acquire then .silent
      else if lock ∈ t.attempts then .silent else .consents
    | none =>
      if acquire then
        match t.attempts[lock]? with
        | some attempt =>
          if attempt.node = peer ∨ t.outranks attempt.node peer then .silent else .consents
        | none => .consents
      else .silent
  | .added | .kept | .removed | .consents _ => .silent

/-- One lock table comes from another by hearing a signal about a lock, and by deeds after that. -/
structure Hears (t : Arbitrator) (lock : Lock) (free : Initiative → Prop) (peer : NodeName)
    (signal : Signal) (response : Response) (t' : Arbitrator) : Prop where
  node : t'.node = t.node
  subscribers : t'.subscribers = t.subscribers
  outranks : t'.outranks = t.outranks
  hearing : ∃ b said said',
    Hearing t.node t.outranks peer signal (t.standing lock) b said response ∧
    Deeds t.node {node | node ∈ t.subscribers} free b (t'.standing lock) said' ∧
    t'.sayings lock = t.sayings lock ++ (said ++ said')

/-- A hearing leads to a lock table from which deeds may go on. -/
theorem Hears.then {peer : NodeName} {signal : Signal} {response : Response}
    (t' : Arbitrator) (said : List Saying) (node : t'.node = t.node)
    (subscribers : t'.subscribers = t.subscribers) (outranks : t'.outranks = t.outranks)
    (hearing : Hearing t.node t.outranks peer signal (t.standing lock) (t'.standing lock) said
      response)
    (sayings : t'.sayings lock = t.sayings lock ++ said) (rest : t'.Does lock free t'') :
    t.Hears lock free peer signal response t'' := by
  obtain ⟨said', deeds, sayings'⟩ := rest.deeds
  rw [node, subscribers] at deeds
  refine ⟨rest.node.trans node, rest.subscribers.trans subscribers,
    rest.outranks.trans outranks, _, _, _, hearing, deeds, ?_⟩
  rw [sayings', sayings, List.append_assoc]

/-- A hearing that changes nothing. -/
theorem Hears.ignored {peer : NodeName} {signal : Signal} {response : Response}
    (hearing : Hearing t.node t.outranks peer signal (t.standing lock) (t.standing lock) []
      response) : t.Hears lock free peer signal response t :=
  .then t [] rfl rfl rfl hearing (List.append_nil _).symm (.refl t lock free)

theorem hearing_refuse {peer owner : NodeName} (acquire : Bool)
    (recorded : (t.standing lock).Records t.node owner) (other : owner ≠ peer) :
    Hearing t.node t.outranks peer (.begins acquire) (t.standing lock) (t.standing lock) []
      (.refuses owner) :=
  .refuse recorded other

theorem party_of_attempt {attempt : Attempt} (current : t.attempts[lock]? = some attempt) :
    (t.standing lock).stage.party = some attempt.node := by
  rw [stage_of_attempt current, Attempt.stage]
  split <;> rfl

theorem party_eq_none (idle : t.attempts[lock]? = none) :
    (t.standing lock).stage.party = none := by
  rw [stage_eq_idle idle, Stage.party]

theorem stage_ne_idle {attempt : Attempt} (current : t.attempts[lock]? = some attempt) :
    (t.standing lock).stage ≠ .idle := by
  rw [stage_of_attempt current, Attempt.stage]
  split <;> simp

theorem attempts_of_idle (idle : (t.standing lock).stage = .idle) : t.attempts[lock]? = none := by
  by_contra some_
  obtain ⟨attempt, current⟩ := Option.ne_none_iff_exists'.1 some_
  exact stage_ne_idle current idle

theorem follow_hears_claim {peer : NodeName} (t₁ : Arbitrator)
    (unowned : (t.standing lock).Unowned)
    (yields : ∀ node, (t.standing lock).stage.party = some node →
      node ≠ peer ∧ t.outranks node peer = false)
    (node : t₁.node = t.node) (subscribers : t₁.subscribers = t.subscribers)
    (outranks : t₁.outranks = t.outranks) (sayings : t₁.sayings lock = t.sayings lock)
    (standing : { t₁.standing lock with stage := .follows peer true } =
      { t.standing lock with stage := .follows peer true }) (waiters : List Waiter) :
    t.Hears lock free peer (.begins true) .consents (t₁.follow peer lock true waiters) := by
  refine Hears.then (t₁.follow peer lock true waiters) [.consent peer true]
    node subscribers outranks ?_ ?_ (Does.refl _ lock free)
  · rw [standing_follow_self, standing]
    exact .followClaim unowned yields
  · rw [sayings_follow_self, sayings]

theorem hears_claim (peer : NodeName) :
    t.Hears lock free peer (.begins true) (t.response peer lock (.begins true))
      (t.peerAcquiring peer lock) := by
  unfold peerAcquiring response
  cases owned : t.owner lock with
  | some owner =>
    have recorded := records_of_owner owned
    by_cases eq : owner = peer
    · subst eq
      simpa using Hears.ignored (.alreadyOwner recorded)
    · simpa [eq] using Hears.ignored (hearing_refuse true recorded eq)
  | none =>
    rw [owner_eq_none_iff] at owned
    simp only [if_true]
    cases current : t.attempts[lock]? with
    | none =>
      refine follow_hears_claim t owned ?_ rfl rfl rfl rfl rfl []
      intro node eq
      cases (party_eq_none current).symm.trans eq
    | some attempt =>
      have party := party_of_attempt current
      dsimp only
      split
      next prevails => exact .ignored (.defer owned party prevails)
      next yields =>
        push Not at yields
        refine follow_hears_claim (t.drop lock) owned ?_ rfl rfl rfl sayings_drop ?_ _
        · intro node eq
          obtain rfl := Option.some.inj (party.symm.trans eq)
          exact ⟨yields.1, by simpa using yields.2⟩
        · rw [standing_drop_self]

theorem hears_leave (peer : NodeName) :
    t.Hears lock free peer (.begins false) (t.response peer lock (.begins false))
      (t.peerReleasing peer lock) := by
  unfold peerReleasing response
  cases owned : t.owner lock with
  | some owner =>
    have recorded := records_of_owner owned
    by_cases eq : owner = peer
    · subst eq
      by_cases busy : lock ∈ t.attempts
      · obtain ⟨attempt, current⟩ := Option.isSome_iff_exists.1
          (Std.ExtTreeMap.isSome_getElem?_iff_mem.2 busy)
        simpa [busy] using Hears.ignored (.busy recorded (stage_ne_idle current))
      · have idle := stage_eq_idle (Std.ExtTreeMap.getElem?_eq_none busy)
        simp only [busy, not_false_eq_true, and_self, if_true, ne_eq, not_true_eq_false, if_false,
          Bool.false_eq_true]
        refine Hears.then (t.follow owner lock false []) [.consent owner false]
          rfl rfl rfl ?_ ?_ (Does.refl _ lock free)
        · rw [standing_follow_self]
          exact .followLeave recorded idle
        · exact sayings_follow_self ..
    · simpa [eq] using Hears.ignored (hearing_refuse false recorded eq)
  | none => simpa using Hears.ignored (.notOwner (owner_eq_none_iff.1 owned))

/-! ### Arrivals that settle a lock -/

/-- The owner of a lock by the time that a signal of a peer settles it. -/
inductive Verdict (t : Arbitrator) (lock : Lock) (peer : NodeName) :
    Signal → Option NodeName → Prop
  | added : Verdict t lock peer .added (some peer)
  | kept : Verdict t lock peer .kept (some peer)
  | removed : Verdict t lock peer .removed none
  | win {node : NodeName} {awaits : Set NodeName}
      (own : (t.standing lock).stage = .own node true awaits) (last : awaits \ {peer} = ∅) :
      Verdict t lock peer (.consents true) (some t.node)
  | part {node : NodeName} {awaits : Set NodeName}
      (own : (t.standing lock).stage = .own node false awaits) (last : awaits \ {peer} = ∅) :
      Verdict t lock peer (.consents false) none

/-- Once a lock is settled with the given owner, whoever waits for it does nothing but what is free
to happen. -/
def Allows (t : Arbitrator) (lock : Lock) (free : Initiative → Prop) (owner : Option NodeName) :
    Prop :=
  (owner = none → free .claim) ∧ ∀ attempt, t.attempts[lock]? = some attempt →
    ∀ waiter ∈ attempt.waiters, waiter.wish = .release → free .leave

theorem Allows.suits {owner : Option NodeName} (allows : t.Allows lock free owner)
    {attempt : Attempt} (current : t.attempts[lock]? = some attempt) :
    (Scope.doing free).Suits attempt.waiters owner where
  reply := trivial
  claim none := ⟨allows.1 none, fun _ => trivial⟩
  leave := fun ⟨waiter, waits, wish⟩ =>
    ⟨allows.2 attempt current waiter waits wish, fun _ => trivial⟩

theorem resolve_does {owner : Option NodeName} {waiters : List Waiter}
    (suits : (Scope.doing free).Suits waiters owner) :
    t.Does lock free (t.resolve lock owner waiters) :=
  (resolve_serves_all suits).does

theorem standing_surrender_self :
    (t.surrender lock).standing lock = { t.standing lock with holds := False } := by
  unfold surrender
  split
  next => simp [standing, emit]
  next free => simp [standing, free]

theorem sayings_surrender_of_mem (held : lock ∈ t.held) :
    (t.surrender lock).sayings lock = t.sayings lock ++ [.publish .removed, .lose] := by
  rw [surrender, if_pos held]
  simp [LockEffect.saying?, NodeEvent.signal?]
  rfl

theorem sayings_surrender_of_not_mem (free : lock ∉ t.held) :
    (t.surrender lock).sayings lock = t.sayings lock := by
  rw [surrender, if_neg free]

theorem node_surrender : (t.surrender lock).node = t.node := by
  unfold surrender
  split <;> rfl

theorem outranks_surrender : (t.surrender lock).outranks = t.outranks := by
  unfold surrender
  split <;> rfl

/-- The signal of a lock's new owner reaches the table before anybody is served. -/
theorem added_hearing (t : Arbitrator) (lock : Lock) (peer : NodeName) :
    ∃ said, Hearing t.node t.outranks peer .added (t.standing lock)
      { holds := False, knows := insert peer (t.standing lock).knows, stage := .idle } said
      .silent ∧
    ((t.notePeerLock peer lock).surrender lock).sayings lock = t.sayings lock ++ said := by
  by_cases held : lock ∈ t.held
  · exact ⟨_, .hijacked held, sayings_surrender_of_mem (t := t.notePeerLock peer lock) held⟩
  · refine ⟨_, .added held, ?_⟩
    rw [sayings_surrender_of_not_mem (t := t.notePeerLock peer lock) held, List.append_nil,
      sayings_notePeerLock]

theorem hears_added (peer : NodeName) (allows : t.Allows lock free (some peer)) :
    t.Hears lock free peer .added .silent (t.peerAdded peer lock) := by
  have standing : ((t.notePeerLock peer lock).surrender lock).standing lock =
      { holds := False
        knows := insert peer (t.standing lock).knows
        stage := (t.standing lock).stage } := by
    rw [standing_surrender_self, standing_notePeerLock_self]
  obtain ⟨said, hearing, sayings⟩ := added_hearing t lock peer
  have attempts : ((t.notePeerLock peer lock).surrender lock).attempts = t.attempts :=
    attempts_surrender
  unfold peerAdded
  dsimp only
  rw [attempts]
  cases current : t.attempts[lock]? with
  | none =>
    refine Hears.then ((t.notePeerLock peer lock).surrender lock) said node_surrender
      subscribers_surrender outranks_surrender ?_ sayings (Does.refl _ lock free)
    rw [standing, stage_eq_idle current]
    exact hearing
  | some attempt =>
    refine Hears.then (((t.notePeerLock peer lock).surrender lock).drop lock) said node_surrender
      subscribers_surrender outranks_surrender ?_ sayings
      (resolve_does (allows.suits current))
    rw [standing_drop_self, standing]
    exact hearing

theorem hears_kept (peer : NodeName) (allows : t.Allows lock free (some peer)) :
    t.Hears lock free peer .kept .silent (t.peerKept peer lock) := by
  unfold peerKept
  cases current : t.attempts[lock]? with
  | none =>
    refine .ignored (.keptElsewhere ?_)
    rw [party_eq_none current]
    rintro ⟨⟨⟩, -⟩
  | some attempt =>
    have party := party_of_attempt current
    have release : (t.standing lock).stage.IsRelease ↔ attempt.acquire = false := by
      rw [stage_of_attempt current, Attempt.stage]
      split <;> rfl
    dsimp only
    split
    next leaving =>
      refine Hears.then (t.drop lock) [] rfl rfl rfl ?_ ?_
        (resolve_does (allows.suits current))
      · rw [standing_drop_self]
        exact .kept (by rw [party, leaving.1]) (release.2 leaving.2)
      · simp
    next other =>
      refine .ignored (.keptElsewhere ?_)
      rw [party, release]
      rintro ⟨eq, leaving⟩
      exact other ⟨Option.some.inj eq, leaving⟩

theorem hears_removed (peer : NodeName) (allows : t.Allows lock free none) :
    t.Hears lock free peer .removed .silent (t.peerRemoved peer lock) := by
  change t.Hears lock free peer .removed .silent
    (match t.attempts[lock]? with
    | some attempt =>
      if attempt.node = peer then (t.forgetPeerLock peer lock).settle lock attempt none
      else t.forgetPeerLock peer lock
    | none => t.forgetPeerLock peer lock)
  have forgotten : (t.standing lock).stage.party ≠ some peer →
      t.Hears lock free peer .removed .silent (t.forgetPeerLock peer lock) := by
    intro other
    refine Hears.then (t.forgetPeerLock peer lock) [] rfl rfl rfl ?_ ?_
      (Does.refl _ lock free)
    · rw [standing_forgetPeerLock_self]
      exact .removedElsewhere other
    · exact (List.append_nil _).symm
  cases current : t.attempts[lock]? with
  | none =>
    refine forgotten ?_
    rw [party_eq_none current]
    exact nofun
  | some attempt =>
    have party := party_of_attempt current
    dsimp only
    split
    next eq =>
      subst eq
      refine Hears.then ((t.forgetPeerLock attempt.node lock).drop lock) []
        rfl rfl rfl ?_ ?_ (resolve_does (allows.suits current))
      · rw [standing_drop_self, standing_forgetPeerLock_self]
        exact .removed party
      · exact (List.append_nil _).symm
    next ne =>
      refine forgotten ?_
      rw [party]
      exact fun eq => ne (Option.some.inj eq)

/-! ### Consents that arrive -/

theorem setOf_mem_erase (names : NameSet) (peer : NodeName) :
    {node | node ∈ names.erase peer} = {node | node ∈ names} \ {peer} := by
  ext node
  simp only [Std.ExtTreeSet.mem_erase, Set.mem_ofPred_eq, Set.mem_sdiff, Set.mem_singleton_iff]
  constructor
  · rintro ⟨ne, member⟩
    exact ⟨member, fun eq => ne (by rw [eq, Std.compare_self])⟩
  · rintro ⟨member, ne⟩
    exact ⟨fun eq => ne (Std.LawfulEqOrd.eq_of_compare eq).symm, member⟩

theorem standing_strike_self {attempt : Attempt} (current : t.attempts[lock]? = some attempt)
    {ratifiers : NameSet} (own : attempt.ratifiers = some ratifiers) (peer : NodeName) :
    (t.strike lock peer).standing lock = { t.standing lock with
      stage := .own attempt.node attempt.acquire ({node | node ∈ ratifiers} \ {peer}) } := by
  have stage : ((t.strike lock peer).standing lock).stage =
      .own attempt.node attempt.acquire ({node | node ∈ ratifiers} \ {peer}) := by
    rw [stage_of_attempt (attempts_strike current peer), Attempt.stage, own, ← setOf_mem_erase]
    rfl
  rw [← stage]
  rfl

/-- The last consent that was awaited completes the attempt. -/
theorem hears_last_consent {attempt : Attempt} (current : t.attempts[lock]? = some attempt)
    {ratifiers : NameSet} (own : attempt.ratifiers = some ratifiers) {peer : NodeName}
    (ready : (ratifiers.erase peer).isEmpty = true)
    (allows : ∀ owner, t.Verdict lock peer (.consents attempt.acquire) owner →
      t.Allows lock free owner) :
    t.Hears lock free peer (.consents attempt.acquire) .silent
      ((t.strike lock peer).complete lock
        { attempt with ratifiers := some (ratifiers.erase peer) }) := by
  have stage := stage_of_attempt current
  simp only [Attempt.stage, own] at stage
  have last : {node | node ∈ ratifiers} \ {peer} = ∅ := by
    rw [← setOf_mem_erase, setOf_mem_eq_empty ready]
  rw [complete, drop_strike]
  dsimp only
  -- The attempt is dropped first, then its outcome is published, and only then callers are served.
  split
  next claiming =>
    rw [claiming] at stage allows ⊢
    have allowed := allows _ (.win stage last)
    refine Hears.then ((t.drop lock).gain lock) [.publish .added] rfl rfl rfl ?_ ?_
      (resolve_does (allowed.suits current))
    · rw [standing_gain_self, standing_drop_self]
      exact .win stage last
    · rw [sayings_gain_self, sayings_drop]
  next leaving =>
    rw [Bool.not_eq_true] at leaving
    rw [leaving] at stage allows ⊢
    have allowed := allows _ (.part stage last)
    refine Hears.then ((t.drop lock).relinquish lock) [.publish .removed] rfl rfl rfl ?_ ?_
      (resolve_does (allowed.suits current))
    · rw [standing_relinquish_self, standing_drop_self]
      exact .part stage last
    · rw [sayings_relinquish_self, sayings_drop]

theorem hears_consents (peer : NodeName) (acquire : Bool)
    (allows : ∀ owner, t.Verdict lock peer (.consents acquire) owner → t.Allows lock free owner) :
    t.Hears lock free peer (.consents acquire) .silent (t.ratify peer lock acquire) := by
  unfold ratify
  cases current : t.attempts[lock]? with
  | none =>
    refine .ignored (.stale fun node awaits own => ?_)
    cases (stage_eq_idle current).symm.trans own
  | some attempt =>
    have stage := stage_of_attempt current
    cases own : attempt.ratifiers with
    | none =>
      simp only [Attempt.isLocal, own, Option.isSome_none, Bool.false_eq_true, and_false, if_false]
      refine .ignored (.stale fun node awaits eq => ?_)
      rw [stage, Attempt.stage, own] at eq
      cases eq
    | some ratifiers =>
      simp only [Attempt.stage, own] at stage
      simp only [Attempt.isLocal, own, Option.isSome_some, and_true]
      by_cases same : attempt.acquire = acquire
      · subst same
        rw [if_pos rfl, completeIfReady, attempts_strike current peer]
        simp only [own, Option.map_some]
        by_cases ready : (ratifiers.erase peer).isEmpty = true
        · rw [if_pos ready]
          exact hears_last_consent current own ready allows
        · rw [if_neg ready]
          refine Hears.then (t.strike lock peer) [] rfl rfl rfl ?_ ?_
            (Does.refl _ lock free)
          · rw [standing_strike_self current own]
            refine .strike stage ?_
            rw [← setOf_mem_erase]
            exact setOf_mem_nonempty (by simpa using ready)
          · exact (List.append_nil _).symm
      · rw [if_neg same]
        refine .ignored (.stale fun node awaits eq => same ?_)
        rw [stage] at eq
        cases eq
        rfl

end Arbitrator

end Cohort

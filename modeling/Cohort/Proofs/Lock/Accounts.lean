import Cohort.Proofs.Lock.Coherence
import Cohort.Proofs.Lock.Mesh

/-!
# What others can tell from what a node says

Whatever a node says about a lock tells whoever listens whether the node holds the lock: replaying
the news of an operation on what held before gives what holds after it. This goes for everything
that is made of deeds, for what a node hears, and for every move, also for those by which a node
takes or gives up a lock without anybody's consent.

## Main definitions

* `Lock.replay`: whether a node holds a lock, told from the signals it sent.
* `Arbitrator.Accounts`: an operation says what it does.

## Main statements

* `Arbitrator.accounts_of_does`, `Arbitrator.accounts_of_hears`, `Arbitrator.Course.accounts`.
* `Arbitrator.peerDisconnected_accounts`: the departure of a peer.
-/

namespace Cohort

namespace Lock

/-- Whether a node holds a lock after it sent a signal. -/
def Signal.turn (held : Prop) : Signal → Prop
  | .added => True
  | .removed => False
  | .begins _ | .kept | .consents _ => held

/-- Whether a node holds a lock after it sent several signals in order. -/
def replay (held : Prop) (signals : List Signal) : Prop := signals.foldl Signal.turn held

theorem replay_append (held : Prop) (signals signals' : List Signal) :
    replay held (signals ++ signals') = replay (replay held signals) signals' :=
  List.foldl_append

variable {self peer : NodeName} {others : Set NodeName} {free : Initiative → Prop}
  {outranks : Precedence} {initiative : Initiative} {signal : Signal} {b b' : Standing}
  {said : List Saying} {response : Response}

theorem Deed.replays (deed : Deed self others initiative b b' said) (q : NodeName) :
    b'.holds ↔ replay b.holds (said.filterMap (Saying.signalTo? q)) := by
  cases deed <;> exact Iff.rfl

theorem Deeds.replays (deeds : Deeds self others free b b' said) (q : NodeName) :
    b'.holds ↔ replay b.holds (said.filterMap (Saying.signalTo? q)) := by
  induction deeds with
  | none => exact Iff.rfl
  | more may deed _ ih =>
    rw [List.filterMap_append, replay_append, ← propext (deed.replays q)]
    exact ih

theorem Deeds.knows_eq (deeds : Deeds self others free b b' said) : b'.knows = b.knows := by
  induction deeds with
  | none => rfl
  | more may deed _ ih =>
    refine ih.trans ?_
    cases deed <;> rfl

theorem Deeds.coherent (deeds : Deeds self others free b b' said) (coherent : b.Coherent) :
    b'.Coherent := by
  induction deeds with
  | none => exact coherent
  | more may deed _ ih => exact ih (deed.coherent coherent)

theorem Hearing.replays (hearing : Hearing self outranks peer signal b b' said response)
    (q : NodeName) : b'.holds ↔ replay b.holds (said.filterMap (Saying.signalTo? q)) := by
  cases hearing with
  | followClaim | followLeave => by_cases eq : peer = q <;> simp [Saying.signalTo?, eq] <;> rfl
  | added free => exact iff_of_false id free
  | _ => exact Iff.rfl

/-- The peers on record after a signal of one of them. -/
def Signal.record (peer : NodeName) (knows : Set NodeName) : Signal → Set NodeName
  | .added => insert peer knows
  | .removed => knows \ {peer}
  | .begins _ | .kept | .consents _ => knows

theorem Hearing.knows_eq (hearing : Hearing self outranks peer signal b b' said response) :
    b'.knows = signal.record peer b.knows := by
  cases hearing <;> rfl

end Lock

namespace Arbitrator

open Lock (Standing Stage Saying Signal Initiative Deed Deeds Hearing Response replay replay_append)

variable {t t' t'' : Arbitrator} {lock other : Lock} {free : Initiative → Prop}
  {K K' : Set NodeName}

/-- An operation says what it does about a lock, and leaves the peers `K` on record as owners. -/
structure Accounts (t : Arbitrator) (lock : Lock) (K : Set NodeName) (t' : Arbitrator) : Prop where
  node : t'.node = t.node
  knows : (t'.standing lock).knows = K
  coherent : (t.standing lock).Coherent → (t'.standing lock).Coherent
  said : ∃ said, t'.sayings lock = t.sayings lock ++ said ∧
    (∀ peer acquire, .consent peer acquire ∈ said → peer ≠ t.node) ∧
    ∀ q, (t'.standing lock).holds ↔
      replay (t.standing lock).holds (said.filterMap (Saying.signalTo? q))

namespace Accounts

theorem nothing (node : t'.node = t.node) (standing : t'.standing lock = t.standing lock)
    (sayings : t'.sayings lock = t.sayings lock) :
    t.Accounts lock (t.standing lock).knows t' where
  node := node
  knows := by rw [standing]
  coherent coherent := by rwa [standing]
  said := ⟨[], by rw [sayings, List.append_nil], nofun, fun q => by rw [standing]; rfl⟩

theorem refl (t : Arbitrator) (lock : Lock) : t.Accounts lock (t.standing lock).knows t :=
  nothing rfl rfl rfl

theorem trans (first : t.Accounts lock K t') (second : t'.Accounts lock K' t'') :
    t.Accounts lock K' t'' := by
  obtain ⟨said, sayings, consents, holds⟩ := first.said
  obtain ⟨said', sayings', consents', holds'⟩ := second.said
  refine ⟨second.node.trans first.node, second.knows,
    fun coherent => second.coherent (first.coherent coherent), said ++ said', ?_, ?_, ?_⟩
  · rw [sayings', sayings, List.append_assoc]
  · intro peer acquire member
    obtain early | late := List.mem_append.1 member
    · exact consents peer acquire early
    · exact first.node ▸ consents' peer acquire late
  · intro q
    rw [List.filterMap_append, replay_append, ← propext (holds q)]
    exact holds' q

/-- A step after which the peers on record are the same. -/
theorem then_same (first : t.Accounts lock K t')
    (second : t'.Accounts lock (t'.standing lock).knows t'') : t.Accounts lock K t'' := by
  have both := first.trans second
  rwa [first.knows] at both

end Accounts

theorem accounts_of_does (does : t.Does lock free t') :
    t.Accounts lock (t.standing lock).knows t' := by
  obtain ⟨said, deeds, sayings⟩ := does.deeds
  refine ⟨does.node, deeds.knows_eq, deeds.coherent, said, sayings, ?_, deeds.replays⟩
  intro peer acquire member
  obtain ⟨signal, eq⟩ := deeds.publishes _ member
  cases eq

theorem accounts_of_hears {peer : NodeName} {signal : Signal} {response : Response}
    (ne : peer ≠ t.node) (hears : t.Hears lock free peer signal response t') :
    t.Accounts lock (signal.record peer (t.standing lock).knows) t' := by
  obtain ⟨b, said, said', hearing, deeds, sayings⟩ := hears.hearing
  refine ⟨hears.node, ?_, ?_, said ++ said', sayings, ?_, ?_⟩
  · rw [deeds.knows_eq, hearing.knows_eq]
  · exact fun coherent => deeds.coherent (hearing.coherent ne coherent)
  · intro peer' acquire member
    obtain early | late := List.mem_append.1 member
    · exact hearing.consents_to early ▸ ne
    · obtain ⟨signal, eq⟩ := deeds.publishes _ late
      cases eq
  · intro q
    rw [List.filterMap_append, replay_append, ← propext (hearing.replays q)]
    exact deeds.replays q

/-- A step that has nothing to do with the lock. -/
theorem accounts_of_spares (spares : t.Spares other t') (ne : lock ≠ other) :
    t.Accounts lock (t.standing lock).knows t' :=
  have does : t.Does lock (fun _ => True) t' := .of_spares spares ne
  accounts_of_does does

/-! ### Moves -/

theorem drop_accounts : t.Accounts lock (t.standing lock).knows (t.drop lock) := by
  refine ⟨rfl, by rw [standing_drop_self], ?_, [], by simp, nofun, fun q => ?_⟩
  · rw [standing_drop_self]
    exact Standing.Coherent.idle
  · rw [standing_drop_self]
    rfl

theorem strike_accounts (node : NodeName) :
    t.Accounts lock (t.standing lock).knows (t.strike lock node) := by
  cases current : t.attempts[lock]? with
  | none =>
    have same : (t.strike lock node).standing lock = t.standing lock := by
      simp [standing, strike, current]
    exact .nothing rfl same (sayings_strike node)
  | some attempt =>
    cases own : attempt.ratifiers with
    | none =>
      have same : (t.strike lock node).standing lock = t.standing lock := by
        simp [standing, strike, current, Attempt.stage, own]
      exact .nothing rfl same (sayings_strike node)
    | some ratifiers =>
      have stage := stage_of_attempt current
      simp only [Attempt.stage, own] at stage
      have struck := standing_strike_self current own node
      refine ⟨rfl, by rw [struck], ?_, [], by simp, by simp, fun q => by rw [struck]; rfl⟩
      intro coherent
      rw [struck]
      refine ⟨coherent.sole, ?_, ?_, fun eq => Stage.noConfusion eq⟩
      · intro claim
        have claim' : attempt.acquire = true := claim
        rw [claim'] at stage
        exact coherent.own_claim stage
      · intro n aw eq
        simp only [Stage.own.injEq] at eq
        rw [eq.2.1] at stage
        exact coherent.leave stage

/-- An attempt to acquire a lock completes: the lock is free for the taking by then. -/
theorem won_accounts {attempt : Attempt} (current : t.attempts[lock]? = some attempt)
    (own : attempt.isLocal = true) (claims : attempt.acquire = true) :
    t.Accounts lock (t.standing lock).knows ((t.drop lock).gain lock) := by
  obtain ⟨ratifiers, ours⟩ := Option.isSome_iff_exists.1 own
  have stage := stage_of_attempt current
  simp only [Attempt.stage, ours, claims] at stage
  have standing : ((t.drop lock).gain lock).standing lock =
      { t.standing lock with holds := True, stage := .idle } := by
    rw [standing_gain_self, standing_drop_self]
  refine ⟨rfl, by rw [standing], ?_, [.publish .added], ?_, by simp, fun q => ?_⟩
  · intro coherent
    rw [standing]
    exact Standing.coherent_of_idle rfl fun _ => (coherent.own_claim stage).2
  · rw [sayings_gain_self, sayings_drop]
  · rw [standing]
    exact Iff.rfl

theorem parted_accounts :
    t.Accounts lock (t.standing lock).knows ((t.drop lock).relinquish lock) := by
  have standing : ((t.drop lock).relinquish lock).standing lock =
      { t.standing lock with holds := False, stage := .idle } := by
    rw [standing_relinquish_self, standing_drop_self]
  refine ⟨rfl, by rw [standing], ?_, [.publish .removed], ?_, by simp, fun q => ?_⟩
  · intro coherent
    rw [standing]
    exact Standing.coherent_of_idle rfl False.elim
  · rw [sayings_relinquish_self, sayings_drop]
  · rw [standing]
    exact Iff.rfl

/-- Anything may happen as long as nothing is heard from peers. -/
abbrev Scope.unheard : Scope := .within ∅ ∅ Set.univ

theorem Move.accounts {d d' : Desk} (move : Move .unheard other d d') (lock : Lock) :
    d.table.Accounts lock (d.table.standing lock).knows d'.table := by
  by_cases eq : lock = other
  · subst eq
    cases move with
    | served serve => exact accounts_of_does serve.does
    | won current own claims => exact won_accounts current own claims
    | parted => exact parted_accounts
    | dropped => exact drop_accounts
    | struck node => exact strike_accounts node
    | counted => exact .nothing rfl rfl rfl
    | followed party => exact absurd party (Set.notMem_empty _)
    | yielded known | forgotten known => exact absurd known (Set.notMem_empty _)
  · exact accounts_of_spares move.spares eq

theorem Moves.accounts {d d' : Desk} (moves : Moves .unheard other d d') (lock : Lock) :
    d.table.Accounts lock (d.table.standing lock).knows d'.table := by
  induction moves with
  | refl => exact .refl _ lock
  | tail _ move ih => exact ih.then_same (move.accounts lock)

theorem Course.accounts {requests : List (Lock × Ticket)}
    (course : Course .unheard t t' requests) (lock : Lock) :
    t.Accounts lock (t.standing lock).knows t' := by
  induction course with
  | done t => exact .refl t lock
  | handled moves _ ih => exact (moves.accounts lock).then_same ih

theorem timeout_accounts (generation : Nat) :
    t.Accounts lock (t.standing lock).knows (t.timeout other generation) :=
  have moves : Moves .unheard other ⟨t, []⟩ ⟨t.timeout other generation, []⟩ :=
    timeout_moves generation Scope.within_lenient
  moves.accounts lock

theorem removeSubscriber_accounts (node : NodeName) :
    t.Accounts lock (t.standing lock).knows (t.removeSubscriber node) := by
  have erased : t.Accounts lock (t.standing lock).knows
      { t with subscribers := t.subscribers.erase node } := .nothing rfl rfl rfl
  have struck : Course .unheard { t with subscribers := t.subscribers.erase node }
      (t.struck node) [] := foldl_strike_course node fun _ _ => trivial
  exact erased.then_same ((struck.trans (completed_course Scope.within_lenient t node)).accounts _)

/-! ### The departure of a peer -/

/-- What is done about other locks is nothing to this one. -/
theorem freeOfPeers_of_not_mem (peer : NodeName) {locks : List Lock} (absent : lock ∉ locks) :
    (locks.foldl (freeOfPeer peer) t).node = t.node ∧
      (locks.foldl (freeOfPeer peer) t).standing lock = t.standing lock ∧
      (locks.foldl (freeOfPeer peer) t).sayings lock = t.sayings lock := by
  have does : t.Does lock (fun _ => False) (locks.foldl (freeOfPeer peer) t) := by
    induction locks generalizing t with
    | nil => exact .refl t lock _
    | cons other locks ih =>
      rw [List.mem_cons, not_or] at absent
      have freed : Moves .unheard other ⟨t, []⟩ ⟨t.freeOfPeer peer other, []⟩ :=
        freeOfPeer_moves (Scope.within_lenient.suits _ _)
      exact (Does.of_spares freed.spares absent.1).trans (ih absent.2)
  obtain ⟨said, deeds, sayings⟩ := does.deeds
  obtain ⟨standing, rfl⟩ := deeds.eq_of_never
  exact ⟨does.node, standing, by rw [sayings, List.append_nil]⟩

theorem standing_forget (peer : NodeName) :
    (t.forget peer).standing lock =
      { t.standing lock with knows := (t.standing lock).knows \ {peer} } := by
  have recorded : {p | lock ∈ (t.forget peer).peerLocks[p]?.getD ∅} =
      (t.standing lock).knows \ {peer} := by
    ext p
    by_cases eq : peer = p
    · subst eq
      simp [forget]
    · simp [forget, Std.ExtTreeMap.getElem?_erase, eq, mem_knows, Ne.symm eq]
  simp only [standing, recorded]
  rfl

/-- Once the locks of a peer are forgotten, no release of them is followed any more. -/
theorem forgotten_accounts {peer : NodeName} {u : Arbitrator} (node : u.node = t.node)
    (standing : u.standing lock = (t.forget peer).standing lock)
    (sayings : u.sayings lock = t.sayings lock) :
    t.Accounts lock ((t.standing lock).knows \ {peer}) (u.freeOfPeer peer lock) := by
  rw [standing_forget] at standing
  -- Unless the attempt in question is the peer's, only the record of the peer's locks changes.
  have same : (t.standing lock).stage.party ≠ some peer →
      t.Accounts lock ((t.standing lock).knows \ {peer}) u := by
    intro other
    refine ⟨node, by rw [standing], ?_, [], by rw [sayings, List.append_nil], nofun, ?_⟩
    · intro coherent
      rw [standing]
      refine ⟨fun holds p known => coherent.sole holds p known.1, ?_, coherent.leave, ?_⟩
      · exact fun claim => ⟨(coherent.claim claim).1, fun p known =>
          (coherent.claim claim).2 p known.1⟩
      · intro p follows
        refine ⟨coherent.follow follows, fun eq => other ?_⟩
        rw [Set.mem_singleton_iff] at eq
        rw [show (t.standing lock).stage = _ from follows, eq]
        rfl
    · exact fun q => by rw [standing]; rfl
  unfold freeOfPeer
  cases current : u.attempts[lock]? with
  | none =>
    refine same ?_
    have idle := stage_eq_idle current
    rw [standing] at idle
    rw [show (t.standing lock).stage = _ from idle]
    exact nofun
  | some attempt =>
    have party := party_of_attempt current
    rw [standing] at party
    dsimp only
    split
    next =>
      suffices first : t.Accounts lock ((t.standing lock).knows \ {peer}) (u.drop lock) from
        first.then_same (accounts_of_does (resolve_does (Scope.whole_lenient.suits _ _)))
      refine ⟨node, ?_, ?_, [], ?_, nofun, fun q => ?_⟩
      · rw [standing_drop_self, standing]
      · intro coherent
        rw [standing_drop_self, standing]
        exact Standing.coherent_of_idle rfl fun holds p known => coherent.sole holds p known.1
      · rw [sayings_drop, sayings, List.append_nil]
      · rw [standing_drop_self, standing]
        rfl
    next other =>
      refine same ?_
      rw [show (t.standing lock).stage.party = _ from party]
      exact fun eq => other (Option.some.inj eq)

theorem freed_accounts (peer : NodeName) :
    t.Accounts lock ((t.standing lock).knows \ {peer}) (t.freed peer) := by
  unfold freed
  -- The locks of the peer are freed one by one: this one once, or not at all.
  by_cases known : lock ∈ (t.peerLocks[peer]?.getD ∅).toList
  · obtain ⟨before, after, split, first⟩ := List.eq_append_cons_of_mem known
    rw [split, List.foldl_append, List.foldl_cons]
    obtain ⟨node, standing, sayings⟩ := freeOfPeers_of_not_mem (t := t.forget peer) peer first
    have others (u : Arbitrator) : Course .unheard u (after.foldl (freeOfPeer peer) u) [] :=
      .foldl (fun _ _ => (freeOfPeer_moves (Scope.within_lenient.suits _ _)).course) after u
    exact (forgotten_accounts (t := t) node standing sayings).then_same ((others _).accounts lock)
  · obtain ⟨node, standing, sayings⟩ := freeOfPeers_of_not_mem (t := t.forget peer) peer known
    have unknown : peer ∉ (t.standing lock).knows := fun member =>
      known (Std.ExtTreeSet.mem_toList.2 (mem_knows.1 member))
    have knows : (t.standing lock).knows \ {peer} = (t.standing lock).knows :=
      Set.sdiff_singleton_eq_self unknown
    rw [standing_forget, knows] at standing
    rw [knows]
    exact .nothing node standing sayings

theorem peerDisconnected_accounts (peer : NodeName) :
    t.Accounts lock ((t.standing lock).knows \ {peer}) (t.peerDisconnected peer) :=
  (freed_accounts peer).then_same ((failed_course Scope.within_lenient t peer).accounts lock)

end Arbitrator

end Cohort

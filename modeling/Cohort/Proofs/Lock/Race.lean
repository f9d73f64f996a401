import Cohort.Proofs.Lock.Settled

/-!
# Races for a lock

As long as callers only acquire and query locks, every node tries to acquire a lock at most once,
and whoever comes to hold it keeps it. So all answers are given in time, every attempt comes to an
end, and the winner outranks everybody else who ever tried.

## Main definitions

* `Lock.Scene.Racing`: the invariant of a scene in which the lock was never given up.

## Main statements

* `Lock.Scene.Step.racing`: a step in which nobody leaves the lock or keeps it leaves a racing scene
  racing.
* `LockCluster.race_is_decided`: how a race for a lock ends.
-/

namespace Cohort

namespace Lock

/-- The signal is one about a lock that nobody gives up. -/
def Signal.IsRacing (signal : Signal) : Prop :=
  signal = .begins true ∨ signal = .added ∨ signal = .consents true

namespace Scene

variable {names : NameSet} {outranks : Precedence} {free : Initiative → Prop}
  {admits : Admission} {s : Scene} {p k : NodeName} {signal : Signal} {rest : List Signal}
  {b : Standing} {said : List Saying} {response : Response} {initiative : Initiative}

/-- The node `y` consented to the acquiring of `x`. -/
def Granted (s : Scene) (x y : NodeName) : Prop :=
  .consents true ∈ s.link y x ∨ s.Takes x y

/-- The invariant of a scene in which the lock was never given up. -/
structure Racing (names : NameSet) (outranks : Precedence) (s : Scene) : Prop
    extends Lively names outranks s where
  signals : ∀ {x y}, x ∈ names → y ∈ names → x ≠ y → ∀ e ∈ s.link x y, e.IsRacing
  claims : ∀ {k}, k ∈ names → ¬ (s.node k).stage.IsRelease
  /-- Whoever is on record as an owner holds the lock. -/
  known : ∀ {x y}, x ∈ names → y ∈ names → x ∈ (s.node y).knows → (s.node x).holds
  announced : ∀ {x y}, x ∈ names → y ∈ names → x ≠ y → .begins true ∈ s.link x y →
    x ∈ s.chronicle.fresh
  once : ∀ {x y}, x ∈ names → y ∈ names → x ≠ y → (s.link x y).count (.begins true) ≤ 1
  began : ∀ {x}, x ∈ names → s.Claims x ∨ (s.node x).holds → x ∈ s.chronicle.fresh
  /-- Whoever consented keeps back, and comes second if it tried as well. -/
  passed : ∀ {x y}, x ∈ names → y ∈ names → x ≠ y → s.Granted x y →
    s.Yields names y ∧ (y ∈ s.chronicle.fresh → outranks x y = true)

theorem racing_start : Racing names outranks .start where
  toLively := lively_start
  signals _ _ _ := nofun
  claims _ := id
  known _ _ := nofun
  announced _ _ _ := nofun
  once _ _ _ := Nat.zero_le 1
  began _ claims := by
    obtain ⟨node, awaits, own⟩ | holds := claims
    · cases own
    · exact holds.elim
  passed _ _ _ granted := by
    obtain consent | ⟨node, awaits, own, -⟩ | holds := granted
    · cases consent
    · cases own
    · exact holds.elim

/-- All answers are given in time in a race. -/
theorem Racing.timely (racing : Racing names outranks s)
    (heard : Heard names outranks s p k signal rest b said response) :
    Timely s p k signal rest response where
  consents _ eq := by
    subst eq
    have once := racing.once heard.source heard.target heard.ne
    rw [heard.head, List.count_cons_self] at once
    have last : .begins true ∉ rest := List.count_eq_zero.1 (by omega)
    refine ⟨racing.announced heard.source heard.target heard.ne ?_, last⟩
    rw [heard.head]
    exact List.mem_cons_self
  refuses eq eq' _ _ := by
    subst eq eq'
    cases heard.hearing with
    | refuse recorded other =>
      obtain ⟨holds, rfl⟩ | known := recorded
      · exact holds
      · exact racing.known ((racing.placed heard.target).knows known).1 heard.target known

/-- A node tries to acquire the lock once. -/
theorem Racing.not_fresh_of_unowned (racing : Racing names outranks s) (member : k ∈ names)
    (idle : (s.node k).stage = .idle) (unowned : (s.node k).Unowned) :
    k ∉ s.chronicle.fresh := by
  intro fresh
  rcases racing.engaged member fresh with ⟨node, awaits, own⟩ | ⟨q, follows, -⟩ | holds |
    ⟨h, -, -, known⟩
  · rw [idle] at own
    cases own
  · rw [idle] at follows
    cases follows
  · exact unowned.1 holds
  · exact unowned.2 h known

/-! ### Deeds -/

/-- What a claim puts on a link. -/
theorem mem_link_claim (deed : Deed k (company names k) .claim (s.node k) b said)
    (crowd : (company names k).Nonempty) {e : Signal} {x y : NodeName}
    (member : e ∈ (s.act names k b said).link x y) :
    e ∈ s.link x y ∨ x = k ∧ e = .begins true := by
  unfold act at member
  dsimp only at member
  split at member
  next source =>
    refine (List.mem_append.1 member).imp id fun new => ⟨source.1, ?_⟩
    cases deed with
    | claim => simpa [Saying.signalTo?] using new
    | claimAlone _ _ alone => exact absurd alone crowd.ne_empty
  next => exact .inl member

/-- Who claims the lock begins to. -/
theorem fresh_claim (deed : Deed k (company names k) .claim (s.node k) b said)
    (crowd : (company names k).Nonempty) :
    (s.chronicle.notes k said).fresh = insert k s.chronicle.fresh := by
  cases deed with
  | claim => rfl
  | claimAlone _ _ alone => exact absurd alone crowd.ne_empty

theorem Racing.once_deed (racing : Racing names outranks s) (member : k ∈ names)
    (deed : Deed k (company names k) .claim (s.node k) b said)
    (crowd : (company names k).Nonempty) {x y : NodeName} (hx : x ∈ names) (hy : y ∈ names)
    (ne : x ≠ y) : ((s.act names k b said).link x y).count (.begins true) ≤ 1 := by
  by_cases eq : x = k
  · subst eq
    rw [link_act_source hy ne.symm]
    cases deed with
    | claim idle unowned =>
      -- An earlier announcement would be on record, and the node would not begin again.
      have none : .begins true ∉ s.link x y := fun announced =>
        racing.not_fresh_of_unowned member idle unowned (racing.announced hx hy ne announced)
      simp [List.count_append, List.count_eq_zero.2 none, Saying.signalTo?]
    | claimAlone _ _ alone => exact absurd alone crowd.ne_empty
  · rw [link_act_of_ne eq]
    exact racing.once hx hy ne

/-- A claim is consented to by nobody at first, and whoever keeps back does not claim. -/
theorem Racing.passed_deed (racing : Racing names outranks s)
    (deed : Deed k (company names k) .claim (s.node k) b said)
    (crowd : (company names k).Nonempty) {x y : NodeName} (hx : x ∈ names) (hy : y ∈ names)
    (ne : x ≠ y) (granted : (s.act names k b said).Granted x y) :
    (s.act names k b said).Yields names y ∧
      (y ∈ (s.chronicle.notes k said).fresh → outranks x y = true) := by
  have before : s.Granted x y :=
    granted.imp (consent_of_deed deed hx ne) fun takes => (takes.of_deed deed hx hy ne).1
  obtain ⟨yields, second⟩ := racing.passed hx hy ne before
  refine ⟨yields_act deed crowd yields, fun fresh => second ?_⟩
  rw [fresh_claim deed crowd] at fresh
  refine (Finset.mem_insert.1 fresh).resolve_left ?_
  rintro rfl
  -- The one that claims the lock knows nothing of another.
  cases deed with
  | claim idle unowned | claimAlone idle unowned =>
    obtain ⟨peer, follows⟩ | ⟨h, -, -, known⟩ := yields
    · rw [idle] at follows
      cases follows
    · exact unowned.2 h known

theorem Racing.deed (racing : Racing names outranks s) (member : k ∈ names)
    (deed : Deed k (company names k) .claim (s.node k) b said)
    (crowd : (company names k).Nonempty) : Racing names outranks (s.act names k b said) where
  toLively := racing.toLively.deed member deed nofun
  signals hx hy ne e there := by
    obtain old | ⟨-, rfl⟩ := mem_link_claim deed crowd there
    · exact racing.signals hx hy ne e old
    · exact .inl rfl
  claims {q} hq := by
    by_cases eq : q = k
    · subst eq
      rw [node_act_self]
      cases deed with
      | claim => exact fun release => Bool.noConfusion release
      | claimAlone _ _ alone => exact absurd alone crowd.ne_empty
    · rw [node_act_of_ne eq]
      exact racing.claims hq
  known {x y} hx hy known := by
    rw [holds_act_iff deed crowd]
    refine racing.known hx hy ?_
    by_cases eq : y = k
    · subst eq
      rw [node_act_self, deed.knows_eq] at known
      exact known
    · rwa [node_act_of_ne eq] at known
  announced hx hy ne there := by
    rw [chronicle_act, fresh_claim deed crowd]
    obtain old | ⟨rfl, -⟩ := mem_link_claim deed crowd there
    · exact Finset.mem_insert_of_mem (racing.announced hx hy ne old)
    · exact Finset.mem_insert_self _ _
  once := racing.once_deed member deed crowd
  began {x} hx either := by
    rw [chronicle_act, fresh_claim deed crowd]
    by_cases eq : x = k
    · subst eq
      exact Finset.mem_insert_self _ _
    · unfold Claims at either
      rw [node_act_of_ne eq] at either
      exact Finset.mem_insert_of_mem (racing.began hx either)
  passed := racing.passed_deed deed crowd

/-! ### Hearings -/

theorem Racing.heard_racing (racing : Racing names outranks s)
    (heard : Heard names outranks s p k signal rest b said response) : signal.IsRacing := by
  refine racing.signals heard.source heard.target heard.ne signal ?_
  rw [heard.head]
  exact List.mem_cons_self

/-- In a race nobody gives the lock up, and nobody loses it. -/
theorem Racing.kept (racing : Racing names outranks s)
    (heard : Heard names outranks s p k signal rest b said response) :
    .publish .removed ∉ said ∧ .lose ∉ said := by
  cases hearing : heard.hearing with
  | hijacked holds => exact absurd holds (racing.free_of_added heard)
  | part own =>
    have release : (s.node k).stage.IsRelease := by
      rw [own]
      rfl
    exact absurd release (racing.claims heard.target)
  | _ => simp

theorem Racing.claims_hear (racing : Racing names outranks s)
    (heard : Heard names outranks s p k signal rest b said response) : ¬ b.stage.IsRelease := by
  have old := racing.claims heard.target
  have racy := racing.heard_racing heard
  cases hearing : heard.hearing with
  | followClaim => exact fun release => Bool.noConfusion release
  | followLeave => simp [Signal.IsRacing] at racy
  | strike own =>
    rw [own] at old
    exact old
  | added | hijacked | kept | removed | win | part => exact id
  | _ => exact old

/-- Whoever takes the lock keeps those on record that were. -/
theorem Racing.known_hear (racing : Racing names outranks s)
    (heard : Heard names outranks s p k signal rest b said response) {x y : NodeName}
    (hx : x ∈ names) (hy : y ∈ names)
    (known : x ∈ (((s.pop p k rest).act names k b said).node y).knows) :
    (((s.pop p k rest).act names k b said).node x).holds := by
  refine holds_hear heard (racing.kept heard).1 ?_
  by_cases eq : y = k
  · subst eq
    rw [node_act_self, heard.hearing.knows_eq] at known
    obtain rfl | rfl | rfl := racing.heard_racing heard
    · exact racing.known hx hy known
    · obtain rfl | old := known
      · exact (racing.tie_heard heard).holds_of_added List.mem_cons_self
      · exact racing.known hx hy old
    · exact racing.known hx hy known
  · rw [node_act_of_ne eq] at known
    exact racing.known hx hy known

theorem Racing.signals_hear (racing : Racing names outranks s)
    (heard : Heard names outranks s p k signal rest b said response) {x y : NodeName}
    (hx : x ∈ names) (hy : y ∈ names) (ne : x ≠ y) :
    ∀ e ∈ ((s.pop p k rest).act names k b said).link x y, e.IsRacing := by
  intro e there
  obtain old | ⟨-, new⟩ := mem_link_of_hear heard there
  · exact racing.signals hx hy ne e old
  · have racy := racing.heard_racing heard
    have kept := (racing.kept heard).1
    cases hearing : heard.hearing with
    | followClaim =>
      by_cases eq : p = y
      · exact .inr (.inr (by simpa [Saying.signalTo?, eq] using new))
      · simp [Saying.signalTo?, eq] at new
    | followLeave => simp [Signal.IsRacing] at racy
    | win => exact .inr (.inl (by simpa [Saying.signalTo?] using new))
    | hijacked | part => exact absurd List.mem_cons_self kept
    | _ => cases new

theorem Racing.once_hear (racing : Racing names outranks s)
    (heard : Heard names outranks s p k signal rest b said response) {x y : NodeName}
    (hx : x ∈ names) (hy : y ∈ names) (ne : x ≠ y) :
    (((s.pop p k rest).act names k b said).link x y).count (.begins true) ≤ 1 := by
  have before := racing.once hx hy ne
  by_cases eq : x = k
  · subst eq
    rw [link_heard_source heard.ne hy ne.symm, List.count_append,
      List.count_eq_zero.2 (heard.hearing.no_begins true y)]
    exact before
  · by_cases popped : x = p ∧ y = k
    · obtain ⟨rfl, rfl⟩ := popped
      rw [heard.head] at before
      rw [link_heard_self heard.ne]
      exact (List.count_le_count_cons).trans before
    · rwa [link_heard_of_ne eq popped]

/-- Whoever keeps back goes on to, since nobody gives the lock up. -/
theorem Racing.yields_hear (racing : Racing names outranks s)
    (heard : Heard names outranks s p k signal rest b said response) {y : NodeName}
    (yields : s.Yields names y) : ((s.pop p k rest).act names k b said).Yields names y := by
  by_cases self : y = k
  · subst self
    obtain ⟨peer, follows⟩ | ⟨h, member, holds, known⟩ := yields
    · exact racing.yields_of_follows heard follows
    · exact .inr ⟨h, member, racing.toSound.known_hear heard holds known⟩
  · unfold Yields at yields ⊢
    rw [node_act_of_ne self]
    refine yields.imp id ?_
    rintro ⟨h, member, holds, known⟩
    exact ⟨h, member, holds_hear heard (racing.kept heard).1 holds, known⟩

theorem Racing.passed_hear (orders : outranks.Orders names) (racing : Racing names outranks s)
    (heard : Heard names outranks s p k signal rest b said response) {x y : NodeName}
    (hx : x ∈ names) (hy : y ∈ names) (ne : x ≠ y)
    (granted : ((s.pop p k rest).act names k b said).Granted x y) :
    ((s.pop p k rest).act names k b said).Yields names y ∧
      (y ∈ (s.chronicle.notes k said).fresh → outranks x y = true) := by
  have fresh : ∀ {z}, z ∈ (s.chronicle.notes k said).fresh → z ∈ s.chronicle.fresh :=
    fun now => (heard.hearing.of_mem_fresh now).2
  have old : s.Granted x y →
      ((s.pop p k rest).act names k b said).Yields names y ∧
        (y ∈ (s.chronicle.notes k said).fresh → outranks x y = true) := by
    intro before
    obtain ⟨yields, second⟩ := racing.passed hx hy ne before
    exact ⟨racing.yields_hear heard yields, fun now => second (fresh now)⟩
  obtain consent | takes := granted
  · obtain before | ⟨rfl, rfl, rfl, rfl⟩ := consent_of_hear heard consent
    · exact old (.inl before)
    · refine ⟨.inl ⟨x, ?_⟩, fun now => ?_⟩
      · rw [node_act_self]
        cases heard.hearing
        rfl
      · exact Engaged.outranked orders racing.toSound heard (racing.engaged hy (fresh now))
  · exact old (takes.consent_of_hear heard).symm

theorem Racing.hear (orders : outranks.Orders names) (racing : Racing names outranks s)
    (heard : Heard names outranks s p k signal rest b said response) :
    Racing names outranks ((s.pop p k rest).act names k b said) where
  toLively := racing.toLively.hear orders heard (racing.timely heard)
  signals := racing.signals_hear heard
  claims {q} hq := by
    by_cases eq : q = k
    · subst eq
      rw [node_act_self]
      exact racing.claims_hear heard
    · rw [node_act_of_ne eq]
      exact racing.claims hq
  known := racing.known_hear heard
  announced hx hy ne there := by
    rw [chronicle_act, heard.hearing.mem_fresh_iff (racing.kept heard).1]
    exact racing.announced hx hy ne (begins_of_hear heard there)
  once := racing.once_hear heard
  began hx either := by
    rw [chronicle_act, heard.hearing.mem_fresh_iff (racing.kept heard).1]
    exact racing.began hx (candidate_of_hear heard either)
  passed := racing.passed_hear orders heard

/-- A step in which nodes do nothing on their own account but claim the lock leaves a racing scene
racing. -/
theorem Step.racing (orders : outranks.Orders names) (only : ∀ initiative, free initiative →
    initiative = .claim) (crowd : ∀ k, (company names k).Nonempty) {s' : Scene}
    (step : Step names outranks free admits s s') (racing : Racing names outranks s) :
    Racing names outranks s' :=
  step.preserves
    (fun _ k _ _ initiative racing may member deed => by
      obtain rfl := only initiative may
      exact racing.deed member deed (crowd k))
    (fun _ _ _ _ _ _ _ _ racing heard _ => racing.hear orders heard) racing

/-- Whoever holds the lock in a race keeps it. -/
theorem Step.keeps_holds (orders : outranks.Orders names)
    (crowd : ∀ k, (company names k).Nonempty) {s' : Scene}
    (step : Step names outranks (· = .claim) admits s s') (racing : Racing names outranks s)
    {x : NodeName} (holds : (s.node x).holds) : (s'.node x).holds := by
  have both : Racing names outranks s' ∧ (s'.node x).holds := by
    refine step.preserves (P := fun s => Racing names outranks s ∧ (s.node x).holds) ?_ ?_
      ⟨racing, holds⟩
    · rintro s k b said initiative ⟨racing, holds⟩ rfl member deed
      exact ⟨racing.deed member deed (crowd k), (holds_act_iff deed (crowd k) x).2 holds⟩
    · rintro s p k signal rest b said response ⟨racing, holds⟩ heard -
      exact ⟨racing.hear orders heard, holds_hear heard (racing.kept heard).1 holds⟩
  exact both.2

end Scene

end Lock

/-! ### Races in a cluster -/

open Lock (Signal Saying Initiative Deed Deeds Chronicle Scene)

/-- Nodes that only claim a lock say only that they begin to, or that they have it. -/
theorem Lock.Deeds.only_claims {self : NodeName} {others : Set NodeName} {b b' : Lock.Standing}
    {said : List Saying} (deeds : Deeds self others (· = .claim) b b' said) :
    ∀ saying ∈ said, saying = .publish (.begins true) ∨ saying = .publish .added := by
  induction deeds with
  | none => exact nofun
  | more may deed _ ih =>
    intro saying member
    subst may
    obtain first | later := List.mem_append.1 member
    · cases deed with
      | claim => exact .inl (List.mem_singleton.1 first)
      | claimAlone => exact .inr (List.mem_singleton.1 first)
    · exact ih saying later

theorem Lock.Chronicle.mem_fresh_notes {k y : NodeName} {h : Chronicle} {said : List Saying}
    (fresh : y ∈ (h.notes k said).fresh) :
    y ∈ h.fresh ∨ y = k ∧ .publish (.begins true) ∈ said := by
  induction said generalizing h with
  | nil => exact .inl fresh
  | cons saying said ih =>
    obtain noted | ⟨eq, later⟩ := ih fresh
    · obtain signal | ⟨peer, acquire⟩ | - := saying
      · cases signal with
        | begins acquire =>
          cases acquire with
          | true =>
            exact (Finset.mem_insert.1 noted).symm.imp id fun eq => ⟨eq, List.mem_cons_self⟩
          | false => exact .inl noted
        | removed => exact absurd noted (Finset.notMem_empty _)
        | _ => exact .inl noted
      · cases acquire <;> exact .inl noted
      · exact .inl noted
    · exact .inr ⟨eq, List.mem_cons_of_mem _ later⟩

/-- As long as nobody gives the lock up, whoever began to acquire it remains known for that. -/
theorem Lock.Chronicle.fresh_subset_notes {k : NodeName} {h : Chronicle} {said : List Saying}
    (kept : .publish .removed ∉ said) : h.fresh ⊆ (h.notes k said).fresh := by
  induction said generalizing h with
  | nil => exact subset_rfl
  | cons saying said ih =>
    rw [List.mem_cons, not_or] at kept
    refine Finset.Subset.trans ?_ (ih kept.2)
    obtain signal | ⟨peer, acquire⟩ | - := saying
    · cases signal with
      | begins acquire =>
        cases acquire with
        | true => exact Finset.subset_insert _ _
        | false => exact subset_rfl
      | removed => exact absurd rfl kept.1
      | _ => exact subset_rfl
    · cases acquire <;> exact subset_rfl
    · exact subset_rfl

/-- Who asks for a lock by an operation in order to acquire it. -/
def LockOp.acquirers (lock : Lock) : LockOp → List Waiter
  | .acquire other ticket => concerning lock other [⟨.acquire, ticket⟩]
  | _ => []

theorem LockOp.acquirers_of_arrival {lock : Lock} {channel : Channel} {wire : LockWire}
    {op : LockOp} (means : LockCluster.arrival channel wire = some op) :
    op.acquirers lock = [] := by
  cases wire with
  | event event =>
    cases event <;> simp only [LockCluster.arrival, LockOp.ofEvent?, Option.some.injEq,
      reduceCtorEq] at means
    all_goals subst means; rfl
  | ratify =>
    obtain rfl := Option.some.inj means
    rfl

/-- Callers that may only claim locks acquire and query them. -/
theorem LockOp.acquire_or_query {op : LockOp} (asks : op.Asks (· = .claim)) :
    (∃ lock ticket, op = .acquire lock ticket) ∨ ∃ lock ticket, op = .query lock ticket := by
  cases op with
  | acquire lock ticket => exact .inl ⟨lock, ticket, rfl⟩
  | query lock ticket => exact .inr ⟨lock, ticket, rfl⟩
  | release => simp [Asks] at asks
  | reacquire => simp [Asks] at asks
  | _ => exact asks.elim

/-- A caller that wants a lock without an owner makes the node begin to acquire it. -/
theorem Arbitrator.acquire_of_unowned {t : Arbitrator} {lock : Lock} {ticket : Ticket}
    (idle : (t.standing lock).stage = .idle) (unowned : (t.standing lock).Unowned)
    (company : t.subscribers.isEmpty = false) :
    t.acquire lock ticket = t.beginLocal lock true ticket := by
  simp [acquire, attempts_of_idle idle, owner_eq_none_iff.2 unowned, company]

namespace LockCluster

variable {c : LockCluster} {names : NameSet} {outranks : Precedence} {lock : Lock}
  {steps : List ClusterStep} {k : NodeName} {t : Arbitrator} {op : LockOp}

/-- A node that is not the only one has subscribers. -/
theorem Meshed.not_alone (mesh : c.Meshed names outranks)
    (crowd : (Lock.company names k).Nonempty) (here : c.nodes[k]? = some t) :
    t.subscribers.isEmpty = false := by
  obtain ⟨q, member, ne⟩ := crowd
  have follows := ((mesh.member k t here).subscribers q).2 ⟨member, ne⟩
  rw [Std.ExtTreeSet.isEmpty_eq_false_iff]
  rintro alone
  rw [alone] at follows
  exact absurd follows Std.ExtTreeSet.not_mem_empty

/-- A node is asked to acquire a lock. -/
def Sought (lock : Lock) (k : NodeName) (steps : List ClusterStep) : Prop :=
  ∃ ticket, .act k (.acquire lock ticket) ∈ steps

/-- Everything is as it should be in a race: all nodes follow each other, every lock is in a race,
and nobody waits in order to release one. -/
structure Racing (names : NameSet) (outranks : Precedence) (c : LockCluster)
    (h : Lock → Chronicle) : Prop extends Meshed names outranks c where
  scenes : ∀ lock, (c.scene lock (h lock)).Racing names outranks
  patient : ∀ (k : NodeName) (t : Arbitrator), c.nodes[k]? = some t →
    ∀ lock, ¬ Arbitrator.Leaving (t.callers lock)

namespace Racing

variable {h : Lock → Chronicle}

/-! #### Steps -/

theorem moves (racing : c.Racing names outranks h) {step : ClusterStep}
    (asks : step.Asks (· = .claim)) :
    (c.step step).Meshed names outranks ∧ ∀ lock,
      Scene.Step names outranks (· = .claim) (fun _ _ _ _ _ _ => True) (c.scene lock (h lock))
        ((c.step step).scene lock ((h lock).after c lock step)) := by
  have allows : c.Allows (· = .claim) := by
    intro k t lock here owner
    refine ⟨fun _ => rfl, fun attempt current waiter waits wish => ?_⟩
    refine absurd ⟨waiter, ?_, wish⟩ (racing.patient k t here lock)
    rwa [Arbitrator.callers_of_attempt current]
  obtain ⟨mesh, steps⟩ := racing.toMeshed.step (fun _ _ _ _ _ _ => True) asks allows
  refine ⟨mesh, fun lock => steps lock (h lock) ?_⟩
  exact admitted_all c lock [step] [] step List.prefix_rfl

/-- Nobody asks to release a lock in a race. -/
theorem asked_patient {step : ClusterStep} (asks : step.Asks (· = .claim))
    (doing : c.doing? step = some (k, op)) :
    ¬ Arbitrator.Leaving (op.asked lock) := by
  obtain rfl | ⟨channel, wire, rest, -, -, -, means⟩ := doing_cases doing
  · obtain ⟨other, ticket, rfl⟩ | ⟨other, ticket, rfl⟩ := LockOp.acquire_or_query asks
    · exact Arbitrator.not_leaving nofun
    · exact Arbitrator.not_leaving nofun
  · rw [asked_of_arrival means]
    rintro ⟨w, waits, -⟩
    cases waits

/-- Calls of callers that acquire and query locks, and deliveries, keep a cluster racing. -/
theorem step (orders : outranks.Orders names) (crowd : ∀ k, (Lock.company names k).Nonempty)
    (racing : c.Racing names outranks h) {step : ClusterStep} (asks : step.Asks (· = .claim)) :
    (c.step step).Racing names outranks fun lock => (h lock).after c lock step := by
  obtain ⟨mesh, steps⟩ := racing.moves asks
  refine ⟨mesh, fun lock => ?_, fun k t here lock => ?_⟩
  · exact (steps lock).racing orders (fun _ => id) crowd (racing.scenes lock)
  · exact patient_step asks (fun k op t doing _ => attends_of_doing asks doing)
      (fun k t here => racing.patient k t here lock) (fun _ _ => asked_patient asks) here

theorem ofNodes (outranks : Precedence) (names : NameSet) :
    (ofNodes outranks names).Racing names outranks fun _ => .blank where
  toMeshed := meshed_ofNodes outranks names
  scenes lock := by
    rw [scene_ofNodes]
    exact Scene.racing_start
  patient k t here lock := by
    rintro ⟨w, waits, -⟩
    rw [nodes_ofNodes] at here
    split at here
    next =>
      obtain rfl := Option.some.inj here
      simp [Arbitrator.callers, (meshed_spec outranks names k).2.attempts] at waits
    next => cases here

theorem run (orders : outranks.Orders names) (crowd : ∀ k, (Lock.company names k).Nonempty)
    (calls : ∀ step ∈ steps, step.Asks (· = .claim)) :
    ((LockCluster.ofNodes outranks names).run steps).Racing names outranks
      fun lock => (LockCluster.ofNodes outranks names).chronicle lock steps := by
  induction steps using List.reverseRecOn with
  | nil => exact ofNodes outranks names
  | append_singleton steps step ih =>
    have racing := ih fun s earlier => calls s (List.mem_append_left _ earlier)
    have racing' := racing.step orders crowd (calls step (by simp))
    simp only [run_append_one, chronicle_append_one]
    exact racing'

/-- Whoever holds a lock in a race keeps it. -/
theorem holds_step (orders : outranks.Orders names)
    (crowd : ∀ k, (Lock.company names k).Nonempty) (racing : c.Racing names outranks h)
    {step : ClusterStep} (asks : step.Asks (· = .claim)) (holds : c.Holds k lock) :
    (c.step step).Holds k lock := by
  have keeps := ((racing.moves asks).2 lock).keeps_holds orders crowd (racing.scenes lock)
    ((holds_scene c lock (h lock) k).2 holds)
  exact (holds_scene _ lock _ k).1 keeps

/-! #### What is said -/

/-- What arrives in a race settles the lock with an owner, if it settles it. -/
theorem verdict_ne_none (racing : c.Racing names outranks h) {p : NodeName} (hk : k ∈ names)
    (hp : p ∈ names) (ne : p ≠ k) {signal : Signal}
    (on : signal ∈ (c.scene lock (h lock)).link p k) {owner : Option NodeName}
    (verdict : t.Verdict lock p signal owner) : owner ≠ none := by
  have racy := (racing.scenes lock).signals hp hk ne signal on
  cases verdict with
  | added | kept | win => exact nofun
  | removed | part => simp [Signal.IsRacing] at racy

/-- In a race a node does nothing on its own account when something arrives. -/
theorem heard_only (racing : c.Racing names outranks h) {channel : Channel} {wire : LockWire}
    {rest : List LockWire} (on : c.wires channel.source channel.target = wire :: rest)
    (here : c.nodes[channel.target]? = some t) {signal : Signal}
    (about : wire.signal? lock = some signal) (means : arrival channel wire = some op) :
    ∃ said response, Scene.Heard names outranks (c.scene lock (h lock)) channel.source
      channel.target signal (rest.filterMap (LockWire.signal? lock)) ((t.step op).standing lock)
      said response ∧ (t.step op).sayings lock = said := by
  obtain ⟨source, target, ne⟩ := racing.wires channel.source channel.target (by simp [on])
  have head : signal ∈ (c.scene lock (h lock)).link channel.source channel.target := by
    simp [scene, on, about]
  have allows : ∀ owner, t.Verdict lock channel.source signal owner →
      t.Allows lock (fun _ => False) owner := by
    intro owner verdict
    refine ⟨racing.verdict_ne_none target source ne head verdict, ?_⟩
    intro attempt current waiter waits wish
    refine racing.patient _ t here lock ⟨waiter, ?_, wish⟩
    rwa [Arbitrator.callers_of_attempt current]
  obtain ⟨b, said, said', hearing, deeds, sayings⟩ :=
    (Arbitrator.arrival_hears about allows means).hearing
  obtain ⟨standing, rfl⟩ := deeds.eq_of_never
  rw [Arbitrator.sayings_eq_nil (racing.outbox _ t here), List.nil_append,
    List.append_nil] at sayings
  rw [← standing] at hearing
  exact ⟨said, _, racing.toMeshed.heard on here about (h lock) hearing, sayings⟩

/-- What a node says about a lock in a race: it does not lose the lock or give it up, and begins to
acquire it only if it is asked to. -/
theorem sayings (racing : c.Racing names outranks h) {step : ClusterStep}
    (asks : step.Asks (· = .claim))
    (doing : c.doing? step = some (k, op)) (here : c.nodes[k]? = some t) :
    ∀ saying ∈ (t.step op).sayings lock, saying ≠ .lose ∧ saying ≠ .publish .removed ∧
      (saying = .publish (.begins true) → ∃ ticket, step = .act k (.acquire lock ticket)) := by
  have empty : t.sayings lock = [] := Arbitrator.sayings_eq_nil (racing.outbox k t here)
  have silent : t.Does lock (fun _ => False) (t.step op) →
      ∀ saying, saying ∉ (t.step op).sayings lock := by
    intro does saying member
    obtain ⟨said, deeds, sayings⟩ := does.deeds
    rw [sayings, empty, deeds.eq_of_never.2] at member
    cases member
  obtain rfl | ⟨channel, wire, rest, rfl, rfl, on, means⟩ := doing_cases doing
  · obtain ⟨other, ticket, rfl⟩ | ⟨other, ticket, rfl⟩ := LockOp.acquire_or_query asks
    · by_cases eq : other = lock
      · subst eq
        have asks' : LockOp.Asks (· = .claim) (.acquire other ticket) := asks
        have does : t.Does other (· = .claim) (t.acquire other ticket) :=
          Arbitrator.call_does asks' other
        obtain ⟨said, deeds, sayings⟩ := does.deeds
        intro saying member
        rw [Arbitrator.step, sayings, empty, List.nil_append] at member
        obtain rfl | rfl := deeds.only_claims saying member
        · exact ⟨nofun, nofun, fun _ => ⟨ticket, rfl⟩⟩
        · exact ⟨nofun, nofun, nofun⟩
      · have does : t.Does lock (fun _ => False) (t.step (.acquire other ticket)) :=
          Arbitrator.step_of_ne_does rfl (Ne.symm eq) t
        exact fun saying member => absurd member (silent does saying)
    · have asks' : LockOp.Asks (fun _ => False) (.query other ticket) := trivial
      exact fun saying member => absurd member (silent (Arbitrator.call_does asks' lock) saying)
  · cases about : wire.signal? lock with
    | none =>
      exact fun saying member => absurd member (silent (Arbitrator.arrival_does about means) saying)
    | some signal =>
      obtain ⟨said, response, heard, sayings⟩ := racing.heard_only on here about means
      obtain ⟨kept, held⟩ := (racing.scenes lock).kept heard
      rw [sayings]
      refine fun saying member => ⟨?_, ?_, ?_⟩
      · rintro rfl
        exact held member
      · rintro rfl
        exact kept member
      · rintro rfl
        refine absurd ?_ (heard.hearing.no_begins true channel.source)
        exact List.mem_filterMap.2 ⟨_, member, rfl⟩

/-! #### What becomes of callers -/

/-- Whoever a node has on record as the owner of a lock in a race holds it. -/
theorem holds_of_owner (racing : c.Racing names outranks h) (here : c.nodes[k]? = some t)
    {owner : NodeName} (owned : t.owner lock = some owner) : c.Holds owner lock := by
  have member := racing.member k t here
  obtain ⟨holds, eq⟩ | known := Arbitrator.records_of_owner owned
  · rw [eq, member.node]
    exact ⟨t, here, holds⟩
  · have hk := (racing.nodes k).1 (Replicated.mem_nodes here)
    rw [← node_scene here lock (h lock)] at known
    have peer := (((racing.scenes lock).placed hk).knows known).1
    exact (holds_scene c lock (h lock) owner).1 ((racing.scenes lock).known peer hk known)

/-- What arrives in a race settles the lock with a node that holds it then. -/
theorem holds_of_verdict (racing : c.Racing names outranks h) {channel : Channel}
    {wire : LockWire} {rest : List LockWire}
    (on : c.wires channel.source channel.target = wire :: rest)
    (here : c.nodes[channel.target]? = some t) {signal : Signal}
    (about : wire.signal? lock = some signal) (means : arrival channel wire = some op)
    {owner : Option NodeName} (verdict : t.Verdict lock channel.source signal owner) :
    ∃ w, owner = some w ∧
      (c.Holds w lock ∨ w = channel.target ∧ ((t.step op).standing lock).holds) := by
  obtain ⟨said, response, heard, -⟩ := racing.heard_only on here about means
  have racy := (racing.scenes lock).heard_racing heard
  cases verdict with
  | added =>
    have holds := ((racing.scenes lock).tie_heard heard).holds_of_added List.mem_cons_self
    exact ⟨_, rfl, .inl ((holds_scene c lock (h lock) _).1 holds)⟩
  | win own last =>
    refine ⟨_, rfl, .inr ⟨(racing.member _ t here).node, ?_⟩⟩
    have hearing := heard.hearing
    rw [node_scene here] at hearing
    generalize (t.step op).standing lock = b at hearing
    cases hearing with
    | win => trivial
    | strike own' more =>
      rw [own] at own'
      cases own'
      exact absurd last more.ne_empty
    | stale other => exact absurd own (other _ _)
  | kept | removed | part => simp [Signal.IsRacing] at racy

/-- Whoever waits for a lock in a race, or asks to acquire it, goes on to wait or is told who holds
it. -/
theorem attends (orders : outranks.Orders names) (crowd : ∀ k, (Lock.company names k).Nonempty)
    (racing : c.Racing names outranks h) {step : ClusterStep} (asks : step.Asks (· = .claim))
    (doing : c.doing? step = some (k, op)) (here : c.nodes[k]? = some t) :
    t.Attends lock (fun owner => ∃ w, owner = some w ∧ (c.step step).Holds w lock)
      (op.acquirers lock) (t.step op) := by
  have keeps : ∀ {w}, c.Holds w lock → (c.step step).Holds w lock :=
    racing.holds_step orders crowd asks
  have after := node_of_doing asks doing here
  obtain rfl | ⟨channel, wire, rest, rfl, rfl, on, means⟩ := doing_cases doing
  · obtain ⟨other, ticket, rfl⟩ | ⟨other, ticket, rfl⟩ := LockOp.acquire_or_query asks
    · refine Arbitrator.acquire_attends ticket fun eq owner told => ⟨owner, rfl, ?_⟩
      obtain owned | ⟨-, alone⟩ := told
      · exact keeps (racing.holds_of_owner here owned)
      · -- A node with subscribers does not just take the lock.
        rw [racing.toMeshed.not_alone (crowd k) here] at alone
        cases alone
    · exact Arbitrator.query_ignores ticket
  · rw [LockOp.acquirers_of_arrival means]
    refine Arbitrator.arrival_attends (fun signal about owner verdict => ?_) means
    obtain ⟨w, rfl, holds⟩ := racing.holds_of_verdict on here about means verdict
    refine ⟨⟨w, rfl, ?_⟩, ?_⟩
    · obtain before | ⟨rfl, now⟩ := holds
      · exact keeps before
      · exact ⟨_, after, now⟩
    · rintro (none | leaving)
      · cases none
      · exact absurd leaving (racing.patient _ t here lock)

/-- Nobody loses a lock in a race. -/
theorem not_lost (racing : c.Racing names outranks h) {step : ClusterStep}
    (asks : step.Asks (· = .claim)) (never : ∀ k, .lost k lock ∉ c.reports) :
    ∀ k, .lost k lock ∉ (c.step step).reports := by
  intro k lost
  obtain ⟨seen, delivered, ⟨-, reports, -⟩ | ⟨k', op, t, doing, here, -, reports⟩⟩ :=
    step_tables (c := c) asks
  · rw [reports] at lost
    obtain old | new := List.mem_append.1 lost
    · exact never k old
    · obtain ⟨channel, wire, eq⟩ := delivered _ new
      cases eq
  · rw [reports] at lost
    obtain old | new := List.mem_append.1 lost
    · obtain old | new := List.mem_append.1 old
      · exact never k old
      · obtain ⟨channel, wire, eq⟩ := delivered _ new
        cases eq
    · obtain ⟨effect, wanted, seen⟩ := List.mem_filterMap.1 new
      cases effect with
      -- A loss is reported only of what the node itself says, and in a race it says no such thing.
      | lost other =>
        simp only [LockEffect.report?, Option.some.injEq, ClusterReport.lost.injEq] at seen
        obtain ⟨rfl, rfl⟩ := seen
        have said : .lose ∈ (t.step op).sayings other :=
          List.mem_filterMap.2 ⟨_, wanted, if_pos rfl⟩
        exact (racing.sayings asks doing here _ said).1 rfl
      | publish | ratify | startTimer | answer => simp [LockEffect.report?] at seen

/-! #### Who began to acquire a lock -/

theorem fresh_subset_after (racing : c.Racing names outranks h) {step : ClusterStep}
    (asks : step.Asks (· = .claim)) :
    (h lock).fresh ⊆ ((h lock).after c lock step).fresh := by
  obtain same | ⟨k, op, t, doing, here, after⟩ := (h lock).after_cases c lock step
  · rw [same]
  · rw [after]
    exact Lock.Chronicle.fresh_subset_notes fun removed =>
      (racing.sayings asks doing here _ removed).2.1 rfl

/-- Nobody begins to acquire a lock without being asked to. -/
theorem mem_fresh_after (racing : c.Racing names outranks h) {step : ClusterStep}
    (asks : step.Asks (· = .claim)) (fresh : k ∈ ((h lock).after c lock step).fresh) :
    k ∈ (h lock).fresh ∨ ∃ ticket, step = .act k (.acquire lock ticket) := by
  obtain same | ⟨k', op, t, doing, here, after⟩ := (h lock).after_cases c lock step
  · rw [same] at fresh
    exact .inl fresh
  · rw [after] at fresh
    obtain old | ⟨rfl, said⟩ := Lock.Chronicle.mem_fresh_notes fresh
    · exact .inl old
    · exact .inr ((racing.sayings asks doing here _ said).2.2 rfl)

/-- The node has nothing to do with a lock so far, or began to acquire it. -/
def Started (lock : Lock) (h : Chronicle) (k : NodeName) (t : Arbitrator) : Prop :=
  k ∈ h.fresh ∨ (t.standing lock).stage = .idle ∧ (t.standing lock).Unowned

theorem begins (crowd : (Lock.company names k).Nonempty) (racing : c.Racing names outranks h)
    (here : c.nodes[k]? = some t) (asks : op.Asks (· = .claim))
    (started : Started lock (h lock) k t) :
    Started lock ((h lock).after c lock (.act k op)) k (t.step op) ∧
      ∀ ticket, op = .acquire lock ticket →
        k ∈ ((h lock).after c lock (.act k op)).fresh := by
  have asks' : (ClusterStep.act k op).Asks (· = .claim) := asks
  obtain fresh | ⟨idle, unowned⟩ := started
  · have fresh' := racing.fresh_subset_after asks' fresh
    exact ⟨.inl fresh', fun _ _ => fresh'⟩
  · have does : t.Does lock (fun _ => False) (t.step op) →
        Started lock ((h lock).after c lock (.act k op)) k (t.step op) := by
      intro does
      obtain ⟨said, deeds, -⟩ := does.deeds
      right
      rw [deeds.eq_of_never.1]
      exact ⟨idle, unowned⟩
    obtain ⟨other, ticket, rfl⟩ | ⟨other, ticket, rfl⟩ := LockOp.acquire_or_query asks
    · by_cases eq : other = lock
      · subst eq
        have company := racing.toMeshed.not_alone crowd here
        have said : (t.step (.acquire other ticket)).sayings other = [.publish (.begins true)] := by
          rw [Arbitrator.step, Arbitrator.acquire_of_unowned idle unowned company,
            Arbitrator.sayings_beginLocal_self, Arbitrator.sayings_eq_nil (racing.outbox k t here),
            List.nil_append]
        have fresh : k ∈ ((h other).after c other (.act k (.acquire other ticket))).fresh := by
          rw [Meshed.after_act here, said]
          exact Finset.mem_insert_self _ _
        exact ⟨.inl fresh, fun _ _ => fresh⟩
      · refine ⟨does (Arbitrator.step_of_ne_does rfl (Ne.symm eq) t), ?_⟩
        rintro _ ⟨⟩
        exact absurd rfl eq
    · have asks' : LockOp.Asks (fun _ => False) (.query other ticket) := trivial
      exact ⟨does (Arbitrator.call_does asks' lock), nofun⟩

/-- After a call every node still has nothing to do with a lock, or began to acquire it. -/
theorem started_act (crowd : ∀ k, (Lock.company names k).Nonempty)
    (racing : c.Racing names outranks h) (asks : op.Asks (· = .claim))
    (started : ∀ k t, c.nodes[k]? = some t → Started lock (h lock) k t) {j : NodeName}
    (here : (c.step (.act k op)).nodes[j]? = some t) :
    Started lock ((h lock).after c lock (.act k op)) j t := by
  have asks' : (ClusterStep.act k op).Asks (· = .claim) := asks
  obtain ⟨-, -, ⟨nodes, -, absent⟩ | ⟨k', op', t', doing, here', nodes, -⟩⟩ :=
    step_tables (c := c) asks'
  · rw [nodes] at here
    rw [Meshed.after_act_of_absent (absent k op rfl)]
    exact started j t here
  · obtain ⟨rfl, rfl⟩ := Prod.mk.inj (Option.some.inj doing)
    rw [nodes, Std.ExtTreeMap.getElem?_insert] at here
    split at here
    next eq =>
      obtain rfl := Std.LawfulEqCmp.eq_of_compare eq
      obtain rfl := Option.some.inj here
      exact (racing.begins (crowd k) here' asks (started k t' here')).1
    next =>
      exact (started j t here).imp_left fun fresh => racing.fresh_subset_after asks' fresh

end Racing

/-! #### Runs -/

section

variable (orders : outranks.Orders names) (crowd : ∀ k, (Lock.company names k).Nonempty)
  (calls : ∀ step ∈ steps, step.Asks (· = .claim))

include orders crowd calls

theorem not_lost_of_run : ∀ k, .lost k lock ∉ ((ofNodes outranks names).run steps).reports := by
  induction steps using List.reverseRecOn with
  | nil => exact fun k => List.not_mem_nil
  | append_singleton steps step ih =>
    have earlier : ∀ s ∈ steps, s.Asks (· = .claim) :=
      fun s member => calls s (List.mem_append_left _ member)
    rw [run_append_one]
    exact (Racing.run orders crowd earlier).not_lost (calls step (by simp)) (ih earlier)

/-- Whoever asked to acquire the lock waits for it, or was told who holds it. -/
theorem told_of_run (member : k ∈ names) {ticket : Ticket}
    (made : .act k (.acquire lock ticket) ∈ steps) :
    ((ofNodes outranks names).run steps).Attended lock
      (fun owner => ∃ w, owner = some w ∧ ((ofNodes outranks names).run steps).Holds w lock)
      k ticket := by
  induction steps using List.reverseRecOn with
  | nil => cases made
  | append_singleton steps step ih =>
    have earlier : ∀ s ∈ steps, s.Asks (· = .claim) :=
      fun s member => calls s (List.mem_append_left _ member)
    have last := calls step (by simp)
    have racing := Racing.run orders crowd earlier
    rw [run_append_one]
    refine attended_step last
      (fun k op t doing here => racing.attends orders crowd last doing here) ?_
    -- Whoever was told of a holder was told right for good, since nobody gives the lock up.
    obtain before | now := List.mem_append.1 made
    · refine .inl ((ih earlier before).mono ?_)
      rintro _ ⟨w, rfl, holds⟩
      exact ⟨w, rfl, racing.holds_step orders crowd last holds⟩
    · obtain rfl := List.mem_singleton.1 now
      refine .inr ⟨(racing.nodes k).2 member, _, rfl, ⟨.acquire, ticket⟩, ?_, rfl⟩
      simp [LockOp.acquirers]

/-- Whoever began to acquire a lock was asked to. -/
theorem sought_of_fresh
    (fresh : k ∈ ((ofNodes outranks names).chronicle lock steps).fresh) : Sought lock k steps := by
  induction steps using List.reverseRecOn with
  | nil => cases fresh
  | append_singleton steps step ih =>
    have earlier : ∀ s ∈ steps, s.Asks (· = .claim) :=
      fun s member => calls s (List.mem_append_left _ member)
    rw [chronicle_append_one] at fresh
    rcases (Racing.run orders crowd earlier).mem_fresh_after (calls step (by simp)) fresh with
      old | ⟨ticket, rfl⟩
    · obtain ⟨ticket, made⟩ := ih earlier old
      exact ⟨ticket, List.mem_append_left _ made⟩
    · exact ⟨ticket, by simp⟩

/-- As long as nothing is delivered, whoever is asked to acquire a lock begins to. -/
theorem fresh_of_calls (early : ∀ step ∈ steps, ∃ k op, step = .act k op) :
    (∀ (k : NodeName) (t : Arbitrator),
      ((ofNodes outranks names).run steps).nodes[k]? = some t →
        Racing.Started lock ((ofNodes outranks names).chronicle lock steps) k t) ∧
    ∀ k ∈ names, Sought lock k steps →
      k ∈ ((ofNodes outranks names).chronicle lock steps).fresh := by
  induction steps using List.reverseRecOn with
  | nil =>
    refine ⟨fun k t here => .inr ?_, fun k _ ⟨ticket, made⟩ => nomatch made⟩
    have start := node_scene here lock .blank
    rw [run_nil, scene_ofNodes] at start
    rw [← start]
    exact ⟨rfl, id, fun _ => nofun⟩
  | append_singleton steps step ih =>
    have earlier : ∀ s ∈ steps, s.Asks (· = .claim) :=
      fun s member => calls s (List.mem_append_left _ member)
    obtain ⟨started, fresh⟩ := ih earlier fun s member => early s (List.mem_append_left _ member)
    have racing := Racing.run orders crowd earlier
    obtain ⟨j, op, rfl⟩ := early step (by simp)
    have last : op.Asks (· = .claim) := calls (.act j op) (by simp)
    have kept : ∀ {k}, k ∈ ((ofNodes outranks names).chronicle lock steps).fresh → _ :=
      fun fresh => racing.fresh_subset_after (calls (.act j op) (by simp)) fresh
    rw [run_append_one, chronicle_append_one]
    refine ⟨fun k t here => racing.started_act crowd last started here, ?_⟩
    rintro k member ⟨ticket, made⟩
    obtain before | now := List.mem_append.1 made
    · exact kept (fresh k member ⟨ticket, before⟩)
    · obtain ⟨rfl, rfl⟩ := ClusterStep.act.inj (List.mem_singleton.1 now)
      obtain ⟨t, here⟩ := Option.isSome_iff_exists.1
        (Std.ExtTreeMap.mem_iff_isSome_getElem?.1 ((racing.nodes k).2 member))
      exact (racing.begins (crowd k) here last (started k t here)).2 ticket rfl

/-- Whoever began to acquire a lock at some point of a run remains known for that. -/
theorem fresh_append {early late : List ClusterStep} (eq : steps = early ++ late) :
    ((ofNodes outranks names).chronicle lock early).fresh ⊆
      ((ofNodes outranks names).chronicle lock steps).fresh := by
  subst eq
  induction late using List.reverseRecOn with
  | nil => rw [List.append_nil]
  | append_singleton late step ih =>
    rw [← List.append_assoc] at calls ⊢
    have earlier : ∀ s ∈ early ++ late, s.Asks (· = .claim) :=
      fun s member => calls s (List.mem_append_left _ member)
    rw [chronicle_append_one]
    exact (ih earlier).trans
      ((Racing.run orders crowd earlier).fresh_subset_after (calls step (by simp)))

/-- Whoever holds a lock was asked to acquire it. -/
theorem sought_of_holds (holds : ((ofNodes outranks names).run steps).Holds k lock) :
    Sought lock k steps := by
  have racing := Racing.run orders crowd calls
  have has := (holds_scene _ lock ((ofNodes outranks names).chronicle lock steps) k).2 holds
  exact sought_of_fresh orders crowd calls
    ((racing.scenes lock).began (racing.toMeshed.mem_of_holds holds) (.inr has))

/-- Whoever holds a lock outranks all others that asked for it before the first delivery. -/
theorem outranks_of_early {w : NodeName}
    (holds : ((ofNodes outranks names).run steps).Holds w lock) {early late : List ClusterStep}
    (eq : steps = early ++ late) (acts : ∀ step ∈ early, ∃ k op, step = .act k op)
    (member : k ∈ names) (ne : k ≠ w) (sought : Sought lock k early) : outranks w k = true := by
  have racing := Racing.run orders crowd calls
  have earlier : ∀ step ∈ early, step.Asks (· = .claim) := fun step before =>
    calls step (eq ▸ List.mem_append_left _ before)
  have fresh := (fresh_of_calls orders crowd earlier acts).2 k member sought
  -- The one that asked consented to the one that holds the lock, and that it began to acquire the
  -- lock itself is not forgotten.
  have has := (holds_scene _ lock ((ofNodes outranks names).chronicle lock steps) w).2 holds
  have consented := (racing.scenes lock).passed (racing.toMeshed.mem_of_holds holds) member
    ne.symm (.inr (.inr has))
  exact consented.2 (fresh_append orders crowd calls eq fresh)

end

/-- How a race for a lock ends. When nothing is on its way any more after several nodes acquired and
queried it, one node has it, and all agree on that; everybody who asked for the lock was told so,
and no attempt is left. The node asked for the lock itself, outranks everybody who did before the
first delivery, and nobody loses the lock at any time. -/
theorem race_is_decided (outranks : Precedence) (names : NameSet) (orders : outranks.Orders names)
    (crowd : ∃ x ∈ names, ∃ y ∈ names, x ≠ y) (lock : Lock) (steps : List ClusterStep)
    (calls : ∀ step ∈ steps, step.Asks (· = .claim)) :
    let c := (ofNodes outranks names).run steps
    (∀ k, .lost k lock ∉ c.reports) ∧
    (c.Quiet → (∃ k ∈ names, Sought lock k steps) → ∃ w ∈ names,
      (∀ k, c.Holds k lock ↔ k = w) ∧
      (∀ (k : NodeName) (t : Arbitrator), c.nodes[k]? = some t →
        t.attempts[lock]? = none ∧ t.state lock = .held w) ∧
      (∀ k ∈ names, ∀ ticket, .act k (.acquire lock ticket) ∈ steps →
        .answered ticket (.ok (some w)) ∈ c.reports) ∧
      Sought lock w steps ∧
      ∀ early late, steps = early ++ late → (∀ step ∈ early, ∃ k op, step = .act k op) →
        ∀ k ∈ names, k ≠ w → Sought lock k early → outranks w k = true) := by
  have company : ∀ k, (Lock.company names k).Nonempty := by
    obtain ⟨x, hx, y, hy, ne⟩ := crowd
    exact fun k => Scene.company_nonempty hx hy ne
  refine ⟨not_lost_of_run orders company calls, fun quiet ⟨k₀, member₀, ticket₀, made₀⟩ => ?_⟩
  have racing := Racing.run orders company calls
  have internal : ∀ step ∈ steps, step.IsInternal := fun step member =>
    internal_of_asks (calls step member)
  obtain ⟨owner, holder, agreed⟩ := (Replicated.run outranks names internal).agreed quiet
  have settled : ∀ (k : NodeName) (t : Arbitrator),
      ((ofNodes outranks names).run steps).nodes[k]? = some t → t.attempts[lock]? = none :=
    fun k t here =>
      racing.toMeshed.attempts_of_quiet orders (racing.scenes lock).toLively quiet here
  have told : ∀ k ∈ names, ∀ ticket, .act k (.acquire lock ticket) ∈ steps →
      ∃ w, ((ofNodes outranks names).run steps).Holds w lock ∧
        .answered ticket (.ok (some w)) ∈ ((ofNodes outranks names).run steps).reports := by
    intro k member ticket made
    obtain ⟨_, ⟨w, rfl, holds⟩, answered⟩ :=
      (told_of_run orders company calls member made).answered fun t here => settled k t here
    exact ⟨w, holds, answered⟩
  obtain ⟨w, holds, -⟩ := told k₀ member₀ ticket₀ made₀
  obtain rfl := (holder w).1 holds
  have unique : ∀ k, ((ofNodes outranks names).run steps).Holds k lock ↔ k = w := fun k =>
    (holder k).trans ⟨fun eq => (Option.some.inj eq).symm, fun eq => congrArg some eq.symm⟩
  refine ⟨w, racing.toMeshed.mem_of_holds holds, unique, fun k t here => ⟨settled k t here, ?_⟩,
    fun k member ticket made => ?_, sought_of_holds orders company calls holds,
    fun early late eq acts k => outranks_of_early orders company calls holds eq acts⟩
  · rw [Arbitrator.state_of_settled (settled k t here), agreed k t here]
    rfl
  · obtain ⟨w', holds', answered⟩ := told k member ticket made
    obtain rfl := (unique w').1 holds'
    exact answered

/-- Two of three nodes want the lock at once, and the third asks who has it. -/
def contendedRun : List ClusterStep :=
  [.act "c" (.acquire contested 0), .act "b" (.acquire contested 1),
    .act "a" (.query contested 2)] ++
  deliveries [("c", "a"), ("c", "b"), ("b", "c"), ("b", "a"), ("a", "c"), ("a", "b"),
    ("c", "b"), ("b", "a"), ("b", "c")]

theorem race_is_decided_in_contendedRun :
    (∀ step ∈ contendedRun, step.Asks (· = .claim)) ∧
    ((ofNodes .byName (.ofList ["a", "b", "c"])).run contendedRun).Quiet ∧
    ((ofNodes .byName (.ofList ["a", "b", "c"])).run contendedRun).Holds "b" contested ∧
    .answered 0 (.ok (some "b")) ∈
      ((ofNodes .byName (.ofList ["a", "b", "c"])).run contendedRun).reports := by
  have calls : ∀ step ∈ contendedRun, step.Asks (· = .claim) := by
    simp [contendedRun, deliveries, ClusterStep.Asks, LockOp.Asks]
  have idle : ((ofNodes .byName (.ofList ["a", "b", "c"])).run contendedRun).busy = [] := by
    decide +kernel
  have quiet : ((ofNodes .byName (.ofList ["a", "b", "c"])).run contendedRun).Quiet :=
    fun p _ q _ => wires_of_busy idle p q
  have memberb : "b" ∈ (.ofList ["a", "b", "c"] : NameSet) := by decide +kernel
  have memberc : "c" ∈ (.ofList ["a", "b", "c"] : NameSet) := by decide +kernel
  have crowd : ∃ x ∈ (.ofList ["a", "b", "c"] : NameSet),
      ∃ y ∈ (.ofList ["a", "b", "c"] : NameSet), x ≠ y :=
    ⟨"b", memberb, "c", memberc, by decide⟩
  have asked : .act "b" (.acquire contested 1) ∈ contendedRun.take 3 := by
    simp [contendedRun]
  obtain ⟨-, decided⟩ := race_is_decided .byName (.ofList ["a", "b", "c"])
    (Precedence.byName_orders _) crowd contested contendedRun calls
  obtain ⟨w, -, unique, -, told, ⟨ticket, sought⟩, first⟩ :=
    decided quiet ⟨"b", memberb, 1, List.mem_of_mem_take asked⟩
  have second : w = "c" ∨ w = "b" := by
    simp [contendedRun, deliveries] at sought
    exact sought.imp And.left And.left
  obtain rfl : w = "b" := by
    refine second.resolve_left ?_
    rintro rfl
    have outranked := first (contendedRun.take 3) (contendedRun.drop 3)
      (List.take_append_drop 3 contendedRun).symm (by simp [contendedRun]) "b" memberb (by decide)
      ⟨1, asked⟩
    exact absurd outranked (by decide)
  exact ⟨calls, quiet, (unique "b").2 rfl, told "c" memberc 0 (by simp [contendedRun])⟩

end LockCluster

end Cohort

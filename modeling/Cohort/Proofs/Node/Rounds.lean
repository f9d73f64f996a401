import Cohort.Proofs.Node.Drain
import Cohort.Proofs.Node.Presence

/-!
# How many rounds there are

A node carries out what its locks and mappings ask of sessions, peers and the timer, round after
round, until nothing is asked. Every round but the first owes its work to a session that ended in
the round before, and no session comes in between, so the sessions run out. This does not depend on
which sessions and peers refuse what: their queues may fill, empty and close while the node is at
work.

## Main definitions

* `Node.asks`: something is asked of sessions, of peers or of the timer.
* `Node.Meanwhile`: what may happen outside while a node is at work.
* `Node.Round`: one round, whatever happens outside.
* `Node.Rounds`: round after round, each of which finds something asked.

## Main statements

* `Node.Round.wanes`: what a round leaves to be done.
* `Node.Rounds.spent`: every round but the first costs a session.
* `Node.rounds_run_out`: there is an end, after at most two rounds more than there are sessions.
-/

namespace Cohort

/-- What an effect hands out to a caller right away, if it is not one that asks something of
sessions, of peers or of the timer. -/
def LockEffect.handout? : LockEffect → Option NodeEffect
  | .answer ticket reply => some (.lockAnswer ticket reply)
  | _ => none

/-- What an effect hands out to a caller or a listener right away, if it is not one that asks
something of sessions or of peers. -/
def MappingEffect.handout? : MappingEffect → Option NodeEffect
  | .answer ticket reply => some (.mappingAnswer ticket reply)
  | .told news => some (.told news)
  | _ => none

namespace Node

variable {n m k : Node} {rounds : Nat}

/-- Whether something is asked of sessions, of peers or of the timer. -/
def asks (n : Node) : Bool :=
  n.locks.outbox.any (·.handout?.isNone) || n.mappings.outbox.any (·.handout?.isNone)

/-- What goes out to callers and listeners right away. -/
def handouts (n : Node) : List NodeEffect :=
  n.locks.outbox.filterMap LockEffect.handout? ++
    n.mappings.outbox.filterMap MappingEffect.handout?

/-- A node that has handed out what goes out right away. -/
def handedOut (n : Node) : Node := { n.relieved with outbox := n.outbox ++ n.handouts }

/-! ## Rounds -/

/-- What may happen outside while a node is at work: its sessions and links come to take or refuse
what they like, but no session comes or goes. -/
structure Meanwhile (n m : Node) : Prop where
  sessions : (m.sessions.map fun _ session => session.node) =
    n.sessions.map fun _ session => session.node
  rest : m = { n with sessions := m.sessions, links := m.links }

theorem Meanwhile.refl (n : Node) : n.Meanwhile n := ⟨rfl, rfl⟩

/-- One thing is done after the other, and anything may happen outside before each. -/
inductive Does {Effect : Type} (step : Node → Effect → Node) : List Effect → Node → Node → Prop
  | done (n : Node) : Does step [] n n
  | next {effect : Effect} {effects : List Effect} {n m k : Node} (meanwhile : n.Meanwhile m)
      (later : Does step effects (step m effect) k) : Does step (effect :: effects) n k

/-- One round: everything that is wanted at its start is done. -/
def Round (n m : Node) : Prop :=
  ∃ k, Does lockEffect n.locks.outbox n.relieved k ∧ Does mappingEffect n.mappings.outbox k m

/-- Round after round, each of which finds something asked. -/
inductive Rounds (round : Node → Node → Prop) : Nat → Node → Node → Prop
  | none (n : Node) : Rounds round 0 n n
  | more {rounds : Nat} {n m k : Node} (asks : n.asks = true) (first : round n m)
      (later : Rounds round rounds m k) : Rounds round (rounds + 1) n k

theorem Does.foldl {Effect : Type} (step : Node → Effect → Node) (effects : List Effect)
    (n : Node) : Does step effects n (effects.foldl step n) := by
  induction effects generalizing n with
  | nil => exact .done n
  | cons effect effects ih => exact .next (.refl n) (ih (step n effect))

/-- A node that nothing happens to meanwhile does a round, too. -/
theorem round_drainOnce (n : Node) : n.Round n.drainOnce := ⟨_, .foldl .., .foldl ..⟩

/-! ## What a round leaves to be done -/

theorem Does.preserves {Effect : Type} {step : Node → Effect → Node} {effects : List Effect}
    {P : Node → Prop} (meanwhile : ∀ n m, n.Meanwhile m → P n → P m)
    (each : ∀ effect n, P n → P (step n effect)) (does : Does step effects n m) (holds : P n) :
    P m := by
  induction does with
  | done => exact holds
  | next outside _ ih => exact ih (each _ _ (meanwhile _ _ outside holds))

theorem Wanes.meanwhile {size : Nat} (wanes : n.Wanes size) (outside : n.Meanwhile m) :
    m.Wanes size := by
  have same : m.sessions.size = n.sessions.size := by
    have sizes := congrArg Std.ExtTreeMap.size outside.sessions
    rwa [Std.ExtTreeMap.size_map, Std.ExtTreeMap.size_map] at sizes
  have locks : m.locks = n.locks := by rw [outside.rest]
  have mappings : m.mappings = n.mappings := by rw [outside.rest]
  refine ⟨same ▸ wanes.sessions, ?_, mappings ▸ wanes.mappings⟩
  rw [same, locks]
  exact wanes.locks

/-- After a round, a session less is there, or next to nothing is left to do. -/
theorem Round.wanes (round : n.Round m) : m.Wanes n.sessions.size := by
  obtain ⟨k, locks, mappings⟩ := round
  have start : n.relieved.Wanes n.sessions.size := ⟨Nat.le_refl _, fun _ => rfl, nofun⟩
  have outside (k m : Node) (outside : k.Meanwhile m) (wanes : k.Wanes n.sessions.size) :=
    wanes.meanwhile outside
  have halfway := locks.preserves outside (fun effect _ wanes => wanes.lockEffect effect) start
  exact mappings.preserves outside (fun effect _ wanes => wanes.mappingEffect effect) halfway

/-- What is asked after a round is asked because a session ended. -/
theorem Wanes.lt_of_asks {size : Nat} (wanes : n.Wanes size) (asks : n.asks = true) :
    n.sessions.size < size := by
  refine Nat.lt_of_le_of_ne wanes.sessions fun all => ?_
  have answered : n.mappings.outbox.any (·.handout?.isNone) = false := by
    rw [List.any_eq_false]
    intro effect there
    have answer := wanes.mappings effect there
    cases effect with
    | answer ticket reply => exact Bool.false_ne_true
    | _ => cases answer
  rw [Node.asks, wanes.locks all, answered] at asks
  cases asks

/-! ## There is an end -/

/-- After a round, every round that finds something asked costs a session. -/
theorem Rounds.costs {size : Nat} (run : Rounds Round rounds n m) (wanes : n.Wanes size) :
    m.sessions.size + rounds ≤ size := by
  induction run generalizing size with
  | none n => exact wanes.sessions
  | more asks first later ih =>
    have fewer := wanes.lt_of_asks asks
    have rest := ih first.wanes
    omega

/-- Every round but the first costs a session. -/
theorem Rounds.spent (run : Rounds Round rounds n m) :
    m.sessions.size + rounds ≤ n.sessions.size + 1 := by
  -- what the first round finds may have been there before, so no session need have ended for it
  cases run with
  | none => omega
  | more asks first later =>
    have rest := later.costs first.wanes
    omega

theorem Rounds.snoc {round : Node → Node → Prop} (run : Rounds round rounds n m)
    (asks : m.asks = true) (last : round m k) : Rounds round (rounds + 1) n k := by
  induction run with
  | none n => exact .more asks last (.none k)
  | more asks' first later ih => exact .more asks' first (ih asks last)

theorem Rounds.mono {round round' : Node → Node → Prop} (weaker : ∀ n m, round n m → round' n m)
    (run : Rounds round rounds n m) : Rounds round' rounds n m := by
  induction run with
  | none n => exact .none n
  | more asks first later ih => exact .more asks (weaker _ _ first) ih

/-- A round that nothing outside disturbs. -/
def Undisturbed (n m : Node) : Prop := m = n.drainOnce

theorem Undisturbed.round (undisturbed : n.Undisturbed m) : n.Round m :=
  undisturbed ▸ round_drainOnce n

/-- A run goes on until nothing is asked. -/
theorem exists_rounds_of_length (n : Node) (length : Nat) :
    ∃ rounds m, Rounds Undisturbed rounds n m ∧ (m.asks = false ∨ rounds = length) := by
  induction length generalizing n with
  | zero => exact ⟨0, n, .none n, .inr rfl⟩
  | succ length ih =>
    cases asks : n.asks with
    | false => exact ⟨0, n, .none n, .inl asks⟩
    | true =>
      obtain ⟨rounds, m, run, ending⟩ := ih n.drainOnce
      exact ⟨rounds + 1, m, .more asks rfl run, ending.imp_right (congrArg (· + 1))⟩

theorem exists_rounds (n : Node) : ∃ rounds m, Rounds Undisturbed rounds n m ∧ m.asks = false := by
  obtain ⟨rounds, m, run, nothing | long⟩ := n.exists_rounds_of_length (n.sessions.size + 2)
  · exact ⟨rounds, m, run, nothing⟩
  · have spent := (run.mono fun _ _ => Undisturbed.round).spent
    omega

/-! ## What `drain` comes to -/

theorem lockEffect_handout {effect : LockEffect} {handout : NodeEffect}
    (there : effect.handout? = some handout) : n.lockEffect effect = n.emit handout := by
  cases effect <;> cases there
  rfl

theorem mappingEffect_handout {effect : MappingEffect} {handout : NodeEffect}
    (there : effect.handout? = some handout) : n.mappingEffect effect = n.emit handout := by
  cases effect <;> cases there <;> rfl

/-- Effects that only hand out. -/
theorem foldl_handout {Effect : Type} {step : Node → Effect → Node}
    {handout? : Effect → Option NodeEffect}
    (emits : ∀ n effect handout, handout? effect = some handout → step n effect = n.emit handout)
    {effects : List Effect} (handy : effects.any (fun effect => (handout? effect).isNone) = false)
    (n : Node) : effects.foldl step n =
      { n with outbox := n.outbox ++ effects.filterMap handout? } := by
  induction effects generalizing n with
  | nil => rw [List.foldl_nil, List.filterMap_nil, List.append_nil]
  | cons effect effects ih =>
    rw [List.any_cons, Bool.or_eq_false_iff] at handy
    obtain ⟨handout, there⟩ := Option.isSome_iff_exists.1 (Option.isNone_eq_false_iff.1 handy.1)
    rw [List.foldl_cons, emits _ _ _ there, ih handy.2, List.filterMap_cons_some there]
    simp only [emit, List.append_assoc, List.singleton_append]

/-- Where nothing is asked, a round hands out what goes out right away. -/
theorem drainOnce_of_not_asks (nothing : n.asks = false) : n.drainOnce = n.handedOut := by
  obtain ⟨locks, mappings⟩ := Bool.or_eq_false_iff.1 nothing
  have first : n.locks.outbox.foldl lockEffect n.relieved = { n.relieved with
      outbox := n.outbox ++ n.locks.outbox.filterMap LockEffect.handout? } :=
    foldl_handout (fun _ _ _ => lockEffect_handout) locks n.relieved
  show n.mappings.outbox.foldl mappingEffect (n.locks.outbox.foldl lockEffect n.relieved) = _
  rw [first, foldl_handout (fun _ _ _ => mappingEffect_handout) mappings, handedOut, handouts,
    ← List.append_assoc]

theorem handedOut_of_quiet (quiet : n.isQuiet = true) : n.handedOut = n := by
  obtain ⟨locks, mappings⟩ := isQuiet_iff.1 quiet
  have handouts : n.handouts = [] := by rw [Node.handouts, locks, mappings]; rfl
  have same : n.relieved = n := by rw [relieved, ← locks, ← mappings]
  rw [handedOut, handouts, List.append_nil, same]

theorem isQuiet_of_asks (asks : n.asks = true) : n.isQuiet = false := by
  refine Bool.eq_false_iff.2 fun quiet => ?_
  obtain ⟨locks, mappings⟩ := isQuiet_iff.1 quiet
  rw [Node.asks, locks, mappings] at asks
  cases asks

/-- Enough rounds are those that find something asked, and one that hands out the rest. -/
theorem Rounds.drainWithin_eq (run : Rounds Undisturbed rounds n m) (nothing : m.asks = false)
    {fuel : Nat} (enough : rounds < fuel) : drainWithin fuel n = m.handedOut := by
  induction run generalizing fuel with
  | none n =>
    obtain ⟨fuel, rfl⟩ := Nat.exists_eq_add_one_of_ne_zero (Nat.ne_of_gt enough)
    unfold drainWithin
    split
    next quiet => exact (handedOut_of_quiet quiet).symm
    next => rw [drainOnce_of_not_asks nothing, drainWithin_of_quiet rfl]
  | more asks first later ih =>
    obtain ⟨fuel, rfl⟩ := Nat.exists_eq_add_one_of_ne_zero (Nat.ne_of_gt (Nat.zero_lt_of_lt enough))
    rw [drainWithin, if_neg (Bool.eq_false_iff.1 (isQuiet_of_asks asks)), ← ih nothing
      (Nat.lt_of_succ_lt_succ enough), first]

/-- Whichever sessions and peers refuse what they are sent, and whatever else happens outside
meanwhile, a node is done after at most two rounds more than it has sessions, where the last one,
which finds nothing asked any more, is counted, and as many less as there are sessions left. Until
then it can always go on. If nothing happens outside meanwhile, this is what `drain` comes to, and
it leaves nothing to be done. -/
theorem rounds_run_out (n : Node) :
    (∀ rounds m, Rounds Round rounds n m →
      m.sessions.size + (rounds + 1) ≤ n.sessions.size + 2 ∧
        (m.asks = true → ∃ k, Rounds Round (rounds + 1) n k)) ∧
    ∃ rounds m, Rounds Undisturbed rounds n m ∧ m.asks = false ∧
      rounds + 1 ≤ n.sessions.size + 2 ∧ n.drain = m.handedOut ∧
      n.drain.locks.outbox = [] ∧ n.drain.mappings.outbox = [] := by
  refine ⟨fun rounds m run => ⟨Nat.succ_le_succ run.spent, fun asks => ?_⟩, ?_⟩
  · exact ⟨m.drainOnce, run.snoc asks m.round_drainOnce⟩
  · obtain ⟨rounds, m, run, nothing⟩ := n.exists_rounds
    have spent := (run.mono fun _ _ => Undisturbed.round).spent
    have drained : n.drain = m.handedOut := run.drainWithin_eq nothing (by omega)
    exact ⟨rounds, m, run, nothing, by omega, drained, drained ▸ rfl, drained ▸ rfl⟩

/-- A node that acquires a lock, with one session, whose queue is full. -/
def crowded : Node :=
  let n := newcomer.openSession 1 "b" (.fresh 1)
  { n with locks := n.locks.acquire ⟨"disk", none⟩ 7 }

/-- That the session ends completes the attempt, so more is published, and as many rounds are needed
as there may be. -/
theorem rounds_run_out_of_crowded :
    crowded.sessions.size = 1 ∧
    Rounds Round 2 crowded crowded.drainOnce.drainOnce ∧
    crowded.drainOnce.drainOnce.sessions.size = 0 ∧
    crowded.drainOnce.drainOnce.asks = false := by
  have size : crowded.sessions.size = 1 := by decide +kernel
  have run : Rounds Round 2 crowded crowded.drainOnce.drainOnce :=
    .more (by decide +kernel) (round_drainOnce _)
      (.more (by decide +kernel) (round_drainOnce _) (.none _))
  obtain ⟨bound, -⟩ := crowded.rounds_run_out.1 2 _ run
  exact ⟨size, run, by omega, by decide +kernel⟩

end Node

end Cohort

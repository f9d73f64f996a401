import Cohort.Proofs.Node.Answers
import Cohort.Proofs.Node.Attempts

/-!
# Whose result ends a call

A call to a peer is recorded with the peer that is to answer it, and a peer that goes away ends just
the calls to it. A result is looked up by its number alone: it ends the call with that number,
whichever peer sent it. So a result leaves the calls to other peers alone if and only if the call
with its number, if there is one, went to the peer that sent the result.

## Main definitions

* `CallKind.Spares`, `Node.Spares`: nothing happens to the calls to other peers.
* `CallKind.EndedBy`: a result ends the call with its number, and its caller is answered.

## Main statements

* `Node.drain_answer`: a caller that is to be answered is answered, and that is all.
* `Node.results_end_calls_by_number`: what a result does to the calls of a node.
* `Node.call_ended_by_another_peer`: a peer ends a call that was not sent to it.
-/

namespace Cohort

/-- Nothing happens to the calls of a kind that were sent to other peers than this one. -/
def CallKind.Spares {α : Type} (kind : CallKind α) (peer : NodeName) (n n' : Node) : Prop :=
  ∀ (number : Nat) (call : α), (kind.book n).pending[number]? = some call →
    kind.peer call ≠ peer → (kind.book n').pending[number]? = some call

/-- Nothing happens to calls that were sent to other peers than this one. -/
structure Node.Spares (peer : NodeName) (n n' : Node) : Prop where
  mappings : mappingCalls.Spares peer n n'
  actions : actionCalls.Spares peer n n'

/-- A result of a peer ends the call with its number, if there is one. -/
structure CallKind.EndedBy {α : Type} (kind : CallKind α) (peer : NodeName) (number : Nat)
    (answer : Ticket → NodeEffect) (n n' : Node) : Prop where
  /-- This call ends, and no other call of its kind does. -/
  pending : (kind.book n').pending = (kind.book n).pending.erase number
  /-- Its caller is answered, if one waits for it, and nothing else is done outside. -/
  told : n'.outbox =
    n.outbox ++ (((kind.book n).pending[number]?.bind kind.caller).map answer).toList
  /-- Calls to other peers are left alone just if this one was sent to the peer. -/
  spares : n.Spares peer n' ↔
    ∀ call, (kind.book n).pending[number]? = some call → kind.peer call = peer

namespace CallKind

variable {α : Type} {kind : CallKind α} {peer : NodeName} {number : Nat} {n n' : Node}

/-- The calls of the other kind are the same ones as before. -/
theorem Spares.of_eq (same : kind.book n' = kind.book n) : kind.Spares peer n n' := by
  intro number call found _
  rwa [same]

/-- A call that ends was sent to the peer, or calls to others are not left alone. -/
theorem spares_iff (ended : (kind.book n').pending = (kind.book n).pending.erase number) :
    kind.Spares peer n n' ↔
      ∀ call, (kind.book n).pending[number]? = some call → kind.peer call = peer := by
  constructor
  · intro spares call found
    by_contra other
    have still := spares number call found other
    rw [ended, Std.ExtTreeMap.getElem?_erase_self] at still
    cases still
  · intro own k call found other
    rw [ended, Std.ExtTreeMap.getElem?_erase, if_neg ?_]
    · exact found
    · intro eq
      rw [Std.compare_eq_iff_eq.1 eq] at own
      exact other (own call found)

end CallKind

namespace Node

variable {n : Node} {peer : NodeName} {link : Link}

/-- A caller that is to be answered is answered, and that is all. -/
theorem drain_answer (quiet : n.isQuiet = true) (ticket : Ticket) (reply : MappingReply) :
    { n with mappings := n.mappings.answer ticket reply }.drain =
      n.emit (.mappingAnswer ticket reply) := by
  obtain ⟨locks, mappings⟩ := isQuiet_iff.1 quiet
  have asks : { n with mappings := n.mappings.answer ticket reply }.isQuiet = false := by
    simp [isQuiet, MappingService.answer, MappingService.emit]
  have locks' : { n.locks with outbox := [] } = n.locks := by rw [← locks]
  have mappings' : { n.mappings with outbox := [] } = n.mappings := by rw [← mappings]
  have once : { n with mappings := n.mappings.answer ticket reply }.drainOnce =
      n.emit (.mappingAnswer ticket reply) := by
    simp only [drainOnce, Arbitrator.takeOutbox, MappingService.takeOutbox, MappingService.answer,
      MappingService.emit, locks, mappings, List.nil_append, List.foldl_nil, List.foldl_cons,
      mappingEffect, locks', mappings']
  have quiet' : (n.emit (.mappingAnswer ticket reply)).isQuiet = true := quiet
  unfold drain drainWithin
  rw [if_neg (by rw [asks]; exact Bool.false_ne_true), once, drainWithin_of_quiet quiet']

/-- A result for a mapping ends a call, and its caller is answered if one waits for it. -/
theorem mappingResult_ends (rested : n.Rested) (number : Nat) (reply : MappingReply) :
    let n' := { n with mappings := n.mappings.callCompleted number reply }.drain.answerActions
    n'.mappings.pending = n.mappings.pending.erase number ∧ n'.actions = n.actions ∧
      n'.outbox = n.outbox ++ ((n.mappings.pending[number]?.bind PendingCall.caller?).map
        fun ticket => .mappingAnswer ticket reply).toList := by
  have nothing := isQuiet_iff.1 rested.quiet
  have handed : ∀ s : MappingService, s.outbox = [] → ({ n with mappings := s } : Node).Rested :=
    fun s none => ⟨isQuiet_iff.2 ⟨nothing.1, none⟩, rested.actions⟩
  have ended := (n.mappings.pending_callCompleted number reply).1
  obtain ⟨found, same⟩ | ⟨peer, ticket, found, told⟩ | ⟨peer, index, entries, found, back⟩ :=
    n.mappings.callCompleted_cases number reply
  · have idle := (handed _ (same ▸ nothing.2)).finish
    simp only [idle, ended, found]
    simp
  · -- the caller is answered, and then nothing is left to do
    have without := handed (n.mappings.without number) nothing.2
    have drained := drain_answer without.quiet ticket reply
    have answered : (({ n with mappings := n.mappings.without number } : Node).emit
        (.mappingAnswer ticket reply)).Rested := ⟨without.quiet, without.actions⟩
    have finished := answered.finish
    rw [drain_of_quiet answered.quiet] at finished
    simp only [told, drained, finished, found]
    exact ⟨rfl, rfl, rfl⟩
  · have silent : (n.mappings.callCompleted number reply).outbox = [] := by
      obtain ⟨effects, grown, answers⟩ := n.mappings.outbox_callCompleted number reply
      rw [grown, nothing.2, List.nil_append, List.eq_nil_iff_forall_not_mem]
      intro effect there
      obtain ⟨_, _, -, found'⟩ := answers effect there
      cases found.symm.trans found'
    simp only [(handed _ silent).finish, ended, found]
    simp [PendingCall.caller?]

/-- A result for an action ends a call, and its caller is answered. -/
theorem actionResult_ends (rested : n.Rested) (number : Nat) (reply : ActionReply) :
    let n' := { n with actions := n.actions.complete number reply }.drain.answerActions
    n'.actions.pending = n.actions.pending.erase number ∧ n'.mappings = n.mappings ∧
      n'.outbox = n.outbox ++ ((n.actions.pending[number]?.bind PendingAction.caller?).map
        fun ticket => .actionAnswer ticket reply).toList := by
  have quiet : ({ n with actions := n.actions.complete number reply } : Node).isQuiet = true :=
    rested.quiet
  have told : (n.actions.complete number reply).outbox =
      ((n.actions.pending[number]?.bind PendingAction.caller?).map (·, reply)).toList := by
    unfold NodeActions.complete
    split
    next call found =>
      rw [found]
      simp [NodeActions.answer, rested.actions, PendingAction.caller?]
    next none =>
      rw [none, rested.actions]
      rfl
  simp only [drain_of_quiet quiet, answerActions_eq, told]
  refine ⟨n.actions.pending_complete number reply, trivial, ?_⟩
  cases n.actions.pending[number]?.bind PendingAction.caller? <;> rfl

/-- A result that comes over the current link of a peer ends the call of its kind that has its
number, whichever peer that call was sent to. So the calls to other peers are left alone if and only
if this one was sent to the peer that sends the result. -/
theorem results_end_calls_by_number (started : n.Started) (run : List Occurrence) {peer : NodeName}
    {link : Link} {generation : Nat} (found : (n.after run).links[peer]? = some link)
    (current : link.isCurrent generation = true) (number : Nat) (code : UInt32)
    (value : Option Bytes) :
    mappingCalls.EndedBy peer number (.mappingAnswer · (Message.outcome code value)) (n.after run)
        ((n.after run).step
          (.link peer generation (.message (.mappingResult number code value)))) ∧
      actionCalls.EndedBy peer number (.actionAnswer · (actionOutcome code value)) (n.after run)
        ((n.after run).step
          (.link peer generation (.message (.actionResult number code value)))) := by
  have rested : (n.after run).Rested := started.rested.after run
  have running : (n.after run).stopped = false := by
    by_contra stopped
    have up : (n.after run).IsUp peer := ⟨link, found, ((isCurrent_iff _).1 current).2⟩
    exact down_of_stopped started.running (by simpa using stopped) up
  rw [step_message running found current, step_message running found current]
  constructor
  · obtain ⟨pending, actions, told⟩ :=
      mappingResult_ends rested number (Message.outcome code value)
    have own : mappingCalls.Spares peer (n.after run) _ ↔ _ := CallKind.spares_iff pending
    refine ⟨pending, told, .trans ?_ own⟩
    exact ⟨Spares.mappings, fun spares => ⟨spares, .of_eq (congrArg NodeActions.book actions)⟩⟩
  · obtain ⟨pending, mappings, told⟩ := actionResult_ends rested number (actionOutcome code value)
    have own : actionCalls.Spares peer (n.after run) _ ↔ _ := CallKind.spares_iff pending
    refine ⟨pending, told, .trans ?_ own⟩
    exact ⟨Spares.actions, fun spares => ⟨.of_eq (congrArg MappingService.book mappings), spares⟩⟩

/-- A run in which two peers turn up, and a caller wants something done by one of them. -/
def invokingRun : List Occurrence :=
  [.command (.loaded 10 (.ok [(NodeConfig.onLoopback "b").record 4001 10,
      (NodeConfig.onLoopback "c").record 4002 10])),
    .command (.link "b" 1 (.connected 8)),
    .command (.link "b" 1 (.message (.snapshot ⟨"b", 10, ∅, 0⟩))),
    .command (.link "c" 1 (.connected 8)),
    .command (.link "c" 1 (.message (.snapshot ⟨"c", 10, ∅, 0⟩))),
    .command (.invoke "b" "rewind" [] 1)]

theorem current_in_invokingRun : ∀ peer ∈ ["b", "c"],
    ∃ link, (newcomer.after invokingRun).links[peer]? = some link ∧
      link.isCurrent 1 = true := by
  have seen : ∀ peer ∈ ["b", "c"],
      (newcomer.after invokingRun).links[peer]?.any (·.isCurrent 1) = true := by decide +kernel
  intro peer there
  obtain ⟨link, found, current⟩ := (Option.any_eq_true _ _).1 (seen peer there)
  exact ⟨link, found, current⟩

/-- The peer that was asked answers. -/
theorem results_end_calls_by_number_in_invokingRun : newcomer.Started ∧
    ∃ link, (newcomer.after invokingRun).links["b"]? = some link ∧ link.isCurrent 1 = true ∧
      actionCalls.EndedBy "b" 1 (.actionAnswer · (actionOutcome 0 (some [7])))
        (newcomer.after invokingRun)
        ((newcomer.after invokingRun).step
          (.link "b" 1 (.message (.actionResult 1 0 (some [7]))))) := by
  obtain ⟨link, found, current⟩ := current_in_invokingRun "b" (by simp)
  have ended := results_end_calls_by_number newcomer_started invokingRun found current 1 0
    (some [7])
  exact ⟨newcomer_started, link, found, current, ended.2⟩

/-- Another peer answers the call of the one that was asked, and the caller is told so. -/
theorem call_ended_by_another_peer :
    let n := newcomer.after invokingRun
    let n' := n.step (.link "c" 1 (.message (.actionResult 1 0 (some [7]))))
    newcomer.Started ∧ n.links["c"]?.any (·.isCurrent 1) = true ∧
      n.actions.pending[1]? = some ⟨"b", 1⟩ ∧ n.actionsAnswered = [] ∧
      n'.actions.pending[1]? = none ∧ n'.actionsAnswered = [1] ∧ ¬ n.Spares "c" n' := by
  intro n n'
  have asked : n.actions.pending[1]? = some ⟨"b", 1⟩ := by decide +kernel
  have ended : n'.actions.pending[1]? = none := by decide +kernel
  refine ⟨newcomer_started, by decide +kernel, asked, by decide +kernel, ended, by decide +kernel,
    fun spares => ?_⟩
  have still := spares.actions 1 ⟨"b", 1⟩ asked (by decide)
  cases ended.symm.trans still

end Node

end Cohort

import Cohort.Proofs.Action.Waiting
import Cohort.Proofs.Node.Moves

/-!
# Commands and callers

Whatever a command does to the mappings and to the actions of a node, callers that ask are answered
or wait. The number under which one of them waits is not given again, whatever happens later.

## Main definitions

* `NodeCommand.asks`, `NodeCommand.asksAction`: the callers that ask by a command.
* `Node.Silent`: nobody is answered.
* `Node.Ages`: numbers that were given once are not given again.

## Main statements

* `Node.serves_apply`, `Node.invoke_serves`: a command serves those who ask.
* `Node.silent_apply`: hardly any command answers callers itself.
* `Node.ages_after`: no number is given twice.
-/

namespace Cohort

/-- The caller that asks for a mapping by a command, if one does. -/
def NodeCommand.asks : NodeCommand → List Ticket
  | .mapping _ ticket => [ticket]
  | _ => []

/-- The caller that asks for an action of a node by a command, if one does. -/
def NodeCommand.asksAction : NodeCommand → List Ticket
  | .invoke _ _ _ ticket => [ticket]
  | _ => []

/-- Who asks for a mapping when something happens. -/
def Occurrence.asks : Occurrence → List Ticket
  | .command given => given.asks
  | _ => []

/-- Who asks for an action of a node when something happens. -/
def Occurrence.asksAction : Occurrence → List Ticket
  | .command given => given.asksAction
  | _ => []

/-- The caller of a mapping that an effect answers, if it answers one. -/
def NodeEffect.mappingCaller? : NodeEffect → Option Ticket
  | .mappingAnswer ticket _ => some ticket
  | _ => none

/-- The caller of an action that an effect answers, if it answers one. -/
def NodeEffect.actionCaller? : NodeEffect → Option Ticket
  | .actionAnswer ticket _ => some ticket
  | _ => none

namespace Node

variable {inOrder : Prop} {n n' : Node}

open MappingService (Serves serves_of_eq)

theorem serves_peerEvent {m : Node} (numbered : n.mappings.Numbered)
    (same : m.mappings = n.mappings) (peer : NodeName) (event : NodeEvent) :
    Serves [] n.mappings (m.peerEvent peer event).mappings := by
  rw [← same] at numbered ⊢
  cases event with
  | cacheData cache data =>
    simp only [peerEvent]
    split <;> exact MappingService.cacheData_serves numbered cache data
  | _ => exact serves_of_eq numbered rfl rfl rfl

theorem serves_peerLost {m : Node} (numbered : n.mappings.Numbered)
    (same : m.mappings = n.mappings) (peer : NodeName) :
    Serves [] n.mappings (m.peerLost peer).mappings := by
  rw [← same] at numbered ⊢
  have lost := MappingService.peerDisconnected_serves numbered peer
  exact lost.trans (MappingService.updateMinistry_serves lost.numbered _)

/-- Nobody asks in a move. -/
theorem Move.serves (move : n.Move inOrder n') (numbered : n.mappings.Numbered) :
    Serves [] n.mappings n'.mappings := by
  cases move with
  | consulted =>
    unfold refresh
    split <;> exact serves_of_eq numbered rfl rfl rfl
  | tried now found =>
    rw [connect_eq found]
    exact serves_of_eq numbered rfl rfl rfl
  | dropped peer =>
    unfold linkDown
    exact serves_peerLost numbered (by rfl) peer
  | forgotten peer =>
    simp only [forget]
    split
    · exact serves_of_eq numbered rfl rfl rfl
    · exact serves_peerLost numbered (by rfl) peer
  | followed => exact MappingService.updateMinistry_serves numbered _
  | heard sequence event => exact serves_peerEvent numbered (by rfl) _ event
  | mappingResult requestId reply =>
    exact MappingService.callCompleted_serves numbered requestId reply
  | _ => exact serves_of_eq numbered rfl rfl rfl

theorem Moves.serves (moves : n.Moves inOrder n') (numbered : n.mappings.Numbered) :
    Serves [] n.mappings n'.mappings := by
  induction moves with
  | refl => exact serves_of_eq numbered rfl rfl rfl
  | tail _ move ih => exact ih.trans (move.serves ih.numbered)

/-- A command serves those who ask. -/
theorem serves_apply (numbered : n.mappings.Numbered) {command : NodeCommand}
    (lasting : ∀ now, command ≠ .shutDown now) :
    Serves command.asks n.mappings (n.apply command).mappings := by
  cases command with
  | link peer generation report => exact (n.moves_linkReport peer generation report).serves numbered
  | loaded now answer =>
    have moves : n.Moves True (n.loaded now answer) := n.moves_loaded now answer
    exact moves.serves numbered
  | shutDown now => exact absurd rfl (lasting now)
  | openSession number node queue =>
    simp only [Node.apply, openSession]
    split
    · exact serves_of_eq numbered rfl rfl rfl
    · split <;> exact serves_of_eq numbered rfl rfl rfl
  | sessionRequest number request =>
    simp only [Node.apply]
    split
    · cases request with
      | mapping requestId call => exact MappingService.handleCall_serves numbered call
      | _ => exact serves_of_eq numbered rfl rfl rfl
    · exact serves_of_eq numbered rfl rfl rfl
  | closeSession number =>
    simp only [Node.apply]
    rw [closeSession_keeps]
    exact serves_of_eq numbered rfl rfl rfl
  | refresh =>
    have looked : n.Move True n.refresh := .consulted
    exact looked.serves numbered
  | flush now =>
    have flushed := MappingService.flush_serves numbered now false
    exact flushed.trans (MappingService.resumeHandOffs_serves flushed.numbered)
  | mapping call ticket => exact MappingService.submit_serves numbered call ticket
  | invoke node action args ticket =>
    simp only [Node.apply]
    obtain ⟨reply, answered⟩ | ⟨-, went | ⟨failure, failed⟩⟩ :=
      n.invoke_cases node action args ticket
    · rw [answered]
      exact serves_of_eq numbered rfl rfl rfl
    · rw [went, sendToPeer_keeps]
      exact serves_of_eq numbered rfl rfl rfl
    · rw [failed, sendToPeer_keeps]
      exact serves_of_eq numbered rfl rfl rfl
  | tellCacheStale cache data =>
    simp only [Node.apply, tellCacheStale]
    split
    · exact serves_of_eq numbered rfl rfl rfl
    · rw [publish_keeps]
      exact serves_of_eq numbered rfl rfl rfl
  | listen index listener => exact MappingService.addListener_serves numbered index listener
  | _ => exact serves_of_eq numbered rfl rfl rfl

/-! ## Callers of actions -/

/-- Nobody asks for an action in a move. -/
theorem Move.servesActions (move : n.Move inOrder n') (numbered : n.actions.book.Numbered) :
    NodeActions.Serves [] n.actions n'.actions := by
  cases move with
  | consulted =>
    unfold refresh
    split <;> exact .refl numbered
  | tried now found =>
    rw [connect_eq found]
    exact .refl numbered
  | dropped peer => exact NodeActions.peerDisconnected_serves numbered peer
  | forgotten peer =>
    simp only [forget]
    split
    · exact .refl numbered
    · exact NodeActions.peerDisconnected_serves numbered peer
  | heard sequence event =>
    rw [peerEvent_keeps]
    exact .refl numbered
  | actionResult requestId reply => exact NodeActions.complete_serves numbered requestId reply
  | _ => exact .refl numbered

theorem Moves.servesActions (moves : n.Moves inOrder n') (numbered : n.actions.book.Numbered) :
    NodeActions.Serves [] n.actions n'.actions := by
  induction moves with
  | refl => exact .refl numbered
  | tail _ move ih => exact ih.trans (move.servesActions ih.numbered)

/-- A caller that asks for an action is answered at once, or its request goes to a peer that this
node follows. -/
theorem invoke_serves (n : Node) (numbered : n.actions.book.Numbered) (node : NodeName)
    (action : String) (args : Bytes) (ticket : Ticket) :
    (∃ reply, n.invoke node action args ticket = n.emit (.actionAnswer ticket reply)) ∨
      n.follows node = true ∧
        (n.invoke node action args ticket).outbox = n.outbox ∧
        (n.invoke node action args ticket).mappings = n.mappings ∧
        NodeActions.Serves [⟨node, ticket⟩] n.actions
          (n.invoke node action args ticket).actions := by
  have started := NodeActions.start_serves numbered node ticket
  obtain answered | ⟨following, went | ⟨failure, failed⟩⟩ := n.invoke_cases node action args ticket
  · exact .inl answered
  · right
    rw [went, sendToPeer_keeps]
    exact ⟨following, rfl, rfl, started⟩
  · right
    rw [failed, sendToPeer_keeps]
    exact ⟨following, rfl, rfl, started.trans (NodeActions.complete_serves started.numbered _ _)⟩

/-! ## Who is answered -/

/-- The callers of mappings that were answered. -/
def mappingsAnswered (n : Node) : List Ticket := n.outbox.filterMap NodeEffect.mappingCaller?

/-- The callers of actions that were answered. -/
def actionsAnswered (n : Node) : List Ticket := n.outbox.filterMap NodeEffect.actionCaller?

/-- Nobody is answered. -/
structure Silent (n n' : Node) : Prop where
  mappings : n'.mappingsAnswered = n.mappingsAnswered
  actions : n'.actionsAnswered = n.actionsAnswered

namespace Silent

theorem of_eq (same : n'.outbox = n.outbox) : n.Silent n' := by
  refine ⟨?_, ?_⟩
  · rw [mappingsAnswered, same, mappingsAnswered]
  · rw [actionsAnswered, same, actionsAnswered]

theorem trans {n'' : Node} (first : n.Silent n') (second : n'.Silent n'') : n.Silent n'' :=
  ⟨second.mappings.trans first.mappings, second.actions.trans first.actions⟩

/-- Something else is to be done outside. -/
theorem of_emit {effect : NodeEffect} (mappings : effect.mappingCaller? = none)
    (actions : effect.actionCaller? = none) (grown : n'.outbox = n.outbox ++ [effect]) :
    n.Silent n' := by
  refine ⟨?_, ?_⟩
  · simp [mappingsAnswered, grown, mappings]
  · simp [actionsAnswered, grown, actions]

theorem closeSession (n : Node) (number : Nat) : n.Silent (n.closeSession number) := by
  cases found : n.sessions[number]? with
  | none =>
    rw [closeSession_of_closed found]
    exact of_eq rfl
  | some session =>
    rw [closeSession_of_open found]
    exact of_emit rfl rfl rfl

theorem publish (n : Node) (event : NodeEvent) : n.Silent (n.publish event) := by
  rw [publish_eq]
  have offered : n.Silent (n.offered event) := of_eq rfl
  refine List.foldlRecOn _ _ offered ?_
  exact fun m silent number _ => silent.trans (closeSession m number)

theorem refresh (n : Node) : n.Silent n.refresh := by
  unfold Node.refresh
  split
  · exact of_eq rfl
  · exact of_emit rfl rfl rfl

theorem lockEffect (n : Node) (effect : LockEffect) : n.Silent (n.lockEffect effect) := by
  cases effect with
  | publish event => exact publish n event
  | ratify peer lock acquire =>
    simp only [Node.lockEffect]
    rw [sendToPeer_keeps]
    exact of_eq rfl
  | _ => exact of_emit rfl rfl rfl

end Silent

/-- Nobody is answered in a move. -/
theorem Move.silent (move : n.Move inOrder n') : n.Silent n' := by
  cases move with
  | consulted => exact .refresh n
  | tried now found =>
    rw [connect_eq found]
    exact .of_emit rfl rfl rfl
  | forgotten peer =>
    simp only [forget]
    split
    · exact .of_eq rfl
    · exact .of_emit rfl rfl rfl
  | heard sequence event =>
    rw [peerEvent_keeps]
    exact .of_eq rfl
  | _ => exact .of_eq rfl

/-- Most commands answer nobody themselves, and do not concern the actions of callers. -/
theorem silent_apply (n : Node) {command : NodeCommand} (inside : ¬ command.IsOutdoors)
    (other : ∀ node action args ticket, command ≠ .invoke node action args ticket) :
    n.Silent (n.apply command) ∧ (n.apply command).actions = n.actions := by
  cases command with
  | link => exact absurd trivial inside
  | loaded => exact absurd trivial inside
  | shutDown => exact absurd trivial inside
  | invoke node action args ticket => exact absurd rfl (other node action args ticket)
  | openSession number node queue =>
    simp only [Node.apply, openSession]
    split
    · exact ⟨.of_eq rfl, rfl⟩
    · split <;> exact ⟨.of_eq rfl, rfl⟩
  | sessionRequest number request =>
    simp only [Node.apply]
    split
    · cases request <;> exact ⟨.of_eq rfl, rfl⟩
    · exact ⟨.of_eq rfl, rfl⟩
  | closeSession number =>
    refine ⟨.closeSession n number, ?_⟩
    simp only [Node.apply]
    rw [closeSession_keeps]
  | refresh =>
    refine ⟨.refresh n, ?_⟩
    simp only [Node.apply, refresh]
    split <;> rfl
  | tellCacheStale cache data =>
    simp only [Node.apply, tellCacheStale]
    split
    · exact ⟨.of_eq rfl, rfl⟩
    · refine ⟨.publish n _, ?_⟩
      rw [publish_keeps]
  | _ => exact ⟨.of_eq rfl, rfl⟩

/-! ## Numbers of calls -/

/-- The numbers of pending calls were given already. -/
structure Numbered (n : Node) : Prop where
  mappings : n.mappings.book.Numbered
  actions : n.actions.book.Numbered

/-- Numbers that were given once are not given again. -/
structure Ages (n n' : Node) : Prop where
  numbered : n'.Numbered
  mappings : n.mappings.book.Ages n'.mappings.book
  actions : n.actions.book.Ages n'.actions.book

namespace Ages

variable {n'' : Node}

theorem refl (numbered : n.Numbered) : n.Ages n := ⟨numbered, .refl _, .refl _⟩

theorem trans (first : n.Ages n') (second : n'.Ages n'') : n.Ages n'' :=
  ⟨second.numbered, first.mappings.trans second.mappings, first.actions.trans second.actions⟩

theorem of_eq (numbered : n.Numbered) (mappings : n'.mappings.book = n.mappings.book)
    (actions : n'.actions.book = n.actions.book) : n.Ages n' := by
  refine ⟨⟨?_, ?_⟩, ?_, ?_⟩
  · rw [mappings]
    exact numbered.mappings
  · rw [actions]
    exact numbered.actions
  · rw [mappings]
    exact .refl _
  · rw [actions]
    exact .refl _

theorem of_serves {asked : List Ticket} {asked' : List PendingAction}
    (mappings : Serves asked n.mappings n'.mappings)
    (actions : NodeActions.Serves asked' n.actions n'.actions) : n.Ages n' :=
  ⟨⟨mappings.numbered, actions.numbered⟩, mappings.ages, actions.ages⟩

theorem mappingEffect (numbered : n.Numbered) (effect : MappingEffect) :
    n.Ages (n.mappingEffect effect) := by
  cases effect with
  | broadcast event =>
    simp only [Node.mappingEffect]
    rw [publish_keeps]
    exact of_eq numbered rfl rfl
  | call peer requestId call =>
    obtain ⟨-, -, went⟩ | ⟨failure, failed⟩ := n.mappingEffect_call peer requestId call
    · rw [went, sendToSubscribed_keeps]
      exact of_eq numbered rfl rfl
    · rw [failed, sendToSubscribed_keeps]
      exact of_serves (MappingService.callCompleted_serves numbered.mappings _ _)
        (.refl numbered.actions)
  | _ => exact of_eq numbered rfl rfl

theorem drain (numbered : n.Numbered) : n.Ages n.drain := by
  refine drain_induction (P := fun _ _ m => n.Ages m) ?_ ?_ ?_ (refl numbered)
  · exact fun m ages => ages.trans (of_eq ages.numbered rfl rfl)
  · intro effect _ _ m ages
    refine ages.trans ?_
    rw [lockEffect_keeps]
    exact of_eq ages.numbered rfl rfl
  · exact fun effect _ m ages => ages.trans (mappingEffect ages.numbered effect)

theorem apply (numbered : n.Numbered) (command : NodeCommand) : n.Ages (n.apply command) := by
  by_cases ends : ∃ now, command = .shutDown now
  · -- the last command starts no calls, but what it carries out may end some
    obtain ⟨now, rfl⟩ := ends
    have flushed : n.Ages { n with mappings := n.mappings.flush now true } :=
      of_serves (MappingService.flush_serves numbered.mappings now true) (.refl numbered.actions)
    have passed := flushed.trans (drain flushed.numbered)
    have ended : n.Ages { ({ n with mappings := n.mappings.flush now true } : Node).drain with
        locks := ({ n with mappings := n.mappings.flush now true } : Node).drain.locks.shutDown } :=
      passed.trans (of_eq passed.numbered rfl rfl)
    have last := ended.trans (drain ended.numbered)
    simp only [Node.apply]
    rw [shutDown_keeps]
    exact last.trans (of_eq last.numbered rfl rfl)
  have lasting : ∀ now, command ≠ .shutDown now := fun now eq => ends ⟨now, eq⟩
  have mappings := serves_apply numbered.mappings lasting
  by_cases invokes : ∃ node action args ticket, command = .invoke node action args ticket
  · obtain ⟨node, action, args, ticket, rfl⟩ := invokes
    obtain ⟨reply, answered⟩ | ⟨-, -, -, serves⟩ :=
      n.invoke_serves numbered.actions node action args ticket
    · simp only [Node.apply, answered]
      exact of_eq numbered rfl rfl
    · exact of_serves mappings serves
  by_cases outside : command.IsOutdoors
  · exact of_serves mappings ((n.moves_apply outside lasting).servesActions numbered.actions)
  · have same := (n.silent_apply outside fun node action args ticket eq =>
      invokes ⟨node, action, args, ticket, eq⟩).2
    have actions : NodeActions.Serves [] n.actions (n.apply command).actions := by
      rw [same]
      exact .refl numbered.actions
    exact of_serves mappings actions

theorem finish (numbered : n.Numbered) : n.Ages n.drain.answerActions := by
  have drained := drain numbered
  rw [answerActions_eq]
  exact drained.trans (of_eq drained.numbered rfl rfl)

theorem advance (numbered : n.Numbered) (occurrence : Occurrence) :
    n.Ages (n.advance occurrence) := by
  cases occurrence with
  | command command =>
    simp only [Node.advance]
    cases stopped : n.stopped with
    | true =>
      rw [step_of_stopped stopped]
      exact refl numbered
    | false =>
      have applied := apply numbered command
      rw [step_of_running stopped]
      exact applied.trans (finish applied.numbered)
  | _ => exact of_eq numbered rfl rfl

end Ages

/-- No number is given twice, whatever happens. -/
theorem ages_after (numbered : n.Numbered) (run : List Occurrence) : n.Ages (n.after run) := by
  refine List.foldlRecOn _ _ (Ages.refl numbered) ?_
  exact fun m ages occurrence _ => ages.trans (.advance ages.numbered occurrence)

end Node

end Cohort

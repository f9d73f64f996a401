import Cohort.Proofs.Node.Calls
import Cohort.Proofs.Node.Presence

/-!
# No caller is left waiting

A caller whose call goes to another node waits until that node answers. If the node is lost before,
or if the call could not even be sent, the caller is told so. Between two commands, whoever waits
therefore waits for a peer that is followed.

## Main definitions

* `Node.Heeds`: what is known of the callers of a node while something is still to be done.
* `CallKind`: calls to other nodes, for mappings and for actions.
* `CallKind.Settled`, `CallKind.Dependable`: what callers can rely on.

## Main statements

* `Node.Heeds.move`, `Node.Heeds.apply`, `Node.Heeds.drain`: whatever happens, callers are heeded.
* `Node.Heeds.after`: the callers of a run are heeded.
* `Node.no_call_hangs`: callers can rely on their node.
-/

namespace Cohort

namespace Node

variable {inOrder : Prop} {n n' : Node} {asked asked' now : List Ticket}
  {begun : List PendingAction} {more : List MappingEffect}

open MappingService (Serves)

/-! ## Callers -/

/-- A node heeds the callers that have asked for mappings, and for actions of other nodes. Each of
them was answered, or is about to be, or waits, and who waits does so for a peer that is followed,
unless the call has still to be sent. `more` is what the mappings want done besides what is in their
outbox. -/
structure Heeds (asked asked' : List Ticket) (more : List MappingEffect) (n : Node) : Prop where
  numbered : n.Numbered
  callers : (n.mappingsAnswered ++ (more ++ n.mappings.outbox).filterMap MappingEffect.caller? ++
    n.mappings.waiting).Perm asked
  waits : ∀ (number : Nat) (pending : PendingCall), n.mappings.pending[number]? = some pending →
    n.follows pending.peer = true ∨
      ∃ call, .call pending.peer number call ∈ more ++ n.mappings.outbox
  actionCallers : (n.actionsAnswered ++ (n.actions.answered ++ n.actions.waiting)).Perm asked'
  actionWaits : ∀ (number : Nat) (pending : PendingAction),
    n.actions.pending[number]? = some pending → n.follows pending.peer = true

namespace Heeds

/-- More callers ask, and are served. -/
theorem serves (heeds : n.Heeds asked asked' more) (silent : n.Silent n')
    (mappings : Serves now n.mappings n'.mappings)
    (actions : NodeActions.Serves begun n.actions n'.actions)
    (kept : ∀ (number : Nat) (pending : PendingCall),
      n'.mappings.pending[number]? = some pending → n.follows pending.peer = true →
        n'.follows pending.peer = true)
    (actionsKept : ∀ (number : Nat) (pending : PendingAction),
      n'.actions.pending[number]? = some pending → n.follows pending.peer = true →
        n'.follows pending.peer = true)
    (followed : ∀ pending ∈ begun, n'.follows pending.peer = true) :
    n'.Heeds (asked ++ now) (asked' ++ begun.map PendingAction.ticket) more := by
  obtain ⟨effects, serving⟩ := mappings
  refine ⟨⟨serving.numbered, actions.numbered⟩, ?_, fun number pending found => ?_, ?_,
    fun number pending found => ?_⟩
  · have callers := perm_callers heeds.callers serving.callers
    rw [List.append_assoc n.mappingsAnswered, ← List.filterMap_append, List.append_assoc more]
      at callers
    rw [silent.mappings, serving.outbox]
    exact callers
  · rw [serving.outbox, ← List.append_assoc]
    obtain there | ⟨call, there⟩ := serving.sent number pending found
    · obtain following | ⟨call, there⟩ := heeds.waits number pending there
      · exact .inl (kept number pending found following)
      · exact .inr ⟨call, List.mem_append_left _ there⟩
    · exact .inr ⟨call, List.mem_append_right _ there⟩
  · have callers := perm_callers heeds.actionCallers actions.callers
    rw [List.append_assoc] at callers
    rw [silent.actions]
    exact callers
  · obtain there | asks := actions.begun number pending found
    · exact actionsKept number pending found (heeds.actionWaits number pending there)
    · exact followed pending asks

/-- More callers ask for mappings, while the same peers are followed. -/
theorem servesMappings (heeds : n.Heeds asked asked' more) (silent : n.Silent n')
    (mappings : Serves now n.mappings n'.mappings) (actions : n'.actions = n.actions)
    (follows : ∀ peer, n'.follows peer = n.follows peer) : n'.Heeds (asked ++ now) asked' more := by
  have unasked : NodeActions.Serves [] n.actions n'.actions := by
    rw [actions]
    exact .refl heeds.numbered.actions
  have served := heeds.serves silent mappings unasked
    (fun _ pending _ following => (follows pending.peer).trans following)
    (fun _ pending _ following => (follows pending.peer).trans following) nofun
  rwa [List.map_nil, List.append_nil] at served

/-- Nobody asks, and nobody is told anything. -/
theorem of_eq (heeds : n.Heeds asked asked' more) (silent : n.Silent n')
    (mappings : n'.mappings = n.mappings) (actions : n'.actions = n.actions)
    (follows : ∀ peer, n'.follows peer = n.follows peer) : n'.Heeds asked asked' more := by
  have unasked : Serves [] n.mappings n'.mappings := by
    rw [mappings]
    exact MappingService.serves_of_eq heeds.numbered.mappings rfl rfl rfl
  have served := heeds.servesMappings silent unasked actions follows
  rwa [List.append_nil] at served

/-- A peer is lost, and with it the calls that wait for it. -/
theorem peerLost {links : Std.ExtTreeMap NodeName Link} {outbox : List NodeEffect} {peer : NodeName}
    (heeds : n.Heeds asked asked' more)
    (silent : n.Silent (({ n with links, outbox } : Node).peerLost peer))
    (others : ∀ other ≠ peer,
      (({ n with links, outbox } : Node).peerLost peer).follows other = n.follows other) :
    (({ n with links, outbox } : Node).peerLost peer).Heeds asked asked' more := by
  -- the calls that wait for the peer end before ministers are drawn anew, which may start others
  let rid : Node := { n with
    links
    outbox
    locks := n.locks.peerDisconnected peer
    mappings := n.mappings.peerDisconnected peer
    actions := n.actions.peerDisconnected peer }
  have silent : n.Silent rid := ⟨silent.mappings, silent.actions⟩
  have others : ∀ other ≠ peer, rid.follows other = n.follows other := others
  have lost : rid.Heeds (asked ++ []) (asked' ++ []) more :=
    heeds.serves silent
      (MappingService.peerDisconnected_serves heeds.numbered.mappings peer)
      (NodeActions.peerDisconnected_serves heeds.numbered.actions peer)
      (fun number pending found following =>
        (others _ (MappingService.pending_peerDisconnected found).2).trans following)
      (fun number pending found following =>
        (others _ (NodeActions.pending_peerDisconnected found).2).trans following) nofun
  have drawn : rid.updateMinistry.Heeds (asked ++ [] ++ []) (asked' ++ []) more :=
    lost.servesMappings (.of_eq rfl)
      (MappingService.updateMinistry_serves lost.numbered.mappings _) rfl (fun _ => rfl)
  rw [List.append_nil, List.append_nil, List.append_nil] at drawn
  exact drawn

/-- Whatever comes in by the links, callers are heeded. -/
theorem move (heeds : n.Heeds asked asked' more) (orderly : inOrder) (move : n.Move inOrder n') :
    n'.Heeds asked asked' more := by
  have steady : (∀ other, n.follows other = true → n'.follows other = true) →
      n'.Heeds asked asked' more := by
    intro kept
    have served := heeds.serves move.silent (move.serves heeds.numbered.mappings)
      (move.servesActions heeds.numbered.actions) (fun _ pending _ => kept pending.peer)
      (fun _ pending _ => kept pending.peer) nofun
    simpa using served
  obtain ⟨same, -⟩ | ⟨links, locks, -, kept⟩ | ⟨links, outbox, peer, rfl, others⟩ :=
    move.follows orderly
  · exact steady fun other following => (same other).trans following
  · exact steady kept
  · exact heeds.peerLost move.silent others

/-! ## What is wanted -/

/-- One thing that the mappings want done is done. -/
theorem done {effect : MappingEffect} (heeds : n.Heeds asked asked' (effect :: more))
    (unanswered : effect.caller? = none)
    (sent : ∀ peer number call pending, effect = .call peer number call →
      n.mappings.pending[number]? = some pending → n.follows peer = true) :
    n.Heeds asked asked' more := by
  refine ⟨heeds.numbered, ?_, fun number pending found => ?_, heeds.actionCallers,
    heeds.actionWaits⟩
  · have callers := heeds.callers
    rwa [List.cons_append, filterMap_cons_eq, unanswered] at callers
  · obtain following | ⟨call, there⟩ := heeds.waits number pending found
    · exact .inl following
    · obtain same | later := List.mem_cons.1 there
      · exact .inl (sent _ _ _ _ same.symm found)
      · exact .inr ⟨call, later⟩

theorem lockEffect (heeds : n.Heeds asked asked' more) (effect : LockEffect) :
    (n.lockEffect effect).Heeds asked asked' more := by
  refine heeds.of_eq (.lockEffect n effect) ?_ ?_ (Indoors.lockEffect n effect).follows
  all_goals rw [lockEffect_keeps]

/-- A call is sent to a peer that is followed, or the caller is told. -/
theorem mappingEffect {effect : MappingEffect} (heeds : n.Heeds asked asked' (effect :: more)) :
    (n.mappingEffect effect).Heeds asked asked' more := by
  have follows := (Indoors.mappingEffect n effect).follows
  cases effect with
  | broadcast event =>
    refine (heeds.done rfl fun _ _ _ _ eq => by cases eq).of_eq (.publish n event) ?_ ?_ follows
    all_goals
      simp only [Node.mappingEffect]
      rw [publish_keeps]
  | told told =>
    have rest := heeds.done rfl fun _ _ _ _ eq => by cases eq
    exact rest.of_eq (.of_emit rfl rfl rfl) rfl rfl follows
  | answer ticket reply =>
    refine ⟨⟨heeds.numbered.mappings, heeds.numbered.actions⟩, ?_, fun number pending found => ?_,
      ?_, heeds.actionWaits⟩
    · have told : (n.mappingEffect (.answer ticket reply)).mappingsAnswered =
          n.mappingsAnswered ++ [ticket] := List.filterMap_append
      have callers := heeds.callers
      rw [List.cons_append, filterMap_cons_eq] at callers
      rw [told, List.append_assoc n.mappingsAnswered]
      exact callers
    · obtain following | ⟨call, there⟩ := heeds.waits number pending found
      · exact .inl following
      · obtain same | later := List.mem_cons.1 there
        · cases same
        · exact .inr ⟨call, later⟩
    · have silent : (n.mappingEffect (.answer ticket reply)).actionsAnswered =
          n.actionsAnswered ++ [] := List.filterMap_append
      rw [silent, List.append_nil]
      exact heeds.actionCallers
  | call peer requestId call =>
    obtain ⟨-, following, went⟩ | ⟨failure, failed⟩ := n.mappingEffect_call peer requestId call
    · have unchanged : (n.mappingEffect (.call peer requestId call)).Heeds asked asked'
          (.call peer requestId call :: more) := by
        refine heeds.of_eq ?_ ?_ ?_ follows
        all_goals rw [went, sendToSubscribed_keeps]
        exact .of_eq rfl
      -- who waits for this call waits for the peer that it went to
      refine unchanged.done rfl ?_
      rintro _ _ _ pending ⟨⟩ -
      exact (follows peer).trans following
    · have ended : (n.mappingEffect (.call peer requestId call)).mappings =
          n.mappings.callCompleted requestId (.error failure) := by rw [failed]
      have served : (n.mappingEffect (.call peer requestId call)).Heeds (asked ++ []) asked'
          (.call peer requestId call :: more) := by
        refine heeds.servesMappings ?_ ?_ ?_ follows
        · rw [failed, sendToSubscribed_keeps]
          exact .of_eq rfl
        · rw [ended]
          exact MappingService.callCompleted_serves heeds.numbered.mappings _ _
        · rw [failed, sendToSubscribed_keeps]
      rw [List.append_nil] at served
      -- nobody waits for this call any longer
      refine served.done rfl ?_
      rintro _ _ _ pending ⟨⟩ found
      rw [ended, (n.mappings.pending_callCompleted _ _).1,
        Std.ExtTreeMap.getElem?_erase_self] at found
      cases found

/-- Whatever is wanted is done, and callers are heeded. -/
theorem drain (heeds : n.Heeds asked asked' []) : n.drain.Heeds asked asked' [] := by
  refine drain_induction (P := fun _ more m => m.Heeds asked asked' more) ?_ ?_ ?_ heeds
  · intro m heeds
    have same : m.mappings.outbox ++ m.relieved.mappings.outbox = [] ++ m.mappings.outbox :=
      List.append_nil _
    refine ⟨⟨heeds.numbered.mappings, heeds.numbered.actions⟩, ?_, ?_, heeds.actionCallers,
      heeds.actionWaits⟩
    · rw [same]
      exact heeds.callers
    · rw [same]
      exact heeds.waits
  · exact fun effect _ _ m heeds => heeds.lockEffect effect
  · exact fun effect _ m heeds => heeds.mappingEffect

theorem answerActions (heeds : n.Heeds asked asked' more) :
    n.answerActions.Heeds asked asked' more := by
  have handed : n.answerActions.outbox = n.outbox ++ n.actions.outbox.map fun answer =>
      .actionAnswer answer.1 answer.2 := by rw [answerActions_eq]
  have silent : n.answerActions.mappingsAnswered = n.mappingsAnswered := by
    rw [mappingsAnswered, handed, List.filterMap_append, List.filterMap_map]
    simp [mappingsAnswered, NodeEffect.mappingCaller?, Function.comp_def]
  have told : n.answerActions.actionsAnswered = n.actionsAnswered ++ n.actions.answered := by
    rw [actionsAnswered, handed, List.filterMap_append, List.filterMap_map]
    simp [actionsAnswered, NodeActions.answered, NodeEffect.actionCaller?, Function.comp_def]
  have callers := heeds.callers
  have actionCallers := heeds.actionCallers
  rw [← silent] at callers
  rw [← List.append_assoc, ← told] at actionCallers
  rw [answerActions_eq] at callers actionCallers ⊢
  exact ⟨⟨heeds.numbered.mappings, heeds.numbered.actions⟩, callers, heeds.waits, actionCallers,
    heeds.actionWaits⟩

/-! ## Commands -/

/-- A caller that asks for an action is answered at once, or waits for a peer that is followed. -/
theorem invoke (heeds : n.Heeds asked asked' more) (node : NodeName) (action : String)
    (args : Bytes) (ticket : Ticket) :
    (n.invoke node action args ticket).Heeds asked (asked' ++ [ticket]) more := by
  have follows := (Indoors.invoke n node action args ticket).follows
  obtain ⟨reply, answered⟩ | ⟨following, outbox, mappings, serves⟩ :=
    n.invoke_serves heeds.numbered.actions node action args ticket
  · rw [answered]
    refine ⟨⟨heeds.numbered.mappings, heeds.numbered.actions⟩, ?_, heeds.waits, ?_,
      heeds.actionWaits⟩
    · have silent : (n.emit (.actionAnswer ticket reply)).mappingsAnswered =
          n.mappingsAnswered ++ [] := List.filterMap_append
      rw [silent, List.append_nil]
      exact heeds.callers
    · have told : (n.emit (.actionAnswer ticket reply)).actionsAnswered =
          n.actionsAnswered ++ [ticket] := List.filterMap_append
      have callers := heeds.actionCallers.append_right [ticket]
      rw [told, List.append_assoc]
      refine .trans ?_ callers
      rw [List.append_assoc]
      exact List.perm_append_comm.append_left n.actionsAnswered
  · have unasked : Serves [] n.mappings (n.invoke node action args ticket).mappings :=
      MappingService.serves_of_eq heeds.numbered.mappings (by rw [mappings]) (by rw [mappings])
        (by rw [mappings])
    have served := heeds.serves (.of_eq outbox) unasked serves
      (fun _ pending _ following => (follows pending.peer).trans following)
      (fun _ pending _ following => (follows pending.peer).trans following) ?_
    · rwa [List.append_nil] at served
    · intro pending there
      rw [List.mem_singleton.1 there]
      exact (follows node).trans following

/-- Every command but the last heeds the callers, and those who ask by it. -/
theorem apply (heeds : n.Heeds asked asked' []) {command : NodeCommand}
    (orderly : n.InOrder (.command command)) (lasting : ∀ now, command ≠ .shutDown now) :
    (n.apply command).Heeds (asked ++ command.asks) (asked' ++ command.asksAction) [] := by
  by_cases invokes : ∃ node action args ticket, command = .invoke node action args ticket
  · obtain ⟨node, action, args, ticket, rfl⟩ := invokes
    simp only [NodeCommand.asks, List.append_nil]
    exact heeds.invoke node action args ticket
  by_cases outside : command.IsOutdoors
  · have nobody : command.asks = [] ∧ command.asksAction = [] := by
      cases command with
      | link | loaded | shutDown => exact ⟨rfl, rfl⟩
      | _ => exact outside.elim
    rw [nobody.1, nobody.2, List.append_nil, List.append_nil]
    exact (n.moves_apply outside lasting).keeps (P := fun m => m.Heeds asked asked' [])
      (fun m m' moved heeds => heeds.move orderly moved) heeds
  · have nobody : command.asksAction = [] := by
      cases command with
      | invoke node action args ticket => exact absurd ⟨node, action, args, ticket, rfl⟩ invokes
      | _ => rfl
    obtain ⟨silent, actions⟩ := n.silent_apply outside fun node action args ticket eq =>
      invokes ⟨node, action, args, ticket, eq⟩
    rw [nobody, List.append_nil]
    exact heeds.servesMappings silent (serves_apply heeds.numbered.mappings lasting) actions
      (Indoors.apply n outside).follows

end Heeds

/-- Whatever happens to a node that goes on, callers are heeded. -/
theorem Heeds.advance (heeds : n.Heeds asked asked' []) {occurrence : Occurrence}
    (orderly : n.InOrder occurrence) (running : (n.advance occurrence).stopped = false) :
    (n.advance occurrence).Heeds (asked ++ occurrence.asks)
      (asked' ++ occurrence.asksAction) [] := by
  obtain ⟨before, lasting⟩ := running_of_advance running
  by_cases commanded : ∃ command, occurrence = .command command
  · obtain ⟨command, rfl⟩ := commanded
    simp only [Node.advance]
    rw [step_of_running before]
    exact (heeds.apply orderly fun now eq => lasting now (eq ▸ rfl)).drain.answerActions
  · have indoors := Indoors.advance n fun command eq => commanded ⟨command, eq⟩
    cases occurrence with
    | command command => exact absurd ⟨command, rfl⟩ commanded
    | _ =>
      simp only [Occurrence.asks, Occurrence.asksAction, List.append_nil]
      exact heeds.of_eq (.of_eq rfl) rfl rfl indoors.follows

theorem Heeds.after {run : List Occurrence} (heeds : n.Heeds asked asked' [])
    (orderly : n.Throughout InOrder run) (running : (n.after run).stopped = false) :
    (n.after run).Heeds (asked ++ run.flatMap Occurrence.asks)
      (asked' ++ run.flatMap Occurrence.asksAction) [] := by
  induction run generalizing n asked asked' with
  | nil =>
    rw [List.flatMap_nil, List.flatMap_nil, List.append_nil, List.append_nil]
    exact heeds
  | cons occurrence run ih =>
    have first := heeds.advance orderly.1 (running_of_after running)
    have rest := ih first orderly.2 running
    rw [List.append_assoc, List.append_assoc] at rest
    exact rest

theorem Started.heeds (started : n.Started) : n.Heeds [] [] [] := by
  obtain ⟨config, mappings, registered, outranks, port, now, configured, -, -, rfl⟩ := started
  have blank := configured.blank
  have pending : mappings.close.pending = ∅ := blank.pending
  have outbox : mappings.close.outbox = [] := blank.outbox
  have nobody : (assemble config mappings { NodeActions.fresh with actions := registered } outranks
      port now).Heeds [] [] [] := by
    refine ⟨⟨fun number call found => ?_, fun number call found => ?_⟩, ?_,
      fun number call found => ?_, ?_, fun number call found => ?_⟩
    · have found : mappings.close.pending[number]? = some call := found
      simp [pending] at found
    · simp [NodeActions.book, assemble, NodeActions.fresh] at found
    · simp [mappingsAnswered, assemble, MappingService.waiting, waitingIn, pending, outbox]
    · have found : mappings.close.pending[number]? = some call := found
      simp [pending] at found
    · simp [actionsAnswered, assemble, NodeActions.waiting, NodeActions.answered, waitingIn,
        NodeActions.fresh]
    · simp [assemble, NodeActions.fresh] at found
  exact nobody.of_eq (.refresh _) rfl rfl (Indoors.refresh _).follows

end Node

/-! ## What callers can rely on -/

/-- Calls of one kind to other nodes. -/
structure CallKind (α : Type) where
  book : Node → CallBook α
  /-- The caller that waits for a call, if one does. -/
  caller : α → Option Ticket
  /-- The peer that is to answer. -/
  peer : α → NodeName
  /-- The callers that were answered. -/
  answered : Node → List Ticket
  /-- The message with the answer to the call of a number. -/
  result : Nat → UInt32 → Option Bytes → Message

/-- Calls for mappings whose master is another node. -/
def mappingCalls : CallKind PendingCall where
  book n := n.mappings.book
  caller := PendingCall.caller?
  peer := PendingCall.peer
  answered := Node.mappingsAnswered
  result := .mappingResult

/-- Calls for actions of other nodes. -/
def actionCalls : CallKind PendingAction where
  book n := n.actions.book
  caller := PendingAction.caller?
  peer := PendingAction.peer
  answered := Node.actionsAnswered
  result := .actionResult

namespace CallKind

variable {α : Type} {kind : CallKind α} {n : Node} {asked : List Ticket}

/-- A caller was answered once and waits no longer, or it was not answered and waits for one call,
to a peer that is followed. -/
def Settled (kind : CallKind α) (n : Node) (ticket : Ticket) : Prop :=
  ((kind.answered n).count ticket = 1 ∧
    ∀ (number : Nat) (call : α), (kind.book n).pending[number]? = some call →
      kind.caller call ≠ some ticket) ∨
  ticket ∉ kind.answered n ∧ ∃ (number : Nat) (call : α),
    (kind.book n).pending[number]? = some call ∧ kind.caller call = some ticket ∧
      n.follows (kind.peer call) = true ∧
      ∀ (other : Nat) (call' : α), (kind.book n).pending[other]? = some call' →
        kind.caller call' = some ticket → other = number

/-- Callers can rely on a node for calls of a kind. -/
structure Dependable (kind : CallKind α) (asked : List Ticket) (n : Node) : Prop where
  /-- Callers were answered or wait, each as often as it asked. -/
  callers : (kind.answered n ++ waitingIn kind.caller (kind.book n).pending).Perm asked
  settled : ∀ ticket, asked.count ticket = 1 → kind.Settled n ticket
  /-- Every call waits for a peer that is followed, whether a caller waits for it or not. -/
  followed : ∀ (number : Nat) (call : α), (kind.book n).pending[number]? = some call →
    n.follows (kind.peer call) = true
  /-- Calls have numbers that were given, and these are not given again, whatever happens. -/
  numbered : (kind.book n).Numbered
  ages : ∀ later, (kind.book n).Ages (kind.book (n.after later))
  /-- A result ends a call. -/
  ended : ∀ (peer : NodeName) (link : Link) (generation number : Nat) (call : α) (code : UInt32)
    (value : Option Bytes), n.links[peer]? = some link → link.isCurrent generation = true →
      (kind.book n).pending[number]? = some call →
      (kind.book (n.step (.link peer generation
        (.message (kind.result number code value))))).pending[number]? = none
  /-- A result for a call that has ended changes nothing, however late it comes. -/
  late : ∀ (later : List Occurrence) (number : Nat), number ≤ (kind.book n).last →
    (kind.book n).pending[number]? = none →
      ∀ (peer : NodeName) (generation : Nat) (code : UInt32) (value : Option Bytes),
        (n.after later).step (.link peer generation (.message (kind.result number code value))) =
          n.after later

/-- Who asked once is accounted for once. -/
theorem settled_of_perm {ticket : Ticket}
    (callers : (kind.answered n ++ waitingIn kind.caller (kind.book n).pending).Perm asked)
    (followed : ∀ (number : Nat) (call : α), (kind.book n).pending[number]? = some call →
      n.follows (kind.peer call) = true) (once : asked.count ticket = 1) :
    kind.Settled n ticket := by
  have counts := callers.count_eq ticket
  rw [once, List.count_append] at counts
  by_cases waits : ticket ∈ waitingIn kind.caller (kind.book n).pending
  · right
    obtain ⟨number, call, found, asks⟩ := mem_waitingIn.1 waits
    have besides := (waitingIn_erase kind.caller found).count_eq ticket
    rw [asks, Option.toList_some, List.count_append, List.count_singleton_self] at besides
    refine ⟨List.count_eq_zero.1 (by omega), number, call, found, asks, followed number call found,
      fun other call' there asks' => ?_⟩
    -- with another call, the caller would wait twice
    by_contra apart
    have again : ticket ∈ waitingIn kind.caller ((kind.book n).pending.erase number) := by
      refine mem_waitingIn.2 ⟨other, call', ?_, asks'⟩
      rwa [Std.ExtTreeMap.getElem?_erase, if_neg fun eq => apart (Std.compare_eq_iff_eq.1 eq).symm]
    have := List.count_pos_iff.2 again
    omega
  · left
    have nowhere := List.count_eq_zero.2 waits
    refine ⟨by omega, fun number call found asks => waits ?_⟩
    exact mem_waitingIn.2 ⟨number, call, found, asks⟩

/-- Numbers of calls of a kind are not given again, and results end calls and do nothing else to
calls. -/
structure Lawful (kind : CallKind α) : Prop where
  numbered : ∀ {n : Node}, n.Numbered → (kind.book n).Numbered
  ages : ∀ {n n' : Node}, n.Ages n' → (kind.book n).Ages (kind.book n')
  ignored : ∀ {n : Node} {peer : NodeName} {link : Link} {number : Nat} (code : UInt32)
    (value : Option Bytes), (kind.book n).pending[number]? = none →
      n.peerMessage peer link (kind.result number code value) = n
  taken : ∀ {n : Node} {peer : NodeName} {link : Link} (number : Nat) (code : UInt32)
    (value : Option Bytes),
      (kind.book (n.peerMessage peer link (kind.result number code value))).pending =
        (kind.book n).pending.erase number

theorem mappingCalls_lawful : mappingCalls.Lawful where
  numbered numbered := numbered.mappings
  ages ages := ages.mappings
  ignored {n _ _ number} code value ended := by
    have same : n.mappings.callCompleted number (Message.outcome code value) = n.mappings := by
      obtain ⟨-, same⟩ | ⟨_, _, found, -⟩ | ⟨_, _, _, found, -⟩ :=
        n.mappings.callCompleted_cases number (Message.outcome code value)
      · exact same
      · cases ended.symm.trans found
      · cases ended.symm.trans found
    show { n with mappings := n.mappings.callCompleted number (Message.outcome code value) } = n
    rw [same]
  taken {n _ _} number code value := (n.mappings.pending_callCompleted number _).1

theorem actionCalls_lawful : actionCalls.Lawful where
  numbered numbered := numbered.actions
  ages ages := ages.actions
  ignored {n _ _ number} code value ended := by
    have same : n.actions.complete number (Node.actionOutcome code value) = n.actions := by
      have ended : n.actions.pending[number]? = none := ended
      rw [NodeActions.complete, ended]
    show { n with actions := n.actions.complete number (Node.actionOutcome code value) } = n
    rw [same]
  taken {n _ _} number code value := n.actions.pending_complete number _

/-- A result for a call that has ended changes nothing. -/
theorem Lawful.step_of_ended (lawful : kind.Lawful) (rested : n.Rested) {number : Nat}
    (ended : (kind.book n).pending[number]? = none) (peer : NodeName) (generation : Nat)
    (code : UInt32) (value : Option Bytes) :
    n.step (.link peer generation (.message (kind.result number code value))) = n := by
  cases stopped : n.stopped with
  | true => exact Node.step_of_stopped stopped _
  | false =>
    have ignored : n.linkReport peer generation (.message (kind.result number code value)) = n := by
      unfold Node.linkReport
      split
      · rfl
      · split
        · exact lawful.ignored code value ended
        · rfl
    rw [Node.step_of_running stopped, Node.apply, ignored, rested.finish]

/-- A result ends a call. -/
theorem Lawful.step_of_current (lawful : kind.Lawful) (running : n.stopped = false)
    (numbered : n.Numbered) {peer : NodeName} {link : Link} {generation number : Nat} {call : α}
    (found : n.links[peer]? = some link) (current : link.isCurrent generation = true)
    (waits : (kind.book n).pending[number]? = some call) (code : UInt32) (value : Option Bytes) :
    (kind.book (n.step (.link peer generation
      (.message (kind.result number code value))))).pending[number]? = none := by
  rw [Node.step_message running found current]
  have applied := Node.Ages.apply numbered
    (.link peer generation (.message (kind.result number code value)))
  simp only [Node.apply, Node.linkReport, found, if_pos current] at applied
  refine (lawful.ages (.finish applied.numbered)).ended ?_ ?_
  · exact Nat.le_trans (lawful.numbered numbered number call waits) (lawful.ages applied).last
  · rw [lawful.taken, Std.ExtTreeMap.getElem?_erase_self]

/-- Callers can rely on a node that heeds them, between two commands. -/
theorem Lawful.dependable (lawful : kind.Lawful) (running : n.stopped = false) (rested : n.Rested)
    (numbered : n.Numbered)
    (callers : (kind.answered n ++ waitingIn kind.caller (kind.book n).pending).Perm asked)
    (followed : ∀ (number : Nat) (call : α), (kind.book n).pending[number]? = some call →
      n.follows (kind.peer call) = true) : kind.Dependable asked n where
  callers := callers
  settled _ once := settled_of_perm callers followed once
  followed := followed
  numbered := lawful.numbered numbered
  ages later := lawful.ages (n.ages_after numbered later)
  ended _ _ _ _ _ code value found current waits :=
    lawful.step_of_current running numbered found current waits code value
  late later _ old ended peer generation code value :=
    lawful.step_of_ended (rested.after later)
      ((lawful.ages (n.ages_after numbered later)).ended old ended) peer generation code value

end CallKind

namespace Node

/-- Whatever happened to a node, until it shuts down its callers can rely on it. -/
theorem no_call_hangs {n : Node} (started : n.Started) {run : List Occurrence}
    (orderly : n.Throughout InOrder run) (running : (n.after run).stopped = false) :
    mappingCalls.Dependable (run.flatMap Occurrence.asks) (n.after run) ∧
      actionCalls.Dependable (run.flatMap Occurrence.asksAction) (n.after run) := by
  have heeds := started.heeds.after orderly running
  have rested := started.rested.after run
  have nothing : (n.after run).mappings.outbox = [] := (isQuiet_iff.1 rested.quiet).2
  refine ⟨CallKind.mappingCalls_lawful.dependable running rested heeds.numbered ?_ ?_,
    CallKind.actionCalls_lawful.dependable running rested heeds.numbered ?_ heeds.actionWaits⟩
  · have callers := heeds.callers
    rw [nothing, List.append_nil, List.filterMap_nil, List.append_nil] at callers
    exact callers
  · intro number call found
    obtain following | ⟨call, there⟩ := heeds.waits number call found
    · exact following
    · rw [nothing] at there
      cases there
  · have callers := heeds.actionCallers
    rw [NodeActions.answered, rested.actions, List.map_nil, List.nil_append] at callers
    exact callers

/-- A node with a single-copy mapping. It keeps the copy while it knows nobody. -/
def keeper : Node :=
  (assemble (.onLoopback "b") ((MappingService.fresh "b" 1).configure "m" .single).2 .fresh .byName
    4000 0).start

theorem keeper_started : keeper.Started :=
  ⟨.onLoopback "b", _, ∅, .byName, 4000, 0, .configure "m" .single (.fresh "b" 1), rfl, rfl, rfl⟩

/-- A run in which a node stores a value and then meets a peer that comes before it by name. The
copy is handed to the peer. Callers ask for the value and for two actions of the peer, which does
one of them. -/
def callingRun : List Occurrence :=
  [.command (.mapping (.put 1 [1] [10]) 1),
    .command (.loaded 10 (.ok [(NodeConfig.onLoopback "a").record 4001 10])),
    .command (.link "a" 1 (.connected 8)),
    .command (.link "a" 1 (.message (.snapshot ⟨"a", 10, ∅, 0⟩))),
    .command (.mapping (.get 1 [1]) 2),
    .command (.invoke "a" "rewind" [] 3),
    .command (.invoke "a" "eject" [] 4),
    .command (.link "a" 1 (.message (.actionResult 1 0 (some []))))]

/-- The peer is lost before it has answered the rest. -/
def losingRun : List Occurrence := callingRun ++ [.command (.link "a" 1 .closed)]

theorem callingRun_inOrder : keeper.Throughout InOrder callingRun := by
  refine ⟨trivial, trivial, fun link found _ => ?_, trivial, trivial, trivial, trivial, trivial,
    trivial⟩
  have state : (keeper.after (callingRun.take 2)).links["a"]?.map Link.state =
      some .connecting := by decide +kernel
  simp only [callingRun, List.take, after, List.foldl] at state
  rw [found] at state
  exact Option.some.inj state

/-- The hand-off, one call for the mapping and one for an action wait for the peer. When it is
lost, their callers are answered, and the value is back. -/
theorem no_call_hangs_in_losingRun :
    keeper.Throughout InOrder losingRun ∧ (keeper.after losingRun).stopped = false ∧
    (let n := keeper.after callingRun;
      n.mappings.pending.toList.map (fun call => (call.1, call.2.peer, call.2.caller?)) =
          [(1, "a", none), (2, "a", some 2)] ∧
        n.actions.pending.toList = [(2, ⟨"a", 4⟩)] ∧
        n.mappingsAnswered = [1] ∧ n.actionsAnswered = [3] ∧
        mappingCalls.Dependable [1, 2] n ∧ actionCalls.Dependable [3, 4] n) ∧
    let n := keeper.after losingRun
    n.mappings.pending.isEmpty = true ∧ n.actions.pending.isEmpty = true ∧
      n.mappingsAnswered = [1, 2] ∧ n.actionsAnswered = [3, 4] ∧
      (n.mappings.stock 1).toList = [([1], [10])] ∧
      mappingCalls.Dependable [1, 2] n ∧ actionCalls.Dependable [3, 4] n := by
  have inOrder : keeper.Throughout InOrder losingRun :=
    throughout_append.2 ⟨callingRun_inOrder, trivial, trivial⟩
  have running : (keeper.after losingRun).stopped = false := by decide +kernel
  have before := no_call_hangs keeper_started callingRun_inOrder (by decide +kernel)
  have after := no_call_hangs keeper_started inOrder running
  refine ⟨inOrder, running, ⟨?_, ?_, ?_, ?_, before⟩, ?_, ?_, ?_, ?_, ?_, after⟩
  all_goals decide +kernel

end Node

end Cohort

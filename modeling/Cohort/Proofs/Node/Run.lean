import Cohort.Proofs.Lock.Publication
import Cohort.Proofs.Mapping.Mastery
import Cohort.Proofs.Node.Drain

/-!
# A node at work

A node as a machine: it is given commands, and around it the writers of its mailboxes get on and
go away. Between two commands nothing is left to do. Most of what happens to a node happens indoors:
it does not concern its links to peers and what it knows of them.

## Main definitions

* `Occurrence`, `Node.advance`, `Node.after`: everything that happens to a node and around it.
* `Node.Started`: a node that has just been started.
* `Node.Rested`: a node between two commands.
* `Node.Indoors`: nothing happens to the links of a node.

## Main statements

* `Node.after_induction`: what every occurrence keeps holds after a run.
* `Node.Rested.after`: between two commands nothing is left to do.
* `Node.Indoors.apply`, `Node.Indoors.drain`: most of what happens to a node happens indoors.
* `Node.running_of_advance`: a node stops for good.
-/

namespace Cohort

/-! ## Runs -/

/-- What happens to a node, or around it. -/
inductive Occurrence where
  | command (command : NodeCommand)
  /-- The writer of a session has taken so many messages out, and is there or gone. -/
  | sessionWriter (number taken : Nat) (receiving : Bool)
  /-- The writer of a link has taken so many requests out, and is there or gone. -/
  | linkWriter (peer : NodeName) (taken : Nat) (receiving : Bool)
  /-- The observers of a cache have taken notices out, or went away. -/
  | observers (cache : String) (observers : List Observer)

/-- A mailbox whose writer has taken so much out, and is there or gone. -/
def Mailbox.writtenTo {α : Type} (box : Mailbox α) (taken : Nat) (receiving : Bool) : Mailbox α :=
  { box with taken, receiving }

/-- A link but for its mailbox. -/
def Link.face (l : Link) : Link := { l with queue := none }

namespace Node

variable {n n' n'' : Node}

/-- The node after something happened. What it wants done outside is kept, so that its outbox tells
everything that it ever wanted done. -/
def advance (n : Node) : Occurrence → Node
  | .command command => n.step command
  | .sessionWriter number taken receiving =>
    { n with
      sessions := n.sessions.modify number fun session =>
        { session with queue := session.queue.writtenTo taken receiving } }
  | .linkWriter peer taken receiving =>
    { n with
      links := n.links.modify peer fun link =>
        { link with queue := link.queue.map (·.writtenTo taken receiving) } }
  | .observers cache observers => { n with observers := n.observers.insert cache observers }

/-- The node after a run. -/
def after (n : Node) (run : List Occurrence) : Node := run.foldl advance n

theorem after_append (n : Node) (run later : List Occurrence) :
    n.after (run ++ later) = (n.after run).after later :=
  List.foldl_append

/-- Something holds of everything that happens in a run, at the node to which it happens. -/
def Throughout (P : Node → Occurrence → Prop) (n : Node) : List Occurrence → Prop
  | [] => True
  | occurrence :: run => P n occurrence ∧ (n.advance occurrence).Throughout P run

theorem throughout_append {P : Node → Occurrence → Prop} {run later : List Occurrence} :
    n.Throughout P (run ++ later) ↔ n.Throughout P run ∧ (n.after run).Throughout P later := by
  induction run generalizing n with
  | nil => exact ⟨fun throughout => ⟨trivial, throughout⟩, And.right⟩
  | cons occurrence run ih =>
    show _ ∧ (n.advance occurrence).Throughout P (run ++ later) ↔ (_ ∧ _) ∧ _
    rw [ih, and_assoc]
    rfl

theorem Throughout.imp {P Q : Node → Occurrence → Prop} {run : List Occurrence}
    (throughout : n.Throughout P run) (imp : ∀ n occurrence, P n occurrence → Q n occurrence) :
    n.Throughout Q run := by
  induction run generalizing n with
  | nil => trivial
  | cons occurrence run ih => exact ⟨imp n occurrence throughout.1, ih throughout.2⟩

/-- What every occurrence keeps holds after a run. -/
theorem after_induction {P : Node → Occurrence → Prop} {Q : Node → Prop}
    (keeps : ∀ n occurrence, Q n → P n occurrence → Q (n.advance occurrence))
    {run : List Occurrence} (start : Q n) (throughout : n.Throughout P run) : Q (n.after run) := by
  induction run generalizing n with
  | nil => exact start
  | cons occurrence run ih =>
    exact ih (keeps n occurrence start throughout.1) throughout.2

/-- A node that has just been started. Its mappings were only configured, it may have registered
actions, and nothing else happened to it. -/
def Started (n : Node) : Prop :=
  ∃ config mappings registered outranks port now, MappingService.Configured mappings ∧
    mappings.node = config.nodeName ∧ mappings.ministerCount = max config.ministerCount 1 ∧
    n = (assemble config mappings { NodeActions.fresh with actions := registered } outranks port
      now).start

/-! ## Between two commands -/

/-- Nothing is left to do. -/
structure Rested (n : Node) : Prop where
  quiet : n.isQuiet = true
  actions : n.actions.outbox = []

theorem answerActions_eq (n : Node) : n.answerActions =
    { n with
      actions := { n.actions with outbox := [] }
      outbox := n.outbox ++ n.actions.outbox.map fun answer =>
        .actionAnswer answer.1 answer.2 } := by
  have folded : ∀ (answers : List (Ticket × ActionReply)) (m : Node),
      answers.foldl (fun m answer => m.emit (.actionAnswer answer.1 answer.2)) m =
        { m with
          outbox := m.outbox ++ answers.map fun answer => .actionAnswer answer.1 answer.2 } := by
    intro answers
    induction answers with
    | nil => simp
    | cons answer answers ih =>
      intro m
      rw [List.foldl_cons, ih]
      simp [emit_eq]
  exact folded _ _

/-- A request to run an action is answered at once, or it is sent to a peer that this node follows;
when it cannot be sent, it has failed. -/
theorem invoke_cases (n : Node) (node : NodeName) (action : String) (args : Bytes)
    (ticket : Ticket) :
    let actions := (n.actions.start node ticket).2
    let requestId := (n.actions.start node ticket).1
    let sent := ({ n with actions } : Node).sendToPeer node (.nodeAction requestId action args)
    (∃ reply, n.invoke node action args ticket = n.emit (.actionAnswer ticket reply)) ∨
      n.follows node = true ∧ (n.invoke node action args ticket = sent.2 ∨
        ∃ failure, n.invoke node action args ticket =
          { sent.2 with actions := actions.complete requestId (.error failure) }) := by
  intro actions requestId sent
  have kept : sent.2.actions = actions := by
    simp only [sent]
    rw [sendToPeer_keeps]
  unfold invoke
  split
  next => exact .inl ⟨_, rfl⟩
  split
  next following =>
    refine .inr ⟨following, ?_⟩
    cases went : sent.1 with
    | ok done =>
      refine .inl ?_
      have whole : sent = (.ok (), sent.2) := Prod.ext went rfl
      simp only [sent, actions, requestId] at whole
      dsimp only
      rw [whole]
    | error failure =>
      refine .inr ⟨failure, ?_⟩
      have whole : sent = (.error failure, sent.2) := Prod.ext went rfl
      rw [← kept]
      simp only [sent, actions, requestId] at whole
      dsimp only
      rw [whole]
  next => exact .inl ⟨_, rfl⟩

theorem step_of_running (running : n.stopped = false) (command : NodeCommand) :
    n.step command = (n.apply command).drain.answerActions := by
  rw [step, if_neg (by rw [running]; exact Bool.false_ne_true)]

theorem step_of_stopped (stopped : n.stopped = true) (command : NodeCommand) :
    n.step command = n := by
  rw [step, if_pos stopped]

/-- Messages of a link that is current are taken in. -/
theorem step_message {peer : NodeName} {link : Link} {generation : Nat}
    (running : n.stopped = false) (found : n.links[peer]? = some link)
    (current : link.isCurrent generation = true) (message : Message) :
    n.step (.link peer generation (.message message)) =
      (n.peerMessage peer link message).drain.answerActions := by
  rw [step_of_running running]
  simp only [Node.apply, linkReport, found, if_pos current]

theorem Started.rested (started : n.Started) : n.Rested := by
  obtain ⟨config, mappings, registered, outranks, port, now, configured, -, -, rfl⟩ := started
  have empty : mappings.outbox = [] := configured.blank.outbox
  exact ⟨isQuiet_iff.2 ⟨rfl, empty⟩, rfl⟩

theorem Started.running (started : n.Started) : n.stopped = false := by
  obtain ⟨config, mappings, registered, outranks, port, now, -, -, -, rfl⟩ := started
  rfl

theorem Rested.advance (rested : n.Rested) (occurrence : Occurrence) :
    (n.advance occurrence).Rested := by
  cases occurrence with
  | command command =>
    simp only [Node.advance]
    cases stopped : n.stopped with
    | true => rwa [step_of_stopped stopped]
    | false =>
      rw [step_of_running stopped, answerActions_eq]
      exact ⟨(n.apply command).isQuiet_drain, rfl⟩
  | _ => exact ⟨rested.quiet, rested.actions⟩

/-- Between two commands nothing is left to do. -/
theorem Rested.after (rested : n.Rested) (run : List Occurrence) : (n.after run).Rested := by
  refine List.foldlRecOn _ _ rested ?_
  exact fun m rested occurrence _ => rested.advance occurrence

theorem Rested.finish (rested : n.Rested) : n.drain.answerActions = n := by
  rw [drain_of_quiet rested.quiet, answerActions_eq, rested.actions, List.map_nil, List.append_nil]
  show { n with actions := { n.actions with outbox := [] } } = n
  rw [← rested.actions]

/-! ## What happens indoors -/

/-- Nothing happens to the links of a node but to their mailboxes, and to what the node knows of its
peers. -/
structure Indoors (n n' : Node) : Prop where
  record : n'.record = n.record
  config : n'.config = n.config
  stopped : n'.stopped = n.stopped
  faces : ∀ peer : NodeName, n'.links[peer]?.map Link.face = n.links[peer]?.map Link.face
  abides : n.mappings.Abides n'.mappings
  locks : n.locks.Poised → n'.locks.Poised ∧ n'.locks.peerLocks = n.locks.peerLocks

namespace Indoors

theorem refl (n : Node) : n.Indoors n :=
  ⟨rfl, rfl, rfl, fun _ => rfl, .refl _, fun poised => ⟨poised, rfl⟩⟩

theorem trans (first : n.Indoors n') (second : n'.Indoors n'') : n.Indoors n'' where
  record := second.record.trans first.record
  config := second.config.trans first.config
  stopped := second.stopped.trans first.stopped
  faces peer := (second.faces peer).trans (first.faces peer)
  abides := first.abides.trans second.abides
  locks poised := by
    obtain ⟨poised', same⟩ := first.locks poised
    obtain ⟨poised'', same'⟩ := second.locks poised'
    exact ⟨poised'', same'.trans same⟩

/-- What neither links nor locks nor mappings take part in happens indoors. -/
theorem apart (record : n'.record = n.record) (config : n'.config = n.config)
    (stopped : n'.stopped = n.stopped) (links : n'.links = n.links) (locks : n'.locks = n.locks)
    (mappings : n'.mappings = n.mappings) : n.Indoors n' where
  record := record
  config := config
  stopped := stopped
  faces peer := by rw [links]
  abides := mappings ▸ .refl _
  locks poised := by
    rw [locks]
    exact ⟨poised, rfl⟩

/-- Something happens to the locks. -/
theorem of_publishes {t : Arbitrator} (publishes : n.locks.Poised → n.locks.Publishes t) :
    n.Indoors { n with locks := t } :=
  ⟨rfl, rfl, rfl, fun _ => rfl, .refl _, fun poised =>
    ⟨(publishes poised).poised, (publishes poised).peerLocks⟩⟩

/-- Something happens to the mappings, but not to the ministry. -/
theorem of_abides {s : MappingService} (abides : n.mappings.Abides s) :
    n.Indoors { n with mappings := s } :=
  ⟨rfl, rfl, rfl, fun _ => rfl, abides, fun poised => ⟨poised, rfl⟩⟩

theorem closeSession (n : Node) (number : Nat) : n.Indoors (n.closeSession number) := by
  cases found : n.sessions[number]? with
  | none =>
    rw [closeSession_of_closed found]
    exact refl n
  | some session =>
    rw [closeSession_of_open found]
    dsimp only
    split
    · exact apart rfl rfl rfl rfl rfl rfl
    · refine ⟨rfl, rfl, rfl, fun _ => rfl, .refl _, fun poised => ?_⟩
      have parted := Arbitrator.step_publishes poised (.removeSubscriber session.node)
      exact ⟨parted.poised, parted.peerLocks⟩

theorem publish (n : Node) (event : NodeEvent) : n.Indoors (n.publish event) := by
  rw [publish_eq]
  have offered : n.Indoors (n.offered event) := apart rfl rfl rfl rfl rfl rfl
  refine List.foldlRecOn _ _ offered ?_
  exact fun m within number _ => within.trans (closeSession m number)

theorem face_send (l : Link) (request : Request) : (l.send request).2.face = l.face := by
  unfold Link.send
  split <;> rfl

theorem sendToPeer (n : Node) (peer : NodeName) (request : Request) :
    n.Indoors (n.sendToPeer peer request).2 := by
  unfold Node.sendToPeer
  split
  next => exact refl n
  next link found =>
    refine ⟨rfl, rfl, rfl, fun other => ?_, .refl _, fun poised => ⟨poised, rfl⟩⟩
    rw [Std.ExtTreeMap.getElem?_insert]
    split
    next eq =>
      rw [← Std.compare_eq_iff_eq.1 eq, found, Option.map_some, Option.map_some, face_send]
    next => rfl

theorem sendToSubscribed (n : Node) (peer : NodeName) (request : Request) :
    n.Indoors (n.sendToSubscribed peer request).2 := by
  unfold Node.sendToSubscribed
  split
  · exact sendToPeer n peer request
  · exact refl n

theorem lockEffect (n : Node) (effect : LockEffect) : n.Indoors (n.lockEffect effect) := by
  cases effect with
  | publish event => exact publish n event
  | ratify peer lock acquire => exact sendToPeer n peer _
  | _ => exact apart rfl rfl rfl rfl rfl rfl

theorem mappingEffect (n : Node) (effect : MappingEffect) :
    n.Indoors (n.mappingEffect effect) := by
  cases effect with
  | broadcast event => exact publish n event
  | call peer requestId call =>
    have sent := sendToSubscribed n peer (.mapping requestId call)
    obtain ⟨-, -, went⟩ | ⟨failure, failed⟩ := n.mappingEffect_call peer requestId call
    · rwa [went]
    · rw [failed]
      refine sent.trans (.of_abides ?_)
      rw [sendToSubscribed_keeps]
      exact .callCompleted _ _ _
  | _ => exact apart rfl rfl rfl rfl rfl rfl

/-- Whatever locks and mappings want done is done indoors. -/
theorem drain (n : Node) : n.Indoors n.drain := by
  refine drain_induction (P := fun _ _ m => n.Indoors m) ?_ ?_ ?_ (refl n)
  · exact fun m within => within.trans
      ⟨rfl, rfl, rfl, fun _ => rfl, ⟨rfl, rfl, rfl⟩, fun poised => ⟨poised, rfl⟩⟩
  · exact fun effect _ _ m within => within.trans (lockEffect m effect)
  · exact fun effect _ m within => within.trans (mappingEffect m effect)

theorem answerActions (n : Node) : n.Indoors n.answerActions := by
  rw [answerActions_eq]
  exact apart rfl rfl rfl rfl rfl rfl

theorem openSession (n : Node) (number : Nat) (node : NodeName) (queue : Mailbox Message) :
    n.Indoors (n.openSession number node queue) := by
  unfold Node.openSession
  split
  · exact refl n
  · split
    · exact apart rfl rfl rfl rfl rfl rfl
    · exact ⟨rfl, rfl, rfl, fun _ => rfl, .refl _, fun poised => ⟨poised, rfl⟩⟩

theorem sessionRequest (n : Node) (number : Nat) (session : Session) (request : Request) :
    n.Indoors (n.sessionRequest number session request) := by
  cases request with
  | ratify lock acquire =>
    exact of_publishes fun poised => Arbitrator.step_publishes poised (.ratify _ _ _)
  | mapping requestId call =>
    have handled : n.Indoors { n with mappings := (n.mappings.handleCall call).2 } :=
      of_abides (.handleCall n.mappings call)
    exact handled.trans (apart rfl rfl rfl rfl rfl rfl)
  | nodeAction requestId action args => exact apart rfl rfl rfl rfl rfl rfl
  | subscribe credentials version => exact refl n
  | logOff => exact refl n

theorem refresh (n : Node) : n.Indoors n.refresh := by
  unfold Node.refresh
  split <;> exact apart rfl rfl rfl rfl rfl rfl

theorem invoke (n : Node) (node : NodeName) (action : String) (args : Bytes) (ticket : Ticket) :
    n.Indoors (n.invoke node action args ticket) := by
  have started : n.Indoors { n with actions := (n.actions.start node ticket).2 } :=
    apart rfl rfl rfl rfl rfl rfl
  have sent := started.trans
    (sendToPeer _ node (.nodeAction (n.actions.start node ticket).1 action args))
  obtain ⟨reply, answered⟩ | ⟨-, went | ⟨failure, failed⟩⟩ :=
    n.invoke_cases node action args ticket
  · rw [answered]
    exact apart rfl rfl rfl rfl rfl rfl
  · rwa [went]
  · rw [failed]
    exact sent.trans (apart rfl rfl rfl rfl rfl rfl)

theorem tellCacheStale (n : Node) (cache : String) (data : Bytes) :
    n.Indoors (n.tellCacheStale cache data).2 := by
  unfold Node.tellCacheStale
  split
  · exact refl n
  · exact publish n _

end Indoors

end Node

/-- Commands that concern the links of a node, or end its work. -/
def NodeCommand.IsOutdoors : NodeCommand → Prop
  | .link .. | .loaded .. | .shutDown _ => True
  | _ => False

namespace Node

variable {n : Node}

/-- Most commands concern what is indoors. -/
theorem Indoors.apply (n : Node) {command : NodeCommand} (inside : ¬ command.IsOutdoors) :
    n.Indoors (n.apply command) := by
  cases command with
  | link => exact absurd trivial inside
  | loaded => exact absurd trivial inside
  | shutDown => exact absurd trivial inside
  | openSession number node queue => exact openSession n number node queue
  | sessionRequest number request =>
    simp only [Node.apply]
    split
    · exact sessionRequest n number _ request
    · exact refl n
  | closeSession number => exact closeSession n number
  | refresh => exact refresh n
  | flush now =>
    refine of_abides (.trans (.of_tends (n.mappings.flush_tends now false)) ?_)
    exact .resumeHandOffs _
  | lockTimeout lock generation =>
    exact of_publishes fun poised => Arbitrator.step_publishes poised (.timeout _ _)
  | acquire lock ticket =>
    exact of_publishes fun poised => Arbitrator.step_publishes poised (.acquire _ _)
  | release lock ticket =>
    exact of_publishes fun poised => Arbitrator.step_publishes poised (.release _ _)
  | query lock ticket =>
    exact of_publishes fun poised => Arbitrator.step_publishes poised (.query _ _)
  | reacquire lock =>
    exact of_publishes fun poised => Arbitrator.step_publishes poised (.reacquire _)
  | mapping call ticket => exact of_abides (.submit n.mappings call ticket)
  | invoke node action args ticket => exact invoke n node action args ticket
  | tellCacheStale cache data => exact tellCacheStale n cache data
  | observe cache number => exact apart rfl rfl rfl rfl rfl rfl
  | listen index listener => exact of_abides (.addListener n.mappings index listener)

/-- What is left of a command is done indoors. -/
theorem Indoors.finish (n : Node) : n.Indoors n.drain.answerActions :=
  (drain n).trans (answerActions n.drain)

/-- A node that is running was running before, and has not been told to shut down. -/
theorem running_of_advance {occurrence : Occurrence}
    (running : (n.advance occurrence).stopped = false) :
    n.stopped = false ∧ ∀ now, occurrence ≠ .command (.shutDown now) := by
  have before : n.stopped = false := by
    cases occurrence with
    | command command =>
      by_contra stopped
      rw [Node.advance, step_of_stopped (Bool.not_eq_false _ ▸ stopped)] at running
      exact stopped running
    | _ => exact running
  refine ⟨before, ?_⟩
  rintro now rfl
  rw [Node.advance, step_of_running before, (Indoors.finish _).stopped] at running
  cases running

theorem running_of_after {run : List Occurrence} (running : (n.after run).stopped = false) :
    n.stopped = false := by
  induction run generalizing n with
  | nil => exact running
  | cons occurrence run ih => exact (running_of_advance (ih running)).1

/-- What is around a node gets on. -/
theorem Indoors.advance (n : Node) {occurrence : Occurrence}
    (outside : ∀ command, occurrence ≠ .command command) : n.Indoors (n.advance occurrence) := by
  cases occurrence with
  | command command => exact absurd rfl (outside command)
  | sessionWriter number taken receiving => exact apart rfl rfl rfl rfl rfl rfl
  | linkWriter peer taken receiving =>
    refine ⟨rfl, rfl, rfl, fun other => ?_, .refl _, fun poised => ⟨poised, rfl⟩⟩
    simp only [Node.advance, Std.ExtTreeMap.getElem?_modify]
    split
    next eq =>
      rw [Std.compare_eq_iff_eq.1 eq, Option.map_map]
      rfl
    next => rfl
  | observers cache observers => exact apart rfl rfl rfl rfl rfl rfl

end Node

end Cohort

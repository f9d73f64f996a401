import Cohort.Proofs.Node.Run
import Mathlib.Logic.Relation

/-!
# What comes in by the links

Reports of links and answers of the membership store do a few things to a node, one after the other:
a record is taken in, an attempt to connect starts or is through, a peer is lost or begins to be
followed, an event or a result comes in. What each of them keeps is kept by every such command.

## Main definitions

* `Node.InOrder`, `Node.Orderly`: what those around a node keep to.
* `Node.Move`: one thing that comes in by the links.
* `Node.Outdoors`: what no move concerns.

## Main statements

* `Node.moves_apply`: reports of links and answers of the membership store are such moves.
* `Node.Moves.outdoors`: moves do not concern sessions, and publish what they do to the locks held.
-/

namespace Cohort

namespace Node

variable {inOrder : Prop} {n : Node}

/-- What the links of a node keep to. An attempt to connect reports that it is connected once, and
before it reports anything else. Nothing is asked of what abandoned attempts report. -/
def InOrder (n : Node) : Occurrence → Prop
  | .command (.link peer generation (.connected _)) =>
    ∀ link, n.links[peer]? = some link → link.isCurrent generation = true →
      link.state = .connecting
  | _ => True

/-- What those around a node keep to. Besides, a session that opens has a number that no open
session has. -/
structure Orderly (n : Node) (occurrence : Occurrence) : Prop where
  links : n.InOrder occurrence
  sessions : ∀ number node queue, occurrence = .command (.openSession number node queue) →
    number ∉ n.sessions

/-- A node that has taken in the record of a peer, whatever is to be done about it. -/
def recording (n : Node) (record : NodeRecord) : Node :=
  let link := n.links[record.name]?.getD (.fresh record n.config.region)
  { n with links := n.links.insert record.name (link.withRecord record n.config.region) }

/-- One thing that comes in by the links of a node, or that is done about them. Attempts to connect
may be known to report in order. -/
inductive Move (inOrder : Prop) (n : Node) : Node → Prop where
  /-- The membership store was consulted, or will be. -/
  | noted (refreshing refreshPending : Bool) : n.Move inOrder { n with refreshing, refreshPending }
  | consulted : n.Move inOrder n.refresh
  | recorded (record : NodeRecord) : n.Move inOrder (n.recording record)
  /-- An attempt to connect to a peer starts. -/
  | tried (now : Nat) {peer : NodeName} {link : Link} (found : n.links[peer]? = some link)
    (down : link.state = .disconnected) : n.Move inOrder (n.connect now peer)
  /-- The attempt is through. -/
  | connected {peer : NodeName} {link : Link} (capacity : Nat)
    (found : n.links[peer]? = some link) (connecting : inOrder → link.state = .connecting) :
    n.Move inOrder { n with links := n.links.insert peer (link.connected capacity) }
  | dropped (peer : NodeName) : n.Move inOrder (n.linkDown peer)
  | forgotten (peer : NodeName) : n.Move inOrder (n.forget peer)
  /-- A peer tells what it holds, and is followed from now on. -/
  | followed {peer : NodeName} {link : Link} (snapshot : Snapshot)
    (found : n.links[peer]? = some link) (named : snapshot.nodeName = link.name) :
    n.Move inOrder
      { n with
        links := n.links.insert peer (link.subscribe snapshot).2
        locks := n.locks.peerSubscribed peer snapshot.locks }.updateMinistry
  /-- An event of a peer is taken in. -/
  | heard {peer : NodeName} {link : Link} (sequence : Nat) (event : NodeEvent)
    (found : n.links[peer]? = some link) (following : link.state = .subscribed)
    (news : link.lastSequence < sequence) :
    n.Move inOrder (({ n with
      links := n.links.insert peer
        ((link.acceptEvent sequence).2.updateRemote (remoteAfter event)) } : Node).peerEvent peer
          event)
  | mappingResult (requestId : Nat) (reply : MappingReply) :
    n.Move inOrder { n with mappings := n.mappings.callCompleted requestId reply }
  | actionResult (requestId : Nat) (reply : ActionReply) :
    n.Move inOrder { n with actions := n.actions.complete requestId reply }

/-- Several things come in, one after the other. -/
abbrev Moves (inOrder : Prop) : Node → Node → Prop := Relation.ReflTransGen (Move inOrder)

/-- What every move keeps, several moves keep. -/
theorem Moves.keeps {P : Node → Prop} {n' : Node} (moves : n.Moves inOrder n')
    (each : ∀ m m', Move inOrder m m' → P m → P m') (start : P n) : P n' := by
  induction moves with
  | refl => exact start
  | tail _ move ih => exact each _ _ move ih

theorem Move.moves {n' : Node} (move : n.Move inOrder n') : n.Moves inOrder n' := .single move

theorem Moves.foldl {α : Type} {f : Node → α → Node} (each : ∀ n a, Moves inOrder n (f n a))
    (l : List α) (n : Node) : n.Moves inOrder (l.foldl f n) :=
  List.foldlRecOn _ _ .refl fun m moves a _ => moves.trans (each m a)

theorem getElem?_linkDown (n : Node) (peer : NodeName) :
    (n.linkDown peer).links[peer]? = n.links[peer]?.map fun link => link.disconnect.2 :=
  Std.ExtTreeMap.getElem?_modify_self

theorem connect_eq {peer : NodeName} {link : Link} (found : n.links[peer]? = some link)
    (now : Nat) : n.connect now peer =
      { n with
        links := n.links.insert peer (link.startConnecting now).attachTask
        outbox := n.outbox ++ [.connect peer (link.startConnecting now).attachTask.generation
          ⟨link.hostName, link.port, n.config.credentials, n.config.frameLimit⟩] } := by
  simp only [connect, found]
  rfl

section PeerMessage

variable {peer : NodeName} {link : Link} {snapshot : Snapshot} {sequence : Nat}

/-- A peer that goes by its own name is followed from its snapshot on. -/
theorem peerMessage_snapshot (named : snapshot.nodeName = link.name) :
    n.peerMessage peer link (.snapshot snapshot) =
      { n with
        links := n.links.insert peer (link.subscribe snapshot).2
        locks := n.locks.peerSubscribed peer snapshot.locks }.updateMinistry := by
  simp only [peerMessage, Link.subscribe, if_pos named]

/-- One that goes by another name is dropped. -/
theorem peerMessage_snapshot_of_ne (other : snapshot.nodeName ≠ link.name) :
    n.peerMessage peer link (.snapshot snapshot) = n.linkDown peer := by
  simp only [peerMessage, Link.subscribe, if_neg other]

/-- A new event of a peer that is followed is taken in. -/
theorem peerMessage_event (new : link.state = .subscribed ∧ link.lastSequence < sequence)
    (event : NodeEvent) :
    n.peerMessage peer link (.event sequence event) =
      ({ n with
        links := n.links.insert peer
          ((link.acceptEvent sequence).2.updateRemote (remoteAfter event)) } : Node).peerEvent peer
            event := by
  simp only [peerMessage, Link.acceptEvent, if_pos new]

/-- Any other event is not. -/
theorem peerMessage_event_of_old (old : ¬ (link.state = .subscribed ∧ link.lastSequence < sequence))
    (event : NodeEvent) : n.peerMessage peer link (.event sequence event) = n := by
  simp only [peerMessage, Link.acceptEvent, if_neg old]

end PeerMessage

/-- A record brings about at most that a link is dropped and tried again. -/
theorem moves_noteRecord (now : Nat) (n : Node) (record : NodeRecord) :
    n.Moves inOrder (noteRecord now n record) := by
  have taken : n.Move inOrder (n.recording record) := .recorded record
  have advised : ∀ link : Link, (link.refresh record n.config.region n.config.staleInterval).1 =
      .connect → (link.withRecord record n.config.region).state = .disconnected := by
    intro link advice
    by_contra up
    simp only [Link.refresh, if_pos up] at advice
    split at advice <;> cases advice
  simp only [noteRecord]
  split
  next => exact taken.moves
  next => exact taken.moves
  next advice =>
    exact taken.moves.tail (.tried now Std.ExtTreeMap.getElem?_insert_self (advised _ advice))
  next =>
    have dropped := taken.moves.tail (.dropped record.name)
    have found := getElem?_linkDown (n.recording record) record.name
    rw [recording, Std.ExtTreeMap.getElem?_insert_self] at found
    exact dropped.tail (.tried now found rfl)

/-- An answer of the membership store is taken in record by record, and peers that are gone are
forgotten one by one. -/
theorem moves_loaded (n : Node) (now : Nat) (answer : Outcome (List NodeRecord)) :
    n.Moves inOrder (n.loaded now answer) := by
  have heard : n.Move inOrder _ := .noted false n.refreshPending
  unfold loaded
  cases answer with
  | error failure => exact heard.moves
  | ok records =>
    dsimp only
    -- the records of the answer first, then the peers that are in none of them
    have left : ∀ peers : List NodeRecord, ∀ gone : List NodeName, n.Moves inOrder
        (gone.foldl forget (peers.foldl (noteRecord now) { n with refreshing := false })) :=
      fun peers gone => (heard.moves.trans (Moves.foldl (moves_noteRecord now) peers _)).trans
        (Moves.foldl (fun m peer => (Move.forgotten peer).moves) gone _)
    split
    · exact ((left _ _).tail (.noted _ false)).tail .consulted
    · exact left _ _

theorem moves_peerMessage {peer : NodeName} {link : Link} (found : n.links[peer]? = some link)
    (message : Message) : n.Moves inOrder (n.peerMessage peer link message) := by
  cases message with
  | snapshot snapshot =>
    by_cases named : snapshot.nodeName = link.name
    · rw [peerMessage_snapshot named]
      exact (Move.followed snapshot found named).moves
    · rw [peerMessage_snapshot_of_ne named]
      exact (Move.dropped peer).moves
  | event sequence event =>
    by_cases new : link.state = .subscribed ∧ link.lastSequence < sequence
    · rw [peerMessage_event new]
      exact (Move.heard sequence event found new.1 new.2).moves
    · rw [peerMessage_event_of_old new]
  | mappingResult requestId code value => exact (Move.mappingResult _ _).moves
  | actionResult requestId code value => exact (Move.actionResult _ _).moves
  | refused code => exact (Move.dropped peer).moves

/-- A report of a link, which is in order if everybody keeps to that. -/
theorem moves_linkReport (n : Node) (peer : NodeName) (generation : Nat) (report : LinkReport) :
    n.Moves (n.InOrder (.command (.link peer generation report)))
      (n.linkReport peer generation report) := by
  unfold linkReport
  split
  next => exact .refl
  next link found =>
    split
    next current =>
      cases report with
      | connected capacity =>
        exact (Move.connected capacity found fun orderly => orderly link found current).moves
      | message message => exact moves_peerMessage found message
      | failed failure => exact (Move.dropped peer).moves
      | closed => exact (Move.dropped peer).moves
    next => exact .refl

/-- A command happens indoors, or comes in by the links, or ends the work of the node. -/
theorem moves_apply (n : Node) {command : NodeCommand} (outside : command.IsOutdoors)
    (lasting : ∀ now, command ≠ .shutDown now) :
    n.Moves (n.InOrder (.command command)) (n.apply command) := by
  cases command with
  | link peer generation report => exact n.moves_linkReport peer generation report
  | loaded now answer => exact n.moves_loaded now answer
  | shutDown now => exact absurd rfl (lasting now)
  | _ => exact outside.elim

/-! ## What no move concerns -/

/-- Sessions are not concerned, and what is published tells of the locks held what it should. -/
structure Outdoors (n n' : Node) : Prop where
  record : n'.record = n.record
  config : n'.config = n.config
  bootStamp : n'.bootStamp = n.bootStamp
  stopped : n'.stopped = n.stopped
  sessions : n'.sessions = n.sessions
  sequence : n'.sequence = n.sequence
  locks : n.locks.Poised → ∃ peerLocks, { n.locks with peerLocks }.Publishes n'.locks

namespace Outdoors

variable {n' n'' : Node}

/-- What neither sessions nor locks take part in. -/
theorem apart (record : n'.record = n.record) (config : n'.config = n.config)
    (bootStamp : n'.bootStamp = n.bootStamp) (stopped : n'.stopped = n.stopped)
    (sessions : n'.sessions = n.sessions) (sequence : n'.sequence = n.sequence)
    (locks : n'.locks = n.locks) : n.Outdoors n' := by
  refine ⟨record, config, bootStamp, stopped, sessions, sequence, fun poised => ?_⟩
  rw [locks]
  exact ⟨n.locks.peerLocks, .refl poised⟩

theorem trans (first : n.Outdoors n') (second : n'.Outdoors n'') : n.Outdoors n'' where
  record := second.record.trans first.record
  config := second.config.trans first.config
  bootStamp := second.bootStamp.trans first.bootStamp
  stopped := second.stopped.trans first.stopped
  sessions := second.sessions.trans first.sessions
  sequence := second.sequence.trans first.sequence
  locks poised := by
    obtain ⟨table, publishes⟩ := first.locks poised
    obtain ⟨table', publishes'⟩ := second.locks publishes.poised
    exact ⟨table', (publishes.noting table').trans publishes'⟩

end Outdoors

/-- The locks that are noted of peers after an event of one of them. -/
def notedAfter (table : Std.ExtTreeMap NodeName LockSet) (peer : NodeName) :
    NodeEvent → Std.ExtTreeMap NodeName LockSet
  | .added lock => table.insert peer ((table[peer]?.getD ∅).insert lock)
  | .removed lock => table.modify peer (·.erase lock)
  | _ => table

/-- Taking in an event of a peer publishes what it does to the locks held. -/
theorem peerEvent_publishes (poised : n.locks.Poised) (peer : NodeName) (event : NodeEvent) :
    { n.locks with peerLocks := notedAfter n.locks.peerLocks peer event }.Publishes
      (n.peerEvent peer event).locks := by
  cases event with
  | acquiring lock => exact Arbitrator.step_publishes poised (.peerAcquiring peer lock)
  | releasing lock => exact Arbitrator.step_publishes poised (.peerReleasing peer lock)
  | added lock => exact Arbitrator.step_publishes poised (.peerAdded peer lock)
  | kept lock => exact Arbitrator.step_publishes poised (.peerKept peer lock)
  | removed lock => exact Arbitrator.step_publishes poised (.peerRemoved peer lock)
  | cacheData cache data =>
    have same : (n.peerEvent peer (.cacheData cache data)).locks = n.locks := by
      simp only [peerEvent]
      split <;> rfl
    rw [same]
    exact .refl poised

/-- Taking in an event of a peer concerns locks, mappings and observers. -/
theorem peerEvent_keeps (n : Node) (peer : NodeName) (event : NodeEvent) :
    n.peerEvent peer event =
      { n with
        locks := (n.peerEvent peer event).locks
        mappings := (n.peerEvent peer event).mappings
        observers := (n.peerEvent peer event).observers } := by
  cases event with
  | cacheData cache data =>
    simp only [peerEvent]
    split <;> rfl
  | _ => rfl

theorem Outdoors.peerEvent (n : Node) (peer : NodeName) (event : NodeEvent) :
    n.Outdoors (n.peerEvent peer event) := by
  rw [peerEvent_keeps]
  exact ⟨rfl, rfl, rfl, rfl, rfl, rfl, fun poised => ⟨_, peerEvent_publishes poised peer event⟩⟩

theorem Move.outdoors {n' : Node} (move : n.Move inOrder n') : n.Outdoors n' := by
  have lost : ∀ (links : Std.ExtTreeMap NodeName Link) (outbox : List NodeEffect) (peer : NodeName),
      n.Outdoors (({ n with links, outbox } : Node).peerLost peer) := fun links outbox peer =>
    ⟨rfl, rfl, rfl, rfl, rfl, rfl, fun poised =>
      ⟨_, Arbitrator.step_publishes poised (.peerDisconnected peer)⟩⟩
  cases move with
  | noted => exact .apart rfl rfl rfl rfl rfl rfl rfl
  | consulted =>
    unfold refresh
    split <;> exact .apart rfl rfl rfl rfl rfl rfl rfl
  | recorded record => exact .apart rfl rfl rfl rfl rfl rfl rfl
  | tried now found =>
    rw [connect_eq found]
    exact .apart rfl rfl rfl rfl rfl rfl rfl
  | connected => exact .apart rfl rfl rfl rfl rfl rfl rfl
  | dropped peer => exact lost _ n.outbox peer
  | forgotten peer =>
    simp only [forget]
    split
    · exact .apart rfl rfl rfl rfl rfl rfl rfl
    · exact lost _ _ peer
  | followed snapshot found =>
    exact ⟨rfl, rfl, rfl, rfl, rfl, rfl, fun poised =>
      ⟨_, Arbitrator.step_publishes poised (.peerSubscribed _ _)⟩⟩
  | heard sequence event found =>
    have noted : ∀ links, n.Outdoors { n with links } := fun links =>
      .apart rfl rfl rfl rfl rfl rfl rfl
    exact (noted _).trans (.peerEvent _ _ event)
  | mappingResult => exact .apart rfl rfl rfl rfl rfl rfl rfl
  | actionResult => exact .apart rfl rfl rfl rfl rfl rfl rfl

theorem Moves.outdoors {n' : Node} (moves : n.Moves inOrder n') : n.Outdoors n' := by
  induction moves with
  | refl => exact .apart rfl rfl rfl rfl rfl rfl rfl
  | tail _ move ih => exact ih.trans move.outdoors

/-! ## The end of a node -/

/-- No command but the last one stops a node. -/
theorem stopped_apply (n : Node) {command : NodeCommand}
    (lasting : ∀ now, command ≠ .shutDown now) : (n.apply command).stopped = n.stopped := by
  by_cases outside : command.IsOutdoors
  · exact (n.moves_apply outside lasting).outdoors.stopped
  · exact (Indoors.apply n outside).stopped

/-- What holds when a node has shut down holds as long as it is stopped, if what is around it does
not concern it. -/
theorem of_stopped {Q : Node → Prop}
    (ends : ∀ (m : Node) (now : Nat), Q (m.shutDown now).drain.answerActions)
    (around : ∀ (m : Node) (occurrence : Occurrence),
      (∀ command, occurrence ≠ .command command) → Q m → Q (m.advance occurrence))
    (running : n.stopped = false) {run : List Occurrence} (stopped : (n.after run).stopped = true) :
    Q (n.after run) := by
  have kept : (n.after run).stopped = true → Q (n.after run) := by
    refine List.foldlRecOn run advance (motive := fun m => m.stopped = true → Q m) ?_ ?_
    · intro stopped
      rw [running] at stopped
      cases stopped
    · intro m before occurrence _ stopped
      cases occurrence with
      | command command =>
        cases halted : m.stopped with
        | true =>
          rw [advance, step_of_stopped halted]
          exact before halted
        | false =>
          rw [advance, step_of_running halted] at stopped ⊢
          by_cases last : ∃ now, command = .shutDown now
          · obtain ⟨now, rfl⟩ := last
            exact ends m now
          · rw [(Indoors.finish _).stopped, stopped_apply m fun now same => last ⟨now, same⟩,
              halted] at stopped
            cases stopped
      | _ =>
        refine around m _ ?_ (before stopped)
        intro command same
        cases same
  exact kept stopped

end Node

end Cohort

import Cohort.Proofs.Node.Chronicle
import Cohort.Proofs.Node.Presence

/-!
# Following a node

What a session is told lets another node follow: the snapshot is taken, every event after it is
taken in when its turn comes, and in the end the other node knows the locks that this one holds.

## Main definitions

* `Node.TakesIn`: every event among messages of a peer is taken in.
* `Node.Attends`: a node follows a peer and knows what it holds.
* `Node.Informs`: what a session was told, and what those who follow make of it.

## Main statements

* `Node.Attends.rest`: who follows keeps up.
* `Node.sessions_inform`: what every session was told is the state of the node.
-/

namespace Cohort

open NodeEvent (Fitting heldAfter)

namespace Node

variable {m n n' : Node} {peer : NodeName} {generation sequence : Nat} {locks : LockSet}

/-! ## Taking messages in -/

/-- A node after messages of a peer, which come in by an attempt to connect, one after the other. -/
def fed (m : Node) (peer : NodeName) (generation : Nat) (messages : List Message) : Node :=
  m.run (messages.map fun message => .link peer generation (.message message))

/-- Every event among messages of a peer is taken in when its turn comes. -/
def TakesIn (m : Node) (peer : NodeName) (generation : Nat) : List Message → Prop
  | [] => True
  | message :: rest =>
    (∀ sequence event, message = .event sequence event →
      ∃ link, m.links[peer]? = some link ∧ (link.acceptEvent sequence).1 = true) ∧
    (m.step (.link peer generation (.message message))).TakesIn peer generation rest

/-- A node follows a peer. It has taken in what the peer has published up to some number, and so
knows the locks that the peer held then. -/
structure Attends (m : Node) (peer : NodeName) (generation sequence : Nat) (locks : LockSet) :
    Prop where
  running : m.stopped = false
  link : ∃ link remote, m.links[peer]? = some link ∧ link.generation = generation ∧
    link.state = .subscribed ∧ link.lastSequence = sequence ∧ link.remote = some remote ∧
    remote.locks = locks

theorem Attends.indoors (attends : m.Attends peer generation sequence locks)
    (indoors : m.Indoors n) : n.Attends peer generation sequence locks := by
  obtain ⟨link, remote, found, current, following, last, knows, holds⟩ := attends.link
  have same := indoors.faces peer
  rw [found, Option.map_some, Option.map_eq_some_iff] at same
  obtain ⟨link', found', face⟩ := same
  refine ⟨indoors.stopped.trans attends.running, link', remote, found', ?_, ?_, ?_, ?_, holds⟩
  · exact (congrArg (fun l : Link => l.generation) face).trans current
  · exact (congrArg (fun l : Link => l.state) face).trans following
  · exact (congrArg (fun l : Link => l.lastSequence) face).trans last
  · exact (congrArg (fun l : Link => l.remote) face).trans knows

theorem isCurrent_of_subscribed {link : Link} (following : link.state = .subscribed) :
    link.isCurrent link.generation = true := by
  simp [Link.isCurrent, following]

/-- With the snapshot of a peer, a node begins to follow it. -/
theorem attends_snapshot {link : Link} (running : m.stopped = false)
    (found : m.links[peer]? = some link) (current : link.isCurrent generation = true)
    {snapshot : Snapshot} (named : snapshot.nodeName = link.name) :
    (m.step (.link peer generation (.message (.snapshot snapshot)))).Attends peer generation
      snapshot.sequence snapshot.locks := by
  rw [step_message running found current]
  refine Attends.indoors ?_ (Indoors.finish _)
  have same : link.generation = generation := by
    simp only [Link.isCurrent, Bool.and_eq_true, decide_eq_true_eq] at current
    exact current.1.symm
  rw [peerMessage_snapshot named, Link.subscribe_of_named named]
  exact ⟨running, _, _, Std.ExtTreeMap.getElem?_insert_self, same, rfl, rfl, rfl, rfl⟩

/-- The next event is taken in. -/
theorem Attends.event (attends : m.Attends peer generation sequence locks) (event : NodeEvent) :
    (∃ link, m.links[peer]? = some link ∧ (link.acceptEvent (sequence + 1)).1 = true) ∧
      (m.step (.link peer generation (.message (.event (sequence + 1) event)))).Attends peer
        generation (sequence + 1) (event.holding locks) := by
  obtain ⟨link, remote, found, rfl, following, rfl, knows, rfl⟩ := attends.link
  have new : link.state = .subscribed ∧ link.lastSequence < link.lastSequence + 1 :=
    ⟨following, Nat.lt_succ_self _⟩
  refine ⟨⟨link, found, by rw [Link.acceptEvent_of_new new]⟩, ?_⟩
  rw [step_message attends.running found (isCurrent_of_subscribed following)]
  refine Attends.indoors ?_ (Indoors.finish _)
  rw [peerMessage_event new, heard_link new knows event, peerEvent_keeps]
  exact ⟨attends.running, _, _, Std.ExtTreeMap.getElem?_insert_self, rfl, following, rfl, rfl, rfl⟩

/-- A result changes nothing about whom a node follows. -/
theorem Attends.result (attends : m.Attends peer generation sequence locks) {message : Message}
    (result : message.isResult = true) :
    (m.step (.link peer generation (.message message))).Attends peer generation sequence locks := by
  obtain ⟨link, remote, found, rfl, following, -⟩ := attends.link
  rw [step_message attends.running found (isCurrent_of_subscribed following)]
  refine Attends.indoors (attends.indoors ?_) (Indoors.finish _)
  cases message with
  | mappingResult requestId code value => exact .of_abides (.callCompleted _ _ _)
  | actionResult requestId code value => exact .apart rfl rfl rfl rfl rfl rfl
  | _ => cases result

/-- Who follows keeps up: the events that follow are taken in, and what the peer holds is known. -/
theorem Attends.rest {events : List NodeEvent} {messages : List Message}
    (attends : m.Attends peer generation sequence locks)
    (numbered : messages.filterMap Message.event? = events.zipIdx (sequence + 1))
    (results : ∀ message ∈ messages, message.event? = none → message.isResult = true) :
    m.TakesIn peer generation messages ∧
      (m.fed peer generation messages).Attends peer generation (sequence + events.length)
        (heldAfter locks events) := by
  -- a result leaves the number of the next event as it is, an event leaves it one higher
  induction messages generalizing m sequence locks events with
  | nil =>
    cases events with
    | nil => exact ⟨trivial, attends⟩
    | cons event events => cases numbered
  | cons message messages ih =>
    have later : ∀ other ∈ messages, other.event? = none → other.isResult = true :=
      fun other there => results other (List.mem_cons_of_mem _ there)
    rw [filterMap_cons_eq] at numbered
    cases tells : message.event? with
    | none =>
      have result := results message List.mem_cons_self tells
      rw [tells, Option.toList_none, List.nil_append] at numbered
      obtain ⟨taken, kept⟩ := ih (attends.result result) numbered later
      refine ⟨⟨?_, taken⟩, kept⟩
      rintro number event rfl
      cases tells
    | some told =>
      cases events with
      | nil =>
        rw [tells] at numbered
        cases numbered
      | cons event events =>
        rw [tells, Option.toList_some, List.singleton_append, List.zipIdx_cons] at numbered
        obtain ⟨rfl, onward⟩ := List.cons.inj numbered
        have same : message = .event (sequence + 1) event := by
          cases message with
          | event number other =>
            obtain ⟨rfl, rfl⟩ := Prod.mk.inj (Option.some.inj tells)
            rfl
          | _ => cases tells
        subst same
        obtain ⟨accepted, attends⟩ := attends.event event
        obtain ⟨taken, kept⟩ := ih attends onward later
        refine ⟨⟨?_, taken⟩, ?_⟩
        · rintro number other eq
          obtain ⟨rfl, rfl⟩ := Message.event.inj eq
          exact accepted
        · have shifted : sequence + (events.length + 1) = sequence + 1 + events.length := by omega
          rw [List.length_cons, shifted]
          exact kept

/-! ## What every session is told -/

/-- What a session was told lets others follow the node: a snapshot, then every event up to the last
one. -/
structure Informs (n : Node) (past : List NodeEvent) (sent : List Message) (start : Nat)
    (rest : List Message) : Prop extends
    RelaysFrom n.name n.bootStamp past sent start rest where
  /-- The events, replayed over the locks of the snapshot, give the locks that are held now. -/
  held : heldAfter (heldAfter ∅ (past.take start)) ((rest.filterMap Message.event?).map Prod.fst) =
    n.locks.held
  /-- Who has just connected to the node and is told so takes every event in, and then knows the
  locks that are held now. -/
  followed : ∀ (m : Node) (link : Link) (generation : Nat), m.stopped = false →
    m.links[n.name]? = some link → link.name = n.name → link.isCurrent generation = true →
    m.TakesIn n.name generation sent ∧
      ∃ link remote, (m.fed n.name generation sent).links[n.name]? = some link ∧
        link.remote = some remote ∧ remote.locks = n.locks.held

theorem Chronicle.informs (chronicle : n.Chronicle past []) (rested : n.Rested)
    {sent rest : List Message} {start : Nat}
    (relays : RelaysFrom n.name n.bootStamp past sent start rest) :
    n.Informs past sent start rest := by
  have told : (rest.filterMap Message.event?).map Prod.fst = past.drop start := by
    rw [relays.events, List.zipIdx_map_fst]
  have whole : heldAfter ∅ past = n.locks.held := by
    have holds := chronicle.replays.holds
    rw [(isQuiet_iff.1 rested.quiet).1] at holds
    simpa [LockEffect.events] using holds
  have replayed : heldAfter (heldAfter ∅ (past.take start)) (past.drop start) = n.locks.held := by
    rw [← NodeEvent.heldAfter_append, List.take_append_drop, whole]
  refine ⟨relays, told ▸ replayed, fun m link generation running found named current => ?_⟩
  rw [relays.begins]
  let first : Snapshot := ⟨n.name, n.bootStamp, heldAfter ∅ (past.take start), start⟩
  have same : first.nodeName = link.name := named.symm
  have begins := attends_snapshot running found current same
  obtain ⟨taken, attends⟩ := begins.rest relays.events relays.results
  refine ⟨⟨fun sequence event told => ?_, taken⟩, ?_⟩
  · cases told
  obtain ⟨link, remote, found, -, -, -, knows, holds⟩ := attends.link
  exact ⟨link, remote, found, knows, holds.trans replayed⟩

/-- Between two commands, whatever a node has published fits the locks that it held at the time, and
every session that is open was told all of it from its snapshot on. -/
theorem sessions_inform (started : n.Started) {run : List Occurrence}
    (fresh : ∀ number node queue, .command (.openSession number node queue) ∈ run →
      queue.sent = []) :
    Fitting ∅ (n.published run) ∧ (n.after run).sequence = (n.published run).length ∧
      ∀ (number : Nat) (session : Session), (n.after run).sessions[number]? = some session →
        ∃ start rest, (n.after run).Informs (n.published run) session.queue.sent start rest := by
  have chronicle := chronicle_after started fresh
  have rested := started.rested.after run
  refine ⟨?_, chronicle.sequence, fun number session found => ?_⟩
  · have fits := chronicle.replays.fits
    rw [(isQuiet_iff.1 rested.quiet).1] at fits
    simpa [LockEffect.events] using fits
  · obtain ⟨start, rest, relays⟩ := chronicle.relays number session found
    exact ⟨start, rest, chronicle.informs rested relays⟩

/-- A run in which a node takes a lock, is followed, and then takes another one by the consent of
who follows. -/
def lendingRun : List Occurrence :=
  [.command (.acquire ⟨"disk", none⟩ 1),
    .command (.openSession 1 "b" (.fresh 8)),
    .command (.acquire ⟨"tape", none⟩ 2),
    .command (.sessionRequest 1 (.nodeAction 1 "rewind" [])),
    .command (.sessionRequest 1 (.ratify ⟨"tape", none⟩ true)),
    .command (.release ⟨"disk", none⟩ 3)]

theorem fresh_in_lendingRun (number : Nat) (node : NodeName) (queue : Mailbox Message)
    (opened : Occurrence.command (.openSession number node queue) ∈ lendingRun) :
    queue.sent = [] := by
  simp only [lendingRun, List.mem_cons, Occurrence.command.injEq, NodeCommand.openSession.injEq,
    reduceCtorEq, List.not_mem_nil, false_or, or_false] at opened
  obtain ⟨-, -, rfl⟩ := opened
  rfl

theorem sessions_inform_in_lendingRun :
    (∀ number node queue, Occurrence.command (.openSession number node queue) ∈ lendingRun →
      queue.sent = []) ∧
    (∃ session, (newcomer.after lendingRun).sessions[1]? = some session ∧
      session.queue.sent.length = 5) ∧
    Fitting ∅ (newcomer.published lendingRun) ∧
    (newcomer.after lendingRun).sequence = (newcomer.published lendingRun).length ∧
    ∀ (number : Nat) (session : Session),
      (newcomer.after lendingRun).sessions[number]? = some session →
        ∃ start rest, (newcomer.after lendingRun).Informs (newcomer.published lendingRun)
          session.queue.sent start rest := by
  refine ⟨fresh_in_lendingRun, ?_, sessions_inform newcomer_started fresh_in_lendingRun⟩
  have told : ((newcomer.after lendingRun).sessions[1]?).map
      (fun session => session.queue.sent.length) = some 5 := by decide +kernel
  exact Option.map_eq_some_iff.1 told

end Node

end Cohort

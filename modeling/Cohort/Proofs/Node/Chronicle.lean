import Cohort.Proofs.Node.Calls

/-!
# What a node publishes

Everything that a node publishes in a run, in order, is its chronicle. Replayed from the beginning
it gives the locks that the node holds, once what is still in the outboxes has been published too.
What a session is told is a snapshot of the node and the chronicle from there on.

## Main definitions

* `Node.published`: what a node publishes in a run.
* `Node.Relays`: a session is told the chronicle from its snapshot on.
* `Node.Chronicle`: the chronicle tells of the locks held, and all sessions are told it.

## Main statements

* `Node.Chronicle.publish`: what is published next goes to all sessions that stay.
* `Node.Chronicle.drain`, `Node.Chronicle.apply`: every command keeps the chronicle.
* `Node.Chronicle.after`, `Node.chronicle_after`: the chronicle of a run.
-/

namespace Cohort

open NodeEvent (Fitting heldAfter)

/-! ## Events published -/

namespace Node

/-- What a command publishes before what is wanted because of it is carried out. -/
def publishedBy (n : Node) : NodeCommand → List NodeEvent
  | .tellCacheStale cache data => if isReserved cache then [] else [.cacheData cache data]
  | .shutDown now =>
    let flushed := { n with mappings := n.mappings.flush now true }
    flushed.drainPublishes ++
      { flushed.drain with locks := flushed.drain.locks.shutDown }.drainPublishes
  | _ => []

/-- What a node publishes when something happens. -/
def publishes (n : Node) : Occurrence → List NodeEvent
  | .command command =>
    if n.stopped then [] else n.publishedBy command ++ (n.apply command).drainPublishes
  | _ => []

/-- What a node publishes in a run. -/
def published (n : Node) : List Occurrence → List NodeEvent
  | [] => []
  | occurrence :: run => n.publishes occurrence ++ (n.advance occurrence).published run

theorem published_append (n : Node) (run later : List Occurrence) :
    n.published (run ++ later) = n.published run ++ (n.after run).published later := by
  induction run generalizing n with
  | nil => rfl
  | cons occurrence run ih =>
    rw [List.cons_append, published, ih, published, List.append_assoc]
    rfl

end Node

/-- News about caches fit any locks, and change none. -/
theorem NodeEvent.fitting_of_news {events : List NodeEvent}
    (news : ∀ event ∈ events, MappingService.isNews (.broadcast event) = true) (held : LockSet) :
    Fitting held events ∧ heldAfter held events = held := by
  induction events with
  | nil => exact ⟨trivial, rfl⟩
  | cons event events ih =>
    have first := news event List.mem_cons_self
    have rest := ih fun event later => news event (List.mem_cons_of_mem _ later)
    cases event with
    | cacheData cache data => exact ⟨⟨trivial, rest.1⟩, rest.2⟩
    | _ => cases first

/-- What was published and is wanted to be published tells of the locks that an arbitrator holds. -/
structure Arbitrator.Replays (events : List NodeEvent) (t : Arbitrator) : Prop where
  poised : t.Poised
  fits : Fitting ∅ (events ++ LockEffect.events t.outbox)
  holds : heldAfter ∅ (events ++ LockEffect.events t.outbox) = t.held

theorem Arbitrator.Replays.tells {events : List NodeEvent} {t t' : Arbitrator}
    (replays : t.Replays events) (tells : t.Tells t') : t'.Replays events := by
  obtain ⟨effects, grown, fits, holds⟩ := tells.outbox
  have more : events ++ LockEffect.events t'.outbox =
      events ++ LockEffect.events t.outbox ++ LockEffect.events effects := by
    rw [grown, LockEffect.events_append, List.append_assoc]
  refine ⟨tells.poised, ?_, ?_⟩
  · rw [more, NodeEvent.fitting_append, replays.holds]
    exact ⟨replays.fits, fits⟩
  · rw [more, NodeEvent.heldAfter_append, replays.holds, holds]

/-- A service that wants these things done, and more, publishes news about caches only. -/
structure MappingService.Newsy (more : List MappingEffect) (s : MappingService) : Prop where
  numbered : s.Numbered
  news : ∀ event, .broadcast event ∈ more ++ s.outbox → isNews (.broadcast event) = true

theorem MappingService.Newsy.serves {more : List MappingEffect} {s t : MappingService}
    {asked : List Ticket} (newsy : s.Newsy more) (serves : Serves asked s t) : t.Newsy more := by
  obtain ⟨effects, serving⟩ := serves
  refine ⟨serving.numbered, fun event there => ?_⟩
  rw [serving.outbox, ← List.append_assoc] at there
  obtain before | now := List.mem_append.1 there
  · exact newsy.news event before
  · exact serving.news event now

namespace Node

variable {n : Node} {more : List MappingEffect}

/-- What the locks want done does not concern what the mappings publish. -/
theorem newsy_lockEffect (newsy : n.mappings.Newsy more) (effect : LockEffect) :
    (n.lockEffect effect).mappings.Newsy more := by
  rwa [lockEffect_keeps]

theorem newsy_mappingEffect {effect : MappingEffect}
    (newsy : n.mappings.Newsy (effect :: more)) : (n.mappingEffect effect).mappings.Newsy more := by
  have rest : n.mappings.Newsy more :=
    ⟨newsy.numbered, fun event there => newsy.news event (List.mem_cons_of_mem _ there)⟩
  cases effect with
  | broadcast event =>
    show (n.publish event).mappings.Newsy more
    rwa [publish_keeps]
  | call peer requestId call =>
    obtain ⟨-, -, went⟩ | ⟨failure, failed⟩ := n.mappingEffect_call peer requestId call
    · rwa [went, sendToSubscribed_keeps]
    · rw [failed]
      exact rest.serves (MappingService.callCompleted_serves rest.numbered _ _)
  | _ => exact rest

theorem newsy_relieved (newsy : n.mappings.Newsy []) :
    n.relieved.mappings.Newsy n.mappings.outbox := by
  refine ⟨newsy.numbered, fun event there => ?_⟩
  rw [show n.relieved.mappings.outbox = [] from rfl, List.append_nil] at there
  exact newsy.news event there

end Node

/-! ## Sessions that are told -/

/-- The event that a message tells of, and its number. -/
def Message.event? : Message → Option (NodeEvent × Nat)
  | .event sequence published => some (published, sequence)
  | _ => none

/-- Whether a message is the result of a call. -/
def Message.isResult : Message → Bool
  | .mappingResult .. | .actionResult .. => true
  | _ => false

namespace Node

variable {inOrder : Prop} {n n' : Node} {past soon : List NodeEvent} {event : NodeEvent}
  {name : NodeName} {bootStamp : Nat} {sent : List Message}

/-- A session was told the state of a node when so many events were published, then every event
since then in order, and between these nothing but results. -/
structure RelaysFrom (name : NodeName) (bootStamp : Nat) (past : List NodeEvent)
    (sent : List Message) (start : Nat) (rest : List Message) : Prop where
  started : start ≤ past.length
  begins : sent = .snapshot ⟨name, bootStamp, heldAfter ∅ (past.take start), start⟩ :: rest
  events : rest.filterMap Message.event? = (past.drop start).zipIdx (start + 1)
  results : ∀ message ∈ rest, message.event? = none → message.isResult = true

/-- What was put into the mailbox of a session is a snapshot and what was published since then. -/
def Relays (name : NodeName) (bootStamp : Nat) (past : List NodeEvent) (sent : List Message) :
    Prop :=
  ∃ start rest, RelaysFrom name bootStamp past sent start rest

/-- The chronicle of a node: `past` is what it has published, and `soon` is what it is about to
publish before what is in its outboxes. -/
structure Chronicle (past soon : List NodeEvent) (n : Node) : Prop where
  sequence : n.sequence = past.length
  replays : n.locks.Replays (past ++ soon)
  relays : ∀ (number : Nat) (session : Session), n.sessions[number]? = some session →
    Relays n.name n.bootStamp past session.queue.sent

/-- A session is told the next event. -/
theorem Relays.next (relays : Relays name bootStamp past sent) (event : NodeEvent) :
    Relays name bootStamp (past ++ [event]) (sent ++ [.event (past.length + 1) event]) := by
  obtain ⟨start, rest, started, rfl, events, results⟩ := relays
  refine ⟨start, rest ++ [.event (past.length + 1) event], ?_, ?_, ?_, ?_⟩
  · rw [List.length_append]
    omega
  · rw [List.take_append_of_le_length started]
    rfl
  · rw [List.filterMap_append, events, List.drop_append_of_le_length started, List.zipIdx_append,
      List.length_drop, show start + 1 + (past.length - start) = past.length + 1 by omega]
    rfl
  · intro message there silent
    obtain before | now := List.mem_append.1 there
    · exact results message before silent
    · rw [List.mem_singleton.1 now] at silent
      cases silent

/-- A session is told a result. -/
theorem Relays.result (relays : Relays name bootStamp past sent) {message : Message}
    (result : message.isResult = true) : Relays name bootStamp past (sent ++ [message]) := by
  have silent : message.event? = none := by
    cases message with
    | event sequence event => cases result
    | _ => rfl
  obtain ⟨start, rest, started, rfl, events, results⟩ := relays
  refine ⟨start, rest ++ [message], started, rfl, ?_, fun other there _ => ?_⟩
  · rw [List.filterMap_append, events, List.filterMap_cons, silent]
    exact List.append_nil _
  · obtain before | now := List.mem_append.1 there
    · exact results other before ‹_›
    · rwa [List.mem_singleton.1 now]

theorem sent_of_offer? {α : Type} {box box' : Mailbox α} {item : α}
    (taken : box.offer? item = some box') : box'.sent = box.sent ++ [item] := by
  unfold Mailbox.offer? at taken
  split at taken
  · rw [← Option.some.inj taken]
  · cases taken

namespace Chronicle

/-- Nothing is published, sessions are told nothing, and some of them may end. -/
theorem congr (chronicle : n.Chronicle past soon) (record : n'.record = n.record)
    (bootStamp : n'.bootStamp = n.bootStamp) (sequence : n'.sequence = n.sequence)
    (locks : n.locks.Poised → n.locks.Tells n'.locks)
    (sessions : ∀ (number : Nat) (session : Session), n'.sessions[number]? = some session →
      ∃ before : Session, n.sessions[number]? = some before ∧
        session.queue.sent = before.queue.sent) : n'.Chronicle past soon where
  sequence := sequence.trans chronicle.sequence
  replays := chronicle.replays.tells (locks chronicle.replays.poised)
  relays number session found := by
    obtain ⟨before, there, same⟩ := sessions number session found
    rw [same, Node.name, record, bootStamp]
    exact chronicle.relays number before there

/-- What neither sessions nor locks take part in. -/
theorem apart (chronicle : n.Chronicle past soon) (record : n'.record = n.record)
    (bootStamp : n'.bootStamp = n.bootStamp) (sequence : n'.sequence = n.sequence)
    (locks : n'.locks = n.locks) (sessions : n'.sessions = n.sessions) :
    n'.Chronicle past soon := by
  refine chronicle.congr record bootStamp sequence (fun poised => ?_) fun number session found => ?_
  · rw [locks]
    exact .refl poised
  · rw [sessions] at found
    exact ⟨session, found, rfl⟩

/-- Something happens to the locks. -/
theorem locks {t : Arbitrator} (chronicle : n.Chronicle past soon)
    (publishes : n.locks.Poised → n.locks.Publishes t) :
    { n with locks := t }.Chronicle past soon :=
  chronicle.congr rfl rfl rfl (fun poised => (publishes poised).toTells) fun _ session found =>
    ⟨session, found, rfl⟩

end Chronicle

theorem closeSession_tells (n : Node) (number : Nat) (poised : n.locks.Poised) :
    n.locks.Tells (n.closeSession number).locks := by
  cases found : n.sessions[number]? with
  | none =>
    rw [closeSession_of_closed found]
    exact .refl poised
  | some session =>
    rw [closeSession_of_open found]
    dsimp only
    split
    · exact .refl poised
    · have parted := Arbitrator.step_publishes poised (.removeSubscriber session.node)
      exact ⟨parted.poised, parted.outbox⟩

theorem publish_tells (n : Node) (event : NodeEvent) (poised : n.locks.Poised) :
    n.locks.Tells (n.publish event).locks := by
  have offered : n.locks.Tells (n.offered event).locks := .refl poised
  rw [publish_eq]
  refine List.foldlRecOn (motive := fun m : Node => n.locks.Tells m.locks) _ _ offered ?_
  exact fun m tells number _ => tells.trans (m.closeSession_tells number tells.poised)

namespace Chronicle

theorem closeSession (chronicle : n.Chronicle past soon) (number : Nat) :
    (n.closeSession number).Chronicle past soon := by
  refine chronicle.congr ?_ ?_ ?_ (n.closeSession_tells number) fun k session found => ?_
  · rw [closeSession_keeps]
  · rw [closeSession_keeps]
  · rw [closeSession_keeps]
  · rw [sessions_closeSession, Std.ExtTreeMap.getElem?_erase] at found
    split at found
    next => cases found
    next => exact ⟨session, found, rfl⟩

/-- What is published goes to all sessions that stay. -/
theorem publish (chronicle : n.Chronicle past (event :: soon)) :
    (n.publish event).Chronicle (past ++ [event]) soon where
  sequence := by
    rw [publish_keeps, List.length_append, chronicle.sequence]
    rfl
  replays := by
    have replays := chronicle.replays.tells (n.publish_tells event chronicle.replays.poised)
    rwa [List.append_cons] at replays
  relays number session found := by
    rw [getElem?_publish, Option.bind_eq_some_iff] at found
    obtain ⟨before, there, found⟩ := found
    obtain ⟨queue, taken, rfl⟩ := Option.map_eq_some_iff.1 found
    have relays := (chronicle.relays number before there).next event
    rw [publish_keeps]
    show Relays n.name n.bootStamp _ queue.sent
    rwa [sent_of_offer? taken, chronicle.sequence]

/-- News about a cache may be published at any time. -/
theorem news (chronicle : n.Chronicle past soon)
    (news : MappingService.isNews (.broadcast event) = true) :
    n.Chronicle past (event :: soon) := by
  have same : ∀ held later, (Fitting held (event :: later) ↔ Fitting held later) ∧
      heldAfter held (event :: later) = heldAfter held later := by
    intro held later
    cases event with
    | cacheData cache data => exact ⟨⟨And.right, fun fits => ⟨trivial, fits⟩⟩, rfl⟩
    | _ => cases news
  refine ⟨chronicle.sequence, ⟨chronicle.replays.poised, ?_, ?_⟩, chronicle.relays⟩
  · have fits := chronicle.replays.fits
    rw [List.append_assoc, NodeEvent.fitting_append] at fits ⊢
    exact ⟨fits.1, ((same _ _).1).2 fits.2⟩
  · have holds := chronicle.replays.holds
    rw [List.append_assoc, NodeEvent.heldAfter_append] at holds ⊢
    exact ((same _ _).2).trans holds

/-- A session is told the result of a call, if it can be told. -/
theorem sendToSession (chronicle : n.Chronicle past soon) (number : Nat) {message : Message}
    (result : message.isResult = true) : (n.sendToSession number message).Chronicle past soon := by
  refine ⟨chronicle.sequence, chronicle.replays, fun k session found => ?_⟩
  rw [Node.sendToSession, Std.ExtTreeMap.getElem?_modify] at found
  split at found
  next eq =>
    obtain ⟨before, there, rfl⟩ := Option.map_eq_some_iff.1 found
    have relays := chronicle.relays number before there
    cases taken : before.queue.offer? message with
    | none => exact relays
    | some queue =>
      show Relays n.name n.bootStamp past queue.sent
      rw [sent_of_offer? taken]
      exact relays.result result
  next => exact chronicle.relays k session found

/-- A session that opens is told of the locks held, once all that happened to them is published. -/
theorem openSession (chronicle : n.Chronicle past []) (quiet : n.locks.outbox = []) (number : Nat)
    (node : NodeName) {queue : Mailbox Message} (fresh : queue.sent = []) :
    (n.openSession number node queue).Chronicle past [] := by
  have holds := chronicle.replays.holds
  rw [quiet, List.append_nil] at holds
  have told : ∀ queue', queue.offer? (.snapshot n.snapshot) = some queue' →
      Relays n.name n.bootStamp past queue'.sent := by
    intro queue' taken
    refine ⟨past.length, [], Nat.le_refl _, ?_, ?_, nofun⟩
    · rw [sent_of_offer? taken, fresh, snapshot, chronicle.sequence, List.take_length]
      rw [show LockEffect.events [] = [] from rfl, List.append_nil] at holds
      rw [holds]
      rfl
    · rw [List.drop_length]
      rfl
  unfold Node.openSession
  split
  next => exact chronicle
  next queue' taken =>
    have begun : ∀ m : Node, m.sessions = n.sessions → m.Chronicle past [] →
        m.record = n.record → m.bootStamp = n.bootStamp →
        { m with sessions := m.sessions.insert number ⟨node, queue'⟩ }.Chronicle past [] := by
      intro m same chronicle record bootStamp
      refine ⟨chronicle.sequence, chronicle.replays, fun k session found => ?_⟩
      rw [Std.ExtTreeMap.getElem?_insert] at found
      split at found
      next =>
        rw [← Option.some.inj found]
        rw [Node.name, record, bootStamp]
        exact told queue' taken
      next => exact chronicle.relays k session found
    split
    · exact begun n rfl chronicle rfl rfl
    · refine begun _ rfl (chronicle.congr rfl rfl rfl (fun poised => ?_) ?_) rfl rfl
      · exact ⟨poised, [], (List.append_nil _).symm, trivial, rfl⟩
      · exact fun k session found => ⟨session, found, rfl⟩

/-- What is wanted is carried out. -/
theorem lockEffect {effect : LockEffect}
    (chronicle : n.Chronicle past (effect.event?.toList ++ soon)) :
    (n.lockEffect effect).Chronicle (past ++ effect.event?.toList) soon := by
  cases effect with
  | publish event => exact chronicle.publish
  | ratify peer lock acquire =>
    simp only [Node.lockEffect, LockEffect.event?, Option.toList_none, List.append_nil]
    rw [sendToPeer_keeps]
    exact chronicle.apart rfl rfl rfl rfl rfl
  | _ =>
    simp only [LockEffect.event?, Option.toList_none, List.append_nil]
    exact chronicle.apart rfl rfl rfl rfl rfl

theorem mappingEffect {effect : MappingEffect}
    (chronicle : n.Chronicle past (effect.event?.toList ++ soon)) :
    (n.mappingEffect effect).Chronicle (past ++ effect.event?.toList) soon := by
  cases effect with
  | broadcast event => exact chronicle.publish
  | call peer requestId call =>
    simp only [MappingEffect.event?, Option.toList_none, List.append_nil]
    obtain ⟨-, -, went⟩ | ⟨failure, failed⟩ := n.mappingEffect_call peer requestId call
    · rw [went, sendToSubscribed_keeps]
      exact chronicle.apart rfl rfl rfl rfl rfl
    · rw [failed, sendToSubscribed_keeps]
      exact chronicle.apart rfl rfl rfl rfl rfl
  | _ =>
    simp only [MappingEffect.event?, Option.toList_none, List.append_nil]
    exact chronicle.apart rfl rfl rfl rfl rfl

/-- What is in the outboxes is published next. -/
theorem relieved (chronicle : n.Chronicle past [])
    (news : ∀ event, .broadcast event ∈ n.mappings.outbox →
      MappingService.isNews (.broadcast event) = true) :
    n.relieved.Chronicle past n.agenda := by
  have broadcast : ∀ event ∈ n.mappings.outbox.filterMap MappingEffect.event?,
      MappingService.isNews (.broadcast event) = true := by
    intro event there
    obtain ⟨effect, among, published⟩ := List.mem_filterMap.1 there
    cases effect with
    | broadcast event' =>
      obtain rfl := Option.some.inj published
      exact news _ among
    | _ => cases published
  have silent := fun held => NodeEvent.fitting_of_news broadcast held
  have fits := chronicle.replays.fits
  have holds := chronicle.replays.holds
  rw [List.append_nil] at fits holds
  have none : LockEffect.events n.relieved.locks.outbox = [] := rfl
  refine ⟨chronicle.sequence, ⟨chronicle.replays.poised, ?_, ?_⟩, chronicle.relays⟩
  · rw [none, List.append_nil, agenda, ← List.append_assoc, NodeEvent.fitting_append]
    exact ⟨fits, (silent _).1⟩
  · rw [none, List.append_nil, agenda, ← List.append_assoc, NodeEvent.heldAfter_append, holds]
    exact (silent _).2

/-- Whatever is wanted is published, in the order in which it came up. -/
theorem drain (chronicle : n.Chronicle past []) (newsy : n.mappings.Newsy []) :
    n.drain.Chronicle (past ++ n.drainPublishes) [] ∧ n.drain.mappings.Newsy [] := by
  -- what was in the outboxes is `soon`, and what comes up meanwhile is in the outboxes
  refine drain_trace (P := fun past effects more m =>
    m.Chronicle past (LockEffect.events effects ++ more.filterMap MappingEffect.event?) ∧
      m.mappings.Newsy more) ?_ ?_ ?_ ⟨chronicle, newsy⟩
  · rintro past m ⟨chronicle, newsy⟩
    exact ⟨chronicle.relieved newsy.news, newsy_relieved newsy⟩
  · rintro past effect effects more m ⟨chronicle, newsy⟩
    rw [LockEffect.events, filterMap_cons_eq, List.append_assoc] at chronicle
    exact ⟨chronicle.lockEffect, newsy_lockEffect newsy effect⟩
  · rintro past effect effects m ⟨chronicle, newsy⟩
    rw [filterMap_cons_eq, ← List.append_assoc] at chronicle
    exact ⟨chronicle.mappingEffect, newsy_mappingEffect newsy⟩

theorem sessionRequest (chronicle : n.Chronicle past []) (number : Nat) (session : Session)
    (request : Request) : (n.sessionRequest number session request).Chronicle past [] := by
  cases request with
  | ratify lock acquire =>
    exact chronicle.locks fun poised => Arbitrator.step_publishes poised (.ratify _ _ _)
  | mapping requestId call =>
    have handled : { n with mappings := (n.mappings.handleCall call).2 }.Chronicle past [] :=
      chronicle.apart rfl rfl rfl rfl rfl
    refine handled.sendToSession number ?_
    unfold Message.ofMappingResult
    split <;> rfl
  | nodeAction requestId action args =>
    refine chronicle.sendToSession number ?_
    unfold Message.ofActionResult
    split <;> rfl
  | subscribe credentials version => exact chronicle
  | logOff => exact chronicle

theorem moves (chronicle : n.Chronicle past soon) (moves : n.Moves inOrder n') :
    n'.Chronicle past soon := by
  have outdoors := moves.outdoors
  refine chronicle.congr outdoors.record outdoors.bootStamp outdoors.sequence (fun poised => ?_)
    fun number session found => ?_
  · obtain ⟨peerLocks, publishes⟩ := outdoors.locks poised
    exact ⟨publishes.poised, publishes.outbox⟩
  · rw [outdoors.sessions] at found
    exact ⟨session, found, rfl⟩

end Chronicle

namespace Chronicle

/-- The end of a node publishes what it still has to tell. -/
theorem shutDown (chronicle : n.Chronicle past []) (newsy : n.mappings.Newsy []) (now : Nat) :
    (n.shutDown now).Chronicle (past ++ n.publishedBy (.shutDown now)) [] ∧
      (n.shutDown now).mappings.Newsy [] := by
  have flushed : { n with mappings := n.mappings.flush now true }.Chronicle past [] :=
    chronicle.apart rfl rfl rfl rfl rfl
  have newsy' : (n.mappings.flush now true).Newsy [] :=
    newsy.serves (MappingService.flush_serves newsy.numbered now true)
  obtain ⟨passed, newsy'⟩ := flushed.drain newsy'
  have ending := passed.locks fun poised => Arbitrator.step_publishes poised .shutDown
  obtain ⟨ended, newsy'⟩ := ending.drain newsy'
  rw [shutDown_keeps, publishedBy, ← List.append_assoc]
  refine ⟨⟨ended.sequence, ended.replays, fun number session found => ?_⟩, newsy'⟩
  simp at found

/-- Most commands publish nothing themselves. -/
theorem apply_silent (chronicle : n.Chronicle past []) (rested : n.Rested) {command : NodeCommand}
    (fresh : ∀ number node queue, command = .openSession number node queue → queue.sent = [])
    (untold : ∀ cache data, command ≠ .tellCacheStale cache data)
    (lasting : ∀ now, command ≠ .shutDown now) : (n.apply command).Chronicle past [] := by
  cases command with
  | shutDown now => exact absurd rfl (lasting now)
  | tellCacheStale cache data => exact absurd rfl (untold cache data)
  | link peer generation report => exact chronicle.moves (n.moves_linkReport peer generation report)
  | loaded now answer =>
    have moves : n.Moves True (n.loaded now answer) := n.moves_loaded now answer
    exact chronicle.moves moves
  | refresh =>
    have looked : n.Move True n.refresh := .consulted
    exact chronicle.moves looked.moves
  | openSession number node queue =>
    exact chronicle.openSession (isQuiet_iff.1 rested.quiet).1 number node (fresh _ _ _ rfl)
  | sessionRequest number request =>
    simp only [Node.apply]
    split
    · exact chronicle.sessionRequest number _ request
    · exact chronicle
  | closeSession number => exact chronicle.closeSession number
  | lockTimeout lock generation =>
    exact chronicle.locks fun poised => Arbitrator.step_publishes poised (.timeout _ _)
  | acquire lock ticket =>
    exact chronicle.locks fun poised => Arbitrator.step_publishes poised (.acquire _ _)
  | release lock ticket =>
    exact chronicle.locks fun poised => Arbitrator.step_publishes poised (.release _ _)
  | query lock ticket =>
    exact chronicle.locks fun poised => Arbitrator.step_publishes poised (.query _ _)
  | reacquire lock =>
    exact chronicle.locks fun poised => Arbitrator.step_publishes poised (.reacquire _)
  | invoke node action args ticket =>
    simp only [Node.apply]
    obtain ⟨reply, answered⟩ | ⟨-, went | ⟨failure, failed⟩⟩ :=
      n.invoke_cases node action args ticket
    · rw [answered]
      exact chronicle.apart rfl rfl rfl rfl rfl
    · rw [went, sendToPeer_keeps]
      exact chronicle.apart rfl rfl rfl rfl rfl
    · rw [failed, sendToPeer_keeps]
      exact chronicle.apart rfl rfl rfl rfl rfl
  | _ => exact chronicle.apart rfl rfl rfl rfl rfl

/-- Every command keeps the chronicle. -/
theorem apply (chronicle : n.Chronicle past []) (newsy : n.mappings.Newsy []) (rested : n.Rested)
    {command : NodeCommand} (fresh : ∀ number node queue,
      command = .openSession number node queue → queue.sent = []) :
    (n.apply command).Chronicle (past ++ n.publishedBy command) [] ∧
      (n.apply command).mappings.Newsy [] := by
  by_cases ends : ∃ now, command = .shutDown now
  · obtain ⟨now, rfl⟩ := ends
    exact chronicle.shutDown newsy now
  have lasting : ∀ now, command ≠ .shutDown now := fun now eq => ends ⟨now, eq⟩
  refine ⟨?_, newsy.serves (serves_apply newsy.numbered lasting)⟩
  cases command with
  | shutDown now => exact absurd rfl (lasting now)
  | tellCacheStale cache data =>
    simp only [Node.apply, tellCacheStale, publishedBy]
    split
    · rwa [List.append_nil]
    · exact (chronicle.news rfl).publish
  | _ =>
    rw [show n.publishedBy _ = [] from rfl, List.append_nil]
    exact chronicle.apply_silent rested fresh (fun cache data eq => by cases eq) lasting

/-- Whatever happens to a node, its chronicle goes on with what it publishes. -/
theorem advance (chronicle : n.Chronicle past []) (newsy : n.mappings.Newsy []) (rested : n.Rested)
    {occurrence : Occurrence} (fresh : ∀ number node queue,
      occurrence = .command (.openSession number node queue) → queue.sent = []) :
    (n.advance occurrence).Chronicle (past ++ n.publishes occurrence) [] ∧
      (n.advance occurrence).mappings.Newsy [] := by
  cases occurrence with
  | command command =>
    simp only [Node.advance, publishes]
    cases stopped : n.stopped with
    | true =>
      rw [step_of_stopped stopped, if_pos rfl, List.append_nil]
      exact ⟨chronicle, newsy⟩
    | false =>
      rw [step_of_running stopped, if_neg Bool.false_ne_true, ← List.append_assoc, answerActions_eq]
      obtain ⟨applied, newsy⟩ := chronicle.apply newsy rested fun number node queue eq =>
        fresh number node queue (congrArg Occurrence.command eq)
      obtain ⟨drained, newsy⟩ := applied.drain newsy
      exact ⟨drained.apart rfl rfl rfl rfl rfl, newsy⟩
  | sessionWriter number taken receiving =>
    simp only [publishes, List.append_nil]
    refine ⟨chronicle.congr rfl rfl rfl .refl fun k session found => ?_, newsy⟩
    rw [Node.advance, Std.ExtTreeMap.getElem?_modify] at found
    split at found
    next eq =>
      obtain ⟨before, there, rfl⟩ := Option.map_eq_some_iff.1 found
      rw [Std.compare_eq_iff_eq.1 eq] at there
      exact ⟨before, there, rfl⟩
    next => exact ⟨session, found, rfl⟩
  | linkWriter peer taken receiving =>
    simp only [publishes, List.append_nil]
    exact ⟨chronicle.apart rfl rfl rfl rfl rfl, newsy⟩
  | observers cache observers =>
    simp only [publishes, List.append_nil]
    exact ⟨chronicle.apart rfl rfl rfl rfl rfl, newsy⟩

end Chronicle

theorem Started.chronicle (started : n.Started) : n.Chronicle [] [] ∧ n.mappings.Newsy [] := by
  obtain ⟨config, mappings, registered, outranks, port, now, configured, -, -, rfl⟩ := started
  have blank := configured.blank
  refine ⟨⟨rfl, ⟨Arbitrator.poised_fresh _ _, trivial, rfl⟩, fun number session found => ?_⟩,
    fun number pending found => ?_, fun event there => ?_⟩
  · simp [start, refresh, assemble, emit] at found
  · have found : mappings.pending[number]? = some pending := found
    simp [blank.pending] at found
  · have there : .broadcast event ∈ mappings.outbox := there
    simp [blank.outbox] at there

/-- Whatever happens to a node in a run, its chronicle goes on with what it publishes. -/
theorem Chronicle.after (chronicle : n.Chronicle past []) (newsy : n.mappings.Newsy [])
    (rested : n.Rested) {run : List Occurrence} (fresh : ∀ number node queue,
      .command (.openSession number node queue) ∈ run → queue.sent = []) :
    (n.after run).Chronicle (past ++ n.published run) [] ∧ (n.after run).mappings.Newsy [] := by
  induction run generalizing n past with
  | nil =>
    rw [published, List.append_nil]
    exact ⟨chronicle, newsy⟩
  | cons occurrence run ih =>
    obtain ⟨chronicle, newsy⟩ := chronicle.advance newsy rested fun number node queue eq =>
      fresh number node queue (eq ▸ List.mem_cons_self)
    rw [published, ← List.append_assoc]
    exact ih chronicle newsy (rested.advance occurrence) fun number node queue there =>
      fresh number node queue (List.mem_cons_of_mem _ there)

/-- The chronicle of a node since it was started is what it has published, if the mailboxes of
sessions that open are empty. -/
theorem chronicle_after (started : n.Started) {run : List Occurrence}
    (fresh : ∀ number node queue, .command (.openSession number node queue) ∈ run →
      queue.sent = []) : (n.after run).Chronicle (n.published run) [] := by
  obtain ⟨chronicle, newsy⟩ := started.chronicle
  exact (chronicle.after newsy started.rested fresh).1

end Node

end Cohort

import Cohort.Proofs.Lock.Announcements
import Cohort.Proofs.Node.Chronicle
import Cohort.Proofs.Node.Presence

/-!
# Who is asked to consent

An attempt on a lock waits for the nodes that had a session open when it began, and each of these
sessions was told of it. A session that opens later starts from a snapshot, which does not tell what
is being attempted. So an open session was told of an attempt just if it has been open ever since
the attempt began; and what an attempt waits for is a node, whichever of its sessions are left.

## Main definitions

* `Node.OpensFresh`: sessions open under numbers of their own, with empty mailboxes.
* `Session.Heard`: a session was told something after so many events.
* `Node.Stays`: a session was there before.

## Main statements

* `Node.sessions_advance`: what a session is told when something happens to the node.
* `Node.heralds_advance`: attempts that begin are announced.
* `Node.heard_iff_open_since_begun`: which sessions were told of an attempt.
-/

namespace Cohort

open Arbitrator (Heralds Announces)

/-- The mailbox of a session got an event after those with numbers up to `since`. -/
def Session.Heard (session : Session) (since : Nat) (event : NodeEvent) : Prop :=
  ∃ sequence, since < sequence ∧ .event sequence event ∈ session.queue.sent

namespace Node

variable {inOrder : Prop} {n n' : Node} {past more : List NodeEvent} {name name' node : NodeName}
  {bootStamp bootStamp' number : Nat} {sent sent' : List Message} {session session' : Session}
  {lock : Lock} {attempt : Attempt}

/-- A session that opens has a number that no open session has, and an empty mailbox. -/
def OpensFresh (n : Node) (occurrence : Occurrence) : Prop :=
  ∀ number node queue, occurrence = .command (.openSession number node queue) →
    number ∉ n.sessions ∧ queue.sent = []

/-! ## What sessions are told -/

/-- A session was there before, and was told what it was told then. -/
def Stays (n : Node) (number : Nat) (session' : Session) : Prop :=
  ∃ session, n.sessions[number]? = some session ∧ session.queue.sent <+: session'.queue.sent

/-- All sessions that are there afterwards were there before. -/
def Lasts (n n' : Node) : Prop :=
  ∀ (number : Nat) (session' : Session), n'.sessions[number]? = some session' →
    n.Stays number session'

namespace Lasts

theorem of_eq (same : n'.sessions = n.sessions) : n.Lasts n' := fun _ session found =>
  ⟨session, same ▸ found, List.prefix_rfl⟩

theorem trans {n'' : Node} (first : n.Lasts n') (second : n'.Lasts n'') : n.Lasts n'' := by
  intro number session'' found
  obtain ⟨session', found', later⟩ := second number session'' found
  obtain ⟨session, before, earlier⟩ := first number session' found'
  exact ⟨session, before, earlier.trans later⟩

theorem closeSession (n : Node) (number : Nat) : n.Lasts (n.closeSession number) := by
  intro k session found
  rw [sessions_closeSession, Std.ExtTreeMap.getElem?_erase] at found
  split at found
  next => cases found
  next => exact ⟨session, found, List.prefix_rfl⟩

theorem publish (n : Node) (event : NodeEvent) : n.Lasts (n.publish event) := by
  intro number session' found
  rw [getElem?_publish, Option.bind_eq_some_iff] at found
  obtain ⟨session, before, found⟩ := found
  obtain ⟨queue, taken, rfl⟩ := Option.map_eq_some_iff.1 found
  exact ⟨session, before, _, (sent_of_offer? taken).symm⟩

/-- Something is done with the mailbox of one session, which keeps what it was sent. -/
theorem modify {f : Session → Session}
    (keeps : ∀ session, session.queue.sent <+: (f session).queue.sent)
    (same : n'.sessions = n.sessions.modify number f) : n.Lasts n' := by
  intro k session' found
  rw [same, Std.ExtTreeMap.getElem?_modify] at found
  split at found
  next eq =>
    obtain ⟨session, before, rfl⟩ := Option.map_eq_some_iff.1 found
    rw [Std.compare_eq_iff_eq.1 eq] at before
    exact ⟨session, before, keeps session⟩
  next => exact ⟨session', found, List.prefix_rfl⟩

theorem sendToSession (n : Node) (number : Nat) (message : Message) :
    n.Lasts (n.sendToSession number message) := by
  refine modify (fun session => ?_) rfl
  cases taken : session.queue.offer? message with
  | none => exact List.prefix_rfl
  | some queue => exact ⟨_, (sent_of_offer? taken).symm⟩

theorem sessionRequest (n : Node) (number : Nat) (session : Session) (request : Request) :
    n.Lasts (n.sessionRequest number session request) := by
  cases request with
  | mapping requestId call =>
    have handled : n.Lasts { n with mappings := (n.mappings.handleCall call).2 } := of_eq rfl
    exact handled.trans (sendToSession _ number _)
  | nodeAction requestId action args => exact sendToSession n number _
  | _ => exact of_eq rfl

theorem lockEffect (n : Node) (effect : LockEffect) : n.Lasts (n.lockEffect effect) := by
  cases effect with
  | publish event => exact publish n event
  | ratify peer lock acquire =>
    refine of_eq ?_
    simp only [Node.lockEffect]
    rw [sendToPeer_keeps]
  | _ => exact of_eq rfl

theorem mappingEffect (n : Node) (effect : MappingEffect) :
    n.Lasts (n.mappingEffect effect) := by
  cases effect with
  | broadcast event => exact publish n event
  | call peer requestId call =>
    refine of_eq ?_
    obtain ⟨-, -, went⟩ | ⟨failure, failed⟩ := n.mappingEffect_call peer requestId call
    · rw [went, sendToSubscribed_keeps]
    · rw [failed, sendToSubscribed_keeps]
  | _ => exact of_eq rfl

theorem drain (n : Node) : n.Lasts n.drain := by
  refine drain_induction (P := fun _ _ m => n.Lasts m) ?_ ?_ ?_ (of_eq rfl)
  · exact fun m lasts => lasts.trans (of_eq rfl)
  · exact fun effect _ _ m lasts => lasts.trans (lockEffect m effect)
  · exact fun effect _ m lasts => lasts.trans (mappingEffect m effect)

theorem moves (moves : n.Moves inOrder n') : n.Lasts n' := of_eq moves.outdoors.sessions

/-- No command but one opens sessions. -/
theorem apply (n : Node) {command : NodeCommand}
    (opens : ∀ number node queue, command ≠ .openSession number node queue) :
    n.Lasts (n.apply command) := by
  cases command with
  | link peer generation report => exact moves (n.moves_linkReport peer generation report)
  | loaded now answer =>
    have loading : n.Moves True (n.loaded now answer) := n.moves_loaded now answer
    exact moves loading
  | openSession number node queue => exact absurd rfl (opens number node queue)
  | sessionRequest number request =>
    simp only [Node.apply]
    split
    · exact sessionRequest n number _ request
    · exact of_eq rfl
  | closeSession number => exact closeSession n number
  | refresh =>
    have looked : n.Move True n.refresh := .consulted
    exact moves looked.moves
  | invoke node action args ticket =>
    refine of_eq ?_
    simp only [Node.apply]
    obtain ⟨reply, answered⟩ | ⟨-, went | ⟨failure, failed⟩⟩ :=
      n.invoke_cases node action args ticket
    · rw [answered]
      rfl
    · rw [went, sendToPeer_keeps]
    · rw [failed, sendToPeer_keeps]
  | tellCacheStale cache data =>
    simp only [Node.apply, tellCacheStale]
    split
    · exact of_eq rfl
    · exact publish n _
  | shutDown now =>
    intro number session' found
    simp only [Node.apply] at found
    rw [shutDown_keeps] at found
    simp at found
  | _ => exact of_eq rfl

theorem advance (n : Node) {occurrence : Occurrence}
    (opens : ∀ number node queue, occurrence ≠ .command (.openSession number node queue)) :
    n.Lasts (n.advance occurrence) := by
  cases occurrence with
  | command command =>
    simp only [Node.advance]
    cases stopped : n.stopped with
    | true =>
      rw [step_of_stopped stopped]
      exact of_eq rfl
    | false =>
      rw [step_of_running stopped, answerActions_eq]
      have applied := apply n fun number node queue eq => opens number node queue (congrArg _ eq)
      exact (applied.trans (drain _)).trans (of_eq rfl)
  | sessionWriter number taken receiving =>
    refine modify (f := fun session =>
      { session with queue := session.queue.writtenTo taken receiving }) (fun _ => ?_) rfl
    exact List.prefix_rfl
  | _ => exact of_eq rfl

end Lasts

/-- A session that opens leaves a node with nothing to do. -/
theorem advance_openSession (rested : n.Rested) (running : n.stopped = false) (number : Nat)
    (node : NodeName) (queue : Mailbox Message) :
    n.advance (.command (.openSession number node queue)) = n.openSession number node queue := by
  have quiet : (n.openSession number node queue).Rested := by
    unfold Node.openSession
    split
    · exact rested
    · split <;> exact ⟨rested.quiet, rested.actions⟩
  rw [advance, step_of_running running, Node.apply, quiet.finish]

/-- All other sessions stay when one opens, and that one is told nothing but a snapshot. -/
theorem getElem?_openSession {node : NodeName} {queue : Mailbox Message} {k : Nat}
    (empty : queue.sent = [])
    (found : (n.openSession k node queue).sessions[number]? = some session') :
    n.sessions[number]? = some session' ∨ number = k ∧
      session'.queue.sent = [.snapshot n.snapshot] := by
  unfold openSession at found
  split at found
  next => exact .inl found
  next queue' taken =>
    have begun : ∀ m : Node, m.sessions = n.sessions →
        (m.sessions.insert k ⟨node, queue'⟩)[number]? = some session' →
        n.sessions[number]? = some session' ∨ number = k ∧
          session'.queue.sent = [.snapshot n.snapshot] := by
      intro m same found
      rw [same, Std.ExtTreeMap.getElem?_insert] at found
      split at found
      next eq =>
        obtain rfl := Option.some.inj found
        exact .inr ⟨(Std.compare_eq_iff_eq.1 eq).symm, by rw [sent_of_offer? taken, empty]; rfl⟩
      next => exact .inl found
    split at found
    · exact begun n rfl found
    · exact begun { n with locks := n.locks.addSubscriber node } rfl found

theorem mem_events {messages : List Message} {sequence : Nat} {event : NodeEvent} :
    (event, sequence) ∈ messages.filterMap Message.event? ↔ .event sequence event ∈ messages := by
  rw [List.mem_filterMap]
  constructor
  · rintro ⟨message, there, tells⟩
    cases message with
    | event sequence' event' =>
      obtain ⟨rfl, rfl⟩ := Prod.mk.inj (Option.some.inj tells)
      exact there
    | _ => cases tells
  · exact fun there => ⟨_, there, rfl⟩

/-- What a session was told since is what was published since. -/
theorem Relays.mem_iff (relays : Relays name bootStamp past sent)
    (relays' : Relays name' bootStamp' (past ++ more) sent') (stays : sent <+: sent')
    (sequence : Nat) (event : NodeEvent) : .event sequence event ∈ sent' ↔
      .event sequence event ∈ sent ∨ (event, sequence) ∈ more.zipIdx (past.length + 1) := by
  obtain ⟨start, rest, started, rfl, events, -⟩ := relays
  obtain ⟨start', rest', -, rfl, events', -⟩ := relays'
  obtain ⟨later, grown⟩ := stays
  -- the snapshot that the session starts from is the same
  rw [List.cons_append] at grown
  obtain ⟨same, rfl⟩ := List.cons.inj grown
  obtain rfl : start = start' := congrArg Snapshot.sequence (Message.snapshot.inj same)
  have whole : (rest ++ later).filterMap Message.event? =
      rest.filterMap Message.event? ++ more.zipIdx (past.length + 1) := by
    rw [events', events, List.drop_append_of_le_length started, List.zipIdx_append,
      List.length_drop, show start + 1 + (past.length - start) = past.length + 1 by omega]
  simp only [List.mem_cons, reduceCtorEq, false_or]
  rw [← mem_events, whole, List.mem_append, mem_events]

/-- When something happens to a node, its sessions are told what it publishes; a session that opens
is told of no event. -/
theorem sessions_advance (chronicle : n.Chronicle past []) (newsy : n.mappings.Newsy [])
    (rested : n.Rested) {occurrence : Occurrence} (fresh : n.OpensFresh occurrence)
    (found : (n.advance occurrence).sessions[number]? = some session') :
    (∃ session, n.sessions[number]? = some session ∧ ∀ sequence event,
      .event sequence event ∈ session'.queue.sent ↔ .event sequence event ∈ session.queue.sent ∨
        (event, sequence) ∈ (n.publishes occurrence).zipIdx (n.sequence + 1)) ∨
    number ∉ n.sessions ∧ ∀ sequence event, .event sequence event ∉ session'.queue.sent := by
  have stays : n.Stays number session' ∨
      number ∉ n.sessions ∧ ∀ sequence event, .event sequence event ∉ session'.queue.sent := by
    by_cases opens : ∃ k node queue, occurrence = .command (.openSession k node queue)
    · obtain ⟨k, node, queue, rfl⟩ := opens
      obtain ⟨new, empty⟩ := fresh k node queue rfl
      cases stopped : n.stopped with
      | true =>
        rw [advance, step_of_stopped stopped] at found
        exact .inl ⟨session', found, List.prefix_rfl⟩
      | false =>
        rw [advance_openSession rested stopped] at found
        obtain before | ⟨rfl, told⟩ := getElem?_openSession empty found
        · exact .inl ⟨session', before, List.prefix_rfl⟩
        · exact .inr ⟨new, by simp [told]⟩
    · exact .inl (Lasts.advance n (fun k node queue eq => opens ⟨k, node, queue, eq⟩) _ _ found)
  refine stays.imp_left ?_
  rintro ⟨session, before, stays⟩
  refine ⟨session, before, ?_⟩
  have chronicle' := (chronicle.advance newsy rested fun k node queue eq =>
    (fresh k node queue eq).2).1
  rw [chronicle.sequence]
  exact (chronicle.relays number session before).mem_iff (chronicle'.relays number session' found)
    stays

/-! ## Attempts that begin -/

theorem closeSession_announces (n : Node) (number : Nat) :
    n.locks.Announces (n.closeSession number).locks := by
  cases found : n.sessions[number]? with
  | none =>
    rw [closeSession_of_closed found]
    exact .refl n.locks
  | some session =>
    rw [closeSession_of_open found]
    dsimp only
    split
    · exact .refl n.locks
    · exact Arbitrator.step_announces n.locks (.removeSubscriber session.node)

theorem publish_announces (n : Node) (event : NodeEvent) :
    n.locks.Announces (n.publish event).locks := by
  have offered : n.locks.Announces (n.offered event).locks := .refl n.locks
  rw [publish_eq]
  refine List.foldlRecOn (motive := fun m : Node => n.locks.Announces m.locks) _ _ offered ?_
  exact fun m announces number _ => announces.trans (m.closeSession_announces number)

theorem peerEvent_announces (n : Node) (peer : NodeName) (event : NodeEvent) :
    n.locks.Announces (n.peerEvent peer event).locks := by
  cases event with
  | cacheData cache data =>
    have same : (n.peerEvent peer (.cacheData cache data)).locks = n.locks := by
      simp only [peerEvent]
      split <;> rfl
    rw [same]
    exact .refl n.locks
  | _ => exact Arbitrator.step_announces n.locks _

theorem Move.announces (move : n.Move inOrder n') : n.locks.Announces n'.locks := by
  cases move with
  | consulted =>
    unfold refresh
    split <;> exact .refl n.locks
  | tried now found =>
    rw [connect_eq found]
    exact .refl n.locks
  | dropped peer => exact Arbitrator.step_announces n.locks (.peerDisconnected peer)
  | forgotten peer =>
    simp only [forget]
    split
    · exact .refl n.locks
    · exact Arbitrator.step_announces n.locks (.peerDisconnected peer)
  | followed snapshot found => exact Arbitrator.step_announces n.locks (.peerSubscribed _ _)
  | heard sequence event found => exact peerEvent_announces _ _ event
  | _ => exact .refl n.locks

theorem Moves.announces (moves : n.Moves inOrder n') : n.locks.Announces n'.locks := by
  induction moves with
  | refl => exact .refl n.locks
  | tail _ move ih => exact ih.trans move.announces

/-- Every command but the last announces the attempts that it begins. -/
theorem apply_announces (n : Node) {command : NodeCommand}
    (lasting : ∀ now, command ≠ .shutDown now) : n.locks.Announces (n.apply command).locks := by
  cases command with
  | link peer generation report => exact (n.moves_linkReport peer generation report).announces
  | loaded now answer =>
    have moves : n.Moves True (n.loaded now answer) := n.moves_loaded now answer
    exact moves.announces
  | shutDown now => exact absurd rfl (lasting now)
  | openSession number node queue =>
    simp only [Node.apply, openSession]
    split
    · exact .refl n.locks
    · split
      · exact .refl n.locks
      · exact Arbitrator.step_announces n.locks (.addSubscriber node)
  | sessionRequest number request =>
    simp only [Node.apply]
    split
    · cases request with
      | ratify lock acquire => exact Arbitrator.step_announces n.locks (.ratify _ lock acquire)
      | _ => exact .refl n.locks
    · exact .refl n.locks
  | closeSession number => exact n.closeSession_announces number
  | refresh =>
    have looked : n.Move True n.refresh := .consulted
    exact looked.announces
  | lockTimeout lock generation =>
    exact Arbitrator.step_announces n.locks (.timeout lock generation)
  | acquire lock ticket => exact Arbitrator.step_announces n.locks (.acquire lock ticket)
  | release lock ticket => exact Arbitrator.step_announces n.locks (.release lock ticket)
  | query lock ticket => exact Arbitrator.step_announces n.locks (.query lock ticket)
  | reacquire lock => exact Arbitrator.step_announces n.locks (.reacquire lock)
  | invoke node action args ticket =>
    have same : (n.invoke node action args ticket).locks = n.locks := by
      obtain ⟨reply, answered⟩ | ⟨-, went | ⟨failure, failed⟩⟩ :=
        n.invoke_cases node action args ticket
      · rw [answered]
        rfl
      · rw [went, sendToPeer_keeps]
      · rw [failed, sendToPeer_keeps]
    simp only [Node.apply, same]
    exact .refl n.locks
  | tellCacheStale cache data =>
    simp only [Node.apply, tellCacheStale]
    split
    · exact .refl n.locks
    · exact n.publish_announces _
  | _ => exact .refl n.locks

/-- What was published and is wanted to be published heralds the attempts that began. -/
def Accords (t : Arbitrator) (past : List NodeEvent) (n : Node) : Prop :=
  Heralds (past ++ LockEffect.events n.locks.outbox) t n.locks

/-- News about caches announce no attempt. -/
theorem announcement_ne_news {event : NodeEvent}
    (news : MappingService.isNews (.broadcast event) = true) (attempt : Attempt) (lock : Lock) :
    attempt.announcement lock ≠ event := by
  rintro rfl
  unfold Attempt.announcement at news
  split at news <;> cases news

section

variable {t : Arbitrator}

theorem Accords.then_announces (accords : Accords t past n)
    (announces : n.locks.Announces n'.locks) : Accords t past n' := by
  obtain ⟨effects, grown, heralds⟩ := announces
  rw [Accords, grown, LockEffect.events_append, ← List.append_assoc]
  exact accords.trans heralds

/-- News about a cache is published. -/
theorem Accords.news {event : NodeEvent} (accords : Accords t past n)
    (news : MappingService.isNews (.broadcast event) = true) : Accords t (past ++ [event]) n := by
  refine accords.congr fun attempt lock => ?_
  have other := announcement_ne_news news attempt lock
  simp only [List.mem_append, List.mem_singleton, other, or_false]

/-- What the outboxes hold is handed out. -/
theorem Accords.relieved (accords : Accords t past n) :
    Accords t (past ++ LockEffect.events n.locks.outbox) n.relieved := by
  have heralds : Heralds (past ++ LockEffect.events n.locks.outbox) t n.relieved.locks :=
    ⟨accords.generation, accords.waits, accords.attempts⟩
  rwa [Accords, show LockEffect.events n.relieved.locks.outbox = [] from rfl, List.append_nil]

theorem Accords.lockEffect (accords : Accords t past n) (effect : LockEffect) :
    Accords t past (n.lockEffect effect) := by
  cases effect with
  | publish event => exact accords.then_announces (n.publish_announces event)
  | ratify peer lock acquire =>
    simp only [Node.lockEffect]
    rw [sendToPeer_keeps]
    exact accords
  | _ => exact accords

theorem Accords.mappingEffect (accords : Accords t past n) {effect : MappingEffect}
    (news : ∀ event, effect = .broadcast event → MappingService.isNews (.broadcast event) = true) :
    Accords t (past ++ effect.event?.toList) (n.mappingEffect effect) := by
  cases effect with
  | broadcast event =>
    exact (accords.news (news event rfl)).then_announces (n.publish_announces event)
  | call peer requestId call =>
    simp only [MappingEffect.event?, Option.toList_none, List.append_nil]
    obtain ⟨-, -, went⟩ | ⟨failure, failed⟩ := n.mappingEffect_call peer requestId call
    · rw [went, sendToSubscribed_keeps]
      exact accords
    · rw [failed, sendToSubscribed_keeps]
      exact accords
  | _ =>
    simp only [MappingEffect.event?, Option.toList_none, List.append_nil]
    exact accords

/-- What is wanted is carried out. -/
theorem Accords.drain (accords : Accords t past n) (newsy : n.mappings.Newsy []) :
    Accords t (past ++ n.drainPublishes) n.drain := by
  have nothing : ∀ (past : List NodeEvent) (m : Node),
      Accords t (past ++ LockEffect.events []) m ↔ Accords t past m := by
    intro past m
    rw [show LockEffect.events [] = [] from rfl, List.append_nil]
  -- what is still to be carried out is taken for published
  refine (nothing _ _).1 (drain_trace (P := fun past effects more m =>
    Accords t (past ++ LockEffect.events effects) m ∧ m.mappings.Newsy more) ?_ ?_ ?_
    ⟨(nothing past n).2 accords, newsy⟩).1
  · rintro past m ⟨accords, newsy⟩
    exact ⟨((nothing past m).1 accords).relieved, newsy_relieved newsy⟩
  · rintro past effect effects more m ⟨accords, newsy⟩
    rw [LockEffect.events, filterMap_cons_eq, ← List.append_assoc] at accords
    exact ⟨accords.lockEffect effect, newsy_lockEffect newsy effect⟩
  · rintro past effect effects m ⟨accords, newsy⟩
    have told : ∀ event, effect = .broadcast event →
        MappingService.isNews (.broadcast event) = true := by
      rintro event rfl
      exact newsy.news event List.mem_cons_self
    exact ⟨(nothing _ _).2 (((nothing _ _).1 accords).mappingEffect told),
      newsy_mappingEffect newsy⟩

/-- Whatever happens to a node, short of its end, attempts that begin are announced in what is
published then. -/
theorem heralds_advance (rested : n.Rested) (newsy : n.mappings.Newsy []) {occurrence : Occurrence}
    (running : n.stopped = false) (lasting : ∀ now, occurrence ≠ .command (.shutDown now)) :
    Heralds (n.publishes occurrence) n.locks (n.advance occurrence).locks := by
  cases occurrence with
  | command command =>
    have lasting : ∀ now, command ≠ .shutDown now := fun now eq => lasting now (congrArg _ eq)
    have begun : Accords n.locks [] n := by
      rw [Accords, (isQuiet_iff.1 rested.quiet).1]
      exact .refl n.locks
    have applied : Accords n.locks (n.publishedBy command) (n.apply command) := by
      have accords := begun.then_announces (n.apply_announces lasting)
      cases command with
      | shutDown now => exact absurd rfl (lasting now)
      | tellCacheStale cache data =>
        simp only [publishedBy]
        split
        · exact accords
        · exact accords.news rfl
      | _ => exact accords
    have drained := applied.drain (newsy.serves (serves_apply newsy.numbered lasting))
    rw [Accords, (isQuiet_iff.1 (n.apply command).isQuiet_drain).1] at drained
    rw [show LockEffect.events [] = [] from rfl, List.append_nil] at drained
    simp only [publishes, Node.advance]
    rw [if_neg (by rw [running]; exact Bool.false_ne_true), step_of_running running,
      answerActions_eq]
    exact drained
  | _ => exact .refl n.locks

end

/-! ## Nothing attempted -/

/-- Nothing is being attempted. -/
def Idle (n : Node) : Prop := ∀ lock : Lock, n.locks.attempts[lock]? = none

theorem Idle.congr (idle : n.Idle) (same : n'.locks = n.locks) : n'.Idle := by
  rwa [Idle, same]

theorem Idle.closeSession (idle : n.Idle) (number : Nat) : (n.closeSession number).Idle := by
  cases found : n.sessions[number]? with
  | none => rwa [closeSession_of_closed found]
  | some session =>
    have nothing : n.locks.awaiting session.node = [] := by
      rw [List.eq_nil_iff_forall_not_mem]
      intro lock there
      obtain ⟨attempt, attempted, -⟩ := Arbitrator.mem_awaiting.1 there
      rw [idle lock] at attempted
      cases attempted
    rw [closeSession_of_open found]
    intro lock
    dsimp only
    split
    · exact idle lock
    · simpa [Arbitrator.removeSubscriber, nothing] using idle lock

theorem Idle.publish (idle : n.Idle) (event : NodeEvent) : (n.publish event).Idle := by
  have offered : (n.offered event).Idle := idle
  rw [publish_eq]
  exact List.foldlRecOn _ _ offered fun m idle number _ => idle.closeSession number

theorem Idle.drain (idle : n.Idle) : n.drain.Idle := by
  refine drain_induction (P := fun _ _ m => m.Idle) ?_ ?_ ?_ idle
  · exact fun m idle => idle
  · intro effect _ _ m idle
    cases effect with
    | publish event => exact idle.publish event
    | ratify peer lock acquire =>
      simp only [Node.lockEffect]
      rw [sendToPeer_keeps]
      exact idle
    | _ => exact idle
  · intro effect _ m idle
    cases effect with
    | broadcast event => exact idle.publish event
    | call peer requestId call =>
      obtain ⟨-, -, went⟩ | ⟨failure, failed⟩ := m.mappingEffect_call peer requestId call
      · rw [went, sendToSubscribed_keeps]
        exact idle
      · rw [failed, sendToSubscribed_keeps]
        exact idle
    | _ => exact idle

theorem Started.idle (started : n.Started) : n.Idle := by
  obtain ⟨config, mappings, registered, outranks, port, now, -, -, -, rfl⟩ := started
  intro lock
  simp [start, refresh, assemble, emit, Arbitrator.fresh]

/-- A node that has shut down attempts nothing. -/
theorem idle_of_stopped (running : n.stopped = false) {run : List Occurrence}
    (stopped : (n.after run).stopped = true) : (n.after run).Idle := by
  refine of_stopped (Q := Idle) (fun m now => ?_) (fun m occurrence around idle => ?_) running
    stopped
  · have ending : ∀ passed : Node, ({ passed with locks := passed.locks.shutDown } : Node).Idle :=
      fun passed lock => Arbitrator.attempts_shutDown passed.locks lock
    have ended : (m.shutDown now).Idle := by
      refine Idle.congr (ending { m with mappings := m.mappings.flush now true }.drain).drain ?_
      rw [shutDown_keeps]
    rw [answerActions_eq]
    exact ended.drain.congr rfl
  · cases occurrence with
    | command command => exact absurd rfl (around command)
    | _ => exact idle

/-! ## Who was told of an attempt -/

/-- A node as long as it is running: what it waits for are nodes that have a session open. -/
structure Attended (past : List NodeEvent) (n : Node) : Prop where
  chronicle : n.Chronicle past []
  newsy : n.mappings.Newsy []
  rested : n.Rested
  enrolled : n.Enrolled
  waits : n.locks.Waits

theorem Attended.advance (attended : n.Attended past) {occurrence : Occurrence}
    (fresh : n.OpensFresh occurrence) (running : (n.advance occurrence).stopped = false) :
    (n.advance occurrence).Attended (past ++ n.publishes occurrence) := by
  obtain ⟨before, lasting⟩ := running_of_advance running
  obtain ⟨chronicle, newsy⟩ := attended.chronicle.advance attended.newsy attended.rested
    fun number node queue eq => (fresh number node queue eq).2
  have heralds := heralds_advance attended.rested attended.newsy before lasting
  exact ⟨chronicle, newsy, attended.rested.advance occurrence,
    attended.enrolled.advance (fun number node queue eq => (fresh number node queue eq).1) lasting,
    heralds.waits attended.waits⟩

theorem Started.attended (started : n.Started) : n.Attended [] := by
  obtain ⟨chronicle, newsy⟩ := started.chronicle
  refine ⟨chronicle, newsy, started.rested, started.acquainted.2.2, ?_⟩
  intro lock attempt node found
  rw [started.idle lock] at found
  cases found

/-- An attempt began when something happened in a run, and since then just those sessions were told
of it that have been open all the time. -/
structure BegunIn (n : Node) (lock : Lock) (attempt : Attempt) (earlier : List Occurrence)
    (occurrence : Occurrence) (later : List Occurrence) : Prop where
  new : (n.after earlier).locks.generation < attempt.generation
  latest : attempt.generation ≤ (n.after (earlier ++ [occurrence])).locks.generation
  heard : ∀ (number : Nat) (session : Session),
    (n.after (earlier ++ occurrence :: later)).sessions[number]? = some session →
    (session.Heard (n.after earlier).sequence (attempt.announcement lock) ↔
      (n.after earlier).Throughout (fun m _ => number ∈ m.sessions) (occurrence :: later))

theorem after_concat (n : Node) (run : List Occurrence) (occurrence : Occurrence) :
    n.after (run ++ [occurrence]) = (n.after run).advance occurrence := by
  rw [after_append]
  rfl

/-- Nobody was told of what was not published. -/
theorem heard_iff_of_silent {m : Node} (attended : m.Attended past) {occurrence : Occurrence}
    (fresh : m.OpensFresh occurrence)
    (found : (m.advance occurrence).sessions[number]? = some session') {event : NodeEvent}
    (silent : event ∉ m.publishes occurrence) (since : Nat) : session'.Heard since event ↔
      ∃ session, m.sessions[number]? = some session ∧ session.Heard since event := by
  obtain ⟨session, before, told⟩ | ⟨new, told⟩ :=
    sessions_advance attended.chronicle attended.newsy attended.rested fresh found
  · have unheard : ∀ sequence,
        (event, sequence) ∉ (m.publishes occurrence).zipIdx (m.sequence + 1) :=
      fun sequence there => silent (List.fst_mem_of_mem_zipIdx there)
    simp only [Session.Heard, told, unheard, or_false, before, Option.some.injEq, exists_eq_left']
  · refine iff_of_false (fun ⟨sequence, _, there⟩ => told sequence event there) ?_
    rintro ⟨session, before, -⟩
    rw [Std.ExtTreeMap.getElem?_eq_none new] at before
    cases before

/-- Those sessions were told of what was published that were there before. -/
theorem heard_iff_of_published {m : Node} (attended : m.Attended past) {occurrence : Occurrence}
    (fresh : m.OpensFresh occurrence)
    (found : (m.advance occurrence).sessions[number]? = some session') {event : NodeEvent}
    (published : event ∈ m.publishes occurrence) :
    session'.Heard m.sequence event ↔ number ∈ m.sessions := by
  obtain ⟨session, before, told⟩ | ⟨new, told⟩ :=
    sessions_advance attended.chronicle attended.newsy attended.rested fresh found
  · refine iff_of_true ?_ ?_
    · rw [← List.zipIdx_map_fst (m.sequence + 1) (m.publishes occurrence),
        List.mem_map] at published
      obtain ⟨⟨_, sequence⟩, there, rfl⟩ := published
      exact ⟨sequence, List.le_snd_of_mem_zipIdx there, (told _ _).2 (.inr there)⟩
    · rw [Std.ExtTreeMap.mem_iff_isSome_getElem?, before]
      rfl
  · exact iff_of_false (fun ⟨sequence, _, there⟩ => told sequence event there) new

/-- An attempt that goes on is not announced again, so sessions that open meanwhile are not told of
it. -/
theorem BegunIn.continue {attempt' : Attempt} {earlier later : List Occurrence}
    {began occurrence : Occurrence} (begun : n.BegunIn lock attempt earlier began later)
    (attended : (n.after (earlier ++ began :: later)).Attended past)
    (fresh : (n.after (earlier ++ began :: later)).OpensFresh occurrence)
    (continues : attempt'.Continues attempt)
    (silent : attempt'.announcement lock ∉
      (n.after (earlier ++ began :: later)).publishes occurrence) :
    n.BegunIn lock attempt' earlier began (later ++ [occurrence]) := by
  refine ⟨continues.generation ▸ begun.new, continues.generation ▸ begun.latest, ?_⟩
  intro number session' found
  rw [show earlier ++ began :: (later ++ [occurrence]) = earlier ++ began :: later ++ [occurrence]
    by simp, after_concat] at found
  rw [heard_iff_of_silent attended fresh found silent, continues.announcement, ← List.cons_append,
    throughout_append, ← after_append]
  show _ ↔ _ ∧ number ∈ (n.after (earlier ++ began :: later)).sessions ∧ True
  rw [and_true]
  constructor
  · rintro ⟨session, before, heard⟩
    refine ⟨(begun.heard number session before).1 heard, ?_⟩
    rw [Std.ExtTreeMap.mem_iff_isSome_getElem?, before]
    rfl
  · rintro ⟨stayed, there⟩
    rw [Std.ExtTreeMap.mem_iff_isSome_getElem?, Option.isSome_iff_exists] at there
    obtain ⟨session, before⟩ := there
    exact ⟨session, before, (begun.heard number session before).2 stayed⟩

/-- As long as a node is running, every attempt of its own began at some time. -/
theorem begunIn_after (started : n.Started) {run : List Occurrence}
    (fresh : n.Throughout OpensFresh run) (running : (n.after run).stopped = false) :
    (n.after run).Attended (n.published run) ∧ ∀ (lock : Lock) (attempt : Attempt),
      (n.after run).locks.attempts[lock]? = some attempt → attempt.isLocal = true →
        ∃ earlier began later, run = earlier ++ began :: later ∧
          n.BegunIn lock attempt earlier began later := by
  induction run using List.reverseRecOn with
  | nil =>
    refine ⟨started.attended, fun lock attempt found => ?_⟩
    rw [show n.after [] = n from rfl, started.idle lock] at found
    cases found
  | append_singleton run occurrence ih =>
    rw [after_concat] at running ⊢
    obtain ⟨before, opens, -⟩ := throughout_append.1 fresh
    obtain ⟨going, lasting⟩ := running_of_advance running
    obtain ⟨attended, explained⟩ := ih before going
    have heralds := heralds_advance attended.rested attended.newsy going lasting
    refine ⟨?_, fun lock attempt' found own => ?_⟩
    · rw [published_append, published, published, List.append_nil]
      exact attended.advance opens running
    · obtain ⟨attempt, found, continues, silent⟩ | ⟨new, latest, told⟩ :=
        heralds.attempts lock attempt' found own
      · obtain ⟨earlier, began, later, rfl, begun⟩ :=
          explained lock attempt found (continues.isLocal ▸ own)
        exact ⟨earlier, began, later ++ [occurrence], by simp,
          begun.continue attended opens continues silent⟩
      · refine ⟨run, occurrence, [], rfl, new, ?_, fun number session found => ?_⟩
        · rwa [after_concat]
        · rw [after_concat] at found
          rw [heard_iff_of_published attended opens found told]
          exact (and_iff_left trivial).symm

/-- Among the open sessions, just those were told of an attempt since it began that have been open
ever since. A node that the attempt waits for has a session open, told of it or not. -/
theorem heard_iff_open_since_begun (started : n.Started) {run : List Occurrence}
    (fresh : n.Throughout OpensFresh run)
    (found : (n.after run).locks.attempts[lock]? = some attempt) (awaits : attempt.Awaits node) :
    (n.after run).hasSession node = true ∧
      ∃ earlier began later, run = earlier ++ began :: later ∧
        n.BegunIn lock attempt earlier began later := by
  cases stopped : (n.after run).stopped with
  | true =>
    rw [idle_of_stopped started.running stopped lock] at found
    cases found
  | false =>
    obtain ⟨attended, begun⟩ := begunIn_after started fresh stopped
    refine ⟨?_, begun lock attempt found (Attempt.isLocal_of_awaits awaits)⟩
    rw [← attended.enrolled.subscribers]
    exact attended.waits lock attempt node found awaits

/-- A run in which another node opens a session and a lock is acquired. -/
def askingRun : List Occurrence :=
  [.command (.openSession 1 "b" (.fresh 8)), .command (.acquire ⟨"disk", none⟩ 1)]

theorem askingRun_opensFresh : newcomer.Throughout OpensFresh askingRun := by
  refine ⟨?_, nofun, trivial⟩
  rintro _ _ _ ⟨⟩
  exact ⟨by decide +kernel, rfl⟩

theorem heard_iff_open_since_begun_in_askingRun : ∃ attempt,
    (newcomer.after askingRun).locks.attempts[(⟨"disk", none⟩ : Lock)]? = some attempt ∧
      attempt.Awaits "b" ∧ (newcomer.after askingRun).hasSession "b" = true ∧
        ∃ earlier began later, askingRun = earlier ++ began :: later ∧
          newcomer.BegunIn ⟨"disk", none⟩ attempt earlier began later := by
  have asked : (⟨"disk", none⟩ : Lock) ∈ (newcomer.after askingRun).locks.awaiting "b" := by
    decide +kernel
  obtain ⟨attempt, found, awaits⟩ := Arbitrator.mem_awaiting.1 asked
  exact ⟨attempt, found, awaits,
    heard_iff_open_since_begun newcomer_started askingRun_opensFresh found awaits⟩

/-- The other node opens a second session, and its first one, which was told of the attempt, ends.
Then the attempt still waits for that node, though no open session was told of it. -/
theorem awaited_node_not_told :
    let run := askingRun ++ [.command (.openSession 2 "b" (.fresh 8)), .command (.closeSession 1)]
    newcomer.Started ∧ newcomer.Throughout OpensFresh run ∧ ∃ attempt,
      (newcomer.after run).locks.attempts[(⟨"disk", none⟩ : Lock)]? = some attempt ∧
        attempt.Awaits "b" ∧ ∀ (number : Nat) (session : Session),
          (newcomer.after run).sessions[number]? = some session →
            ¬ session.Heard 0 (attempt.announcement ⟨"disk", none⟩) := by
  intro run
  have asked : (⟨"disk", none⟩ : Lock) ∈ (newcomer.after run).locks.awaiting "b" := by
    decide +kernel
  have untold : ∀ entry ∈ (newcomer.after run).sessions.toList,
      entry.2.queue.sent.filterMap Message.event? = [] := by decide +kernel
  obtain ⟨attempt, found, awaits⟩ := Arbitrator.mem_awaiting.1 asked
  refine ⟨newcomer_started, ?_, attempt, found, awaits, ?_⟩
  · refine throughout_append.2 ⟨askingRun_opensFresh, ?_, nofun, trivial⟩
    rintro _ _ _ ⟨⟩
    exact ⟨by decide +kernel, rfl⟩
  · rintro number session there ⟨sequence, -, told⟩
    have nothing := untold (number, session)
      (Std.ExtTreeMap.mem_toList_iff_getElem?_eq_some.2 there)
    have told := mem_events.2 told
    rw [nothing] at told
    cases told

end Node

end Cohort

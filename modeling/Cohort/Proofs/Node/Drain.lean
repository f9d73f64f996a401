import Cohort.Node.Basic
import Cohort.Proofs.Lock.Publication
import Cohort.Proofs.Mapping.Mail

/-!
# Carrying out what is wanted

After every command a node carries out what its locks and mappings want done, round by round, until
that is nothing. Whatever holds while one thing after the other is done holds in the end, also if it
speaks of the events that were published so far. The rounds that `Node.drain` allows for are enough:
a round leaves something to be done only if it ended a session, or if calls could not be sent, which
can be so in the first round only.

## Main definitions

* `Node.relieved`: a node that has handed out what its locks and mappings want done.
* `Node.offered`: a node that has put an event into the mailboxes of its sessions.
* `Node.drainPublishes`: the events that are published until nothing is left to do.

## Main statements

* `Node.getElem?_publish`: what publishing does to the sessions.
* `Node.drain_trace`, `Node.drain_induction`: what holds while one thing after the other is done
  holds in the end.
* `Node.isQuiet_drain`: in the end there is nothing left to do.
-/

namespace Cohort

namespace Node

variable {n : Node} {number : Nat}

/-! ## Sessions that end -/

theorem emit_eq (n : Node) (effect : NodeEffect) :
    n.emit effect = { n with outbox := n.outbox ++ [effect] } := rfl

theorem closeSession_of_closed (closed : n.sessions[number]? = none) :
    n.closeSession number = n := by
  rw [closeSession, closed]

/-- A session that ends is gone, and with the last one of its node the locks stop waiting for that
node. -/
theorem closeSession_of_open {session : Session} (found : n.sessions[number]? = some session) :
    n.closeSession number =
      let rest := { n with sessions := n.sessions.erase number }
      { rest with
        outbox := n.outbox ++ [.endSession number session.queue.hangUp]
        locks := if rest.hasSession session.node then n.locks
          else n.locks.removeSubscriber session.node } := by
  simp only [closeSession, found, emit_eq]
  by_cases more : ({ n with sessions := n.sessions.erase number } : Node).hasSession session.node
  · rw [if_pos more]
    exact if_pos more
  · rw [if_neg more]
    exact if_neg more

/-- What an ended session leaves as it was. -/
theorem closeSession_keeps (n : Node) (number : Nat) : n.closeSession number =
    { n with
      sessions := n.sessions.erase number
      outbox := (n.closeSession number).outbox
      locks := (n.closeSession number).locks } := by
  cases found : n.sessions[number]? with
  | none =>
    have same : n.sessions.erase number = n.sessions := by
      refine Std.ExtTreeMap.ext_getElem? fun k => ?_
      rw [Std.ExtTreeMap.getElem?_erase]
      split
      next eq => rw [← Std.compare_eq_iff_eq.1 eq, found]
      next => rfl
    rw [closeSession_of_closed found, same]
  | some session => rw [closeSession_of_open found]

@[simp] theorem sessions_closeSession (n : Node) (number : Nat) :
    (n.closeSession number).sessions = n.sessions.erase number := by
  rw [closeSession_keeps]

/-- What several ended sessions leave as it was. -/
theorem foldl_closeSession_keeps (numbers : List Nat) (n : Node) :
    numbers.foldl closeSession n =
      { n with
        sessions := (numbers.foldl closeSession n).sessions
        outbox := (numbers.foldl closeSession n).outbox
        locks := (numbers.foldl closeSession n).locks } := by
  induction numbers generalizing n with
  | nil => rfl
  | cons number numbers ih =>
    rw [List.foldl_cons, ih, closeSession_keeps]

theorem getElem?_foldl_closeSession (numbers : List Nat) (n : Node) (k : Nat) :
    (numbers.foldl closeSession n).sessions[k]? =
      if k ∈ numbers then none else n.sessions[k]? :=
  getElem?_foldl_erase sessions_closeSession numbers n k

/-! ## Telling the sessions -/

/-- A node that has put an event into the mailboxes of its sessions, as far as they let it in. -/
def offered (n : Node) (event : NodeEvent) : Node :=
  { n with
    sequence := n.sequence + 1
    sessions := n.sessions.map fun _ session =>
      { session with
        queue := (session.queue.offer? (.event (n.sequence + 1) event)).getD session.queue } }

theorem publish_eq (n : Node) (event : NodeEvent) : n.publish event =
    (n.lagging (.event (n.sequence + 1) event)).foldl closeSession (n.offered event) := rfl

theorem publish_keeps (n : Node) (event : NodeEvent) : n.publish event =
    { n with
      sequence := n.sequence + 1
      sessions := (n.publish event).sessions
      outbox := (n.publish event).outbox
      locks := (n.publish event).locks } := by
  rw [publish_eq, foldl_closeSession_keeps]
  rfl

theorem mem_lagging (message : Message) : number ∈ n.lagging message ↔
    ∃ session, n.sessions[number]? = some session ∧ session.queue.offer? message = none := by
  simp only [lagging, List.mem_map, List.mem_filter, Option.isNone_iff_eq_none, Prod.exists,
    Std.ExtTreeMap.mem_toList_iff_getElem?_eq_some]
  constructor
  · rintro ⟨k, session, ⟨found, refused⟩, rfl⟩
    exact ⟨session, found, refused⟩
  · rintro ⟨session, found, refused⟩
    exact ⟨number, session, ⟨found, refused⟩, rfl⟩

/-- A session is told an event, or it ends. -/
theorem getElem?_publish (n : Node) (event : NodeEvent) (k : Nat) :
    (n.publish event).sessions[k]? = n.sessions[k]?.bind fun session =>
      (session.queue.offer? (.event (n.sequence + 1) event)).map fun queue =>
        { session with queue } := by
  rw [publish_eq, getElem?_foldl_closeSession]
  have offers : (n.offered event).sessions[k]? = n.sessions[k]?.map fun session =>
      { session with
        queue := (session.queue.offer? (.event (n.sequence + 1) event)).getD session.queue } := by
    rw [offered, Std.ExtTreeMap.getElem?_map]
  cases found : n.sessions[k]? with
  | none => simp [offers, found]
  | some session =>
    cases taken : session.queue.offer? (.event (n.sequence + 1) event) with
    | none => simp [mem_lagging, found, taken]
    | some queue => simp [mem_lagging, found, taken, offers]

/-! ## One thing after the other -/

/-- A node that has handed out what its locks and mappings want done. -/
def relieved (n : Node) : Node :=
  { n with
    locks := { n.locks with outbox := [] }
    mappings := { n.mappings with outbox := [] } }

/-- What a node publishes when it carries out what is wanted at the moment. -/
def agenda (n : Node) : List NodeEvent :=
  LockEffect.events n.locks.outbox ++ n.mappings.outbox.filterMap MappingEffect.event?

/-- What a node publishes in at most so many rounds. -/
def publishedWithin : Nat → Node → List NodeEvent
  | 0, _ => []
  | rounds + 1, n => if n.isQuiet then [] else n.agenda ++ publishedWithin rounds n.drainOnce

/-- What a node publishes until nothing is left to do. -/
def drainPublishes (n : Node) : List NodeEvent := publishedWithin (n.sessions.size + 2) n

section

variable {P : List NodeEvent → List LockEffect → List MappingEffect → Node → Prop}
  {past : List NodeEvent}

/-- What holds while one thing after the other is done holds in the end. The property may speak of
what was published already and of what is still to be done. -/
theorem drainOnce_trace
    (lock : ∀ past effect effects more n, P past (effect :: effects) more n →
      P (past ++ effect.event?.toList) effects more (n.lockEffect effect))
    (mapping : ∀ past effect effects n, P past [] (effect :: effects) n →
      P (past ++ effect.event?.toList) [] effects (n.mappingEffect effect))
    (start : P past n.locks.outbox n.mappings.outbox n.relieved) :
    P (past ++ n.agenda) [] [] n.drainOnce := by
  have locks : ∀ effects more past n, P past effects more n →
      P (past ++ LockEffect.events effects) [] more (effects.foldl lockEffect n) := by
    intro effects more
    induction effects with
    | nil =>
      intro past n holds
      rwa [LockEffect.events, List.filterMap_nil, List.append_nil]
    | cons effect effects ih =>
      intro past n holds
      rw [LockEffect.events, filterMap_cons_eq, ← List.append_assoc]
      exact ih _ _ (lock past effect effects more n holds)
  have mappings : ∀ effects past n, P past [] effects n →
      P (past ++ effects.filterMap MappingEffect.event?) [] [] (effects.foldl mappingEffect n) := by
    intro effects
    induction effects with
    | nil =>
      intro past n holds
      rwa [List.filterMap_nil, List.append_nil]
    | cons effect effects ih =>
      intro past n holds
      rw [filterMap_cons_eq, ← List.append_assoc]
      exact ih _ _ (mapping past effect effects n holds)
  -- the locks come first, so the mappings find nothing of theirs left
  rw [agenda, ← List.append_assoc]
  exact mappings _ _ _ (locks _ _ _ _ start)

theorem drain_trace
    (take : ∀ past n, P past [] [] n → P past n.locks.outbox n.mappings.outbox n.relieved)
    (lock : ∀ past effect effects more n, P past (effect :: effects) more n →
      P (past ++ effect.event?.toList) effects more (n.lockEffect effect))
    (mapping : ∀ past effect effects n, P past [] (effect :: effects) n →
      P (past ++ effect.event?.toList) [] effects (n.mappingEffect effect))
    (start : P past [] [] n) : P (past ++ n.drainPublishes) [] [] n.drain := by
  have rounds : ∀ rounds past n, P past [] [] n →
      P (past ++ publishedWithin rounds n) [] [] (drainWithin rounds n) := by
    intro rounds
    induction rounds with
    | zero =>
      intro past n holds
      rwa [publishedWithin, List.append_nil]
    | succ rounds ih =>
      intro past n holds
      unfold drainWithin publishedWithin
      split
      · rwa [List.append_nil]
      · rw [← List.append_assoc]
        exact ih _ _ (drainOnce_trace lock mapping (take past n holds))
  exact rounds _ past n start

end

section

variable {P : List LockEffect → List MappingEffect → Node → Prop}

theorem drainOnce_induction
    (lock : ∀ effect effects more n, P (effect :: effects) more n →
      P effects more (n.lockEffect effect))
    (mapping : ∀ effect effects n, P [] (effect :: effects) n →
      P [] effects (n.mappingEffect effect))
    (start : P n.locks.outbox n.mappings.outbox n.relieved) : P [] [] n.drainOnce :=
  @drainOnce_trace n (fun _ => P) [] (fun _ => lock) (fun _ => mapping) start

theorem drain_induction
    (take : ∀ n, P [] [] n → P n.locks.outbox n.mappings.outbox n.relieved)
    (lock : ∀ effect effects more n, P (effect :: effects) more n →
      P effects more (n.lockEffect effect))
    (mapping : ∀ effect effects n, P [] (effect :: effects) n →
      P [] effects (n.mappingEffect effect))
    (start : P [] [] n) : P [] [] n.drain :=
  @drain_trace n (fun _ => P) [] (fun _ => take) (fun _ => lock) (fun _ => mapping) start

end

/-! ## There is an end -/

/-- Whether an effect answers a caller. -/
def isAnswer : MappingEffect → Bool
  | .answer _ _ => true
  | _ => false

/-- There were at most so many sessions; if none of them ended, the locks want nothing done, and the
mappings want callers answered at most. -/
structure Wanes (size : Nat) (n : Node) : Prop where
  sessions : n.sessions.size ≤ size
  locks : n.sessions.size = size → n.locks.outbox = []
  mappings : ∀ effect ∈ n.mappings.outbox, isAnswer effect = true

namespace Wanes

variable {size : Nat}

theorem closeSession (wanes : n.Wanes size) (number : Nat) :
    (n.closeSession number).Wanes size := by
  cases found : n.sessions[number]? with
  | none => rwa [closeSession_of_closed found]
  | some session =>
    have there : number ∈ n.sessions := by
      rw [Std.ExtTreeMap.mem_iff_isSome_getElem?, found]
      rfl
    have fewer : (n.closeSession number).sessions.size < size := by
      have some : n.sessions.size ≠ 0 := fun none => by
        rw [Std.ExtTreeMap.eq_empty_iff_size_eq_zero.2 none] at there
        exact Std.ExtTreeMap.not_mem_empty there
      rw [sessions_closeSession, Std.ExtTreeMap.size_erase,
        if_pos (Std.ExtTreeMap.contains_iff_mem.2 there)]
      have := wanes.sessions
      omega
    refine ⟨Nat.le_of_lt fewer, fun same => absurd same (Nat.ne_of_lt fewer), ?_⟩
    rw [closeSession_keeps]
    exact wanes.mappings

theorem publish (wanes : n.Wanes size) (event : NodeEvent) : (n.publish event).Wanes size := by
  have offers : (n.offered event).Wanes size := by
    have same : (n.offered event).sessions.size = n.sessions.size := Std.ExtTreeMap.size_map
    exact ⟨same ▸ wanes.sessions, fun all => wanes.locks (same ▸ all), wanes.mappings⟩
  rw [publish_eq]
  refine List.foldlRecOn _ _ offers ?_
  intro m wanes number _
  exact wanes.closeSession number

theorem congr {m : Node} (wanes : n.Wanes size) (sessions : m.sessions = n.sessions)
    (locks : m.locks = n.locks) (mappings : m.mappings = n.mappings) : m.Wanes size := by
  refine ⟨?_, ?_, ?_⟩
  · rw [sessions]
    exact wanes.sessions
  · rw [sessions, locks]
    exact wanes.locks
  · rw [mappings]
    exact wanes.mappings

end Wanes

/-- Sending a request to a peer concerns its link only. -/
theorem sendToPeer_keeps (n : Node) (peer : NodeName) (request : Request) :
    (n.sendToPeer peer request).2 = { n with links := (n.sendToPeer peer request).2.links } := by
  unfold sendToPeer
  split <;> rfl

theorem sendToSubscribed_keeps (n : Node) (peer : NodeName) (request : Request) :
    (n.sendToSubscribed peer request).2 =
      { n with links := (n.sendToSubscribed peer request).2.links } := by
  unfold sendToSubscribed
  split
  · exact n.sendToPeer_keeps peer request
  · rfl

/-- What the locks want done concerns neither the mappings nor the actions of callers. -/
theorem lockEffect_keeps (n : Node) (effect : LockEffect) : n.lockEffect effect =
    { n with
      links := (n.lockEffect effect).links
      sessions := (n.lockEffect effect).sessions
      sequence := (n.lockEffect effect).sequence
      locks := (n.lockEffect effect).locks
      outbox := (n.lockEffect effect).outbox } := by
  cases effect with
  | publish event =>
    simp only [lockEffect]
    rw [publish_keeps]
  | ratify peer lock acquire =>
    simp only [lockEffect]
    rw [sendToPeer_keeps]
  | _ => rfl

/-- A call is sent to a peer that this node follows, or it has failed. -/
theorem mappingEffect_call (n : Node) (peer : NodeName) (requestId : Nat) (call : MappingCall) :
    let sent := n.sendToSubscribed peer (.mapping requestId call)
    (sent.1 = .ok () ∧ n.follows peer = true ∧
        n.mappingEffect (.call peer requestId call) = sent.2) ∨
      ∃ failure, n.mappingEffect (.call peer requestId call) =
        { sent.2 with mappings := n.mappings.callCompleted requestId (.error failure) } := by
  intro sent
  have kept : sent.2.mappings = n.mappings := by rw [n.sendToSubscribed_keeps]
  cases went : sent.1 with
  | ok done =>
    refine .inl ⟨rfl, ?_, ?_⟩
    · by_contra lost
      have refused : sent.1 = .error .peerUnavailable := by
        simp only [sent, sendToSubscribed, if_neg lost]
      rw [refused] at went
      cases went
    · simp only [mappingEffect]
      rw [show n.sendToSubscribed peer (.mapping requestId call) = (.ok (), sent.2) from
        Prod.ext went rfl]
  | error failure =>
    refine .inr ⟨failure, ?_⟩
    simp only [mappingEffect]
    rw [show n.sendToSubscribed peer (.mapping requestId call) = (.error failure, sent.2) from
      Prod.ext went rfl]
    dsimp only
    rw [kept]

theorem Wanes.lockEffect {size : Nat} (wanes : n.Wanes size) (effect : LockEffect) :
    (n.lockEffect effect).Wanes size := by
  cases effect with
  | publish event => exact wanes.publish event
  | ratify peer lock acquire =>
    simp only [Node.lockEffect]
    rw [sendToPeer_keeps]
    exact wanes.congr rfl rfl rfl
  | startTimer lock generation => exact wanes.congr rfl rfl rfl
  | lost lock => exact wanes.congr rfl rfl rfl
  | answer ticket reply => exact wanes.congr rfl rfl rfl

theorem Wanes.mappingEffect {size : Nat} (wanes : n.Wanes size) (effect : MappingEffect) :
    (n.mappingEffect effect).Wanes size := by
  cases effect with
  | broadcast event => exact wanes.publish event
  | call peer requestId call =>
    have sent : (n.sendToSubscribed peer (.mapping requestId call)).2.Wanes size := by
      rw [sendToSubscribed_keeps]
      exact wanes.congr rfl rfl rfl
    obtain ⟨-, -, went⟩ | ⟨failure, failed⟩ := n.mappingEffect_call peer requestId call
    · rwa [went]
    · rw [failed]
      refine ⟨sent.sessions, sent.locks, fun effect there => ?_⟩
      -- a call that could not be sent is answered at most
      obtain ⟨effects, grown, answers⟩ :=
        n.mappings.outbox_callCompleted requestId (.error failure)
      obtain before | now := List.mem_append.1 (grown ▸ there)
      · exact wanes.mappings effect before
      · obtain ⟨_, _, rfl, -⟩ := answers effect now
        rfl
  | answer ticket reply => exact wanes.congr rfl rfl rfl
  | told told => exact wanes.congr rfl rfl rfl

/-- After a round, a session less is there, or next to nothing is left to do. -/
theorem wanes_drainOnce (n : Node) : n.drainOnce.Wanes n.sessions.size := by
  refine drainOnce_induction (P := fun _ _ m => m.Wanes n.sessions.size) ?_ ?_ ?_
  · exact fun effect _ _ _ wanes => wanes.lockEffect effect
  · exact fun effect _ _ wanes => wanes.mappingEffect effect
  · exact ⟨Nat.le_refl _, fun _ => rfl, nofun⟩

/-- When the mappings want callers answered at most, a round leaves them with nothing to do. -/
theorem mappings_drainOnce (answers : ∀ effect ∈ n.mappings.outbox, isAnswer effect = true) :
    n.drainOnce.mappings.outbox = [] := by
  have done := drainOnce_induction (n := n)
    (P := fun _ effects m => (∀ effect ∈ effects, isAnswer effect = true) ∧ m.mappings.outbox = [])
    ?_ ?_ ⟨answers, rfl⟩
  · exact done.2
  · rintro effect _ more m ⟨answers, nothing⟩
    refine ⟨answers, ?_⟩
    rwa [lockEffect_keeps]
  · rintro effect effects m ⟨answers, nothing⟩
    refine ⟨fun effect later => answers effect (List.mem_cons_of_mem _ later), ?_⟩
    cases effect with
    | answer ticket reply => exact nothing
    | _ => exact absurd (answers _ List.mem_cons_self) Bool.false_ne_true

theorem isQuiet_iff : n.isQuiet = true ↔ n.locks.outbox = [] ∧ n.mappings.outbox = [] := by
  simp [isQuiet]

theorem drainWithin_of_quiet (quiet : n.isQuiet = true) (rounds : Nat) :
    drainWithin rounds n = n := by
  cases rounds with
  | zero => rfl
  | succ rounds => rw [drainWithin, if_pos quiet]

theorem drain_of_quiet (quiet : n.isQuiet = true) : n.drain = n := drainWithin_of_quiet quiet _

/-- In the end there is nothing left to do. -/
theorem isQuiet_drain (n : Node) : n.drain.isQuiet = true := by
  have rounds : ∀ (rounds : Nat) (n : Node),
      (∀ effect ∈ n.mappings.outbox, isAnswer effect = true) → n.sessions.size < rounds →
        (drainWithin rounds n).isQuiet = true := by
    intro rounds
    induction rounds with
    | zero => exact fun n _ bound => absurd bound (Nat.not_lt_zero _)
    | succ rounds ih =>
      intro n answers bound
      unfold drainWithin
      split
      next quiet => exact quiet
      next =>
        have wanes := n.wanes_drainOnce
        have nothing := mappings_drainOnce answers
        by_cases all : n.drainOnce.sessions.size = n.sessions.size
        · have quiet := isQuiet_iff.2 ⟨wanes.locks all, nothing⟩
          rwa [drainWithin_of_quiet quiet]
        · refine ih _ wanes.mappings ?_
          have := wanes.sessions
          omega
  -- calls that cannot be sent may be among what is wanted at first, but not after a round
  unfold drain drainWithin
  split
  next quiet => exact quiet
  next =>
    have wanes := n.wanes_drainOnce
    exact rounds _ _ wanes.mappings (Nat.lt_succ_of_le wanes.sessions)

/-! ## The last command -/

/-- What only adds to the outbox leaves everything else as it is. -/
theorem foldl_emit_keeps {α : Type} {f : Node → α → Node}
    (each : ∀ n a, f n a = { n with outbox := (f n a).outbox }) (l : List α) (n : Node) :
    l.foldl f n = { n with outbox := (l.foldl f n).outbox } := by
  induction l generalizing n with
  | nil => rfl
  | cons a l ih => rw [List.foldl_cons, ih, each]

theorem dismissCallers_keeps (n : Node) :
    n.dismissCallers = { n with outbox := n.dismissCallers.outbox } := by
  unfold dismissCallers
  rw [foldl_emit_keeps (fun _ _ => rfl), foldl_emit_keeps fun m pending => ?_]
  split <;> rfl

/-- A node that shuts down passes on what the others do not know, then ends what is being settled,
and does nothing after that but say goodbye. -/
theorem shutDown_keeps (n : Node) (now : Nat) :
    let passed := { n with mappings := n.mappings.flush now true }.drain
    let ended := { passed with locks := passed.locks.shutDown }.drain
    n.shutDown now =
      { ended with
        links := (n.shutDown now).links
        sessions := ∅
        stopped := true
        outbox := (n.shutDown now).outbox } := by
  simp only [shutDown]
  rw [foldl_emit_keeps fun _ _ => rfl, dismissCallers_keeps]
  rfl

/-- The links of a node that shuts down are logged off. -/
theorem links_shutDown (n : Node) (now : Nat) :
    let passed := { n with mappings := n.mappings.flush now true }.drain
    let ended := { passed with locks := passed.locks.shutDown }.drain
    (n.shutDown now).links = ended.links.map fun _ link => link.logOff.2 := by
  simp only [shutDown]
  rw [foldl_emit_keeps fun _ _ => rfl, dismissCallers_keeps]
  rfl

end Node

end Cohort

import Cohort.Proofs.Lock.Departure
import Cohort.Proofs.Node.Presence

/-!
# What a node does to its locks and mappings

Whatever happens to a node, what it does to its locks and to its mappings are operations of theirs,
one after the other, and that it takes out of their outboxes what they want done. So whatever these
operations keep is kept by the node, in every run.

## Main definitions

* `Arbitrator.Use`, `MappingService.Use`: one thing that a node does to its locks, to its mappings.
* `Node.Operates`: a node does such things, one after the other.

## Main statements

* `Node.Operates.apply`, `Node.Operates.after`: this is all that a command, or a run, does to them.
* `Node.Operates.node`, `Node.Operates.sound`, `Node.Operates.ring`: what is kept by it.
-/

namespace Cohort

/-! ## Operations -/

/-- One thing that a node does to its locks. -/
inductive Arbitrator.Use (t : Arbitrator) : Arbitrator → Prop where
  | operated (op : LockOp) : t.Use (t.step op)
  /-- What they want done is taken out. -/
  | relieved : t.Use { t with outbox := [] }

/-- One thing that a node does to its mappings. -/
inductive MappingService.Use (s : MappingService) : MappingService → Prop where
  | operated (op : MappingOp) : s.Use (s.step op)
  | listened (i : UInt16) (listener : Listener) : s.Use (s.addListener i listener).2
  /-- What they want done is taken out. -/
  | relieved : s.Use { s with outbox := [] }

namespace Node

variable {n n' n'' : Node}

/-- What a node does to its locks and mappings, one thing after the other. -/
structure Operates (n n' : Node) : Prop where
  locks : Relation.ReflTransGen Arbitrator.Use n.locks n'.locks
  mappings : Relation.ReflTransGen MappingService.Use n.mappings n'.mappings

namespace Operates

theorem of_eq (locks : n'.locks = n.locks) (mappings : n'.mappings = n.mappings) :
    n.Operates n' := by
  refine ⟨?_, ?_⟩
  · rw [locks]
  · rw [mappings]

theorem refl (n : Node) : n.Operates n := of_eq rfl rfl

theorem trans (first : n.Operates n') (second : n'.Operates n'') : n.Operates n'' :=
  ⟨first.locks.trans second.locks, first.mappings.trans second.mappings⟩

theorem of_lockOp (op : LockOp) (locks : n'.locks = n.locks.step op)
    (mappings : n'.mappings = n.mappings) : n.Operates n' := by
  refine ⟨?_, ?_⟩
  · rw [locks]
    exact .single (.operated op)
  · rw [mappings]

theorem of_mappingOp (op : MappingOp) (locks : n'.locks = n.locks)
    (mappings : n'.mappings = n.mappings.step op) : n.Operates n' := by
  refine ⟨?_, ?_⟩
  · rw [locks]
  · rw [mappings]
    exact .single (.operated op)

theorem foldl {α : Type} {f : Node → α → Node} (each : ∀ n a, Operates n (f n a)) (l : List α)
    (n : Node) : n.Operates (l.foldl f n) :=
  List.foldlRecOn _ _ (refl n) fun m operates a _ => operates.trans (each m a)

/-! ### What happens indoors -/

theorem closeSession (n : Node) (number : Nat) : n.Operates (n.closeSession number) := by
  cases found : n.sessions[number]? with
  | none =>
    rw [closeSession_of_closed found]
    exact refl n
  | some session =>
    rw [closeSession_of_open found]
    dsimp only
    split
    · exact of_eq rfl rfl
    · exact of_lockOp (.removeSubscriber session.node) rfl rfl

theorem publish (n : Node) (event : NodeEvent) : n.Operates (n.publish event) := by
  rw [publish_eq]
  have offered : n.Operates (n.offered event) := of_eq rfl rfl
  exact offered.trans (foldl Operates.closeSession _ _)

theorem lockEffect (n : Node) (effect : LockEffect) : n.Operates (n.lockEffect effect) := by
  cases effect with
  | publish event => exact publish n event
  | ratify peer lock acquire =>
    simp only [Node.lockEffect]
    rw [sendToPeer_keeps]
    exact of_eq rfl rfl
  | _ => exact of_eq rfl rfl

theorem mappingEffect (n : Node) (effect : MappingEffect) :
    n.Operates (n.mappingEffect effect) := by
  cases effect with
  | broadcast event => exact publish n event
  | call peer requestId call =>
    obtain ⟨-, -, went⟩ | ⟨failure, failed⟩ := n.mappingEffect_call peer requestId call
    · rw [went, sendToSubscribed_keeps]
      exact of_eq rfl rfl
    · rw [failed, sendToSubscribed_keeps]
      exact of_mappingOp (.complete requestId (.error failure)) rfl rfl
  | _ => exact of_eq rfl rfl

theorem drain (n : Node) : n.Operates n.drain := by
  refine drain_induction (P := fun _ _ m => n.Operates m) ?_ ?_ ?_ (refl n)
  · exact fun m operates => operates.trans ⟨.single .relieved, .single .relieved⟩
  · exact fun effect _ _ m operates => operates.trans (lockEffect m effect)
  · exact fun effect _ m operates => operates.trans (mappingEffect m effect)

theorem finish (n : Node) : n.Operates n.drain.answerActions := by
  rw [answerActions_eq]
  exact (drain n).trans (of_eq rfl rfl)

theorem sessionRequest (n : Node) (number : Nat) (session : Session) (request : Request) :
    n.Operates (n.sessionRequest number session request) := by
  cases request with
  | ratify lock acquire => exact of_lockOp (.ratify session.node lock acquire) rfl rfl
  | mapping requestId call => exact of_mappingOp (.handle call) rfl rfl
  | _ => exact of_eq rfl rfl

theorem openSession (n : Node) (number : Nat) (node : NodeName) (queue : Mailbox Message) :
    n.Operates (n.openSession number node queue) := by
  unfold Node.openSession
  split
  · exact refl n
  · split
    · exact of_eq rfl rfl
    · exact of_lockOp (.addSubscriber node) rfl rfl

theorem invoke (n : Node) (node : NodeName) (action : String) (args : Bytes) (ticket : Ticket) :
    n.Operates (n.invoke node action args ticket) := by
  obtain ⟨reply, answered⟩ | ⟨-, went | ⟨failure, failed⟩⟩ :=
    n.invoke_cases node action args ticket
  · rw [answered]
    exact of_eq rfl rfl
  · rw [went, sendToPeer_keeps]
    exact of_eq rfl rfl
  · rw [failed, sendToPeer_keeps]
    exact of_eq rfl rfl

/-! ### What comes in by the links -/

/-- A peer is lost, whatever has become of its link. -/
theorem peerLost {m : Node} (locks : m.locks = n.locks) (mappings : m.mappings = n.mappings)
    (peer : NodeName) : n.Operates (m.peerLost peer) := by
  refine ⟨?_, ?_⟩
  · rw [← locks]
    exact .single (.operated (.peerDisconnected peer))
  · rw [← mappings]
    refine .tail (.single (.operated (.disconnect peer))) ?_
    exact .operated (.govern _)

theorem peerEvent (n : Node) (peer : NodeName) (event : NodeEvent) :
    n.Operates (n.peerEvent peer event) := by
  cases event with
  | cacheData cache data =>
    have heard : n.mappings.Use (n.mappings.cacheData cache data).2 :=
      .operated (.hear (.cacheData cache data))
    simp only [Node.peerEvent]
    split
    · exact ⟨.refl, .single heard⟩
    · exact ⟨.refl, .single heard⟩
  | acquiring lock => exact of_lockOp (.peerAcquiring peer lock) rfl rfl
  | releasing lock => exact of_lockOp (.peerReleasing peer lock) rfl rfl
  | added lock => exact of_lockOp (.peerAdded peer lock) rfl rfl
  | kept lock => exact of_lockOp (.peerKept peer lock) rfl rfl
  | removed lock => exact of_lockOp (.peerRemoved peer lock) rfl rfl

theorem connect (n : Node) (now : Nat) (peer : NodeName) : n.Operates (n.connect now peer) := by
  unfold Node.connect
  split <;> exact of_eq rfl rfl

theorem move {inOrder : Prop} (move : n.Move inOrder n') : n.Operates n' := by
  cases move with
  | consulted =>
    unfold refresh
    split <;> exact of_eq rfl rfl
  | tried => exact connect n _ _
  | dropped peer =>
    unfold linkDown
    exact peerLost (by rfl) (by rfl) peer
  | forgotten peer =>
    unfold forget
    split
    · exact refl n
    · exact peerLost (by rfl) (by rfl) peer
  | @followed peer link snapshot =>
    refine ⟨.single (.operated (.peerSubscribed peer snapshot.locks)), ?_⟩
    exact .single (.operated (.govern _))
  | heard sequence event =>
    refine .trans ?_ (peerEvent _ _ event)
    exact of_eq rfl rfl
  | mappingResult requestId reply => exact of_mappingOp (.complete requestId reply) rfl rfl
  | _ => exact of_eq rfl rfl

theorem moves {inOrder : Prop} (moves : n.Moves inOrder n') : n.Operates n' := by
  induction moves with
  | refl => exact refl n
  | tail _ move ih => exact ih.trans (Operates.move move)

/-! ### Commands and runs -/

theorem shutDown (n : Node) (now : Nat) : n.Operates (n.shutDown now) := by
  have flushed : n.Operates { n with mappings := n.mappings.flush now true } :=
    of_mappingOp (.flush now true) rfl rfl
  have passed := flushed.trans (drain _)
  rw [shutDown_keeps]
  generalize { n with mappings := n.mappings.flush now true }.drain = m at passed ⊢
  have ended : m.Operates { m with locks := m.locks.shutDown } := of_lockOp .shutDown rfl rfl
  exact ((passed.trans ended).trans (drain _)).trans (of_eq rfl rfl)

/-- What a command does to the locks and mappings. -/
theorem apply (n : Node) (command : NodeCommand) : n.Operates (n.apply command) := by
  cases command with
  | link peer generation report => exact moves (n.moves_linkReport peer generation report)
  | openSession number node queue => exact openSession n number node queue
  | sessionRequest number request =>
    simp only [Node.apply]
    split
    · exact sessionRequest n number _ request
    · exact refl n
  | closeSession number => exact closeSession n number
  | refresh =>
    have looked : n.Move True n.refresh := .consulted
    exact move looked
  | loaded now answer =>
    have heard : n.Moves True (n.loaded now answer) := n.moves_loaded now answer
    exact moves heard
  | flush now =>
    have flushed : n.Operates { n with mappings := n.mappings.flush now false } :=
      of_mappingOp (.flush now false) rfl rfl
    exact flushed.trans (of_mappingOp .resume rfl rfl)
  | lockTimeout lock generation => exact of_lockOp (.timeout lock generation) rfl rfl
  | acquire lock ticket => exact of_lockOp (.acquire lock ticket) rfl rfl
  | release lock ticket => exact of_lockOp (.release lock ticket) rfl rfl
  | query lock ticket => exact of_lockOp (.query lock ticket) rfl rfl
  | reacquire lock => exact of_lockOp (.reacquire lock) rfl rfl
  | mapping call ticket => exact of_mappingOp (.submit call ticket) rfl rfl
  | invoke node action args ticket => exact invoke n node action args ticket
  | tellCacheStale cache data =>
    simp only [Node.apply, tellCacheStale]
    split
    · exact refl n
    · exact publish n _
  | observe cache number => exact of_eq rfl rfl
  | listen i listener => exact ⟨.refl, .single (.listened i listener)⟩
  | shutDown now => exact shutDown n now

theorem advance (n : Node) (occurrence : Occurrence) : n.Operates (n.advance occurrence) := by
  cases occurrence with
  | command command =>
    simp only [Node.advance, step]
    split
    · exact refl n
    · exact (apply n command).trans (finish _)
  | _ => exact of_eq rfl rfl

/-- What a run does to the locks and mappings. -/
theorem after (n : Node) (run : List Occurrence) : n.Operates (n.after run) :=
  foldl Operates.advance run n

/-! ### What is kept -/

theorem locks_keep {P : Arbitrator → Prop} (operates : n.Operates n') (start : P n.locks)
    (operated : ∀ t op, P t → P (t.step op))
    (relieved : ∀ t, P t → P { t with outbox := [] }) : P n'.locks := by
  have uses := operates.locks
  generalize n'.locks = t at uses ⊢
  induction uses with
  | refl => exact start
  | tail _ use ih =>
    cases use with
    | operated op => exact operated _ op ih
    | relieved => exact relieved _ ih

theorem mappings_keep {P : MappingService → Prop} (operates : n.Operates n')
    (start : P n.mappings) (operated : ∀ s op, P s → P (s.step op))
    (listened : ∀ s i listener, P s → P (s.addListener i listener).2)
    (relieved : ∀ s, P s → P { s with outbox := [] }) : P n'.mappings := by
  have uses := operates.mappings
  generalize n'.mappings = s at uses ⊢
  induction uses with
  | refl => exact start
  | tail _ use ih =>
    cases use with
    | operated op => exact operated _ op ih
    | listened i listener => exact listened _ i listener ih
    | relieved => exact relieved _ ih

/-- The locks are those of the same node. -/
theorem node (operates : n.Operates n') : n'.locks.node = n.locks.node := by
  refine operates.locks_keep (P := fun t => t.node = n.locks.node) rfl ?_ fun _ same => same
  exact fun t op same => (Arbitrator.node_step t op).trans same

/-- The mappings stay in order. -/
theorem sound (operates : n.Operates n') (sound : n.mappings.Sound) : n'.mappings.Sound := by
  refine operates.mappings_keep sound (fun s op sound => sound.step op)
    (fun s i listener sound => sound.addListener i listener) fun s sound => ?_
  exact ⟨⟨sound.placed, sound.named, sound.listed⟩, sound.tidy, sound.numbered, sound.parked⟩

/-- Places on the ring are settled by the ministers. -/
theorem ring (operates : n.Operates n')
    (settled : n.mappings.ring = .ofNodes Ring.defaultShare n.mappings.ring.nodes) :
    n'.mappings.ring = .ofNodes Ring.defaultShare n'.mappings.ring.nodes := by
  refine operates.mappings_keep
    (P := fun s => s.ring = .ofNodes Ring.defaultShare s.ring.nodes) settled
    (fun s op settled => ?_) (fun s i listener settled => ?_) fun _ same => same
  · exact s.ring_step op settled
  · rwa [(MappingService.Abides.addListener s i listener).ring]

end Operates

end Node

end Cohort

import Cohort.Proofs.Node.Presence

/-!
# Attempts to connect

Every attempt to connect to a peer has a number, which the task that makes it puts on all its
reports, so that what an attempt reports after it has ended can be told apart. The numbers of one
peer are consecutive. They start anew when the peer was forgotten and comes back, because the link
to it is made anew: then the number of an attempt made before may be that of the one that is up, and
its reports are listened to again.

## Main definitions

* `Node.attemptsAfter`: how many attempts a list of effects starts.
* `Node.HasEnded`: an attempt that has ended.
* `Node.Tracks`: the links of a node follow what it wants done about them.

## Main statements

* `Node.tracks_after`: the links follow what is wanted, over every run.
* `Node.late_reports_ignored_iff`: when the reports of an attempt that has ended are ignored.
* `Node.late_report_takes_effect`: they are not always.
-/

namespace Cohort

/-! ## What is wanted about links -/

namespace NodeEffect

/-- Whether an effect starts an attempt to connect to a peer. -/
def connectsTo (peer : NodeName) : NodeEffect → Bool
  | .connect other _ _ => other = peer
  | _ => false

/-- Whether an effect starts the attempt to connect to a peer that has this number. -/
def starts (peer : NodeName) (generation : Nat) : NodeEffect → Bool
  | .connect other number _ => other = peer && number = generation
  | _ => false

/-- Whether an effect forgets a peer. -/
def forgets (peer : NodeName) : NodeEffect → Bool
  | .forgetPeer other _ => other = peer
  | _ => false

/-- Whether an effect has nothing to do with links. -/
def sparesLinks : NodeEffect → Bool
  | .connect .. | .forgetPeer .. => false
  | _ => true

end NodeEffect

namespace Node

variable {n n' n'' : Node} {peer other : NodeName} {effects later : List NodeEffect}

/-- How many attempts to connect to a peer were started, counted from when it was last forgotten:
so many before these effects, and those among them. -/
def attemptsAfter (peer : NodeName) : Nat → List NodeEffect → Nat
  | count, [] => count
  | count, effect :: effects =>
    attemptsAfter peer
      (if effect.connectsTo peer then count + 1 else if effect.forgets peer then 0 else count)
      effects

/-- Every attempt to connect to a peer has the number that comes next. -/
def Consecutive (peer : NodeName) : Nat → List NodeEffect → Prop
  | _, [] => True
  | count, effect :: effects =>
    (∀ generation target, effect = .connect peer generation target → generation = count + 1) ∧
      Consecutive peer (attemptsAfter peer count [effect]) effects

theorem attemptsAfter_append (count : Nat) : attemptsAfter peer count (effects ++ later) =
    attemptsAfter peer (attemptsAfter peer count effects) later := by
  induction effects generalizing count with
  | nil => rfl
  | cons effect effects ih => exact ih _

theorem consecutive_append {count : Nat} : Consecutive peer count (effects ++ later) ↔
    Consecutive peer count effects ∧
      Consecutive peer (attemptsAfter peer count effects) later := by
  induction effects generalizing count with
  | nil => exact ⟨fun numbered => ⟨trivial, numbered⟩, And.right⟩
  | cons effect effects ih =>
    show _ ∧ Consecutive peer _ (effects ++ later) ↔ (_ ∧ _) ∧ _
    rw [ih, and_assoc]
    rfl

/-- An effect that has nothing to do with links starts no attempt and forgets nobody. -/
theorem attemptsAfter_of_sparesLinks (peer : NodeName)
    (spares : ∀ effect ∈ effects, effect.sparesLinks = true) (count : Nat) :
    attemptsAfter peer count effects = count ∧ Consecutive peer count effects := by
  induction effects with
  | nil => exact ⟨rfl, trivial⟩
  | cons effect effects ih =>
    obtain ⟨same, numbered⟩ := ih fun effect there => spares effect (List.mem_cons_of_mem _ there)
    have spared := spares effect List.mem_cons_self
    cases effect with
    | connect | forgetPeer => cases spared
    | _ => exact ⟨same, nofun, numbered⟩

/-- Attempts only add up as long as the peer is not forgotten. -/
theorem attemptsAfter_of_known (known : ∀ effect ∈ effects, effect.forgets peer = false)
    (count : Nat) :
    attemptsAfter peer count effects = count + effects.countP (·.connectsTo peer) := by
  induction effects generalizing count with
  | nil => rfl
  | cons effect effects ih =>
    rw [attemptsAfter, ih fun effect there => known effect (List.mem_cons_of_mem _ there),
      List.countP_cons, known effect List.mem_cons_self]
    split
    · omega
    · rfl

/-- What came before the peer was forgotten does not count any more. -/
theorem attemptsAfter_of_forgotten (forgotten : ∃ effect ∈ effects, effect.forgets peer = true)
    (count : Nat) : attemptsAfter peer count effects = attemptsAfter peer 0 effects := by
  induction effects generalizing count with
  | nil => simp at forgotten
  | cons effect effects ih =>
    simp only [attemptsAfter]
    obtain ⟨forgotten, there, forgets⟩ := forgotten
    obtain rfl | there := List.mem_cons.1 there
    · have other : forgotten.connectsTo peer = false := by
        cases forgotten <;> first | rfl | cases forgets
      simp [other, forgets]
    · rw [ih ⟨forgotten, there, forgets⟩, ← ih ⟨forgotten, there, forgets⟩]

/-- There are as many attempts as before only if the peer was forgotten or none was made. -/
theorem forgotten_or_untried {count : Nat} (same : attemptsAfter peer count effects = count) :
    effects.any (·.forgets peer) = true ∨ ∀ effect ∈ effects, effect.connectsTo peer = false := by
  by_cases forgotten : effects.any (·.forgets peer) = true
  · exact .inl forgotten
  · have known : ∀ effect ∈ effects, effect.forgets peer = false := by simpa using forgotten
    rw [attemptsAfter_of_known known] at same
    have none : effects.countP (·.connectsTo peer) = 0 := by omega
    exact .inr (by simpa [List.countP_eq_zero] using none)

/-! ## What the links make of it -/

/-- The number of the latest attempt to connect to a peer; zero if there was none. -/
def attemptOf (n : Node) (peer : NodeName) : Nat := (n.links[peer]?.map Link.generation).getD 0

/-- A connection to the peer is up, or on its way. -/
def IsUp (n : Node) (peer : NodeName) : Prop :=
  ∃ link, n.links[peer]? = some link ∧ link.state ≠ .disconnected

/-- The links of a node follow what it wants done about them. -/
def Tracks (peer : NodeName) (n n' : Node) : Prop :=
  ∃ effects, n'.outbox = n.outbox ++ effects ∧
    Consecutive peer (n.attemptOf peer) effects ∧
    n'.attemptOf peer = attemptsAfter peer (n.attemptOf peer) effects ∧
    -- without a new attempt, a link that is down stays down
    ((∀ effect ∈ effects, effect.connectsTo peer = false) → n'.IsUp peer → n.IsUp peer)

/-- A node only wants things done that have nothing to do with links. -/
def Utters (n n' : Node) : Prop :=
  ∃ effects, n'.outbox = n.outbox ++ effects ∧ ∀ effect ∈ effects, effect.sparesLinks = true

namespace Utters

theorem of_eq (same : n'.outbox = n.outbox) : n.Utters n' :=
  ⟨[], by rw [same, List.append_nil], nofun⟩

theorem of_emit (effect : NodeEffect) (spares : effect.sparesLinks = true)
    (grown : n'.outbox = n.outbox ++ [effect]) : n.Utters n' :=
  ⟨[effect], grown, fun _ there => by rwa [List.mem_singleton.1 there]⟩

theorem trans (first : n.Utters n') (second : n'.Utters n'') : n.Utters n'' := by
  obtain ⟨effects, grown, spare⟩ := first
  obtain ⟨more, grown', spare'⟩ := second
  exact ⟨effects ++ more, by rw [grown', grown, List.append_assoc],
    fun effect there => (List.mem_append.1 there).elim (spare effect) (spare' effect)⟩

theorem foldl {α : Type} {f : Node → α → Node} (each : ∀ n a, Utters n (f n a)) (l : List α)
    (n : Node) : n.Utters (l.foldl f n) :=
  List.foldlRecOn _ _ (of_eq rfl) fun m utters a _ => utters.trans (each m a)

theorem closeSession (n : Node) (number : Nat) : n.Utters (n.closeSession number) := by
  cases found : n.sessions[number]? with
  | none =>
    rw [closeSession_of_closed found]
    exact of_eq rfl
  | some session =>
    rw [closeSession_of_open found]
    exact of_emit (.endSession number session.queue.hangUp) rfl rfl

theorem publish (n : Node) (event : NodeEvent) : n.Utters (n.publish event) := by
  rw [publish_eq]
  exact (of_eq rfl : n.Utters (n.offered event)).trans (foldl closeSession _ _)

theorem sendToPeer (n : Node) (peer : NodeName) (request : Request) :
    n.Utters (n.sendToPeer peer request).2 := by
  rw [sendToPeer_keeps]
  exact of_eq rfl

theorem lockEffect (n : Node) (effect : LockEffect) : n.Utters (n.lockEffect effect) := by
  cases effect with
  | publish event => exact publish n event
  | ratify peer lock acquire => exact sendToPeer n peer _
  | startTimer lock generation => exact of_emit (.startTimer lock generation) rfl rfl
  | lost lock => exact of_emit (.lost lock) rfl rfl
  | answer ticket reply => exact of_emit (.lockAnswer ticket reply) rfl rfl

theorem mappingEffect (n : Node) (effect : MappingEffect) :
    n.Utters (n.mappingEffect effect) := by
  cases effect with
  | broadcast event => exact publish n event
  | call peer requestId call =>
    have sent : n.Utters (n.sendToSubscribed peer (.mapping requestId call)).2 := by
      rw [sendToSubscribed_keeps]
      exact of_eq rfl
    obtain ⟨-, -, went⟩ | ⟨failure, failed⟩ := n.mappingEffect_call peer requestId call
    · rwa [went]
    · rw [failed]
      exact sent.trans (of_eq rfl)
  | answer ticket reply => exact of_emit (.mappingAnswer ticket reply) rfl rfl
  | told told => exact of_emit (.told told) rfl rfl

theorem drain (n : Node) : n.Utters n.drain := by
  refine drain_induction (P := fun _ _ m => n.Utters m) ?_ ?_ ?_ (of_eq rfl)
  · exact fun m utters => utters.trans (of_eq rfl)
  · exact fun effect _ _ m utters => utters.trans (lockEffect m effect)
  · exact fun effect _ m utters => utters.trans (mappingEffect m effect)

theorem answerActions (n : Node) : n.Utters n.answerActions := by
  rw [answerActions_eq]
  refine ⟨_, rfl, fun effect there => ?_⟩
  obtain ⟨answer, -, rfl⟩ := List.mem_map.1 there
  rfl

theorem refresh (n : Node) : n.Utters n.refresh := by
  unfold Node.refresh
  split
  · exact of_eq rfl
  · exact of_emit (.consult n.record) rfl rfl

theorem invoke (n : Node) (node : NodeName) (action : String) (args : Bytes) (ticket : Ticket) :
    n.Utters (n.invoke node action args ticket) := by
  have started : n.Utters { n with actions := (n.actions.start node ticket).2 } := of_eq rfl
  have sent := started.trans
    (sendToPeer _ node (.nodeAction (n.actions.start node ticket).1 action args))
  obtain ⟨reply, answered⟩ | ⟨-, went | ⟨failure, failed⟩⟩ :=
    n.invoke_cases node action args ticket
  · rw [answered]
    exact of_emit (.actionAnswer ticket reply) rfl rfl
  · rwa [went]
  · rw [failed]
    exact sent.trans (of_eq rfl)

/-- Commands that concern what is indoors have nothing done about links. -/
theorem apply (n : Node) {command : NodeCommand} (inside : ¬ command.IsOutdoors) :
    n.Utters (n.apply command) := by
  cases command with
  | link => exact absurd trivial inside
  | loaded => exact absurd trivial inside
  | shutDown => exact absurd trivial inside
  | openSession number node queue =>
    simp only [Node.apply, openSession]
    split
    · exact of_eq rfl
    · split <;> exact of_eq rfl
  | sessionRequest number request =>
    simp only [Node.apply]
    split
    · cases request <;> exact of_eq rfl
    · exact of_eq rfl
  | closeSession number => exact closeSession n number
  | refresh => exact refresh n
  | invoke node action args ticket => exact invoke n node action args ticket
  | tellCacheStale cache data =>
    simp only [Node.apply, Node.tellCacheStale]
    split
    · exact of_eq rfl
    · exact publish n _
  | _ => exact of_eq rfl

end Utters

theorem attemptOf_congr
    (same : n'.links[peer]?.map Link.face = n.links[peer]?.map Link.face) :
    n'.attemptOf peer = n.attemptOf peer := by
  have generations := congrArg (Option.map Link.generation) same
  rw [Option.map_map, Option.map_map] at generations
  exact congrArg (·.getD 0) generations

theorem IsUp.congr (same : n'.links[peer]?.map Link.face = n.links[peer]?.map Link.face)
    (up : n.IsUp peer) : n'.IsUp peer := by
  obtain ⟨link, found, state⟩ := up
  rw [found, Option.map_some, Option.map_eq_some_iff] at same
  obtain ⟨link', found', face⟩ := same
  have states : link'.face.state = link.face.state := congrArg Link.state face
  exact ⟨link', found', fun down => state (states.symm.trans down)⟩

theorem isCurrent_iff {link : Link} (generation : Nat) : link.isCurrent generation = true ↔
    generation = link.generation ∧ link.state ≠ .disconnected := by
  simp [Link.isCurrent]

namespace Tracks

theorem refl (n : Node) : n.Tracks peer n :=
  ⟨[], by rw [List.append_nil], trivial, rfl, fun _ up => up⟩

theorem trans (first : Tracks peer n n') (second : Tracks peer n' n'') : Tracks peer n n'' := by
  obtain ⟨effects, grown, numbered, count, down⟩ := first
  obtain ⟨more, grown', numbered', count', down'⟩ := second
  rw [count] at numbered' count'
  refine ⟨effects ++ more, by rw [grown', grown, List.append_assoc],
    consecutive_append.2 ⟨numbered, numbered'⟩, by rw [count', attemptsAfter_append], ?_⟩
  intro none up
  exact down (fun effect there => none effect (List.mem_append_left _ there))
    (down' (fun effect there => none effect (List.mem_append_right _ there)) up)

theorem foldl {α : Type} {f : Node → α → Node} (each : ∀ n a, Tracks peer n (f n a)) (l : List α)
    (n : Node) : Tracks peer n (l.foldl f n) :=
  List.foldlRecOn _ _ (refl n) fun m tracks a _ => tracks.trans (each m a)

/-- Nothing is wanted about links, and no link comes up. -/
theorem of_utters (utters : n.Utters n') (count : n'.attemptOf peer = n.attemptOf peer)
    (down : n'.IsUp peer → n.IsUp peer) : Tracks peer n n' := by
  obtain ⟨effects, grown, spare⟩ := utters
  obtain ⟨same, numbered⟩ := attemptsAfter_of_sparesLinks peer spare (n.attemptOf peer)
  exact ⟨effects, grown, numbered, by rw [count, same], fun _ => down⟩

/-- Nothing is wanted about links, and the one to the peer stays what it is but for its mailbox. -/
theorem of_faces (utters : n.Utters n')
    (same : n'.links[peer]?.map Link.face = n.links[peer]?.map Link.face) : Tracks peer n n' :=
  of_utters utters (attemptOf_congr same) (.congr same.symm)

theorem of_indoors (indoors : n.Indoors n') (utters : n.Utters n') : Tracks peer n n' :=
  of_faces utters (indoors.faces peer)

/-- A link is replaced by one with the same number. -/
theorem insert {link link' : Link} (found : n.links[other]? = some link)
    (links : n'.links = n.links.insert other link') (outbox : n'.outbox = n.outbox)
    (generation : link'.generation = link.generation)
    (state : link'.state ≠ .disconnected → link.state ≠ .disconnected) : Tracks peer n n' := by
  by_cases same : other = peer
  · subst same
    have found' : n'.links[other]? = some link' := by
      rw [links, Std.ExtTreeMap.getElem?_insert_self]
    refine of_utters (.of_eq outbox) ?_ ?_
    · simp [attemptOf, found, found', generation]
    · rintro ⟨_, found'', up⟩
      obtain rfl := Option.some.inj (found'.symm.trans found'')
      exact ⟨link, found, state up⟩
  · refine of_faces (.of_eq outbox) ?_
    rw [links, Std.ExtTreeMap.getElem?_insert, if_neg (mt Std.compare_eq_iff_eq.1 same)]

/-- Dropping a link leaves its number as it is. -/
theorem linkDown (n : Node) (other : NodeName) : Tracks peer n (n.linkDown other) := by
  by_cases same : other = peer
  · subst same
    have found := getElem?_linkDown n other
    refine of_utters (.of_eq rfl) ?_ ?_
    · rw [attemptOf, found, Option.map_map]
      rfl
    · rintro ⟨link, found', up⟩
      rw [found, Option.map_eq_some_iff] at found'
      obtain ⟨_, -, rfl⟩ := found'
      exact absurd rfl up
  · refine of_faces (.of_eq rfl) ?_
    have kept : (n.linkDown other).links[peer]? = n.links[peer]? := by
      show (n.links.modify other _)[peer]? = _
      rw [Std.ExtTreeMap.getElem?_modify, if_neg (mt Std.compare_eq_iff_eq.1 same)]
    rw [kept]

theorem connect (n : Node) (now : Nat) (other : NodeName) :
    Tracks peer n (n.connect now other) := by
  cases found : n.links[other]? with
  | none =>
    rw [show n.connect now other = n by simp only [Node.connect, found]]
    exact refl n
  | some link =>
    rw [connect_eq found]
    have generation : (link.startConnecting now).attachTask.generation = link.generation + 1 := rfl
    by_cases same : other = peer
    · subst same
      have known : n.attemptOf other = link.generation := by simp [attemptOf, found]
      refine ⟨_, rfl, ⟨?_, trivial⟩, ?_, ?_⟩
      · rintro _ _ ⟨⟩
        rw [known, generation]
      · simp [attemptOf, attemptsAfter, NodeEffect.connectsTo, found, generation]
      · intro none
        exact absurd (none _ List.mem_cons_self) (by simp [NodeEffect.connectsTo])
    · have kept : ∀ link', (n.links.insert other link')[peer]? = n.links[peer]? := fun link' => by
        rw [Std.ExtTreeMap.getElem?_insert, if_neg (mt Std.compare_eq_iff_eq.1 same)]
      refine ⟨_, rfl, ⟨?_, trivial⟩, ?_, ?_⟩
      · rintro _ _ ⟨⟩
        exact absurd rfl same
      · simp [attemptOf, attemptsAfter, NodeEffect.connectsTo, NodeEffect.forgets, kept, same]
      · rintro - ⟨link', found', up⟩
        exact ⟨link', (kept _).symm.trans found', up⟩

/-- With a peer that is forgotten the number of its latest attempt is gone. -/
theorem forget (n : Node) (other : NodeName) : Tracks peer n (n.forget other) := by
  cases found : n.links[other]? with
  | none =>
    rw [show n.forget other = n by simp only [Node.forget, found]]
    exact refl n
  | some link =>
    have links : (n.forget other).links = n.links.erase other := by
      simp only [Node.forget, found]
      rfl
    have outbox :
        (n.forget other).outbox = n.outbox ++ [.forgetPeer other link.logOff.2.queue] := by
      simp only [Node.forget, found]
      rfl
    refine ⟨_, outbox, ⟨?_, trivial⟩, ?_, ?_⟩
    · intro generation target same
      cases same
    · by_cases same : other = peer
      · subst same
        simp [attemptOf, attemptsAfter, NodeEffect.connectsTo, NodeEffect.forgets, links]
      · simp [attemptOf, attemptsAfter, NodeEffect.connectsTo, NodeEffect.forgets, links, same,
          Std.ExtTreeMap.getElem?_erase]
    · rintro - ⟨link', found', up⟩
      rw [links, Std.ExtTreeMap.getElem?_erase] at found'
      split at found'
      · cases found'
      · exact ⟨link', found', up⟩

/-- A record that is taken in makes a link to a peer that was not known, and starts no attempt by
itself. -/
theorem recording (n : Node) (record : NodeRecord) : Tracks peer n (n.recording record) := by
  cases found : n.links[record.name]? with
  | some link =>
    have links : (n.recording record).links =
        n.links.insert record.name (link.withRecord record n.config.region) := by
      simp [Node.recording, found]
    exact insert found links rfl rfl id
  | none =>
    refine of_utters (.of_eq rfl) ?_ ?_
    · by_cases same : record.name = peer
      · subst same
        simp [attemptOf, Node.recording, found, Link.fresh, Link.withRecord]
      · simp [attemptOf, Node.recording, Std.ExtTreeMap.getElem?_insert, same]
    · rintro ⟨link, found', up⟩
      simp only [Node.recording, found, Std.ExtTreeMap.getElem?_insert] at found'
      split at found'
      · obtain rfl := Option.some.inj found'
        exact absurd rfl up
      · exact ⟨link, found', up⟩

theorem noteRecord (now : Nat) (n : Node) (record : NodeRecord) :
    Tracks peer n (noteRecord now n record) := by
  have taken : Tracks peer n (n.recording record) := recording n record
  simp only [Node.noteRecord]
  split
  · exact taken
  · exact taken
  · exact taken.trans (connect _ now record.name)
  · exact (taken.trans (linkDown _ record.name)).trans (connect _ now record.name)

theorem loaded (n : Node) (now : Nat) (answer : Outcome (List NodeRecord)) :
    Tracks peer n (n.loaded now answer) := by
  have heard : ∀ refreshing refreshPending,
      Tracks peer n { n with refreshing, refreshPending } := fun _ _ => of_faces (.of_eq rfl) rfl
  unfold Node.loaded
  cases answer with
  | error failure => exact heard false n.refreshPending
  | ok records =>
    dsimp only
    have left : ∀ (peers : List NodeRecord) (gone : List NodeName), Tracks peer n
        (gone.foldl Node.forget
          (peers.foldl (Node.noteRecord now) { n with refreshing := false })) :=
      fun peers gone => ((heard false n.refreshPending).trans
        (foldl (noteRecord now) peers _)).trans (foldl forget gone _)
    have consulted : ∀ m : Node, Tracks peer m { m with refreshPending := false }.refresh := by
      intro m
      have settled : m.Utters { m with refreshPending := false } := .of_eq rfl
      exact of_faces (settled.trans (.refresh _)) ((Indoors.refresh _).faces peer)
    split
    · exact (left _ _).trans (consulted _)
    · exact left _ _

/-- A message of a link that is up starts no attempt, and brings up no other link. -/
theorem peerMessage {link : Link} (found : n.links[other]? = some link)
    (up : link.state ≠ .disconnected) (message : Message) :
    Tracks peer n (n.peerMessage other link message) := by
  cases message with
  | snapshot snapshot =>
    by_cases named : snapshot.nodeName = link.name
    · rw [peerMessage_snapshot named, Link.subscribe_of_named named]
      exact insert found rfl rfl rfl fun _ => up
    · rw [peerMessage_snapshot_of_ne named]
      exact linkDown n other
  | event sequence event =>
    by_cases new : link.state = .subscribed ∧ link.lastSequence < sequence
    · rw [peerMessage_event new, Link.acceptEvent_of_new new, peerEvent_keeps]
      exact insert found rfl rfl rfl fun _ => up
    · rw [peerMessage_event_of_old new]
      exact refl n
  | mappingResult requestId code value => exact of_faces (.of_eq rfl) rfl
  | actionResult requestId code value => exact of_faces (.of_eq rfl) rfl
  | refused code => exact linkDown n other

/-- Reports start no attempt, and bring up no link that is down. -/
theorem linkReport (n : Node) (other : NodeName) (generation : Nat) (report : LinkReport) :
    Tracks peer n (n.linkReport other generation report) := by
  unfold Node.linkReport
  split
  next => exact refl n
  next link found =>
    split
    next current =>
      have up : link.state ≠ .disconnected := ((isCurrent_iff _).1 current).2
      cases report with
      | connected capacity => exact insert found rfl rfl rfl fun _ => up
      | message message => exact peerMessage found up message
      | failed failure => exact linkDown n other
      | closed => exact linkDown n other
    next => exact refl n

theorem apply (n : Node) {command : NodeCommand} (lasting : ∀ now, command ≠ .shutDown now) :
    Tracks peer n (n.apply command) := by
  cases command with
  | link other generation report => exact linkReport n other generation report
  | loaded now answer => exact loaded n now answer
  | shutDown now => exact absurd rfl (lasting now)
  | _ => exact of_indoors (.apply n id) (.apply n id)

theorem advance {occurrence : Occurrence} (running : (n.advance occurrence).stopped = false) :
    Tracks peer n (n.advance occurrence) := by
  obtain ⟨before, lasting⟩ := running_of_advance running
  cases occurrence with
  | command command =>
    rw [Node.advance, step_of_running before]
    have applied : Tracks peer n (n.apply command) :=
      apply n fun now same => lasting now (congrArg _ same)
    exact applied.trans (of_indoors (.finish _) (.trans (.drain _) (.answerActions _)))
  | _ =>
    refine of_indoors (.advance n ?_) (.of_eq rfl)
    intro command same
    cases same

end Tracks

/-- As long as a node is running, its links follow what it wants done about them. -/
theorem tracks_after (peer : NodeName) {run : List Occurrence}
    (running : (n.after run).stopped = false) : Tracks peer n (n.after run) := by
  induction run generalizing n with
  | nil => exact .refl n
  | cons occurrence run ih =>
    have first : Tracks peer n (n.advance occurrence) := .advance (running_of_after running)
    exact first.trans (ih running)

/-- A node that shuts down drops all its links. -/
theorem down_shutDown (n : Node) (now : Nat) : ¬ (n.shutDown now).IsUp peer := by
  rintro ⟨link, found, up⟩
  rw [links_shutDown, Std.ExtTreeMap.getElem?_map, Option.map_eq_some_iff] at found
  obtain ⟨_, -, rfl⟩ := found
  exact up rfl

/-- Once a node has stopped, no link of it is up. -/
theorem down_of_stopped (running : n.stopped = false) {run : List Occurrence}
    (stopped : (n.after run).stopped = true) : ¬ (n.after run).IsUp peer := by
  have same : ∀ {m m' : Node}, m.Indoors m' → ¬ m.IsUp peer → ¬ m'.IsUp peer :=
    fun indoors down up => down (up.congr (indoors.faces peer).symm)
  refine of_stopped (Q := fun m => ¬ m.IsUp peer) ?_ ?_ running stopped
  · exact fun m now => same (.finish _) (m.down_shutDown now)
  · exact fun m occurrence around => same (.advance m around)

/-! ## What an attempt reports after it has ended -/

/-- The attempt to connect to a peer with this number, which was the effect wanted at this place,
has ended: another one was started since, or the link is down or gone. -/
def HasEnded (n : Node) (peer : NodeName) (generation place : Nat) : Prop :=
  n.outbox[place]?.any (·.starts peer generation) = true ∧
    ((n.outbox.drop (place + 1)).any (·.connectsTo peer) = true ∨ ¬ n.IsUp peer)

/-- What concerns the latest attempt concerns a link that is up and has the number given. -/
theorem current_iff {generation : Nat} :
    (∃ link, n.links[peer]? = some link ∧ link.isCurrent generation = true) ↔
      n.attemptOf peer = generation ∧ n.IsUp peer := by
  constructor
  · rintro ⟨link, found, current⟩
    obtain ⟨rfl, up⟩ := (isCurrent_iff generation).1 current
    exact ⟨by simp [attemptOf, found], link, found, up⟩
  · rintro ⟨rfl, link, found, up⟩
    exact ⟨link, found, (isCurrent_iff _).2 ⟨by simp [attemptOf, found], up⟩⟩

/-- Whatever an attempt reports is ignored just if it is not the latest one, or its connection is
not up. -/
theorem reports_ignored_iff (rested : n.Rested) (running : n.stopped = false) {generation : Nat} :
    (∀ report, n.step (.link peer generation report) = n) ↔
      ¬ (n.attemptOf peer = generation ∧ n.IsUp peer) := by
  rw [← current_iff]
  constructor
  · rintro ignored ⟨link, found, current⟩
    -- the end of its connection would not be ignored
    have closed : n.step (.link peer generation .closed) =
        (n.linkDown peer).drain.answerActions := by
      simp only [step_of_running running, Node.apply, linkReport, found, if_pos current]
    have down : ¬ (n.linkDown peer).IsUp peer := by
      rintro ⟨link', found', up⟩
      rw [getElem?_linkDown, found] at found'
      obtain rfl := Option.some.inj found'
      exact up rfl
    have up : n.IsUp peer := ⟨link, found, ((isCurrent_iff _).1 current).2⟩
    rw [← ignored .closed, closed] at up
    exact down (up.congr ((Indoors.finish _).faces peer).symm)
  · intro late report
    have nothing : n.linkReport peer generation report = n := by
      unfold linkReport
      split
      next => rfl
      next link found => rw [if_neg fun current => late ⟨link, found, current⟩]
    rw [step_of_running running, Node.apply, nothing, rested.finish]

/-- The number of the latest attempt is what the effects wanted so far say, and these are numbered
one after the other. -/
theorem Started.counted (started : n.Started) {run : List Occurrence}
    (running : (n.after run).stopped = false) (peer : NodeName) :
    Consecutive peer 0 (n.after run).outbox ∧
      (n.after run).attemptOf peer = attemptsAfter peer 0 (n.after run).outbox := by
  obtain ⟨effects, grown, numbered, count, -⟩ := tracks_after peer running
  obtain ⟨config, mappings, registered, outranks, port, now, -, -, -, rfl⟩ := started
  rw [grown]
  refine ⟨consecutive_append.2 ⟨⟨nofun, trivial⟩, numbered⟩, ?_⟩
  rw [count, attemptsAfter_append]
  rfl

/-- What was wanted before an attempt, the attempt, and what was wanted since. -/
theorem outbox_eq_of_starts {generation place : Nat}
    (began : n.outbox[place]?.any (·.starts peer generation) = true) :
    place < n.outbox.length ∧ ∃ target, n.outbox =
      n.outbox.take place ++ .connect peer generation target :: n.outbox.drop (place + 1) := by
  obtain ⟨effect, found, starts⟩ := (Option.any_eq_true _ _).1 began
  obtain ⟨bound, rfl⟩ := List.getElem?_eq_some_iff.1 found
  refine ⟨bound, ?_⟩
  have parts := List.take_append_drop place n.outbox
  rw [List.drop_eq_getElem_cons bound] at parts
  cases effect : n.outbox[place] with
  | connect other number target =>
    rw [effect] at starts parts
    obtain ⟨rfl, rfl⟩ : other = peer ∧ number = generation := by
      simpa [NodeEffect.starts] using starts
    exact ⟨target, parts.symm⟩
  | _ =>
    rw [effect] at starts
    cases starts

/-- The number of an attempt, and the number of the latest one, as the effects wanted tell. -/
theorem attemptOf_of_starts (started : n.Started) {run : List Occurrence}
    (running : (n.after run).stopped = false) {generation place : Nat}
    (began : (n.after run).outbox[place]?.any (·.starts peer generation) = true) :
    (n.after run).attemptOf peer =
      attemptsAfter peer generation ((n.after run).outbox.drop (place + 1)) := by
  obtain ⟨numbered, count⟩ := started.counted running peer
  obtain ⟨-, target, parts⟩ := outbox_eq_of_starts began
  rw [parts, consecutive_append] at numbered
  have number := numbered.2.1 generation target rfl
  rw [count, parts, attemptsAfter_append, ← parts, number]
  simp [attemptsAfter, NodeEffect.connectsTo]

/-- What an attempt reports after it has ended is ignored, whatever it is, but for one case: the
peer was forgotten since and is back, so many attempts were made since it was last forgotten that
the last of them has the number of the one that has ended, and its connection is up. -/
theorem late_reports_ignored_iff (started : n.Started) {run : List Occurrence} {peer : NodeName}
    {generation place : Nat} (ended : (n.after run).HasEnded peer generation place)
    (later : List Occurrence) :
    let m := n.after (run ++ later)
    let since := m.outbox.drop (place + 1)
    (∀ report, m.step (.link peer generation report) = m) ↔
      ¬ (since.any (·.forgets peer) = true ∧ attemptsAfter peer 0 since = generation ∧
        m.IsUp peer) := by
  obtain ⟨began, past⟩ := ended
  intro m since
  have rested : m.Rested := started.rested.after _
  cases stopped : m.stopped with
  | true =>
    refine ⟨fun _ back => down_of_stopped started.running stopped back.2.2, fun _ report => ?_⟩
    exact step_of_stopped stopped _
  | false =>
    have whole : m = (n.after run).after later := after_append n run later
    obtain ⟨more, grown, -, -, down⟩ :=
      tracks_after (n := n.after run) peer (whole ▸ stopped)
    rw [← whole] at grown down
    have bound := (outbox_eq_of_starts began).1
    have still : m.outbox[place]?.any (·.starts peer generation) = true := by
      rwa [grown, List.getElem?_append_left bound]
    have rest : since = (n.after run).outbox.drop (place + 1) ++ more := by
      simp only [since, grown]
      exact List.drop_append_of_le_length bound
    rw [reports_ignored_iff rested stopped, not_iff_not,
      attemptOf_of_starts started stopped still]
    constructor
    · rintro ⟨(same : attemptsAfter peer generation since = generation), up⟩
      obtain forgotten | none := forgotten_or_untried same
      · rw [attemptsAfter_of_forgotten (List.any_eq_true.1 forgotten)] at same
        exact ⟨forgotten, same, up⟩
      · -- nothing was tried since, so what was down at the end of the attempt still is
        rw [rest] at none
        obtain tried | gone := past
        · obtain ⟨effect, there, tried⟩ := List.any_eq_true.1 tried
          rw [none effect (List.mem_append_left _ there)] at tried
          cases tried
        · exact absurd
            (down (fun effect there => none effect (List.mem_append_right _ there)) up) gone
    · rintro ⟨forgotten, same, up⟩
      exact ⟨(attemptsAfter_of_forgotten (List.any_eq_true.1 forgotten) _).trans same, up⟩

/-- A run in which a peer moves to another port while the connection to it is up. -/
def movingRun : List Occurrence :=
  [.command (.loaded 10 (.ok [(NodeConfig.onLoopback "b").record 4001 10])),
    .command (.link "b" 1 (.connected 8)),
    .command (.loaded 20 (.ok [(NodeConfig.onLoopback "b").record 4002 20]))]

/-- The peer is tried again where it is now, and reports of the attempt before are ignored. -/
theorem late_reports_ignored_after_movingRun :
    (newcomer.after movingRun).HasEnded "b" 1 1 ∧
      let m := newcomer.after (movingRun ++ [.command (.link "b" 2 (.connected 8))])
      m.attemptOf "b" = 2 ∧ ∀ report, m.step (.link "b" 1 report) = m := by
  have ended : (newcomer.after movingRun).HasEnded "b" 1 1 :=
    ⟨by decide +kernel, .inl (by decide +kernel)⟩
  refine ⟨ended, by decide +kernel, ?_⟩
  exact (late_reports_ignored_iff newcomer_started ended _).2
    fun back => absurd back.1 (by decide +kernel)

/-- A run in which a peer turns up and is removed while the connection to it is up. -/
def partingRun : List Occurrence :=
  [.command (.loaded 10 (.ok [(NodeConfig.onLoopback "b").record 4001 10])),
    .command (.link "b" 1 (.connected 8)),
    .command (.loaded 20 (.ok []))]

theorem hasEnded_in_partingRun : (newcomer.after partingRun).HasEnded "b" 1 1 := by
  refine ⟨by decide +kernel, .inr ?_⟩
  rintro ⟨link, found, -⟩
  have gone : (newcomer.after partingRun).links["b"]? = none := by decide +kernel
  rw [found] at gone
  cases gone

/-- When the peer is back, the first attempt to connect to it has the number of the first one made
before. A snapshot that is still reported of that one is taken for what the peer holds now. -/
theorem late_report_takes_effect :
    newcomer.Started ∧ (newcomer.after partingRun).HasEnded "b" 1 1 ∧
      let back : Occurrence :=
        .command (.loaded 30 (.ok [(NodeConfig.onLoopback "b").record 4001 30]))
      let late : NodeCommand :=
        .link "b" 1 (.message (.snapshot ⟨"b", 10, .ofList [(⟨"disk", none⟩ : Lock)], 3⟩))
      let m := newcomer.after (partingRun ++ [back])
      m.locks.owner ⟨"disk", none⟩ = none ∧
        (m.step late).locks.owner ⟨"disk", none⟩ = some "b" :=
  ⟨newcomer_started, hasEnded_in_partingRun, by decide +kernel, by decide +kernel⟩

end Node

end Cohort

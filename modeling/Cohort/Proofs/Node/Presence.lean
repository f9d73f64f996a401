import Cohort.Proofs.Node.Moves

/-!
# Who is there

A node keeps track of the other nodes in several places: in the links to its peers, in the locks
that it notes of them, in the ring of the ministers, and in the followers that its locks wait for.
Between two commands these agree.

## Main definitions

* `Node.Acquainted`: what a node knows of its peers agrees.
* `Node.Governed`: the ministers are drawn from those that are there.
* `Node.Enrolled`: the followers are those who have a session open.
* `Node.Agreed`: all of it, in terms of links and sessions.

## Main statements

* `Node.Move.follows`: what a move does to the peers that are followed.
* `Node.Acquainted.move`, `Node.Governed.move`: every move keeps it so.
* `Node.parts_agree`: between two commands, what a node knows of the others agrees.
-/

namespace Cohort

namespace Node

variable {inOrder : Prop} {n n' : Node} {peer : NodeName} {link : Link}

/-! ## Peers -/

/-- What a node knows of its peers agrees: something is known of those that it follows, and their
locks are noted. -/
structure Acquainted (n : Node) : Prop where
  poised : n.locks.Poised
  named : ∀ {peer : NodeName} {link : Link}, n.links[peer]? = some link → link.name = peer
  known : ∀ {peer : NodeName} {link : Link}, n.links[peer]? = some link →
    (link.remote.isSome = true ↔ link.state = .subscribed)
  peerLocks : ∀ peer : NodeName,
    n.locks.peerLocks[peer]? = (n.links[peer]?.bind Link.remote).map RemoteNode.locks

theorem follows_iff :
    n.follows peer = true ↔ ∃ link, n.links[peer]? = some link ∧ link.state = .subscribed := by
  unfold follows
  cases found : n.links[peer]? with
  | none => simp
  | some link => simp [Link.isSubscribed]

/-- If links have the names of their peers, those that are followed are alive. -/
theorem mem_live_of_named
    (named : ∀ {peer : NodeName} {link : Link}, n.links[peer]? = some link → link.name = peer)
    (node : NodeName) : node ∈ n.live ↔ node = n.name ∨ n.follows node = true := by
  have followed : (∃ link ∈ n.links.values, link.isSubscribed = true ∧ link.name = node) ↔
      n.follows node = true := by
    simp only [values_eq_map_toList, List.mem_map, Prod.exists,
      Std.ExtTreeMap.mem_toList_iff_getElem?_eq_some, follows_iff]
    constructor
    · rintro ⟨link, ⟨peer, _, found, rfl⟩, subscribed, rfl⟩
      rw [named found]
      exact ⟨_, found, of_decide_eq_true subscribed⟩
    · rintro ⟨link, found, subscribed⟩
      exact ⟨link, ⟨node, link, found, rfl⟩, decide_eq_true subscribed, named found⟩
  rw [live, Std.ExtTreeSet.mem_ofList, List.contains_iff_mem, List.mem_cons, List.mem_map]
  simp only [List.mem_filter, and_assoc]
  rw [followed]

namespace Acquainted

theorem mem_live (acquainted : n.Acquainted) (node : NodeName) :
    node ∈ n.live ↔ node = n.name ∨ n.follows node = true :=
  mem_live_of_named acquainted.named node

/-- Nodes that follow the same peers have the same nodes for alive. -/
theorem live_eq (acquainted : n.Acquainted) (acquainted' : n'.Acquainted)
    (record : n'.record = n.record) (follows : ∀ peer, n'.follows peer = n.follows peer) :
    n'.live = n.live := by
  refine Std.ExtTreeSet.ext_mem fun node => ?_
  rw [acquainted.mem_live, acquainted'.mem_live, follows, name, name, record]

end Acquainted

/-- A link that comes out of what happens indoors is the same but for its mailbox. -/
theorem Indoors.exists_link (indoors : n.Indoors n') (found : n'.links[peer]? = some link) :
    ∃ before, n.links[peer]? = some before ∧ before.face = link.face := by
  have same := indoors.faces peer
  rw [found, Option.map_some, eq_comm, Option.map_eq_some_iff] at same
  exact same

theorem Indoors.follows (indoors : n.Indoors n') (peer : NodeName) :
    n'.follows peer = n.follows peer := by
  have seen : ∀ m : Node, m.follows peer =
      ((m.links[peer]?.map Link.face).map Link.isSubscribed).getD false := by
    intro m
    unfold Node.follows
    cases m.links[peer]? <;> rfl
  rw [seen, seen, indoors.faces]

theorem Acquainted.indoors (acquainted : n.Acquainted) (indoors : n.Indoors n') :
    n'.Acquainted := by
  obtain ⟨poised, same⟩ := indoors.locks acquainted.poised
  refine ⟨poised, fun found => ?_, fun found => ?_, fun peer => ?_⟩
  · obtain ⟨before, there, face⟩ := indoors.exists_link found
    rw [← acquainted.named there]
    exact (congrArg Link.name face).symm
  · obtain ⟨before, there, face⟩ := indoors.exists_link found
    have known := acquainted.known there
    change before.face.remote.isSome = true ↔ before.face.state = .subscribed at known
    rw [face] at known
    exact known
  · have seen : ∀ m : Node, m.links[peer]?.bind Link.remote =
        (m.links[peer]?.map Link.face).bind Link.remote := by
      intro m
      cases m.links[peer]? <;> rfl
    rw [same, acquainted.peerLocks, seen, seen, indoors.faces]

/-- A node stays acquainted with its peers if it is with the one about which something changed. -/
theorem Acquainted.relink (acquainted : n.Acquainted) (poised : n'.locks.Poised) (peer : NodeName)
    (links : ∀ other ≠ peer, n'.links[other]? = n.links[other]?)
    (peerLocks : ∀ other ≠ peer, n'.locks.peerLocks[other]? = n.locks.peerLocks[other]?)
    (met : ∀ link, n'.links[peer]? = some link →
      link.name = peer ∧ (link.remote.isSome = true ↔ link.state = .subscribed))
    (noted : n'.locks.peerLocks[peer]? =
      (n'.links[peer]?.bind Link.remote).map RemoteNode.locks) : n'.Acquainted := by
  refine ⟨poised, fun {other link} found => ?_, fun {other link} found => ?_, fun other => ?_⟩
  all_goals by_cases same : other = peer
  · subst same
    exact (met link found).1
  · exact acquainted.named ((links other same).symm.trans found)
  · subst same
    exact (met link found).2
  · exact acquainted.known ((links other same).symm.trans found)
  · rw [same]
    exact noted
  · rw [peerLocks other same, links other same]
    exact acquainted.peerLocks other

/-- The link to a peer changes, but not what is known of it. -/
theorem Acquainted.insert (acquainted : n.Acquainted) (named : link.name = peer)
    (known : link.remote.isSome = true ↔ link.state = .subscribed)
    (same : link.remote = n.links[peer]?.bind Link.remote) :
    { n with links := n.links.insert peer link }.Acquainted := by
  refine acquainted.relink acquainted.poised peer ?_ (fun _ _ => rfl) ?_ ?_
  · intro other ne
    simp [Std.ExtTreeMap.getElem?_insert, ne.symm]
  · intro there found
    obtain rfl := Option.some.inj (Std.ExtTreeMap.getElem?_insert_self.symm.trans found)
    exact ⟨named, known⟩
  · simp only [Std.ExtTreeMap.getElem?_insert_self, Option.bind_some, same]
    exact acquainted.peerLocks peer

/-- A peer is lost whose link is down, or gone. -/
theorem Acquainted.peerLost (acquainted : n.Acquainted) {links : Std.ExtTreeMap NodeName Link}
    (others : ∀ other ≠ peer, links[other]? = n.links[other]?)
    (down : ∀ link : Link, links[peer]? = some link →
      link.name = peer ∧ link.remote = none ∧ link.state = .disconnected) :
    (({ n with links } : Node).peerLost peer).Acquainted := by
  have lost := Arbitrator.step_publishes acquainted.poised (.peerDisconnected peer)
  have table : (n.locks.peerDisconnected peer).peerLocks = n.locks.peerLocks.erase peer :=
    lost.peerLocks
  refine acquainted.relink lost.poised peer others ?_ ?_ ?_
  · intro other ne
    show (n.locks.peerDisconnected peer).peerLocks[other]? = _
    simp [table, Std.ExtTreeMap.getElem?_erase, ne.symm]
  · intro link found
    obtain ⟨named, remote, state⟩ := down link found
    exact ⟨named, by simp [remote, state]⟩
  · show (n.locks.peerDisconnected peer).peerLocks[peer]? = (links[peer]?.bind _).map _
    have nothing : links[peer]?.bind Link.remote = none := by
      rw [Option.bind_eq_none_iff]
      exact fun link found => (down link found).2.1
    rw [table, nothing, Std.ExtTreeMap.getElem?_erase_self]
    rfl

/-- What an event changes is what it tells of the locks held. -/
theorem remoteAfter_eq (event : NodeEvent) (remote : RemoteNode) :
    remoteAfter event remote = { remote with locks := event.holding remote.locks } := by
  cases event <;> rfl

/-- The link to a peer that is followed after a new event of the peer. -/
theorem heard_link {sequence : Nat} {remote : RemoteNode}
    (new : link.state = .subscribed ∧ link.lastSequence < sequence)
    (knows : link.remote = some remote) (event : NodeEvent) :
    (link.acceptEvent sequence).2.updateRemote (remoteAfter event) =
      { link with
        lastSequence := sequence
        remote := some { remote with locks := event.holding remote.locks } } := by
  rw [Link.acceptEvent_of_new new, Link.updateRemote, knows, Option.map_some, remoteAfter_eq]

/-- What is noted of a peer after an event is what the peer holds after it. -/
theorem getElem?_notedAfter {table : Std.ExtTreeMap NodeName LockSet} {locks : LockSet}
    (known : table[peer]? = some locks) (event : NodeEvent) (other : NodeName) :
    (notedAfter table peer event)[other]? =
      if other = peer then some (event.holding locks) else table[other]? := by
  by_cases same : other = peer
  · subst same
    cases event <;> simp [notedAfter, NodeEvent.holding, known]
  · cases event <;> simp [notedAfter, Std.ExtTreeMap.getElem?_insert,
      Std.ExtTreeMap.getElem?_modify, same, Ne.symm same]

/-- A peer that is followed tells what it holds, or that this has changed. -/
theorem Acquainted.told (acquainted : n.Acquainted) {remote : RemoteNode}
    (named : link.name = peer) (knows : link.remote = some remote)
    (following : link.state = .subscribed) (poised : n'.locks.Poised)
    (links : n'.links = n.links.insert peer link)
    (peerLocks : ∀ other : NodeName, n'.locks.peerLocks[other]? =
      if other = peer then some remote.locks else n.locks.peerLocks[other]?) : n'.Acquainted := by
  refine acquainted.relink poised peer ?_ ?_ ?_ ?_
  · intro other ne
    simp [links, Std.ExtTreeMap.getElem?_insert, ne.symm]
  · intro other ne
    rw [peerLocks, if_neg ne]
  · intro there found
    rw [links, Std.ExtTreeMap.getElem?_insert_self] at found
    obtain rfl := Option.some.inj found
    exact ⟨named, by simp [knows, following]⟩
  · rw [peerLocks, if_pos rfl, links, Std.ExtTreeMap.getElem?_insert_self, Option.bind_some, knows,
      Option.map_some]

theorem Acquainted.followed {snapshot : Snapshot} (acquainted : n.Acquainted)
    (found : n.links[peer]? = some link) (named : snapshot.nodeName = link.name) :
    ({ n with
      links := n.links.insert peer (link.subscribe snapshot).2
      locks := n.locks.peerSubscribed peer snapshot.locks } : Node).updateMinistry.Acquainted := by
  have begun := Arbitrator.step_publishes acquainted.poised (.peerSubscribed peer snapshot.locks)
  have table : (n.locks.peerSubscribed peer snapshot.locks).peerLocks =
      n.locks.peerLocks.insert peer snapshot.locks := begun.peerLocks
  have subscribed := Link.subscribe_of_named named
  have same := acquainted.named found
  have same : (link.subscribe snapshot).2.name = peer := by rwa [subscribed]
  refine acquainted.told same (congrArg Link.remote subscribed) (congrArg Link.state subscribed)
    begun.poised rfl fun other => ?_
  show (n.locks.peerSubscribed peer snapshot.locks).peerLocks[other]? = _
  rw [table, Std.ExtTreeMap.getElem?_insert]
  simp only [Std.compare_eq_iff_eq, eq_comm (a := peer)]

/-- An event changes what the link keeps and what the locks note in the same way. -/
theorem Acquainted.heard {sequence : Nat} (acquainted : n.Acquainted)
    (found : n.links[peer]? = some link)
    (new : link.state = .subscribed ∧ link.lastSequence < sequence) (event : NodeEvent) :
    (({ n with
      links := n.links.insert peer
        ((link.acceptEvent sequence).2.updateRemote (remoteAfter event)) } : Node).peerEvent peer
          event).Acquainted := by
  obtain ⟨remote, knows⟩ := Option.isSome_iff_exists.1 ((acquainted.known found).2 new.1)
  have noted : n.locks.peerLocks[peer]? = some remote.locks := by
    rw [acquainted.peerLocks, found, Option.bind_some, knows, Option.map_some]
  have news := heard_link new knows event
  generalize (link.acceptEvent sequence).2.updateRemote (remoteAfter event) = link' at news ⊢
  have named := acquainted.named found
  have named : link'.name = peer := by rwa [news]
  have heard := peerEvent_publishes (n := { n with links := n.links.insert peer link' })
    acquainted.poised peer event
  refine acquainted.told named (congrArg Link.remote news) ((congrArg Link.state news).trans new.1)
    heard.poised ?_ fun other => ?_
  · rw [peerEvent_keeps]
  · rw [heard.peerLocks]
    exact getElem?_notedAfter noted event other

/-- Every move keeps a node acquainted with its peers. -/
theorem Acquainted.move (acquainted : n.Acquainted) (orderly : inOrder) (move : n.Move inOrder n') :
    n'.Acquainted := by
  cases move with
  | noted => exact acquainted.indoors (.apart rfl rfl rfl rfl rfl rfl)
  | consulted => exact acquainted.indoors (.refresh n)
  | recorded record =>
    cases found : n.links[record.name]? with
    | none =>
      rw [recording, found]
      exact acquainted.insert rfl (by simp [Link.withRecord, Link.fresh])
        (by simp [found, Link.withRecord, Link.fresh])
    | some link =>
      rw [recording, found]
      have known := acquainted.known found
      exact acquainted.insert rfl known (by simp [found, Link.withRecord])
  | @tried now peer link found down =>
    have named := acquainted.named found
    have unknown : link.remote = none := by
      simpa [down] using acquainted.known found
    have tried : { n with
        links := n.links.insert peer (link.startConnecting now).attachTask }.Acquainted := by
      refine acquainted.insert named ?_ ?_
      · simp [Link.attachTask, Link.startConnecting, unknown]
      · simp [found, Link.attachTask, Link.startConnecting]
    rw [connect_eq found]
    exact tried.indoors (.apart rfl rfl rfl rfl rfl rfl)
  | @connected peer link capacity found connecting =>
    have named := acquainted.named found
    have unknown : link.remote = none := by
      simpa [connecting orderly] using acquainted.known found
    refine acquainted.insert named ?_ ?_
    · simp [Link.connected, unknown]
    · simp [found, Link.connected]
  | dropped peer =>
    refine acquainted.peerLost ?_ ?_
    · intro other ne
      simp [Std.ExtTreeMap.getElem?_modify, ne.symm]
    · intro link found
      rw [Std.ExtTreeMap.getElem?_modify_self, Option.map_eq_some_iff] at found
      obtain ⟨before, there, rfl⟩ := found
      have named := acquainted.named there
      exact ⟨named, rfl, rfl⟩
  | forgotten peer =>
    simp only [forget]
    split
    next => exact acquainted
    next link found =>
      have told : (n.emit (.forgetPeer peer link.logOff.2.queue)).Acquainted :=
        acquainted.indoors (.apart rfl rfl rfl rfl rfl rfl)
      refine told.peerLost ?_ ?_
      · intro other ne
        simp [Std.ExtTreeMap.getElem?_erase, ne.symm, emit_eq]
      · intro link found
        simp at found
  | followed snapshot found named => exact acquainted.followed found named
  | heard sequence event found following news =>
    exact acquainted.heard found ⟨following, news⟩ event
  | mappingResult => exact acquainted.indoors (.of_abides (.callCompleted _ _ _))
  | actionResult => exact acquainted.indoors (.apart rfl rfl rfl rfl rfl rfl)

/-! ## Ministers -/

/-- The ministers are drawn from those that are there, as many as was configured, but one at
least. -/
structure Governed (n : Node) : Prop where
  nodes : n.mappings.ring.nodes = n.mappings.ministers n.live
  count : n.mappings.ministerCount = max n.config.ministerCount 1

theorem follows_insert (n : Node) (peer : NodeName) (link : Link) (other : NodeName) :
    ({ n with links := n.links.insert peer link } : Node).follows other =
      if other = peer then link.isSubscribed else n.follows other := by
  by_cases same : other = peer
  · subst same
    simp [follows]
  · simp [follows, Std.ExtTreeMap.getElem?_insert, same, Ne.symm same]

/-- A link changes that is of a peer which is followed as before. -/
theorem follows_relink (same : link.isSubscribed = n.follows peer) (other : NodeName) :
    ({ n with links := n.links.insert peer link } : Node).follows other = n.follows other := by
  rw [follows_insert]
  split
  next eq => rw [same, eq]
  next => rfl

theorem abides_peerEvent (n : Node) (peer : NodeName) (event : NodeEvent) :
    n.mappings.Abides (n.peerEvent peer event).mappings := by
  cases event with
  | cacheData cache data =>
    simp only [peerEvent]
    split <;> exact .cacheData n.mappings cache data
  | _ => exact .refl _

/-- A move leaves it at the peers that are followed, or one more is followed, or one is lost. -/
theorem Move.follows (move : n.Move inOrder n') (orderly : inOrder) :
    ((∀ other, n'.follows other = n.follows other) ∧ n.mappings.Abides n'.mappings) ∨
      (∃ links locks, n' = ({ n with links, locks } : Node).updateMinistry ∧
        ∀ other, n.follows other = true → n'.follows other = true) ∨
      ∃ links outbox peer, n' = ({ n with links, outbox } : Node).peerLost peer ∧
        ∀ other ≠ peer, n'.follows other = n.follows other := by
  have lost : ∀ (links : Std.ExtTreeMap NodeName Link) (outbox : List NodeEffect)
      (peer other : NodeName), links[other]? = n.links[other]? →
        (({ n with links, outbox } : Node).peerLost peer).follows other = n.follows other := by
    intro links outbox peer other same
    have same : (({ n with links, outbox } : Node).peerLost peer).links[other]? = n.links[other]? :=
      same
    rw [Node.follows, Node.follows, same]
  cases move with
  | noted => exact .inl ⟨fun _ => rfl, .refl _⟩
  | consulted => exact .inl ⟨(Indoors.refresh n).follows, (Indoors.refresh n).abides⟩
  | recorded record =>
    refine .inl ⟨follows_relink ?_, .refl _⟩
    rw [Node.follows]
    cases n.links[record.name]? <;> rfl
  | @tried now peer link found down =>
    rw [connect_eq found]
    refine .inl ⟨follows_relink ?_, .refl _⟩
    simp [Node.follows, found, Link.isSubscribed, down, Link.startConnecting, Link.attachTask]
  | @connected peer link capacity found connecting =>
    refine .inl ⟨follows_relink ?_, .refl _⟩
    simp [Node.follows, found, Link.isSubscribed, connecting orderly, Link.connected]
  | dropped peer =>
    refine .inr (.inr ⟨_, n.outbox, peer, rfl, fun other ne => lost _ _ _ _ ?_⟩)
    simp [Std.ExtTreeMap.getElem?_modify, ne.symm]
  | forgotten peer =>
    simp only [forget]
    split
    · exact .inl ⟨fun _ => rfl, .refl _⟩
    · refine .inr (.inr ⟨_, _, peer, rfl, fun other ne => lost _ _ _ _ ?_⟩)
      simp [Std.ExtTreeMap.getElem?_erase, ne.symm]
  | @followed peer link snapshot found named =>
    refine .inr (.inl ⟨_, _, rfl, fun other following => ?_⟩)
    have inserted := follows_insert n peer (link.subscribe snapshot).2 other
    refine inserted.trans ?_
    split
    · rw [Link.subscribe_of_named named]
      rfl
    · exact following
  | @heard peer link sequence event found following news =>
    generalize taken : (link.acceptEvent sequence).2.updateRemote (remoteAfter event) = link'
    have same : link'.isSubscribed = n.follows peer := by
      rw [← taken, Link.acceptEvent_of_new ⟨following, news⟩, Node.follows, found]
      rfl
    refine .inl ⟨?_, abides_peerEvent { n with links := n.links.insert peer link' } peer event⟩
    rw [peerEvent_keeps]
    exact follows_relink same
  | mappingResult => exact .inl ⟨fun _ => rfl, .callCompleted _ _ _⟩
  | actionResult => exact .inl ⟨fun _ => rfl, .refl _⟩

namespace Governed

/-- Ministers stay what they are as long as the same peers are followed. -/
theorem of_follows (governed : n.Governed) (acquainted : n.Acquainted)
    (acquainted' : n'.Acquainted) (record : n'.record = n.record) (config : n'.config = n.config)
    (follows : ∀ peer, n'.follows peer = n.follows peer) (abides : n.mappings.Abides n'.mappings) :
    n'.Governed := by
  have live := acquainted.live_eq acquainted' record follows
  refine ⟨?_, ?_⟩
  · rw [live, abides.ring, governed.nodes, MappingService.ministers, MappingService.ministers,
      abides.ministerCount]
  · rw [abides.ministerCount, config]
    exact governed.count

theorem indoors (governed : n.Governed) (acquainted : n.Acquainted) (indoors : n.Indoors n') :
    n'.Governed :=
  governed.of_follows acquainted (acquainted.indoors indoors) indoors.record indoors.config
    indoors.follows indoors.abides

/-- Ministers that were just drawn are drawn from those that are there. -/
theorem of_updateMinistry (count : n.mappings.ministerCount = max n.config.ministerCount 1) :
    n.updateMinistry.Governed := by
  have kept : n.updateMinistry.mappings.ministerCount = n.mappings.ministerCount := by
    show (n.mappings.updateMinistry n.live).ministerCount = _
    rw [MappingService.updateMinistry_eq,
      (MappingService.Abides.resumeHandOffs _).ministerCount, MappingService.governed]
    split <;> rfl
  refine ⟨?_, kept.trans count⟩
  rw [MappingService.ministers, kept]
  exact MappingService.nodes_updateMinistry n.mappings n.live

theorem peerLost (governed : n.Governed) (links : Std.ExtTreeMap NodeName Link)
    (outbox : List NodeEffect) (peer : NodeName) :
    (({ n with links, outbox } : Node).peerLost peer).Governed := by
  refine of_updateMinistry ?_
  rw [← governed.count]
  exact (MappingService.Abides.peerDisconnected n.mappings peer).ministerCount

/-- Every move keeps the ministers in accord with those that are there. -/
theorem move (governed : n.Governed) (acquainted : n.Acquainted) (orderly : inOrder)
    (move : n.Move inOrder n') : n'.Governed := by
  have outdoors := move.outdoors
  have acquainted' := acquainted.move orderly move
  obtain ⟨same, abides⟩ | ⟨links, locks, rfl, -⟩ | ⟨links, outbox, peer, rfl, -⟩ :=
    move.follows orderly
  · exact governed.of_follows acquainted acquainted' outdoors.record outdoors.config same abides
  · exact of_updateMinistry governed.count
  · exact governed.peerLost links outbox peer

end Governed

/-! ## Followers -/

/-- The locks wait for the nodes that have a session open. -/
structure Enrolled (n : Node) : Prop where
  poised : n.locks.Poised
  subscribers : ∀ node, node ∈ n.locks.subscribers ↔ n.hasSession node = true

theorem hasSession_iff {node : NodeName} : n.hasSession node = true ↔
    ∃ number : Nat, n.sessions[number]?.map Session.node = some node := by
  simp only [hasSession, List.any_eq_true, values_eq_map_toList, List.mem_map, Prod.exists,
    Std.ExtTreeMap.mem_toList_iff_getElem?_eq_some, decide_eq_true_eq, Option.map_eq_some_iff]
  constructor
  · rintro ⟨_, ⟨number, session, found, rfl⟩, same⟩
    exact ⟨number, session, found, same⟩
  · rintro ⟨number, session, found, same⟩
    exact ⟨session, ⟨number, session, found, rfl⟩, same⟩

namespace Enrolled

/-- Sessions may be told something, and the locks may do something that does not concern who
follows. -/
theorem congr (enrolled : n.Enrolled)
    (sessions : ∀ number : Nat,
      n'.sessions[number]?.map Session.node = n.sessions[number]?.map Session.node)
    (poised : n'.locks.Poised) (subscribers : n'.locks.subscribers = n.locks.subscribers) :
    n'.Enrolled := by
  refine ⟨poised, fun node => ?_⟩
  rw [subscribers, enrolled.subscribers, hasSession_iff, hasSession_iff]
  simp only [sessions]

theorem of_publishes (enrolled : n.Enrolled) (sessions : n'.sessions = n.sessions)
    (locks : n.locks.Publishes n'.locks) : n'.Enrolled :=
  enrolled.congr (fun _ => by rw [sessions]) locks.poised locks.subscribers

theorem of_eq (enrolled : n.Enrolled) (sessions : n'.sessions = n.sessions)
    (locks : n'.locks = n.locks) : n'.Enrolled := by
  refine enrolled.of_publishes sessions ?_
  rw [locks]
  exact .refl enrolled.poised

/-- With its last session, a node is no longer waited for. -/
theorem closeSession (enrolled : n.Enrolled) (number : Nat) :
    (n.closeSession number).Enrolled := by
  cases found : n.sessions[number]? with
  | none => rwa [closeSession_of_closed found]
  | some session =>
    have left : ∀ node ≠ session.node, (({ n with sessions := n.sessions.erase number } :
        Node).hasSession node = true ↔ n.hasSession node = true) := by
      intro node ne
      simp only [hasSession_iff, Std.ExtTreeMap.getElem?_erase, Std.compare_eq_iff_eq]
      refine exists_congr fun k => ?_
      by_cases same : number = k
      · subst same
        simp [found, ne.symm]
      · simp [same]
    -- the node is waited for as long as another session of it is open
    rw [closeSession_of_open found]
    dsimp only
    split
    next more =>
      refine ⟨enrolled.poised, fun node => ?_⟩
      show node ∈ n.locks.subscribers ↔ _
      rw [enrolled.subscribers]
      by_cases last : node = session.node
      · rw [last]
        exact iff_of_true (hasSession_iff.2 ⟨number, by rw [found]; rfl⟩) more
      · exact (left node last).symm
    next none =>
      have parted := Arbitrator.step_publishes enrolled.poised (.removeSubscriber session.node)
      have followers : (n.locks.removeSubscriber session.node).subscribers =
          n.locks.subscribers.erase session.node := parted.subscribers
      refine ⟨parted.poised, fun node => ?_⟩
      show node ∈ (n.locks.removeSubscriber session.node).subscribers ↔
        ({ n with sessions := n.sessions.erase number } : Node).hasSession node = true
      rw [followers, Std.ExtTreeSet.mem_erase, enrolled.subscribers]
      by_cases last : node = session.node
      · rw [last]
        simpa using none
      · simpa [Ne.symm last] using (left node last).symm

/-- A session opens under a number of its own. -/
theorem openSession (enrolled : n.Enrolled) {number : Nat} (new : number ∉ n.sessions)
    (node : NodeName) (queue : Mailbox Message) : (n.openSession number node queue).Enrolled := by
  have nobody : n.sessions[number]? = none := Std.ExtTreeMap.getElem?_eq_none new
  unfold Node.openSession
  split
  next => exact enrolled
  next queue _ =>
    have hosts : ∀ (m : Node) (other : NodeName), m.sessions = n.sessions →
        (({ m with sessions := m.sessions.insert number ⟨node, queue⟩ } : Node).hasSession other =
          true ↔ other = node ∨ n.hasSession other = true) := by
      intro m other same
      simp only [hasSession_iff, same, Std.ExtTreeMap.getElem?_insert, Std.compare_eq_iff_eq]
      constructor
      · rintro ⟨k, hosted⟩
        by_cases eq : number = k
        · left
          simpa [eq] using hosted.symm
        · right
          exact ⟨k, by simpa [eq] using hosted⟩
      · rintro (rfl | ⟨k, hosted⟩)
        · exact ⟨number, by simp⟩
        · refine ⟨k, ?_⟩
          have other : number ≠ k := by
            rintro rfl
            simp [nobody] at hosted
          simpa [other] using hosted
    split
    next already =>
      refine ⟨enrolled.poised, fun other => ?_⟩
      rw [hosts n other rfl, ← enrolled.subscribers]
      show other ∈ n.locks.subscribers ↔ _
      constructor
      · exact .inr
      · rintro (rfl | there)
        · exact (enrolled.subscribers _).2 already
        · exact there
    next =>
      refine ⟨enrolled.poised, fun other => ?_⟩
      rw [hosts { n with locks := n.locks.addSubscriber node } other rfl, ← enrolled.subscribers]
      show other ∈ n.locks.subscribers.insert node ↔ _
      rw [Std.ExtTreeSet.mem_insert, Std.compare_eq_iff_eq, eq_comm]

theorem publish (enrolled : n.Enrolled) (event : NodeEvent) : (n.publish event).Enrolled := by
  have offered : (n.offered event).Enrolled := by
    refine enrolled.congr (fun number => ?_) enrolled.poised rfl
    rw [offered, Std.ExtTreeMap.getElem?_map, Option.map_map]
    rfl
  rw [publish_eq]
  refine List.foldlRecOn _ _ offered ?_
  exact fun m enrolled number _ => enrolled.closeSession number

theorem sendToSession (enrolled : n.Enrolled) (number : Nat) (message : Message) :
    (n.sendToSession number message).Enrolled := by
  refine enrolled.congr (fun k => ?_) enrolled.poised rfl
  rw [Node.sendToSession, Std.ExtTreeMap.getElem?_modify]
  split
  next eq =>
    rw [Std.compare_eq_iff_eq.1 eq, Option.map_map]
    rfl
  next => rfl

theorem drain (enrolled : n.Enrolled) : n.drain.Enrolled := by
  refine drain_induction (P := fun _ _ m => m.Enrolled) ?_ ?_ ?_ enrolled
  · exact fun m enrolled => ⟨enrolled.poised, enrolled.subscribers⟩
  · intro effect _ _ m enrolled
    cases effect with
    | publish event => exact enrolled.publish event
    | ratify peer lock acquire =>
      simp only [lockEffect]
      rw [sendToPeer_keeps]
      exact enrolled.of_eq rfl rfl
    | _ => exact enrolled.of_eq rfl rfl
  · intro effect _ m enrolled
    cases effect with
    | broadcast event => exact enrolled.publish event
    | call peer requestId call =>
      obtain ⟨-, -, went⟩ | ⟨failure, failed⟩ := m.mappingEffect_call peer requestId call
      · rw [went, sendToSubscribed_keeps]
        exact enrolled.of_eq rfl rfl
      · rw [failed, sendToSubscribed_keeps]
        exact enrolled.of_eq rfl rfl
    | _ => exact enrolled.of_eq rfl rfl

theorem answerActions (enrolled : n.Enrolled) : n.answerActions.Enrolled := by
  rw [answerActions_eq]
  exact enrolled.of_eq rfl rfl

theorem sessionRequest (enrolled : n.Enrolled) (number : Nat) (session : Session)
    (request : Request) : (n.sessionRequest number session request).Enrolled := by
  cases request with
  | ratify lock acquire =>
    exact enrolled.of_publishes rfl (Arbitrator.step_publishes enrolled.poised (.ratify _ _ _))
  | mapping requestId call =>
    have handled : { n with mappings := (n.mappings.handleCall call).2 }.Enrolled :=
      enrolled.of_eq rfl rfl
    exact handled.sendToSession number _
  | nodeAction requestId action args => exact enrolled.sendToSession number _
  | subscribe credentials version => exact enrolled
  | logOff => exact enrolled

/-- Every command but the last keeps the followers in accord with the sessions. -/
theorem apply (enrolled : n.Enrolled) {command : NodeCommand}
    (new : ∀ number node queue, command = .openSession number node queue → number ∉ n.sessions)
    (lasting : ∀ now, command ≠ .shutDown now) : (n.apply command).Enrolled := by
  have moved : ∀ {inOrder : Prop} {m : Node}, n.Moves inOrder m → m.Enrolled := by
    intro inOrder m moves
    obtain ⟨peerLocks, publishes⟩ := moves.outdoors.locks enrolled.poised
    exact enrolled.congr (fun number => by rw [moves.outdoors.sessions]) publishes.poised
      publishes.subscribers
  cases command with
  | link peer generation report => exact moved (n.moves_apply trivial lasting)
  | loaded now answer => exact moved (n.moves_apply trivial lasting)
  | shutDown now => exact absurd rfl (lasting now)
  | openSession number node queue =>
    exact enrolled.openSession (new number node queue rfl) node queue
  | sessionRequest number request =>
    simp only [Node.apply]
    split
    · exact enrolled.sessionRequest number _ request
    · exact enrolled
  | closeSession number => exact enrolled.closeSession number
  | refresh =>
    have looked : n.Move True n.refresh := .consulted
    exact moved looked.moves
  | lockTimeout lock generation =>
    exact enrolled.of_publishes rfl (Arbitrator.step_publishes enrolled.poised (.timeout _ _))
  | acquire lock ticket =>
    exact enrolled.of_publishes rfl (Arbitrator.step_publishes enrolled.poised (.acquire _ _))
  | release lock ticket =>
    exact enrolled.of_publishes rfl (Arbitrator.step_publishes enrolled.poised (.release _ _))
  | query lock ticket =>
    exact enrolled.of_publishes rfl (Arbitrator.step_publishes enrolled.poised (.query _ _))
  | reacquire lock =>
    exact enrolled.of_publishes rfl (Arbitrator.step_publishes enrolled.poised (.reacquire _))
  | invoke node action args ticket =>
    simp only [Node.apply]
    obtain ⟨reply, answered⟩ | ⟨-, went | ⟨failure, failed⟩⟩ :=
      n.invoke_cases node action args ticket
    · rw [answered]
      exact enrolled.of_eq rfl rfl
    · rw [went, sendToPeer_keeps]
      exact enrolled.of_eq rfl rfl
    · rw [failed, sendToPeer_keeps]
      exact enrolled.of_eq rfl rfl
  | tellCacheStale cache data =>
    simp only [Node.apply, tellCacheStale]
    split
    · exact enrolled
    · exact enrolled.publish _
  | _ => exact enrolled.of_eq rfl rfl

/-- Whatever happens to a node, short of its end, keeps the followers in accord with the
sessions. -/
theorem advance (enrolled : n.Enrolled) {occurrence : Occurrence}
    (new : ∀ number node queue, occurrence = .command (.openSession number node queue) →
      number ∉ n.sessions)
    (lasting : ∀ now, occurrence ≠ .command (.shutDown now)) : (n.advance occurrence).Enrolled := by
  cases occurrence with
  | command command =>
    simp only [Node.advance]
    cases stopped : n.stopped with
    | true => rwa [step_of_stopped stopped]
    | false =>
      rw [step_of_running stopped]
      have applied := enrolled.apply
        (fun number node queue eq => new number node queue (congrArg Occurrence.command eq))
        fun now eq => lasting now (congrArg Occurrence.command eq)
      exact applied.drain.answerActions
  | sessionWriter number taken receiving =>
    refine enrolled.congr (fun k => ?_) enrolled.poised rfl
    simp only [Node.advance, Std.ExtTreeMap.getElem?_modify]
    split
    next eq =>
      rw [Std.compare_eq_iff_eq.1 eq, Option.map_map]
      rfl
    next => rfl
  | _ => exact enrolled.of_eq rfl rfl

end Enrolled

/-! ## Together -/

/-- What a node knows of the others agrees. -/
structure Agreed (n : Node) : Prop where
  /-- Something is known of exactly those peers that the node follows. -/
  remote : ∀ (peer : NodeName) (link : Link), n.links[peer]? = some link →
    (link.remote.isSome = true ↔ link.state = .subscribed)
  /-- The locks of exactly these peers are noted, as the peers told them. -/
  peerLocks : ∀ (peer : NodeName) (locks : LockSet), n.locks.peerLocks[peer]? = some locks ↔
    ∃ link remote, n.links[peer]? = some link ∧ link.state = .subscribed ∧
      link.remote = some remote ∧ remote.locks = locks
  live : ∀ node : NodeName, node ∈ n.live ↔
    node = n.name ∨ ∃ link, n.links[node]? = some link ∧ link.state = .subscribed
  /-- The ministers are the first few names of the node and these peers. -/
  ministers : n.mappings.ring.nodes = .ofList (n.live.toList.take (max n.config.ministerCount 1))
  /-- Consent is asked of exactly those nodes that have a session open. -/
  subscribers : ∀ node : NodeName, node ∈ n.locks.subscribers ↔
    ∃ (number : Nat) (session : Session), n.sessions[number]? = some session ∧ session.node = node

theorem Acquainted.agreed (acquainted : n.Acquainted) (governed : n.Governed)
    (enrolled : n.Enrolled) : n.Agreed where
  remote _ _ found := acquainted.known found
  peerLocks peer locks := by
    rw [acquainted.peerLocks]
    simp only [Option.map_eq_some_iff, Option.bind_eq_some_iff]
    constructor
    · rintro ⟨remote, ⟨link, found, knows⟩, holds⟩
      have following := (acquainted.known found).1 (by rw [knows]; rfl)
      exact ⟨link, remote, found, following, knows, holds⟩
    · rintro ⟨link, remote, found, -, knows, holds⟩
      exact ⟨remote, ⟨link, found, knows⟩, holds⟩
  live node := by rw [acquainted.mem_live, follows_iff]
  ministers := by rw [governed.nodes, MappingService.ministers, governed.count]
  subscribers node := by
    rw [enrolled.subscribers, hasSession_iff]
    simp only [Option.map_eq_some_iff]

/-- A node that was just started knows nobody but itself. -/
theorem Started.acquainted (started : n.Started) :
    n.Acquainted ∧ n.Governed ∧ n.Enrolled := by
  obtain ⟨config, mappings, registered, outranks, port, now, configured, named, count, rfl⟩ :=
    started
  have poised := Arbitrator.poised_fresh config.nodeName outranks
  have acquainted : (assemble config mappings { NodeActions.fresh with actions := registered }
      outranks port now).Acquainted := by
    refine ⟨poised, fun found => ?_, fun found => ?_, fun peer => ?_⟩
    · simp [assemble] at found
    · simp [assemble] at found
    · simp [assemble, Arbitrator.fresh]
  have governed : (assemble config mappings { NodeActions.fresh with actions := registered }
      outranks port now).Governed := by
    refine ⟨?_, count⟩
    obtain ⟨ring, positive⟩ := configured.alone
    obtain ⟨more, counted⟩ := Nat.exists_eq_succ_of_ne_zero (Nat.ne_of_gt positive)
    have alone : (assemble config mappings { NodeActions.fresh with actions := registered }
        outranks port now).live.toList = [config.nodeName] := rfl
    rw [MappingService.ministers, alone]
    show mappings.ring.nodes = .ofList (List.take mappings.ministerCount [config.nodeName])
    rw [ring, named, counted, List.take_succ_cons, List.take_nil]
    rfl
  refine ⟨acquainted.indoors (.refresh _), governed.indoors acquainted (.refresh _), ?_⟩
  have nobody : (assemble config mappings { NodeActions.fresh with actions := registered }
      outranks port now).Enrolled := by
    refine ⟨poised, fun node => ?_⟩
    rw [hasSession_iff]
    simp [assemble, Arbitrator.fresh]
  exact nobody.of_eq rfl rfl

/-- Whatever happens to a node, short of its end, keeps what it knows of the others in accord. -/
theorem Acquainted.advance (acquainted : n.Acquainted) (governed : n.Governed)
    (enrolled : n.Enrolled) {occurrence : Occurrence} (orderly : n.Orderly occurrence)
    (lasting : ∀ now, occurrence ≠ .command (.shutDown now)) :
    (n.advance occurrence).Acquainted ∧ (n.advance occurrence).Governed ∧
      (n.advance occurrence).Enrolled := by
  have enrolled' := enrolled.advance orderly.sessions lasting
  by_cases commanded : ∃ command, occurrence = .command command
  · obtain ⟨command, rfl⟩ := commanded
    have lasting : ∀ now, command ≠ .shutDown now := fun now eq => lasting now (eq ▸ rfl)
    simp only [Node.advance] at enrolled' ⊢
    cases stopped : n.stopped with
    | true =>
      rw [step_of_stopped stopped]
      exact ⟨acquainted, governed, enrolled⟩
    | false =>
      rw [step_of_running stopped] at enrolled' ⊢
      have applied : (n.apply command).Acquainted ∧ (n.apply command).Governed := by
        by_cases outside : command.IsOutdoors
        · refine (n.moves_apply outside lasting).keeps (P := fun m => m.Acquainted ∧ m.Governed)
            ?_ ⟨acquainted, governed⟩
          intro m m' move kept
          exact ⟨kept.1.move orderly.links move, kept.2.move kept.1 orderly.links move⟩
        · have indoors := Indoors.apply n outside
          exact ⟨acquainted.indoors indoors, governed.indoors acquainted indoors⟩
      have finish := Indoors.finish (n.apply command)
      exact ⟨applied.1.indoors finish, applied.2.indoors applied.1 finish, enrolled'⟩
  · have indoors := Indoors.advance n fun command eq => commanded ⟨command, eq⟩
    exact ⟨acquainted.indoors indoors, governed.indoors acquainted indoors, enrolled'⟩

/-- Between two commands, what a node knows of the others agrees. -/
theorem parts_agree (started : n.Started) {run : List Occurrence}
    (orderly : n.Throughout Orderly run) (running : (n.after run).stopped = false) :
    (n.after run).Agreed := by
  have kept : (n.after run).stopped = false →
      (n.after run).Acquainted ∧ (n.after run).Governed ∧ (n.after run).Enrolled := by
    refine after_induction (Q := fun m => m.stopped = false →
      m.Acquainted ∧ m.Governed ∧ m.Enrolled) ?_ (fun _ => started.acquainted) orderly
    intro m occurrence agreed orderly running
    obtain ⟨before, lasting⟩ := running_of_advance running
    obtain ⟨acquainted, governed, enrolled⟩ := agreed before
    exact acquainted.advance governed enrolled orderly lasting
  obtain ⟨acquainted, governed, enrolled⟩ := kept running
  exact acquainted.agreed governed enrolled

/-- A node that knows nobody yet. -/
def newcomer : Node :=
  (assemble (.onLoopback "a") (.fresh "a" 1) .fresh .byName 4000 0).start

theorem newcomer_started : newcomer.Started :=
  ⟨.onLoopback "a", .fresh "a" 1, ∅, .byName, 4000, 0, .fresh "a" 1, rfl, rfl, rfl⟩

/-- A run in which a peer turns up, tells what it holds, and follows the node in turn. -/
def meetingRun : List Occurrence :=
  [.command (.loaded 10 (.ok [(NodeConfig.onLoopback "b").record 4001 10])),
    .command (.link "b" 1 (.connected 8)),
    .command (.link "b" 1 (.message (.snapshot ⟨"b", 10, .ofList [(⟨"disk", none⟩ : Lock)], 3⟩))),
    .command (.openSession 1 "b" (.fresh 8))]

theorem meetingRun_orderly : newcomer.Throughout Orderly meetingRun := by
  refine ⟨⟨trivial, nofun⟩, ⟨fun link found _ => ?_, nofun⟩, ⟨trivial, nofun⟩, ⟨trivial, ?_⟩,
    trivial⟩
  · have state : (newcomer.after (meetingRun.take 1)).links["b"]?.map Link.state =
        some .connecting := by decide +kernel
    simp only [meetingRun, List.take, after, List.foldl] at state
    rw [found] at state
    exact Option.some.inj state
  · rintro _ _ _ ⟨⟩
    show 1 ∉ (newcomer.after (meetingRun.take 3)).sessions
    decide +kernel

theorem parts_agree_in_meetingRun : newcomer.Throughout Orderly meetingRun ∧
    (newcomer.after meetingRun).stopped = false ∧ (newcomer.after meetingRun).Agreed :=
  ⟨meetingRun_orderly, by decide +kernel,
    parts_agree newcomer_started meetingRun_orderly (by decide +kernel)⟩

end Node

end Cohort

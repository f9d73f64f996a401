import Cohort.Proofs.Mapping.Desertion
import Cohort.Proofs.Node.Operations

/-!
# Peers that are lost

When a node loses a peer, nothing is left of it: none of its locks, no call that waits for it, and
no place among the ministers. Whoever waited for it is told, and nothing that was handed to it is
lost. It stays so while other peers are lost, and while attempts to connect start.

## Main definitions

* `Node.Oriented`: links bear the names of peers, and what the node keeps itself is in order.
* `Node.Severed`: nothing is left of a peer.
* `Node.Sheds`: peers are lost, and nothing else is.
* `Node.Deserted`: a peer was lost, and those who waited for it were told.

## Main statements

* `Node.Sheds.peerLost`, `Node.Oriented.severed_peerLost`: what becomes of a peer that is lost, and
  of the others.
* `Node.Sheds.deserted`: what was lost on the way is not forgotten.
-/

namespace Cohort

namespace Node

variable {n n' n'' : Node} {peer other : NodeName} {link : Link}

/-! ## Orientation -/

/-- Links bear the names of their peers, none of which is the node itself. What the node keeps
itself is its own and in order. -/
structure Oriented (n : Node) : Prop where
  named : ∀ {peer : NodeName} {link : Link}, n.links[peer]? = some link →
    link.name = peer ∧ peer ≠ n.name
  locks : n.locks.node = n.name
  sound : n.mappings.Sound
  ring : n.mappings.ring = .ofNodes Ring.defaultShare n.mappings.ring.nodes

/-- The records of peers do not change by what happens indoors. -/
theorem Indoors.records (indoors : n.Indoors n') (peer : NodeName) :
    n'.links[peer]?.map Link.record = n.links[peer]?.map Link.record := by
  have seen : ∀ m : Node, m.links[peer]?.map Link.record =
      (m.links[peer]?.map Link.face).map Link.record := by
    intro m
    rw [Option.map_map]
    rfl
  rw [seen, seen, indoors.faces]

namespace Oriented

theorem mem_live (oriented : n.Oriented) (node : NodeName) :
    node ∈ n.live ↔ node = n.name ∨ n.follows node = true :=
  mem_live_of_named (fun found => (oriented.named found).1) node

/-- What a node does to its locks and mappings leaves it oriented, if its links stay those of the
same peers. -/
theorem operates (oriented : n.Oriented) (operates : n.Operates n') (record : n'.record = n.record)
    (same : ∀ peer : NodeName, n'.links[peer]?.map Link.record = n.links[peer]?.map Link.record) :
    n'.Oriented where
  named {peer link} found := by
    have same := same peer
    rw [found, Option.map_some, eq_comm, Option.map_eq_some_iff] at same
    obtain ⟨before, there, same⟩ := same
    rw [name, record, Link.name, ← same]
    exact oriented.named there
  locks := by rw [operates.node, oriented.locks, name, name, record]
  sound := operates.sound oriented.sound
  ring := operates.ring oriented.ring

theorem indoors (oriented : n.Oriented) (indoors : n.Indoors n') (operates : n.Operates n') :
    n'.Oriented :=
  oriented.operates operates indoors.record indoors.records

end Oriented

/-- A link changes that stays the link to the same peer. -/
theorem record_insert {link' : Link} (found : n.links[peer]? = some link)
    (same : link'.record = link.record) (other : NodeName) :
    (n.links.insert peer link')[other]?.map Link.record = n.links[other]?.map Link.record := by
  rw [Std.ExtTreeMap.getElem?_insert]
  split
  next eq => rw [← Std.compare_eq_iff_eq.1 eq, found, Option.map_some, Option.map_some, same]
  next => rfl

theorem record_linkDown (n : Node) (peer other : NodeName) :
    (n.linkDown peer).links[other]?.map Link.record = n.links[other]?.map Link.record := by
  show (n.links.modify peer _)[other]?.map Link.record = _
  rw [Std.ExtTreeMap.getElem?_modify]
  split
  next eq =>
    rw [Std.compare_eq_iff_eq.1 eq, Option.map_map]
    rfl
  next => rfl

theorem record_peerMessage {link : Link} (found : n.links[peer]? = some link) (message : Message)
    (other : NodeName) : (n.peerMessage peer link message).links[other]?.map Link.record =
      n.links[other]?.map Link.record := by
  cases message with
  | snapshot snapshot =>
    by_cases named : snapshot.nodeName = link.name
    · rw [peerMessage_snapshot named, Link.subscribe_of_named named]
      refine record_insert found ?_ other
      rfl
    · rw [peerMessage_snapshot_of_ne named]
      exact record_linkDown n peer other
  | event sequence event =>
    by_cases new : link.state = .subscribed ∧ link.lastSequence < sequence
    · rw [peerMessage_event new, Link.acceptEvent_of_new new, peerEvent_keeps]
      refine record_insert found ?_ other
      rfl
    · rw [peerMessage_event_of_old new]
  | refused code => exact record_linkDown n peer other
  | _ => rfl

/-- What a link reports does not concern the records of peers. -/
theorem record_linkReport (n : Node) (peer : NodeName) (generation : Nat) (report : LinkReport)
    (other : NodeName) : (n.linkReport peer generation report).links[other]?.map Link.record =
      n.links[other]?.map Link.record := by
  unfold linkReport
  split
  next => rfl
  next link found =>
    split
    next =>
      cases report with
      | connected capacity =>
        have same : (link.connected capacity).record = link.record := rfl
        exact record_insert found same other
      | failed failure => exact record_linkDown n peer other
      | closed => exact record_linkDown n peer other
      | message message => exact record_peerMessage found message other
    next => rfl

theorem record_logOff (link : Link) : link.logOff.2.record = link.record := by
  unfold Link.logOff Link.send
  dsimp only
  split <;> rfl

theorem record_shutDown (n : Node) (now : Nat) (other : NodeName) :
    (n.shutDown now).links[other]?.map Link.record = n.links[other]?.map Link.record := by
  let passed := { n with mappings := n.mappings.flush now true }.drain
  have flushed : passed.links[other]?.map Link.record = n.links[other]?.map Link.record :=
    (Indoors.drain { n with mappings := n.mappings.flush now true }).records other
  have ended := (Indoors.drain { passed with locks := passed.locks.shutDown }).records other
  have same : (fun link : Link => link.logOff.2.record) = Link.record := funext record_logOff
  rw [links_shutDown, Std.ExtTreeMap.getElem?_map, Option.map_map, ← flushed, ← ended]
  exact congrArg (Option.map · _) same

/-! ## Peers that are lost -/

/-- Nothing is left of a peer. -/
structure Severed (n : Node) (peer : NodeName) : Prop where
  locks : n.locks.Forgets peer
  /-- No call waits for it. -/
  calls : ∀ (number : Nat) (call : PendingCall), n.mappings.pending[number]? = some call →
    call.peer ≠ peer
  actions : ∀ (number : Nat) (call : PendingAction), n.actions.pending[number]? = some call →
    call.peer ≠ peer
  /-- It is no minister. -/
  minister : peer ∉ n.mappings.ring.nodes
  unfollowed : n.follows peer = false

/-- Peers are lost, and attempts to connect start. Nothing is lost but that, and calls end only by
telling their callers. -/
structure Sheds (n n' : Node) : Prop where
  oriented : n'.Oriented
  record : n'.record = n.record
  config : n'.config = n.config
  outbox : ∃ effects, n'.outbox = n.outbox ++ effects
  mappings : n.mappings.Disappoints n'.mappings
  actions : n.actions.Disappoints n'.actions
  /-- What was handed off is kept here again, or handed on. -/
  keeps : ∀ (i : UInt16) (key : Bytes), n.mappings.Keeps i key (fun _ => False) →
    n'.mappings.Keeps i key fun _ => False
  severed : ∀ peer ≠ n.name, n.Severed peer → n'.Severed peer

namespace Sheds

theorem trans (first : n.Sheds n') (second : n'.Sheds n'') : n.Sheds n'' where
  oriented := second.oriented
  record := second.record.trans first.record
  config := second.config.trans first.config
  outbox := by
    obtain ⟨effects, grown⟩ := first.outbox
    obtain ⟨effects', grown'⟩ := second.outbox
    exact ⟨effects ++ effects', by rw [grown', grown, List.append_assoc]⟩
  mappings := first.mappings.trans second.mappings
  actions := first.actions.trans second.actions
  keeps i key kept := second.keeps i key (first.keeps i key kept)
  severed peer ne severed := by
    refine second.severed peer ?_ (first.severed peer ne severed)
    rwa [name, first.record]

/-- Only links change, and no peer is followed that was not. -/
theorem of_links (oriented : n.Oriented) (record : n'.record = n.record)
    (config : n'.config = n.config) (locks : n'.locks = n.locks)
    (mappings : n'.mappings = n.mappings) (actions : n'.actions = n.actions)
    (outbox : ∃ effects, n'.outbox = n.outbox ++ effects)
    (named : ∀ {peer : NodeName} {link : Link}, n'.links[peer]? = some link →
      link.name = peer ∧ peer ≠ n.name)
    (follows : ∀ peer, n'.follows peer = true → n.follows peer = true) : n.Sheds n' where
  oriented := by
    refine ⟨fun found => ?_, ?_, ?_, ?_⟩
    · rw [name, record]
      exact named found
    · rw [locks, name, record]
      exact oriented.locks
    · rw [mappings]
      exact oriented.sound
    · rw [mappings]
      exact oriented.ring
  record := record
  config := config
  outbox := outbox
  mappings := mappings ▸ .refl _ _
  actions := actions ▸ .refl _ _
  keeps i key kept := by rwa [mappings]
  severed peer ne severed := by
    refine ⟨?_, ?_, ?_, ?_, ?_⟩
    · rw [locks]
      exact severed.locks
    · rw [mappings]
      exact severed.calls
    · rw [actions]
      exact severed.actions
    · rw [mappings]
      exact severed.minister
    · exact Bool.eq_false_iff.2 fun following =>
        Bool.eq_false_iff.1 severed.unfollowed (follows peer following)

theorem of_refresh (oriented : n.Oriented) : n.Sheds n.refresh := by
  unfold refresh
  split
  · exact of_links oriented rfl rfl rfl rfl rfl ⟨[], (List.append_nil _).symm⟩ oriented.named
      fun _ => id
  · exact of_links oriented rfl rfl rfl rfl rfl ⟨_, rfl⟩ oriented.named fun _ => id

end Sheds

/-- When a peer is lost, the calls to it end, and what begins goes to nodes that are there. -/
theorem Oriented.peerLost_asks (oriented : n.Oriented) (peer : NodeName) :
    (n.mappings.peerDisconnected peer).Asks n.live (n.peerLost peer).mappings := by
  have sound := oriented.sound.step (.disconnect peer)
  have same := (MappingService.Abides.peerDisconnected n.mappings peer).ring
  have asks := MappingService.updateMinistry_asks sound.numbered
    (same.symm ▸ oriented.ring) n.live
  refine ⟨asks.disappoints, fun number call found => ?_⟩
  exact (asks.begun number call found).imp_right MappingService.mem_live_of_mem_ministers

/-- Of a peer that is lost nothing is left if it is not followed, and of one that was lost before
nothing comes back. -/
theorem Oriented.severed_peerLost (oriented : n.Oriented) (ne : other ≠ n.name)
    (unfollowed : n.follows other = false) (lost : other = peer ∨ n.Severed other) :
    (n.peerLost peer).Severed other := by
  have away : other ∉ n.live := by
    rw [oriented.mem_live, unfollowed]
    simp [ne]
  refine ⟨?_, fun number call found => ?_, fun number call found => ?_, fun minister => ?_,
    unfollowed⟩
  · by_cases same : other = peer
    · exact same ▸ n.locks.peerDisconnected_forgets other
    · have quiet : ¬ LockOp.Names other (.peerDisconnected peer) := Ne.symm same
      exact (lost.resolve_left same).locks.step (by rwa [oriented.locks]) quiet
  · rintro rfl
    obtain there | live := (oriented.peerLost_asks peer).begun number call found
    · obtain ⟨there, apart⟩ := MappingService.pending_peerDisconnected there
      obtain same | severed := lost
      · exact apart same
      · exact severed.calls number call there rfl
    · exact away live
  · rintro rfl
    obtain ⟨there, apart⟩ := NodeActions.pending_peerDisconnected found
    obtain same | severed := lost
    · exact apart same
    · exact severed.actions number call there rfl
  · have nodes : (n.peerLost peer).mappings.ring.nodes =
        (n.mappings.peerDisconnected peer).ministers n.live :=
      MappingService.nodes_updateMinistry _ _
    rw [nodes] at minister
    exact away (MappingService.mem_live_of_mem_ministers minister)

/-- What was handed off is not lost with a peer. -/
theorem Oriented.keeps_peerLost (oriented : n.Oriented) (peer : NodeName) {i : UInt16} {key : Bytes}
    (keeps : n.mappings.Keeps i key fun _ => False) :
    (n.peerLost peer).mappings.Keeps i key fun _ => False := by
  have disconnected : (n.mappings.step (.disconnect peer)).Keeps i key fun _ => False :=
    keeps.step oriented.sound List.not_mem_nil (fun _ => False.elim) fun _ _ => nofun
  have governed : ((n.mappings.step (.disconnect peer)).step (.govern n.live)).Keeps i key
      fun _ => False :=
    disconnected.step (oriented.sound.step (.disconnect peer)) List.not_mem_nil
      (fun _ => False.elim) fun _ _ => nofun
  exact governed

theorem Sheds.peerLost (oriented : n.Oriented) (peer : NodeName) : n.Sheds (n.peerLost peer) where
  oriented := oriented.operates (.peerLost rfl rfl peer) rfl fun _ => rfl
  record := rfl
  config := rfl
  outbox := ⟨[], (List.append_nil _).symm⟩
  mappings := .trans (n.mappings.disappoints_peerDisconnected peer)
    (oriented.peerLost_asks peer).disappoints
  actions := n.actions.disappoints_peerDisconnected peer
  keeps _ _ := oriented.keeps_peerLost peer
  severed _ ne severed := oriented.severed_peerLost ne severed.unfollowed (.inr severed)

/-! ## What was lost -/

/-- A peer was lost since: nothing is left of it, those who waited for it were told that it is not
available, and what had been handed to it is kept here, or was handed to somebody else. -/
structure Deserted (peer : NodeName) (n n' : Node) : Prop where
  severed : n'.Severed peer
  calls : ∀ (number : Nat) (ticket : Ticket),
    n.mappings.pending[number]? = some ⟨peer, .reply ticket⟩ →
      .answer ticket (.error .peerUnavailable) ∈ n'.mappings.outbox
  actions : ∀ (number : Nat) (ticket : Ticket), n.actions.pending[number]? = some ⟨peer, ticket⟩ →
    (ticket, .error .peerUnavailable) ∈ n'.actions.outbox
  entries : ∀ (number : Nat) (i : UInt16) (entries : Entries),
    n.mappings.pending[number]? = some ⟨peer, .handOff i entries⟩ →
      ∀ key ∈ entries, n'.mappings.Keeps i key fun _ => False

theorem Sheds.deserted (sheds : n.Sheds n') (severed : n'.Severed peer) : Deserted peer n n' where
  severed := severed
  calls number ticket found := by
    obtain still | told := sheds.mappings.ended number _ found
    · exact absurd rfl (severed.calls number _ still)
    · exact told ticket rfl
  actions number ticket found := by
    obtain still | told := sheds.actions.ended number _ found
    · exact absurd rfl (severed.actions number _ still)
    · exact told ticket rfl
  entries number i entries found key inside := by
    have parked : n.mappings.parkedAt i number = some entries := by
      rw [MappingService.parkedAt_of_pending found]
      exact if_pos rfl
    exact sheds.keeps i key (.inr ⟨number, entries, parked, inside, not_false⟩)

end Node

end Cohort

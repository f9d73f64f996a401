import Cohort.Proofs.Node.Severance

/-!
# Peers after the membership store has answered

The records that the membership store has answered with are taken in one by one, and then the peers
that are in none of them are forgotten. Each peer has its turn once. What is done for it then does
not depend on the others, and what is done for the others does not undo it.

## Main definitions

* `Node.known`, `Node.advice`: the link to the peer of a record, and what is to be done about it.
* `Node.Turn`: where on the way a record is taken in.
* `Node.Counts`: a record is one of another node that is there.
* `Node.Tries`: an attempt to connect to a peer has started.
* `Node.Reconciled`: what has become of every peer.

## Main statements

* `Node.exists_turn`: a record that counts has its turn, which settles what becomes of its peer.
* `Node.Oriented.after`: a node is oriented, whatever happens to it.
* `Node.reload_reconciles_peers`: after an answer of the membership store the peers are as it tells.
-/

namespace Cohort

namespace Node

variable {n n' m : Node} {peer : NodeName} {link : Link} {record : NodeRecord} {now : Nat}

/-! ## The turn of one peer -/

/-- The link to the peer of a record, be it a new one. -/
def known (n : Node) (record : NodeRecord) : Link :=
  n.links[record.name]?.getD (.fresh record n.config.region)

/-- What is to be done about a record. -/
def advice (n : Node) (record : NodeRecord) : LinkAdvice :=
  ((n.known record).refresh record n.config.region n.config.staleInterval).1

/-- What is done about a record is to start an attempt, after the link was dropped if the peer has
moved, or nothing. -/
theorem noteRecord_eq (now : Nat) (n : Node) (record : NodeRecord) :
    noteRecord now n record =
      match n.advice record with
      | .stay | .suppress => n.recording record
      | .connect => (n.recording record).connect now record.name
      | .reconnect => ((n.recording record).linkDown record.name).connect now record.name := rfl

theorem getElem?_recording (n : Node) (record : NodeRecord) (other : NodeName) :
    (n.recording record).links[other]? = if other = record.name then
      some ((n.known record).withRecord record n.config.region) else n.links[other]? := by
  simp only [recording, known, Std.ExtTreeMap.getElem?_insert, Std.compare_eq_iff_eq,
    eq_comm (a := other)]

theorem getElem?_linkDown_ne {other : NodeName} (ne : other ≠ peer) :
    (n.linkDown peer).links[other]? = n.links[other]? := by
  show (n.links.modify peer _)[other]? = _
  simp [Std.ExtTreeMap.getElem?_modify, ne.symm]

theorem getElem?_connect_ne {other : NodeName} (ne : other ≠ peer) :
    (n.connect now peer).links[other]? = n.links[other]? := by
  unfold connect
  split
  next => rfl
  next => simp [emit_eq, Std.ExtTreeMap.getElem?_insert, ne.symm]

/-- A record concerns the link to its own peer only. -/
theorem getElem?_noteRecord_ne {other : NodeName} (ne : other ≠ record.name) :
    (noteRecord now n record).links[other]? = n.links[other]? := by
  have recorded : (n.recording record).links[other]? = n.links[other]? := by
    rw [getElem?_recording, if_neg ne]
  rw [noteRecord_eq]
  split
  · exact recorded
  · exact recorded
  · rw [getElem?_connect_ne ne, recorded]
  · rw [getElem?_connect_ne ne, getElem?_linkDown_ne ne, recorded]

theorem links_forget (n : Node) (peer : NodeName) :
    (n.forget peer).links = n.links.erase peer := by
  unfold forget
  split
  next absent =>
    refine Std.ExtTreeMap.ext_getElem? fun other => ?_
    rw [Std.ExtTreeMap.getElem?_erase]
    split
    next eq => rw [← Std.compare_eq_iff_eq.1 eq, absent]
    next => rfl
  next => rfl

theorem unfollowed_linkDown (n : Node) (peer : NodeName) :
    (n.linkDown peer).follows peer = false := by
  unfold follows
  rw [getElem?_linkDown]
  cases n.links[peer]? <;> rfl

/-! ## Nothing else is lost -/

namespace Sheds

theorem refl (oriented : n.Oriented) : n.Sheds n :=
  of_links oriented rfl rfl rfl rfl rfl ⟨[], (List.append_nil _).symm⟩ oriented.named fun _ => id

/-- The link to a peer changes, which is followed then only if it was before. -/
theorem of_insert (oriented : n.Oriented) (named : link.name = peer) (other : peer ≠ n.name)
    (follows : link.isSubscribed = true → n.follows peer = true) (effects : List NodeEffect) :
    n.Sheds { n with links := n.links.insert peer link, outbox := n.outbox ++ effects } := by
  refine of_links oriented rfl rfl rfl rfl rfl ⟨effects, rfl⟩ (fun {k l} found => ?_) fun k => ?_
  · simp only [Std.ExtTreeMap.getElem?_insert] at found
    split at found
    next eq =>
      obtain rfl := Option.some.inj found
      obtain rfl := Std.compare_eq_iff_eq.1 eq
      exact ⟨named, other⟩
    next => exact oriented.named found
  · intro following
    have following : (if k = peer then link.isSubscribed else n.follows k) = true :=
      (n.follows_insert peer link k).symm.trans following
    split at following
    next same =>
      rw [same]
      exact follows following
    next => exact following

theorem recording (oriented : n.Oriented) (other : record.name ≠ n.name) :
    n.Sheds (n.recording record) := by
  let link := (n.known record).withRecord record n.config.region
  have follows : link.isSubscribed = true → n.follows record.name = true := by
    simp only [link, known, Node.follows]
    cases n.links[record.name]? with
    | none => exact fun subscribed => absurd subscribed Bool.false_ne_true
    | some link => exact id
  have named : link.name = record.name := rfl
  have sheds := of_insert oriented named other follows []
  rwa [List.append_nil] at sheds

theorem connect (oriented : n.Oriented) (now : Nat) (peer : NodeName) :
    n.Sheds (n.connect now peer) := by
  cases found : n.links[peer]? with
  | none =>
    rw [Node.connect, found]
    exact refl oriented
  | some link =>
    obtain ⟨named, other⟩ := oriented.named found
    have named : (link.startConnecting now).attachTask.name = peer := named
    have unfollowed : (link.startConnecting now).attachTask.isSubscribed = false := rfl
    rw [connect_eq found]
    refine of_insert oriented named other (fun following => ?_) _
    rw [unfollowed] at following
    cases following

/-- The link to a peer is down, before anything else is done about it. -/
theorem disconnecting (oriented : n.Oriented) (peer : NodeName) :
    n.Sheds { n with links := n.links.modify peer fun link => link.disconnect.2 } := by
  refine of_links oriented rfl rfl rfl rfl rfl ⟨[], (List.append_nil _).symm⟩
    (fun {k l} found => ?_) fun k following => ?_
  · rw [Std.ExtTreeMap.getElem?_modify] at found
    split at found
    next eq =>
      obtain rfl := Std.compare_eq_iff_eq.1 eq
      obtain ⟨before, there, rfl⟩ := Option.map_eq_some_iff.1 found
      have named := oriented.named there
      exact named
    next => exact oriented.named found
  · by_cases same : k = peer
    · rw [same] at following
      have down : (n.linkDown peer).follows peer = true := following
      rw [unfollowed_linkDown] at down
      cases down
    · obtain ⟨link, found, subscribed⟩ := follows_iff.1 following
      exact follows_iff.2 ⟨link, (getElem?_linkDown_ne same).symm.trans found, subscribed⟩

theorem linkDown (oriented : n.Oriented) (peer : NodeName) : n.Sheds (n.linkDown peer) := by
  have disconnected := disconnecting oriented peer
  exact disconnected.trans (peerLost disconnected.oriented peer)

theorem noteRecord (oriented : n.Oriented) (other : record.name ≠ n.name) (now : Nat) :
    n.Sheds (noteRecord now n record) := by
  have recorded := recording oriented other
  rw [noteRecord_eq]
  split
  · exact recorded
  · exact recorded
  · exact recorded.trans (connect recorded.oriented now _)
  · have dropped := recorded.trans (linkDown recorded.oriented record.name)
    exact dropped.trans (connect dropped.oriented now _)

/-- The link to a peer is gone, before anything else is done about it. -/
theorem erasing (oriented : n.Oriented) (peer : NodeName) (effects : List NodeEffect) :
    n.Sheds { n with links := n.links.erase peer, outbox := n.outbox ++ effects } := by
  have left : ∀ {k : NodeName} {l : Link}, (n.links.erase peer)[k]? = some l →
      n.links[k]? = some l := by
    intro k l found
    rw [Std.ExtTreeMap.getElem?_erase] at found
    split at found
    next => cases found
    next => exact found
  refine of_links oriented rfl rfl rfl rfl rfl ⟨effects, rfl⟩
    (fun found => oriented.named (left found)) fun k following => ?_
  obtain ⟨link, found, subscribed⟩ := follows_iff.1 following
  exact follows_iff.2 ⟨link, left found, subscribed⟩

theorem forget (oriented : n.Oriented) (peer : NodeName) : n.Sheds (n.forget peer) := by
  unfold Node.forget
  split
  next => exact refl oriented
  next link found =>
    have erased := erasing oriented peer [.forgetPeer peer link.logOff.2.queue]
    exact erased.trans (peerLost erased.oriented peer)

/-- What every step does, several do. -/
theorem foldl {α : Type} {f : Node → α → Node} {l : List α} (oriented : n.Oriented)
    (each : ∀ a ∈ l, ∀ m : Node, m.Oriented → m.record = n.record → m.Sheds (f m a)) :
    n.Sheds (l.foldl f n) := by
  refine List.foldlRecOn l f (motive := fun m => n.Sheds m) (refl oriented) ?_
  exact fun m sheds a among => sheds.trans (each a among m sheds.oriented sheds.record)

theorem notes {records : List NodeRecord} (oriented : n.Oriented)
    (others : ∀ record ∈ records, record.name ≠ n.name) (now : Nat) :
    n.Sheds (records.foldl (Node.noteRecord now) n) := by
  refine foldl oriented fun record among m oriented same => noteRecord oriented ?_ now
  rw [name, same]
  exact others record among

theorem forgets (oriented : n.Oriented) (gone : List NodeName) :
    n.Sheds (gone.foldl Node.forget n) :=
  foldl oriented fun _ _ _ oriented _ => forget oriented _

end Sheds

/-! ## What is settled stays settled -/

/-- Nothing is left of a peer whose link was dropped. -/
theorem Oriented.severed_linkDown (oriented : n.Oriented) (other : peer ≠ n.name) :
    (n.linkDown peer).Severed peer := by
  have disconnected := (Sheds.disconnecting oriented peer).oriented
  exact disconnected.severed_peerLost other (n.unfollowed_linkDown peer) (.inl rfl)

/-- Nothing is left of a peer that was forgotten. -/
theorem Oriented.severed_forget (oriented : n.Oriented) (found : n.links[peer]? = some link) :
    (n.forget peer).Severed peer := by
  have erased := (Sheds.erasing oriented peer [.forgetPeer peer link.logOff.2.queue]).oriented
  rw [forget, found]
  refine erased.severed_peerLost (oriented.named found).2 ?_ (.inl rfl)
  simp [follows]

/-- Nothing is left of a peer that was forgotten among others. -/
theorem Oriented.severed_gone {gone : List NodeName} (oriented : n.Oriented) (among : peer ∈ gone)
    (there : peer ∈ n.links) : (gone.foldl forget n).Severed peer := by
  induction gone generalizing n with
  | nil => cases among
  | cons first gone ih =>
    have sheds := Sheds.forget oriented first
    by_cases same : peer = first
    · -- it is forgotten now, and those who are forgotten later do not bring it back
      subst same
      rw [Std.ExtTreeMap.mem_iff_isSome_getElem?] at there
      obtain ⟨link, found⟩ := Option.isSome_iff_exists.1 there
      have later := Sheds.forgets sheds.oriented gone
      refine later.severed peer ?_ (oriented.severed_forget found)
      rw [name, sheds.record]
      exact (oriented.named found).2
    · refine ih sheds.oriented ((List.mem_cons.1 among).resolve_left same) ?_
      rw [links_forget, Std.ExtTreeMap.mem_erase, Ne, Std.compare_eq_iff_eq]
      exact ⟨Ne.symm same, there⟩

/-- A record has its turn at some node on the way. Nothing has happened to its link before that,
and nothing happens to it after. -/
structure Turn (now : Nat) (record : NodeRecord) (n m n' : Node) : Prop where
  other : record.name ≠ m.name
  before : n.Sheds m
  same : m.links[record.name]? = n.links[record.name]?
  after : (noteRecord now m record).Sheds n'
  settled : n'.links[record.name]? = (noteRecord now m record).links[record.name]?

theorem getElem?_foldl_noteRecord_ne {records : List NodeRecord}
    (apart : ∀ record ∈ records, peer ≠ record.name) (n : Node) :
    (records.foldl (noteRecord now) n).links[peer]? = n.links[peer]? :=
  List.foldlRecOn records _ (motive := fun m : Node => m.links[peer]? = n.links[peer]?) rfl
    fun _ same record among => (getElem?_noteRecord_ne (apart record among)).trans same

/-- Each of several records of different nodes has its turn. -/
theorem exists_turn {records : List NodeRecord} (oriented : n.Oriented)
    (others : ∀ record ∈ records, record.name ≠ n.name)
    (distinct : (records.map NodeRecord.name).Nodup) (among : record ∈ records) (now : Nat) :
    ∃ m, Turn now record n m (records.foldl (noteRecord now) n) := by
  obtain ⟨early, late, rfl⟩ := List.append_of_mem among
  rw [List.map_append, List.map_cons, List.nodup_append] at distinct
  obtain ⟨-, rest, apart⟩ := distinct
  have before : n.Sheds (early.foldl (noteRecord now) n) :=
    .notes oriented (fun other there => others other (List.mem_append_left _ there)) now
  have other : record.name ≠ (early.foldl (noteRecord now) n).name := by
    rw [name, before.record]
    exact others record among
  have noted := Sheds.noteRecord before.oriented other now
  refine ⟨early.foldl (noteRecord now) n, other, before, ?_, ?_, ?_⟩
  · refine getElem?_foldl_noteRecord_ne (fun other there same => ?_) n
    exact apart _ (List.mem_map_of_mem there) _ List.mem_cons_self same.symm
  · rw [List.foldl_append, List.foldl_cons]
    refine .notes noted.oriented (fun other there => ?_) now
    rw [name, noted.record, before.record]
    exact others other (List.mem_append_right _ (List.mem_cons_of_mem _ there))
  · rw [List.foldl_append, List.foldl_cons]
    refine getElem?_foldl_noteRecord_ne (fun other there same => ?_) _
    exact (List.nodup_cons.1 rest).1 (same ▸ List.mem_map_of_mem there)

/-! ## What the turn of a peer settles -/

/-- An attempt to connect to where a record tells has started, and the link tells so. -/
structure Tries (now : Nat) (record : NodeRecord) (n : Node) (link : Link) (n' : Node) : Prop where
  tells : n'.links[record.name]? = some { link with
    record
    hostName := record.hostFrom n.config.region
    relationship := record.relationshipTo n.config.region
    state := .connecting
    lastConnect := some now
    generation := link.generation + 1
    lastSequence := 0
    tasks := link.tasks + 1
    task := some link.tasks }
  connects : ∃ effects, n'.outbox = n.outbox ++ effects ∧
    .connect record.name (link.generation + 1) ⟨record.hostFrom n.config.region, record.port,
      n.config.credentials, n.config.frameLimit⟩ ∈ effects

/-- An attempt starts at some node on the way. The link may have been dropped there, as long as that
makes no difference once it is tried. -/
theorem tries_of_connect {tried : Link} (before : n.Sheds m)
    (found : m.links[record.name]? = some tried)
    (same : (tried.startConnecting now).attachTask =
      ((link.withRecord record n.config.region).startConnecting now).attachTask)
    (after : (m.connect now record.name).Sheds n')
    (settled : n'.links[record.name]? = (m.connect now record.name).links[record.name]?) :
    Tries now record n link n' := by
  obtain ⟨effects, grown⟩ := before.outbox
  obtain ⟨effects', grown'⟩ := after.outbox
  have host : tried.hostName = record.hostFrom n.config.region := congrArg Link.hostName same
  have port : tried.port = record.port := congrArg Link.port same
  rw [connect_eq found] at settled grown'
  rw [same] at settled grown'
  rw [host, port, before.config, grown, List.append_assoc, List.append_assoc] at grown'
  refine ⟨settled.trans Std.ExtTreeMap.getElem?_insert_self, _, grown', ?_⟩
  exact List.mem_append_right _ (List.mem_append_left _ (List.mem_singleton_self _))

namespace Turn

theorem known (turn : Turn now record n m n') : m.known record = n.known record := by
  rw [Node.known, Node.known, turn.same, turn.before.config]

theorem advice (turn : Turn now record n m n') : m.advice record = n.advice record := by
  rw [Node.advice, Node.advice, turn.known, turn.before.config]

theorem recorded (turn : Turn now record n m n') : (m.recording record).links[record.name]? =
    some ((n.known record).withRecord record n.config.region) := by
  rw [getElem?_recording, if_pos rfl, turn.known, turn.before.config]

theorem recording (turn : Turn now record n m n') : n.Sheds (m.recording record) :=
  turn.before.trans (.recording turn.before.oriented turn.other)

/-- A peer that is left alone has its new record. -/
theorem rests (turn : Turn now record n m n')
    (idle : n.advice record = .stay ∨ n.advice record = .suppress) :
    n'.links[record.name]? = some ((n.known record).withRecord record n.config.region) := by
  have noted : noteRecord now m record = m.recording record := by
    obtain idle | idle := idle <;> rw [noteRecord_eq, turn.advice, idle]
  rw [turn.settled, noted]
  exact turn.recorded

theorem tries (turn : Turn now record n m n') (advised : n.advice record = .connect) :
    Tries now record n (n.known record) n' := by
  have noted : noteRecord now m record = (m.recording record).connect now record.name := by
    rw [noteRecord_eq, turn.advice, advised]
  have after := turn.after
  have settled := turn.settled
  rw [noted] at after settled
  exact tries_of_connect turn.recording turn.recorded rfl after settled

/-- A peer that has moved is tried again after it was lost. -/
theorem moves (turn : Turn now record n m n') (advised : n.advice record = .reconnect) :
    Tries now record n
        { n.known record with
          queue := (n.known record).queue.map Mailbox.hangUp
          remote := none } n' ∧
      Deserted record.name n n' := by
  have noted : noteRecord now m record =
      ((m.recording record).linkDown record.name).connect now record.name := by
    rw [noteRecord_eq, turn.advice, advised]
  have after := turn.after
  have settled := turn.settled
  rw [noted] at after settled
  have dropped := turn.recording.trans (.linkDown turn.recording.oriented record.name)
  have down : ((m.recording record).linkDown record.name).links[record.name]? =
      some ((n.known record).withRecord record n.config.region).disconnect.2 := by
    rw [getElem?_linkDown, turn.recorded, Option.map_some]
  refine ⟨tries_of_connect dropped down rfl after settled, ?_⟩
  -- what was lost is not found again when the attempt starts, nor later
  have severed : ((m.recording record).linkDown record.name).Severed record.name :=
    turn.recording.oriented.severed_linkDown turn.other
  have later := (Sheds.connect dropped.oriented now record.name).trans after
  refine (dropped.trans later).deserted (later.severed record.name ?_ severed)
  rw [name, dropped.record, ← turn.before.record]
  exact turn.other

theorem mem_links (turn : Turn now record n m n') : record.name ∈ n'.links := by
  rw [Std.ExtTreeMap.mem_iff_isSome_getElem?]
  cases advised : n.advice record with
  | stay => rw [turn.rests (.inl advised), Option.isSome_some]
  | suppress => rw [turn.rests (.inr advised), Option.isSome_some]
  | connect => rw [(turn.tries advised).tells, Option.isSome_some]
  | reconnect => rw [(turn.moves advised).1.tells, Option.isSome_some]

end Turn

/-! ## The answer as a whole -/

/-- A record is one of another node that has not left and gave a sign of life recently. -/
structure Counts (n : Node) (now : Nat) (record : NodeRecord) : Prop where
  other : record.name ≠ n.name
  stays : record.hasLeft = false
  alive : now - record.lastUpdated ≤ n.config.staleInterval

theorem isPeer_iff : n.isPeer now record = true ↔ n.Counts now record := by
  simp only [isPeer, NodeRecord.isStale, Bool.and_eq_true, decide_eq_true_eq, Bool.not_eq_true',
    decide_eq_false_iff_not, Nat.not_lt]
  constructor
  · rintro ⟨⟨other, stays⟩, alive⟩
    exact ⟨other, stays, alive⟩
  · rintro ⟨other, stays, alive⟩
    exact ⟨⟨other, stays⟩, alive⟩

/-- A node that has taken in the records of an answer, before it forgets anybody. -/
def reviewed (n : Node) (now : Nat) (records : List NodeRecord) : Node :=
  (records.filter (n.isPeer now)).foldl (noteRecord now) { n with refreshing := false }

/-- The peers of a node that are in none of the records of an answer. -/
def missing (n : Node) (now : Nat) (records : List NodeRecord) : List NodeName :=
  (n.reviewed now records).links.keys.filter fun peer =>
    !(records.filter (n.isPeer now)).any fun record => record.name = peer

/-- A node that consults the membership store once more if it is to. -/
def caughtUp (n : Node) : Node :=
  if n.refreshPending then { n with refreshPending := false }.refresh else n

theorem loaded_eq (n : Node) (now : Nat) (records : List NodeRecord) :
    n.loaded now (.ok records) =
      ((n.missing now records).foldl forget (n.reviewed now records)).caughtUp := rfl

theorem links_caughtUp (n : Node) : n.caughtUp.links = n.links := by
  unfold caughtUp refresh
  split
  · split <;> rfl
  · rfl

theorem mem_missing {records : List NodeRecord} : peer ∈ n.missing now records ↔
    peer ∈ (n.reviewed now records).links ∧
      ∀ record ∈ records, n.Counts now record → record.name ≠ peer := by
  simp only [missing, List.mem_filter, Std.ExtTreeMap.mem_keys, Bool.not_eq_true',
    List.any_eq_false, decide_eq_true_eq, isPeer_iff, and_imp]

theorem getElem?_loaded {records : List NodeRecord} : (n.loaded now (.ok records)).links[peer]? =
    if peer ∈ n.missing now records then none else (n.reviewed now records).links[peer]? := by
  rw [loaded_eq, links_caughtUp]
  exact getElem?_foldl_erase links_forget _ _ _

namespace Sheds

theorem caughtUp (oriented : n.Oriented) : n.Sheds n.caughtUp := by
  unfold Node.caughtUp
  split
  · have noted : n.Sheds { n with refreshPending := false } :=
      of_links oriented rfl rfl rfl rfl rfl ⟨[], (List.append_nil _).symm⟩ oriented.named
        fun _ => id
    exact noted.trans (of_refresh noted.oriented)
  · exact refl oriented

theorem reviewing (oriented : n.Oriented) : n.Sheds { n with refreshing := false } :=
  of_links oriented rfl rfl rfl rfl rfl ⟨[], (List.append_nil _).symm⟩ oriented.named fun _ => id

theorem reviewed (oriented : n.Oriented) (now : Nat) (records : List NodeRecord) :
    n.Sheds (n.reviewed now records) := by
  have heard := reviewing oriented
  refine heard.trans (notes heard.oriented (fun record among => ?_) now)
  exact (isPeer_iff.1 (List.mem_filter.1 among).2).other

theorem loaded (oriented : n.Oriented) (now : Nat) (answer : Outcome (List NodeRecord)) :
    n.Sheds (n.loaded now answer) := by
  cases answer with
  | error failure => exact reviewing oriented
  | ok records =>
    have reviewed := reviewed oriented now records
    have forgotten := reviewed.trans (forgets reviewed.oriented (n.missing now records))
    exact forgotten.trans (caughtUp forgotten.oriented)

end Sheds

/-! ## Nodes at work -/

/-- A node that has just been started is oriented. -/
theorem Started.oriented (started : n.Started) : n.Oriented := by
  obtain ⟨config, mappings, registered, outranks, port, now, configured, named, -, rfl⟩ := started
  have sound := configured.blank.sound
  have ring : mappings.ring = .ofNodes Ring.defaultShare mappings.ring.nodes := by
    rw [configured.alone.1]
    rfl
  refine ⟨fun found => ?_, rfl, ?_, ring⟩
  · simp [assemble, start, refresh, emit_eq] at found
  · exact ⟨⟨sound.placed, sound.named, sound.listed⟩, sound.tidy, sound.numbered, sound.parked⟩

namespace Oriented

theorem apply (oriented : n.Oriented) (command : NodeCommand) : (n.apply command).Oriented := by
  have operates := Operates.apply n command
  cases command with
  | loaded now answer => exact (Sheds.loaded oriented now answer).oriented
  | link peer generation report =>
    have outdoors := (n.moves_linkReport peer generation report).outdoors
    exact oriented.operates operates outdoors.record (n.record_linkReport peer generation report)
  | shutDown now =>
    let passed := { n with mappings := n.mappings.flush now true }.drain
    have flushed : passed.record = n.record :=
      (Indoors.drain { n with mappings := n.mappings.flush now true }).record
    have ended := (Indoors.drain { passed with locks := passed.locks.shutDown }).record
    have same : (n.shutDown now).record = n.record := by
      rw [shutDown_keeps]
      exact ended.trans flushed
    exact oriented.operates operates same (n.record_shutDown now)
  | _ => exact oriented.indoors (Indoors.apply n id) operates

theorem advance (oriented : n.Oriented) (occurrence : Occurrence) :
    (n.advance occurrence).Oriented := by
  cases occurrence with
  | command command =>
    simp only [Node.advance, step]
    split
    · exact oriented
    · exact (oriented.apply command).indoors (.finish _) (.finish _)
  | _ =>
    refine oriented.indoors (.advance n fun command same => ?_) (.advance n _)
    cases same

/-- A node is oriented, whatever happens to it. -/
theorem after (oriented : n.Oriented) (run : List Occurrence) : (n.after run).Oriented :=
  List.foldlRecOn run _ (motive := Oriented) oriented
    fun _ oriented occurrence _ => oriented.advance occurrence

/-- A record that counts has its turn in an answer of the membership store. -/
theorem exists_turn_loaded (oriented : n.Oriented) {records : List NodeRecord}
    (distinct : (records.map NodeRecord.name).Nodup) (among : record ∈ records)
    (counts : n.Counts now record) :
    ∃ m, Turn now record n m (n.loaded now (.ok records)) := by
  have heard := Sheds.reviewing oriented
  have others : ∀ record ∈ records.filter (n.isPeer now), record.name ≠ n.name :=
    fun record among => (isPeer_iff.1 (List.mem_filter.1 among).2).other
  have counted : record ∈ records.filter (n.isPeer now) :=
    List.mem_filter.2 ⟨among, isPeer_iff.2 counts⟩
  obtain ⟨m, other, before, same, after, settled⟩ := exists_turn heard.oriented others
    (distinct.sublist (List.filter_sublist.map _)) counted now
  have reviewed := (Sheds.reviewed oriented now records).oriented
  have forgotten := Sheds.forgets reviewed (n.missing now records)
  have later := forgotten.trans (.caughtUp forgotten.oriented)
  refine ⟨m, other, heard.trans before, same, after.trans later, ?_⟩
  rw [getElem?_loaded, if_neg fun missing => (mem_missing.1 missing).2 record among counts rfl]
  exact settled

/-- Nothing is left of a peer that is in none of the records that count. -/
theorem severed_loaded (oriented : n.Oriented) {records : List NodeRecord} (there : peer ∈ n.links)
    (missing : ∀ record ∈ records, n.Counts now record → record.name ≠ peer) :
    (n.loaded now (.ok records)).Severed peer := by
  rw [Std.ExtTreeMap.mem_iff_isSome_getElem?] at there
  obtain ⟨link, found⟩ := Option.isSome_iff_exists.1 there
  have other := (oriented.named found).2
  have reviewed := Sheds.reviewed oriented now records
  -- no record changes the link to the peer, so it is there when peers are forgotten
  have kept : peer ∈ (n.reviewed now records).links := by
    rw [Std.ExtTreeMap.mem_iff_isSome_getElem?]
    rwa [Node.reviewed, getElem?_foldl_noteRecord_ne fun record among same => ?_]
    obtain ⟨among, counts⟩ := List.mem_filter.1 among
    exact missing record among (isPeer_iff.1 counts) same.symm
  have severed := reviewed.oriented.severed_gone (mem_missing.2 ⟨kept, missing⟩) kept
  have forgotten := Sheds.forgets reviewed.oriented (n.missing now records)
  refine (Sheds.caughtUp forgotten.oriented).severed peer ?_ severed
  rwa [name, forgotten.record, reviewed.record]

end Oriented

/-! ## What has become of every peer -/

/-- What an answer of the membership store makes of the peers of a node. -/
structure Reconciled (now : Nat) (records : List NodeRecord) (n n' : Node) : Prop where
  /-- The peers are those whose records count. -/
  peers : ∀ peer : NodeName,
    peer ∈ n'.links ↔ ∃ record ∈ records, n.Counts now record ∧ record.name = peer
  /-- A peer whose link is up, or on its way, and that has not moved keeps everything but its
  record. -/
  stays : ∀ record ∈ records, n.Counts now record → ∀ link, n.links[record.name]? = some link →
    link.state ≠ .disconnected → record.hostFrom n.config.region = link.hostName →
    record.port = link.port → n'.links[record.name]? = some { link with
      record
      relationship := record.relationshipTo n.config.region }
  /-- One that has moved was lost, its queue is hung up, and it is tried where it is now. -/
  moves : ∀ record ∈ records, n.Counts now record → ∀ link, n.links[record.name]? = some link →
    link.state ≠ .disconnected →
    record.hostFrom n.config.region ≠ link.hostName ∨ record.port ≠ link.port →
    Tries now record n { link with queue := link.queue.map Mailbox.hangUp, remote := none } n' ∧
      Deserted record.name n n'
  /-- One whose link is down is tried, unless it was tried and gave no sign of life for long before
  that. -/
  tries : ∀ record ∈ records, n.Counts now record → ∀ link, n.links[record.name]? = some link →
    link.state = .disconnected →
    (∀ last, link.lastConnect = some last →
      last - record.lastUpdated ≤ n.config.staleInterval) → Tries now record n link n'
  rests : ∀ record ∈ records, n.Counts now record → ∀ link, n.links[record.name]? = some link →
    link.state = .disconnected → ∀ last, link.lastConnect = some last →
    n.config.staleInterval < last - record.lastUpdated → n'.links[record.name]? = some { link with
      record
      hostName := record.hostFrom n.config.region
      relationship := record.relationshipTo n.config.region }
  /-- One that was not known is tried. -/
  meets : ∀ record ∈ records, n.Counts now record → n.links[record.name]? = none →
    Tries now record n (.fresh record n.config.region) n'
  /-- One that none of these records is of was lost. -/
  leaves : ∀ peer ∈ n.links, peer ∉ n'.links → Deserted peer n n'

theorem hasMoved_iff {here : Option String} : link.hasMoved record here = true ↔
    record.hostFrom here ≠ link.hostName ∨ record.port ≠ link.port := by
  simp [Link.hasMoved]

theorem seemsDown_iff {here : Option String} {window : Nat} :
    (link.withRecord record here).seemsDown window = true ↔
      ∃ last, link.lastConnect = some last ∧ window < last - record.lastUpdated := by
  unfold Link.seemsDown Link.withRecord
  cases link.lastConnect <;> simp

theorem known_of_found (found : n.links[record.name]? = some link) : n.known record = link := by
  rw [known, found, Option.getD_some]

theorem known_of_unknown (unknown : n.links[record.name]? = none) :
    n.known record = .fresh record n.config.region := by
  rw [known, unknown, Option.getD_none]

/-- What is to be done about the record of a peer whose link is up, or on its way. -/
theorem advice_of_up (up : (n.known record).state ≠ .disconnected) :
    n.advice record =
      if (n.known record).hasMoved record n.config.region then .reconnect else .stay :=
  if_pos up

theorem advice_of_down (down : (n.known record).state = .disconnected) :
    n.advice record =
      if ((n.known record).withRecord record n.config.region).seemsDown n.config.staleInterval
      then .suppress else .connect :=
  if_neg (not_not.2 down)

/-- The peers after an answer of the membership store are those whose records count. -/
theorem Oriented.mem_links_loaded (oriented : n.Oriented) {records : List NodeRecord}
    (distinct : (records.map NodeRecord.name).Nodup) (now : Nat) (peer : NodeName) :
    peer ∈ (n.loaded now (.ok records)).links ↔
      ∃ record ∈ records, n.Counts now record ∧ record.name = peer := by
  constructor
  · intro there
    by_contra none
    push Not at none
    rw [Std.ExtTreeMap.mem_iff_isSome_getElem?, getElem?_loaded] at there
    split at there
    next => cases there
    next kept =>
      exact kept (mem_missing.2 ⟨Std.ExtTreeMap.mem_iff_isSome_getElem?.2 there, none⟩)
  · rintro ⟨record, among, counts, rfl⟩
    obtain ⟨m, turn⟩ := oriented.exists_turn_loaded distinct among counts
    exact turn.mem_links

/-- After an answer of the membership store with records of different nodes the peers are as it
tells, whatever has happened to the node before. -/
theorem reload_reconciles_peers (started : n.Started) (run : List Occurrence) (now : Nat)
    {records : List NodeRecord} (distinct : (records.map NodeRecord.name).Nodup) :
    Reconciled now records (n.after run) ((n.after run).loaded now (.ok records)) := by
  have oriented := started.oriented.after run
  generalize n.after run = n at oriented ⊢
  have peers := oriented.mem_links_loaded distinct now
  refine
    { peers := peers
      stays := fun record among counts link found up host port => ?stays
      moves := fun record among counts link found up moved => ?moves
      tries := fun record among counts link found down recent => ?tries
      rests := fun record among counts link found down last tried silent => ?rests
      meets := fun record among counts unknown => ?meets
      leaves := fun peer there gone => ?leaves }
  case leaves =>
    have sheds := Sheds.loaded oriented now (.ok records)
    refine sheds.deserted (oriented.severed_loaded there fun record among counts same => ?_)
    exact gone ((peers peer).2 ⟨record, among, counts, same⟩)
  all_goals obtain ⟨m, turn⟩ := oriented.exists_turn_loaded distinct among counts
  case stays =>
    obtain rfl := known_of_found found
    have settled : ¬ (n.known record).hasMoved record n.config.region = true := by
      simp [hasMoved_iff, host, port]
    have rests := turn.rests (.inl ?_)
    · rw [rests, Link.withRecord, host]
    · rw [advice_of_up up, if_neg settled]
  case moves =>
    obtain rfl := known_of_found found
    refine turn.moves ?_
    rw [advice_of_up up, if_pos (hasMoved_iff.2 moved)]
  case tries =>
    obtain rfl := known_of_found found
    refine turn.tries ?_
    rw [advice_of_down down, if_neg]
    intro silent
    obtain ⟨last, tried, silent⟩ := seemsDown_iff.1 silent
    exact absurd (recent last tried) (Nat.not_le_of_lt silent)
  case rests =>
    obtain rfl := known_of_found found
    refine turn.rests (.inr ?_)
    rw [advice_of_down down, if_pos (seemsDown_iff.2 ⟨last, tried, silent⟩)]
  case meets =>
    have unknown := known_of_unknown unknown
    rw [← unknown]
    refine turn.tries ?_
    rw [Node.advice, unknown]
    rfl

/-- The record of a peer on this computer. -/
def neighbour (name : NodeName) (port : UInt16) (now : Nat) : NodeRecord :=
  (NodeConfig.onLoopback name).record port now

/-- A run in which a node follows three peers and waits for one of them to run an action. -/
def companyRun : List Occurrence :=
  [.command (.loaded 10
      (.ok [neighbour "b" 4001 10, neighbour "c" 4002 10, neighbour "d" 4003 10])),
    .command (.link "b" 1 (.connected 8)),
    .command (.link "b" 1 (.message (.snapshot ⟨"b", 10, ∅, 0⟩))),
    .command (.link "c" 1 (.connected 8)),
    .command (.link "c" 1 (.message (.snapshot ⟨"c", 10, .ofList [(⟨"disk", none⟩ : Lock)], 0⟩))),
    .command (.link "d" 1 (.connected 8)),
    .command (.link "d" 1 (.message (.snapshot ⟨"d", 10, ∅, 0⟩))),
    .command (.invoke "c" "greet" [] 7)]

/-- What the membership store answers then: one of them has moved, one is gone, one is new. -/
def newCompany : List NodeRecord :=
  [neighbour "b" 4001 20, neighbour "c" 4012 20, neighbour "e" 4004 20]

/-- How far the connections to peers have come, and in which attempt. -/
def standing (n : Node) : List (NodeName × LinkState × Nat) :=
  n.links.toList.map fun entry => (entry.1, entry.2.state, entry.2.generation)

theorem reload_reconciles_peers_in_companyRun :
    newcomer.Started ∧ (newCompany.map NodeRecord.name).Nodup ∧
      standing (newcomer.after companyRun) =
        [("b", .subscribed, 1), ("c", .subscribed, 1), ("d", .subscribed, 1)] ∧
      (newcomer.after companyRun).actions.pending[1]? = some ⟨"c", 7⟩ ∧
      standing ((newcomer.after companyRun).loaded 20 (.ok newCompany)) =
        [("b", .subscribed, 1), ("c", .connecting, 2), ("e", .connecting, 1)] ∧
      Reconciled 20 newCompany (newcomer.after companyRun)
        ((newcomer.after companyRun).loaded 20 (.ok newCompany)) :=
  ⟨newcomer_started, by decide, by decide +kernel, by decide +kernel, by decide +kernel,
    reload_reconciles_peers newcomer_started companyRun 20 (by decide)⟩

end Node

end Cohort

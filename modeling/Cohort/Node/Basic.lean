import Cohort.Action.Basic
import Cohort.Lock.Arbitrator
import Cohort.Mapping.Service
import Cohort.Node.Config
import Cohort.Peer.Report
import Cohort.Session

/-!
# A running node

A `Node` owns everything that a node of the cluster knows: its links to peers, the sessions that
other nodes opened with it, its locks, mappings and actions. Everything that happens to it is a
`NodeCommand`, and `Node.step` says what the node is after it. What is to be done outside, answers
to callers included, goes into the `outbox` in the order in which it comes up.

After every command the node carries out what its locks and mappings want done (`Node.drain`).
Publishing an event may end sessions that are too slow, which may settle locks and so ask for more
to be published; but sessions run out.

## Main definitions

* `NodeCommand`, `Node.step`: everything that can happen to a node.
* `Node.publish`: tell all subscribers.
* `Node.loaded`, `Node.linkReport`, `Node.sessionRequest`: news from outside.
* `Node.invoke`: run an action here or elsewhere.
-/

namespace Cohort

/-- News about a cache of the application. -/
structure CacheNotice where
  source : NodeName
  cache : String
  data : Bytes
  deriving DecidableEq, Repr

/-- Somebody who wants the news about a cache. -/
structure Observer where
  number : Nat
  box : Mailbox CacheNotice
  deriving DecidableEq, Repr

/-- A session that another node opened. -/
structure Session where
  node : NodeName
  queue : Mailbox Message
  deriving DecidableEq

/-- Where a link connects to. -/
structure LinkTarget where
  hostName : String
  port : UInt16
  /-- Who subscribes. -/
  credentials : Credentials
  frameLimit : Nat
  deriving DecidableEq, Repr

/-- What a node wants done outside. -/
inductive NodeEffect where
  /-- Stamp this record in the membership store, then load all records. -/
  | consult (record : NodeRecord)
  /-- Connect to a peer. -/
  | connect (peer : NodeName) (generation : Nat) (target : LinkTarget)
  /-- Report after the lock timeout that it has passed. -/
  | startTimer (lock : Lock) (generation : Nat)
  /-- A lock was lost to another node without being released. -/
  | lost (lock : Lock)
  | lockAnswer (ticket : Ticket) (reply : LockReply)
  | mappingAnswer (ticket : Ticket) (reply : MappingReply)
  | actionAnswer (ticket : Ticket) (reply : ActionReply)
  /-- A listener of a mapping was told of a change. -/
  | told (told : Told)
  /-- A session was ended from here; its messages still go out. -/
  | endSession (number : Nat) (queue : Mailbox Message)
  /-- A peer is forgotten; the requests of its link still go out. -/
  | forgetPeer (peer : NodeName) (queue : Option (Mailbox Request))
  /-- Mark the node as cleanly gone in the membership store. -/
  | leave (name : NodeName)

/-- A running node. -/
structure Node where
  config : NodeConfig
  record : NodeRecord
  bootStamp : Nat
  /-- Links to other nodes, by name. -/
  links : Std.ExtTreeMap NodeName Link
  /-- Sessions of other nodes, by number. -/
  sessions : Std.ExtTreeMap Nat Session
  /-- The number of the last event published. -/
  sequence : Nat
  locks : Arbitrator
  mappings : MappingService
  actions : NodeActions
  /-- Who wants the news about each cache, in the order of registration. -/
  observers : Std.ExtTreeMap String (List Observer)
  /-- Whether the membership store is being consulted. -/
  refreshing : Bool
  /-- Whether it is to be consulted once more after that. -/
  refreshPending : Bool
  /-- Set once the node has shut down; nothing happens to it after that. -/
  stopped : Bool
  outbox : List NodeEffect

namespace Node

/-- A node before it is started: its mappings and actions are configured, and it listens at
`port`. -/
def assemble (config : NodeConfig) (mappings : MappingService) (actions : NodeActions)
    (outranks : Precedence) (port : UInt16) (now : Nat) : Node where
  config := config
  record := config.record port now
  bootStamp := now
  links := ∅
  sessions := ∅
  sequence := 0
  locks := .fresh config.nodeName outranks
  mappings := mappings.close
  actions := actions
  observers := ∅
  refreshing := false
  refreshPending := false
  stopped := false
  outbox := []

/-- The name of the node. -/
def name (n : Node) : NodeName := n.record.name

/-- Something to be done outside. -/
def emit (n : Node) (effect : NodeEffect) : Node := { n with outbox := n.outbox ++ [effect] }

/-! ## Sessions -/

/-- Whether a node has a session open. -/
def hasSession (n : Node) (node : NodeName) : Bool :=
  n.sessions.values.any fun session => session.node = node

/-- The state that a session starts from. -/
def snapshot (n : Node) : Snapshot := ⟨n.name, n.bootStamp, n.locks.held, n.sequence⟩

/-- A session opens. It is not taken in if the snapshot cannot be sent. -/
def openSession (n : Node) (number : Nat) (node : NodeName) (queue : Mailbox Message) : Node :=
  match queue.offer? (.snapshot n.snapshot) with
  | none => n
  | some queue =>
    let n := if n.hasSession node then n else { n with locks := n.locks.addSubscriber node }
    { n with sessions := n.sessions.insert number ⟨node, queue⟩ }

/-- A session ends. With its last session, a node no longer has to consent to anything. -/
def closeSession (n : Node) (number : Nat) : Node :=
  match n.sessions[number]? with
  | none => n
  | some session =>
    let n := { n with sessions := n.sessions.erase number }.emit
      (.endSession number session.queue.hangUp)
    if n.hasSession session.node then n
    else { n with locks := n.locks.removeSubscriber session.node }

/-- Send a message to a session, if it can be sent. -/
def sendToSession (n : Node) (number : Nat) (message : Message) : Node :=
  { n with
    sessions := n.sessions.modify number fun session =>
      { session with queue := (session.queue.offer? message).getD session.queue } }

/-- The sessions that cannot be sent a message. -/
def lagging (n : Node) (message : Message) : List Nat :=
  (n.sessions.toList.filter fun entry => (entry.2.queue.offer? message).isNone).map Prod.fst

/-- Tell all subscribers. A session that cannot be told ends. -/
def publish (n : Node) (event : NodeEvent) : Node :=
  let message := .event (n.sequence + 1) event
  let lagging := n.lagging message
  let n := { n with
    sequence := n.sequence + 1
    sessions := n.sessions.map fun _ session =>
      { session with queue := (session.queue.offer? message).getD session.queue } }
  lagging.foldl closeSession n

/-- What a session asks for. -/
def sessionRequest (n : Node) (number : Nat) (session : Session) : Request → Node
  | .ratify lock acquire => { n with locks := n.locks.ratify session.node lock acquire }
  | .mapping requestId call =>
    let (reply, mappings) := n.mappings.handleCall call
    { n with mappings }.sendToSession number (.ofMappingResult requestId reply)
  | .nodeAction requestId action args =>
    n.sendToSession number (.ofActionResult requestId (n.actions.run action args))
  | .subscribe _ _ | .logOff => n

/-! ## Peers -/

/-- Consult the membership store, now or once it has answered. -/
def refresh (n : Node) : Node :=
  if n.refreshing then { n with refreshPending := true }
  else { n with refreshing := true }.emit (.consult n.record)

/-- The nodes that are known to be alive: this one and the peers it follows. -/
def live (n : Node) : NameSet :=
  .ofList (n.name :: (n.links.values.filter Link.isSubscribed).map Link.name)

/-- Draw the ministers from the nodes that are known to be alive. -/
def updateMinistry (n : Node) : Node := { n with mappings := n.mappings.updateMinistry n.live }

/-- Forget what depended on a peer that is no longer there. -/
def peerLost (n : Node) (peer : NodeName) : Node :=
  { n with
    locks := n.locks.peerDisconnected peer
    mappings := n.mappings.peerDisconnected peer
    actions := n.actions.peerDisconnected peer }.updateMinistry

/-- Drop the link to a peer. -/
def linkDown (n : Node) (peer : NodeName) : Node :=
  { n with links := n.links.modify peer fun link => link.disconnect.2 }.peerLost peer

/-- Start an attempt to connect to a peer. -/
def connect (n : Node) (now : Nat) (peer : NodeName) : Node :=
  match n.links[peer]? with
  | none => n
  | some link =>
    let link := (link.startConnecting now).attachTask
    { n with links := n.links.insert peer link }.emit
      (.connect peer link.generation
        ⟨link.hostName, link.port, n.config.credentials, n.config.frameLimit⟩)

/-- Whether a record is one of a peer that is there. -/
def isPeer (n : Node) (now : Nat) (record : NodeRecord) : Bool :=
  record.name ≠ n.name && !record.hasLeft && !record.isStale now n.config.staleInterval

/-- Take in the record of a peer that is there. -/
def noteRecord (now : Nat) (n : Node) (record : NodeRecord) : Node :=
  let link := n.links[record.name]?.getD (.fresh record n.config.region)
  let (advice, link) := link.refresh record n.config.region n.config.staleInterval
  let n := { n with links := n.links.insert record.name link }
  match advice with
  | .stay | .suppress => n
  | .connect => n.connect now record.name
  | .reconnect => (n.linkDown record.name).connect now record.name

/-- Say goodbye to a peer and forget it. -/
def forget (n : Node) (peer : NodeName) : Node :=
  match n.links[peer]? with
  | none => n
  | some link =>
    ({ n with links := n.links.erase peer }.emit (.forgetPeer peer link.logOff.2.queue)).peerLost
      peer

/-- The membership store has answered. Records of peers that are there are taken in, and all other
peers are forgotten. An answer that is a failure changes nothing. -/
def loaded (n : Node) (now : Nat) (answer : Outcome (List NodeRecord)) : Node :=
  let n := { n with refreshing := false }
  match answer with
  | .error _ => n
  | .ok records =>
    let peers := records.filter (n.isPeer now)
    let n := peers.foldl (noteRecord now) n
    let gone := n.links.keys.filter fun name => !peers.any fun record => record.name = name
    let n := gone.foldl forget n
    if n.refreshPending then { n with refreshPending := false }.refresh else n

/-- Pass news about a cache of the application on to those who want them. Who went away is
forgotten, and who has no room misses them. -/
def notifyObservers (n : Node) (notice : CacheNotice) : Node :=
  { n with
    observers := n.observers.modify notice.cache fun observers =>
      (observers.filter (·.box.receiving)).map fun observer =>
        { observer with box := (observer.box.offer? notice).getD observer.box } }

/-- What an event of a peer changes in what is known of it. -/
def remoteAfter (event : NodeEvent) (remote : RemoteNode) : RemoteNode :=
  match event with
  | .added lock => { remote with locks := remote.locks.insert lock }
  | .removed lock => { remote with locks := remote.locks.erase lock }
  | _ => remote

/-- An event of a peer that is taken in. -/
def peerEvent (n : Node) (peer : NodeName) (event : NodeEvent) : Node :=
  match event with
  | .cacheData cache data =>
    let (known, mappings) := n.mappings.cacheData cache data
    let n := { n with mappings }
    if known then n else n.notifyObservers ⟨peer, cache, data⟩
  | event =>
    match LockOp.ofEvent? peer event with
    | some op => { n with locks := n.locks.step op }
    | none => n

/-- The outcome that the answer to a named action stands for. A success has to have a value. -/
def actionOutcome (code : UInt32) (value : Option Bytes) : ActionReply :=
  match Message.outcome code value with
  | .ok (some result) => .ok result
  | .ok none => .error .codec
  | .error failure => .error failure

/-- A message of a peer. -/
def peerMessage (n : Node) (peer : NodeName) (link : Link) : Message → Node
  | .snapshot snapshot =>
    match link.subscribe snapshot with
    | (.ok remote, link) =>
      { n with
        links := n.links.insert peer link
        locks := n.locks.peerSubscribed peer remote.locks }.updateMinistry
    | (.error _, _) => n.linkDown peer
  | .event sequence event =>
    match link.acceptEvent sequence with
    | (false, _) => n
    | (true, link) =>
      { n with links := n.links.insert peer (link.updateRemote (remoteAfter event)) }.peerEvent peer
        event
  | .mappingResult requestId code value =>
    { n with mappings := n.mappings.callCompleted requestId (Message.outcome code value) }
  | .actionResult requestId code value =>
    { n with actions := n.actions.complete requestId (actionOutcome code value) }
  | .refused _ => n.linkDown peer

/-- A link reports. What an abandoned attempt reports is not listened to. -/
def linkReport (n : Node) (peer : NodeName) (generation : Nat) (report : LinkReport) : Node :=
  match n.links[peer]? with
  | none => n
  | some link =>
    if link.isCurrent generation then
      match report with
      | .connected capacity =>
        { n with links := n.links.insert peer (link.connected capacity) }
      | .message message => n.peerMessage peer link message
      | .failed _ | .closed => n.linkDown peer
    else n

/-! ## What locks and mappings want done -/

/-- Send a request to a peer, if its link lets it through. -/
def sendToPeer (n : Node) (peer : NodeName) (request : Request) : Outcome Unit × Node :=
  match n.links[peer]? with
  | none => (.error .peerUnavailable, n)
  | some link =>
    let (sent, link) := link.send request
    (sent, { n with links := n.links.insert peer link })

/-- Whether this node follows a peer. -/
def follows (n : Node) (peer : NodeName) : Bool :=
  match n.links[peer]? with
  | some link => link.isSubscribed
  | none => false

/-- Send a request to a peer that this node follows. -/
def sendToSubscribed (n : Node) (peer : NodeName) (request : Request) : Outcome Unit × Node :=
  if n.follows peer then n.sendToPeer peer request else (.error .peerUnavailable, n)

/-- Do one thing that the locks want done. -/
def lockEffect (n : Node) : LockEffect → Node
  | .publish event => n.publish event
  | .ratify peer lock acquire => (n.sendToPeer peer (.ratify lock acquire)).2
  | .startTimer lock generation => n.emit (.startTimer lock generation)
  | .lost lock => n.emit (.lost lock)
  | .answer ticket reply => n.emit (.lockAnswer ticket reply)

/-- Do one thing that the mappings want done. A call that cannot be sent has failed. -/
def mappingEffect (n : Node) : MappingEffect → Node
  | .broadcast event => n.publish event
  | .call peer requestId call =>
    match n.sendToSubscribed peer (.mapping requestId call) with
    | (.ok (), n) => n
    | (.error failure, n) =>
      { n with mappings := n.mappings.callCompleted requestId (.error failure) }
  | .answer ticket reply => n.emit (.mappingAnswer ticket reply)
  | .told told => n.emit (.told told)

/-- Carry out what the locks and mappings want done at the moment. -/
def drainOnce (n : Node) : Node :=
  let (lockEffects, locks) := n.locks.takeOutbox
  let (mappingEffects, mappings) := n.mappings.takeOutbox
  mappingEffects.foldl mappingEffect (lockEffects.foldl lockEffect { n with locks, mappings })

/-- Whether the locks and mappings want nothing done. -/
def isQuiet (n : Node) : Bool := n.locks.outbox.isEmpty && n.mappings.outbox.isEmpty

/-- Carry out what the locks and mappings want done until that is nothing, in at most so many
rounds. -/
def drainWithin : Nat → Node → Node
  | 0, n => n
  | rounds + 1, n => if n.isQuiet then n else drainWithin rounds n.drainOnce

/-- Carry out what the locks and mappings want done until that is nothing. Only a session that ends
can make them want more, so there are hardly more rounds than sessions. -/
def drain (n : Node) : Node := drainWithin (n.sessions.size + 2) n

/-- Hand the answers to node actions out. -/
def answerActions (n : Node) : Node :=
  let (answers, actions) := n.actions.takeOutbox
  answers.foldl (fun n answer => n.emit (.actionAnswer answer.1 answer.2)) { n with actions }

/-! ## Requests of callers -/

/-- Run a named action here, or send it to the peer that is to run it. -/
def invoke (n : Node) (node : NodeName) (action : String) (args : Bytes) (ticket : Ticket) :
    Node :=
  if node = n.name then n.emit (.actionAnswer ticket (n.actions.run action args))
  else if n.follows node then
    let (requestId, actions) := n.actions.start node ticket
    match { n with actions }.sendToPeer node (.nodeAction requestId action args) with
    | (.ok (), n) => n
    | (.error failure, n) => { n with actions := n.actions.complete requestId (.error failure) }
  else n.emit (.actionAnswer ticket (.error .peerUnavailable))

/-- Whether news about a cache with this name would be taken for news about a mapping. -/
def isReserved (cache : String) : Bool := (MappingService.mappingOfCache? cache).isSome

/-- Tell every other node that its copy of a cache is out of date. -/
def tellCacheStale (n : Node) (cache : String) (data : Bytes) : Outcome Unit × Node :=
  if isReserved cache then (.error .invalidParameters, n)
  else (.ok (), n.publish (.cacheData cache data))

/-- How many notices may wait for an observer. -/
def observerCapacity : Nat := 64

/-- Let somebody have the news about a cache. -/
def observe (n : Node) (cache : String) (number : Nat) : Node :=
  { n with
    observers := n.observers.insert cache
      (n.observers[cache]?.getD [] ++ [⟨number, .fresh observerCapacity⟩]) }

/-- The peers as others see them. -/
def peers (n : Node) : List LinkStatus := n.links.values.map Link.status

/-- Tell the callers that still wait for other nodes that this one shuts down. -/
def dismissCallers (n : Node) : Node :=
  let n := n.mappings.pending.values.foldl (fun n pending =>
    match pending.waiter with
    | .reply ticket => n.emit (.mappingAnswer ticket (.error .shutDown))
    | .handOff _ _ => n) n
  n.actions.pending.values.foldl
    (fun n pending => n.emit (.actionAnswer pending.ticket (.error .shutDown))) n

/-- Shut down: pass on what the other nodes do not know yet, say goodbye to everybody, and leave
the cluster. -/
def shutDown (n : Node) (now : Nat) : Node :=
  let n := { n with mappings := n.mappings.flush now true }.drain
  let n := { n with locks := n.locks.shutDown }.drain
  let n := n.dismissCallers
  let n := { n with links := n.links.map fun _ (link : Link) => link.logOff.2 }
  let n := n.sessions.toList.foldl
    (fun (n : Node) entry => n.emit (.endSession entry.1 entry.2.queue.hangUp)) n
  { n with sessions := ∅, stopped := true }.emit (.leave n.name)

end Node

/-! ## Everything that can happen -/

/-- What can happen to a node. -/
inductive NodeCommand where
  /-- A link reports. -/
  | link (peer : NodeName) (generation : Nat) (report : LinkReport)
  /-- A node opened a session, whose messages go into a mailbox. -/
  | openSession (number : Nat) (node : NodeName) (queue : Mailbox Message)
  /-- A session asks for something. -/
  | sessionRequest (number : Nat) (request : Request)
  | closeSession (number : Nat)
  /-- Consult the membership store. -/
  | refresh
  /-- The membership store has answered. -/
  | loaded (now : Nat) (answer : Outcome (List NodeRecord))
  /-- Pass changes of mappings on whose time has come, and hand copies to their masters. -/
  | flush (now : Nat)
  | lockTimeout (lock : Lock) (generation : Nat)
  | acquire (lock : Lock) (ticket : Ticket)
  | release (lock : Lock) (ticket : Ticket)
  | query (lock : Lock) (ticket : Ticket)
  | reacquire (lock : Lock)
  | mapping (call : MappingCall) (ticket : Ticket)
  | invoke (node : NodeName) (action : String) (args : Bytes) (ticket : Ticket)
  | tellCacheStale (cache : String) (data : Bytes)
  | observe (cache : String) (number : Nat)
  | listen (index : UInt16) (listener : Listener)
  | shutDown (now : Nat)

namespace Node

/-- What a command does, but for what the locks and mappings want done because of it. -/
def apply (n : Node) : NodeCommand → Node
  | .link peer generation report => n.linkReport peer generation report
  | .openSession number node queue => n.openSession number node queue
  | .sessionRequest number request =>
    match n.sessions[number]? with
    | some session => n.sessionRequest number session request
    | none => n
  | .closeSession number => n.closeSession number
  | .refresh => n.refresh
  | .loaded now answer => n.loaded now answer
  | .flush now => { n with mappings := (n.mappings.flush now false).resumeHandOffs }
  | .lockTimeout lock generation => { n with locks := n.locks.timeout lock generation }
  | .acquire lock ticket => { n with locks := n.locks.acquire lock ticket }
  | .release lock ticket => { n with locks := n.locks.release lock ticket }
  | .query lock ticket => { n with locks := n.locks.query lock ticket }
  | .reacquire lock => { n with locks := n.locks.reacquire lock }
  | .mapping call ticket => { n with mappings := n.mappings.submit call ticket }
  | .invoke node action args ticket => n.invoke node action args ticket
  | .tellCacheStale cache data => (n.tellCacheStale cache data).2
  | .observe cache number => n.observe cache number
  | .listen index listener => { n with mappings := (n.mappings.addListener index listener).2 }
  | .shutDown now => n.shutDown now

/-- The node after a command. Nothing happens to a node that has shut down. -/
def step (n : Node) (command : NodeCommand) : Node :=
  if n.stopped then n else (n.apply command).drain.answerActions

/-- The node after commands, one after the other. -/
def run (n : Node) (commands : List NodeCommand) : Node := commands.foldl step n

/-- A node that has just been started. -/
def start (n : Node) : Node := n.refresh

/-- Hand out what is to be done outside. -/
def takeOutbox (n : Node) : List NodeEffect × Node := (n.outbox, { n with outbox := [] })

end Node

end Cohort

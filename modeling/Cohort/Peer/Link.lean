import Cohort.Mailbox
import Cohort.Membership.Record
import Cohort.Message

/-!
# Links to peers

A `Link` is what a node knows about one remote node: where to reach it, how far the connection to
it has come, and what the remote node told. Every attempt to connect has a generation, so that what
an abandoned attempt still reports can be told apart.

A link goes from `disconnected` through `connecting` and `connected` to `subscribed`, and back to
`disconnected` whenever it fails.

## Main definitions

* `Link.refresh`: take a new membership record in, and decide whether to connect.
* `Link.startConnecting`, `Link.connected`, `Link.subscribe`: the way up.
* `Link.disconnect`, `Link.logOff`: the way down.
* `Link.acceptEvent`, `Link.send`: the link at work.
-/

namespace Cohort

/-- How far a connection has come. -/
inductive LinkState where
  | disconnected
  | connecting
  | connected
  | subscribed
  deriving DecidableEq, Repr

/-- The word for a state. -/
def LinkState.render : LinkState → String
  | disconnected => "disconnected"
  | connecting => "connecting"
  | connected => "connected"
  | subscribed => "subscribed"

/-- What to do after a membership record was taken in. -/
inductive LinkAdvice where
  /-- Nothing: the link is up, or on its way. -/
  | stay
  /-- Nothing: the remote node gave no sign of life since the last attempt, and seems down. -/
  | suppress
  /-- Start an attempt. -/
  | connect
  /-- The remote node moved: drop the link, then start an attempt. -/
  | reconnect
  deriving DecidableEq, Repr

/-- What a remote node told about itself. -/
structure RemoteNode where
  name : NodeName
  bootStamp : Nat
  locks : LockSet
  deriving DecidableEq

/-- A link as others see it. -/
structure LinkStatus where
  name : NodeName
  state : LinkState
  relationship : Relationship
  hostName : String
  port : UInt16
  deriving DecidableEq, Repr

/-- What a node knows about one remote node. -/
structure Link where
  record : NodeRecord
  /-- Where the remote node is reached from here. -/
  hostName : String
  relationship : Relationship
  state : LinkState
  /-- When the last attempt started. -/
  lastConnect : Option Nat
  /-- The number of the latest attempt. -/
  generation : Nat
  /-- The requests of the latest connection. -/
  queue : Option (Mailbox Request)
  remote : Option RemoteNode
  /-- The number of the last event taken in. -/
  lastSequence : Nat
  /-- How many tasks were started to serve the link. -/
  tasks : Nat
  /-- The task that serves the link now. -/
  task : Option Nat
  deriving DecidableEq

namespace Link

/-- A link to a node that was never tried, as seen from the region `here`. -/
def fresh (record : NodeRecord) (here : Option String) : Link where
  record := record
  hostName := record.hostFrom here
  relationship := record.relationshipTo here
  state := .disconnected
  lastConnect := none
  generation := 0
  queue := none
  remote := none
  lastSequence := 0
  tasks := 0
  task := none

/-- The name of the remote node. -/
def name (l : Link) : NodeName := l.record.name

/-- The port of the remote node. -/
def port (l : Link) : UInt16 := l.record.port

/-- Whether the remote node sends its events. -/
def isSubscribed (l : Link) : Bool := l.state = .subscribed

/-- Whether what an attempt reports concerns the current connection. -/
def isCurrent (l : Link) (generation : Nat) : Bool :=
  generation = l.generation && l.state ≠ .disconnected

/-- The link as others see it. -/
def status (l : Link) : LinkStatus := ⟨l.name, l.state, l.relationship, l.hostName, l.port⟩

/-- Whether the remote node gave no sign of life for longer than `window` before the last
attempt. -/
def seemsDown (l : Link) (window : Nat) : Bool :=
  match l.lastConnect with
  | some last => last - l.record.lastUpdated > window
  | none => false

/-- Whether a record places the remote node elsewhere. -/
def hasMoved (l : Link) (record : NodeRecord) (here : Option String) : Bool :=
  record.hostFrom here ≠ l.hostName || record.port ≠ l.port

/-- The link with a new membership record. -/
def withRecord (l : Link) (record : NodeRecord) (here : Option String) : Link :=
  { l with record, hostName := record.hostFrom here, relationship := record.relationshipTo here }

/-- Take a new membership record in, and decide whether to connect. -/
def refresh (l : Link) (record : NodeRecord) (here : Option String) (window : Nat) :
    LinkAdvice × Link :=
  let moved := l.hasMoved record here
  let l := l.withRecord record here
  (if l.state ≠ .disconnected then if moved then .reconnect else .stay
    else if l.seemsDown window then .suppress
    else .connect, l)

/-- Note the start of an attempt. Its generation is the link's from now on. -/
def startConnecting (l : Link) (now : Nat) : Link :=
  { l with
    generation := l.generation + 1
    state := .connecting
    lastConnect := some now
    lastSequence := 0 }

/-- A task serves the link from now on, in place of any other. -/
def attachTask (l : Link) : Link :=
  { l with tasks := l.tasks + 1, task := some l.tasks }

/-- Which of the tasks that were started are at work. -/
def tasksAtWork (l : Link) : List Bool := (List.range l.tasks).map fun i => l.task = some i

/-- The connection is up. -/
def connected (l : Link) (capacity : Nat) : Link :=
  { l with state := .connected, queue := some (.fresh capacity) }

/-- The remote node tells what it holds. One that goes by another name is not taken. -/
def subscribe (l : Link) (snapshot : Snapshot) : Outcome RemoteNode × Link :=
  if snapshot.nodeName = l.name then
    let remote : RemoteNode := ⟨snapshot.nodeName, snapshot.bootStamp, snapshot.locks⟩
    (.ok remote,
      { l with state := .subscribed, lastSequence := snapshot.sequence, remote := some remote })
  else (.error .unexpectedMessage, l)

/-- A remote node that goes by its own name is followed from now on. -/
theorem subscribe_of_named {l : Link} {snapshot : Snapshot} (named : snapshot.nodeName = l.name) :
    (l.subscribe snapshot).2 =
      { l with
        state := .subscribed
        lastSequence := snapshot.sequence
        remote := some ⟨snapshot.nodeName, snapshot.bootStamp, snapshot.locks⟩ } := by
  rw [subscribe, if_pos named]

/-- Whether an event is new. Old and repeated ones are not taken in. -/
def acceptEvent (l : Link) (sequence : Nat) : Bool × Link :=
  if l.state = .subscribed ∧ l.lastSequence < sequence then
    (true, { l with lastSequence := sequence })
  else (false, l)

theorem acceptEvent_of_new {l : Link} {sequence : Nat}
    (new : l.state = .subscribed ∧ l.lastSequence < sequence) :
    l.acceptEvent sequence = (true, { l with lastSequence := sequence }) := by
  rw [acceptEvent, if_pos new]

/-- Change what is known of the remote node. -/
def updateRemote (l : Link) (f : RemoteNode → RemoteNode) : Link :=
  { l with remote := l.remote.map f }

/-- Note a lock as the remote node's. Tells whether that is new, if the remote node is known. -/
def insertRemoteLock (l : Link) (lock : Lock) : Option Bool × Link :=
  (l.remote.map fun remote => !remote.locks.contains lock,
    l.updateRemote fun remote => { remote with locks := remote.locks.insert lock })

/-- Note a lock as no longer the remote node's. Tells whether it was, if the remote node is
known. -/
def eraseRemoteLock (l : Link) (lock : Lock) : Option Bool × Link :=
  (l.remote.map fun remote => remote.locks.contains lock,
    l.updateRemote fun remote => { remote with locks := remote.locks.erase lock })

/-- The mailbox of a connection that is up. -/
def outbound? (l : Link) : Option (Mailbox Request) := l.queue.filter (·.sending)

/-- Send a request. -/
def send (l : Link) (request : Request) : Outcome Unit × Link :=
  match l.outbound?.bind (·.offer? request) with
  | some box => (.ok (), { l with queue := some box })
  | none => (.error .peerUnavailable, l)

/-- Drop the connection. Tells what was known of the remote node. -/
def disconnect (l : Link) : Option RemoteNode × Link :=
  (l.remote, { l with
    state := .disconnected
    queue := l.queue.map Mailbox.hangUp
    remote := none
    task := none })

/-- Say goodbye and drop the connection. What was sent before still goes out. -/
def logOff (l : Link) : Option RemoteNode × Link :=
  let (_, l) := l.send .logOff
  { l with generation := l.generation + 1 }.disconnect

/-- Take out the requests of the latest connection, as long as its writer is there. -/
def takeRequests (l : Link) : List Request × Link :=
  match l.queue with
  | some box =>
    if box.receiving then (box.take.1, { l with queue := some box.take.2 }) else ([], l)
  | none => ([], l)

/-- The writer of the latest connection goes away. -/
def abandonQueue (l : Link) : Link := { l with queue := l.queue.map Mailbox.abandon }

/-- Whether nobody sends to the writer of the latest connection; nothing when there is no such
writer. -/
def isHungUp? (l : Link) : Option Bool :=
  match l.queue with
  | some box => if box.receiving then some (!box.sending) else none
  | none => none

end Link

end Cohort

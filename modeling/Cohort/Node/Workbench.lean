import Cohort.Mapping.Counters
import Cohort.Membership.MemoryStore
import Cohort.Node.Basic
import Cohort.Timers

/-!
# A node on a workbench

A `Workbench` runs one node without a network: its clock, its timers and its membership store are
values, and every attempt to connect to a peer fails at once. All mappings are mappings of
counters. What is asked of the node is answered as far as it can be before anything else happens.

A call is known by the number of the step that made it. `Workbench.takeReport` hands out what
happened since the last time: the calls that were answered, and what listeners and others
remarked.

## Main definitions

* `Workbench.assemble`, `Workbench.start`: the node before and after it is started.
* `Workbench.acquire`, `Workbench.perform`, `Workbench.put`, …: calls, answered in the report.
* `Workbench.lockState`, `Workbench.peers`, …: questions, answered at once.
* `Workbench.advance`: let time pass.
-/

namespace Cohort

/-- What the answer to a call reads as. -/
inductive Reading where
  | unit
  | u32
  | u64
  | optionalU32
  | bool
  | text
  | texts
  deriving DecidableEq, Repr

/-- What a call was answered with. -/
inductive CallValue where
  | unit
  | number (n : Nat)
  | optional (n : Option Nat)
  | flag (b : Bool)
  | text (s : String)
  | texts (s : List String)
  | owner (node : Option NodeName)
  deriving DecidableEq, Repr

namespace Reading

/-- Read a value off a payload. -/
def read {α : Type} (codec : Codec α) (f : α → CallValue) (bs : Bytes) : Outcome CallValue :=
  (codec.decode bs).map f

/-- What a payload reads as. -/
def decode : Reading → Bytes → Outcome CallValue
  | unit => read Codec.unit fun _ => .unit
  | u32 => read Codec.u32 fun n => .number n.toNat
  | u64 => read Codec.u64 fun n => .number n.toNat
  | optionalU32 => read Codec.u32.optional fun n => .optional (n.map UInt32.toNat)
  | bool => read Codec.bool .flag
  | text => read Codec.text .text
  | texts => read Codec.text.list .texts

/-- What the answer of an action on a mapping reads as. There has to be one. -/
def ofMapping (reading : Reading) : MappingReply → Outcome CallValue
  | .ok (some bs) => reading.decode bs
  | .ok none => .error .codec
  | .error failure => .error failure

/-- What the answer of a node action reads as. -/
def ofAction (reading : Reading) : ActionReply → Outcome CallValue
  | .ok bs => reading.decode bs
  | .error failure => .error failure

/-- What a counter that may be missing reads as. -/
def ofEntry : MappingReply → Outcome CallValue
  | .ok none => .ok (.optional none)
  | .ok (some bs) => read Codec.u32 (fun n => .optional (some n.toNat)) bs
  | .error failure => .error failure

end Reading

/-- How a call ended. -/
inductive CallEnd where
  | one (outcome : Outcome CallValue)
  /-- An action that was run on several nodes, and how it went on each. -/
  | each (outcomes : List (NodeName × Outcome CallValue))

/-- What to do with the answer to a ticket. -/
inductive Errand where
  /-- Tell the owner of a lock. -/
  | owner (step : Nat)
  /-- Run a body if this node has the lock now. -/
  | body (step : Nat) (lock : Lock) (waits : Bool)
  /-- A body has run, and its lock was released or not. -/
  | bodyEnd (step : Nat)
  /-- Tell the old value of a counter. -/
  | entry (step : Nat)
  /-- Tell nothing but that it went well. -/
  | plain (step : Nat)
  /-- Tell the result of an action on a mapping. -/
  | mapping (step : Nat) (reading : Reading)
  /-- Tell the result of a node action. -/
  | action (step : Nat) (reading : Reading)
  /-- Note the result of a node action on one of several nodes. -/
  | part (step : Nat) (node : NodeName) (reading : Reading)
  deriving DecidableEq, Repr

/-- An action that runs on several nodes. -/
structure Round where
  nodes : List NodeName
  answers : List (NodeName × Outcome CallValue)

/-- What a timer of the node reports. -/
inductive Alarm where
  | refresh
  | flush
  | lockTimeout (lock : Lock) (generation : Nat)
  deriving DecidableEq, Repr

/-- What happened since the last time. -/
structure BenchReport where
  /-- The calls that ended, by step. -/
  ended : List (Nat × CallEnd)
  /-- What listeners and bodies remarked. -/
  remarks : List String
  /-- The locks that were lost. -/
  lost : List Lock
  /-- The news that observers got. -/
  notices : List (Nat × CacheNotice)

/-- One node without a network. -/
structure Workbench where
  node : Node
  store : MemoryStore
  /-- Whether the store fails to load records. -/
  failLoad : Bool
  /-- Whether the store fails to take records. -/
  failHeartbeat : Bool
  /-- The time of the real clock, which stands still. -/
  now : Nat
  timers : Timers Alarm
  /-- What to do with the answers that are still to come. -/
  errands : Std.ExtTreeMap Ticket Errand
  lastTicket : Ticket
  /-- The actions that run on several nodes, by step. -/
  rounds : Std.ExtTreeMap Nat Round
  /-- The bodies that wait to be let go, with the lock each holds. -/
  bodies : List (Nat × Lock)
  observerCount : Nat
  /-- The nodes whose records were ever in the store. -/
  known : NameSet
  report : BenchReport

namespace Workbench

/-- Nothing happened. -/
def emptyReport : BenchReport := ⟨[], [], [], []⟩

/-- A node that was not started yet. -/
def assemble (node : Node) (now : Nat) : Workbench where
  node := node
  store := .empty
  failLoad := false
  failHeartbeat := false
  now := now
  timers := .fresh
  errands := ∅
  lastTicket := 0
  rounds := ∅
  bodies := []
  observerCount := 0
  known := ∅
  report := emptyReport

/-- The name of the node. -/
def name (b : Workbench) : NodeName := b.node.name

/-- A call has ended. -/
def finish (b : Workbench) (step : Nat) (outcome : CallEnd) : Workbench :=
  { b with report := { b.report with ended := b.report.ended ++ [(step, outcome)] } }

/-- Somebody remarked something. -/
def remark (b : Workbench) (remarks : List String) : Workbench :=
  { b with report := { b.report with remarks := b.report.remarks ++ remarks } }

/-- A call waits for an answer. Tells its ticket. -/
def await (b : Workbench) (errand : Errand) : Ticket × Workbench :=
  let ticket := b.lastTicket + 1
  (ticket, { b with lastTicket := ticket, errands := b.errands.insert ticket errand })

/-! ## What the node wants done -/

/-- Stamp a record in the store and load all records. -/
def consult (b : Workbench) (record : NodeRecord) : Outcome (List NodeRecord) × Workbench :=
  let store := if b.failHeartbeat then b.store else (b.store.heartbeat b.now record).2
  (if b.failLoad then .error .io else store.load, { b with store })

/-- One more node answered an action that runs on several. -/
def notePart (b : Workbench) (step : Nat) (node : NodeName) (outcome : Outcome CallValue) :
    Workbench :=
  match b.rounds[step]? with
  | none => b
  | some round =>
    let answers := round.answers ++ [(node, outcome)]
    if answers.length < round.nodes.length then
      { b with rounds := b.rounds.insert step { round with answers } }
    else
      let inOrder := round.nodes.filterMap fun node => answers.find? fun answer => answer.1 = node
      { b with rounds := b.rounds.erase step }.finish step (.each inOrder)

/-- A body runs, as its lock was settled. Tells the commands that come of it. -/
def runBody (b : Workbench) (step : Nat) (lock : Lock) (waits : Bool) :
    LockReply → List NodeCommand × Workbench
  | .error failure => ([], b.finish step (.one (.error failure)))
  | .ok owner =>
    if owner = some b.name then
      let b := b.remark ["performing " ++ toString step]
      if waits then ([], { b with bodies := b.bodies ++ [(step, lock)] })
      else
        let (ticket, b) := b.await (.bodyEnd step)
        ([.release lock ticket], b)
    else ([], b.finish step (.one (.error .lockContended)))

/-- The answer about a lock. -/
def lockAnswer (b : Workbench) (errand : Errand) (reply : LockReply) :
    List NodeCommand × Workbench :=
  match errand with
  | .owner step => ([], b.finish step (.one (reply.map .owner)))
  | .body step lock waits => b.runBody step lock waits reply
  | .bodyEnd step => ([], b.finish step (.one (.ok (.number step))))
  | _ => ([], b)

/-- The answer about a mapping. -/
def mappingAnswer (b : Workbench) (errand : Errand) (reply : MappingReply) : Workbench :=
  match errand with
  | .entry step => b.finish step (.one (Reading.ofEntry reply))
  | .plain step => b.finish step (.one (reply.map fun _ => .unit))
  | .mapping step reading => b.finish step (.one (reading.ofMapping reply))
  | _ => b

/-- The answer of an action. -/
def actionAnswer (b : Workbench) (errand : Errand) (reply : ActionReply) : Workbench :=
  match errand with
  | .action step reading => b.finish step (.one (reading.ofAction reply))
  | .part step node reading => b.notePart step node (reading.ofAction reply)
  | _ => b

/-- Take what was to be done with the answer to a ticket. -/
def takeErrand (b : Workbench) (ticket : Ticket) : Option Errand × Workbench :=
  (b.errands[ticket]?, { b with errands := b.errands.erase ticket })

/-- Do one thing that the node wants done. Tells the commands that come of it. -/
def carryOut (b : Workbench) : NodeEffect → List NodeCommand × Workbench
  | .consult record =>
    let (answer, b) := b.consult record
    ([.loaded b.now answer], b)
  | .connect peer generation _ => ([.link peer generation (.failed .network)], b)
  | .startTimer lock generation =>
    ([], { b with
      timers := b.timers.scheduleOnce b.node.config.lockTimeout (.lockTimeout lock generation) })
  | .lost lock => ([], { b with report := { b.report with lost := b.report.lost ++ [lock] } })
  | .lockAnswer ticket reply =>
    match b.takeErrand ticket with
    | (some errand, b) => b.lockAnswer errand reply
    | (none, b) => ([], b)
  | .mappingAnswer ticket reply =>
    match b.takeErrand ticket with
    | (some errand, b) => ([], b.mappingAnswer errand reply)
    | (none, b) => ([], b)
  | .actionAnswer ticket reply =>
    match b.takeErrand ticket with
    | (some errand, b) => ([], b.actionAnswer errand reply)
    | (none, b) => ([], b)
  | .told told => ([], b.remark told.reaction.remarks)
  | .endSession .. | .forgetPeer .. => ([], b)
  | .leave name =>
    ([], { b with
      store := if b.failHeartbeat then b.store else (b.store.shutDown name).2
      timers := b.timers.shutDown })

/-- Do what the node wants done, in order. Tells the commands that come of it. -/
def carryOutAll (b : Workbench) : List NodeEffect → List NodeCommand × Workbench
  | [] => ([], b)
  | effect :: rest =>
    let (commands, b) := b.carryOut effect
    let (more, b) := b.carryOutAll rest
    (commands ++ more, b)

/-- Give the node commands, and those that come of them, but no more than `limit`. -/
def handle : Nat → List NodeCommand → Workbench → Workbench
  | 0, _, b => b
  | _, [], b => b
  | limit + 1, command :: rest, b =>
    let (effects, node) := (b.node.step command).takeOutbox
    let (commands, b) := { b with node }.carryOutAll effects
    handle limit (rest ++ commands) b

/-- More commands than can come of one: the store is consulted twice at most, every record leads to
one attempt to connect, and every errand to one release. -/
def commandLimit (b : Workbench) : Nat :=
  4 * (b.store.records.size + b.errands.size + b.bodies.length) + 16

/-- Give the node a command, and everything that comes of it. -/
def command (b : Workbench) (command : NodeCommand) : Workbench :=
  handle b.commandLimit [command] b

/-- Start the node: it looks at the store, now and then again, and for changes to pass on. -/
def start (b : Workbench) : Workbench :=
  let timers := (b.timers.scheduleRepeating b.node.config.refreshInterval .refresh)
    |>.scheduleRepeating b.node.config.flushInterval .flush
  { b with timers }.command .refresh

/-! ## Calls -/

/-- A call that the node is to be given a command for, unless it has shut down. -/
def call (b : Workbench) (step : Nat) (errand : Errand) (ofTicket : Ticket → NodeCommand) :
    Workbench :=
  if b.node.stopped then b.finish step (.one (.error .shutDown))
  else
    let (ticket, b) := b.await errand
    b.command (ofTicket ticket)

/-- Try to take a lock. -/
def acquire (b : Workbench) (step : Nat) (lock : Lock) : Workbench :=
  b.call step (.owner step) (.acquire lock)

/-- Give up a lock. -/
def release (b : Workbench) (step : Nat) (lock : Lock) : Workbench :=
  b.call step (.owner step) (.release lock)

/-- Ask for the owner of a lock, once that is settled. -/
def query (b : Workbench) (step : Nat) (lock : Lock) : Workbench :=
  b.call step (.owner step) (.query lock)

/-- Take a lock, run a body that may wait to be let go, and release the lock. -/
def perform (b : Workbench) (step : Nat) (lock : Lock) (waits : Bool) : Workbench :=
  b.call step (.body step lock waits) (.acquire lock)

/-- A body that waited goes on: it is done, and its lock is released. -/
def endBody (b : Workbench) (body : Nat × Lock) : Workbench :=
  if b.node.stopped then b.finish body.1 (.one (.ok (.number body.1)))
  else b.call body.1 (.bodyEnd body.1) (.release body.2)

/-- Every body that waits goes on. -/
def letGo (b : Workbench) : Workbench :=
  b.bodies.foldl endBody { b with bodies := [] }

/-- A call on a mapping, which has to be configured. -/
def mappingCall (b : Workbench) (step : Nat) (mapping : String) (errand : Errand)
    (ofIndex : UInt16 → MappingCall) : Workbench :=
  match b.node.mappings.index? mapping with
  | .error failure => b.finish step (.one (.error failure))
  | .ok index => b.call step errand (.mapping (ofIndex index))

/-- The octets of a counter's name. -/
def keyOf (key : String) : Bytes := Codec.text.encode key

/-- Ask for a counter. -/
def get (b : Workbench) (step : Nat) (mapping key : String) : Workbench :=
  b.mappingCall step mapping (.entry step) fun index => .get index (keyOf key)

/-- Set a counter. -/
def put (b : Workbench) (step : Nat) (mapping key : String) (n : UInt32) : Workbench :=
  b.mappingCall step mapping (.entry step) fun index =>
    .put index (keyOf key) (Codec.u32.encode n)

/-- Delete a counter. -/
def remove (b : Workbench) (step : Nat) (mapping key : String) : Workbench :=
  b.mappingCall step mapping (.entry step) fun index => .remove index (keyOf key)

/-- Set and delete several counters. -/
def sync (b : Workbench) (step : Nat) (mapping : String)
    (changes : List (String × Option UInt32)) : Workbench :=
  b.mappingCall step mapping (.plain step) fun index =>
    .sync index (changes.map fun change => keyOf change.1)
      (changes.map fun change => change.2.map Codec.u32.encode)

/-- Run an action on one counter. -/
def withValue (b : Workbench) (step : Nat) (mapping key action : String) (args : Bytes)
    (reading : Reading) : Workbench :=
  b.mappingCall step mapping (.mapping step reading) fun index =>
    .withValue index (keyOf key) action args

/-- Run an action on all counters of a mapping. -/
def withAll (b : Workbench) (step : Nat) (mapping action : String) (args : Bytes)
    (reading : Reading) : Workbench :=
  b.mappingCall step mapping (.mapping step reading) fun index => .withAll index action args

/-- Run a node action. -/
def invoke (b : Workbench) (step : Nat) (node action : String) (args : Bytes)
    (reading : Reading) : Workbench :=
  b.call step (.action step reading) (.invoke node action args)

/-- The node itself and the peers it follows. -/
def audience (b : Workbench) : List NodeName :=
  b.name :: (b.node.peers.filter fun status => status.state = .subscribed).map LinkStatus.name

/-- Run a node action on this node and all peers it follows, except for some. -/
def invokeAll (b : Workbench) (step : Nat) (action : String) (args : Bytes) (reading : Reading)
    (excluded : List NodeName) : Workbench :=
  if b.node.stopped then b.finish step (.one (.error .shutDown))
  else
    let nodes := b.audience.filter fun node => !excluded.contains node
    if nodes.isEmpty then b.finish step (.each [])
    else
      nodes.foldl
        (fun b node => b.call step (.part step node reading) (.invoke node action args))
        { b with rounds := b.rounds.insert step ⟨nodes, []⟩ }

/-! ## Questions and instructions -/

/-- What a running node says; one that has shut down says so. -/
def ask {α : Type} (b : Workbench) (outcome : Outcome α) : Outcome α :=
  if b.node.stopped then .error .shutDown else outcome

/-- Keep a lock that is being released. Tells whether it was. -/
def reacquire (b : Workbench) (lock : Lock) : Outcome Bool × Workbench :=
  (b.ask (.ok (b.node.locks.isReleasing lock)), b.command (.reacquire lock))

/-- What the node knows about a lock. -/
def lockState (b : Workbench) (lock : Lock) : Outcome LockState :=
  b.ask (.ok (b.node.locks.state lock))

/-- How often locks changed hands. -/
def lockStats (b : Workbench) : Outcome LockStats := b.ask (.ok b.node.locks.stats)

/-- The index of a mapping, which is known even to a node that has shut down. -/
def onMapping {α : Type} (b : Workbench) (mapping : String) (f : UInt16 → Outcome α) :
    Outcome α :=
  match b.node.mappings.index? mapping with
  | .error failure => .error failure
  | .ok index => b.ask (f index)

/-- An entry of a mapping of counters, read. -/
def readEntry (entry : Bytes × Bytes) : Outcome (String × UInt32) := do
  return (← Codec.text.decode entry.1, ← Codec.u32.decode entry.2)

/-- The entries of a mapping that every node has a copy of. -/
def entries (b : Workbench) (mapping : String) : Outcome (List (String × UInt32)) :=
  b.onMapping mapping fun index => do
    (← b.node.mappings.entries? index).toList.mapM readEntry

/-- The master of a mapping with a single copy. -/
def masterOf (b : Workbench) (mapping : String) : Outcome (Option NodeName) :=
  b.onMapping mapping fun index => .ok (b.node.mappings.masterOf index)

/-- Let a listener watch a mapping. -/
def listen (b : Workbench) (mapping : String) (listener : Listener) :
    Outcome Unit × Workbench :=
  match b.node.mappings.index? mapping with
  | .error failure => (.error failure, b)
  | .ok index =>
    (b.ask (b.node.mappings.addListener index listener).1, b.command (.listen index listener))

/-- Tell every other node that its copy of a cache is out of date. -/
def tellCacheStale (b : Workbench) (cache : String) (data : Bytes) : Outcome Unit × Workbench :=
  (b.ask (b.node.tellCacheStale cache data).1, b.command (.tellCacheStale cache data))

/-- Let an observer have the news about a cache. Tells its number. -/
def observe (b : Workbench) (cache : String) : Outcome Nat × Workbench :=
  if b.node.stopped then (.error .shutDown, b)
  else
    (.ok b.observerCount,
      { b with observerCount := b.observerCount + 1 }.command (.observe cache b.observerCount))

/-- An observer goes away. -/
def dismissObserver (b : Workbench) (number : Nat) : Workbench :=
  { b with
    node := { b.node with
      observers := b.node.observers.map fun _ observers => observers.map fun observer =>
        if observer.number = number then { observer with box := observer.box.abandon }
        else observer } }

/-- Look at the store so many times. A node that has shut down minds only if it is asked at all. -/
def refresh (b : Workbench) (times : Nat) : Outcome Unit × Workbench :=
  (if times = 0 then .ok () else b.ask (.ok ()),
    (List.replicate times ()).foldl (fun b _ => b.command .refresh) b)

/-- The peers as the node sees them. -/
def peers (b : Workbench) : Outcome (List LinkStatus) := b.ask (.ok b.node.peers)

/-- Shut the node down. -/
def shutDown (b : Workbench) : Workbench := b.command (.shutDown b.now)

/-- Put the record of a node into the store that gave a sign of life so long ago. -/
def enroll (b : Workbench) (record : NodeRecord) (age : Nat) : Workbench :=
  { b with
    store := b.store.insert { record with lastUpdated := b.now - age }
    known := b.known.insert record.name }

/-- Take the record of a node out of the store. -/
def strikeOff (b : Workbench) (name : NodeName) : Workbench :=
  { b with store := b.store.remove name }

/-- What a timer tells the node. -/
def alarmCommand (b : Workbench) : Alarm → NodeCommand
  | .refresh => .refresh
  | .flush => .flush b.now
  | .lockTimeout lock generation => .lockTimeout lock generation

/-- One millisecond passes. -/
def tick (b : Workbench) : Workbench :=
  let (alarms, timers) := b.timers.tick
  alarms.foldl (fun b alarm => b.command (b.alarmCommand alarm)) { b with timers }

/-- Let time pass, in milliseconds. -/
def advance (b : Workbench) (time : Nat) : Workbench :=
  (List.range time).foldl (fun b _ => b.tick) b

/-! ## Reports -/

/-- Collect the news that observers got. -/
def collectNotices (b : Workbench) : Workbench :=
  let observers := b.node.observers.values.flatten
  let notices := observers.flatMap fun observer =>
    observer.box.waiting.map fun notice => (observer.number, notice)
  { b with
    node := { b.node with
      observers := b.node.observers.map fun _ observers => observers.map fun observer =>
        { observer with box := observer.box.take.2 } }
    report := { b.report with notices := b.report.notices ++ notices } }

/-- Hand out what happened, with the calls that ended by step. -/
def takeReport (b : Workbench) : BenchReport × Workbench :=
  let b := b.collectNotices
  ({ b.report with ended := b.report.ended.mergeSort fun a c => a.1 ≤ c.1 },
    { b with report := emptyReport })

/-- The steps whose calls were not answered, in order. -/
def unanswered (b : Workbench) : List Nat :=
  let ofErrands := b.errands.values.filterMap fun
    | .owner step | .body step _ _ | .bodyEnd step | .entry step | .plain step
    | .mapping step _ | .action step _ => some step
    | .part .. => none
  (ofErrands ++ b.rounds.keys ++ b.bodies.map Prod.fst).mergeSort

end Workbench

end Cohort

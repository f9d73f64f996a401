import Cohort.Mapping.Basic
import Cohort.Ring
import Cohort.Wire.Message

/-!
# The mapping service

The `MappingService` of a node holds the node's side of every mapping. Mappings are configured
before the node starts, in the same order on every node, and are known by an index from then on.

The masters of single-copy mappings are drawn from the ministers: the first few, by name, of the
nodes that are alive. When the ministers change, a node that holds a copy it no longer masters
hands it off, and keeps the entries parked until the new master has acknowledged them.

The service does no input or output. What it wants published or called, the answers to callers and
what listeners were told go into its `outbox` in the order in which they come up.

## Main definitions

* `MappingService.configure`, `MappingService.close`: before the node starts.
* `MappingService.submit`, `MappingService.handleCall`: calls from here and from other nodes.
* `MappingService.callCompleted`: the answer to a call sent to another node.
* `MappingService.cacheData`: news about a replicated mapping.
* `MappingService.flush`, `MappingService.updateMinistry`, `MappingService.resumeHandOffs`.
-/

namespace Cohort

/-- Who waits for the answer to a call sent to another node. -/
inductive CallWaiter where
  /-- A caller here. -/
  | reply (ticket : Ticket)
  /-- The node itself: it handed these entries of a mapping to a new master. -/
  | handOff (index : UInt16) (entries : Entries)

/-- A call that was sent to another node and not answered yet. -/
structure PendingCall where
  peer : NodeName
  waiter : CallWaiter

/-- The answer to a call on a mapping. -/
abbrev MappingReply := Outcome (Option Bytes)

/-- What a mapping service wants done. -/
inductive MappingEffect where
  /-- Publish an event to all subscribers. -/
  | broadcast (event : NodeEvent)
  /-- Send a call to another node. -/
  | call (peer : NodeName) (requestId : Nat) (call : MappingCall)
  /-- Answer a caller. -/
  | answer (ticket : Ticket) (reply : MappingReply)
  /-- A listener was told of a change. -/
  | told (told : Told)

/-- The node's side of every mapping. -/
structure MappingService where
  node : NodeName
  /-- Whether the configuration is closed. -/
  isSealed : Bool
  mappings : Std.ExtTreeMap UInt16 Mapping
  indexOf : Std.ExtTreeMap String UInt16
  /-- How many ministers there are. -/
  ministerCount : Nat
  ring : Ring
  /-- The number of the latest call sent to another node. -/
  lastRequest : Nat
  pending : Std.ExtTreeMap Nat PendingCall
  /-- What is to be done, in the order in which it came up. -/
  outbox : List MappingEffect

namespace MappingService

/-- A service without mappings, whose node knows nobody. At least one minister is needed. -/
def fresh (node : NodeName) (ministerCount : Nat) : MappingService where
  node := node
  isSealed := false
  mappings := ∅
  indexOf := ∅
  ministerCount := max ministerCount 1
  ring := .ofNodes Ring.defaultShare (.ofList [node])
  lastRequest := 0
  pending := ∅
  outbox := []

/-! ## Configuration -/

/-- Add a mapping. The first one gets the index one, and so on. -/
def configure (s : MappingService) (id : String) (replication : Replication) :
    Outcome UInt16 × MappingService :=
  if s.isSealed then (.error .configurationClosed, s)
  else if id ∈ s.indexOf then (.error .duplicateMapping, s)
  else if s.mappings.size + 1 < UInt16.size then
    let index := UInt16.ofNat (s.mappings.size + 1)
    (.ok index, { s with
      mappings := s.mappings.insert index (.fresh id index replication)
      indexOf := s.indexOf.insert id index })
  else (.error .invalidParameters, s)

/-- Add so many mappings with numbered ids, as far as that goes. Tells how many were added, and what
came of the last one. -/
def configureNumbered (s : MappingService) (stem : String) (count : Nat)
    (replication : Replication) : (Nat × Option (Outcome UInt16)) × MappingService :=
  (List.range count).foldl (fun ((added, _), s) number =>
    let (outcome, s) := configure s (stem ++ toString number) replication
    ((if outcome.isOk then added + 1 else added, some outcome), s)) ((0, none), s)

/-- The index of a mapping. -/
def index? (s : MappingService) (id : String) : Outcome UInt16 :=
  match s.indexOf[id]? with
  | some index => .ok index
  | none => .error .unknownMapping

/-- The mapping with an index. -/
def mapping? (s : MappingService) (index : UInt16) : Outcome Mapping :=
  match s.mappings[index]? with
  | some m => .ok m
  | none => .error .unknownMapping

/-- Put a mapping back in its place. -/
def store (s : MappingService) (m : Mapping) : MappingService :=
  { s with mappings := s.mappings.insert m.index m }

/-- Register something on a mapping, while the configuration is open. -/
def register (s : MappingService) (id : String) (f : Mapping → Mapping) :
    Outcome Unit × MappingService :=
  if s.isSealed then (.error .configurationClosed, s)
  else
    match s.index? id >>= s.mapping? with
    | .ok m => (.ok (), s.store (f m))
    | .error failure => (.error failure, s)

/-- Register a named action on single values. -/
def registerValueAction (s : MappingService) (id name : String) (action : ValueAction) :
    Outcome Unit × MappingService :=
  s.register id fun m => { m with valueActions := m.valueActions.insert name action }

/-- Register a named action on a whole mapping. -/
def registerMapAction (s : MappingService) (id name : String) (action : MapAction) :
    Outcome Unit × MappingService :=
  s.register id fun m => { m with mapActions := m.mapActions.insert name action }

/-- Close the configuration. -/
def close (s : MappingService) : MappingService := { s with isSealed := true }

/-! ## Questions -/

/-- How a mapping is shared. -/
def replication? (s : MappingService) (index : UInt16) : Outcome Replication :=
  (s.mapping? index).map Mapping.replication

/-- The master of a single-copy mapping. -/
def masterOf (s : MappingService) (index : UInt16) : Option NodeName :=
  match s.mappings[index]? with
  | some m => if m.replication.isReplicated then none else s.ring.masterOf m.id
  | none => none

/-- The entries of a replicated mapping. -/
def entries? (s : MappingService) (index : UInt16) : Outcome Entries :=
  match s.mapping? index with
  | .ok m => if m.replication.isReplicated then .ok m.entries else .error .wrongMappingKind
  | .error failure => .error failure

/-- Register a listener, at any time. -/
def addListener (s : MappingService) (index : UInt16) (listener : Listener) :
    Outcome Unit × MappingService :=
  match s.mapping? index with
  | .ok m => (.ok (), s.store { m with listeners := m.listeners ++ [listener] })
  | .error failure => (.error failure, s)

/-! ## Calls -/

/-- Something to be done. -/
def emit (s : MappingService) (effect : MappingEffect) : MappingService :=
  { s with outbox := s.outbox ++ [effect] }

/-- Note what listeners were told. -/
def emitTold (s : MappingService) (told : List Told) : MappingService :=
  { s with outbox := s.outbox ++ told.map .told }

/-- The event that tells the other nodes of changes. -/
def syncEvent (m : Mapping) (changes : Changes) : NodeEvent :=
  .cacheData m.cacheName (MappingCall.codec.encode (m.syncCall changes))

/-- Pass changes that were made here on to the other nodes, as the mapping's replication asks. -/
def propagate (s : MappingService) (m : Mapping) (changes : List Change) : MappingService :=
  if changes.isEmpty then s
  else
    match m.replication with
    | .immediate => s.emit (.broadcast (syncEvent m (.ofList changes)))
    | .batched _ => s.store { m with dirty := m.dirty.insertMany changes }
    | .single => s

/-- Make changes of a mapping, tell the listeners, and pass the changes on. -/
def commit (s : MappingService) (m : Mapping) (changes : List Change) : MappingService :=
  let (m, told) := m.apply changes
  ((s.store m).emitTold told).propagate m changes

/-- Run a call on the copy that is kept here. -/
def run (s : MappingService) (call : MappingCall) : MappingReply × MappingService :=
  match s.mapping? call.index with
  | .error failure => (.error failure, s)
  | .ok m =>
    match m.plan call with
    | .error failure => (.error failure, s)
    | .ok (changes, reply) => (.ok reply, s.commit m changes)

/-- Send a call to another node. -/
def sendCall (s : MappingService) (peer : NodeName) (call : MappingCall) (waiter : CallWaiter) :
    MappingService :=
  let requestId := s.lastRequest + 1
  { s with
    lastRequest := requestId
    pending := s.pending.insert requestId ⟨peer, waiter⟩ }.emit (.call peer requestId call)

/-- Answer a caller. -/
def answer (s : MappingService) (ticket : Ticket) (reply : MappingReply) : MappingService :=
  s.emit (.answer ticket reply)

/-- Run a call here and answer its caller. -/
def runFor (s : MappingService) (call : MappingCall) (ticket : Ticket) : MappingService :=
  let (reply, s) := s.run call
  s.answer ticket reply

/-- A call of a caller here: it runs on the copy kept here, or is sent to the master. -/
def submit (s : MappingService) (call : MappingCall) (ticket : Ticket) : MappingService :=
  match s.replication? call.index with
  | .error failure => s.answer ticket (.error failure)
  | .ok replication =>
    if replication.isReplicated then s.runFor call ticket
    else
      match s.masterOf call.index with
      | none => s.answer ticket (.error .noMaster)
      | some master =>
        if master = s.node then s.runFor call ticket
        else s.sendCall master call (.reply ticket)

/-- A call that another node sent. Entries handed off are taken whoever the master is. -/
def handleCall (s : MappingService) (call : MappingCall) : MappingReply × MappingService :=
  match s.replication? call.index with
  | .error failure => (.error failure, s)
  | .ok replication =>
    if replication.isReplicated then (.error .wrongMappingKind, s)
    else
      match call with
      | .handOff .. => s.run call
      | _ => if s.masterOf call.index = some s.node then s.run call else (.error .notMaster, s)

/-- Put entries back that a new master did not take, but for keys that are there again. -/
def restore (s : MappingService) (index : UInt16) (entries : Entries) : MappingService :=
  match s.mappings[index]? with
  | some m =>
    s.store { m with
      entries := entries.toList.foldl
        (fun kept entry => kept.insertIfNew entry.1 entry.2) m.entries }
  | none => s

/-- A call that was sent to another node has ended. -/
def callCompleted (s : MappingService) (requestId : Nat) (reply : MappingReply) :
    MappingService :=
  match s.pending[requestId]? with
  | none => s
  | some pending =>
    let s := { s with pending := s.pending.erase requestId }
    match pending.waiter with
    | .reply ticket => s.answer ticket reply
    | .handOff index entries =>
      match reply with
      | .ok _ => s
      | .error _ => s.restore index entries

/-- The calls that wait for a peer, oldest first. -/
def callsTo (s : MappingService) (peer : NodeName) : List Nat :=
  (s.pending.toList.filter fun entry => entry.2.peer = peer).map Prod.fst

/-- A peer went away: the calls that wait for it fail. -/
def peerDisconnected (s : MappingService) (peer : NodeName) : MappingService :=
  (s.callsTo peer).foldl (fun s requestId => s.callCompleted requestId (.error .peerUnavailable)) s

/-! ## News from other nodes -/

/-- The mapping that news are about, if they are about a mapping at all. -/
def mappingOfCache? (cache : String) : Option String :=
  if Mapping.cacheMark.toList.isPrefixOf cache.toList then
    some (String.ofList (cache.toList.drop Mapping.cacheMark.length))
  else none

/-- The changes that news consist of. -/
def changesOf? (data : Bytes) : Option (List Change) :=
  match MappingCall.codec.decode? data with
  | some (.sync _ keys values) =>
    if keys.length = values.length then some (keys.zip values) else none
  | _ => none

/-- News that another node published. Tells whether they were about a mapping; if so, and if they
make sense, their changes are made here too. -/
def cacheData (s : MappingService) (cache : String) (data : Bytes) : Bool × MappingService :=
  match mappingOfCache? cache with
  | none => (false, s)
  | some id =>
    match s.index? id >>= s.mapping?, changesOf? data with
    | .ok m, some changes =>
      let (m, told) := m.apply changes
      (true, (s.store m).emitTold told)
    | _, _ => (true, s)

/-- Tell the other nodes of the changes of one mapping that they do not know yet, if time has come
or `force` is set. -/
def flushOne (now : Nat) (force : Bool) (s : MappingService) (m : Mapping) : MappingService :=
  match m.replication with
  | .batched interval =>
    if m.dirty.isEmpty then s
    else if m.isDue interval now || force then
      (s.store { m with dirty := ∅, lastFlush := some now }).emit
        (.broadcast (syncEvent m m.dirty))
    else s
  | _ => s

/-- Tell the other nodes of the changes that they do not know yet and whose time has come, or of
all of them if `force` is set. -/
def flush (s : MappingService) (now : Nat) (force : Bool) : MappingService :=
  s.mappings.values.foldl (flushOne now force) s

/-! ## The ministry -/

/-- Hand a mapping's copy to its master, if that is another node. -/
def handOffOne (s : MappingService) (m : Mapping) : MappingService :=
  if m.replication.isReplicated || m.entries.isEmpty then s
  else
    match s.ring.masterOf m.id with
    | none => s
    | some master =>
      if master = s.node then s
      else
        (s.store { m with entries := ∅ }).sendCall master
          (.handOff m.index m.entries.keys m.entries.values) (.handOff m.index m.entries)

/-- Hand every copy that is kept here and mastered elsewhere to its master. -/
def resumeHandOffs (s : MappingService) : MappingService :=
  s.mappings.values.foldl handOffOne s

/-- The first few names of those that are alive. -/
def ministers (s : MappingService) (live : NameSet) : NameSet :=
  .ofList (live.toList.take s.ministerCount)

/-- The nodes that are alive have changed. -/
def updateMinistry (s : MappingService) (live : NameSet) : MappingService :=
  let ministers := s.ministers live
  let s := if ministers = s.ring.nodes then s
    else { s with ring := .ofNodes Ring.defaultShare ministers }
  s.resumeHandOffs

/-- Hand out what is to be done. -/
def takeOutbox (s : MappingService) : List MappingEffect × MappingService :=
  (s.outbox, { s with outbox := [] })

end MappingService

end Cohort

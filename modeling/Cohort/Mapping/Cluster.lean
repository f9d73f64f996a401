import Cohort.Mapping.Service

/-!
# Mapping services that talk to each other

Services of several nodes, side by side. What one of them wants published reaches every other one,
and what it wants called runs at the service of that name, whose answer comes back.

## Main definitions

* `MappingCluster.act`: something happens to one service.
* `MappingCluster.carryOut`: do what a service wants done.
-/

namespace Cohort

/-- What can be seen when a service's wishes are carried out. -/
inductive Carried where
  /-- News reached another service, which said whether they were about a mapping. -/
  | told (source target : NodeName) (known : Bool)
  /-- A call was answered. -/
  | answered (source target : NodeName) (reply : MappingReply)

/-- Services of several nodes, and what they said. -/
structure MappingCluster where
  services : List MappingService
  /-- What listeners remarked. -/
  remarks : List String
  /-- What callers were answered. -/
  answers : List (Ticket × MappingReply)
  /-- What was carried out. -/
  carried : List Carried

/-- What a service wants other nodes to know or do. -/
def MappingEffect.isOutward : MappingEffect → Bool
  | .broadcast _ | .call .. => true
  | .answer .. | .told _ => false

namespace MappingCluster

/-- Services that said nothing yet. -/
def ofServices (services : List MappingService) : MappingCluster := ⟨services, [], [], []⟩

/-- Note what a service said to its own node. -/
def note (c : MappingCluster) : MappingEffect → MappingCluster
  | .told told => { c with remarks := c.remarks ++ told.reaction.remarks }
  | .answer ticket reply => { c with answers := c.answers ++ [(ticket, reply)] }
  | .broadcast _ | .call .. => c

/-- Put a service in its place, note what it said to its own node, and hand out what it wants
other nodes to know or do. -/
def place (c : MappingCluster) (i : Nat) (s : MappingService) :
    List MappingEffect × MappingCluster :=
  let (effects, s) := s.takeOutbox
  (effects.filter MappingEffect.isOutward,
    effects.foldl note { c with services := c.services.set i s })

/-- Something that happens to one service, and what came of it; nothing if it is not there. -/
def act {α : Type} (c : MappingCluster) (i : Nat) (f : MappingService → α × MappingService) :
    Option (α × List MappingEffect × MappingCluster) :=
  c.services[i]?.map fun s =>
    let (a, s) := f s
    (a, c.place i s)

/-- News reach a service. -/
def tell (cache : String) (data : Bytes) (source : NodeName) (c : MappingCluster) (i : Nat) :
    MappingCluster :=
  match c.services[i]? with
  | none => c
  | some s =>
    let (known, t) := s.cacheData cache data
    let (_, c) := c.place i t
    { c with carried := c.carried ++ [.told source s.node known] }

/-- Run a call at the service of the given name. -/
def call (c : MappingCluster) (peer : NodeName) (call : MappingCall) :
    MappingReply × MappingCluster :=
  match c.services.findIdx? (·.node = peer) with
  | none => (.error .peerUnavailable, c)
  | some i =>
    match c.act i (·.handleCall call) with
    | none => (.error .peerUnavailable, c)
    | some (reply, _, c) => (reply, c)

/-- Do one thing that the `i`-th service wants done. -/
def carryOutOne (i : Nat) (c : MappingCluster) (effect : MappingEffect) : MappingCluster :=
  match c.services[i]?, effect with
  | some s, .broadcast (.cacheData cache data) =>
    ((List.range c.services.length).filter (· ≠ i)).foldl (tell cache data s.node) c
  | some s, .call peer requestId request =>
    let (reply, c) := c.call peer request
    let c := { c with carried := c.carried ++ [Carried.answered s.node peer reply] }
    match c.act i fun s => ((), s.callCompleted requestId reply) with
    | none => c
    | some (_, _, c) => c
  | _, _ => c

/-- Do what the `i`-th service wants done, in order. Nothing further comes of it: copies that every
node keeps pass on no news they hear, and the only copy of a mapping is not told about. -/
def carryOut (c : MappingCluster) (i : Nat) (effects : List MappingEffect) : MappingCluster :=
  effects.foldl (carryOutOne i) c

end MappingCluster

end Cohort

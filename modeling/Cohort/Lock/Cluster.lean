import Cohort.Lock.Arbitrator

/-!
# Arbitrators on links

A cluster of arbitrators joined by links, one for each ordered pair of nodes, that keep what is
sent over them in order. What a node publishes goes to every other node; a consent goes to the
node it is for. Links are otherwise independent: any of them may deliver next. A node may also hear
of nodes that are not there, and consent to what they are said to do; what is sent to them takes
its turn on a link and then gets lost.

## Main definitions

* `LockCluster.ofNodes`: everybody follows everybody, and nobody holds anything.
* `ClusterStep`, `LockCluster.step`: a call at a node, a delivery, a node that dies, timers that
  run out.
* `LockCluster.settle`: deliveries until nothing is in flight.
-/

namespace Cohort

/-- The link from one node to another. -/
structure Channel where
  source : NodeName
  target : NodeName
  deriving DecidableEq, Repr

namespace Channel

instance : Ord Channel := ⟨compareLex (compareOn source) (compareOn target)⟩

instance : Std.TransOrd Channel :=
  inferInstanceAs (Std.TransCmp (compareLex (compareOn source) (compareOn target)))

instance : Std.LawfulEqOrd Channel where
  eq_of_compare {a b} h := by
    have both : (compare a.source b.source).then (compare a.target b.target) = .eq := h
    rw [Ordering.then_eq_eq] at both
    cases a
    cases b
    simp_all

end Channel

/-- What travels between arbitrators. -/
inductive LockWire where
  | event (event : NodeEvent)
  | ratify (lock : Lock) (acquire : Bool)
  deriving DecidableEq

/-- The wording of what travels: what happens, and to which lock or cache. -/
def LockWire.render : LockWire → String
  | ratify lock acquire => "ratify " ++ lock.render ++ if acquire then " true" else " false"
  | event (.acquiring lock) => "acquiring " ++ lock.render
  | event (.releasing lock) => "releasing " ++ lock.render
  | event (.added lock) => "added " ++ lock.render
  | event (.kept lock) => "updated " ++ lock.render
  | event (.removed lock) => "removed " ++ lock.render
  | event (.cacheData cache _) => "cache " ++ cache

/-- What can be seen of a cluster at work. -/
inductive ClusterReport where
  /-- A caller was answered. -/
  | answered (ticket : Ticket) (reply : LockReply)
  /-- A caller went away unanswered with its node. -/
  | forsaken (ticket : Ticket)
  /-- A node lost a lock without releasing it. -/
  | lost (node : NodeName) (lock : Lock)
  /-- Something reached a node. -/
  | delivered (channel : Channel) (wire : LockWire)
  deriving DecidableEq

namespace ClusterReport

/-- The line of a log that tells of a delivery. -/
def logLine? : ClusterReport → Option String
  | delivered channel wire => some (channel.source ++ ">" ++ channel.target ++ " " ++ wire.render)
  | _ => none

/-- The lock that was lost, and the node that lost it. -/
def loss? : ClusterReport → Option (NodeName × Lock)
  | lost node lock => some (node, lock)
  | _ => none

end ClusterReport

/-- Arbitrators, and what is in flight between them. -/
structure LockCluster where
  nodes : Std.ExtTreeMap NodeName Arbitrator
  links : Std.ExtTreeMap Channel (List LockWire)
  /-- The timers each node started, oldest first. -/
  timers : Std.ExtTreeMap NodeName (List (Lock × Nat))
  reports : List ClusterReport

namespace LockCluster

/-- An arbitrator that follows the given nodes and is followed by them. -/
def meshed (outranks : Precedence) (others : List NodeName) (node : NodeName) : Arbitrator :=
  others.foldl
    (fun t other =>
      if other = node then t else (t.addSubscriber other).peerSubscribed other ∅)
    (.fresh node outranks)

/-- Everybody follows everybody, and nobody holds anything. -/
def ofNodes (outranks : Precedence) (names : NameSet) : LockCluster where
  nodes := names.toList.foldl
    (fun nodes name => nodes.insert name (meshed outranks names.toList name)) ∅
  links := ∅
  timers := ∅
  reports := []

/-- Something that can be seen. -/
def report (c : LockCluster) (report : ClusterReport) : LockCluster :=
  { c with reports := c.reports ++ [report] }

/-- Put something on the link to a node, which need not be there. -/
def send (c : LockCluster) (source target : NodeName) (wire : LockWire) : LockCluster :=
  let channel : Channel := ⟨source, target⟩
  { c with links := c.links.insert channel (c.links[channel]?.getD [] ++ [wire]) }

/-- The nodes other than the given one. -/
def others (c : LockCluster) (node : NodeName) : List NodeName :=
  c.nodes.keys.filter (· ≠ node)

/-- Do one thing that an arbitrator wants done. -/
def perform (node : NodeName) (c : LockCluster) : LockEffect → LockCluster
  | .publish event => (c.others node).foldl (fun c other => c.send node other (.event event)) c
  | .ratify peer lock acquire => c.send node peer (.ratify lock acquire)
  | .startTimer lock generation =>
    { c with timers := c.timers.insert node (c.timers[node]?.getD [] ++ [(lock, generation)]) }
  | .lost lock => c.report (.lost node lock)
  | .answer ticket reply => c.report (.answered ticket reply)

/-- Something happens to a node, and what it wants done is done. -/
def act (c : LockCluster) (node : NodeName) (op : LockOp) : LockCluster :=
  match c.nodes[node]? with
  | some arbitrator =>
    let (effects, arbitrator) := (arbitrator.step op).takeOutbox
    effects.foldl (perform node) { c with nodes := c.nodes.insert node arbitrator }
  | none => c

/-- What the arrival of something means at its target. -/
def arrival (channel : Channel) : LockWire → Option LockOp
  | .event event => LockOp.ofEvent? channel.source event
  | .ratify lock acquire => some (.ratify channel.source lock acquire)

/-- Deliver what is at the head of a link, if anything is on it. It is lost if the node at the end
of the link is not there. -/
def deliver (c : LockCluster) (channel : Channel) : LockCluster :=
  match c.links[channel]? with
  | some (wire :: rest) =>
    let c := { c with links := c.links.insert channel rest }
    if channel.target ∈ c.nodes then
      let c := c.report (.delivered channel wire)
      match arrival channel wire with
      | some op => c.act channel.target op
      | none => c
    else c
  | _ => c

/-- The links that something is on, in order. -/
def busy (c : LockCluster) : List Channel :=
  (c.links.toList.filter fun link => !link.2.isEmpty).map Prod.fst

/-- At most `limit` deliveries, until nothing is in flight. The `n`-th takes the busy link that
`picks` tells, counted round the busy links; without picks, the first one. -/
def settle (picks : List Nat) : Nat → Nat → LockCluster → LockCluster
  | 0, _, c => c
  | limit + 1, n, c =>
    let busy := c.busy
    let pick := if picks.isEmpty then 0 else picks.getD (n % picks.length) 0
    match busy[pick % busy.length]? with
    | some channel => settle picks limit (n + 1) (c.deliver channel)
    | none => c

/-- The callers that wait at a node. -/
def waiting (c : LockCluster) (node : NodeName) : List Ticket :=
  match c.nodes[node]? with
  | some arbitrator => arbitrator.waiting
  | none => []

/-- A node dies, or one that was never there is given up: what it sent and what was sent to it is
gone, its callers go unanswered, and every other node notices that it is no longer there, neither
as a peer nor as a subscriber. -/
def kill (c : LockCluster) (node : NodeName) : LockCluster :=
  let c := (c.waiting node).foldl (fun c ticket => c.report (.forsaken ticket)) c
  let c := { c with
    nodes := c.nodes.erase node
    links := c.links.filter fun channel _ => channel.source ≠ node ∧ channel.target ≠ node
    timers := c.timers.erase node }
  c.nodes.keys.foldl
    (fun c other => (c.act other (.peerDisconnected node)).act other (.removeSubscriber node)) c

/-- Every timer that a node has started so far runs out, oldest first. -/
def expire (c : LockCluster) (node : NodeName) : LockCluster :=
  let timers := c.timers[node]?.getD []
  timers.foldl (fun c timer => c.act node (.timeout timer.1 timer.2))
    { c with timers := c.timers.erase node }

/-- Hand out what was seen. -/
def takeReports (c : LockCluster) : List ClusterReport × LockCluster :=
  (c.reports, { c with reports := [] })

end LockCluster

/-- What can happen in a cluster. -/
inductive ClusterStep where
  /-- Something happens to a node that is there. -/
  | act (node : NodeName) (op : LockOp)
  | deliver (channel : Channel)
  | kill (node : NodeName)
  | expire (node : NodeName)

/-- The cluster after something happened. -/
def LockCluster.step (c : LockCluster) : ClusterStep → LockCluster
  | .act node op => c.act node op
  | .deliver channel => c.deliver channel
  | .kill node => c.kill node
  | .expire node => c.expire node

end Cohort

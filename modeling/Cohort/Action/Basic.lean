import Cohort.Fault
import Cohort.Identity
import Cohort.Wire.Codec

/-!
# Node actions

A node action is named logic that one node asks another to run. `NodeActions` holds the actions of
a node, and the calls it sent to other nodes and that were not answered yet. A call waits for one
peer; when that peer goes away, the call fails.

## Main definitions

* `NodeAction.typed`: an action from typed logic.
* `NodeActions.register`, `NodeActions.run`: the actions of this node.
* `NodeActions.start`, `NodeActions.complete`, `NodeActions.peerDisconnected`: calls to other nodes.
-/

namespace Cohort

/-- Logic on encoded arguments, with an encoded result. -/
abbrev NodeAction := Bytes → Attempted Bytes

/-- An action from typed logic, whose arguments and result are written as on the wire. -/
def NodeAction.typed {α ρ : Type} (args : Codec α) (result : Codec ρ)
    (logic : α → Attempted ρ) : NodeAction :=
  fun arguments => do
    let a ← attempt (args.decode arguments)
    return result.encode (← logic a)

/-- The answer to a named action. -/
abbrev ActionReply := Outcome Bytes

/-- A call that was sent to another node and not answered yet. -/
structure PendingAction where
  peer : NodeName
  ticket : Ticket
  deriving DecidableEq, Repr

/-- The actions of a node, and its calls in flight. -/
structure NodeActions where
  actions : Std.ExtTreeMap String NodeAction
  pending : Std.ExtTreeMap Nat PendingAction
  /-- The number of the latest call. -/
  lastRequest : Nat
  /-- Answers to callers, in the order in which they came up. -/
  outbox : List (Ticket × ActionReply)

namespace NodeActions

/-- No actions and no calls. -/
def fresh : NodeActions := ⟨∅, ∅, 0, []⟩

/-- Add an action under a new name. -/
def register (a : NodeActions) (name : String) (action : NodeAction) :
    Outcome Unit × NodeActions :=
  if name ∈ a.actions then (.error .duplicateAction, a)
  else (.ok (), { a with actions := a.actions.insert name action })

/-- Run an action of this node. -/
def run (a : NodeActions) (name : String) (args : Bytes) : ActionReply :=
  match a.actions[name]? with
  | some action => contain (action args)
  | none => .error .unknownAction

/-- Answer a caller. -/
def answer (a : NodeActions) (ticket : Ticket) (reply : ActionReply) : NodeActions :=
  { a with outbox := a.outbox ++ [(ticket, reply)] }

/-- Note a call that is about to be sent to a peer. Tells its number. -/
def start (a : NodeActions) (peer : NodeName) (ticket : Ticket) : Nat × NodeActions :=
  let requestId := a.lastRequest + 1
  (requestId, { a with
    pending := a.pending.insert requestId ⟨peer, ticket⟩
    lastRequest := requestId })

/-- A call has ended; one that is not in flight is ignored. -/
def complete (a : NodeActions) (requestId : Nat) (reply : ActionReply) : NodeActions :=
  match a.pending[requestId]? with
  | some pending =>
    { a with pending := a.pending.erase requestId }.answer pending.ticket reply
  | none => a

/-- The calls that wait for a peer, oldest first. -/
def callsTo (a : NodeActions) (peer : NodeName) : List Nat :=
  (a.pending.toList.filter fun entry => entry.2.peer = peer).map Prod.fst

/-- A peer went away: the calls that wait for it fail. -/
def peerDisconnected (a : NodeActions) (peer : NodeName) : NodeActions :=
  (a.callsTo peer).foldl (fun a requestId => a.complete requestId (.error .peerUnavailable)) a

/-- How many calls are in flight. -/
def inFlight (a : NodeActions) : Nat := a.pending.size

/-- Hand out the answers to callers. -/
def takeOutbox (a : NodeActions) : List (Ticket × ActionReply) × NodeActions :=
  (a.outbox, { a with outbox := [] })

end NodeActions

end Cohort

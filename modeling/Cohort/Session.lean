import Cohort.Failure
import Cohort.Message

/-!
# Sessions

A node that connects to another opens a session with it. The session has to start with a
subscription, made in the protocol version spoken here and with credentials made with the secret of
the cluster; a subscription that fails this is refused, and anything else is not even answered.
Once open, the session reports every request in order, up to the first log-off, error or stop, and
then that it is closed.

## Main definitions

* `SessionPolicy.verdict`: who may open a session.
* `SessionPhase.step`: a session when something arrives.
* `SessionPhase.run`: a session from its beginning.
-/

namespace Cohort

/-- The version of the protocol that is spoken here. -/
def protocolVersion : UInt16 := 1

/-- Who may open a session. -/
structure SessionPolicy where
  /-- The secret of the cluster; without one everybody may open a session. -/
  secret : Option String
  /-- The digest that passwords are made with. -/
  digest : Bytes → Bytes

/-- What an inbound connection brings. -/
inductive Arrival where
  | request (request : Request)
  /-- The connection failed or ended. -/
  | failed (failure : Failure)
  /-- The node stops. -/
  | stopped
  deriving DecidableEq

/-- What a session reports to the node. -/
inductive SessionReport where
  /-- A node subscribed. -/
  | opened (node : NodeName)
  | request (request : Request)
  | closed
  deriving DecidableEq

/-- How far a session has come. -/
inductive SessionPhase where
  | opening
  /-- The named node subscribed. -/
  | active (node : NodeName)
  | ended
  deriving DecidableEq

/-- What a session does when something arrives. -/
structure SessionTurn where
  phase : SessionPhase
  /-- What the node is told. -/
  reports : List SessionReport
  /-- What the other side is sent by the session itself. -/
  answers : List Message
  deriving DecidableEq

/-- Whether a subscription is accepted. The version is looked at first. -/
def SessionPolicy.verdict (policy : SessionPolicy) (credentials : Credentials)
    (version : UInt16) : Outcome Unit :=
  if version ≠ protocolVersion then .error .versionMismatch
  else if credentials.isAuthenticThrough policy.digest policy.secret then .ok ()
  else .error .authFailed

namespace SessionPhase

/-- A session when the first request arrives. -/
def begin? (policy : SessionPolicy) : Request → SessionTurn
  | .subscribe credentials version =>
    match policy.verdict credentials version with
    | .ok () => ⟨.active credentials.nodeName, [.opened credentials.nodeName], []⟩
    | .error failure => ⟨.ended, [], [.refused failure.code]⟩
  | _ => ⟨.ended, [], []⟩

/-- A session when something arrives. A stop means nothing to a session that is not open yet. -/
def step (policy : SessionPolicy) : SessionPhase → Arrival → SessionTurn
  | opening, .request request => begin? policy request
  | opening, .failed _ => ⟨ended, [], []⟩
  | opening, .stopped => ⟨opening, [], []⟩
  | active _, .request .logOff => ⟨ended, [.closed], []⟩
  | active node, .request request => ⟨active node, [.request request], []⟩
  | active _, .failed _ => ⟨ended, [.closed], []⟩
  | active _, .stopped => ⟨ended, [.closed], []⟩
  | ended, _ => ⟨ended, [], []⟩

/-- A session as far as the arrivals go. -/
def run (policy : SessionPolicy) : SessionPhase → List Arrival → SessionTurn
  | phase, [] => ⟨phase, [], []⟩
  | phase, arrival :: rest =>
    let turn := step policy phase arrival
    let later := run policy turn.phase rest
    ⟨later.phase, turn.reports ++ later.reports, turn.answers ++ later.answers⟩

end SessionPhase

end Cohort

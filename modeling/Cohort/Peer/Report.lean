import Cohort.Peer.Link

/-!
# What a link reports

A task serves each attempt to connect to a peer: it connects, subscribes, and passes everything on
that the peer sends, until the connection ends or fails. What it reports is a list that starts with
`LinkReport.connected`, unless the attempt fails before, and ends with `closed` or `failed`.
-/

namespace Cohort

/-- What a task that serves a link reports to the node. -/
inductive LinkReport where
  /-- The subscription was sent; requests may be queued, so many at a time. -/
  | connected (capacity : Nat)
  | message (message : Message)
  /-- The attempt or the connection failed. -/
  | failed (failure : Failure)
  /-- The peer ended the connection. -/
  | closed
  deriving DecidableEq

namespace LinkReport

/-- How many messages may wait to be written on a connection. -/
def queueCapacity : Nat := 256

/-- What is reported of one thing read from the connection. -/
def ofArrival : Outcome Message → LinkReport
  | .ok incoming => .message incoming
  | .error .network => .closed
  | .error failure => .failed failure

/-- Whether nothing is reported after this. -/
def isLast : LinkReport → Bool
  | failed _ | closed => true
  | connected _ | message _ => false

/-- What is reported of the things read from the connection, up to the first that ends it. -/
def ofArrivals : List (Outcome Message) → List LinkReport
  | [] => []
  | arrival :: rest =>
    let report := ofArrival arrival
    if report.isLast then [report] else report :: ofArrivals rest

/-- What is reported of a whole attempt: whether the subscription could be sent, and what was read
from the connection. -/
def ofAttempt (subscribed : Outcome Unit) (arrivals : List (Outcome Message)) :
    List LinkReport :=
  match subscribed with
  | .error failure => [.failed failure]
  | .ok () => .connected queueCapacity :: ofArrivals arrivals

end LinkReport

end Cohort

import Cohort.Membership.Region

/-!
# Membership records

A `NodeRecord` is what a node publishes about itself: where it can be reached from inside its
region and from outside, when it last gave a sign of life, and whether it went away cleanly.
Stamps are milliseconds since the Unix epoch.
-/

namespace Cohort

/-- What a node publishes about itself. -/
structure NodeRecord where
  name : String
  /-- Where nodes of the same region reach it. -/
  hostName : String
  /-- Where nodes of other regions reach it. -/
  publicHostName : String
  region : Option String
  port : UInt16
  /-- Stamp of the last sign of life. -/
  lastUpdated : Nat
  /-- Set when the node went away cleanly. -/
  hasLeft : Bool
  deriving DecidableEq, Repr

namespace NodeRecord

/-- A record for a node reached at one host from everywhere, stamped `now`. -/
def fresh (name hostName : String) (port : UInt16) (now : Nat) : NodeRecord where
  name := name
  hostName := hostName
  publicHostName := hostName
  region := none
  port := port
  lastUpdated := now
  hasLeft := false

/-- The host at which a node in the region `here` reaches this one. -/
def hostFrom (record : NodeRecord) (here : Option String) : String :=
  if record.region = here then record.hostName else record.publicHostName

/-- How this node sits as seen from the region `here`. -/
def relationshipTo (record : NodeRecord) (here : Option String) : Relationship :=
  .between here record.region

/-- Whether the record has gone without a sign of life for longer than `window` at `now`. -/
def isStale (record : NodeRecord) (now window : Nat) : Bool :=
  now - record.lastUpdated > window

/-- The record with a new stamp, of a node that is there. -/
def stamped (record : NodeRecord) (now : Nat) : NodeRecord :=
  { record with lastUpdated := now, hasLeft := false }

/-- The text of a record: its name, host and port. -/
def render (record : NodeRecord) : String :=
  record.name ++ "@" ++ record.hostName ++ ":" ++ toString record.port.toNat

end NodeRecord

end Cohort

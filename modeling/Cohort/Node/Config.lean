import Cohort.Credentials
import Cohort.Frame.Draft
import Cohort.Membership.Record

/-!
# Node configuration

Who a node is and how it behaves. Times are in milliseconds.
-/

namespace Cohort

/-- Who a node is and how it behaves. -/
structure NodeConfig where
  nodeName : String
  /-- Where nodes of the same region reach it. -/
  hostName : String
  /-- Where nodes of other regions reach it. -/
  publicHostName : String
  region : Option String
  /-- The address that sessions are accepted at. -/
  bindAddress : String
  /-- The port that sessions are accepted at; zero leaves the choice open. -/
  port : UInt16
  /-- How old a membership record may be. -/
  staleInterval : Nat
  /-- The time between two looks at the membership store. -/
  refreshInterval : Nat
  /-- The time after which an attempt on a lock succeeds without everybody's consent. -/
  lockTimeout : Nat
  /-- The time between two looks for changes of mappings to pass on. -/
  flushInterval : Nat
  ministerCount : Nat
  /-- The greatest frame that is sent or accepted. -/
  frameLimit : Nat
  /-- The secret of the cluster. -/
  secret : Option String
  deriving DecidableEq, Repr

namespace NodeConfig

/-- The port that nodes listen at unless told otherwise. -/
def listenPort : UInt16 := 47624

/-- A node that other machines reach at a host. -/
def onHost (nodeName hostName : String) : NodeConfig where
  nodeName := nodeName
  hostName := hostName
  publicHostName := hostName
  region := none
  bindAddress := "0.0.0.0"
  port := listenPort
  staleInterval := 5 * 60 * 1000
  refreshInterval := 60 * 1000
  lockTimeout := 5000
  flushInterval := 250
  ministerCount := 1
  frameLimit := defaultFrameLimit
  secret := none

/-- A node that is only reached from its own machine, at whatever port is free. -/
def onLoopback (nodeName : String) : NodeConfig :=
  { onHost nodeName "127.0.0.1" with bindAddress := "127.0.0.1", port := 0 }

/-- The membership record of the node, listening at a port, stamped `now`. -/
def record (config : NodeConfig) (port : UInt16) (now : Nat) : NodeRecord where
  name := config.nodeName
  hostName := config.hostName
  publicHostName := config.publicHostName
  region := config.region
  port := port
  lastUpdated := now
  hasLeft := false

/-- The credentials that the node presents. -/
def credentials (config : NodeConfig) : Credentials := .make config.nodeName config.secret

end NodeConfig

end Cohort

import Cohort.Action.Stock
import Cohort.Callers
import Cohort.Frame.Channel
import Cohort.Lock.Cluster
import Cohort.Mapping.Cluster
import Cohort.Membership.FileStore
import Cohort.Node.Workbench
import Cohort.Wire.Message
import Cohort.Proofs.Lock.Operations
import Cohort.Proofs.Lock.Scene
import Cohort.Proofs.Lock.Mesh
import Cohort.Proofs.Lock.Coherence
import Cohort.Proofs.Lock.Tie
import Cohort.Proofs.Lock.Exclusion
import Cohort.Proofs.Lock.Timely
import Cohort.Proofs.Lock.Progress
import Cohort.Proofs.Lock.Accounts
import Cohort.Proofs.Lock.Replica
import Cohort.Proofs.Lock.Callers
import Cohort.Proofs.Lock.Settled
import Cohort.Proofs.Lock.Race
import Cohort.Proofs.Lock.Conservation
import Cohort.Proofs.Lock.Grip
import Cohort.Proofs.Lock.Truth
import Cohort.Proofs.Frame.Reassembly
import Cohort.Proofs.Frame.Transport
import Cohort.Proofs.Frame.Bounds
import Cohort.Proofs.Frame.Order
import Cohort.Proofs.Wire.Messages
import Cohort.Proofs.Mapping.Changes
import Cohort.Proofs.Mapping.Service
import Cohort.Proofs.Mapping.Operations
import Cohort.Proofs.Mapping.Turns
import Cohort.Proofs.Mapping.Restoration
import Cohort.Proofs.Mapping.Telling
import Cohort.Proofs.Mapping.Exchange
import Cohort.Proofs.Mapping.Mail
import Cohort.Proofs.Mapping.Custody
import Cohort.Proofs.Mapping.Mastery
import Cohort.Proofs.Mapping.Lone
import Cohort.Proofs.Mapping.Crossing
import Cohort.Proofs.Mapping.Proxy
import Cohort.Proofs.Mapping.Refusals
import Cohort.Proofs.Mapping.Listening
import Cohort.Proofs.Mapping.MapActions
import Cohort.Proofs.Mapping.Hearsay
import Cohort.Proofs.Lock.Publication
import Cohort.Proofs.Node.Drain
import Cohort.Proofs.Node.Run
import Cohort.Proofs.Node.Moves
import Cohort.Proofs.Node.Presence
import Cohort.Proofs.Mapping.Waiting
import Cohort.Proofs.Node.Calls
import Cohort.Proofs.Node.Chronicle
import Cohort.Proofs.Node.Subscription
import Cohort.Proofs.Action.Waiting
import Cohort.Proofs.Node.Answers
import Cohort.Proofs.Session.Reports
import Cohort.Proofs.Node.Attempts
import Cohort.Proofs.Lock.Announcements
import Cohort.Proofs.Node.Ratifiers
import Cohort.Proofs.Lock.Likeness
import Cohort.Proofs.Lock.Separation
import Cohort.Proofs.Lock.Moves
import Cohort.Proofs.Lock.Soundness
import Cohort.Proofs.Lock.Departure
import Cohort.Proofs.Lock.Deadline
import Cohort.Proofs.Membership.Agreement
import Cohort.Proofs.Ring.Ownership
import Cohort.Proofs.Node.Results
import Cohort.Proofs.Node.Refreshes
import Cohort.Proofs.Node.Operations
import Cohort.Proofs.Mapping.Desertion
import Cohort.Proofs.Node.Severance
import Cohort.Proofs.Node.Reconciliation
import Cohort.Proofs.Mapping.Numbering
import Cohort.Proofs.Membership.Regions
import Cohort.Proofs.Session.Passwords
import Cohort.Proofs.Frame.Lengths
import Cohort.Proofs.Node.Rounds

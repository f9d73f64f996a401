import Cohort.Failure
import Cohort.Identity
import Cohort.Membership.Record
import Std.Data.ExtTreeMap

/-!
# A membership store in memory

Nodes find each other through a shared store of membership records, in which each node stamps its
own record now and then. This store keeps the records of nodes that live in one process.
-/

namespace Cohort

/-- The records of all nodes, by name. -/
structure MemoryStore where
  records : Std.ExtTreeMap NodeName NodeRecord
  deriving DecidableEq

namespace MemoryStore

/-- The name of this kind of store. -/
def kind : String := "memory"

/-- No records. -/
def empty : MemoryStore := ⟨∅⟩

/-- Store a record as it is. -/
def insert (s : MemoryStore) (record : NodeRecord) : MemoryStore :=
  ⟨s.records.insert record.name record⟩

/-- Forget a record. -/
def remove (s : MemoryStore) (name : NodeName) : MemoryStore := ⟨s.records.erase name⟩

/-- Store the record of a node that is there, stamped `now`. -/
def heartbeat (s : MemoryStore) (now : Nat) (record : NodeRecord) : Outcome Unit × MemoryStore :=
  (.ok (), s.insert (record.stamped now))

/-- All records, by name. -/
def load (s : MemoryStore) : Outcome (List NodeRecord) := .ok s.records.values

/-- Mark a node as cleanly gone, if it is known. -/
def shutDown (s : MemoryStore) (name : NodeName) : Outcome Unit × MemoryStore :=
  (.ok (), ⟨s.records.modify name fun record => { record with hasLeft := true }⟩)

end MemoryStore

end Cohort

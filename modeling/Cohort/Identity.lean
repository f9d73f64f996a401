import Std.Data.ExtTreeSet

/-!
# Nodes and callers

How the parts of a node refer to other nodes, and to whoever waits for one of their answers.
-/

namespace Cohort

/-- The name of a node; it is unique in a cluster. -/
abbrev NodeName := String

/-- A set of node names, walked in order. -/
abbrev NameSet := Std.ExtTreeSet NodeName

/-- Names a caller that waits for an answer. -/
abbrev Ticket := Nat

end Cohort

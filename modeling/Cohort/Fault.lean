import Cohort.Failure

/-!
# Logic that is plugged in

Applications plug logic into a node: named actions and listeners. Such logic may say that it
failed, and it may break down; neither may take the node with it.
-/

namespace Cohort

/-- Why logic that was plugged in gave no result. -/
inductive Fault where
  /-- It said that it failed. -/
  | failed (failure : Failure)
  /-- It broke down. -/
  | crashed
  deriving DecidableEq, Repr

/-- What logic that was plugged in gives. -/
abbrev Attempted (α : Type) := Except Fault α

variable {α : Type}

/-- Contain a breakdown: it counts as a failed action. -/
def contain : Attempted α → Outcome α
  | .ok a => .ok a
  | .error (.failed failure) => .error failure
  | .error .crashed => .error .actionFailed

/-- A failure on the way into logic or out of it is a failure of the logic. -/
def attempt : Outcome α → Attempted α
  | .ok a => .ok a
  | .error failure => .error (.failed failure)

end Cohort

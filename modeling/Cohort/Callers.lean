import Cohort.Identity

/-!
# Callers that wait

A caller waits for one answer under a `Ticket`. It may go away before the answer comes; the answer
then reaches nobody. `Callers` knows who still waits.
-/

namespace Cohort

/-- The callers that still wait, oldest first. -/
structure Callers where
  waiting : List Ticket
  deriving DecidableEq, Repr

namespace Callers

/-- Nobody waits. -/
def none : Callers := ⟨[]⟩

/-- A caller begins to wait. -/
def enter (callers : Callers) (ticket : Ticket) : Callers := ⟨callers.waiting ++ [ticket]⟩

/-- A caller waits no longer. -/
def leave (callers : Callers) (ticket : Ticket) : Callers := ⟨callers.waiting.erase ticket⟩

/-- Hand answers to those who still wait, in the order of their tickets. Who was answered waits no
longer. -/
def hear {α : Type} (callers : Callers) (answers : List (Ticket × α)) :
    List (Ticket × α) × Callers :=
  let heard := answers.filter fun answer => callers.waiting.contains answer.1
  (heard.mergeSort fun a b => a.1 ≤ b.1,
    heard.foldl (fun callers answer => callers.leave answer.1) callers)

end Callers

end Cohort

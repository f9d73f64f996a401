import Cohort.Identity
import Std.Data.ExtTreeMap

/-!
# Locks

A `Lock` names one exclusive resource of the cluster: a domain, and within it a qualifier unless
the resource is the only one of its domain. Locks are ordered by domain, then by qualifier, a lock
without one coming first; sets of locks (`LockSet`) are walked in that order.
-/

namespace Cohort

/-- One exclusive resource. -/
structure Lock where
  domain : String
  qualifier : Option String
  deriving DecidableEq, Repr

namespace Lock

instance : Ord Lock := ⟨compareLex (compareOn domain) (compareOn qualifier)⟩

instance : Std.TransOrd Lock :=
  inferInstanceAs (Std.TransCmp (compareLex (compareOn domain) (compareOn qualifier)))

instance : Std.LawfulEqOrd Lock where
  eq_of_compare {a b} h := by
    have both : (compare a.domain b.domain).then (compare a.qualifier b.qualifier) = .eq := h
    rw [Ordering.then_eq_eq] at both
    cases a
    cases b
    simp_all

/-- The text of a lock: its domain, and its qualifier after a colon. -/
def render (lock : Lock) : String :=
  match lock.qualifier with
  | some qualifier => lock.domain ++ ":" ++ qualifier
  | none => lock.domain

end Lock

/-- A set of locks, walked in order. -/
abbrev LockSet := Std.ExtTreeSet Lock

end Cohort

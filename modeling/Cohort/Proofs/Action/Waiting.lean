import Cohort.Action.Basic
import Cohort.Proofs.Mapping.Waiting

/-!
# Callers that wait for an action of another node

Whatever happens to the actions of a node, callers whose action runs elsewhere are answered or wait,
each as often as it asked.

## Main definitions

* `NodeActions.Serves`: what an operation does to those who wait.

## Main statements

* `NodeActions.start_serves`, `NodeActions.complete_serves`, `NodeActions.peerDisconnected_serves`:
  every operation serves those who wait.
* `NodeActions.pending_peerDisconnected`: nobody waits for a peer that went away.
-/

namespace Cohort

/-- The caller that waits for an action. -/
def PendingAction.caller? (pending : PendingAction) : Option Ticket := some pending.ticket

namespace NodeActions

variable {a b c : NodeActions} {asked asked' : List PendingAction} {number : Nat}

/-- The calls to other nodes. -/
def book (a : NodeActions) : CallBook PendingAction := ⟨a.lastRequest, a.pending⟩

/-- The callers that are about to be answered. -/
def answered (a : NodeActions) : List Ticket := a.outbox.map Prod.fst

/-- The callers that wait for other nodes. -/
def waiting (a : NodeActions) : List Ticket := waitingIn PendingAction.caller? a.pending

/-- Callers that ask for calls in an operation are answered or wait, as are those who asked
before. -/
structure Serves (asked : List PendingAction) (a b : NodeActions) : Prop where
  callers : (b.answered ++ b.waiting).Perm
    (asked.map PendingAction.ticket ++ (a.answered ++ a.waiting))
  begun : ∀ (number : Nat) (call : PendingAction), b.pending[number]? = some call →
    a.pending[number]? = some call ∨ call ∈ asked
  ages : a.book.Ages b.book
  numbered : b.book.Numbered

theorem Serves.refl (numbered : a.book.Numbered) : Serves [] a a :=
  ⟨.refl _, fun _ _ found => .inl found, .refl _, numbered⟩

theorem Serves.trans (first : Serves asked a b) (second : Serves asked' b c) :
    Serves (asked ++ asked') a c where
  callers := by
    have callers := second.callers.trans (first.callers.append_left _)
    rw [List.map_append, List.append_assoc]
    exact callers.trans (List.perm_append_comm_assoc _ _ _)
  begun number call found := by
    obtain there | asked := second.begun number call found
    · obtain there | asked := first.begun number call there
      · exact .inl there
      · exact .inr (List.mem_append_left _ asked)
    · exact .inr (List.mem_append_right _ asked)
  ages := first.ages.trans second.ages
  numbered := second.numbered

/-- A caller begins to wait under a number of its own. -/
theorem start_serves (numbered : a.book.Numbered) (peer : NodeName) (ticket : Ticket) :
    Serves [⟨peer, ticket⟩] a (a.start peer ticket).2 := by
  have new : a.pending[a.lastRequest + 1]? = none := by
    by_contra there
    obtain ⟨pending, found⟩ := Option.ne_none_iff_exists'.1 there
    have given : a.lastRequest + 1 ≤ a.lastRequest := numbered _ pending found
    omega
  have started : ∀ k : Nat, (a.start peer ticket).2.pending[k]? =
      if k = a.lastRequest + 1 then some ⟨peer, ticket⟩ else a.pending[k]? := by
    intro k
    simp only [start, Std.ExtTreeMap.getElem?_insert, Std.compare_eq_iff_eq, eq_comm (a := k)]
  refine ⟨?_, fun k call found => ?_, ⟨Nat.le_succ _, fun k call old found => ?_⟩,
    fun k call found => ?_⟩
  · have waits := waitingIn_insert PendingAction.caller? new ⟨peer, ticket⟩
    exact (waits.append_left a.answered).trans List.perm_middle
  · rw [started] at found
    split at found
    · exact .inr (List.mem_singleton.2 (Option.some.inj found).symm)
    · exact .inl found
  · have found := started k ▸ found
    rwa [if_neg ?_] at found
    have old : k ≤ a.lastRequest := old
    omega
  · have found := started k ▸ found
    show k ≤ a.lastRequest + 1
    split at found
    next eq => omega
    next => exact Nat.le_succ_of_le (numbered k call found)

theorem pending_complete (a : NodeActions) (number : Nat) (reply : ActionReply) :
    (a.complete number reply).pending = a.pending.erase number := by
  unfold complete
  split
  next => rfl
  next ended =>
    refine (Std.ExtTreeMap.ext_getElem? fun k => ?_).symm
    rw [Std.ExtTreeMap.getElem?_erase]
    split
    next eq => rw [← Std.compare_eq_iff_eq.1 eq, ended]
    next => rfl

theorem older_complete {reply : ActionReply} {k : Nat} {call : PendingAction}
    (found : (a.complete number reply).pending[k]? = some call) : a.pending[k]? = some call := by
  rw [pending_complete, Std.ExtTreeMap.getElem?_erase] at found
  split at found
  next => cases found
  next => exact found

/-- A call that has ended tells the caller that waited for it, who waits no longer. -/
theorem complete_serves (numbered : a.book.Numbered) (number : Nat) (reply : ActionReply) :
    Serves [] a (a.complete number reply) := by
  have last : (a.complete number reply).lastRequest = a.lastRequest := by
    unfold complete
    split <;> rfl
  refine ⟨?_, fun k call found => .inl (older_complete found),
    ⟨Nat.le_of_eq last.symm, fun k call _ found => older_complete found⟩, fun k call found => ?_⟩
  · have remaining := a.pending_complete number reply
    cases found : a.pending[number]? with
    | none =>
      rw [complete, found]
      exact .refl _
    | some pending =>
      have told : (a.complete number reply).answered = a.answered ++ [pending.ticket] := by
        simp only [complete, found, answered, answer, List.map_append]
        rfl
      have waits := waitingIn_erase PendingAction.caller? found
      rw [waiting, told, remaining, List.append_assoc]
      exact waits.symm.append_left a.answered
  · show k ≤ (a.complete number reply).lastRequest
    rw [last]
    exact numbered k call (older_complete found)

theorem peerDisconnected_serves (numbered : a.book.Numbered) (peer : NodeName) :
    Serves [] a (a.peerDisconnected peer) := by
  refine List.foldlRecOn _ _ (Serves.refl numbered) ?_
  exact fun b serves number _ => serves.trans (complete_serves serves.numbered number _)

/-- Nobody waits for a peer that went away. -/
theorem pending_peerDisconnected {peer : NodeName} {pending : PendingAction}
    (found : (a.peerDisconnected peer).pending[number]? = some pending) :
    a.pending[number]? = some pending ∧ pending.peer ≠ peer :=
  getElem?_of_lost NodeActions.pending (fun a n => a.pending_complete n _) found

end NodeActions

end Cohort

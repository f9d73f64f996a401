import Cohort.Proofs.Action.Waiting
import Cohort.Proofs.Mapping.Keeping
import Cohort.Proofs.Ring.Ownership

/-!
# Calls to peers that are lost

When a peer is lost the calls to it end, and whoever waited for one of them is told that the peer is
not available. What can be handed off after that goes to the ministers that are left.

## Main definitions

* `Disappoints`: calls end, if they do, by telling their callers that a peer is not available.
* `MappingService.Asks`: besides, new calls are made to some nodes only.

## Main statements

* `MappingService.disappoints_peerDisconnected`, `NodeActions.disappoints_peerDisconnected`: calls
  end in no other way when a peer is lost.
* `MappingService.updateMinistry_asks`: when the ministers change, new calls go to them.
-/

namespace Cohort

/-- Of the calls in a table some have ended since, and their callers were told so. -/
structure Disappoints {α ε : Type} (caller : α → Option Ticket) (refusal : Ticket → ε)
    (pending pending' : Std.ExtTreeMap Nat α) (outbox outbox' : List ε) : Prop where
  told : ∀ effect ∈ outbox, effect ∈ outbox'
  ended : ∀ (number : Nat) (call : α), pending[number]? = some call →
    pending'[number]? = some call ∨ ∀ ticket, caller call = some ticket → refusal ticket ∈ outbox'

namespace Disappoints

variable {α ε : Type} {caller : α → Option Ticket} {refusal : Ticket → ε}
  {pending pending' pending'' : Std.ExtTreeMap Nat α} {outbox outbox' outbox'' : List ε}

theorem refl (pending : Std.ExtTreeMap Nat α) (outbox : List ε) :
    Disappoints caller refusal pending pending outbox outbox :=
  ⟨fun _ => id, fun _ _ => .inl⟩

theorem trans (first : Disappoints caller refusal pending pending' outbox outbox')
    (second : Disappoints caller refusal pending' pending'' outbox' outbox'') :
    Disappoints caller refusal pending pending'' outbox outbox'' where
  told effect there := second.told effect (first.told effect there)
  ended number call found := by
    obtain still | told := first.ended number call found
    · exact second.ended number call still
    · exact .inr fun ticket waits => second.told _ (told ticket waits)

/-- One call ends, and its caller is told. -/
theorem of_erase {number : Nat} (erased : pending' = pending.erase number) (effects : List ε)
    (grown : outbox' = outbox ++ effects)
    (refused : ∀ call, pending[number]? = some call → ∀ ticket, caller call = some ticket →
      refusal ticket ∈ effects) : Disappoints caller refusal pending pending' outbox outbox' := by
  subst erased grown
  refine ⟨fun effect there => List.mem_append_left _ there, fun k call found => ?_⟩
  by_cases same : number = k
  · subst same
    exact .inr fun ticket waits => List.mem_append_right _ (refused call found ticket waits)
  · rw [Std.ExtTreeMap.getElem?_erase, if_neg fun eq => same (Std.compare_eq_iff_eq.1 eq)]
    exact .inl found

end Disappoints

/-! ## Mappings -/

namespace MappingService

variable {s t u : MappingService} {live : NameSet}

/-- Calls on mappings end, if they do, by telling their callers that a peer is not available. -/
abbrev Disappoints (s t : MappingService) : Prop :=
  Cohort.Disappoints PendingCall.caller? (MappingEffect.answer · (.error .peerUnavailable))
    s.pending t.pending s.outbox t.outbox

theorem disappoints_callCompleted (s : MappingService) (number : Nat) :
    Disappoints s (s.callCompleted number (.error .peerUnavailable)) := by
  have erased := (s.pending_callCompleted number (.error .peerUnavailable)).1
  obtain ⟨effects, grown, -⟩ := s.outbox_callCompleted number (.error .peerUnavailable)
  refine .of_erase erased effects grown fun call found ticket waits => ?_
  obtain ⟨none, -⟩ | ⟨peer, asked, there, told⟩ | ⟨peer, index, entries, there, -⟩ :=
    s.callCompleted_cases number (.error .peerUnavailable)
  · cases none.symm.trans found
  · obtain rfl := Option.some.inj (there.symm.trans found)
    obtain rfl : asked = ticket := Option.some.inj waits
    have outbox : s.outbox ++ effects = s.outbox ++ [.answer asked (.error .peerUnavailable)] := by
      rw [← grown, told]
      rfl
    rw [List.append_cancel_left outbox]
    exact List.mem_singleton_self _
  · obtain rfl := Option.some.inj (there.symm.trans found)
    cases waits

theorem disappoints_peerDisconnected (s : MappingService) (peer : NodeName) :
    Disappoints s (s.peerDisconnected peer) := by
  refine List.foldlRecOn (motive := fun t => Disappoints s t) _ _ (.refl _ _) ?_
  exact fun t so number _ => so.trans (disappoints_callCompleted t number)

theorem disappoints_sendCall (numbered : s.Numbered) (peer : NodeName) (call : MappingCall)
    (waiter : CallWaiter) : Disappoints s (s.sendCall peer call waiter) := by
  refine ⟨fun effect there => List.mem_append_left _ there, fun k pending found => .inl ?_⟩
  have earlier : k ≠ s.lastRequest + 1 := by
    have := numbered k pending found
    omega
  rw [pending_sendCall, if_neg earlier]
  exact found

/-- Calls end, if they do, by telling their callers that a peer is not available, and new ones are
made to some nodes only. -/
structure Asks (nodes : NameSet) (s t : MappingService) : Prop where
  disappoints : Disappoints s t
  begun : ∀ (number : Nat) (call : PendingCall), t.pending[number]? = some call →
    s.pending[number]? = some call ∨ call.peer ∈ nodes

theorem Asks.trans {nodes : NameSet} (first : Asks nodes s t) (second : Asks nodes t u) :
    Asks nodes s u where
  disappoints := first.disappoints.trans second.disappoints
  begun number call found := (second.begun number call found).elim (first.begun number call) .inr

/-- What is handed off goes to ministers. -/
theorem handOffOne_asks (numbered : s.Numbered)
    (settled : s.ring = .ofNodes Ring.defaultShare s.ring.nodes) (m : Mapping) :
    Asks s.ring.nodes s (s.handOffOne m) := by
  rw [handOffOne_eq]
  cases found : s.heir? m with
  | none => exact ⟨.refl _ _, fun _ _ => .inl⟩
  | some master =>
    have stored : (s.store m.emptied).Numbered := numbered
    refine ⟨disappoints_sendCall stored _ _ _, fun number call found' => ?_⟩
    rw [pending_sendCall] at found'
    split at found'
    · -- the heir is a minister
      obtain rfl := Option.some.inj found'
      unfold heir? at found
      split at found
      · cases found
      · obtain ⟨mastered, -⟩ := Option.filter_eq_some_iff.1 found
        rw [settled] at mastered
        exact .inr (Ring.masterOf_ofNodes.1 mastered).inside
    · exact .inl found'

theorem resumeHandOffs_asks (numbered : s.Numbered)
    (settled : s.ring = .ofNodes Ring.defaultShare s.ring.nodes) :
    Asks s.ring.nodes s s.resumeHandOffs := by
  have kept := List.foldlRecOn (motive := fun t : MappingService =>
    t.Numbered ∧ t.ring = s.ring ∧ Asks s.ring.nodes s t) s.mappings.values handOffOne
    ⟨numbered, rfl, .refl _ _, fun _ _ => .inl⟩ ?_
  · exact kept.2.2
  · rintro t ⟨numbered, ring, asks⟩ m -
    have asks' := handOffOne_asks numbered (by rwa [ring]) m
    rw [ring] at asks'
    have same := (Abides.handOffOne t m).ring
    exact ⟨(handOffOne_serves numbered m).numbered, same.trans ring, asks.trans asks'⟩

/-- When the ministers change no call ends by that, and new calls go to ministers. -/
theorem updateMinistry_asks (numbered : s.Numbered)
    (settled : s.ring = .ofNodes Ring.defaultShare s.ring.nodes) (live : NameSet) :
    Asks (s.ministers live) s (s.updateMinistry live) := by
  have same : (s.governed live).pending = s.pending ∧ (s.governed live).outbox = s.outbox ∧
      (s.governed live).lastRequest = s.lastRequest := by
    unfold governed
    split <;> exact ⟨rfl, rfl, rfl⟩
  obtain ⟨pending, outbox, last⟩ := same
  have numbered : (s.governed live).Numbered := by
    intro number call found
    rw [pending] at found
    rw [last]
    exact numbered number call found
  have asks := resumeHandOffs_asks numbered (ring_governed settled live)
  rw [nodes_governed, ← updateMinistry_eq] at asks
  obtain ⟨disappoints, begun⟩ := asks
  rw [Disappoints, pending, outbox] at disappoints
  rw [pending] at begun
  exact ⟨disappoints, begun⟩

theorem mem_live_of_mem_ministers {node : NodeName} (minister : node ∈ s.ministers live) :
    node ∈ live := by
  rw [ministers, Std.ExtTreeSet.mem_ofList, List.contains_iff_mem] at minister
  exact Std.ExtTreeSet.mem_toList.1 (List.mem_of_mem_take minister)

end MappingService

/-! ## Actions -/

namespace NodeActions

variable {a b : NodeActions}

/-- Calls of actions end, if they do, by telling their callers that a peer is not available. -/
abbrev Disappoints (a b : NodeActions) : Prop :=
  Cohort.Disappoints PendingAction.caller? (fun ticket => (ticket, .error .peerUnavailable))
    a.pending b.pending a.outbox b.outbox

theorem disappoints_complete (a : NodeActions) (number : Nat) :
    Disappoints a (a.complete number (.error .peerUnavailable)) := by
  have erased := a.pending_complete number (.error .peerUnavailable)
  cases found : a.pending[number]? with
  | none =>
    rw [complete, found]
    exact .refl _ _
  | some pending =>
    have told : (a.complete number (.error .peerUnavailable)).outbox =
        a.outbox ++ [(pending.ticket, .error .peerUnavailable)] := by
      rw [complete, found]
      rfl
    refine .of_erase erased _ told fun call there ticket waits => ?_
    obtain rfl := Option.some.inj (found.symm.trans there)
    obtain rfl : pending.ticket = ticket := Option.some.inj waits
    exact List.mem_singleton_self _

theorem disappoints_peerDisconnected (a : NodeActions) (peer : NodeName) :
    Disappoints a (a.peerDisconnected peer) := by
  refine List.foldlRecOn (motive := fun b => Disappoints a b) _ _ (.refl _ _) ?_
  exact fun b so number _ => so.trans (disappoints_complete b number)

end NodeActions

end Cohort

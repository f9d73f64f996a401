import Cohort.Proofs.Mapping.Mastery

/-!
# Callers that wait for another node

A caller whose call went to another node waits under the number of the call. Whatever happens to a
service, the callers that it has answered and those that wait are the callers that have asked, each
as often as it asked. Whoever waits has a call on its way when it begins to wait, and the numbers of
calls are not used again.

## Main definitions

* `waitingIn`: the callers that wait for calls.
* `MappingService.Serves`: what an operation does to those who wait.

## Main statements

* `MappingService.submit_serves`, `MappingService.peerDisconnected_serves` and the like, for every
  operation.
* `MappingService.pending_peerDisconnected`: nobody waits for a peer that went away.
-/

namespace Cohort

/-! ## Tables of calls -/

section

variable {α : Type} {pending : Std.ExtTreeMap Nat α} {number : Nat} {call : α}

/-- The callers that wait for the calls of a table, by the numbers of these. -/
def waitingIn (caller : α → Option Ticket) (pending : Std.ExtTreeMap Nat α) : List Ticket :=
  pending.toList.filterMap fun entry => caller entry.2

/-- A call is one of those of the table, which are besides those that are left without it. -/
theorem perm_toList_erase (found : pending[number]? = some call) :
    pending.toList.Perm ((number, call) :: (pending.erase number).toList) := by
  have apart : ∀ table : Std.ExtTreeMap Nat α, table.toList.Nodup := by
    intro table
    refine Std.ExtTreeMap.distinct_keys_toList.imp fun differ same => differ ?_
    rw [same]
    exact Std.compare_eq_iff_eq.2 rfl
  -- no entry is there twice, so it is enough to compare what is there
  refine (List.perm_ext_iff_of_nodup (apart _) ?_).2 fun entry => ?_
  · refine List.nodup_cons.2 ⟨fun there => ?_, apart _⟩
    rw [Std.ExtTreeMap.mem_toList_iff_getElem?_eq_some, Std.ExtTreeMap.getElem?_erase_self] at there
    cases there
  · obtain ⟨k, other⟩ := entry
    rw [List.mem_cons, Std.ExtTreeMap.mem_toList_iff_getElem?_eq_some,
      Std.ExtTreeMap.mem_toList_iff_getElem?_eq_some, Std.ExtTreeMap.getElem?_erase]
    by_cases same : number = k
    · subst same
      simp [found, eq_comm]
    · simp [same, Ne.symm same]

/-- Who waits for a call waits besides those who wait for the others. -/
theorem waitingIn_erase (caller : α → Option Ticket) (found : pending[number]? = some call) :
    (waitingIn caller pending).Perm
      ((caller call).toList ++ waitingIn caller (pending.erase number)) := by
  exact ((perm_toList_erase found).filterMap _).trans (.of_eq (filterMap_cons_eq _ _ _))

/-- Who begins to wait waits besides those who wait already. -/
theorem waitingIn_insert (caller : α → Option Ticket) (new : pending[number]? = none) (call : α) :
    (waitingIn caller (pending.insert number call)).Perm
      ((caller call).toList ++ waitingIn caller pending) := by
  have without : (pending.insert number call).erase number = pending := by
    refine Std.ExtTreeMap.ext_getElem? fun k => ?_
    rw [Std.ExtTreeMap.getElem?_erase, Std.ExtTreeMap.getElem?_insert]
    split
    next eq => rw [← Std.compare_eq_iff_eq.1 eq, new]
    next => rfl
  have erased := waitingIn_erase caller
    (Std.ExtTreeMap.getElem?_insert_self (t := pending) (k := number) (v := call))
  rwa [without] at erased

/-- Who waits, waits for a call. -/
theorem mem_waitingIn {caller : α → Option Ticket} {ticket : Ticket} :
    ticket ∈ waitingIn caller pending ↔
      ∃ (number : Nat) (call : α), pending[number]? = some call ∧ caller call = some ticket := by
  simp only [waitingIn, List.mem_filterMap, Prod.exists,
    Std.ExtTreeMap.mem_toList_iff_getElem?_eq_some]

/-- The calls that are left when all those to a peer have ended. -/
theorem getElem?_of_lost {σ : Type} (table : σ → Std.ExtTreeMap Nat α) {ends : σ → Nat → σ}
    (erases : ∀ s n, table (ends s n) = (table s).erase n) {peerOf : α → NodeName} {peer : NodeName}
    {s : σ} (found : (table ((((table s).toList.filter fun entry => peerOf entry.2 = peer).map
      Prod.fst).foldl ends s))[number]? = some call) :
    (table s)[number]? = some call ∧ peerOf call ≠ peer := by
  rw [getElem?_foldl_erase erases] at found
  split at found
  next => cases found
  next spared =>
    refine ⟨found, fun theirs => spared ?_⟩
    rw [List.mem_map]
    refine ⟨(number, call), List.mem_filter.2 ⟨?_, decide_eq_true theirs⟩, rfl⟩
    exact Std.ExtTreeMap.mem_toList_iff_getElem?_eq_some.2 found

end

/-- Callers that were answered or waited before, and those that have asked since, were answered or
wait now. -/
theorem perm_callers {answered before told left asked all : List Ticket}
    (earlier : (answered ++ before).Perm all) (since : (told ++ left).Perm (asked ++ before)) :
    (answered ++ told ++ left).Perm (all ++ asked) := by
  have swapped : (asked ++ before).Perm (before ++ asked) := List.perm_append_comm
  rw [List.append_assoc]
  refine ((since.trans swapped).append_left answered).trans ?_
  rw [← List.append_assoc]
  exact earlier.append_right asked

/-- Calls that have not ended, by number, and the number of the latest one. -/
structure CallBook (α : Type) where
  last : Nat
  pending : Std.ExtTreeMap Nat α

namespace CallBook

variable {α : Type} {b c d : CallBook α}

/-- The numbers of pending calls were given already. -/
def Numbered (b : CallBook α) : Prop :=
  ∀ (number : Nat) (call : α), b.pending[number]? = some call → number ≤ b.last

/-- Numbers that were given once are not given again. -/
structure Ages (b c : CallBook α) : Prop where
  last : b.last ≤ c.last
  older : ∀ (number : Nat) (call : α), number ≤ b.last → c.pending[number]? = some call →
    b.pending[number]? = some call

theorem Ages.refl (b : CallBook α) : b.Ages b := ⟨Nat.le_refl _, fun _ _ _ found => found⟩

theorem Ages.trans (first : b.Ages c) (second : c.Ages d) : b.Ages d where
  last := Nat.le_trans first.last second.last
  older number call old found :=
    first.older number call old (second.older number call (Nat.le_trans old first.last) found)

/-- A call that has ended does not come back. -/
theorem Ages.ended (ages : b.Ages c) {number : Nat} (old : number ≤ b.last)
    (ended : b.pending[number]? = none) : c.pending[number]? = none := by
  refine Option.eq_none_iff_forall_ne_some.2 fun call found => ?_
  rw [ages.older number call old found] at ended
  cases ended

end CallBook

/-! ## What operations do -/

/-- The caller that an effect answers, if it answers one. -/
def MappingEffect.caller? : MappingEffect → Option Ticket
  | .answer ticket _ => some ticket
  | _ => none

/-- The caller that waits for a call, if one does. -/
def PendingCall.caller? (pending : PendingCall) : Option Ticket :=
  match pending.waiter with
  | .reply ticket => some ticket
  | .handOff _ _ => none

namespace MappingService

variable {s t u : MappingService} {asked asked' : List Ticket}
  {effects effects' : List MappingEffect}

/-- The calls to other nodes. -/
def book (s : MappingService) : CallBook PendingCall := ⟨s.lastRequest, s.pending⟩

/-- The callers that wait for other nodes. -/
def waiting (s : MappingService) : List Ticket := waitingIn PendingCall.caller? s.pending

/-- An operation, in which some callers ask, wants these things done. Callers that have asked are
answered or wait, and who begins to wait has a call among them. -/
structure Serving (asked : List Ticket) (s t : MappingService) (effects : List MappingEffect) :
    Prop where
  outbox : t.outbox = s.outbox ++ effects
  callers : (effects.filterMap MappingEffect.caller? ++ t.waiting).Perm (asked ++ s.waiting)
  sent : ∀ (n : Nat) (pending : PendingCall), t.pending[n]? = some pending →
    s.pending[n]? = some pending ∨ ∃ call, .call pending.peer n call ∈ effects
  news : ∀ event, .broadcast event ∈ effects → isNews (.broadcast event) = true
  ages : s.book.Ages t.book
  numbered : t.Numbered

/-- Callers that ask in an operation are answered or wait, as are those who asked before. -/
def Serves (asked : List Ticket) (s t : MappingService) : Prop :=
  ∃ effects, Serving asked s t effects

theorem Serving.trans (first : Serving asked s t effects) (second : Serving asked' t u effects') :
    Serving (asked ++ asked') s u (effects ++ effects') where
  outbox := by rw [second.outbox, first.outbox, List.append_assoc]
  callers := by
    have callers := perm_callers first.callers second.callers
    rw [List.append_assoc asked] at callers ⊢
    rw [List.filterMap_append]
    exact callers.trans (List.perm_append_comm.append_left asked)
  sent n pending found := by
    obtain there | ⟨call, there⟩ := second.sent n pending found
    · obtain there | ⟨call, there⟩ := first.sent n pending there
      · exact .inl there
      · exact .inr ⟨call, List.mem_append_left _ there⟩
    · exact .inr ⟨call, List.mem_append_right _ there⟩
  news event there := by
    obtain there | there := List.mem_append.1 there
    · exact first.news event there
    · exact second.news event there
  ages := first.ages.trans second.ages
  numbered := second.numbered

theorem Serves.trans (first : Serves asked s t) (second : Serves asked' t u) :
    Serves (asked ++ asked') s u := by
  obtain ⟨effects, first⟩ := first
  obtain ⟨effects', second⟩ := second
  exact ⟨effects ++ effects', first.trans second⟩

theorem Serves.numbered (serves : Serves asked s t) : t.Numbered := by
  obtain ⟨_, serving⟩ := serves
  exact serving.numbered

theorem Serves.ages (serves : Serves asked s t) : s.book.Ages t.book := by
  obtain ⟨_, serving⟩ := serves
  exact serving.ages

/-- Nobody asks, and nobody is answered. -/
theorem serves_of_news (numbered : s.Numbered) (pending : t.pending = s.pending)
    (lastRequest : t.lastRequest = s.lastRequest) (effects : List MappingEffect)
    (grown : t.outbox = s.outbox ++ effects) (news : ∀ effect ∈ effects, isNews effect = true) :
    Serves [] s t := by
  have silent : effects.filterMap MappingEffect.caller? = [] := by
    rw [List.filterMap_eq_nil_iff]
    intro effect there
    cases effect with
    | answer ticket reply => cases news _ there
    | _ => rfl
  refine ⟨effects, grown, ?_, fun n call found => ?_, fun event there => news _ there, ?_, ?_⟩
  · rw [silent, waiting, waiting, pending]
  · exact .inl (pending ▸ found)
  · rw [book, book, pending, lastRequest]
    exact .refl _
  · intro n call found
    rw [lastRequest]
    exact numbered n call (pending ▸ found)

/-- What listeners and other nodes are not even told of. -/
theorem serves_of_eq (numbered : s.Numbered) (pending : t.pending = s.pending)
    (lastRequest : t.lastRequest = s.lastRequest) (same : t.outbox = s.outbox) : Serves [] s t :=
  serves_of_news numbered pending lastRequest [] (by rw [same, List.append_nil]) nofun

theorem foldl_serves {α : Type} {f : MappingService → α → MappingService}
    (each : ∀ (s : MappingService) (a : α), s.Numbered → Serves [] s (f s a)) (l : List α)
    (numbered : s.Numbered) : Serves [] s (l.foldl f s) := by
  induction l generalizing s with
  | nil => exact serves_of_eq numbered rfl rfl rfl
  | cons a l ih =>
    have first := each s a numbered
    exact first.trans (ih first.numbered)

theorem answer_serves (numbered : s.Numbered) (ticket : Ticket) (reply : MappingReply) :
    Serves [ticket] s (s.answer ticket reply) := by
  refine ⟨[.answer ticket reply], rfl, .refl _, fun _ _ found => .inl found, ?_, .refl _, numbered⟩
  exact fun _ there => nomatch List.mem_singleton.1 there

/-- Who begins to wait has a call on its way. -/
theorem sendCall_serves (numbered : s.Numbered) (peer : NodeName) (call : MappingCall)
    (waiter : CallWaiter) : Serves (PendingCall.caller? ⟨peer, waiter⟩).toList s
      (s.sendCall peer call waiter) := by
  have new : s.pending[s.lastRequest + 1]? = none := by
    by_contra there
    obtain ⟨pending, found⟩ := Option.ne_none_iff_exists'.1 there
    exact absurd (numbered _ pending found) (by omega)
  refine ⟨[.call peer (s.lastRequest + 1) call], rfl, ?_, fun n pending found => ?_, ?_,
    ⟨Nat.le_succ _, fun n pending old found => ?_⟩, numbered.sendCall peer call waiter⟩
  · exact waitingIn_insert PendingCall.caller? new ⟨peer, waiter⟩
  · rw [pending_sendCall] at found
    split at found
    next eq =>
      obtain rfl := Option.some.inj found
      exact .inr ⟨call, by rw [eq]; exact List.mem_singleton_self _⟩
    next => exact .inl found
  · exact fun _ there => nomatch List.mem_singleton.1 there
  · have earlier : n ≠ s.lastRequest + 1 := by
      have old : n ≤ s.lastRequest := old
      omega
    have found : (s.sendCall peer call waiter).pending[n]? = some pending := found
    rwa [pending_sendCall, if_neg earlier] at found

theorem handOffOne_serves (numbered : s.Numbered) (m : Mapping) : Serves [] s (s.handOffOne m) := by
  rw [handOffOne_eq]
  cases s.heir? m with
  | none => exact serves_of_eq numbered rfl rfl rfl
  | some master =>
    have stored : Serves [] s (s.store m.emptied) := serves_of_eq numbered rfl rfl rfl
    exact stored.trans (sendCall_serves stored.numbered master _ (.handOff m.index m.entries))

theorem resumeHandOffs_serves (numbered : s.Numbered) : Serves [] s s.resumeHandOffs :=
  foldl_serves (fun _ m numbered => handOffOne_serves numbered m) _ numbered

theorem updateMinistry_serves (numbered : s.Numbered) (live : NameSet) :
    Serves [] s (s.updateMinistry live) := by
  have governed : Serves [] s (s.governed live) := by
    unfold MappingService.governed
    split <;> exact serves_of_eq numbered rfl rfl rfl
  exact governed.trans (resumeHandOffs_serves governed.numbered)

/-- A call that has ended tells the caller that waited for it, who waits no longer. -/
theorem callCompleted_serves (numbered : s.Numbered) (n : Nat) (reply : MappingReply) :
    Serves [] s (s.callCompleted n reply) := by
  obtain ⟨pending, lastRequest, -⟩ := s.pending_callCompleted n reply
  have ended : ∀ effects, (s.callCompleted n reply).outbox = s.outbox ++ effects →
      (effects.filterMap MappingEffect.caller? ++
        waitingIn PendingCall.caller? (s.pending.erase n)).Perm s.waiting →
      (∀ event, .broadcast event ∉ effects) → Serves [] s (s.callCompleted n reply) := by
    intro effects grown callers silent
    refine ⟨effects, grown, ?_, fun k call found => .inl (older_callCompleted found),
      fun event there => absurd there (silent event),
      ⟨Nat.le_of_eq lastRequest.symm, fun k call _ found => older_callCompleted found⟩,
      fun k call found => ?_⟩
    · rwa [waiting, pending]
    · rw [lastRequest]
      exact numbered k call (older_callCompleted found)
  obtain ⟨found, same⟩ | ⟨peer, ticket, found, told⟩ | ⟨peer, index, entries, found, back⟩ :=
    s.callCompleted_cases n reply
  · rw [same]
    exact serves_of_eq numbered rfl rfl rfl
  · refine ended [.answer ticket reply] (by rw [told]; rfl) ?_ (fun _ there => ?_)
    · exact (waitingIn_erase PendingCall.caller? found).symm
    · cases List.mem_singleton.1 there
  · refine ended [] ?_ (waitingIn_erase PendingCall.caller? found).symm nofun
    rw [back, List.append_nil]
    cases reply with
    | ok value => rfl
    | error failure =>
      simp only [restore_eq]
      cases (s.without n).mappings[index]? <;> rfl

theorem peerDisconnected_serves (numbered : s.Numbered) (peer : NodeName) :
    Serves [] s (s.peerDisconnected peer) :=
  foldl_serves (fun _ n numbered => callCompleted_serves numbered n _) _ numbered

/-- Nobody waits for a peer that went away. -/
theorem pending_peerDisconnected {peer : NodeName} {n : Nat} {pending : PendingCall}
    (found : (s.peerDisconnected peer).pending[n]? = some pending) :
    s.pending[n]? = some pending ∧ pending.peer ≠ peer :=
  getElem?_of_lost MappingService.pending
    (fun s n => (s.pending_callCompleted n (.error .peerUnavailable)).1) found

/-- A caller that asks is answered, or waits for the master. -/
theorem submit_serves (numbered : s.Numbered) (call : MappingCall) (ticket : Ticket) :
    Serves [ticket] s (s.submit call ticket) := by
  obtain ⟨serves, ran⟩ | ⟨-, ⟨failure, refused⟩ | ⟨master, sent⟩⟩ := s.submit_cases call ticket
  · obtain ⟨m, held⟩ := held_of_servesOwn serves
    obtain ⟨effects, grown, news⟩ := outbox_run held
    have tends := run_tends held
    have done : Serves [] s (s.run call).2 :=
      serves_of_news numbered tends.pending_eq tends.lastRequest_eq effects grown news
    rw [ran]
    exact done.trans (answer_serves done.numbered ticket _)
  · rw [refused]
    exact answer_serves numbered ticket _
  · rw [sent]
    exact sendCall_serves numbered master call (.reply ticket)

theorem handleCall_serves (numbered : s.Numbered) (call : MappingCall) :
    Serves [] s (s.handleCall call).2 := by
  obtain ⟨serves, ran⟩ | ⟨-, failure, refused⟩ := s.handleCall_cases call
  · obtain ⟨m, held, -⟩ := held_of_servesOthers serves
    obtain ⟨effects, grown, news⟩ := outbox_run held
    have tends := run_tends held
    rw [ran]
    exact serves_of_news numbered tends.pending_eq tends.lastRequest_eq effects grown news
  · rw [refused]
    exact serves_of_eq numbered rfl rfl rfl

theorem flush_serves (numbered : s.Numbered) (now : Nat) (force : Bool) :
    Serves [] s (s.flush now force) := by
  have tends := s.flush_tends now force
  refine serves_of_news numbered tends.pending_eq tends.lastRequest_eq _
    (s.outbox_flush now force) fun effect there => ?_
  obtain ⟨event, among, rfl⟩ := List.mem_map.1 there
  obtain ⟨m, -, among⟩ := List.mem_flatMap.1 among
  unfold Mapping.flushedNews at among
  split at among
  · obtain rfl := List.mem_singleton.1 among
    rfl
  · cases among

theorem cacheData_serves (numbered : s.Numbered) (cache : String) (data : Bytes) :
    Serves [] s (s.cacheData cache data).2 := by
  unfold cacheData
  split
  · exact serves_of_eq numbered rfl rfl rfl
  split
  · refine serves_of_news numbered rfl rfl _ rfl fun effect there => ?_
    obtain ⟨told, -, rfl⟩ := List.mem_map.1 there
    rfl
  · exact serves_of_eq numbered rfl rfl rfl

theorem addListener_serves (numbered : s.Numbered) (index : UInt16) (listener : Listener) :
    Serves [] s (s.addListener index listener).2 := by
  unfold addListener
  split <;> exact serves_of_eq numbered rfl rfl rfl

end MappingService

end Cohort

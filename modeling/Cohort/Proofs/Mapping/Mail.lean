import Cohort.Proofs.Mapping.Turns

/-!
# What a service sends and answers

Every call that a service sends gets a number of its own, under which the service keeps who waits
for the answer: a caller, or the entries that the call hands off. A caller is told of success only
when its call has run here or when the answer to it has come from elsewhere.

## Main definitions

* `MappingService.Suits`: a call is the one that its waiter waits for.
* `MappingService.Accounted`: an effect of an operation has its reason.
* `MappingService.Proceeds`: what an operation may do to calls and callers.

## Main statements

* `MappingService.step_proceeds`: calls keep their waiters, and everything that an operation sends
  or answers has its reason.
-/

namespace Cohort

namespace MappingService

variable {s t u : MappingService} {m : Mapping} {op : MappingOp} {call : MappingCall}
  {waiter : CallWaiter}

/-- A call is the one that a waiter waits for: it hands the parked entries off, or it is what a
caller asked for by this operation. -/
def Suits (op : MappingOp) (call : MappingCall) : CallWaiter → Prop
  | .handOff index entries => call = .handOff index entries.keys entries.values
  | .reply ticket => op = .submit call ticket

/-- A call was sent with a number of its own, under which somebody waits. -/
structure Posted (op : MappingOp) (s t : MappingService) (peer : NodeName) (n : Nat)
    (call : MappingCall) : Prop where
  fresh : s.lastRequest < n
  given : n ≤ t.lastRequest
  awaited : ∃ waiter, t.pending[n]? = some ⟨peer, waiter⟩ ∧ Suits op call waiter

/-- An effect of an operation has its reason: a call was posted, and success is told to a caller
whose call has run here or was answered elsewhere. -/
def Accounted (op : MappingOp) (s t : MappingService) : MappingEffect → Prop
  | .call peer n call => Posted op s t peer n call
  | .answer ticket (.ok value) =>
    (∃ call, op = .submit call ticket ∧ s.servesOwn call.index = true ∧
      (s.run call).1 = .ok value) ∨
    ∃ n peer, op = .complete n (.ok value) ∧ s.pending[n]? = some ⟨peer, .reply ticket⟩
  | _ => True

/-- What an operation may do to calls and callers: it numbers calls onwards, ends some of the calls
that were sent before, and does nothing without a reason. -/
structure Proceeds (op : MappingOp) (s t : MappingService) : Prop where
  lastRequest : s.lastRequest ≤ t.lastRequest
  older : ∀ (n : Nat) (pending : PendingCall), n ≤ s.lastRequest →
    t.pending[n]? = some pending → s.pending[n]? = some pending
  outbox : ∃ effects, t.outbox = s.outbox ++ effects ∧ ∀ effect ∈ effects, Accounted op s t effect

/-- Calls were posted one after the other, and nothing else was asked for. -/
structure Mails (op : MappingOp) (s t : MappingService) : Prop where
  lastRequest : s.lastRequest ≤ t.lastRequest
  older : ∀ n ≤ s.lastRequest, t.pending[n]? = s.pending[n]?
  outbox : ∃ effects, t.outbox = s.outbox ++ effects ∧
    ∀ effect ∈ effects, ∃ peer n call, effect = .call peer n call ∧ Posted op s t peer n call

/-! ## Calls that are sent -/

theorem pending_sendCall (s : MappingService) (peer : NodeName) (call : MappingCall)
    (waiter : CallWaiter) (n : Nat) : (s.sendCall peer call waiter).pending[n]? =
      if n = s.lastRequest + 1 then some ⟨peer, waiter⟩ else s.pending[n]? := by
  show (s.pending.insert (s.lastRequest + 1) ⟨peer, waiter⟩)[n]? = _
  simp only [Std.ExtTreeMap.getElem?_insert, Std.compare_eq_iff_eq, eq_comm (a := n)]

namespace Mails

/-- Nothing was asked for at all. -/
theorem quiet (lastRequest : t.lastRequest = s.lastRequest) (pending : t.pending = s.pending)
    (outbox : t.outbox = s.outbox) : Mails op s t where
  lastRequest := Nat.le_of_eq lastRequest.symm
  older _ _ := by rw [pending]
  outbox := ⟨[], by rw [outbox, List.append_nil], nofun⟩

theorem sendCall (s : MappingService) (peer : NodeName) (suits : Suits op call waiter) :
    Mails op s (s.sendCall peer call waiter) where
  lastRequest := Nat.le_succ _
  older n old := by rw [pending_sendCall, if_neg (by omega)]
  outbox := by
    refine ⟨[.call peer (s.lastRequest + 1) call], rfl, fun effect there => ?_⟩
    obtain rfl := List.mem_singleton.1 there
    refine ⟨peer, _, call, rfl, Nat.lt_succ_self _, Nat.le_refl _, waiter, ?_, suits⟩
    rw [pending_sendCall, if_pos rfl]

theorem trans (first : Mails op s t) (second : Mails op t u) : Mails op s u where
  lastRequest := Nat.le_trans first.lastRequest second.lastRequest
  older n old := (second.older n (Nat.le_trans old first.lastRequest)).trans (first.older n old)
  outbox := by
    obtain ⟨effects, grown, posted⟩ := first.outbox
    obtain ⟨effects', grown', posted'⟩ := second.outbox
    refine ⟨effects ++ effects', by rw [grown', grown, List.append_assoc], fun effect there => ?_⟩
    obtain there | there := List.mem_append.1 there
    · obtain ⟨peer, n, call, rfl, fresh, given, waiter, found, suits⟩ := posted effect there
      exact ⟨peer, n, call, rfl, fresh, Nat.le_trans given second.lastRequest, waiter,
        (second.older n given).trans found, suits⟩
    · obtain ⟨peer, n, call, rfl, fresh, given, awaited⟩ := posted' effect there
      exact ⟨peer, n, call, rfl, Nat.lt_of_le_of_lt first.lastRequest fresh, given, awaited⟩

theorem handOffOne (op : MappingOp) (s : MappingService) (m : Mapping) :
    Mails op s (s.handOffOne m) := by
  rw [handOffOne_eq]
  cases s.heir? m with
  | none => exact quiet rfl rfl rfl
  | some master =>
    have suits : Suits op (.handOff m.index m.entries.keys m.entries.values)
      (.handOff m.index m.entries) := rfl
    have stored : Mails op s (s.store m.emptied) := quiet rfl rfl rfl
    exact stored.trans (sendCall _ master suits)

theorem resumeHandOffs (op : MappingOp) (s : MappingService) : Mails op s s.resumeHandOffs := by
  have folded : ∀ (l : List Mapping) (s : MappingService),
      Mails op s (l.foldl MappingService.handOffOne s) := by
    intro l
    induction l with
    | nil => exact fun s => quiet rfl rfl rfl
    | cons m l ih => exact fun s => (handOffOne op s m).trans (ih _)
  exact folded s.mappings.values s

theorem updateMinistry (op : MappingOp) (s : MappingService) (live : NameSet) :
    Mails op s (s.updateMinistry live) := by
  have governed : Mails op s (s.governed live) := by
    unfold MappingService.governed
    split <;> exact quiet rfl rfl rfl
  exact governed.trans (resumeHandOffs op _)

theorem proceeds (mails : Mails op s t) : Proceeds op s t where
  lastRequest := mails.lastRequest
  older n pending old found := (mails.older n old).symm.trans found
  outbox := by
    obtain ⟨effects, grown, posted⟩ := mails.outbox
    refine ⟨effects, grown, fun effect there => ?_⟩
    obtain ⟨peer, n, call, rfl, posted⟩ := posted effect there
    exact posted

end Mails

/-! ## All operations -/

/-- An effect needs a reason if it sends a call or tells a caller of success. -/
def needsReason : MappingEffect → Bool
  | .call .. | .answer _ (.ok _) => true
  | _ => false

theorem accounted_of_free {effect : MappingEffect} (free : needsReason effect = false) :
    Accounted op s t effect := by
  cases effect with
  | call peer n call => cases free
  | answer ticket reply =>
    cases reply with
    | ok value => cases free
    | error failure => trivial
  | broadcast event => trivial
  | told one => trivial

/-- What does nothing to calls needs a reason for its effects only. -/
theorem Proceeds.of_tends (tends : s.Tends t) (effects : List MappingEffect)
    (grown : t.outbox = s.outbox ++ effects)
    (accounted : ∀ effect ∈ effects, Accounted op s t effect) :
    Proceeds op s t where
  lastRequest := tends.lastRequest_eq ▸ Nat.le_refl _
  older _ _ _ found := tends.pending_eq ▸ found
  outbox := ⟨effects, grown, accounted⟩

/-- Whether an effect tells listeners or other nodes of a change. Other nodes are told by news about
a cache. -/
def isNews : MappingEffect → Bool
  | .broadcast (.cacheData _ _) | .told _ => true
  | _ => false

theorem needsReason_of_isNews {effect : MappingEffect} (news : isNews effect = true) :
    needsReason effect = false := by
  cases effect with
  | broadcast event => rfl
  | told one => rfl
  | call peer n call => cases news
  | answer ticket reply => cases news

theorem isNews_committed {changes : List Change} {event : NodeEvent}
    (among : event ∈ m.committedNews changes) : isNews (.broadcast event) = true := by
  unfold Mapping.committedNews at among
  split at among
  · split at among
    · cases among
    · obtain rfl := List.mem_singleton.1 among
      rfl
  · cases among

/-- What runs here tells listeners and other nodes, and asks for nothing else. -/
theorem outbox_run (held : s.mappings[call.index]? = some m) :
    ∃ effects, (s.run call).2.outbox = s.outbox ++ effects ∧
      ∀ effect ∈ effects, isNews effect = true := by
  obtain ⟨⟨failure, ran⟩, -⟩ | ⟨reply, ran⟩ := run_cases held
  · rw [ran]
    exact ⟨[], (List.append_nil _).symm, nofun⟩
  · rw [ran, commit_eq]
    refine ⟨_, rfl, fun effect there => ?_⟩
    obtain there | there := List.mem_append.1 there
    · obtain ⟨told, -, rfl⟩ := List.mem_map.1 there
      rfl
    · obtain ⟨event, among, rfl⟩ := List.mem_map.1 there
      exact isNews_committed among

theorem submit_proceeds (s : MappingService) (call : MappingCall) (ticket : Ticket) :
    Proceeds (.submit call ticket) s (s.submit call ticket) := by
  obtain ⟨serves, ran⟩ | ⟨-, ⟨failure, refused⟩ | ⟨master, sent⟩⟩ := s.submit_cases call ticket
  · obtain ⟨m, held⟩ := held_of_servesOwn serves
    obtain ⟨effects, grown, news⟩ := outbox_run held
    have tends := run_tends held
    have answers : s.submit call ticket = (s.run call).2.answer ticket (s.run call).1 := ran
    rw [answers]
    generalize answered : (s.run call).1 = reply
    refine .of_tends (tends.trans rfl) (effects ++ [.answer ticket reply]) ?_ ?_
    · show (s.run call).2.outbox ++ [_] = _
      rw [grown, List.append_assoc]
    · intro effect there
      obtain there | there := List.mem_append.1 there
      · exact accounted_of_free (needsReason_of_isNews (news effect there))
      obtain rfl := List.mem_singleton.1 there
      cases reply with
      | ok value => exact .inl ⟨call, rfl, serves, answered⟩
      | error failure => trivial
  · rw [refused]
    refine .of_tends rfl [.answer ticket (.error failure)] rfl fun effect there => ?_
    obtain rfl := List.mem_singleton.1 there
    trivial
  · have suits : Suits (.submit call ticket) call (.reply ticket) := rfl
    rw [sent]
    exact (Mails.sendCall s master suits).proceeds

theorem handleCall_proceeds (s : MappingService) (call : MappingCall) :
    Proceeds (.handle call) s (s.handleCall call).2 := by
  have tends := s.handleCall_tends call
  obtain ⟨serves, ran⟩ | ⟨-, failure, refused⟩ := s.handleCall_cases call
  · obtain ⟨m, held, -⟩ := held_of_servesOthers serves
    obtain ⟨effects, grown, news⟩ := outbox_run held
    rw [ran] at tends ⊢
    refine .of_tends tends _ grown fun effect there => ?_
    exact accounted_of_free (needsReason_of_isNews (news effect there))
  · rw [refused]
    exact .of_tends (.refl s) [] (List.append_nil _).symm nofun

/-- The end of a call tells the caller that waits for it, if one does. -/
theorem outbox_callCompleted (s : MappingService) (n : Nat) (reply : MappingReply) :
    ∃ effects, (s.callCompleted n reply).outbox = s.outbox ++ effects ∧
      ∀ effect ∈ effects, ∃ peer ticket, effect = .answer ticket reply ∧
        s.pending[n]? = some ⟨peer, .reply ticket⟩ := by
  obtain ⟨-, ended⟩ | ⟨peer, ticket, found, ended⟩ | ⟨peer, index, entries, -, ended⟩ :=
    s.callCompleted_cases n reply
  · exact ⟨[], by rw [ended, List.append_nil], nofun⟩
  · refine ⟨[.answer ticket reply], by rw [ended]; rfl, fun effect there => ?_⟩
    exact ⟨peer, ticket, List.mem_singleton.1 there, found⟩
  · refine ⟨[], ?_, nofun⟩
    rw [ended, List.append_nil]
    cases reply with
    | ok value => rfl
    | error failure =>
      simp only [restore_eq]
      cases (s.without n).mappings[index]? <;> rfl

/-- The end of a call leaves the other calls as they are. -/
theorem older_callCompleted {n k : Nat} {reply : MappingReply} {pending : PendingCall}
    (found : (s.callCompleted n reply).pending[k]? = some pending) :
    s.pending[k]? = some pending := by
  rw [(s.pending_callCompleted n reply).1, Std.ExtTreeMap.getElem?_erase] at found
  split at found
  next => cases found
  next => exact found

theorem callCompleted_proceeds (s : MappingService) (n : Nat) (reply : MappingReply) :
    Proceeds (.complete n reply) s (s.callCompleted n reply) where
  lastRequest := Nat.le_of_eq (s.pending_callCompleted n reply).2.1.symm
  older _ _ _ found := older_callCompleted found
  outbox := by
    obtain ⟨effects, grown, answers⟩ := s.outbox_callCompleted n reply
    refine ⟨effects, grown, fun effect there => ?_⟩
    obtain ⟨peer, ticket, rfl, found⟩ := answers effect there
    cases reply with
    | ok value => exact .inr ⟨n, peer, rfl, found⟩
    | error failure => trivial

theorem peerDisconnected_proceeds (s : MappingService) (peer : NodeName) :
    Proceeds (.disconnect peer) s (s.peerDisconnected peer) := by
  -- the calls that fail leave their answers in the outbox, none of them of success
  have kept := disconnect_keeps
    (P := fun t => s.lastRequest ≤ t.lastRequest ∧
      (∀ (n : Nat) (pending : PendingCall), t.pending[n]? = some pending →
        s.pending[n]? = some pending) ∧
      ∃ effects, t.outbox = s.outbox ++ effects ∧
        ∀ effect ∈ effects, needsReason effect = false) ?_
    ⟨Nat.le_refl _, fun _ _ found => found, [], (List.append_nil _).symm, nofun⟩ peer
  · obtain ⟨lastRequest, older, effects, grown, free⟩ := kept
    exact ⟨lastRequest, fun n pending _ => older n pending, effects, grown,
      fun effect there => accounted_of_free (free effect there)⟩
  · rintro t n failure ⟨lastRequest, older, effects, grown, free⟩
    obtain ⟨effects', grown', answers⟩ := t.outbox_callCompleted n (.error failure)
    refine ⟨?_, fun k pending found => older k pending (older_callCompleted found),
      effects ++ effects', by rw [grown', grown, List.append_assoc], fun effect there => ?_⟩
    · rwa [(t.pending_callCompleted n (.error failure)).2.1]
    · obtain there | there := List.mem_append.1 there
      · exact free effect there
      · obtain ⟨peer, ticket, rfl, -⟩ := answers effect there
        rfl

theorem hear_proceeds (indexed : s.Indexed) (event : NodeEvent) :
    Proceeds (.hear event) s (s.hear event) := by
  have tends := hear_tends indexed event
  obtain ⟨ignored, -⟩ | ⟨m, -, heard, -⟩ := hear_cases indexed event
  · rw [ignored]
    exact .of_tends (.refl s) [] (List.append_nil _).symm nofun
  · rw [heard] at tends ⊢
    refine .of_tends tends _ rfl fun effect there => ?_
    obtain ⟨told, -, rfl⟩ := List.mem_map.1 there
    trivial

theorem flush_proceeds (s : MappingService) (now : Nat) (force : Bool) :
    Proceeds (.flush now force) s (s.flush now force) := by
  refine .of_tends (s.flush_tends now force) _ (s.outbox_flush now force) fun effect there => ?_
  obtain ⟨event, -, rfl⟩ := List.mem_map.1 there
  trivial

/-- Every operation numbers its calls onwards, leaves those of before to their waiters or ends them,
and has a reason for whatever it sends or answers. -/
theorem step_proceeds (indexed : s.Indexed) (op : MappingOp) : Proceeds op s (s.step op) := by
  cases op with
  | submit call ticket => exact s.submit_proceeds call ticket
  | handle call => exact s.handleCall_proceeds call
  | complete n reply => exact s.callCompleted_proceeds n reply
  | disconnect peer => exact s.peerDisconnected_proceeds peer
  | hear event => exact hear_proceeds indexed event
  | flush now force => exact s.flush_proceeds now force
  | govern live => exact (Mails.updateMinistry _ s live).proceeds
  | resume => exact (Mails.resumeHandOffs _ s).proceeds

end MappingService

end Cohort

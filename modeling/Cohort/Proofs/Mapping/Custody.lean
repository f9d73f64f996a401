import Cohort.Proofs.Mapping.Keeping
import Cohort.Proofs.Mapping.Mail

/-!
# Entries that change hands

Nodes that call on each other. A call that was sent may arrive late, more than once or never, and so
may the answer to it; a call may fail at any time where it was sent, whether it has arrived or not;
and every node goes by the ministers that it knows. A key that a caller was told to be stored is
never lost, though: unless somebody deletes it, it is kept at some node, or parked with a hand-off
that no master has taken.

What has to be ruled out is that the last copy of a key is dropped because a hand-off succeeded that
brought it nowhere. So of all copies of a key one counts that is kept at a node, or parked with a
hand-off to which nobody has given a good answer: `MappingNet.Kept`.

## Main definitions

* `MappingNet`, `MappingNet.step`, `MappingNet.after`: nodes and what they have sent.
* `MappingNet.Kept`: a key is kept at a node, or parked and not taken.
* `MappingNet.Custody`: whoever will be told of success waits for a call that brings the key.

## Main statements

* `MappingNet.Custody.act`, `MappingNet.Custody.deliver`: what a step keeps.
* `MappingNet.stored_keys_stay`: a stored key is never lost.
-/

namespace Cohort

/-! ## Nodes that call on each other -/

/-- A call on its way from a node to another. -/
structure SentCall where
  source : NodeName
  requestId : Nat
  peer : NodeName
  call : MappingCall

/-- An answer on its way back to the node that called. -/
structure SentReply where
  target : NodeName
  requestId : Nat
  reply : MappingReply

/-- Services of several nodes, what they have sent each other, and what callers were told. -/
structure MappingNet where
  nodes : NodeName → Option MappingService
  calls : List SentCall
  replies : List SentReply
  answers : List (NodeName × Ticket × MappingReply)

/-- What can happen between nodes that call on each other. -/
inductive NetStep where
  /-- A caller calls on a mapping at a node. -/
  | submit (node : NodeName) (call : MappingCall) (ticket : Ticket)
  /-- The nodes that a node takes to be alive have changed. -/
  | govern (node : NodeName) (live : NameSet)
  /-- It is time for a node to hand copies to their masters again. -/
  | resume (node : NodeName)
  /-- A node loses a peer. -/
  | disconnect (node peer : NodeName)
  /-- A call fails where it was sent. -/
  | fail (node : NodeName) (requestId : Nat) (failure : Failure)
  /-- A call arrives, the one with the given place among those that were sent. -/
  | deliver (place : Nat)
  /-- An answer comes back, the one with the given place among those that were given. -/
  | answer (place : Nat)

/-- The call that an effect sends, if it sends one. -/
def MappingEffect.call? (source : NodeName) : MappingEffect → Option SentCall
  | .call peer requestId request => some ⟨source, requestId, peer, request⟩
  | _ => none

/-- What an effect tells a caller, if it does. -/
def MappingEffect.answer? (node : NodeName) :
    MappingEffect → Option (NodeName × Ticket × MappingReply)
  | .answer ticket reply => some (node, ticket, reply)
  | _ => none

namespace MappingNet

open MappingService (stepAt emittedAt)

variable {net : MappingNet} {s : MappingService} {i : UInt16} {key : Bytes} {x y writer : NodeName}
  {ticket : Ticket} {op : MappingOp} {n : Nat} {P Q : Prop}

/-- Something happens to a node. -/
def act (net : MappingNet) (node : NodeName) (op : MappingOp) : MappingNet where
  nodes := stepAt net.nodes node op
  calls := net.calls ++ (emittedAt net.nodes node op).filterMap (MappingEffect.call? node)
  replies := net.replies
  answers := net.answers ++ (emittedAt net.nodes node op).filterMap (MappingEffect.answer? node)

/-- A node has given an answer. -/
def replied (net : MappingNet) (sent : SentReply) : MappingNet :=
  { net with replies := net.replies ++ [sent] }

/-- A call arrives at a node, which gives an answer. -/
def deliver (net : MappingNet) (sent : SentCall) : MappingNet :=
  match net.nodes sent.peer with
  | some s => (net.act sent.peer (.handle sent.call)).replied
      ⟨sent.source, sent.requestId, (s.handleCall sent.call).1⟩
  | none => net

/-- The nodes after something happened. -/
def step (net : MappingNet) : NetStep → MappingNet
  | .submit node call ticket => net.act node (.submit call ticket)
  | .govern node live => net.act node (.govern live)
  | .resume node => net.act node .resume
  | .disconnect node peer => net.act node (.disconnect peer)
  | .fail node requestId failure => net.act node (.complete requestId (.error failure))
  | .deliver place =>
    match net.calls[place]? with
    | some sent => net.deliver sent
    | none => net
  | .answer place =>
    match net.replies[place]? with
    | some sent => net.act sent.target (.complete sent.requestId sent.reply)
    | none => net

/-- The nodes after a run. -/
def after (net : MappingNet) (steps : List NetStep) : MappingNet := steps.foldl step net

theorem after_append (net : MappingNet) (steps steps' : List NetStep) :
    net.after (steps ++ steps') = (net.after steps).after steps' :=
  List.foldl_append

/-- Nothing has happened to the nodes but their configuration. -/
structure Starts (net : MappingNet) : Prop where
  configured : ∀ x s, net.nodes x = some s → s.Configured
  calls : net.calls = []
  replies : net.replies = []
  answers : net.answers = []

/-- A call of a node was answered well, whether the node knows it or not. -/
def Taken (net : MappingNet) (node : NodeName) (requestId : Nat) : Prop :=
  ∃ value, ⟨node, requestId, .ok value⟩ ∈ net.replies

/-- A key of a mapping is kept at some node. -/
def Stocked (net : MappingNet) (i : UInt16) (key : Bytes) : Prop :=
  ∃ x s, net.nodes x = some s ∧ key ∈ s.stock i

/-- A key of a mapping is kept at some node, or parked there with a hand-off that nobody has taken
yet. -/
def Kept (net : MappingNet) (i : UInt16) (key : Bytes) : Prop :=
  ∃ x s, net.nodes x = some s ∧ s.Keeps i key (net.Taken x)

/-! ## Who is told of success -/

/-- The success of a call tells of a key: it is told to the caller that stores the key, or the call
hands the key off. -/
def Concerns (i : UInt16) (key : Bytes) (writer : NodeName) (ticket : Ticket) (node : NodeName) :
    CallWaiter → Prop
  | .reply other => node = writer ∧ other = ticket
  | .handOff index entries => index = i ∧ key ∈ entries

/-- A call of a node was numbered before, and if its success will tell of a key, something holds. -/
def Warrants (net : MappingNet) (i : UInt16) (key : Bytes) (writer : NodeName) (ticket : Ticket)
    (node : NodeName) (n : Nat) (P : Prop) : Prop :=
  ∀ s, net.nodes node = some s → n ≤ s.lastRequest ∧
    ∀ pending, s.pending[n]? = some pending → Concerns i key writer ticket node pending.waiter → P

/-- Whoever will be told of success waits for a call that brings the key. Whoever was told, or has a
good answer on its way, knows that the key is kept. -/
structure Custody (net : MappingNet) (i : UInt16) (key : Bytes) (writer : NodeName)
    (ticket : Ticket) : Prop where
  sound : ∀ x s, net.nodes x = some s → s.Sound
  spared : ∀ sent ∈ net.calls, sent.call.Spares i key
  calls : ∀ sent ∈ net.calls, net.Warrants i key writer ticket sent.source sent.requestId
    (sent.call.Brings i key)
  replies : ∀ sent ∈ net.replies, net.Warrants i key writer ticket sent.target sent.requestId
    (∀ value, sent.reply = .ok value → net.Kept i key)
  answers : ∀ value, (writer, ticket, .ok value) ∈ net.answers → net.Kept i key

/-- What may happen to a node: callers do not delete the key, the one that is to store it asks for
nothing else, and calls end well only if they were answered so. -/
def Permits (net : MappingNet) (i : UInt16) (key : Bytes) (writer : NodeName) (ticket : Ticket)
    (node : NodeName) : MappingOp → Prop
  | .submit call other => call.Spares i key ∧ (node = writer → other = ticket → call.Brings i key)
  | .handle call => call.Spares i key
  | .complete n (.ok value) => ⟨node, n, .ok value⟩ ∈ net.replies
  | .hear _ | .flush .. => False
  | _ => True

theorem nodes_act_self (there : net.nodes x = some s) (op : MappingOp) :
    (net.act x op).nodes x = some (s.step op) :=
  MappingService.stepAt_self there op

theorem nodes_act_of_ne (ne : y ≠ x) (op : MappingOp) : (net.act x op).nodes y = net.nodes y :=
  MappingService.stepAt_of_ne ne op

theorem Warrants.mono (warrants : net.Warrants i key writer ticket x n P) (implies : P → Q) :
    net.Warrants i key writer ticket x n Q := by
  intro s there
  obtain ⟨given, holds⟩ := warrants s there
  exact ⟨given, fun pending found concerns => implies (holds pending found concerns)⟩

/-- Calls keep their waiters, so what they warrant they warrant further on. -/
theorem Warrants.act (sound : ∀ x s, net.nodes x = some s → s.Sound)
    (warrants : net.Warrants i key writer ticket y n P) (x : NodeName) (op : MappingOp) :
    (net.act x op).Warrants i key writer ticket y n P := by
  intro t found
  obtain ⟨-, before⟩ | ⟨s, there, rfl, rfl⟩ := MappingService.of_stepAt found
  · exact warrants t before
  · obtain ⟨given, holds⟩ := warrants s there
    have proceeds := MappingService.step_proceeds (sound _ s there).toIndexed op
    refine ⟨Nat.le_trans given proceeds.lastRequest, fun pending found concerns => ?_⟩
    exact holds pending (proceeds.older n pending given found) concerns

/-- What may happen to a node deletes no key. -/
theorem Permits.spared (permits : net.Permits i key writer ticket x op) :
    (key, none) ∉ s.changesOn i op := by
  have made : ∀ call : MappingCall, call.Spares i key → ∀ (p : Prop) [Decidable p],
      (key, none) ∉ if call.index = i ∧ p then s.changesBy call else [] := by
    intro call spares p _
    split
    next about => exact MappingService.spared_changesBy spares about.1
    next => exact List.not_mem_nil
  cases op with
  | submit call other =>
    simpa [MappingService.changesOn, MappingService.madeOn, MappingService.heardOn] using
      made call permits.1 _
  | handle call =>
    simpa [MappingService.changesOn, MappingService.madeOn, MappingService.heardOn] using
      made call permits _
  | hear event => exact permits.elim
  | flush now force => exact permits.elim
  | _ => exact List.not_mem_nil

/-- A kept key is kept further on. -/
theorem Kept.act (custody : net.Custody i key writer ticket) (kept : net.Kept i key)
    (permits : net.Permits i key writer ticket x op) : (net.act x op).Kept i key := by
  obtain ⟨y, s, there, keeps⟩ := kept
  by_cases same : y = x
  · subst same
    refine ⟨y, s.step op, nodes_act_self there op, ?_⟩
    -- new calls have numbers to which no answer was given, and no call ends well without one
    refine keeps.step (custody.sound y s there) permits.spared ?_ ?_
    · rintro n ⟨value, given⟩
      exact (custody.replies _ given s there).1
    · rintro n value rfl
      exact ⟨value, permits⟩
  · exact ⟨y, s, (nodes_act_of_ne same op).trans there, keeps⟩

theorem mem_calls_act {sent : SentCall} (among : sent ∈ (net.act x op).calls) :
    sent ∈ net.calls ∨ ∃ s, net.nodes x = some s ∧ sent.source = x ∧
      .call sent.peer sent.requestId sent.call ∈ s.emitted op := by
  refine (List.mem_append.1 among).imp_right fun new => ?_
  obtain ⟨effect, asked, sends⟩ := List.mem_filterMap.1 new
  obtain ⟨s, there, emitted⟩ := MappingService.exists_of_mem_emittedAt asked
  cases effect with
  | call peer n call =>
    obtain rfl := Option.some.inj sends
    exact ⟨s, there, rfl, emitted⟩
  | _ => cases sends

theorem mem_answers_act {reply : MappingReply}
    (among : (y, ticket, reply) ∈ (net.act x op).answers) :
    (y, ticket, reply) ∈ net.answers ∨ ∃ s, net.nodes x = some s ∧ y = x ∧
      .answer ticket reply ∈ s.emitted op := by
  refine (List.mem_append.1 among).imp_right fun new => ?_
  obtain ⟨effect, asked, tells⟩ := List.mem_filterMap.1 new
  obtain ⟨s, there, emitted⟩ := MappingService.exists_of_mem_emittedAt asked
  cases effect with
  | answer other reply' =>
    cases Option.some.inj tells
    exact ⟨s, there, rfl, emitted⟩
  | _ => cases tells

/-- Whatever a node asks for it has a reason for. -/
theorem accounted_of_emitted (sound : s.Sound) {effect : MappingEffect}
    (emitted : effect ∈ s.emitted op) : MappingService.Accounted op s (s.step op) effect := by
  obtain ⟨effects, grown, accounted⟩ := (MappingService.step_proceeds sound.toIndexed op).outbox
  rw [MappingService.emitted_eq grown] at emitted
  exact accounted effect emitted

/-- A call of a node that was just sent does as it should: it does not delete the key, and if its
success will tell of the key, it brings it. -/
theorem Custody.posted (permits : net.Permits i key writer ticket x op) {t : MappingService}
    {peer : NodeName} {call : MappingCall} (posted : MappingService.Posted op s t peer n call) :
    call.Spares i key ∧ ∀ pending, t.pending[n]? = some pending →
      Concerns i key writer ticket x pending.waiter → call.Brings i key := by
  obtain ⟨waiter, found, suits⟩ := posted.awaited
  cases waiter with
  | reply other =>
    obtain rfl : op = .submit call other := suits
    refine ⟨permits.1, fun pending found' concerns => ?_⟩
    obtain rfl := Option.some.inj (found.symm.trans found')
    exact permits.2 concerns.1 concerns.2
  | handOff index entries =>
    obtain rfl : call = .handOff index entries.keys entries.values := suits
    refine ⟨MappingCall.spares_handOff i index key _ _, fun pending found' concerns => ?_⟩
    obtain rfl := Option.some.inj (found.symm.trans found')
    obtain ⟨rfl, inside⟩ := concerns
    exact MappingCall.brings_handOff (Std.ExtTreeMap.mem_keys.2 inside)

/-- A key is kept once an operation has told its writer of success. -/
theorem Custody.told (custody : net.Custody i key writer ticket)
    (permits : net.Permits i key writer ticket writer op) (there : net.nodes writer = some s)
    {value : Option Bytes} (emitted : .answer ticket (.ok value) ∈ s.emitted op) :
    (net.act writer op).Kept i key := by
  have sound := custody.sound writer s there
  obtain ⟨call, rfl, serves, ran⟩ | ⟨n, peer, rfl, found⟩ := accounted_of_emitted sound emitted
  · -- the call has run here
    refine ⟨writer, s.step (.submit call ticket), nodes_act_self there _, .inl ?_⟩
    exact MappingService.mem_stock_of_submit sound (permits.2 rfl rfl) serves ran ticket
  · -- the answer has come from elsewhere, and was on its way before
    have kept := ((custody.replies _ permits) s there).2 _ found ⟨rfl, rfl⟩ value rfl
    exact kept.act custody permits

/-- What may happen to a node leaves the key in custody. -/
theorem Custody.act (custody : net.Custody i key writer ticket)
    (permits : net.Permits i key writer ticket x op) :
    (net.act x op).Custody i key writer ticket where
  sound y t found := by
    obtain ⟨-, before⟩ | ⟨s, there, rfl, rfl⟩ := MappingService.of_stepAt found
    · exact custody.sound y t before
    · exact (custody.sound _ s there).step op
  spared sent among := by
    obtain before | ⟨s, there, rfl, emitted⟩ := mem_calls_act among
    · exact custody.spared sent before
    · have posted := accounted_of_emitted (custody.sound _ s there) emitted
      exact (Custody.posted permits posted).1
  calls sent among := by
    obtain before | ⟨s, there, rfl, emitted⟩ := mem_calls_act among
    · exact (custody.calls sent before).act custody.sound x op
    · have posted := accounted_of_emitted (custody.sound _ s there) emitted
      intro t found
      rw [nodes_act_self there] at found
      obtain rfl := Option.some.inj found
      exact ⟨posted.given, (Custody.posted permits posted).2⟩
  replies sent among := by
    refine ((custody.replies sent among).act custody.sound x op).mono fun kept value good => ?_
    exact (kept value good).act custody permits
  answers value among := by
    obtain before | ⟨s, there, rfl, emitted⟩ := mem_answers_act among
    · exact (custody.answers value before).act custody permits
    · exact custody.told permits there emitted

/-- A parked copy of the key concerns whoever waits for the call. -/
theorem concerns_of_parked {entries : Entries} (parks : s.parkedAt i n = some entries)
    (inside : key ∈ entries) : ∃ pending, s.pending[n]? = some pending ∧
      Concerns i key writer ticket y pending.waiter := by
  obtain ⟨⟨peer, waiter⟩, waits, parked⟩ := Option.bind_eq_some_iff.1 parks
  refine ⟨⟨peer, waiter⟩, waits, ?_⟩
  cases waiter with
  | reply other => cases parked
  | handOff index held =>
    simp only [PendingCall.parks] at parked
    split at parked
    next same =>
      obtain rfl := Option.some.inj parked
      exact ⟨same, inside⟩
    next => cases parked

/-- An answer leaves the key in custody if the key is kept somewhere once a call ends well that
concerns it. -/
theorem Custody.replied (custody : net.Custody i key writer ticket) {sent : SentReply}
    (warrants : net.Warrants i key writer ticket sent.target sent.requestId
      (∀ value, sent.reply = .ok value → net.Stocked i key)) :
    (net.replied sent).Custody i key writer ticket := by
  have stocked : net.Stocked i key → (net.replied sent).Kept i key :=
    fun ⟨x, s, there, here⟩ => ⟨x, s, there, .inl here⟩
  -- a parked copy may count no longer, but then the answer is to its own hand-off
  have kept : net.Kept i key → (net.replied sent).Kept i key := by
    rintro ⟨y, t, there, here | ⟨n, entries, parks, inside, untaken⟩⟩
    · exact stocked ⟨y, t, there, here⟩
    · by_cases taken : (net.replied sent).Taken y n
      · obtain ⟨value, given⟩ := taken
        obtain before | now := List.mem_append.1 given
        · exact absurd ⟨value, before⟩ untaken
        · obtain rfl := List.mem_singleton.1 now
          obtain ⟨pending, waits, concerns⟩ := concerns_of_parked parks inside
          exact stocked ((warrants t there).2 pending waits concerns value rfl)
      · exact ⟨y, t, there, .inr ⟨n, entries, parks, inside, taken⟩⟩
  refine
    { sound := custody.sound
      spared := custody.spared
      calls := custody.calls
      replies := fun other given => ?_
      answers := fun value told => kept (custody.answers value told) }
  obtain before | now := List.mem_append.1 given
  · exact (custody.replies other before).mono fun holds value good => kept (holds value good)
  · obtain rfl := List.mem_singleton.1 now
    exact warrants.mono fun holds value good => stocked (holds value good)

/-- A call that arrives leaves the key in custody: the good answer to a hand-off is given by a node
that has the entries. -/
theorem Custody.deliver (custody : net.Custody i key writer ticket) {sent : SentCall}
    (among : sent ∈ net.calls) : (net.deliver sent).Custody i key writer ticket := by
  unfold MappingNet.deliver
  split
  next s there =>
    have acted : (net.act sent.peer (.handle sent.call)).Custody i key writer ticket :=
      custody.act (custody.spared sent among)
    have warrants := (custody.calls sent among).act custody.sound sent.peer (.handle sent.call)
    refine acted.replied (warrants.mono fun brings value good => ?_)
    refine ⟨sent.peer, s.step (.handle sent.call), nodes_act_self there _, ?_⟩
    exact MappingService.mem_stock_of_handle (custody.sound _ s there) brings good
  next => exact custody

/-- Callers do not delete the key, and the one that is to store it asks for nothing else. -/
def Careful (i : UInt16) (key : Bytes) (writer : NodeName) (ticket : Ticket) : NetStep → Prop
  | .submit node call other =>
    call.Spares i key ∧ (node = writer → other = ticket → call.Brings i key)
  | _ => True

theorem Custody.step (custody : net.Custody i key writer ticket) {step : NetStep}
    (careful : Careful i key writer ticket step) : (net.step step).Custody i key writer ticket := by
  cases step with
  | submit node call other => exact custody.act careful
  | govern node live => exact custody.act trivial
  | resume node => exact custody.act trivial
  | disconnect node peer => exact custody.act trivial
  | fail node requestId failure => exact custody.act trivial
  | deliver place =>
    simp only [MappingNet.step]
    split
    next sent found => exact custody.deliver (List.mem_of_getElem? found)
    next => exact custody
  | answer place =>
    simp only [MappingNet.step]
    split
    next sent found =>
      obtain ⟨target, requestId, reply⟩ := sent
      cases reply with
      | ok value => exact custody.act (List.mem_of_getElem? found)
      | error failure => exact custody.act trivial
    next => exact custody

theorem Custody.after {steps : List NetStep} (custody : net.Custody i key writer ticket)
    (careful : ∀ step ∈ steps, Careful i key writer ticket step) :
    (net.after steps).Custody i key writer ticket := by
  induction steps generalizing net with
  | nil => exact custody
  | cons step steps ih =>
    refine ih (custody.step (careful step List.mem_cons_self)) fun later there => ?_
    exact careful later (List.mem_cons_of_mem _ there)

theorem Starts.custody (starts : net.Starts) (i : UInt16) (key : Bytes) (writer : NodeName)
    (ticket : Ticket) : net.Custody i key writer ticket where
  sound x s there := (starts.configured x s there).blank.sound
  spared sent among := by
    rw [starts.calls] at among
    cases among
  calls sent among := by
    rw [starts.calls] at among
    cases among
  replies sent among := by
    rw [starts.replies] at among
    cases among
  answers value among := by
    rw [starts.answers] at among
    cases among

/-! ## Stored keys -/

theorem answers_step (net : MappingNet) (step : NetStep) :
    net.answers ⊆ (net.step step).answers := by
  have acted : ∀ (x : NodeName) (op : MappingOp), net.answers ⊆ (net.act x op).answers :=
    fun x op => List.subset_append_left _ _
  cases step with
  | deliver place =>
    simp only [MappingNet.step]
    split
    · unfold MappingNet.deliver
      split
      · exact acted _ _
      · exact List.Subset.refl _
    · exact List.Subset.refl _
  | answer place =>
    simp only [MappingNet.step]
    split
    · exact acted _ _
    · exact List.Subset.refl _
  | _ => exact acted _ _

/-- What a caller was told stays told. -/
theorem answers_after (net : MappingNet) (steps : List NetStep) :
    net.answers ⊆ (net.after steps).answers := by
  induction steps generalizing net with
  | nil => exact List.Subset.refl _
  | cons step steps ih => exact List.Subset.trans (answers_step net step) (ih _)

/-- Of a key that a caller was told to be stored, and that no caller deletes, some node keeps a copy
at any later time, or has it parked with a hand-off that nobody has taken. -/
theorem stored_keys_stay {steps later : List NetStep} (starts : net.Starts)
    (spared : ∀ node call other, .submit node call other ∈ steps ++ later → call.Spares i key)
    (stores : ∀ call, .submit writer call ticket ∈ steps ++ later →
      ∃ value, call = .put i key value)
    {old : Option Bytes} (told : (writer, ticket, .ok old) ∈ (net.after steps).answers) :
    (net.after (steps ++ later)).Kept i key := by
  have careful : ∀ step ∈ steps ++ later, Careful i key writer ticket step := by
    rintro step there
    cases step with
    | submit node call other =>
      refine ⟨spared node call other there, ?_⟩
      rintro rfl rfl
      obtain ⟨value, rfl⟩ := stores call there
      exact MappingCall.brings_put i key value
    | _ => trivial
  have custody := (starts.custody i key writer ticket).after careful
  rw [after_append] at custody ⊢
  exact custody.answers old (answers_after _ later told)

/-- A node that keeps a mapping in one place. -/
def keeper (node : NodeName) : MappingService :=
  ((MappingService.fresh node 1).configure "m" .single).2.close

/-- Two nodes with that mapping. -/
def keepers : MappingNet where
  nodes node := if node = "aa" ∨ node = "alpha" then some (keeper node) else none
  calls := []
  replies := []
  answers := []

theorem keepers_start : keepers.Starts where
  configured x s there := by
    simp only [keepers] at there
    split at there
    next =>
      obtain rfl := Option.some.inj there
      exact .close (.configure "m" .single (.fresh x 1))
    next => cases there
  calls := rfl
  replies := rfl
  answers := rfl

/-- A node stores a key. -/
def storingRun : List NetStep :=
  [.govern "alpha" (.ofList ["alpha"]), .submit "alpha" (.put 1 [107] [1]) 1]

/-- The key goes to another node. The first hand-off fails although it has arrived, and the second
one succeeds. -/
def handingRun : List NetStep :=
  [.govern "alpha" (.ofList ["aa", "alpha"]), .deliver 0, .fail "alpha" 1 .peerUnavailable,
   .submit "alpha" (.remove 1 [108]) 2, .resume "alpha", .deliver 1, .answer 1,
   .submit "aa" (.get 1 [107]) 1]

theorem stored_keys_stay_in_handingRun :
    ("alpha", 1, .ok none) ∈ (keepers.after storingRun).answers ∧
      (keepers.after (storingRun ++ handingRun)).Kept 1 [107] := by
  have told : ("alpha", 1, .ok none) ∈ (keepers.after storingRun).answers := by decide +kernel
  refine ⟨told, stored_keys_stay keepers_start ?_ ?_ told⟩
  · intro node call other there
    have asked : call = .put 1 [107] [1] ∨ call = .remove 1 [108] ∨ call = .get 1 [107] := by
      simp only [storingRun, handingRun, List.mem_append, List.mem_cons, NetStep.submit.injEq]
        at there
      grind
    obtain rfl | rfl | rfl := asked
    · exact MappingCall.spares_put 1 1 [107] [107] [1]
    · exact MappingCall.spares_remove (by decide) 1 1
    · exact MappingCall.spares_get 1 1 [107] [107]
  · intro call there
    have asked : call = .put 1 [107] [1] := by
      simpa [storingRun, handingRun] using there
    exact ⟨[1], asked⟩

end MappingNet

end Cohort

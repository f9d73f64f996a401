import Cohort.Proofs.Mapping.Custody
import Cohort.Proofs.Mapping.Lone
import Mathlib.Data.List.Nodup

/-!
# One map behind many nodes

A mapping that its master keeps for all nodes is to its callers one map, wherever they call. Calls
of callers at the master run at once; calls of callers elsewhere travel to the master, which runs
them as they arrive, and the answers travel back as messages. Calls and answers may overtake each
other. Still, every answer is the one that a single map gives that runs the calls one after the
other, in the order in which the master ran them; and a call that was answered before another was
made has its place before the other.

## Main definitions

* `ProxyNet`, `ProxyNet.step`, `ProxyNet.after`: nodes that forward calls to a master.
* `ProxyNet.Linear`: answers given and on their way are those of the map.
* `ProxyNet.OneMap`: what the nodes are to their callers.

## Main statements

* `ProxyNet.Linear.submit`, `ProxyNet.Linear.deliver`, `ProxyNet.Linear.answer`: what a step keeps.
* `ProxyNet.proxied_mapping_is_one_map`.
-/

namespace Cohort

/-! ## Nodes that forward calls -/

/-- A call on its way from the node where it was made. -/
structure ForwardedCall where
  asked : Asked
  requestId : Nat
  peer : NodeName

/-- Services of several nodes; the calls on their way between them, and the messages that answer
calls, each with what was asked; what callers were told; and the calls that some node ran, in that
order. -/
structure ProxyNet where
  nodes : NodeName → Option MappingService
  calls : List ForwardedCall
  replies : List (Asked × Message)
  answers : List (NodeName × Ticket × MappingReply)
  ran : List Asked

/-- What can happen between nodes that forward calls. -/
inductive ProxyStep where
  /-- A caller calls on a mapping. -/
  | submit (asked : Asked)
  /-- A call arrives, the one with the given place among those on their way. -/
  | deliver (place : Nat)
  /-- An answer comes back, the one with the given place among those on their way. -/
  | answer (place : Nat)

/-- What was asked in a step. -/
def ProxyStep.asked? : ProxyStep → Option Asked
  | submit asked => some asked
  | _ => none

/-- The call that an effect sends for a caller, if it sends one. -/
def MappingEffect.forward? (node : NodeName) (ticket : Ticket) :
    MappingEffect → Option ForwardedCall
  | .call peer requestId request => some ⟨⟨node, ticket, request⟩, requestId, peer⟩
  | _ => none

namespace ProxyNet

open MappingService (stepAt emittedAt)

variable {net : ProxyNet} {s : MappingService} {i : UInt16} {master : NodeName} {lone : LoneMap}
  {asked : Asked} {past : List Asked}

/-- Something happens to a node for the sake of a caller. -/
def act (net : ProxyNet) (node : NodeName) (ticket : Ticket) (op : MappingOp) : ProxyNet :=
  { net with
    nodes := stepAt net.nodes node op
    calls := net.calls ++
      (emittedAt net.nodes node op).filterMap (MappingEffect.forward? node ticket)
    answers := net.answers ++ (emittedAt net.nodes node op).filterMap (MappingEffect.answer? node) }

/-- Note that a call ran, if it did. -/
def note (net : ProxyNet) (asked : Asked) (runs : Bool) : ProxyNet :=
  { net with ran := if runs then net.ran ++ [asked] else net.ran }

/-- A caller calls on a mapping at its node. -/
def submit (net : ProxyNet) (asked : Asked) : ProxyNet :=
  match net.nodes asked.node with
  | some s => (net.act asked.node asked.ticket (.submit asked.call asked.ticket)).note asked
      (s.servesOwn asked.call.index)
  | none => net

/-- A call arrives, and the answer to it sets out as a message. -/
def deliver (net : ProxyNet) (place : Nat) : ProxyNet :=
  match net.calls[place]? with
  | some sent =>
    match net.nodes sent.peer with
    | some s =>
      ({ net with
        calls := net.calls.eraseIdx place
        replies := net.replies ++ [(sent.asked,
          Message.ofMappingResult sent.requestId (s.handleCall sent.asked.call).1)] }.act
        sent.peer sent.asked.ticket (.handle sent.asked.call)).note sent.asked
          (s.servesOthers sent.asked.call)
    | none => net
  | none => net

/-- An answer comes back to the node that asked, which reads the message. -/
def answer (net : ProxyNet) (place : Nat) : ProxyNet :=
  match net.replies[place]? with
  | some (asked, .mappingResult requestId code value) =>
    { net with replies := net.replies.eraseIdx place }.act asked.node asked.ticket
      (.complete requestId (Message.outcome code value))
  | _ => net

/-- The nodes after something happened. -/
def step (net : ProxyNet) : ProxyStep → ProxyNet
  | .submit asked => net.submit asked
  | .deliver place => net.deliver place
  | .answer place => net.answer place

/-- The nodes after a run. -/
def after (net : ProxyNet) (steps : List ProxyStep) : ProxyNet := steps.foldl step net

/-- The nodes are configured alike, as far as the mapping goes: it is kept in one place, and it is
the same map everywhere. They all went by the same number of ministers when they heard that the same
nodes are alive, themselves among them, and nothing has happened since. -/
structure Starts (net : ProxyNet) (i : UInt16) (id : String) (lone : LoneMap) (live : NameSet)
    (ministerCount : Nat) : Prop where
  nodes : ∀ x s, net.nodes x = some s → x ∈ live ∧ ∃ before : MappingService,
    before.Configured ∧ before.node = x ∧ before.ministerCount = ministerCount ∧
      (∃ m, before.mappings[i]? = some m ∧ m.id = id ∧ m.replication = .single ∧ m.lone = lone) ∧
      s = before.updateMinistry live
  calls : net.calls = []
  replies : net.replies = []
  answers : net.answers = []
  ran : net.ran = []

/-- A caller waits for the answer to a call that was sent from its node under a number. -/
def Awaits (net : ProxyNet) (asked : Asked) (requestId : Nat) : Prop :=
  ∃ s peer, net.nodes asked.node = some s ∧ s.pending[requestId]? = some ⟨peer, .reply asked.ticket⟩

/-- The nodes stand in for one map, which has run the calls that ran. Answers given and on their way
are those of the map. Of everything that was asked, each call is on its way or has run, and each
caller waits for its call, waits for the answer, or was told it. -/
structure Linear (net : ProxyNet) (i : UInt16) (master : NodeName) (lone : LoneMap)
    (past : List Asked) : Prop where
  nodes : ∀ x s, net.nodes x = some s → s.Proxies x i master (lone.after net.ran)
  calls : ∀ sent ∈ net.calls, sent.peer = master ∧ sent.asked.call.index = i ∧
    sent.asked.call.IsCallers ∧ net.Awaits sent.asked sent.requestId
  replies : ∀ sent ∈ net.replies, ∃ n reply, sent.2 = .ofMappingResult n reply ∧
    net.Awaits sent.1 n ∧ (sent.1.node, sent.1.ticket, reply) ∈ lone.transcript net.ran
  answers : ∀ given ∈ net.answers, given ∈ lone.transcript net.ran
  order : (net.calls.map ForwardedCall.asked ++ net.ran).Perm past
  once : (net.calls.map (fun sent => sent.asked.caller) ++
    net.replies.map (fun sent => sent.1.caller) ++
    net.answers.map fun given => (given.1, given.2.1)).Perm (past.map Asked.caller)

theorem emittedAt_eq {x : NodeName} {effects : List MappingEffect} (there : net.nodes x = some s)
    (op : MappingOp) (grown : (s.step op).outbox = s.outbox ++ effects) :
    emittedAt net.nodes x op = effects := by
  rw [MappingService.emittedAt_of_there there, MappingService.emitted_eq grown]

/-- News are sent to nobody in particular. -/
theorem filterMap_news {effects : List MappingEffect}
    (news : ∀ effect ∈ effects, MappingService.isNews effect = true) (x : NodeName)
    (ticket : Ticket) : effects.filterMap (MappingEffect.forward? x ticket) = [] ∧
      effects.filterMap (MappingEffect.answer? x) = [] := by
  constructor
  all_goals
    refine List.filterMap_eq_nil_iff.2 fun effect there => ?_
    cases effect with
    | broadcast event => rfl
    | told one => rfl
    | call peer n call => exact absurd (news _ there) Bool.false_ne_true
    | answer other reply => exact absurd (news _ there) Bool.false_ne_true

/-- Somebody waits further on if nothing happens to what its node waits for under that number. -/
theorem Awaits.act {x : NodeName} {n : Nat} (awaits : net.Awaits asked n)
    (there : net.nodes x = some s) (op : MappingOp)
    (kept : asked.node = x → ∀ pending, s.pending[n]? = some pending →
      (s.step op).pending[n]? = some pending) :
    ∃ t peer, stepAt net.nodes x op asked.node = some t ∧
      t.pending[n]? = some ⟨peer, .reply asked.ticket⟩ := by
  obtain ⟨t, peer, found, waits⟩ := awaits
  by_cases same : asked.node = x
  · obtain rfl := Option.some.inj ((same ▸ found).symm.trans there)
    refine ⟨t.step op, peer, ?_, kept same _ waits⟩
    rw [same]
    exact MappingService.stepAt_self there op
  · exact ⟨t, peer, (MappingService.stepAt_of_ne same op).trans found, waits⟩

/-- What becomes of the nodes when something happens to one of them that leaves the map as it is. -/
theorem Linear.nodes_of_same {x : NodeName} {op : MappingOp}
    (linear : net.Linear i master lone past) (there : net.nodes x = some s)
    (kept : (s.step op).Proxies x i master (lone.after net.ran)) :
    ∀ y t, stepAt net.nodes x op y = some t → t.Proxies y i master (lone.after net.ran) := by
  intro y t found
  obtain ⟨-, before⟩ | ⟨s', there', rfl, rfl⟩ := MappingService.of_stepAt found
  · exact linear.nodes y t before
  · obtain rfl := Option.some.inj (there.symm.trans there')
    exact kept

/-- What becomes of the nodes when the master runs a call. -/
theorem Linear.nodes_of_run {op : MappingOp} (linear : net.Linear i master lone past)
    (there : net.nodes master = some s)
    (ran : (s.step op).Proxies master i master ((lone.after net.ran).ask asked.call).2) :
    ∀ y t, stepAt net.nodes master op y = some t →
      t.Proxies y i master (lone.after (net.ran ++ [asked])) := by
  intro y t found
  rw [LoneMap.after_append_one]
  obtain ⟨other, before⟩ | ⟨s', there', rfl, rfl⟩ := MappingService.of_stepAt found
  · exact (linear.nodes y t before).elsewhere other asked.call
  · obtain rfl := Option.some.inj (there.symm.trans there')
    exact ran

/-- Everything told before is in the transcript further on. -/
theorem mem_transcript_append_one {given : NodeName × Ticket × MappingReply}
    (told : given ∈ lone.transcript net.ran) (asked : Asked) :
    given ∈ lone.transcript (net.ran ++ [asked]) := by
  rw [LoneMap.transcript_append_one]
  exact List.mem_append_left _ told

/-- A call that is made at the master runs there and is answered at once. -/
theorem Linear.submit_at_master (linear : net.Linear i master lone past)
    (there : net.nodes master = some s) (here : asked.node = master) (about : asked.call.index = i)
    (callers : asked.call.IsCallers) :
    (net.submit asked).Linear i master lone (past ++ [asked]) := by
  have proxies := linear.nodes master s there
  obtain ⟨kept, pending, effects, grown, news⟩ :=
    proxies.submit_at_master about callers asked.ticket
  have serves : s.servesOwn asked.call.index = true := by
    rw [about]
    exact proxies.servesOwn_iff.2 rfl
  obtain ⟨silent, untold⟩ := filterMap_news news master asked.ticket
  have acted : net.submit asked = { net with
      nodes := stepAt net.nodes master (.submit asked.call asked.ticket)
      answers := net.answers ++
        [(master, asked.ticket, ((lone.after net.ran).ask asked.call).1)]
      ran := net.ran ++ [asked] } := by
    have emitted := emittedAt_eq there (.submit asked.call asked.ticket) grown
    simp [submit, here, there, act, emitted, silent, untold, serves, note, MappingEffect.forward?,
      MappingEffect.answer?]
  have awaits : ∀ {a n}, net.Awaits a n → (net.submit asked).Awaits a n := by
    intro a n waits
    rw [acted]
    refine waits.act there (.submit asked.call asked.ticket) fun _ waiting found => ?_
    show (s.submit asked.call asked.ticket).pending[n]? = _
    rw [pending, found]
  rw [acted] at awaits ⊢
  refine
    { nodes := linear.nodes_of_run there kept
      calls := fun sent among => ?_
      replies := fun sent among => ?_
      answers := fun given among => ?_
      order := ?_
      once := ?_ }
  · obtain ⟨peer, about, callers, waits⟩ := linear.calls sent among
    exact ⟨peer, about, callers, awaits waits⟩
  · obtain ⟨n, reply, message, waits, told⟩ := linear.replies sent among
    exact ⟨n, reply, message, awaits waits, mem_transcript_append_one told asked⟩
  · obtain before | now := List.mem_append.1 among
    · exact mem_transcript_append_one (linear.answers given before) asked
    · rw [LoneMap.transcript_append_one, ← here] at *
      exact List.mem_append_right _ now
  · rw [← List.append_assoc]
    exact linear.order.append_right _
  · rw [List.map_append, List.map_append, ← List.append_assoc]
    refine linear.once.append ?_
    rw [← here]
    exact .refl _

/-- A call that is made elsewhere sets out for the master. -/
theorem Linear.submit_elsewhere (linear : net.Linear i master lone past)
    (there : net.nodes asked.node = some s) (other : asked.node ≠ master)
    (about : asked.call.index = i) (callers : asked.call.IsCallers) :
    (net.submit asked).Linear i master lone (past ++ [asked]) := by
  have proxies := linear.nodes asked.node s there
  have sent : s.submit asked.call asked.ticket =
      s.sendCall master asked.call (.reply asked.ticket) :=
    proxies.submit_elsewhere other about asked.ticket
  have grown : (s.submit asked.call asked.ticket).outbox =
      s.outbox ++ [.call master (s.lastRequest + 1) asked.call] := by
    rw [sent]
    rfl
  have serves : s.servesOwn asked.call.index = false := by
    rw [about, Bool.eq_false_iff, ne_eq, proxies.servesOwn_iff]
    exact other
  have acted : net.submit asked = { net with
      nodes := stepAt net.nodes asked.node (.submit asked.call asked.ticket)
      calls := net.calls ++ [⟨asked, s.lastRequest + 1, master⟩] } := by
    have emitted := emittedAt_eq there (.submit asked.call asked.ticket) grown
    simp [submit, there, act, emitted, serves, note, MappingEffect.forward?,
      MappingEffect.answer?]
  have awaits : ∀ {a n}, net.Awaits a n → (net.submit asked).Awaits a n := by
    intro a n waits
    rw [acted]
    refine waits.act there (.submit asked.call asked.ticket) fun _ waiting found => ?_
    show (s.submit asked.call asked.ticket).pending[n]? = _
    have old := proxies.numbered n waiting found
    rw [sent, MappingService.pending_sendCall, if_neg (by omega), found]
  have waits : (net.submit asked).Awaits asked (s.lastRequest + 1) := by
    refine ⟨s.submit asked.call asked.ticket, master, ?_, ?_⟩
    · rw [acted]
      exact MappingService.stepAt_self there _
    · rw [sent, MappingService.pending_sendCall, if_pos rfl]
  rw [acted] at awaits waits ⊢
  refine
    { nodes := linear.nodes_of_same there ?_
      calls := fun sent among => ?_
      replies := fun sent among => ?_
      answers := linear.answers
      order := ?_
      once := ?_ }
  · show (s.submit asked.call asked.ticket).Proxies _ _ _ _
    rw [sent]
    exact proxies.sendCall master asked.call (.reply asked.ticket)
  · obtain before | now := List.mem_append.1 among
    · obtain ⟨peer, about, callers, waits⟩ := linear.calls sent before
      exact ⟨peer, about, callers, awaits waits⟩
    · obtain rfl := List.mem_singleton.1 now
      exact ⟨rfl, about, callers, waits⟩
  · obtain ⟨n, reply, message, waits, told⟩ := linear.replies sent among
    exact ⟨n, reply, message, awaits waits, told⟩
  · rw [List.map_append, List.append_assoc]
    refine .trans (List.perm_append_comm.append_left _) ?_
    rw [← List.append_assoc]
    exact linear.order.append_right _
  · rw [List.map_append, List.map_append, List.append_assoc, List.append_assoc]
    refine .trans (List.perm_append_comm.append_left _) ?_
    rw [← List.append_assoc, ← List.append_assoc]
    exact linear.once.append_right _

/-- One of several things is taken out. -/
theorem perm_eraseIdx {α : Type} {l : List α} {place : Nat} {a : α} (found : l[place]? = some a) :
    l.Perm (a :: l.eraseIdx place) := by
  obtain ⟨bound, rfl⟩ := List.getElem?_eq_some_iff.1 found
  exact (List.getElem_cons_eraseIdx_perm bound).symm

/-- A call that arrives at the master runs there, and the answer sets out. -/
theorem Linear.deliver (linear : net.Linear i master lone past) (place : Nat) :
    (net.deliver place).Linear i master lone past := by
  cases found : net.calls[place]? with
  | none =>
    rw [ProxyNet.deliver, found]
    exact linear
  | some sent =>
  cases there : net.nodes sent.peer with
  | none =>
    rw [ProxyNet.deliver, found]
    dsimp only
    rw [there]
    exact linear
  | some s =>
  obtain ⟨toMaster, about, callers, waits⟩ := linear.calls sent (List.mem_of_getElem? found)
  rw [toMaster] at there
  have proxies := linear.nodes master s there
  have handled : s.handleCall sent.asked.call = s.run sent.asked.call := proxies.handleCall_eq about
  have serves := proxies.servesOthers_of_master about
  obtain ⟨answered, kept, pending, effects, grown, news⟩ := proxies.run about callers
  obtain ⟨silent, untold⟩ := filterMap_news news master sent.asked.ticket
  rw [← handled] at answered kept pending grown
  let reply := ((lone.after net.ran).ask sent.asked.call).1
  have acted : net.deliver place = { net with
      nodes := stepAt net.nodes master (.handle sent.asked.call)
      calls := net.calls.eraseIdx place
      replies := net.replies ++ [(sent.asked, Message.ofMappingResult sent.requestId reply)]
      ran := net.ran ++ [sent.asked] } := by
    have emitted := emittedAt_eq there (.handle sent.asked.call) grown
    simp [ProxyNet.deliver, found, toMaster, there, act, emitted, silent, untold, serves, answered,
      note, reply]
  have awaits : ∀ {a n}, net.Awaits a n → (net.deliver place).Awaits a n := by
    intro a n waits
    rw [acted]
    refine waits.act there (.handle sent.asked.call) fun _ waiting found => ?_
    show (s.handleCall sent.asked.call).2.pending[n]? = _
    rw [pending, found]
  have moved := perm_eraseIdx found
  rw [acted] at awaits ⊢
  refine
    { nodes := linear.nodes_of_run there kept
      calls := fun other among => ?_
      replies := fun other among => ?_
      answers := fun given among => mem_transcript_append_one (linear.answers given among) _
      order := ?_
      once := ?_ }
  · obtain ⟨peer, about, callers, waits⟩ := linear.calls other (List.mem_of_mem_eraseIdx among)
    exact ⟨peer, about, callers, awaits waits⟩
  · obtain before | now := List.mem_append.1 among
    · obtain ⟨n, reply, message, waits, told⟩ := linear.replies other before
      exact ⟨n, reply, message, awaits waits, mem_transcript_append_one told _⟩
    · obtain rfl := List.mem_singleton.1 now
      refine ⟨sent.requestId, reply, rfl, awaits waits, ?_⟩
      rw [LoneMap.transcript_append_one]
      exact List.mem_append_right _ List.mem_cons_self
  · refine .trans ?_ linear.order
    rw [← List.append_assoc]
    refine .trans List.perm_append_comm ?_
    exact (moved.map ForwardedCall.asked).symm.append_right net.ran
  · refine .trans ?_ linear.once
    rw [List.map_append, ← List.append_assoc]
    refine List.Perm.append_right _ (.trans List.perm_append_comm ?_)
    exact (moved.map fun sent => sent.asked.caller).symm.append_right _

/-- The message that carries an answer reads as that answer. -/
theorem exists_ofMappingResult_eq (n : Nat) (reply : MappingReply) : ∃ code value,
    Message.ofMappingResult n reply = .mappingResult n code value ∧
      Message.outcome code value = reply := by
  cases reply with
  | ok value => exact ⟨0, value, rfl, Message.outcome_zero value⟩
  | error failure => exact ⟨failure.code, none, rfl, Message.outcome_code failure none⟩

/-- Callers that wait at one node under one number are one caller. -/
theorem Awaits.caller_eq {other : Asked} {n : Nat} (awaits : net.Awaits asked n)
    (awaits' : net.Awaits other n) (same : other.node = asked.node) :
    other.caller = asked.caller := by
  obtain ⟨s, peer, there, waits⟩ := awaits
  obtain ⟨s', peer', there', waits'⟩ := awaits'
  rw [same, there] at there'
  rw [← Option.some.inj there', waits] at waits'
  have ticket : asked.ticket = other.ticket := by
    injection Option.some.inj waits' with _ waiter
    exact CallWaiter.reply.inj waiter
  rw [Asked.caller, Asked.caller, same, ticket]

/-- An answer that comes back is told to the caller that waits for it. -/
theorem Linear.answer (linear : net.Linear i master lone past)
    (distinct : (past.map Asked.caller).Nodup) (place : Nat) :
    (net.answer place).Linear i master lone past := by
  cases found : net.replies[place]? with
  | none =>
    rw [ProxyNet.answer, found]
    exact linear
  | some sent =>
  obtain ⟨asked, message⟩ := sent
  obtain ⟨n, reply, same, waits, told⟩ := linear.replies _ (List.mem_of_getElem? found)
  obtain ⟨code, value, written, read⟩ := exists_ofMappingResult_eq n reply
  dsimp only at same waits told
  subst same
  rw [written] at found
  obtain ⟨s, peer, there, waiting⟩ := id waits
  have proxies := linear.nodes asked.node s there
  obtain ⟨kept, pending, grown⟩ := proxies.callCompleted waiting reply
  have acted : net.answer place = { net with
      nodes := stepAt net.nodes asked.node (.complete n reply)
      replies := net.replies.eraseIdx place
      answers := net.answers ++ [(asked.node, asked.ticket, reply)] } := by
    have emitted := emittedAt_eq there (.complete n reply) grown
    simp [ProxyNet.answer, found, read, act, emitted, MappingEffect.forward?, MappingEffect.answer?]
  -- whoever else waits at this node waits under another number
  have moved := perm_eraseIdx found
  have apart : (net.calls.map (fun sent => sent.asked.caller) ++
      (asked.caller :: (net.replies.eraseIdx place).map fun sent => sent.1.caller)).Nodup := by
    have whole := linear.once.nodup_iff.2 distinct
    have part := (List.nodup_append.1 whole).1
    exact ((moved.map fun sent => sent.1.caller).append_left _).nodup_iff.1 part
  have awaits : ∀ {a k}, net.Awaits a k → a.caller ≠ asked.caller →
      (net.answer place).Awaits a k := by
    intro a k waits' other
    rw [acted]
    refine waits'.act there (.complete n reply) fun here waiting found => ?_
    show (s.callCompleted n reply).pending[k]? = _
    rw [pending, Std.ExtTreeMap.getElem?_erase, if_neg, found]
    rw [Std.compare_eq_iff_eq]
    rintro rfl
    exact other (waits.caller_eq waits' here)
  rw [acted] at awaits ⊢
  refine
    { nodes := linear.nodes_of_same there kept
      calls := fun other among => ?_
      replies := fun other among => ?_
      answers := fun given among => ?_
      order := linear.order
      once := ?_ }
  · obtain ⟨peer, about, callers, waits⟩ := linear.calls other among
    refine ⟨peer, about, callers, awaits waits fun same => ?_⟩
    refine (List.nodup_append.1 apart).2.2 _ (List.mem_map_of_mem among) _ List.mem_cons_self same
  · obtain ⟨n, reply, message, waits, told⟩ := linear.replies other (List.mem_of_mem_eraseIdx among)
    refine ⟨n, reply, message, awaits waits fun same => ?_, told⟩
    have fresh := (List.nodup_cons.1 (List.nodup_append.1 apart).2.1).1
    exact fresh (same ▸ List.mem_map_of_mem among)
  · obtain before | now := List.mem_append.1 among
    · exact linear.answers given before
    · exact List.mem_singleton.1 now ▸ told
  · refine .trans ?_ linear.once
    rw [List.map_append, List.append_assoc, List.append_assoc]
    refine List.Perm.append_left _ ?_
    refine .trans ?_ ((moved.map fun sent => sent.1.caller).symm.append_right _)
    rw [← List.append_assoc]
    exact List.perm_append_comm

/-! ## Runs -/

/-- Callers at the nodes call on the mapping. -/
def Admits (net : ProxyNet) (i : UInt16) (asked : Asked) : Prop :=
  net.nodes asked.node ≠ none ∧ asked.call.index = i ∧ asked.call.IsCallers

/-- The first of those that are alive is a minister. -/
theorem exists_mem_ministers (positive : 0 < s.ministerCount) {live : NameSet} {x : NodeName}
    (alive : x ∈ live) : ∃ first, first ∈ s.ministers live := by
  obtain ⟨first, rest, listed⟩ : ∃ first rest, live.toList = first :: rest := by
    cases listed : live.toList with
    | nil => exact absurd (Std.ExtTreeSet.mem_toList.2 alive) (by rw [listed]; exact nofun)
    | cons first rest => exact ⟨first, rest, rfl⟩
  obtain ⟨k, count⟩ := Nat.exists_eq_succ_of_ne_zero (Nat.ne_of_gt positive)
  refine ⟨first, ?_⟩
  rw [MappingService.ministers, listed, count]
  simp

/-- The nodes go by the same ministers, so that they have a master for the mapping. -/
theorem Starts.exists_master {id : String} {live : NameSet} {count : Nat}
    (starts : net.Starts i id lone live count) : ∃ master, ∀ x s, net.nodes x = some s →
      s.Proxies x i master lone := by
  by_cases somebody : ∃ x s, net.nodes x = some s
  · obtain ⟨x, s, there⟩ := somebody
    obtain ⟨alive, before, configured, -, governs, -, -⟩ := starts.nodes x s there
    obtain ⟨first, inside⟩ := exists_mem_ministers configured.alone.2 alive
    have share : 0 < Ring.defaultShare := by decide
    obtain ⟨master, mastered⟩ := Ring.exists_masterOf share inside id
    refine ⟨master, fun y t found => ?_⟩
    obtain ⟨-, before', configured', rfl, governs', ⟨m, held, rfl, single, rfl⟩, rfl⟩ :=
      starts.nodes y t found
    refine configured'.proxies held single ?_
    rw [← mastered, MappingService.ministers, MappingService.ministers, governs', governs]
  · exact ⟨"", fun x s there => absurd ⟨x, s, there⟩ somebody⟩

theorem Starts.linear {id : String} {live : NameSet} {count : Nat}
    (starts : net.Starts i id lone live count)
    (proxies : ∀ x s, net.nodes x = some s → s.Proxies x i master lone) :
    net.Linear i master lone [] where
  nodes := by
    rw [starts.ran]
    exact proxies
  calls := by simp [starts.calls]
  replies := by simp [starts.replies]
  answers := by simp [starts.answers]
  order := by simp [starts.calls, starts.ran]
  once := by simp [starts.calls, starts.replies, starts.answers]

/-- What was asked in a run. -/
def askedIn (steps : List ProxyStep) : List Asked := steps.filterMap ProxyStep.asked?

/-- No node appears or goes away, and the calls that ran stay in their places. -/
theorem grows_step (net : ProxyNet) (step : ProxyStep) :
    (∀ x, (net.step step).nodes x = none ↔ net.nodes x = none) ∧
      ∃ more, (net.step step).ran = net.ran ++ more := by
  have noted : ∀ (net : ProxyNet) (asked : Asked) (runs : Bool),
      ∃ more, (net.note asked runs).ran = net.ran ++ more := by
    intro net asked runs
    cases runs
    · exact ⟨[], (List.append_nil _).symm⟩
    · exact ⟨[asked], rfl⟩
  cases step with
  | submit asked =>
    simp only [ProxyNet.step, submit]
    split
    · exact ⟨fun x => MappingService.stepAt_eq_none_iff, noted _ _ _⟩
    · exact ⟨fun x => .rfl, [], (List.append_nil _).symm⟩
  | deliver place =>
    simp only [ProxyNet.step, deliver]
    split
    · split
      · exact ⟨fun x => MappingService.stepAt_eq_none_iff, noted _ _ _⟩
      · exact ⟨fun x => .rfl, [], (List.append_nil _).symm⟩
    · exact ⟨fun x => .rfl, [], (List.append_nil _).symm⟩
  | answer place =>
    simp only [ProxyNet.step, answer]
    split
    · exact ⟨fun x => MappingService.stepAt_eq_none_iff, [], (List.append_nil _).symm⟩
    · exact ⟨fun x => .rfl, [], (List.append_nil _).symm⟩

theorem after_append (net : ProxyNet) (steps later : List ProxyStep) :
    net.after (steps ++ later) = (net.after steps).after later :=
  List.foldl_append

theorem exists_ran_after (net : ProxyNet) (steps : List ProxyStep) :
    ∃ more, (net.after steps).ran = net.ran ++ more := by
  induction steps generalizing net with
  | nil => exact ⟨[], (List.append_nil _).symm⟩
  | cons step steps ih =>
    obtain ⟨more, first⟩ := (net.grows_step step).2
    obtain ⟨more', then'⟩ := ih (net.step step)
    exact ⟨more ++ more', by rw [after, List.foldl_cons, ← after, then', first, List.append_assoc]⟩

theorem Linear.submit (linear : net.Linear i master lone past) (admits : net.Admits i asked) :
    (net.submit asked).Linear i master lone (past ++ [asked]) := by
  obtain ⟨present, about, callers⟩ := admits
  obtain ⟨s, there⟩ := Option.ne_none_iff_exists'.1 present
  by_cases here : asked.node = master
  · exact linear.submit_at_master (here ▸ there) here about callers
  · exact linear.submit_elsewhere there here about callers

theorem Linear.after {steps : List ProxyStep} (linear : net.Linear i master lone past)
    (admits : ∀ asked ∈ askedIn steps, net.Admits i asked)
    (distinct : ((past ++ askedIn steps).map Asked.caller).Nodup) :
    (net.after steps).Linear i master lone (past ++ askedIn steps) := by
  induction steps generalizing net past with
  | nil =>
    rw [askedIn, List.filterMap_nil, List.append_nil]
    exact linear
  | cons step steps ih =>
    have present := (net.grows_step step).1
    have later : ∀ asked ∈ askedIn steps, (net.step step).Admits i asked := by
      intro asked there
      obtain ⟨here, about, callers⟩ := admits asked (List.mem_filterMap.2 (by
        obtain ⟨step', among, asks⟩ := List.mem_filterMap.1 there
        exact ⟨step', List.mem_cons_of_mem _ among, asks⟩))
      exact ⟨fun absent => here ((present asked.node).1 absent), about, callers⟩
    cases step with
    | submit asked =>
      have cons : askedIn (.submit asked :: steps) = asked :: askedIn steps := rfl
      rw [cons, List.append_cons] at distinct ⊢
      exact ih (linear.submit (admits asked List.mem_cons_self)) later distinct
    | deliver place => exact ih (linear.deliver place) later distinct
    | answer place =>
      refine ih (linear.answer ?_ place) later distinct
      rw [List.map_append] at distinct
      exact (List.nodup_append.1 distinct).1

/-- To their callers the nodes are one map, kept at the master: it ran the calls that ran, and the
answers are those it gave. -/
structure OneMap (net : ProxyNet) (i : UInt16) (master : NodeName) (lone : LoneMap)
    (past : List Asked) : Prop where
  masterOf : ∀ x s, net.nodes x = some s → s.masterOf i = some master
  answers : ∀ given ∈ net.answers, given ∈ lone.transcript net.ran
  kept : ∀ s, net.nodes master = some s → s.stock i = (lone.after net.ran).entries
  elsewhere : ∀ x s, x ≠ master → net.nodes x = some s → s.stock i = ∅
  /-- Of everything that was asked, each call is on its way or has run once. -/
  order : (net.calls.map ForwardedCall.asked ++ net.ran).Perm past
  /-- Every caller waits for its call, waits for the answer to it, or was told the answer once. -/
  once : (net.calls.map (fun sent => sent.asked.caller) ++
    net.replies.map (fun sent => sent.1.caller) ++
    net.answers.map fun given => (given.1, given.2.1)).Perm (past.map Asked.caller)

theorem Linear.oneMap (linear : net.Linear i master lone past) : net.OneMap i master lone past where
  masterOf x s there := (linear.nodes x s there).masterOf_eq
  answers := linear.answers
  kept s there := by rw [(linear.nodes master s there).stock_eq, if_pos rfl]
  elsewhere x s other there := by rw [(linear.nodes x s there).stock_eq, if_neg other]
  order := linear.order
  once := linear.once

theorem exists_of_mem_transcript {given : NodeName × Ticket × MappingReply} {ran : List Asked}
    (told : given ∈ lone.transcript ran) : ∃ asked ∈ ran, asked.caller = (given.1, given.2.1) := by
  induction ran generalizing lone with
  | nil => cases told
  | cons first rest ih =>
    obtain rfl | later := List.mem_cons.1 told
    · exact ⟨first, List.mem_cons_self, rfl⟩
    · obtain ⟨asked, there, same⟩ := ih later
      exact ⟨asked, List.mem_cons_of_mem _ there, same⟩

/-- A mapping that one master keeps for all nodes is one map to its callers: every answer is the one
that the map gives when it runs the calls in the order in which the master ran them. A call that was
answered before another was made ran before it. -/
theorem proxied_mapping_is_one_map {id : String} {live : NameSet} {ministerCount : Nat}
    (starts : net.Starts i id lone live ministerCount) :
    ∃ master, ∀ steps : List ProxyStep, (∀ asked ∈ askedIn steps, net.Admits i asked) →
      ((askedIn steps).map Asked.caller).Nodup →
      (net.after steps).OneMap i master lone (askedIn steps) ∧
      ∀ before later asked, steps = before ++ .submit asked :: later →
        ∀ first ∈ (net.after steps).ran, ∀ reply,
          (first.node, first.ticket, reply) ∈ (net.after before).answers →
          asked ∈ (net.after steps).ran → [first, asked].Sublist (net.after steps).ran := by
  obtain ⟨master, proxies⟩ := starts.exists_master
  have linear := starts.linear proxies
  refine ⟨master, fun steps admits distinct => ?_⟩
  have reached := linear.after admits distinct
  refine ⟨reached.oneMap, ?_⟩
  rintro before later asked rfl first there reply told among
  have parts : askedIn (before ++ .submit asked :: later) =
      askedIn before ++ asked :: askedIn later := by
    simp [askedIn, ProxyStep.asked?]
  have past : ∀ a ∈ (net.after (before ++ .submit asked :: later)).ran,
      a ∈ askedIn (before ++ .submit asked :: later) :=
    fun a ran => reached.order.mem_iff.1 (List.mem_append_right _ ran)
  have halfway : (net.after before).Linear i master lone (askedIn before) := by
    refine linear.after (fun a asks => admits a ?_) ?_
    · rw [parts]
      exact List.mem_append_left _ asks
    · rw [parts, List.map_append] at distinct
      exact (List.nodup_append.1 distinct).1
  obtain ⟨more, grown⟩ := (net.after before).exists_ran_after (.submit asked :: later)
  rw [← after_append] at grown
  -- the first call has run by then, and the other one has not
  have early : first ∈ (net.after before).ran := by
    obtain ⟨a, ran, same⟩ := exists_of_mem_transcript (halfway.answers _ told)
    have ran' : a ∈ (net.after (before ++ .submit asked :: later)).ran := by
      rw [grown]
      exact List.mem_append_left _ ran
    rwa [List.inj_on_of_nodup_map distinct (past first there) (past a ran') same.symm]
  have late : asked ∈ more := by
    rw [grown] at among
    refine (List.mem_append.1 among).resolve_left fun ran => ?_
    have asked' : asked ∈ askedIn before :=
      halfway.order.mem_iff.1 (List.mem_append_right _ ran)
    rw [parts] at distinct
    exact (List.nodup_append.1 distinct.of_map).2.2 _ asked' _ List.mem_cons_self rfl
  rw [grown]
  exact (List.singleton_sublist.2 early).append (List.singleton_sublist.2 late)

/-- An action that appends its arguments to a value, and fails where there is none. -/
def growing : ValueAction := fun key value args =>
  match value with
  | some value => .ok ⟨[(key, some (value ++ args))], value ++ args⟩
  | none => .error (.failed .invalidParameters)

/-- A node with a mapping on which that action was registered. -/
def trader (node : NodeName) : MappingService :=
  (((MappingService.fresh node 1).configure "m" .single).2.registerValueAction "m" "grow"
    growing).2.close

/-- Three nodes that know each other. -/
def traders : ProxyNet where
  nodes node :=
    if node = "a" ∨ node = "b" ∨ node = "c" then
      some ((trader node).updateMinistry (.ofList ["a", "b", "c"]))
    else none
  calls := []
  replies := []
  answers := []
  ran := []

theorem traders_start : traders.Starts 1 "m" ⟨∅, (∅ : Std.ExtTreeMap _ _).insert "grow" growing, ∅⟩
    (.ofList ["a", "b", "c"]) 1 where
  nodes x s there := by
    simp only [traders] at there
    split at there
    next known =>
      obtain rfl := Option.some.inj there
      have alive : x ∈ (Std.ExtTreeSet.ofList ["a", "b", "c"] : NameSet) := by
        obtain rfl | rfl | rfl := known <;> decide
      refine ⟨alive, trader x, ?_, rfl, rfl, ⟨_, rfl, rfl, rfl, rfl⟩, rfl⟩
      exact .close (.valueAction "m" "grow" growing (.configure "m" .single (.fresh x 1)))
    next => cases there
  calls := rfl
  replies := rfl
  answers := rfl
  ran := rfl

/-- Calls of two nodes overtake each other on their way to the third, and so do the answers. -/
def tradingRun : List ProxyStep :=
  [.submit ⟨"b", 1, .put 1 [107] [1]⟩, .submit ⟨"c", 1, .get 1 [107]⟩, .deliver 1, .deliver 0,
   .answer 1, .submit ⟨"c", 2, .withValue 1 [107] "grow" [2]⟩, .submit ⟨"a", 1, .get 1 [107]⟩,
   .submit ⟨"b", 2, .withValue 1 [108] "grow" [2]⟩, .deliver 1, .deliver 0, .answer 1, .answer 1]

theorem proxied_mapping_is_one_map_in_tradingRun :
    (traders.after tradingRun).answers =
        [("b", 1, .ok none), ("a", 1, .ok (some [1])), ("b", 2, .error .actionFailed),
          ("c", 2, .ok (some [1, 2]))] ∧
      ∃ master lone, (traders.after tradingRun).OneMap 1 master lone (askedIn tradingRun) ∧
        [⟨"b", 1, .put 1 [107] [1]⟩, ⟨"c", 2, .withValue 1 [107] "grow" [2]⟩].Sublist
          (traders.after tradingRun).ran := by
  have answers : (traders.after tradingRun).answers =
      [("b", 1, .ok none), ("a", 1, .ok (some [1])), ("b", 2, .error .actionFailed),
        ("c", 2, .ok (some [1, 2]))] := by decide +kernel
  have admits : ∀ asked ∈ askedIn tradingRun, traders.Admits 1 asked := by
    intro asked there
    have among : asked ∈ [⟨"b", 1, .put 1 [107] [1]⟩, ⟨"c", 1, .get 1 [107]⟩,
      ⟨"c", 2, .withValue 1 [107] "grow" [2]⟩, ⟨"a", 1, .get 1 [107]⟩,
      ⟨"b", 2, .withValue 1 [108] "grow" [2]⟩] := there
    simp only [List.mem_cons, List.not_mem_nil, or_false] at among
    obtain rfl | rfl | rfl | rfl | rfl := among
    all_goals exact ⟨by simp [traders], rfl, trivial⟩
  obtain ⟨master, linear⟩ := proxied_mapping_is_one_map traders_start
  obtain ⟨oneMap, ordered⟩ := linear tradingRun admits (by decide)
  refine ⟨answers, master, _, oneMap, ?_⟩
  exact ordered (tradingRun.take 5) (tradingRun.drop 6) _ rfl _ (by decide +kernel) (.ok none)
    (by decide +kernel) (by decide +kernel)

end ProxyNet

end Cohort

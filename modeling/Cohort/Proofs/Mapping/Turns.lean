import Cohort.Proofs.Mapping.Operations

/-!
# What happens to a mapping service

A mapping service as a machine: everything that may happen to it is an operation, and a run is a
list of operations. An operation treats the copy of a mapping in one of a few ways, its `Turn`.

## Main definitions

* `MappingOp`, `MappingService.step`, `MappingService.after`.
* `MappingService.changesOn`: the changes of a mapping that an operation makes here.
* `MappingService.Turn`: how an operation treats the copy of a mapping.
* `MappingService.stepAt`: something happens to one of several services.

## Main statements

* `MappingService.step_turn`: every operation takes one of these turns.
* `MappingService.Sound.step`: a service stays in order.
* `MappingService.turned_of_replicated`: what happens to a copy that every node keeps.
-/

namespace Cohort

/-- What may happen to a mapping service. -/
inductive MappingOp where
  /-- A caller here calls on a mapping. -/
  | submit (call : MappingCall) (ticket : Ticket)
  /-- Another node calls on a mapping. -/
  | handle (call : MappingCall)
  /-- A call sent to another node has ended. -/
  | complete (requestId : Nat) (reply : MappingReply)
  /-- Another node went away. -/
  | disconnect (peer : NodeName)
  /-- Another node published an event. -/
  | hear (event : NodeEvent)
  /-- It is time to tell the other nodes of changes. -/
  | flush (now : Nat) (force : Bool)
  /-- The nodes that are alive have changed. -/
  | govern (live : NameSet)
  /-- It is time to hand copies to their masters again. -/
  | resume

/-- The event that an effect publishes, if it publishes one. -/
def MappingEffect.event? : MappingEffect → Option NodeEvent
  | .broadcast event => some event
  | _ => none

namespace MappingService

variable {s s' t : MappingService} {m m' : Mapping} {i : UInt16} {call : MappingCall}

/-! ## Operations and runs -/

/-- The service after something happened to it. -/
def step (s : MappingService) : MappingOp → MappingService
  | .submit call ticket => s.submit call ticket
  | .handle call => (s.handleCall call).2
  | .complete requestId reply => s.callCompleted requestId reply
  | .disconnect peer => s.peerDisconnected peer
  | .hear event => s.hear event
  | .flush now force => s.flush now force
  | .govern live => s.updateMinistry live
  | .resume => s.resumeHandOffs

/-- The service after several operations. -/
def after (s : MappingService) (ops : List MappingOp) : MappingService := ops.foldl step s

@[simp] theorem after_nil (s : MappingService) : s.after [] = s := rfl

@[simp] theorem after_cons (s : MappingService) (op : MappingOp) (ops : List MappingOp) :
    s.after (op :: ops) = (s.step op).after ops := rfl

theorem after_append (s : MappingService) (ops ops' : List MappingOp) :
    s.after (ops ++ ops') = (s.after ops).after ops' :=
  List.foldl_append

/-- What an operation has the service ask for. -/
def emitted (s : MappingService) (op : MappingOp) : List MappingEffect :=
  (s.step op).outbox.drop s.outbox.length

/-- What an operation publishes. -/
def broadcasts (s : MappingService) (op : MappingOp) : List NodeEvent :=
  (s.emitted op).filterMap MappingEffect.event?

theorem emitted_eq {op : MappingOp} {effects : List MappingEffect}
    (grown : (s.step op).outbox = s.outbox ++ effects) : s.emitted op = effects := by
  rw [emitted, grown, List.drop_left]

/-- The changes of a mapping that a call makes here. -/
def madeOn (s : MappingService) (i : UInt16) : MappingOp → List Change
  | .submit call _ => if call.index = i ∧ s.servesOwn call.index then s.changesBy call else []
  | .handle call => if call.index = i ∧ s.servesOthers call then s.changesBy call else []
  | _ => []

/-- The changes of a mapping that news bring. -/
def heardOn (s : MappingService) (i : UInt16) : MappingOp → List Change
  | .hear event =>
    match s.mappings[i]? with
    | some m => event.newsOf m.id
    | none => []
  | _ => []

/-- The changes of a mapping that an operation makes here. -/
def changesOn (s : MappingService) (i : UInt16) (op : MappingOp) : List Change :=
  s.madeOn i op ++ s.heardOn i op

/-- The changes of a mapping that several operations make here. -/
def changesOver (s : MappingService) (i : UInt16) : List MappingOp → List Change
  | [] => []
  | op :: ops => s.changesOn i op ++ (s.step op).changesOver i ops

theorem changesOver_append (s : MappingService) (i : UInt16) (ops ops' : List MappingOp) :
    s.changesOver i (ops ++ ops') = s.changesOver i ops ++ (s.after ops).changesOver i ops' := by
  induction ops generalizing s with
  | nil => rfl
  | cons op ops ih => simp [changesOver, ih, List.append_assoc]

/-- The calls that wait for a peer fail one after the other. -/
theorem step_disconnect (s : MappingService) (peer : NodeName) :
    s.step (.disconnect peer) =
      s.after ((s.callsTo peer).map fun n => .complete n (.error .peerUnavailable)) := by
  rw [after, List.foldl_map]
  rfl

/-! ## All operations -/

/-- What an operation makes of a mapping. The calls that fail with a peer end one by one. -/
def turned (s : MappingService) (i : UInt16) : MappingOp → Mapping → Mapping
  | .submit call ticket, m => m.committed (s.madeOn i (.submit call ticket))
  | .handle call, m => m.committed (s.madeOn i (.handle call))
  | .complete requestId reply, m => s.settled i requestId reply m
  | .disconnect _, m => m
  | .hear event, m => m.heard (event.newsOf m.id)
  | .flush now force, m => m.flushed now force
  | .govern live, m => (s.governed live).vacated m
  | .resume, m => s.vacated m

end MappingService

/-- An operation about one call at most. -/
def MappingOp.IsSingle (op : MappingOp) : Prop := ∀ peer, op ≠ .disconnect peer

theorem MappingOp.single_or_disconnect (op : MappingOp) :
    op.IsSingle ∨ ∃ peer, op = .disconnect peer := by
  by_cases single : op.IsSingle
  · exact .inl single
  · exact .inr (by simpa [IsSingle] using single)

namespace MappingService

variable {s s' t : MappingService} {m m' : Mapping} {i : UInt16} {op : MappingOp}

theorem Indexed.governed (indexed : s.Indexed) (live : NameSet) : (s.governed live).Indexed := by
  refine indexed.of_label ?_ fun j => by rw [mappings_governed]
  unfold MappingService.governed
  split <;> rfl

theorem Numbered.governed (numbered : s.Numbered) (live : NameSet) :
    (s.governed live).Numbered := by
  unfold MappingService.governed
  split
  · exact numbered
  · exact numbered

theorem Sound.governed (sound : s.Sound) (live : NameSet) : (s.governed live).Sound where
  toIndexed := sound.toIndexed.governed live
  tidy held := by
    rw [mappings_governed] at held
    exact sound.tidy held
  numbered := sound.numbered.governed live
  parked found := by
    rw [parkedAt_governed] at found
    rw [mappings_governed]
    exact sound.parked found

theorem getElem?_step (sound : s.Sound) (single : op.IsSingle) (j : UInt16) :
    (s.step op).mappings[j]? = s.mappings[j]?.map (s.turned j op) := by
  cases op with
  | submit call ticket => exact getElem?_submit sound.toIndexed call ticket j
  | handle call => exact getElem?_handleCall sound.toIndexed call j
  | complete requestId reply => exact getElem?_callCompleted sound.toIndexed requestId reply j
  | disconnect peer => exact absurd rfl (single peer)
  | hear event => exact getElem?_hear sound.toIndexed event j
  | flush now force => exact getElem?_flush sound.toIndexed now force j
  | govern live =>
    show (s.updateMinistry live).mappings[j]? = _
    rw [updateMinistry_eq, getElem?_resumeHandOffs (sound.governed live), mappings_governed]
    rfl
  | resume => exact getElem?_resumeHandOffs sound j

/-- How an operation treats the copy of a mapping: it makes changes, hands the copy off, or ends a
hand-off, one way or the other. -/
inductive Turn (s : MappingService) (i : UInt16) (op : MappingOp) : Prop where
  | changed (stock : (s.step op).stock i = (s.changesOn i op).foldl Mapping.changed (s.stock i))
    (parked : ∀ n, (s.step op).parkedAt i n = s.parkedAt i n)
  | handedOff (number : Nat) (m : Mapping) (held : s.mappings[i]? = some m)
    (single : m.replication.isReplicated = false) (nothing : s.changesOn i op = [])
    (fresh : s.lastRequest < number)
    (stock : (s.step op).stock i = ∅)
    (parked : ∀ n, (s.step op).parkedAt i n =
      if n = number then some (s.stock i) else s.parkedAt i n)
  | acknowledged (number : Nat) (entries : Entries) (value : Option Bytes)
    (ended : op = .complete number (.ok value)) (was : s.parkedAt i number = some entries)
    (stock : (s.step op).stock i = s.stock i)
    (parked : ∀ n, (s.step op).parkedAt i n = if number = n then none else s.parkedAt i n)
  | restored (number : Nat) (entries : Entries) (failure : Failure)
    (ended : op = .complete number (.error failure)) (was : s.parkedAt i number = some entries)
    (stock : (s.step op).stock i =
      entries.toList.foldl (fun kept entry => kept.insertIfNew entry.1 entry.2) (s.stock i))
    (parked : ∀ n, (s.step op).parkedAt i n = if number = n then none else s.parkedAt i n)

theorem stock_step (sound : s.Sound) (single : op.IsSingle) (held : s.mappings[i]? = some m) :
    (s.step op).stock i = (s.turned i op m).entries :=
  stock_of_held (by rw [getElem?_step sound single, held, Option.map_some])

theorem stock_of_unheld (unheld : s.mappings[i]? = none) : s.stock i = ∅ := by
  rw [stock, unheld]

theorem stock_step_of_unheld (sound : s.Sound) (single : op.IsSingle)
    (unheld : s.mappings[i]? = none) : (s.step op).stock i = ∅ :=
  stock_of_unheld (by rw [getElem?_step sound single, unheld, Option.map_none])

theorem changesOn_of_unheld (unheld : s.mappings[i]? = none) : s.changesOn i op = [] := by
  unfold changesOn madeOn heardOn changesBy
  cases op <;> grind

theorem Turn.of_turned (sound : s.Sound) (single : op.IsSingle)
    (entries : ∀ m : Mapping, s.mappings[i]? = some m →
      (s.turned i op m).entries = (s.changesOn i op).foldl Mapping.changed m.entries)
    (parked : ∀ n, (s.step op).parkedAt i n = s.parkedAt i n) : s.Turn i op := by
  refine .changed ?_ parked
  cases held : s.mappings[i]? with
  | none =>
    rw [stock_step_of_unheld sound single held, stock_of_unheld held, changesOn_of_unheld held]
    rfl
  | some m => rw [stock_step sound single held, stock_of_held held, entries m held]

theorem parkedAt_submit (numbered : s.Numbered) (call : MappingCall) (ticket : Ticket) (i : UInt16)
    (n : Nat) : (s.submit call ticket).parkedAt i n = s.parkedAt i n := by
  obtain ⟨serves, ran⟩ | ⟨-, ⟨failure, refused⟩ | ⟨master, sent⟩⟩ := s.submit_cases call ticket
  · obtain ⟨m, held⟩ := held_of_servesOwn serves
    rw [ran]
    exact (run_tends held).parkedAt_eq i n
  · rw [refused]
    rfl
  · rw [sent]
    exact (Elsewhere.sendCall rfl).parked n numbered

/-- Handing copies to their masters is a turn of any operation that does just that. -/
theorem Turn.of_resume {u : MappingService} (sound : u.Sound)
    (reached : s.step op = u.resumeHandOffs)
    (mappings : u.mappings = s.mappings) (parked : ∀ n, u.parkedAt i n = s.parkedAt i n)
    (lastRequest : u.lastRequest = s.lastRequest) (nothing : s.changesOn i op = []) :
    s.Turn i op := by
  have same : u.stock i = s.stock i := by rw [stock, stock, mappings]
  cases held : u.mappings[i]? with
  | none =>
    have aside := Elsewhere.foldl (i := i) (f := handOffOne)
      (fun m there s => .handOffOne (sound.index_ne_of_unheld held m there)) u
    refine .changed ?_ fun n => ?_
    · rw [nothing, reached, ← same, stock_of_unheld held]
      exact stock_of_unheld (aside.mapping.trans held)
    · rw [reached, ← parked]
      exact aside.parked n sound.numbered
  | some m =>
    obtain ⟨mapping, ⟨heir, parks⟩ | ⟨number, heir, fresh, parks⟩⟩ :=
      resumeHandOffs_cases sound.toIndexed sound.numbered held
    · refine .changed ?_ fun n => by rw [reached, parks, parked]
      rw [nothing, reached, stock_of_held mapping, ← same, stock_of_held held, vacated, heir]
      rfl
    · refine .handedOff number m (mappings ▸ held) (replicated_of_heir? heir) nothing
        (lastRequest ▸ fresh) ?_ fun n => ?_
      · rw [reached, stock_of_held mapping, vacated, if_pos heir]
        rfl
      · rw [reached, parks, ← same, stock_of_held held, parked]

theorem Turn.of_complete (sound : s.Sound) (requestId : Nat) (reply : MappingReply) :
    s.Turn i (.complete requestId reply) := by
  have single : (MappingOp.complete requestId reply).IsSingle := fun _ => nofun
  have parked := fun n => s.parkedAt_callCompleted requestId reply i n
  cases parks : s.parkedAt i requestId with
  | none =>
    refine .of_turned sound single (fun m held => ?_) fun n => ?_
    · simp [turned, settled, parks, changesOn, madeOn, heardOn]
    · refine (parked n).trans ?_
      split
      next eq => rw [← eq, parks]
      next => rfl
  | some entries =>
    obtain ⟨m, held, -⟩ := sound.parked parks
    have stock := stock_step sound single held
    cases reply with
    | ok value =>
      refine .acknowledged requestId entries value rfl parks ?_ parked
      rw [stock, stock_of_held held]
      simp [turned, settled, parks]
    | error failure =>
      refine .restored requestId entries failure rfl parks ?_ parked
      rw [stock, stock_of_held held]
      simp [turned, settled, parks, Mapping.regained]

theorem step_turn (sound : s.Sound) (single : op.IsSingle) (i : UInt16) : s.Turn i op := by
  cases op with
  | submit call ticket =>
    refine .of_turned sound single (fun m held => ?_) (parkedAt_submit sound.numbered call ticket i)
    simp [turned, Mapping.committed, changesOn, heardOn]
  | handle call =>
    refine .of_turned sound single (fun m held => ?_) ((s.handleCall_tends call).parkedAt_eq i)
    simp [turned, Mapping.committed, changesOn, heardOn]
  | complete requestId reply => exact .of_complete sound requestId reply
  | disconnect peer => exact absurd rfl (single peer)
  | hear event =>
    refine .of_turned sound single (fun m held => ?_)
      ((hear_tends sound.toIndexed event).parkedAt_eq i)
    simp [turned, Mapping.heard, changesOn, madeOn, heardOn, held]
  | flush now force =>
    refine .of_turned sound single (fun m held => ?_) ((s.flush_tends now force).parkedAt_eq i)
    simp only [turned, Mapping.flushed]
    split <;> rfl
  | govern live =>
    exact .of_resume (sound.governed live) rfl (s.mappings_governed live)
      (s.parkedAt_governed live i) (s.lastRequest_governed live) rfl
  | resume => exact .of_resume sound rfl rfl (fun _ => rfl) rfl rfl

/-! ## Services stay in order -/

theorem label_turned (s : MappingService) (i : UInt16) (op : MappingOp) (m : Mapping) :
    (s.turned i op m).label = m.label := by
  cases op with
  | complete requestId reply =>
    simp only [turned, settled]
    split <;> rfl
  | flush now force => exact m.label_flushed now force
  | govern live =>
    simp only [turned, vacated]
    split <;> rfl
  | resume =>
    simp only [turned, vacated]
    split <;> rfl
  | _ => rfl

theorem tidy_turned (tidy : m.Tidy) (s : MappingService) (i : UInt16) (op : MappingOp) :
    (s.turned i op m).Tidy := by
  have committed : ∀ changes, (m.committed changes).Tidy := by
    intro changes unbatched
    unfold Mapping.committed
    cases shared : m.replication with
    | batched interval => exact absurd shared (unbatched interval)
    | immediate => exact tidy unbatched
    | single => exact tidy unbatched
  cases op with
  | submit call ticket => exact committed _
  | handle call => exact committed _
  | complete requestId reply =>
    simp only [turned, settled]
    split <;> exact tidy
  | disconnect peer => exact tidy
  | hear event => exact tidy
  | flush now force =>
    simp only [turned, Mapping.flushed]
    split
    · exact fun _ => rfl
    · exact tidy
  | govern live =>
    simp only [turned, vacated]
    split <;> exact tidy
  | resume =>
    simp only [turned, vacated]
    split <;> exact tidy

theorem indexOf_resumeHandOffs (s : MappingService) : s.resumeHandOffs.indexOf = s.indexOf := by
  have folded : ∀ (l : List Mapping) (s : MappingService),
      (l.foldl handOffOne s).indexOf = s.indexOf := by
    intro l
    induction l with
    | nil => exact fun s => rfl
    | cons m l ih =>
      intro s
      rw [List.foldl_cons, ih, handOffOne_eq]
      split <;> rfl
  exact folded s.mappings.values s

theorem Numbered.resumeHandOffs (numbered : s.Numbered) : s.resumeHandOffs.Numbered := by
  have folded : ∀ (l : List Mapping) (s : MappingService), s.Numbered →
      (l.foldl handOffOne s).Numbered := by
    intro l
    induction l with
    | nil => exact fun s numbered => numbered
    | cons m l ih =>
      intro s numbered
      refine ih _ ?_
      rw [handOffOne_eq]
      split
      · exact numbered
      · exact Numbered.sendCall (s := s.store m.emptied) numbered _ _ _
  exact folded s.mappings.values s numbered

theorem numbered_step (sound : s.Sound) (single : op.IsSingle) : (s.step op).Numbered := by
  cases op with
  | submit call ticket =>
    obtain ⟨serves, ran⟩ | ⟨-, ⟨failure, refused⟩ | ⟨master, sent⟩⟩ := s.submit_cases call ticket
    · obtain ⟨m, held⟩ := held_of_servesOwn serves
      show (s.submit call ticket).Numbered
      rw [ran]
      exact (run_tends held).numbered sound.numbered
    · show (s.submit call ticket).Numbered
      rw [refused]
      exact sound.numbered
    · show (s.submit call ticket).Numbered
      rw [sent]
      exact sound.numbered.sendCall _ _ _
  | handle call => exact (s.handleCall_tends call).numbered sound.numbered
  | complete requestId reply =>
    obtain ⟨pending, lastRequest, -⟩ := s.pending_callCompleted requestId reply
    intro n waiting found
    show n ≤ (s.callCompleted requestId reply).lastRequest
    replace found : (s.callCompleted requestId reply).pending[n]? = some waiting := found
    rw [lastRequest]
    rw [pending, Std.ExtTreeMap.getElem?_erase] at found
    split at found
    next => cases found
    next => exact sound.numbered n waiting found
  | disconnect peer => exact absurd rfl (single peer)
  | hear event => exact (hear_tends sound.toIndexed event).numbered sound.numbered
  | flush now force => exact (s.flush_tends now force).numbered sound.numbered
  | govern live => exact (sound.governed live).numbered.resumeHandOffs
  | resume => exact sound.numbered.resumeHandOffs

theorem indexOf_step (sound : s.Sound) (single : op.IsSingle) :
    (s.step op).indexOf = s.indexOf := by
  cases op with
  | submit call ticket =>
    show (s.submit call ticket).indexOf = _
    obtain ⟨serves, ran⟩ | ⟨-, ⟨failure, refused⟩ | ⟨master, sent⟩⟩ := s.submit_cases call ticket
    · obtain ⟨m, held⟩ := held_of_servesOwn serves
      rw [ran]
      exact (run_tends held).indexOf_eq
    · rw [refused]
      rfl
    · rw [sent]
      rfl
  | handle call => exact (s.handleCall_tends call).indexOf_eq
  | complete requestId reply => exact (s.pending_callCompleted requestId reply).2.2
  | disconnect peer => exact absurd rfl (single peer)
  | hear event => exact (hear_tends sound.toIndexed event).indexOf_eq
  | flush now force => exact (s.flush_tends now force).indexOf_eq
  | govern live =>
    refine (s.governed live).indexOf_resumeHandOffs.trans ?_
    unfold governed
    split <;> rfl
  | resume => exact s.indexOf_resumeHandOffs

theorem Sound.step_single (sound : s.Sound) (single : op.IsSingle) : (s.step op).Sound := by
  have mappings := getElem?_step sound single
  have label : ∀ j : UInt16,
      (s.step op).mappings[j]?.map Mapping.label = s.mappings[j]?.map Mapping.label := by
    intro j
    rw [mappings, Option.map_map]
    congr 1
    funext m
    exact s.label_turned j op m
  -- a mapping that is kept in one place is kept so
  have stays : ∀ (j : UInt16) (m : Mapping), s.mappings[j]? = some m →
      m.replication.isReplicated = false →
      ∃ m' : Mapping, (s.step op).mappings[j]? = some m' ∧ m'.replication.isReplicated = false := by
    intro j m held shared
    have same := Mapping.replication_of_label (s.label_turned j op m)
    refine ⟨s.turned j op m, by rw [mappings, held, Option.map_some], ?_⟩
    exact (congrArg Replication.isReplicated same).trans shared
  refine
    { toIndexed := sound.toIndexed.of_label (indexOf_step sound single) label
      tidy := @fun j n held => ?_
      numbered := numbered_step sound single
      parked := @fun n j entries parks => ?_ }
  · rw [mappings, Option.map_eq_some_iff] at held
    obtain ⟨m, held, rfl⟩ := held
    exact tidy_turned (sound.tidy held) s j op
  · have before : s.parkedAt j n = some entries →
        ∃ m' : Mapping, (s.step op).mappings[j]? = some m' ∧
          m'.replication.isReplicated = false := by
      intro parks
      obtain ⟨m, held, shared⟩ := sound.parked parks
      exact stays j m held shared
    cases step_turn sound single j with
    | changed stock parked => exact before (parked n ▸ parks)
    | handedOff number m held shared nothing fresh stock parked => exact stays j m held shared
    | acknowledged number entries value ended was stock parked =>
      rw [parked] at parks
      split at parks
      next => cases parks
      next => exact before parks
    | restored number entries failure ended was stock parked =>
      rw [parked] at parks
      split at parks
      next => cases parks
      next => exact before parks

/-- What holds whichever call fails holds when all calls of a peer have failed. -/
theorem disconnect_keeps {P : MappingService → Prop}
    (each : ∀ (s : MappingService) (requestId : Nat) (failure : Failure),
      P s → P (s.callCompleted requestId (.error failure))) (holds : P s) (peer : NodeName) :
    P (s.peerDisconnected peer) := by
  have folded : ∀ (numbers : List Nat) (s : MappingService), P s → P (numbers.foldl
      (fun s requestId => s.callCompleted requestId (.error .peerUnavailable)) s) := by
    intro numbers
    induction numbers with
    | nil => exact fun s holds => holds
    | cons n numbers ih => exact fun s holds => ih _ (each s n _ holds)
  exact folded (s.callsTo peer) s holds

/-- What every operation about one call at most keeps, every operation keeps. -/
theorem step_keeps {P : MappingService → Prop}
    (each : ∀ (s : MappingService) (op : MappingOp), op.IsSingle → P s → P (s.step op))
    (holds : P s) (op : MappingOp) : P (s.step op) := by
  cases op with
  | disconnect peer =>
    refine disconnect_keeps (fun s requestId failure => ?_) holds peer
    exact each s (.complete requestId (.error failure)) fun _ => nofun
  | _ => exact each s _ (fun _ => nofun) holds

theorem Sound.step (sound : s.Sound) (op : MappingOp) : (s.step op).Sound :=
  step_keeps (fun _ _ single sound => sound.step_single single) sound op

theorem Sound.after (sound : s.Sound) (ops : List MappingOp) : (s.after ops).Sound := by
  induction ops generalizing s with
  | nil => exact sound
  | cons op ops ih => exact ih (sound.step op)

/-- The service with other listeners to a mapping. -/
def relisten (s : MappingService) (i : UInt16) (f : List Listener → List Listener) :
    MappingService :=
  match s.mappings[i]? with
  | some m => s.store { m with listeners := f m.listeners }
  | none => s

theorem addListener_eq_relisten (s : MappingService) (i : UInt16) (listener : Listener) :
    (s.addListener i listener).2 = s.relisten i (· ++ [listener]) := by
  unfold MappingService.addListener mapping? relisten
  cases s.mappings[i]? <;> rfl

theorem getElem?_relisten (indexed : s.Indexed) (i : UInt16) (f : List Listener → List Listener)
    (j : UInt16) : (s.relisten i f).mappings[j]? =
      s.mappings[j]?.map fun m => if i = j then { m with listeners := f m.listeners } else m := by
  unfold relisten
  cases held : s.mappings[i]? with
  | none =>
    by_cases same : i = j
    · rw [← same, held, Option.map_none]
    · simp [same]
  | some m =>
    have place := indexed.placed held
    simp only [getElem?_store]
    split
    next same =>
      obtain rfl := place.symm.trans same
      rw [held, Option.map_some, if_pos rfl]
    next other =>
      have apart : i ≠ j := fun same => other (place.trans same)
      simp only [if_neg apart, Option.map_id']

theorem relisten_tends (s : MappingService) (i : UInt16) (f : List Listener → List Listener) :
    s.Tends (s.relisten i f) := by
  unfold relisten
  split <;> rfl

/-- A mapping that has other listeners is in order. -/
theorem Sound.relisten (sound : s.Sound) (i : UInt16) (f : List Listener → List Listener) :
    (s.relisten i f).Sound := by
  have mappings := getElem?_relisten sound.toIndexed i f
  have tends := s.relisten_tends i f
  refine
    { toIndexed := sound.toIndexed.of_label tends.indexOf_eq fun j => ?_
      tidy := fun found => ?_
      numbered := tends.numbered sound.numbered
      parked := fun parks => ?_ }
  · rw [mappings, Option.map_map]
    congr 1
    funext m
    show Mapping.label (if i = j then _ else m) = _
    split <;> rfl
  · rw [mappings, Option.map_eq_some_iff] at found
    obtain ⟨m, held, rfl⟩ := found
    have tidy := sound.tidy held
    split <;> exact tidy
  · rw [tends.parkedAt_eq] at parks
    obtain ⟨m, held, single⟩ := sound.parked parks
    refine ⟨_, by rw [mappings, held, Option.map_some], ?_⟩
    split <;> exact single

/-- A mapping that has a listener more is in order. -/
theorem Sound.addListener (sound : s.Sound) (i : UInt16) (listener : Listener) :
    (s.addListener i listener).2.Sound :=
  addListener_eq_relisten s i listener ▸ sound.relisten i _

/-- Mappings stay what they were configured as. -/
theorem held_step (sound : s.Sound) (held : s.mappings[i]? = some m) (op : MappingOp) :
    ∃ m' : Mapping, (s.step op).mappings[i]? = some m' ∧ m'.label = m.label := by
  have kept := step_keeps (s := s) (P := fun t => t.Sound ∧ ∃ m' : Mapping,
    t.mappings[i]? = some m' ∧ m'.label = m.label) ?_ ⟨sound, m, held, rfl⟩ op
  · exact kept.2
  · rintro t op single ⟨sound, m', held, label⟩
    refine ⟨sound.step op, t.turned i op m', ?_, (t.label_turned i op m').trans label⟩
    rw [getElem?_step sound single, held, Option.map_some]

theorem held_after (sound : s.Sound) (held : s.mappings[i]? = some m) (ops : List MappingOp) :
    ∃ m' : Mapping, (s.after ops).mappings[i]? = some m' ∧ m'.label = m.label := by
  induction ops generalizing s m with
  | nil => exact ⟨m, held, rfl⟩
  | cons op ops ih =>
    obtain ⟨m', held', label⟩ := held_step sound held op
    obtain ⟨m'', held'', label'⟩ := ih (sound.step op) held'
    exact ⟨m'', held'', label'.trans label⟩

theorem Sound.parkedAt_of_replicated (sound : s.Sound) (held : s.mappings[i]? = some m)
    (shared : m.replication.isReplicated = true) (n : Nat) : s.parkedAt i n = none := by
  cases parks : s.parkedAt i n with
  | none => rfl
  | some entries =>
    obtain ⟨m', held', single⟩ := sound.parked parks
    obtain rfl := Option.some.inj (held.symm.trans held')
    rw [shared] at single
    cases single

/-- A copy that every node keeps is not handed off. -/
theorem turned_of_replicated (sound : s.Sound) (held : s.mappings[i]? = some m)
    (shared : m.replication.isReplicated = true) (op : MappingOp) :
    (s.turned i op m).entries = (s.changesOn i op).foldl Mapping.changed m.entries := by
  have stays : ∀ u : MappingService, u.vacated m = m := by
    intro u
    refine if_neg fun heir => ?_
    rw [replicated_of_heir? heir] at shared
    cases shared
  cases op with
  | submit call ticket => simp [turned, Mapping.committed, changesOn, heardOn]
  | handle call => simp [turned, Mapping.committed, changesOn, heardOn]
  | complete requestId reply =>
    simp [turned, settled, sound.parkedAt_of_replicated held shared, changesOn, madeOn, heardOn]
  | disconnect peer => rfl
  | hear event => simp [turned, Mapping.heard, changesOn, madeOn, heardOn, held]
  | flush now force =>
    simp only [turned, Mapping.flushed]
    split <;> rfl
  | govern live => rw [turned, stays]; rfl
  | resume => rw [turned, stays]; rfl

theorem getElem?_step_of_replicated (sound : s.Sound) (held : s.mappings[i]? = some m)
    (shared : m.replication.isReplicated = true) (op : MappingOp) :
    (s.step op).mappings[i]? = some (s.turned i op m) := by
  cases op with
  | disconnect peer =>
    refine (disconnect_keeps (P := fun t => t.Sound ∧ t.mappings[i]? = some m) ?_
      ⟨sound, held⟩ peer).2
    rintro t requestId failure ⟨sound, held⟩
    refine ⟨sound.step (.complete requestId (.error failure)), ?_⟩
    rw [getElem?_callCompleted sound.toIndexed, held, Option.map_some]
    simp [settled, sound.parkedAt_of_replicated held shared]
  | _ =>
    rw [getElem?_step sound, held, Option.map_some]
    exact fun peer eq => by cases eq

/-! ## Services of several nodes -/

section Nodes

variable {nodes : NodeName → Option MappingService} {x y : NodeName}

/-- The services of several nodes after something happened to one of them. -/
def stepAt (nodes : NodeName → Option MappingService) (x : NodeName) (op : MappingOp)
    (y : NodeName) : Option MappingService :=
  if y = x then (nodes x).map (·.step op) else nodes y

/-- What an operation has the service of a node ask for. -/
def emittedAt (nodes : NodeName → Option MappingService) (x : NodeName) (op : MappingOp) :
    List MappingEffect :=
  match nodes x with
  | some s => s.emitted op
  | none => []

theorem stepAt_self (there : nodes x = some s) (op : MappingOp) :
    stepAt nodes x op x = some (s.step op) := by
  rw [stepAt, if_pos rfl, there, Option.map_some]

theorem stepAt_of_ne (ne : y ≠ x) (op : MappingOp) : stepAt nodes x op y = nodes y := if_neg ne

theorem stepAt_of_absent (absent : nodes x = none) (op : MappingOp) :
    stepAt nodes x op = nodes := by
  funext y
  by_cases same : y = x
  · rw [stepAt, if_pos same, absent, same, absent, Option.map_none]
  · exact stepAt_of_ne same op

theorem emittedAt_of_there (there : nodes x = some s) (op : MappingOp) :
    emittedAt nodes x op = s.emitted op := by
  rw [emittedAt, there]

theorem emittedAt_of_absent (absent : nodes x = none) (op : MappingOp) :
    emittedAt nodes x op = [] := by
  rw [emittedAt, absent]

theorem exists_of_mem_emittedAt {effect : MappingEffect} (emitted : effect ∈ emittedAt nodes x op) :
    ∃ s, nodes x = some s ∧ effect ∈ s.emitted op := by
  cases there : nodes x with
  | none =>
    rw [emittedAt_of_absent there] at emitted
    cases emitted
  | some s => exact ⟨s, rfl, emittedAt_of_there there op ▸ emitted⟩

/-- A node is as it was, or it is the one to which something happened. -/
theorem of_stepAt (found : stepAt nodes x op y = some t) :
    (y ≠ x ∧ nodes y = some t) ∨ ∃ s, nodes x = some s ∧ y = x ∧ t = s.step op := by
  by_cases same : y = x
  · rw [stepAt, if_pos same, Option.map_eq_some_iff] at found
    obtain ⟨s, there, eq⟩ := found
    exact .inr ⟨s, there, same, eq.symm⟩
  · exact .inl ⟨same, (stepAt_of_ne same op).symm.trans found⟩

/-- What happens to a node brings none and takes none away. -/
theorem stepAt_eq_none_iff : stepAt nodes x op y = none ↔ nodes y = none := by
  by_cases same : y = x
  · rw [stepAt, if_pos same, Option.map_eq_none_iff, same]
  · rw [stepAt_of_ne same]

end Nodes

end MappingService

end Cohort

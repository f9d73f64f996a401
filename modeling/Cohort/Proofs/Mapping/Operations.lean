import Cohort.Proofs.Mapping.Service

/-!
# The functions of a mapping service

What each function of the service does to the mappings, one at a time: which changes it makes, what
it parks with a call to another node or brings back, and what it publishes. Nothing but the
mappings, the pending calls and the outbox is ever touched.

## Main definitions

* `Mapping.committed`, `Mapping.heard`, `Mapping.flushed`, `Mapping.regained`: a mapping after what
  may happen to it.
* `MappingService.Elsewhere`: nothing happens to one mapping.
* `MappingService.Tends`: only the mappings and the outbox differ.

## Main statements

* `MappingService.commit_eq`, `MappingService.submit_cases`, `MappingService.handleCall_cases`,
  `MappingService.hear_cases`, `MappingService.resumeHandOffs_cases`,
  `MappingService.callCompleted_cases`.
-/

namespace Cohort

open MappingService (syncEvent)

namespace Mapping

/-- A mapping after changes that were made here. -/
def committed (m : Mapping) (changes : List Change) : Mapping :=
  { m with
    entries := changes.foldl changed m.entries
    dirty := match m.replication with
      | .batched _ => m.dirty.insertMany changes
      | _ => m.dirty }

/-- A mapping after changes that were made elsewhere. -/
def heard (m : Mapping) (changes : List Change) : Mapping :=
  { m with entries := changes.foldl changed m.entries }

/-- A mapping whose entries were handed off. -/
def emptied (m : Mapping) : Mapping := { m with entries := ∅ }

/-- A mapping that gets entries back but for keys that are there again. -/
def regained (m : Mapping) (entries : Entries) : Mapping :=
  { m with
    entries := entries.toList.foldl (fun kept entry => kept.insertIfNew entry.1 entry.2) m.entries }

/-- What is published at once of changes that were made here. -/
def committedNews (m : Mapping) (changes : List Change) : List NodeEvent :=
  match m.replication with
  | .immediate => if changes.isEmpty then [] else [syncEvent m (.ofList changes)]
  | _ => []

/-- Whether a flush publishes what is dirty. -/
def flushes (m : Mapping) (now : Nat) (force : Bool) : Bool :=
  match m.replication with
  | .batched interval => !m.dirty.isEmpty && (m.isDue interval now || force)
  | _ => false

/-- A mapping after a flush. -/
def flushed (m : Mapping) (now : Nat) (force : Bool) : Mapping :=
  if m.flushes now force then { m with dirty := ∅, lastFlush := some now } else m

/-- What a flush publishes. -/
def flushedNews (now : Nat) (force : Bool) (m : Mapping) : List NodeEvent :=
  if m.flushes now force then [syncEvent m m.dirty] else []

theorem apply_fst (m : Mapping) (changes : List Change) :
    (m.apply changes).1 = m.heard changes := by
  induction changes generalizing m with
  | nil => rfl
  | cons change changes ih => exact ih (m.applyOne change).1

@[simp] theorem label_flushed (m : Mapping) (now : Nat) (force : Bool) :
    (m.flushed now force).label = m.label := by
  unfold flushed
  split <;> rfl

@[simp] theorem committed_nil (m : Mapping) : m.committed [] = m := by
  unfold committed
  cases shared : m.replication <;> simp [← shared]

end Mapping

namespace MappingService

variable {s s' t : MappingService} {m m' : Mapping} {i : UInt16} {call : MappingCall}

/-- An event that another node published reaches the service. -/
def hear (s : MappingService) : NodeEvent → MappingService
  | .cacheData cache data => (s.cacheData cache data).2
  | _ => s

/-! ## What the parts of an operation do -/

@[simp] theorem mappings_emit (s : MappingService) (effect : MappingEffect) :
    (s.emit effect).mappings = s.mappings := rfl

@[simp] theorem mappings_answer (s : MappingService) (ticket : Ticket) (reply : MappingReply) :
    (s.answer ticket reply).mappings = s.mappings := rfl

@[simp] theorem mappings_sendCall (s : MappingService) (peer : NodeName) (call : MappingCall)
    (waiter : CallWaiter) : (s.sendCall peer call waiter).mappings = s.mappings := rfl

/-- A commit puts the changed mapping in its place, tells the listeners and publishes what the
mapping's replication asks for. -/
theorem commit_eq (s : MappingService) (m : Mapping) (changes : List Change) :
    s.commit m changes = { s with
      mappings := s.mappings.insert m.index (m.committed changes)
      outbox := s.outbox ++ ((m.apply changes).2.map .told ++
        (m.committedNews changes).map .broadcast) } := by
  have applied : (m.apply changes).1 =
      { m with entries := changes.foldl Mapping.changed m.entries } :=
    m.apply_fst changes
  -- a batched mapping is put in its place twice, the second time with its changes to be told
  have again : ∀ (table : Std.ExtTreeMap UInt16 Mapping) (a b : Mapping),
      (table.insert m.index a).insert m.index b = table.insert m.index b := by
    intro table a b
    refine Std.ExtTreeMap.ext_getElem? fun j => ?_
    simp only [Std.ExtTreeMap.getElem?_insert]
    split <;> rfl
  cases changes with
  | nil =>
    have same : m.committed [] = m := m.committed_nil
    have silent : m.committedNews [] = [] := by
      unfold Mapping.committedNews
      split <;> rfl
    rw [same, silent]
    simp [commit, Mapping.apply, store, emitTold, propagate]
  | cons change rest =>
    unfold commit propagate Mapping.committed Mapping.committedNews
    simp only [applied, store, emitTold, emit, List.isEmpty_cons, Bool.false_eq_true, if_false]
    cases shared : m.replication with
    | immediate => simp [syncEvent, Mapping.syncCall, Mapping.cacheName]
    | batched interval => simp [again]
    | single => simp

/-! ## Calls -/

/-- Whether calls of callers here on a mapping run here. -/
def servesOwn (s : MappingService) (i : UInt16) : Bool :=
  match s.mappings[i]? with
  | some m => m.replication.isReplicated || s.ring.masterOf m.id = some s.node
  | none => false

/-- Whether a call of another node runs here. -/
def servesOthers (s : MappingService) (call : MappingCall) : Bool :=
  match s.mappings[call.index]? with
  | some m => !m.replication.isReplicated &&
    (match call with
      | .handOff .. => true
      | _ => s.ring.masterOf m.id = some s.node)
  | none => false

/-- The changes that a call makes where it runs. -/
def changesBy (s : MappingService) (call : MappingCall) : List Change :=
  match s.mappings[call.index]? with
  | some m =>
    match m.plan call with
    | .ok (changes, _) => changes
    | .error _ => []
  | none => []

/-- A call that runs on a mapping here fails, or makes its changes and succeeds. -/
theorem run_cases (held : s.mappings[call.index]? = some m) :
    ((∃ failure, s.run call = (.error failure, s)) ∧ s.changesBy call = []) ∨
      ∃ reply, s.run call = (.ok reply, s.commit m (s.changesBy call)) := by
  have found : s.mapping? call.index = .ok m := by rw [mapping?, held]
  unfold run changesBy
  rw [found, held]
  cases planned : m.plan call with
  | error failure => exact .inl ⟨⟨failure, by simp [planned]⟩, by simp [planned]⟩
  | ok outcome => exact .inr ⟨outcome.2, by simp [planned]⟩

theorem replication?_of_held (held : s.mappings[i]? = some m) :
    s.replication? i = .ok m.replication := by
  rw [replication?, mapping?, held]
  rfl

/-- A call of a caller here runs here, is refused, or is sent to the master. -/
theorem submit_cases (s : MappingService) (call : MappingCall) (ticket : Ticket) :
    (s.servesOwn call.index = true ∧ s.submit call ticket = s.runFor call ticket) ∨
    (s.servesOwn call.index = false ∧
      ((∃ failure, s.submit call ticket = s.answer ticket (.error failure)) ∨
        ∃ master, s.submit call ticket = s.sendCall master call (.reply ticket))) := by
  cases held : s.mappings[call.index]? with
  | none =>
    refine .inr ⟨by rw [servesOwn, held], .inl ⟨.unknownMapping, ?_⟩⟩
    simp [submit, replication?, mapping?, held, Except.map]
  | some m =>
    simp only [submit, replication?_of_held held, servesOwn, masterOf, held]
    cases shared : m.replication.isReplicated with
    | true => exact .inl ⟨rfl, rfl⟩
    | false =>
      cases mastered : s.ring.masterOf m.id with
      | none => exact .inr ⟨by simp, .inl ⟨.noMaster, by simp⟩⟩
      | some master =>
        by_cases here : master = s.node
        · exact .inl ⟨by simp [here], by simp [here]⟩
        · exact .inr ⟨by simp [here], .inr ⟨master, by simp [here]⟩⟩

/-- A call of another node runs here, or is refused and changes nothing. -/
theorem handleCall_cases (s : MappingService) (call : MappingCall) :
    (s.servesOthers call = true ∧ s.handleCall call = s.run call) ∨
    (s.servesOthers call = false ∧ ∃ failure, s.handleCall call = (.error failure, s)) := by
  cases held : s.mappings[call.index]? with
  | none =>
    refine .inr ⟨by rw [servesOthers, held], .unknownMapping, ?_⟩
    simp [handleCall, replication?, mapping?, held, Except.map]
  | some m =>
    simp only [handleCall, replication?_of_held held, servesOthers, masterOf, held]
    cases shared : m.replication.isReplicated with
    | true => exact .inr ⟨rfl, .wrongMappingKind, by simp⟩
    | false =>
      by_cases here : s.ring.masterOf m.id = some s.node
      · cases call <;> exact .inl ⟨by simp [here], by simp [here]⟩
      · cases call
        case handOff => exact .inl ⟨by simp, by simp⟩
        all_goals exact .inr ⟨by simp [here], .notMaster, by simp [here]⟩

theorem submit_of_serves (serves : s.servesOwn call.index = true) (ticket : Ticket) :
    s.submit call ticket = s.runFor call ticket := by
  obtain ⟨-, ran⟩ | ⟨unserved, -⟩ := s.submit_cases call ticket
  · exact ran
  · cases serves.symm.trans unserved

theorem handleCall_of_serves (serves : s.servesOthers call = true) :
    s.handleCall call = s.run call := by
  obtain ⟨-, ran⟩ | ⟨unserved, -⟩ := s.handleCall_cases call
  · exact ran
  · cases serves.symm.trans unserved

theorem held_of_servesOwn (serves : s.servesOwn i = true) : ∃ m, s.mappings[i]? = some m := by
  unfold servesOwn at serves
  split at serves
  next m held => exact ⟨m, held⟩
  next => cases serves

theorem held_of_servesOthers (serves : s.servesOthers call = true) :
    ∃ m, s.mappings[call.index]? = some m ∧ m.replication.isReplicated = false := by
  unfold servesOthers at serves
  split at serves
  next m held => exact ⟨m, held, by simp_all⟩
  next => cases serves

/-! ## One mapping and the others -/

/-- Nothing happens to one mapping. -/
structure Elsewhere (i : UInt16) (s t : MappingService) : Prop where
  mapping : t.mappings[i]? = s.mappings[i]?
  parked : ∀ n, s.Numbered → t.parkedAt i n = s.parkedAt i n
  numbered : s.Numbered → t.Numbered
  lastRequest : s.lastRequest ≤ t.lastRequest
  ring : t.ring = s.ring
  node : t.node = s.node

namespace Elsewhere

theorem refl (i : UInt16) (s : MappingService) : Elsewhere i s s :=
  ⟨rfl, fun _ _ => rfl, id, Nat.le_refl _, rfl, rfl⟩

theorem trans (first : Elsewhere i s s') (second : Elsewhere i s' t) : Elsewhere i s t where
  mapping := second.mapping.trans first.mapping
  parked n numbered := (second.parked n (first.numbered numbered)).trans (first.parked n numbered)
  numbered numbered := second.numbered (first.numbered numbered)
  lastRequest := Nat.le_trans first.lastRequest second.lastRequest
  ring := second.ring.trans first.ring
  node := second.node.trans first.node

theorem store (other : m.index ≠ i) : Elsewhere i s (s.store m) where
  mapping := (getElem?_store s m i).trans (if_neg other)
  parked _ _ := rfl
  numbered := id
  lastRequest := Nat.le_refl _
  ring := rfl
  node := rfl

theorem emit (effect : MappingEffect) : Elsewhere i s (s.emit effect) :=
  ⟨rfl, fun _ _ => rfl, id, Nat.le_refl _, rfl, rfl⟩

theorem foldl {α : Type} {f : MappingService → α → MappingService} {as : List α}
    (each : ∀ a ∈ as, ∀ s, Elsewhere i s (f s a)) (s : MappingService) :
    Elsewhere i s (as.foldl f s) := by
  induction as generalizing s with
  | nil => exact refl i s
  | cons a as ih =>
    have first := each a List.mem_cons_self s
    exact first.trans (ih (fun b there => each b (List.mem_cons_of_mem _ there)) (f s a))

end Elsewhere

theorem parkedAt_sendCall (s : MappingService) (peer : NodeName) (call : MappingCall)
    (waiter : CallWaiter) (i : UInt16) (n : Nat) :
    (s.sendCall peer call waiter).parkedAt i n =
      if n = s.lastRequest + 1 then PendingCall.parks i ⟨peer, waiter⟩ else s.parkedAt i n := by
  unfold parkedAt
  show ((s.pending.insert (s.lastRequest + 1) ⟨peer, waiter⟩)[n]?).bind _ = _
  simp only [Std.ExtTreeMap.getElem?_insert, Std.compare_eq_iff_eq, eq_comm (a := n)]
  split <;> rfl

theorem Numbered.parkedAt_eq_none {n : Nat} (numbered : s.Numbered) (late : s.lastRequest < n) :
    s.parkedAt i n = none := by
  cases found : s.pending[n]? with
  | none => rw [parkedAt, found, Option.bind_none]
  | some pending => exact absurd (numbered _ _ found) (Nat.not_le_of_lt late)

theorem Numbered.sendCall (numbered : s.Numbered) (peer : NodeName) (call : MappingCall)
    (waiter : CallWaiter) : (s.sendCall peer call waiter).Numbered := by
  intro n pending found
  replace found : (s.pending.insert (s.lastRequest + 1) ⟨peer, waiter⟩)[n]? = some pending := found
  show n ≤ s.lastRequest + 1
  rw [Std.ExtTreeMap.getElem?_insert] at found
  split at found
  next eq => exact Nat.le_of_eq (Std.compare_eq_iff_eq.1 eq).symm
  next => exact Nat.le_succ_of_le (numbered _ _ found)

theorem Elsewhere.sendCall {peer : NodeName} {call : MappingCall} {waiter : CallWaiter}
    (other : PendingCall.parks i ⟨peer, waiter⟩ = none) :
    Elsewhere i s (s.sendCall peer call waiter) where
  mapping := rfl
  parked n numbered := by
    rw [parkedAt_sendCall, other]
    split
    next eq => rw [numbered.parkedAt_eq_none (eq ▸ Nat.lt_succ_self _)]
    next => rfl
  numbered numbered := numbered.sendCall peer call waiter
  lastRequest := Nat.le_succ _
  ring := rfl
  node := rfl

/-- The node that a mapping is to be handed to, if it is kept here and mastered elsewhere. -/
def heir? (s : MappingService) (m : Mapping) : Option NodeName :=
  if m.replication.isReplicated || m.entries.isEmpty then none
  else (s.ring.masterOf m.id).filter (· ≠ s.node)

theorem handOffOne_eq (s : MappingService) (m : Mapping) :
    s.handOffOne m = match s.heir? m with
      | none => s
      | some master => (s.store m.emptied).sendCall master
          (.handOff m.index m.entries.keys m.entries.values) (.handOff m.index m.entries) := by
  unfold handOffOne heir?
  split
  · rfl
  cases s.ring.masterOf m.id with
  | none => rfl
  | some master =>
    by_cases here : master = s.node <;> simp [here, Option.filter_some, Mapping.emptied]

theorem Elsewhere.handOffOne (other : m.index ≠ i) : Elsewhere i s (s.handOffOne m) := by
  rw [handOffOne_eq]
  cases s.heir? m with
  | none => exact refl i s
  | some master =>
    have kept : Elsewhere i s (s.store m.emptied) := store other
    refine kept.trans (sendCall ?_)
    exact if_neg other

theorem Elsewhere.flushOne {now : Nat} {force : Bool} (other : m.index ≠ i) :
    Elsewhere i s (s.flushOne now force m) := by
  unfold MappingService.flushOne
  split
  · split
    · exact refl i s
    split
    · refine trans (store ?_) (emit _)
      exact other
    · exact refl i s
  · exact refl i s

/-- Only the mappings and what is to be done differ. -/
def Tends (s t : MappingService) : Prop :=
  t = { s with mappings := t.mappings, outbox := t.outbox }

theorem Tends.refl (s : MappingService) : s.Tends s := rfl

theorem Tends.trans (first : s.Tends s') (second : s'.Tends t) : s.Tends t := by
  unfold Tends at *
  rw [second, first]

theorem Tends.pending_eq (tends : s.Tends t) : t.pending = s.pending := by rw [tends]

theorem Tends.parkedAt_eq (tends : s.Tends t) (i : UInt16) (n : Nat) :
    t.parkedAt i n = s.parkedAt i n := by
  rw [parkedAt, parkedAt, tends.pending_eq]

theorem Tends.lastRequest_eq (tends : s.Tends t) : t.lastRequest = s.lastRequest := by rw [tends]

theorem Tends.indexOf_eq (tends : s.Tends t) : t.indexOf = s.indexOf := by rw [tends]

theorem Tends.numbered (tends : s.Tends t) (numbered : s.Numbered) : t.Numbered := by
  intro n pending found
  rw [tends.pending_eq] at found
  rw [tends.lastRequest_eq]
  exact numbered _ _ found

theorem commit_tends (s : MappingService) (m : Mapping) (changes : List Change) :
    s.Tends (s.commit m changes) := by
  rw [commit_eq]
  rfl

theorem run_tends (held : s.mappings[call.index]? = some m) : s.Tends (s.run call).2 := by
  obtain ⟨⟨failure, ran⟩, -⟩ | ⟨reply, ran⟩ := run_cases held
  · rw [ran]
    exact .refl s
  · rw [ran]
    exact commit_tends s m _

theorem getElem?_commit (s : MappingService) (m : Mapping) (changes : List Change) (j : UInt16) :
    (s.commit m changes).mappings[j]? =
      if m.index = j then some (m.committed changes) else s.mappings[j]? := by
  rw [commit_eq]
  simp only [Std.ExtTreeMap.getElem?_insert, Std.compare_eq_iff_eq]

theorem getElem?_run (indexed : s.Indexed) (held : s.mappings[call.index]? = some m) (j : UInt16) :
    (s.run call).2.mappings[j]? = s.mappings[j]?.map fun n =>
      n.committed (if call.index = j then s.changesBy call else []) := by
  obtain ⟨⟨failure, ran⟩, none⟩ | ⟨reply, ran⟩ := run_cases held
  · simp [ran, none]
  · rw [ran, getElem?_commit, indexed.placed held]
    split
    next eq => rw [← eq, held, Option.map_some]
    next => simp

theorem getElem?_submit (indexed : s.Indexed) (call : MappingCall) (ticket : Ticket) (j : UInt16) :
    (s.submit call ticket).mappings[j]? =
      s.mappings[j]?.map fun m => m.committed
        (if call.index = j ∧ s.servesOwn call.index then s.changesBy call else []) := by
  obtain ⟨serves, ran⟩ | ⟨serves, ⟨failure, refused⟩ | ⟨master, sent⟩⟩ := s.submit_cases call ticket
  · obtain ⟨m, held⟩ := held_of_servesOwn serves
    rw [ran, runFor, mappings_answer, getElem?_run indexed held]
    simp [serves]
  · simp [refused, serves]
  · simp [sent, serves]

theorem getElem?_handleCall (indexed : s.Indexed) (call : MappingCall) (j : UInt16) :
    (s.handleCall call).2.mappings[j]? =
      s.mappings[j]?.map fun m => m.committed
        (if call.index = j ∧ s.servesOthers call then s.changesBy call else []) := by
  obtain ⟨serves, ran⟩ | ⟨serves, failure, refused⟩ := s.handleCall_cases call
  · obtain ⟨m, held, -⟩ := held_of_servesOthers serves
    rw [ran, getElem?_run indexed held]
    simp [serves]
  · simp [refused, serves]

theorem handleCall_tends (s : MappingService) (call : MappingCall) :
    s.Tends (s.handleCall call).2 := by
  obtain ⟨serves, ran⟩ | ⟨-, failure, refused⟩ := s.handleCall_cases call
  · obtain ⟨m, held, -⟩ := held_of_servesOthers serves
    rw [ran]
    exact run_tends held
  · rw [refused]
    exact .refl s

/-! ## News -/

/-- News are about no mapping here, make no sense, or bring changes of one mapping. -/
theorem hear_cases (indexed : s.Indexed) (event : NodeEvent) :
    (s.hear event = s ∧
      ∀ (j : UInt16) (m : Mapping), s.mappings[j]? = some m → event.newsOf m.id = []) ∨
      ∃ m : Mapping, s.mappings[m.index]? = some m ∧
        s.hear event = (s.store (m.heard (event.newsOf m.id))).emitTold
          (m.apply (event.newsOf m.id)).2 ∧
        ∀ (j : UInt16) (m' : Mapping), s.mappings[j]? = some m' → m'.index ≠ m.index →
          event.newsOf m'.id = [] := by
  cases event with
  | cacheData cache data =>
    simp only [hear, cacheData, NodeEvent.newsOf]
    cases about : mappingOfCache? cache with
    | none => exact .inl ⟨rfl, fun j m held => by simp⟩
    | some id =>
      -- whatever mapping bears the name is the one that is found
      have bears : ∀ (j : UInt16) (m : Mapping), s.mappings[j]? = some m →
          some id = some m.id → (s.index? id >>= s.mapping?) = .ok m := by
        intro j m held eq
        exact indexed.found_iff.2 ⟨by rw [indexed.placed held, held], (Option.some.inj eq).symm⟩
      cases found : s.index? id >>= s.mapping? with
      | error failure =>
        refine .inl ⟨by simp only [found], fun j m held => if_neg fun eq => ?_⟩
        cases found.symm.trans (bears j m held eq)
      | ok m =>
        obtain ⟨held, rfl⟩ := indexed.found_iff.1 found
        cases read : changesOf? data with
        | none => exact .inl ⟨by simp only [found], fun j m held => by simp⟩
        | some changes =>
          refine .inr ⟨m, held, by simp [found, Mapping.apply_fst], fun j m' held' other => ?_⟩
          refine if_neg fun eq => other ?_
          rw [Except.ok.inj (found.symm.trans (bears j m' held' eq))]
  | _ => exact .inl ⟨rfl, fun j m held => rfl⟩

theorem getElem?_hear (indexed : s.Indexed) (event : NodeEvent) (j : UInt16) :
    (s.hear event).mappings[j]? = s.mappings[j]?.map fun m => m.heard (event.newsOf m.id) := by
  obtain ⟨ignored, silent⟩ | ⟨m, held, heard, silent⟩ := hear_cases indexed event
  · rw [ignored]
    cases held : s.mappings[j]? with
    | none => rfl
    | some m =>
      rw [Option.map_some, silent j m held]
      rfl
  · rw [heard]
    show (s.store _).mappings[j]? = _
    rw [getElem?_store]
    split
    next eq =>
      replace eq : m.index = j := eq
      rw [← eq, held, Option.map_some]
    next ne =>
      cases held' : s.mappings[j]? with
      | none => rfl
      | some m' =>
        rw [Option.map_some, silent j m' held' fun eq => ne (eq ▸ indexed.placed held')]
        rfl

theorem hear_tends (indexed : s.Indexed) (event : NodeEvent) : s.Tends (s.hear event) := by
  obtain ⟨ignored, -⟩ | ⟨m, -, heard, -⟩ := hear_cases indexed event
  · rw [ignored]
    exact .refl s
  · rw [heard]
    rfl

/-! ## Telling the other nodes -/

theorem flushOne_eq (now : Nat) (force : Bool) (s : MappingService) (m : Mapping) :
    s.flushOne now force m =
      if m.flushes now force then
        (s.store (m.flushed now force)).emit (.broadcast (syncEvent m m.dirty))
      else s := by
  unfold flushOne Mapping.flushed Mapping.flushes
  cases m.replication with
  | batched interval =>
    cases m.dirty.isEmpty <;> cases due : (m.isDue interval now || force) <;> simp [due]
  | _ => rfl

theorem flushOne_tends (now : Nat) (force : Bool) (s : MappingService) (m : Mapping) :
    s.Tends (s.flushOne now force m) := by
  rw [flushOne_eq]
  split <;> rfl

theorem flush_tends (s : MappingService) (now : Nat) (force : Bool) :
    s.Tends (s.flush now force) := by
  have folded : ∀ (l : List Mapping) (s : MappingService),
      s.Tends (l.foldl (flushOne now force) s) := by
    intro l
    induction l with
    | nil => exact .refl
    | cons m l ih => exact fun s => (flushOne_tends now force s m).trans (ih _)
  exact folded s.mappings.values s

theorem getElem?_flush (indexed : s.Indexed) (now : Nat) (force : Bool) (j : UInt16) :
    (s.flush now force).mappings[j]? = s.mappings[j]?.map fun m => m.flushed now force := by
  unfold flush
  cases held : s.mappings[j]? with
  | none =>
    have apart := indexed.index_ne_of_unheld held
    rw [(Elsewhere.foldl (fun m there s => .flushOne (apart m there)) s).mapping, held]
    rfl
  | some m =>
    obtain ⟨before, after, split, apart⟩ := indexed.values_split held
    -- the other mappings have their turns before and after this one, and leave it alone
    have first : ∀ s, Elsewhere j s (before.foldl (flushOne now force) s) :=
      Elsewhere.foldl fun m there s => .flushOne (apart m (List.mem_append_left _ there))
    have last : ∀ s, Elsewhere j s (after.foldl (flushOne now force) s) :=
      Elsewhere.foldl fun m there s => .flushOne (apart m (List.mem_append_right _ there))
    rw [split, List.foldl_append, List.foldl_cons, (last _).mapping, flushOne_eq]
    cases flushes : m.flushes now force with
    | true =>
      rw [if_pos rfl, mappings_emit, getElem?_store, if_pos, Option.map_some]
      rw [← indexed.placed held]
      exact congrArg Prod.fst (m.label_flushed now force)
    | false =>
      rw [if_neg Bool.false_ne_true, (first s).mapping, held, Option.map_some, Mapping.flushed,
        flushes, if_neg Bool.false_ne_true]

theorem outbox_flush (s : MappingService) (now : Nat) (force : Bool) :
    (s.flush now force).outbox =
      s.outbox ++ (s.mappings.values.flatMap (Mapping.flushedNews now force)).map .broadcast := by
  have folded : ∀ (l : List Mapping) (s : MappingService),
      (l.foldl (flushOne now force) s).outbox =
        s.outbox ++ (l.flatMap (Mapping.flushedNews now force)).map .broadcast := by
    intro l
    induction l with
    | nil => simp
    | cons m l ih =>
      intro s
      rw [List.foldl_cons, ih, flushOne_eq, List.flatMap_cons, Mapping.flushedNews]
      split <;> simp [emit, store]
  exact folded s.mappings.values s

/-! ## Handing copies off and getting them back -/

/-- A mapping after copies were handed to their masters. -/
def vacated (s : MappingService) (m : Mapping) : Mapping :=
  if (s.heir? m).isSome then m.emptied else m

theorem heir?_congr (ring : s'.ring = s.ring) (node : s'.node = s.node) :
    s'.heir? = s.heir? := by
  funext m
  unfold heir?
  rw [ring, node]

theorem replicated_of_heir? (heir : (s.heir? m).isSome) : m.replication.isReplicated = false := by
  unfold heir? at heir
  split at heir
  next => cases heir
  next single =>
    rw [Bool.or_eq_true, not_or] at single
    exact Bool.eq_false_iff.2 single.1

/-- What becomes of one mapping when copies are handed to their masters: it stays, or its entries
are parked with a new call. -/
theorem resumeHandOffs_cases (indexed : s.Indexed) (numbered : s.Numbered)
    (held : s.mappings[i]? = some m) :
    s.resumeHandOffs.mappings[i]? = some (s.vacated m) ∧
      ((s.heir? m = none ∧ ∀ n, s.resumeHandOffs.parkedAt i n = s.parkedAt i n) ∨
        ∃ number, (s.heir? m).isSome ∧ s.lastRequest < number ∧ ∀ n,
          s.resumeHandOffs.parkedAt i n =
            if n = number then some m.entries else s.parkedAt i n) := by
  obtain ⟨before, after, split, apart⟩ := indexed.values_split held
  -- `t` is the service when it is this mapping's turn
  have first : Elsewhere i s (before.foldl handOffOne s) :=
    Elsewhere.foldl (fun m there s => .handOffOne (apart m (List.mem_append_left _ there))) s
  have last : ∀ s, Elsewhere i s (after.foldl handOffOne s) :=
    Elsewhere.foldl fun m there s => .handOffOne (apart m (List.mem_append_right _ there))
  set t := before.foldl handOffOne s with reached
  have numbered' := first.numbered numbered
  have whole : s.resumeHandOffs = after.foldl handOffOne (t.handOffOne m) := by
    rw [resumeHandOffs, split, List.foldl_append, List.foldl_cons]
  have place := indexed.placed held
  rw [whole, (last _).mapping, vacated, handOffOne_eq, heir?_congr first.ring first.node]
  cases heir : s.heir? m with
  | none =>
    refine ⟨first.mapping.trans held, .inl ⟨rfl, fun n => ?_⟩⟩
    rw [(last t).parked n numbered', first.parked n numbered]
  | some master =>
    have stored : (t.store m.emptied).Numbered := numbered'
    refine ⟨?_, .inr ⟨t.lastRequest + 1, rfl, Nat.lt_succ_of_le first.lastRequest, fun n => ?_⟩⟩
    · rw [mappings_sendCall, getElem?_store]
      exact if_pos place
    · rw [(last _).parked n (stored.sendCall _ _ _), parkedAt_sendCall]
      show (if n = t.lastRequest + 1 then _ else t.parkedAt i n) = _
      rw [first.parked n numbered]
      split
      · exact if_pos place
      · rfl

theorem getElem?_resumeHandOffs (sound : s.Sound) (j : UInt16) :
    s.resumeHandOffs.mappings[j]? = s.mappings[j]?.map s.vacated := by
  cases held : s.mappings[j]? with
  | none =>
    have apart := sound.index_ne_of_unheld held
    have aside := Elsewhere.foldl (i := j) (f := handOffOne)
      (fun m there s => .handOffOne (apart m there)) s
    rw [resumeHandOffs, aside.mapping, held]
    rfl
  | some m => exact (resumeHandOffs_cases sound.toIndexed sound.numbered held).1

/-- The service with the ministers that are due when the given nodes are alive. -/
def governed (s : MappingService) (live : NameSet) : MappingService :=
  if s.ministers live = s.ring.nodes then s
  else { s with ring := .ofNodes Ring.defaultShare (s.ministers live) }

theorem updateMinistry_eq (s : MappingService) (live : NameSet) :
    s.updateMinistry live = (s.governed live).resumeHandOffs := rfl

@[simp] theorem mappings_governed (s : MappingService) (live : NameSet) :
    (s.governed live).mappings = s.mappings := by
  unfold governed
  split <;> rfl

@[simp] theorem parkedAt_governed (s : MappingService) (live : NameSet) (i : UInt16) (n : Nat) :
    (s.governed live).parkedAt i n = s.parkedAt i n := by
  unfold governed
  split <;> rfl

@[simp] theorem lastRequest_governed (s : MappingService) (live : NameSet) :
    (s.governed live).lastRequest = s.lastRequest := by
  unfold governed
  split <;> rfl

/-- What becomes of a mapping when a call sent to another node ends. -/
def settled (s : MappingService) (i : UInt16) (requestId : Nat) (reply : MappingReply)
    (m : Mapping) : Mapping :=
  match s.parkedAt i requestId, reply with
  | some entries, .error _ => m.regained entries
  | _, _ => m

/-- Entries that come back fill the keys that are free. -/
theorem getElem?_regained (kept entries : Entries) (key : Bytes) :
    (entries.toList.foldl (fun kept entry => kept.insertIfNew entry.1 entry.2) kept)[key]? =
      kept[key]?.or entries[key]? := by
  let valueOf : Bytes × Bytes → Option Bytes :=
    fun entry => if entry.1 = key then some entry.2 else none
  have folded : ∀ (l : List (Bytes × Bytes)) (kept : Entries),
      (l.foldl (fun kept entry => kept.insertIfNew entry.1 entry.2) kept)[key]? =
        kept[key]?.or (l.findSome? valueOf) := by
    intro l
    induction l with
    | nil => simp
    | cons entry l ih =>
      intro kept
      rw [List.foldl_cons, ih, Std.ExtTreeMap.getElem?_insertIfNew, List.findSome?_cons]
      by_cases eq : entry.1 = key
      · subst eq
        cases held : kept[entry.1]? with
        | none => simp [Std.ExtTreeMap.mem_iff_isSome_getElem?, held, valueOf]
        | some value => simp [Std.ExtTreeMap.mem_iff_isSome_getElem?, held]
      · simp [eq, valueOf]
  rw [folded]
  congr 1
  cases found : entries.toList.findSome? valueOf with
  | none =>
    rw [List.findSome?_eq_none_iff] at found
    cases held : entries[key]? with
    | none => rfl
    | some value =>
      have there := found _ (Std.ExtTreeMap.mem_toList_iff_getElem?_eq_some.2 held)
      simp [valueOf] at there
  | some value =>
    obtain ⟨entry, there, eq⟩ := List.exists_of_findSome?_eq_some found
    simp only [valueOf] at eq
    split at eq
    next same =>
      obtain rfl := Option.some.inj eq
      rw [← same, Std.ExtTreeMap.mem_toList_iff_getElem?_eq_some.1 there]
    next => cases eq

/-- The service that no longer waits for a call. -/
def without (s : MappingService) (requestId : Nat) : MappingService :=
  { s with pending := s.pending.erase requestId }

theorem parkedAt_without (s : MappingService) (requestId : Nat) (i : UInt16) (n : Nat) :
    (s.without requestId).parkedAt i n = if requestId = n then none else s.parkedAt i n := by
  show ((s.pending.erase requestId)[n]?).bind _ = _
  rw [Std.ExtTreeMap.getElem?_erase]
  simp only [Std.compare_eq_iff_eq]
  split <;> rfl

/-- The end of a call tells a caller, or is about a copy that was handed off. -/
theorem callCompleted_cases (s : MappingService) (requestId : Nat) (reply : MappingReply) :
    (s.pending[requestId]? = none ∧ s.callCompleted requestId reply = s) ∨
    (∃ peer ticket, s.pending[requestId]? = some ⟨peer, .reply ticket⟩ ∧
      s.callCompleted requestId reply = (s.without requestId).answer ticket reply) ∨
    ∃ peer index entries, s.pending[requestId]? = some ⟨peer, .handOff index entries⟩ ∧
      s.callCompleted requestId reply =
        match reply with
        | .ok _ => s.without requestId
        | .error _ => (s.without requestId).restore index entries := by
  unfold callCompleted
  cases found : s.pending[requestId]? with
  | none => exact .inl ⟨rfl, rfl⟩
  | some pending =>
    obtain ⟨peer, ticket | ⟨index, entries⟩⟩ := pending
    · exact .inr (.inl ⟨peer, ticket, rfl, rfl⟩)
    · exact .inr (.inr ⟨peer, index, entries, rfl, rfl⟩)

theorem parkedAt_of_pending {peer : NodeName} {waiter : CallWaiter} {n : Nat}
    (found : s.pending[n]? = some ⟨peer, waiter⟩) :
    s.parkedAt i n = PendingCall.parks i ⟨peer, waiter⟩ := by
  rw [parkedAt, found]
  rfl

theorem restore_eq (s : MappingService) (index : UInt16) (entries : Entries) :
    s.restore index entries = match s.mappings[index]? with
      | some m => s.store (m.regained entries)
      | none => s := rfl

theorem getElem?_callCompleted (indexed : s.Indexed) (requestId : Nat) (reply : MappingReply)
    (j : UInt16) : (s.callCompleted requestId reply).mappings[j]? =
      s.mappings[j]?.map (s.settled j requestId reply) := by
  have stays : s.parkedAt j requestId = none →
      s.mappings[j]?.map (s.settled j requestId reply) = s.mappings[j]? := by
    intro unparked
    have same : s.settled j requestId reply = id := by
      funext m
      simp [settled, unparked]
    rw [same, Option.map_id_apply]
  obtain ⟨found, ended⟩ | ⟨peer, ticket, found, ended⟩ | ⟨peer, index, entries, found, ended⟩ :=
    s.callCompleted_cases requestId reply
  · rw [ended, stays]
    rw [parkedAt, found]
    rfl
  · rw [ended, stays (parkedAt_of_pending found)]
    rfl
  · have parks : s.parkedAt j requestId = if index = j then some entries else none :=
      parkedAt_of_pending found
    rw [ended]
    cases reply with
    | ok value =>
      show s.mappings[j]? = _
      unfold settled
      cases s.parkedAt j requestId <;> simp
    | error failure =>
      show ((s.without requestId).restore index entries).mappings[j]? = _
      rw [restore_eq]
      show (match s.mappings[index]? with
        | some m => _ | none => _ : MappingService).mappings[j]? = _
      by_cases eq : index = j
      · subst eq
        rw [if_pos rfl] at parks
        cases held : s.mappings[index]? with
        | none => exact held
        | some m =>
          simp only [getElem?_store, settled, parks, Option.map_some]
          exact if_pos (indexed.placed held)
      · rw [if_neg eq] at parks
        rw [stays parks]
        cases held : s.mappings[index]? with
        | none => rfl
        | some m =>
          simp only [getElem?_store]
          refine if_neg fun same => eq ?_
          rw [← same]
          exact (indexed.placed held).symm

theorem pending_callCompleted (s : MappingService) (requestId : Nat) (reply : MappingReply) :
    (s.callCompleted requestId reply).pending = s.pending.erase requestId ∧
      (s.callCompleted requestId reply).lastRequest = s.lastRequest ∧
      (s.callCompleted requestId reply).indexOf = s.indexOf := by
  obtain ⟨found, ended⟩ | ⟨peer, ticket, -, ended⟩ | ⟨peer, index, entries, -, ended⟩ :=
    s.callCompleted_cases requestId reply
  · rw [ended]
    refine ⟨(Std.ExtTreeMap.ext_getElem? fun n => ?_).symm, rfl, rfl⟩
    rw [Std.ExtTreeMap.getElem?_erase]
    split
    next eq => rw [← Std.compare_eq_iff_eq.1 eq, found]
    next => rfl
  · rw [ended]
    exact ⟨rfl, rfl, rfl⟩
  · rw [ended]
    cases reply with
    | ok value => exact ⟨rfl, rfl, rfl⟩
    | error failure =>
      simp only [restore_eq]
      cases (s.without requestId).mappings[index]? <;> exact ⟨rfl, rfl, rfl⟩

theorem parkedAt_callCompleted (s : MappingService) (requestId : Nat) (reply : MappingReply)
    (i : UInt16) (n : Nat) : (s.callCompleted requestId reply).parkedAt i n =
      if requestId = n then none else s.parkedAt i n := by
  rw [← parkedAt_without, parkedAt, parkedAt, (s.pending_callCompleted requestId reply).1]
  rfl

end MappingService

end Cohort

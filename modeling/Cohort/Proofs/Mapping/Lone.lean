import Cohort.Proofs.Mapping.Mastery

/-!
# A mapping as a map of its own

What the calls of callers do to a mapping that is kept in one place is what they do to a map that
nobody shares. A service stands in for such a map: at the master the service has the map's entries
and runs every call, and elsewhere it has none and sends the calls of its callers to the master.

## Main definitions

* `LoneMap`, `LoneMap.ask`: a map that nobody shares.
* `LoneMap.transcript`: what it answers to calls, one after the other.
* `MappingService.Proxies`: a service stands in for a map that is kept at the master.

## Main statements

* `Mapping.ask_lone`: what a call would do to a mapping is what it does to a map of its own.
* `MappingService.Proxies.submit_at_master`, `MappingService.Proxies.submit_elsewhere`,
  `MappingService.Proxies.run`, `MappingService.Proxies.callCompleted`: what happens to a service.
-/

namespace Cohort

/-! ## A map that nobody shares -/

/-- A map on which actions were registered. -/
structure LoneMap where
  entries : Entries
  valueActions : Std.ExtTreeMap String ValueAction
  mapActions : Std.ExtTreeMap String MapAction

/-- What a caller asked for, at a node and under a ticket. -/
structure Asked where
  node : NodeName
  ticket : Ticket
  call : MappingCall
  deriving DecidableEq

/-- Who waits for the answer. -/
def Asked.caller (asked : Asked) : NodeName × Ticket := (asked.node, asked.ticket)

namespace LoneMap

/-- The map after an action: a success makes its changes, and nothing else does anything. -/
def perform (m : LoneMap) : Attempted ActionOutcome → MappingReply × LoneMap
  | .ok outcome =>
    (.ok (some outcome.result),
      { m with entries := outcome.changes.foldl Mapping.changed m.entries })
  | .error _ => (.error .actionFailed, m)

/-- What the map answers to a call, and the map after it. It does not take part in hand-offs. -/
def ask (m : LoneMap) : MappingCall → MappingReply × LoneMap
  | .get _ key => (.ok m.entries[key]?, m)
  | .put _ key value => (.ok m.entries[key]?, { m with entries := m.entries.insert key value })
  | .remove _ key => (.ok m.entries[key]?, { m with entries := m.entries.erase key })
  | .sync _ keys values =>
    if keys.length = values.length then
      (.ok none, { m with entries := (keys.zip values).foldl Mapping.changed m.entries })
    else (.error .invalidParameters, m)
  | .withValue _ key action args =>
    match m.valueActions[action]? with
    | some run => m.perform (run key m.entries[key]? args)
    | none => (.error .unknownAction, m)
  | .withAll _ action args =>
    match m.mapActions[action]? with
    | some run => m.perform (run m.entries args)
    | none => (.error .unknownAction, m)
  | .handOff .. => (.error .wrongMappingKind, m)

/-- The map after calls, one after the other. -/
def after (m : LoneMap) (asked : List Asked) : LoneMap :=
  asked.foldl (fun m asked => (m.ask asked.call).2) m

/-- What the map answers to calls, one after the other. -/
def transcript (m : LoneMap) : List Asked → List (NodeName × Ticket × MappingReply)
  | [] => []
  | asked :: rest =>
    (asked.node, asked.ticket, (m.ask asked.call).1) :: (m.ask asked.call).2.transcript rest

theorem after_append_one (m : LoneMap) (ran : List Asked) (asked : Asked) :
    m.after (ran ++ [asked]) = ((m.after ran).ask asked.call).2 := by
  rw [after, List.foldl_append]
  rfl

theorem transcript_append_one (m : LoneMap) (ran : List Asked) (asked : Asked) :
    m.transcript (ran ++ [asked]) =
      m.transcript ran ++ [(asked.node, asked.ticket, ((m.after ran).ask asked.call).1)] := by
  induction ran generalizing m with
  | nil => rfl
  | cons first rest ih =>
    rw [List.cons_append, transcript, ih, transcript, List.cons_append]
    rfl

/-- No call changes what was registered. -/
theorem ask_registered (m : LoneMap) (call : MappingCall) :
    (m.ask call).2 = { m with entries := (m.ask call).2.entries } := by
  have performed : ∀ attempted : Attempted ActionOutcome,
      (m.perform attempted).2 = { m with entries := (m.perform attempted).2.entries } := by
    intro attempted
    cases attempted <;> rfl
  cases call with
  | sync i keys values =>
    simp only [ask]
    split <;> rfl
  | withValue i key action args =>
    simp only [ask]
    cases m.valueActions[action]? with
    | none => rfl
    | some run => exact performed _
  | withAll i action args =>
    simp only [ask]
    cases m.mapActions[action]? with
    | none => rfl
    | some run => exact performed _
  | _ => rfl

end LoneMap

/-- A mapping as a map of its own. -/
def Mapping.lone (m : Mapping) : LoneMap := ⟨m.entries, m.valueActions, m.mapActions⟩

/-- A call that callers make; nodes make hand-offs themselves. -/
def MappingCall.IsCallers : MappingCall → Prop
  | .handOff .. => False
  | _ => True

namespace Mapping

variable {m : Mapping} {call : MappingCall}

/-- What a call would do to a mapping is what it does to a map of its own. -/
theorem ask_lone (callers : call.IsCallers) (m : Mapping) :
    m.lone.ask call = match m.plan call with
      | .ok (changes, reply) => (.ok reply, (m.committed changes).lone)
      | .error failure => (.error failure, m.lone) := by
  cases call with
  | get i key => rfl
  | put i key value => rfl
  | remove i key => rfl
  | sync i keys values =>
    by_cases same : keys.length = values.length
    · simp only [plan, LoneMap.ask, if_pos same]
      rfl
    · simp only [plan, LoneMap.ask, if_neg same]
  | withValue i key action args =>
    simp only [plan, LoneMap.ask, lone]
    cases m.valueActions[action]? with
    | none => rfl
    | some run =>
      dsimp only
      generalize run key m.entries[key]? args = attempted
      cases attempted <;> rfl
  | withAll i action args =>
    simp only [plan, LoneMap.ask, lone]
    cases m.mapActions[action]? with
    | none => rfl
    | some run =>
      dsimp only
      generalize run m.entries args = attempted
      cases attempted <;> rfl
  | handOff => exact callers.elim

end Mapping

namespace MappingService

variable {s : MappingService} {call : MappingCall} {i : UInt16} {x master : NodeName}
  {lone : LoneMap} {ticket : Ticket}

/-- A call that runs on a mapping here does what it does to a map of its own. -/
theorem run_eq_ask {m : Mapping} (held : s.mappings[call.index]? = some m)
    (callers : call.IsCallers) :
    (s.run call).1 = (m.lone.ask call).1 ∧
      (m.committed (s.changesBy call)).lone = (m.lone.ask call).2 := by
  rw [Mapping.ask_lone callers]
  unfold MappingService.run changesBy
  rw [mapping?, held]
  cases planned : m.plan call with
  | error failure => exact ⟨by simp [planned], by simp [planned]⟩
  | ok outcome => exact ⟨by simp [planned], by simp [planned]⟩

/-- A service stands in for a map that is kept at the master: the service of the master has the
map's entries, and every other one has none. -/
structure Proxies (s : MappingService) (x : NodeName) (i : UInt16) (master : NodeName)
    (lone : LoneMap) : Prop where
  node : s.node = x
  indexed : s.Indexed
  numbered : s.Numbered
  mapping : ∃ m, s.mappings[i]? = some m ∧ m.replication = .single ∧
    s.ring.masterOf m.id = some master ∧
    m.lone = if x = master then lone else { lone with entries := ∅ }

namespace Proxies

/-- The entries of the map are kept at the master, and nowhere else. -/
theorem stock_eq (proxies : s.Proxies x i master lone) :
    s.stock i = if x = master then lone.entries else ∅ := by
  obtain ⟨m, held, -, -, same⟩ := proxies.mapping
  have entries : m.entries = m.lone.entries := rfl
  rw [stock_of_held held, entries, same]
  split <;> rfl

theorem masterOf_eq (proxies : s.Proxies x i master lone) : s.masterOf i = some master := by
  obtain ⟨m, held, single, mastered, -⟩ := proxies.mapping
  simp [masterOf, held, single, Replication.isReplicated, mastered]

theorem servesOwn_iff (proxies : s.Proxies x i master lone) :
    s.servesOwn i = true ↔ x = master := by
  obtain ⟨m, held, single, mastered, -⟩ := proxies.mapping
  simp [servesOwn, held, single, Replication.isReplicated, mastered, proxies.node, eq_comm]

theorem servesOthers_of_master (proxies : s.Proxies master i master lone)
    (about : call.index = i) : s.servesOthers call = true := by
  obtain ⟨m, held, single, mastered, -⟩ := proxies.mapping
  simp only [servesOthers, about, held, single, Replication.isReplicated, mastered, proxies.node]
  cases call <;> simp

/-- What changes no mapping lets a service stand in further on. -/
theorem congr {t : MappingService} (proxies : s.Proxies x i master lone)
    (abides : Abides s t) (mappings : t.mappings = s.mappings) (indexOf : t.indexOf = s.indexOf)
    (numbered : t.Numbered) : t.Proxies x i master lone where
  node := abides.node.trans proxies.node
  indexed := proxies.indexed.of_label indexOf fun j => by rw [mappings]
  numbered := numbered
  mapping := by
    rw [mappings, abides.ring]
    exact proxies.mapping

/-- A call that runs at the master does what it does to the map, and sends nothing anywhere. -/
theorem run (proxies : s.Proxies master i master lone) (about : call.index = i)
    (callers : call.IsCallers) :
    (s.run call).1 = (lone.ask call).1 ∧ (s.run call).2.Proxies master i master (lone.ask call).2 ∧
      (s.run call).2.pending = s.pending ∧
      ∃ effects, (s.run call).2.outbox = s.outbox ++ effects ∧
        ∀ effect ∈ effects, isNews effect = true := by
  obtain ⟨m, held, single, mastered, same⟩ := proxies.mapping
  rw [if_pos rfl] at same
  subst about same
  have tends := run_tends held
  have abides : Abides s (s.run call).2 := .of_tends tends
  obtain ⟨answered, made⟩ := run_eq_ask held callers
  have place : (s.run call).2.mappings[call.index]? = some (m.committed (s.changesBy call)) := by
    rw [getElem?_run proxies.indexed held, held, Option.map_some, if_pos rfl]
  refine ⟨answered, ?_, tends.pending_eq, outbox_run held⟩
  refine
    { node := abides.node.trans proxies.node
      indexed := proxies.indexed.of_label tends.indexOf_eq fun j => ?_
      numbered := tends.numbered proxies.numbered
      mapping := ⟨_, place, single, ?_, ?_⟩ }
  · rw [getElem?_run proxies.indexed held, Option.map_map]
    rfl
  · rw [abides.ring]
    exact mastered
  · rw [if_pos rfl, made]

/-- A call of a caller at the master runs at once, and is answered. -/
theorem submit_at_master (proxies : s.Proxies master i master lone) (about : call.index = i)
    (callers : call.IsCallers) (ticket : Ticket) :
    (s.submit call ticket).Proxies master i master (lone.ask call).2 ∧
      (s.submit call ticket).pending = s.pending ∧
      ∃ effects, (s.submit call ticket).outbox =
          s.outbox ++ (effects ++ [.answer ticket (lone.ask call).1]) ∧
        ∀ effect ∈ effects, isNews effect = true := by
  obtain ⟨answered, kept, pending, effects, grown, news⟩ := proxies.run about callers
  have ran : s.submit call ticket = (s.run call).2.answer ticket (s.run call).1 :=
    submit_of_serves (by rw [about, proxies.servesOwn_iff.2 rfl]) ticket
  rw [ran, answered]
  refine ⟨kept.congr ⟨rfl, rfl, rfl⟩ rfl rfl kept.numbered, pending, effects, ?_, news⟩
  show (s.run call).2.outbox ++ [_] = _
  rw [grown, List.append_assoc]

/-- A call of a caller elsewhere is sent to the master. -/
theorem submit_elsewhere (proxies : s.Proxies x i master lone) (other : x ≠ master)
    (about : call.index = i) (ticket : Ticket) :
    s.submit call ticket = s.sendCall master call (.reply ticket) := by
  have away : master ≠ s.node := fun here => other (proxies.node ▸ here.symm)
  obtain ⟨m, held, single, -⟩ := proxies.mapping
  have mastered := proxies.masterOf_eq
  subst about
  have known := replication?_of_held held
  simp [submit, known, single, Replication.isReplicated, mastered, away]

theorem sendCall (proxies : s.Proxies x i master lone) (peer : NodeName) (call : MappingCall)
    (waiter : CallWaiter) : (s.sendCall peer call waiter).Proxies x i master lone :=
  proxies.congr ⟨rfl, rfl, rfl⟩ rfl rfl (proxies.numbered.sendCall peer call waiter)

/-- A call that arrives at the master runs there. -/
theorem handleCall_eq (proxies : s.Proxies master i master lone) (about : call.index = i) :
    s.handleCall call = s.run call :=
  handleCall_of_serves (proxies.servesOthers_of_master about)

/-- An answer that comes back is handed to the caller that waits for it. -/
theorem callCompleted (proxies : s.Proxies x i master lone) {n : Nat} {peer : NodeName}
    (waits : s.pending[n]? = some ⟨peer, .reply ticket⟩) (reply : MappingReply) :
    (s.callCompleted n reply).Proxies x i master lone ∧
      (s.callCompleted n reply).pending = s.pending.erase n ∧
      (s.callCompleted n reply).outbox = s.outbox ++ [.answer ticket reply] := by
  have ended : s.callCompleted n reply = (s.without n).answer ticket reply := by
    rw [MappingService.callCompleted, waits]
    rfl
  refine ⟨?_, (s.pending_callCompleted n reply).1, by rw [ended]; rfl⟩
  refine proxies.congr (.callCompleted s n reply) ?_ (s.pending_callCompleted n reply).2.2 ?_
  · rw [ended]
    rfl
  · intro k pending found
    rw [(s.pending_callCompleted n reply).2.1]
    exact proxies.numbered k pending (older_callCompleted found)

/-- What a call does to the map concerns the master only. -/
theorem elsewhere (proxies : s.Proxies x i master lone) (other : x ≠ master) (call : MappingCall) :
    s.Proxies x i master (lone.ask call).2 where
  node := proxies.node
  indexed := proxies.indexed
  numbered := proxies.numbered
  mapping := by
    obtain ⟨m, held, single, mastered, same⟩ := proxies.mapping
    refine ⟨m, held, single, mastered, ?_⟩
    rw [if_neg other] at same ⊢
    rw [same, lone.ask_registered call]

end Proxies

/-- A service that was only configured, and then heard who is alive, stands in for the map that its
mapping is. -/
theorem Configured.proxies {live : NameSet} {m : Mapping} (configured : s.Configured)
    (held : s.mappings[i]? = some m) (single : m.replication = .single)
    (mastered : (Ring.ofNodes Ring.defaultShare (s.ministers live)).masterOf m.id = some master) :
    (s.updateMinistry live).Proxies s.node i master m.lone := by
  have blank := configured.blank
  rw [configured.updateMinistry_eq]
  refine
    { node := rfl
      indexed := blank.toIndexed.of_label rfl fun _ => rfl
      numbered := blank.sound.numbered
      mapping := ⟨m, held, single, mastered, ?_⟩ }
  have empty : m.lone = { m.lone with entries := ∅ } := by
    rw [← (blank.empty held).1]
    rfl
  split
  · rfl
  · exact empty

end MappingService

end Cohort

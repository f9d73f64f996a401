import Cohort.Proofs.Mapping.Turns

/-!
# Calls that fail

A call on a mapping may fail on the way to the copy or at the copy: the mapping is unknown, kept
elsewhere or of the wrong kind, or what the call brings along does not fit, or an action is missing
or fails. All of this is settled before anything is done. So a call that fails leaves the service as
it was, and nobody but its caller learns of it.

## Main definitions

* `Mapping.Refuses`: why a mapping refuses a call that runs on it.
* `MappingService.RefusesOwn`, `MappingService.RefusesOthers`: why a service refuses a call at once,
  of a caller here and of another node.

## Main statements

* `Mapping.plan_eq_error_iff`: a call fails on a mapping just for these reasons.
* `MappingService.failed_calls_change_nothing`: when calls fail, and that they change nothing then.
-/

namespace Cohort

namespace Mapping

/-- Why a mapping refuses a call that runs on it. -/
inductive Refuses (m : Mapping) : MappingCall → Failure → Prop where
  | unevenSync {i : UInt16} {keys : List Bytes} {values : List (Option Bytes)}
    (uneven : keys.length ≠ values.length) : m.Refuses (.sync i keys values) .invalidParameters
  | unevenHandOff {i : UInt16} {keys values : List Bytes} (uneven : keys.length ≠ values.length) :
    m.Refuses (.handOff i keys values) .invalidParameters
  | noValueAction {i : UInt16} {key args : Bytes} {action : String}
    (missing : m.valueActions[action]? = none) :
    m.Refuses (.withValue i key action args) .unknownAction
  | noMapAction {i : UInt16} {args : Bytes} {action : String}
    (missing : m.mapActions[action]? = none) : m.Refuses (.withAll i action args) .unknownAction
  /-- Logic that says it failed is taken like logic that breaks down. -/
  | valueActionFails {i : UInt16} {key args : Bytes} {action : String} {run : ValueAction}
    {fault : Fault} (known : m.valueActions[action]? = some run)
    (fails : run key m.entries[key]? args = .error fault) :
    m.Refuses (.withValue i key action args) .actionFailed
  | mapActionFails {i : UInt16} {args : Bytes} {action : String} {run : MapAction} {fault : Fault}
    (known : m.mapActions[action]? = some run) (fails : run m.entries args = .error fault) :
    m.Refuses (.withAll i action args) .actionFailed

theorem Refuses.plan_eq {m : Mapping} {call : MappingCall} {failure : Failure}
    (refuses : m.Refuses call failure) : m.plan call = .error failure := by
  cases refuses with
  | unevenSync uneven => exact if_neg uneven
  | unevenHandOff uneven => exact if_neg uneven
  | noValueAction missing => simp only [plan, missing]
  | noMapAction missing => simp only [plan, missing]
  | valueActionFails known fails => simp only [plan, known, fails]
  | mapActionFails known fails => simp only [plan, known, fails]

/-- A call fails on a mapping just if the mapping has a reason to refuse it. -/
theorem plan_eq_error_iff {m : Mapping} {call : MappingCall} {failure : Failure} :
    m.plan call = .error failure ↔ m.Refuses call failure := by
  refine ⟨fun planned => ?_, Refuses.plan_eq⟩
  cases call with
  | get i key => cases planned
  | put i key value => cases planned
  | remove i key => cases planned
  | sync i keys values =>
    simp only [plan] at planned
    split at planned
    next => cases planned
    next uneven => exact Except.error.inj planned ▸ .unevenSync uneven
  | handOff i keys values =>
    simp only [plan] at planned
    split at planned
    next => cases planned
    next uneven => exact Except.error.inj planned ▸ .unevenHandOff uneven
  | withValue i key action args =>
    simp only [plan] at planned
    split at planned
    next missing => exact Except.error.inj planned ▸ .noValueAction missing
    next run known =>
      split at planned
      next => cases planned
      next fails => exact Except.error.inj planned ▸ .valueActionFails known fails
  | withAll i action args =>
    simp only [plan] at planned
    split at planned
    next missing => exact Except.error.inj planned ▸ .noMapAction missing
    next run known =>
      split at planned
      next => cases planned
      next fails => exact Except.error.inj planned ▸ .mapActionFails known fails

end Mapping

namespace MappingService

variable {s : MappingService} {m : Mapping} {call : MappingCall} {failure : Failure}
  {ticket : Ticket}

/-- Why a service refuses a call of a caller here at once. -/
inductive RefusesOwn (s : MappingService) (call : MappingCall) : Failure → Prop where
  | unconfigured (unheld : s.mappings[call.index]? = none) : s.RefusesOwn call .unknownMapping
  | masterless {m : Mapping} (held : s.mappings[call.index]? = some m)
    (single : m.replication.isReplicated = false) (masterless : s.ring.masterOf m.id = none) :
    s.RefusesOwn call .noMaster
  | atCopy {m : Mapping} {failure : Failure} (held : s.mappings[call.index]? = some m)
    (serves : s.servesOwn call.index = true) (refuses : m.Refuses call failure) :
    s.RefusesOwn call failure

/-- Why a service refuses a call of another node. -/
inductive RefusesOthers (s : MappingService) (call : MappingCall) : Failure → Prop where
  | unconfigured (unheld : s.mappings[call.index]? = none) : s.RefusesOthers call .unknownMapping
  | wrongKind {m : Mapping} (held : s.mappings[call.index]? = some m)
    (shared : m.replication.isReplicated = true) : s.RefusesOthers call .wrongMappingKind
  /-- Entries that are handed off are taken whoever the master is. -/
  | notMaster {m : Mapping} (held : s.mappings[call.index]? = some m)
    (single : m.replication.isReplicated = false)
    (brings : ∀ i keys values, call ≠ .handOff i keys values)
    (elsewhere : s.ring.masterOf m.id ≠ some s.node) : s.RefusesOthers call .notMaster
  | atCopy {m : Mapping} {failure : Failure} (held : s.mappings[call.index]? = some m)
    (serves : s.servesOthers call = true) (refuses : m.Refuses call failure) :
    s.RefusesOthers call failure

/-! ## At the copy -/

theorem run_of_refuses (held : s.mappings[call.index]? = some m)
    (refuses : m.Refuses call failure) : s.run call = (.error failure, s) := by
  rw [run, mapping?, held]
  simp only [refuses.plan_eq]

theorem run_eq_error_iff (held : s.mappings[call.index]? = some m) :
    (s.run call).1 = .error failure ↔ m.Refuses call failure := by
  refine ⟨fun failed => ?_, fun refuses => by rw [run_of_refuses held refuses]⟩
  rw [run, mapping?, held] at failed
  cases planned : m.plan call with
  | error failure' =>
    simp only [planned, Except.error.injEq] at failed
    exact Mapping.plan_eq_error_iff.1 (failed ▸ planned)
  | ok outcome => simp [planned] at failed

/-! ## On the way to the copy -/

/-- A call of another node that is refused changes nothing. -/
theorem RefusesOthers.handleCall_eq (refuses : s.RefusesOthers call failure) :
    s.handleCall call = (.error failure, s) := by
  cases refuses with
  | unconfigured unheld => simp [handleCall, replication?, mapping?, unheld, Except.map]
  | wrongKind held shared => simp [handleCall, replication?_of_held held, shared]
  | notMaster held single brings elsewhere =>
    cases call with
    | handOff i keys values => exact absurd rfl (brings i keys values)
    | _ => simp [handleCall, replication?_of_held held, masterOf, held, single, elsewhere]
  | atCopy held serves refuses => rw [handleCall_of_serves serves, run_of_refuses held refuses]

/-- A call of a caller here that is refused changes nothing, but that the caller is told. -/
theorem RefusesOwn.submit_eq (refuses : s.RefusesOwn call failure) (ticket : Ticket) :
    s.submit call ticket = s.answer ticket (.error failure) := by
  cases refuses with
  | unconfigured unheld => simp [submit, replication?, mapping?, unheld, Except.map]
  | masterless held single masterless =>
    simp [submit, replication?_of_held held, single, masterOf, held, masterless]
  | atCopy held serves refuses =>
    rw [submit_of_serves serves, runFor, run_of_refuses held refuses]

/-- A call of another node succeeds, or there is a reason to refuse it. -/
theorem handleCall_ok_or_refuses (s : MappingService) (call : MappingCall) :
    (∃ reply, (s.handleCall call).1 = .ok reply) ∨ ∃ failure, s.RefusesOthers call failure := by
  cases held : s.mappings[call.index]? with
  | none => exact .inr ⟨_, .unconfigured held⟩
  | some m =>
    obtain ⟨serves, ran⟩ | ⟨unserved, -⟩ := s.handleCall_cases call
    · rw [ran]
      cases ended : (s.run call).1 with
      | ok reply => exact .inl ⟨reply, rfl⟩
      | error failure => exact .inr ⟨failure, .atCopy held serves ((run_eq_error_iff held).1 ended)⟩
    · -- what is not served is of the wrong kind, or mastered elsewhere
      rw [servesOthers, held] at unserved
      cases shared : m.replication.isReplicated with
      | true => exact .inr ⟨_, .wrongKind held shared⟩
      | false =>
        refine .inr ⟨_, .notMaster held shared ?_ fun here => ?_⟩
        · rintro i keys values rfl
          simp [shared] at unserved
        · cases call <;> simp [shared, here] at unserved

/-- A call of a caller here is refused, or runs here, or is sent to the master. -/
theorem submit_refuses_or_takes (s : MappingService) (call : MappingCall) (ticket : Ticket) :
    (∃ failure, s.RefusesOwn call failure) ∨
    (∃ m changes reply, s.submit call ticket = (s.commit m changes).answer ticket (.ok reply)) ∨
      ∃ master, s.submit call ticket = s.sendCall master call (.reply ticket) := by
  cases held : s.mappings[call.index]? with
  | none => exact .inl ⟨_, .unconfigured held⟩
  | some m =>
    obtain ⟨serves, ran⟩ | ⟨unserved, -⟩ := s.submit_cases call ticket
    · obtain ⟨⟨failure, failed⟩, -⟩ | ⟨reply, succeeded⟩ := run_cases held
      · have refuses := (run_eq_error_iff held).1 (congrArg Prod.fst failed)
        exact .inl ⟨failure, .atCopy held serves refuses⟩
      · exact .inr (.inl ⟨m, s.changesBy call, reply, by rw [ran, runFor, succeeded]⟩)
    · rw [servesOwn, held] at unserved
      obtain ⟨single, elsewhere⟩ := Bool.or_eq_false_iff.1 unserved
      cases mastered : s.ring.masterOf m.id with
      | none => exact .inl ⟨_, .masterless held single mastered⟩
      | some master =>
        have other : master ≠ s.node := by simpa [mastered] using elsewhere
        refine .inr (.inr ⟨master, ?_⟩)
        simp [submit, replication?_of_held held, single, masterOf, held, mastered, other]

/-- A caller here is told at once that its call has failed just if there is a reason to refuse
it. -/
theorem answer_error_mem_emitted_iff :
    .answer ticket (.error failure) ∈ s.emitted (.submit call ticket) ↔
      s.RefusesOwn call failure := by
  have emitted : ∀ effects, (s.submit call ticket).outbox = s.outbox ++ effects →
      s.emitted (.submit call ticket) = effects := fun effects grown => emitted_eq grown
  refine ⟨fun told => ?_, fun refuses => ?_⟩
  · obtain ⟨failure', refuses⟩ | ⟨m, changes, reply, ran⟩ | ⟨master, sent⟩ :=
      s.submit_refuses_or_takes call ticket
    · rw [emitted [.answer ticket (.error failure')] (by rw [refuses.submit_eq]; rfl)] at told
      cases List.mem_singleton.1 told
      exact refuses
    · -- what runs here tells listeners and other nodes, and answers with success
      rw [emitted _ (by rw [ran, commit_eq]; exact List.append_assoc ..)] at told
      simp at told
    · rw [emitted [.call master (s.lastRequest + 1) call] (by rw [sent]; rfl)] at told
      cases List.mem_singleton.1 told
  · rw [emitted [.answer ticket (.error failure)] (by rw [refuses.submit_eq]; rfl)]
    exact List.mem_singleton_self _

/-- A call fails just if there is a reason to refuse it where it goes, on its way or at the copy. If
it fails, the service is what it was before, but for the answer to a caller here: no entry and no
change to be told has changed, no listener was told, nothing was published or sent. -/
theorem failed_calls_change_nothing (s : MappingService) (call : MappingCall) (ticket : Ticket)
    (failure : Failure) :
    ((s.handleCall call).1 = .error failure ↔ s.RefusesOthers call failure) ∧
    ((s.handleCall call).1 = .error failure → (s.handleCall call).2 = s) ∧
    (.answer ticket (.error failure) ∈ s.emitted (.submit call ticket) ↔
      s.RefusesOwn call failure) ∧
    (.answer ticket (.error failure) ∈ s.emitted (.submit call ticket) →
      s.submit call ticket = s.answer ticket (.error failure)) := by
  have handled : (s.handleCall call).1 = .error failure ↔ s.RefusesOthers call failure := by
    refine ⟨fun failed => ?_, fun refuses => by rw [refuses.handleCall_eq]⟩
    obtain ⟨reply, succeeded⟩ | ⟨failure', refuses⟩ := s.handleCall_ok_or_refuses call
    · cases failed.symm.trans succeeded
    · rw [refuses.handleCall_eq] at failed
      exact Except.error.inj failed ▸ refuses
  refine ⟨handled, fun failed => ?_, answer_error_mem_emitted_iff, fun told => ?_⟩
  · rw [(handled.1 failed).handleCall_eq]
  · exact (answer_error_mem_emitted_iff.1 told).submit_eq ticket

/-- A node with a copy that it shares, on which an action breaks down, and one that it masters, on
which an action says that it fails. Both hold an entry, and a listener watches the shared one. -/
def brittleCopies : MappingService :=
  let s := ((fresh "a" 1).configure "shared" (.batched 10)).2
  let s := (s.configure "mastered" .single).2
  let s := (s.registerValueAction "shared" "break" fun _ _ _ => .error .crashed).2
  let s := (s.registerMapAction "mastered" "fail" fun _ _ => .error (.failed .codec)).2
  let s := (s.addListener 1 fun _ => ⟨[], .error .crashed⟩).2
  s.close.after [.submit (.put 1 [1] [10]) 1, .submit (.put 2 [2] [20]) 2]

theorem failed_calls_change_nothing_in_brittleCopies :
    let broken := MappingCall.withValue 1 [1] "break" []
    let failing := MappingCall.withAll 2 "fail" []
    brittleCopies.owed 1 = [([1], some [10])] ∧
      brittleCopies.submit broken 3 = brittleCopies.answer 3 (.error .actionFailed) ∧
      (brittleCopies.handleCall failing).1 = .error .actionFailed ∧
      (brittleCopies.handleCall failing).2 = brittleCopies := by
  intro broken failing
  have planned : brittleCopies.mappings[(1 : UInt16)]?.any fun m =>
      m.plan broken = .error .actionFailed := by decide +kernel
  obtain ⟨m, held, planned⟩ := (Option.any_eq_true _ _).1 planned
  have refuses : brittleCopies.RefusesOwn broken .actionFailed :=
    .atCopy held (by decide +kernel) (Mapping.plan_eq_error_iff.1 (of_decide_eq_true planned))
  have failed : (brittleCopies.handleCall failing).1 = .error .actionFailed := by decide +kernel
  obtain ⟨-, -, told, submitted⟩ :=
    failed_calls_change_nothing brittleCopies broken 3 .actionFailed
  obtain ⟨-, handled, -⟩ := failed_calls_change_nothing brittleCopies failing 3 .actionFailed
  have owes : brittleCopies.owed 1 = [([1], some [10])] := by decide +kernel
  exact ⟨owes, submitted (told.2 refuses), failed, handled failed⟩

end MappingService

end Cohort

import Cohort.Proofs.Node.Presence
import Mathlib.Data.List.Induction

/-!
# Refreshes that are asked for

A node that is asked to refresh while it consults the membership store remembers to consult it once
more after that. When the store answers with records, it does so. When the store fails to answer, it
forgets to: nothing is under way then, although a refresh is still noted as waiting.

## Main definitions

* `Node.trips`: how often the membership store was consulted.
* `Node.Aloof`: nothing happens about the membership store.
* `Node.DropsRefresh`: the store failed to answer last, while a refresh was waiting.

## Main statements

* `Node.step_refresh`, `Node.step_loaded_ok`, `Node.step_loaded_error`: what is under way, and what
  waits, after each command about the store.
* `Node.refresh_waits_in_vain_iff`: when a refresh waits for nothing.
* `Node.refresh_waits_in_vain`: a refresh does so when the first load fails.
-/

namespace Cohort

/-- Commands about the membership store. -/
def NodeCommand.IsRefresh : NodeCommand → Prop
  | .refresh | .loaded _ _ => True
  | _ => False

/-- Something happens about the membership store. -/
def Occurrence.IsRefresh : Occurrence → Prop
  | .command given => given.IsRefresh
  | _ => False

/-- Whether the membership store is to be consulted. -/
def NodeEffect.consults : NodeEffect → Bool
  | .consult _ => true
  | _ => false

namespace Node

variable {n n' n'' : Node}

/-- How often the membership store was consulted. -/
def trips (n : Node) : Nat := n.outbox.countP NodeEffect.consults

/-! ## What is not about the membership store -/

/-- Nothing happens about the membership store. -/
structure Aloof (n n' : Node) : Prop where
  refreshing : n'.refreshing = n.refreshing
  refreshPending : n'.refreshPending = n.refreshPending
  trips : n'.trips = n.trips

namespace Aloof

theorem refl (n : Node) : n.Aloof n := ⟨rfl, rfl, rfl⟩

theorem trans (first : n.Aloof n') (second : n'.Aloof n'') : n.Aloof n'' where
  refreshing := second.refreshing.trans first.refreshing
  refreshPending := second.refreshPending.trans first.refreshPending
  trips := second.trips.trans first.trips

theorem of_eq (refreshing : n'.refreshing = n.refreshing)
    (refreshPending : n'.refreshPending = n.refreshPending) (outbox : n'.outbox = n.outbox) :
    n.Aloof n' :=
  ⟨refreshing, refreshPending, by rw [Node.trips, outbox, Node.trips]⟩

/-- Something else is to be done outside. -/
theorem of_emit {effect : NodeEffect} (other : effect.consults = false)
    (refreshing : n'.refreshing = n.refreshing)
    (refreshPending : n'.refreshPending = n.refreshPending)
    (grown : n'.outbox = n.outbox ++ [effect]) : n.Aloof n' := by
  refine ⟨refreshing, refreshPending, ?_⟩
  rw [Node.trips, grown, List.countP_append, List.countP_singleton, other]
  rfl

theorem foldl {α : Type} {f : Node → α → Node} (each : ∀ n a, Aloof n (f n a)) (l : List α)
    (n : Node) : n.Aloof (l.foldl f n) :=
  List.foldlRecOn _ _ (refl n) fun m aloof a _ => aloof.trans (each m a)

theorem closeSession (n : Node) (number : Nat) : n.Aloof (n.closeSession number) := by
  cases found : n.sessions[number]? with
  | none =>
    rw [closeSession_of_closed found]
    exact refl n
  | some session =>
    rw [closeSession_of_open found]
    exact of_emit rfl rfl rfl rfl

theorem publish (n : Node) (event : NodeEvent) : n.Aloof (n.publish event) := by
  rw [publish_eq]
  have offered : n.Aloof (n.offered event) := of_eq rfl rfl rfl
  exact offered.trans (foldl closeSession _ _)

theorem lockEffect (n : Node) (effect : LockEffect) : n.Aloof (n.lockEffect effect) := by
  cases effect with
  | publish event => exact publish n event
  | ratify peer lock acquire =>
    simp only [Node.lockEffect]
    rw [sendToPeer_keeps]
    exact of_eq rfl rfl rfl
  | _ => exact of_emit rfl rfl rfl rfl

theorem mappingEffect (n : Node) (effect : MappingEffect) : n.Aloof (n.mappingEffect effect) := by
  cases effect with
  | broadcast event => exact publish n event
  | call peer requestId call =>
    obtain ⟨-, -, went⟩ | ⟨failure, failed⟩ := n.mappingEffect_call peer requestId call
    · rw [went, sendToSubscribed_keeps]
      exact of_eq rfl rfl rfl
    · rw [failed, sendToSubscribed_keeps]
      exact of_eq rfl rfl rfl
  | _ => exact of_emit rfl rfl rfl rfl

theorem drain (n : Node) : n.Aloof n.drain := by
  refine drain_induction (P := fun _ _ m => n.Aloof m) ?_ ?_ ?_ (refl n)
  · exact fun m aloof => aloof.trans (of_eq rfl rfl rfl)
  · exact fun effect _ _ m aloof => aloof.trans (lockEffect m effect)
  · exact fun effect _ m aloof => aloof.trans (mappingEffect m effect)

theorem finish (n : Node) : n.Aloof n.drain.answerActions := by
  have told : n.drain.Aloof n.drain.answerActions := by
    rw [answerActions_eq]
    refine ⟨rfl, rfl, ?_⟩
    simp [Node.trips, NodeEffect.consults]
  exact (drain n).trans told

theorem connect (n : Node) (now : Nat) (peer : NodeName) : n.Aloof (n.connect now peer) := by
  unfold Node.connect
  split
  · exact refl n
  · exact of_emit rfl rfl rfl rfl

theorem noteRecord (now : Nat) (n : Node) (record : NodeRecord) :
    n.Aloof (noteRecord now n record) := by
  simp only [Node.noteRecord]
  split
  · exact of_eq rfl rfl rfl
  · exact of_eq rfl rfl rfl
  all_goals
    refine .trans ?_ (connect _ now record.name)
    exact of_eq rfl rfl rfl

theorem forget (n : Node) (peer : NodeName) : n.Aloof (n.forget peer) := by
  unfold Node.forget
  split
  · exact refl n
  · exact of_emit rfl rfl rfl rfl

theorem linkReport (n : Node) (peer : NodeName) (generation : Nat) (report : LinkReport) :
    n.Aloof (n.linkReport peer generation report) := by
  unfold Node.linkReport
  split
  · exact refl n
  · split
    · cases report with
      | message message =>
        simp only [peerMessage]
        split
        · split <;> exact of_eq rfl rfl rfl
        · split
          · exact refl n
          · rw [peerEvent_keeps]
            exact of_eq rfl rfl rfl
        all_goals exact of_eq rfl rfl rfl
      | _ => exact of_eq rfl rfl rfl
    · exact refl n

theorem dismissCallers (n : Node) : n.Aloof n.dismissCallers := by
  have actions : ∀ (calls : List PendingAction) (m : Node), m.Aloof (calls.foldl
      (fun m call => m.emit (.actionAnswer call.ticket (.error .shutDown))) m) :=
    foldl fun m call => of_emit rfl rfl rfl rfl
  unfold Node.dismissCallers
  refine .trans ?_ (actions _ _)
  refine foldl (fun m call => ?_) _ _
  split
  · exact of_emit rfl rfl rfl rfl
  · exact refl m

theorem shutDown (n : Node) (now : Nat) : n.Aloof (n.shutDown now) := by
  have passed : n.Aloof { n with mappings := n.mappings.flush now true }.drain := by
    refine .trans ?_ (drain _)
    exact of_eq rfl rfl rfl
  simp only [Node.shutDown]
  generalize { n with mappings := n.mappings.flush now true }.drain = m at passed ⊢
  have ended : m.Aloof { m with locks := m.locks.shutDown }.drain := by
    refine .trans ?_ (drain _)
    exact of_eq rfl rfl rfl
  have dismissed := (passed.trans ended).trans (dismissCallers _)
  generalize { m with locks := m.locks.shutDown }.drain.dismissCallers = d at dismissed ⊢
  -- what is left to do is to say goodbye
  have goodbye : ∀ (entries : List (Nat × Session)) (m : Node), m.Aloof (entries.foldl
      (fun m entry => m.emit (.endSession entry.1 entry.2.queue.hangUp)) m) :=
    foldl fun m entry => of_emit rfl rfl rfl rfl
  have parted := goodbye d.sessions.toList
    { d with links := d.links.map fun _ (link : Link) => link.logOff.2 }
  have dropped : d.Aloof { d with links := d.links.map fun _ (link : Link) => link.logOff.2 } :=
    of_eq rfl rfl rfl
  exact ((dismissed.trans dropped).trans parted).trans (of_emit rfl rfl rfl rfl)

/-- Most commands are not about the membership store. -/
theorem apply (n : Node) {command : NodeCommand} (other : ¬ command.IsRefresh) :
    n.Aloof (n.apply command) := by
  cases command with
  | refresh => exact absurd trivial other
  | loaded => exact absurd trivial other
  | link peer generation report => exact linkReport n peer generation report
  | shutDown now => exact shutDown n now
  | openSession number node queue =>
    simp only [Node.apply, openSession]
    split
    · exact refl n
    · split <;> exact of_eq rfl rfl rfl
  | sessionRequest number request =>
    simp only [Node.apply]
    split
    · cases request <;> exact of_eq rfl rfl rfl
    · exact refl n
  | closeSession number => exact closeSession n number
  | invoke node action args ticket =>
    simp only [Node.apply]
    obtain ⟨reply, answered⟩ | ⟨-, went | ⟨failure, failed⟩⟩ :=
      n.invoke_cases node action args ticket
    · rw [answered]
      exact of_emit rfl rfl rfl rfl
    · rw [went, sendToPeer_keeps]
      exact of_eq rfl rfl rfl
    · rw [failed, sendToPeer_keeps]
      exact of_eq rfl rfl rfl
  | tellCacheStale cache data =>
    simp only [Node.apply, tellCacheStale]
    split
    · exact refl n
    · exact publish n _
  | _ => exact of_eq rfl rfl rfl

end Aloof

/-! ## What is -/

/-- To ask for a refresh starts a consultation, or leaves one waiting. -/
theorem step_refresh (running : n.stopped = false) :
    (n.step .refresh).refreshing = true ∧
      (n.step .refresh).refreshPending = (n.refreshPending || n.refreshing) ∧
      (n.step .refresh).trips = n.trips + if n.refreshing then 0 else 1 := by
  rw [step_of_running running]
  have finished := Aloof.finish (n.apply .refresh)
  rw [finished.refreshing, finished.refreshPending, finished.trips]
  simp only [Node.apply, refresh]
  cases asked : n.refreshing with
  | true => simp [trips]
  | false => simp [trips, emit_eq, NodeEffect.consults]

/-- When the store answers with records, a refresh that waits is under way. -/
theorem step_loaded_ok (running : n.stopped = false) (now : Nat) (records : List NodeRecord) :
    let n' := n.step (.loaded now (.ok records))
    n'.refreshing = n.refreshPending ∧ n'.refreshPending = false ∧
      n'.trips = n.trips + if n.refreshPending then 1 else 0 := by
  intro n'
  have finished := Aloof.finish (n.apply (.loaded now (.ok records)))
  rw [← step_of_running running] at finished
  rw [finished.refreshing, finished.refreshPending, finished.trips]
  simp only [Node.apply, loaded]
  generalize records.filter _ = peers
  -- the records are taken in, and whoever is not among them is forgotten
  have noted := Aloof.foldl (Aloof.noteRecord now) peers { n with refreshing := false }
  generalize peers.foldl _ _ = m at noted
  have forgotten := Aloof.foldl Aloof.forget
    (m.links.keys.filter fun name => !peers.any fun record => record.name = name) m
  generalize List.foldl forget _ _ = m' at forgotten
  have taken := noted.trans forgotten
  rw [taken.refreshPending]
  have idle : m'.refreshing = false := taken.refreshing
  have trips : m'.trips = n.trips := taken.trips
  have pending : m'.refreshPending = n.refreshPending := taken.refreshPending
  cases waits : n.refreshPending with
  | true => simpa [refresh, idle, Node.trips, emit_eq, NodeEffect.consults] using trips
  | false => simp [idle, trips, pending, waits]

/-- When the store fails to answer, a refresh that waits goes on waiting, and nothing is under
way. -/
theorem step_loaded_error (running : n.stopped = false) (now : Nat) (failure : Failure) :
    let n' := n.step (.loaded now (.error failure))
    n'.refreshing = false ∧ n'.refreshPending = n.refreshPending ∧ n'.trips = n.trips := by
  intro n'
  have finished := Aloof.finish (n.apply (.loaded now (.error failure)))
  rw [← step_of_running running] at finished
  exact ⟨finished.refreshing, finished.refreshPending, finished.trips⟩

/-- What is not about the membership store, or comes after a node has stopped, does not change
what is under way and what waits. -/
theorem Aloof.advance {occurrence : Occurrence}
    (other : n.stopped = true ∨ ¬ occurrence.IsRefresh) : n.Aloof (n.advance occurrence) := by
  cases occurrence with
  | command command =>
    simp only [Node.advance]
    cases stopped : n.stopped with
    | true =>
      rw [step_of_stopped stopped]
      exact refl n
    | false =>
      rw [step_of_running stopped]
      have other : ¬ command.IsRefresh := other.resolve_left (by simp [stopped])
      exact (apply n other).trans (finish _)
  | _ => exact of_eq rfl rfl rfl

/-! ## What waits in vain -/

/-- Of what a run did about the membership store, the last was that it failed to answer, while a
refresh was waiting. -/
def DropsRefresh (n : Node) (run : List Occurrence) : Prop :=
  ∃ before now failure later, run = before ++ .command (.loaded now (.error failure)) :: later ∧
    (n.after before).stopped = false ∧ (n.after before).refreshPending = true ∧
    (n.after (before ++ [.command (.loaded now (.error failure))])).Throughout
      (fun m occurrence => m.stopped = true ∨ ¬ occurrence.IsRefresh) later

theorem dropsRefresh_snoc {run : List Occurrence} {occurrence : Occurrence} :
    n.DropsRefresh (run ++ [occurrence]) ↔
      (n.DropsRefresh run ∧ ((n.after run).stopped = true ∨ ¬ occurrence.IsRefresh)) ∨
      ((n.after run).stopped = false ∧ (n.after run).refreshPending = true ∧
        ∃ now failure, occurrence = .command (.loaded now (.error failure))) := by
  constructor
  · rintro ⟨before, now, failure, later, split, running, waits, quiet⟩
    obtain rfl | ⟨later, last, rfl⟩ := later.eq_nil_or_concat
    · obtain ⟨rfl, same⟩ := List.append_inj' split rfl
      exact .inr ⟨running, waits, now, failure, List.singleton_inj.1 same⟩
    · rw [List.concat_eq_append, ← List.cons_append, ← List.append_assoc] at split
      obtain ⟨rfl, same⟩ := List.append_inj' split rfl
      obtain rfl := List.singleton_inj.1 same
      rw [List.concat_eq_append, throughout_append, ← after_append] at quiet
      obtain ⟨quiet, other, -⟩ := quiet
      rw [List.append_assoc] at other
      exact .inl ⟨⟨before, now, failure, later, rfl, running, waits, quiet⟩, other⟩
  · rintro (⟨⟨before, now, failure, later, rfl, running, waits, quiet⟩, other⟩ |
      ⟨running, waits, now, failure, rfl⟩)
    · refine ⟨before, now, failure, later ++ [occurrence], by simp, running, waits, ?_⟩
      rw [throughout_append, ← after_append, List.append_assoc]
      exact ⟨quiet, other, trivial⟩
    · exact ⟨run, now, failure, [], rfl, running, waits, trivial⟩

theorem waits_in_vain_iff (started : n.Started) (run : List Occurrence) :
    ((n.after run).refreshPending = true ∧ (n.after run).refreshing = false) ↔
      n.DropsRefresh run := by
  induction run using List.reverseRecOn with
  | nil =>
    obtain ⟨config, mappings, registered, outranks, port, now, -, -, -, rfl⟩ := started
    refine iff_of_false (fun waits => Bool.false_ne_true waits.1) ?_
    rintro ⟨before, now, failure, later, split, -⟩
    simp at split
  | append_singleton run occurrence ih =>
    rw [dropsRefresh_snoc, after_append]
    change (((n.after run).advance occurrence).refreshPending = true ∧
      ((n.after run).advance occurrence).refreshing = false) ↔ _
    by_cases other : (n.after run).stopped = true ∨ ¬ occurrence.IsRefresh
    · have aloof := Aloof.advance other
      rw [aloof.refreshPending, aloof.refreshing, ih]
      refine ⟨fun drops => .inl ⟨drops, other⟩, ?_⟩
      rintro (⟨drops, -⟩ | ⟨running, -, now, failure, rfl⟩)
      · exact drops
      · obtain stopped | none := other
        · simp [running] at stopped
        · exact absurd trivial none
    · obtain ⟨running, refreshes⟩ := not_or.1 other
      have running : (n.after run).stopped = false := by simpa using running
      rw [or_iff_right fun drops => other drops.2]
      cases occurrence with
      | command command =>
        simp only [Node.advance, running]
        cases command with
        | refresh =>
          obtain ⟨refreshing, -, -⟩ := step_refresh running
          simp [refreshing]
        | loaded now answer =>
          cases answer with
          | ok records =>
            obtain ⟨-, waits, -⟩ := step_loaded_ok running now records
            simp [waits]
          | error failure =>
            obtain ⟨refreshing, waits, -⟩ := step_loaded_error running now failure
            simp [refreshing, waits]
        | _ => exact absurd id refreshes
      | _ => exact absurd id refreshes

/-- A refresh that waits has a consultation under way that it waits for, unless the store failed to
answer last, while a refresh was waiting already. When the consultation ends with records, the next
one starts at once; when it ends with a failure, none does, and the refresh goes on waiting. -/
theorem refresh_waits_in_vain_iff (started : n.Started) (run : List Occurrence) :
    let m := n.after run
    ((m.refreshPending = true → m.refreshing = true) ↔ ¬ n.DropsRefresh run) ∧
      (m.stopped = false → m.refreshPending = true → ∀ now,
        (∀ records, let m' := m.step (.loaded now (.ok records))
          m'.refreshing = true ∧ m'.refreshPending = false ∧ m'.trips = m.trips + 1) ∧
        ∀ failure, let m' := m.step (.loaded now (.error failure))
          m'.refreshing = false ∧ m'.refreshPending = true ∧ m'.trips = m.trips) := by
  intro m
  refine ⟨?_, fun running waits now => ⟨fun records => ?_, fun failure => ?_⟩⟩
  · rw [← waits_in_vain_iff started, not_and, Bool.not_eq_false]
  · obtain ⟨refreshing, none, trips⟩ := step_loaded_ok running now records
    rw [waits] at refreshing trips
    exact ⟨refreshing, none, trips⟩
  · obtain ⟨refreshing, still, trips⟩ := step_loaded_error running now failure
    exact ⟨refreshing, still.trans waits, trips⟩

/-- A node is asked for a refresh while it consults the store for the first time. -/
theorem refresh_waits_in_vain_iff_in_asking_run : newcomer.Started ∧
    let m := newcomer.after [.command .refresh]
    m.stopped = false ∧ m.refreshPending = true ∧ ¬ newcomer.DropsRefresh [.command .refresh] ∧
      (m.step (.loaded 10 (.ok []))).trips = 2 := by
  obtain ⟨sound, answered⟩ := refresh_waits_in_vain_iff newcomer_started [.command .refresh]
  have waits : (newcomer.after [.command .refresh]).refreshPending = true := by decide +kernel
  have running : (newcomer.after [.command .refresh]).stopped = false := by decide +kernel
  have once : (newcomer.after [.command .refresh]).trips = 1 := by decide +kernel
  have again := ((answered running waits 10).1 []).2.2
  rw [once] at again
  exact ⟨newcomer_started, running, waits, sound.1 fun _ => by decide +kernel, again⟩

/-- The store fails to answer when it is consulted for the first time, while a refresh waits. -/
theorem refresh_waits_in_vain : newcomer.Started ∧
    let m := newcomer.after [.command .refresh, .command (.loaded 10 (.error .io))]
    m.stopped = false ∧ m.refreshPending = true ∧ m.refreshing = false ∧ m.trips = 1 :=
  ⟨newcomer_started, by decide +kernel⟩

end Node

end Cohort

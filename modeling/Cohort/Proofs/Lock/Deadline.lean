import Cohort.Proofs.Lock.Soundness

/-!
# Timers complete their own attempts

A timer is started for each attempt of the node's own, and carries its number. It may go off long
after the attempt has ended, when the lock is being settled anew. Numbers only grow, so it concerns
nobody but the attempt that started it: as long as this is in flight, the timer is as good as the
consents that are still missing, in whatever order; afterwards it does nothing.

## Main definitions

* `Arbitrator.timers`: the timers that were started.
* `Arbitrator.Times`: what starts timers numbers them upwards.
* `Arbitrator.InFlight`: an attempt of the node's own is in flight.

## Main statements

* `Arbitrator.run_times`: timers are numbered upwards over every run.
* `Arbitrator.foldl_ratify`: consents complete an attempt in any order.
* `Arbitrator.timeout_eq_ratified`: a timer that is due is as good as they are.
* `Arbitrator.timers_complete_their_own_attempts`: all of it, for any run.
-/

namespace Cohort

/-- The timer that is started, if that is what is wanted: the lock and the number. -/
def LockEffect.timer? : LockEffect → Option (Lock × Nat)
  | startTimer lock number => some (lock, number)
  | _ => none

namespace Arbitrator

variable {t t' t'' : Arbitrator} {lock : Lock} {attempt : Attempt} {scope : Scope}
  {d d' : Desk} {number : Nat} {effects : List LockEffect}

/-! ## Numbers of timers -/

/-- The timers that are started, in order. -/
def timers (effects : List LockEffect) : List (Lock × Nat) := effects.filterMap LockEffect.timer?

theorem mem_timers : (lock, number) ∈ timers effects ↔ .startTimer lock number ∈ effects := by
  unfold timers
  rw [List.mem_filterMap]
  constructor
  · rintro ⟨effect, there, timer⟩
    cases effect with
    | startTimer => cases timer; exact there
    | _ => cases timer
  · exact fun there => ⟨_, there, rfl⟩

/-- While these effects came up, timers were started with numbers that only grew, none of which had
been given to an attempt before. -/
structure Times (effects : List LockEffect) (t t' : Arbitrator) : Prop where
  generation : t.generation ≤ t'.generation
  ascending : (timers effects).Pairwise fun a b => a.2 < b.2
  fresh : ∀ timer ∈ timers effects, t.generation < timer.2 ∧ timer.2 ≤ t'.generation

namespace Times

theorem of_none (none_ : timers effects = []) (generation : t.generation ≤ t'.generation) :
    Times effects t t' :=
  ⟨generation, none_ ▸ .nil, fun _ there => absurd (none_ ▸ there) List.not_mem_nil⟩

theorem append {effects' : List LockEffect} (first : Times effects t t')
    (second : Times effects' t' t'') : Times (effects ++ effects') t t'' := by
  have split : timers (effects ++ effects') = timers effects ++ timers effects' :=
    List.filterMap_append
  refine ⟨first.generation.trans second.generation, ?_, fun timer there => ?_⟩
  · rw [split, List.pairwise_append]
    refine ⟨first.ascending, second.ascending, fun early there late there' => ?_⟩
    exact (first.fresh early there).2.trans_lt (second.fresh late there').1
  · obtain early | late := List.mem_append.1 (split ▸ there)
    · exact ⟨(first.fresh timer early).1, (first.fresh timer early).2.trans second.generation⟩
    · exact ⟨first.generation.trans_lt (second.fresh timer late).1, (second.fresh timer late).2⟩

end Times

/-- What happens apart from an attempt that begins starts no timer. -/
theorem times_of_quiet (effects : List LockEffect) (grown : t'.outbox = t.outbox ++ effects)
    (quiet : timers effects = []) (generation : t.generation ≤ t'.generation) :
    ∃ effects, t'.outbox = t.outbox ++ effects ∧ Times effects t t' :=
  ⟨effects, grown, .of_none quiet generation⟩

theorem Serve.times (serve : Serve scope lock d d') : ∃ effects,
    d'.table.outbox = d.table.outbox ++ effects ∧ Times effects d.table d'.table := by
  cases serve with
  | @answered _ waiter _ reply =>
    exact times_of_quiet [.answer waiter.ticket reply] rfl rfl (Nat.le_refl _)
  | joined => exact times_of_quiet [] (List.append_nil _).symm rfl (Nat.le_refl _)
  | @begun t _ _ acquire =>
    refine ⟨[.publish (if acquire then .acquiring lock else .releasing lock),
      .startTimer lock (t.generation + 1)], by simp [beginLocal, emit, startAttempt], ?_⟩
    refine ⟨Nat.le_succ _, List.pairwise_singleton _ _, fun timer there => ?_⟩
    obtain rfl := List.mem_singleton.1 there
    exact ⟨Nat.lt_succ_self _, Nat.le_refl _⟩
  | taken => exact times_of_quiet [.publish (.added lock)] rfl rfl (Nat.le_refl _)
  | given => exact times_of_quiet [.publish (.removed lock)] rfl rfl (Nat.le_refl _)
  | withdrawn => exact times_of_quiet [.publish (.kept lock)] rfl rfl (Nat.le_refl _)

theorem Move.times (move : Move scope lock d d') : ∃ effects,
    d'.table.outbox = d.table.outbox ++ effects ∧ Times effects d.table d'.table := by
  cases move with
  | served serve => exact serve.times
  | dropped | struck | forgotten | counted =>
    exact times_of_quiet [] (List.append_nil _).symm rfl (Nat.le_refl _)
  | won => exact times_of_quiet [.publish (.added lock)] rfl rfl (Nat.le_refl _)
  | parted => exact times_of_quiet [.publish (.removed lock)] rfl rfl (Nat.le_refl _)
  | @followed _ _ peer _ acquire =>
    exact times_of_quiet [.ratify peer lock acquire] rfl rfl (Nat.le_succ _)
  | yielded =>
    unfold surrender
    split
    next =>
      exact times_of_quiet [.publish (.removed lock), .lost lock]
        (by simp [emit, notePeerLock, Arbitrator.drop]) rfl (Nat.le_refl _)
    next => exact times_of_quiet [] (List.append_nil _).symm rfl (Nat.le_refl _)

theorem Moves.times (moves : Moves scope lock d d') : ∃ effects,
    d'.table.outbox = d.table.outbox ++ effects ∧ Times effects d.table d'.table := by
  induction moves with
  | refl => exact ⟨[], (List.append_nil _).symm, .of_none rfl (Nat.le_refl _)⟩
  | tail _ move ih =>
    obtain ⟨effects, grown, times⟩ := ih
    obtain ⟨effects', grown', times'⟩ := move.times
    exact ⟨effects ++ effects', by rw [grown', grown, List.append_assoc], times.append times'⟩

theorem Course.times {requests : List (Lock × Ticket)} (course : Course scope t t' requests) :
    ∃ effects, t'.outbox = t.outbox ++ effects ∧ Times effects t t' := by
  induction course with
  | done => exact ⟨[], (List.append_nil _).symm, .of_none rfl (Nat.le_refl _)⟩
  | handled moves _ ih =>
    obtain ⟨effects, grown, times⟩ := moves.times
    obtain ⟨effects', grown', times'⟩ := ih
    exact ⟨effects ++ effects', by rw [grown', grown, List.append_assoc], times.append times'⟩

theorem step_times (t : Arbitrator) (op : LockOp) :
    ∃ effects, (t.step op).outbox = t.outbox ++ effects ∧ Times effects t (t.step op) := by
  obtain ⟨effects, grown, times⟩ := (step_course (Scope.whole_admits op) t).times
  rw [opened_outbox] at grown
  exact ⟨effects, grown, (opened_generation t op).symm.trans_le times.generation,
    times.ascending, opened_generation t op ▸ times.fresh⟩

theorem run_times (t : Arbitrator) (ops : List LockOp) :
    ∃ effects, (t.run ops).outbox = t.outbox ++ effects ∧ Times effects t (t.run ops) := by
  induction ops generalizing t with
  | nil => exact ⟨[], (List.append_nil _).symm, .of_none rfl (Nat.le_refl _)⟩
  | cons op ops ih =>
    obtain ⟨effects, grown, times⟩ := step_times t op
    obtain ⟨effects', grown', times'⟩ := ih (t.step op)
    refine ⟨effects ++ effects', ?_, times.append times'⟩
    rw [← List.append_assoc, ← grown]
    exact grown'

/-! ## Attempts in flight -/

/-- The attempt of the node's own that has a number is in flight on a lock. -/
def InFlight (t : Arbitrator) (lock : Lock) (number : Nat) : Prop :=
  ∃ attempt, t.attempts[lock]? = some attempt ∧ attempt.isLocal = true ∧
    attempt.generation = number

theorem run_announces (t : Arbitrator) (ops : List LockOp) : t.Announces (t.run ops) := by
  induction ops generalizing t with
  | nil => exact .refl t
  | cons op ops ih => exact (step_announces t op).trans (ih (t.step op))

/-- Numbers only grow, so an attempt with an old one is one from before. -/
theorem Announces.continues (announces : t.Announces t') {attempt' : Attempt}
    (found : t'.attempts[lock]? = some attempt') (own : attempt'.isLocal = true)
    (old : attempt'.generation ≤ t.generation) :
    ∃ attempt, t.attempts[lock]? = some attempt ∧ attempt'.Continues attempt := by
  obtain ⟨_, -, heralds⟩ := announces
  obtain ⟨attempt, current, continues, -⟩ | ⟨new, -, -⟩ := heralds.attempts lock attempt' found own
  · exact ⟨attempt, current, continues⟩
  · exact absurd new (Nat.not_lt.2 old)

theorem InFlight.before (announces : t.Announces t') (old : number ≤ t.generation)
    (flies : t'.InFlight lock number) : t.InFlight lock number := by
  obtain ⟨attempt', found, own, same⟩ := flies
  obtain ⟨attempt, current, continues⟩ := announces.continues found own (same.trans_le old)
  exact ⟨attempt, current, continues.isLocal.symm.trans own,
    continues.generation.symm.trans same⟩

/-- A number that is yet to be given is no attempt's. -/
theorem not_inFlight_of_lt (node : NodeName) (outranks : Precedence) (ops : List LockOp)
    (new : ((fresh node outranks).run ops).generation < number) (lock : Lock) :
    ¬ ((fresh node outranks).run ops).InFlight lock number := by
  rintro ⟨attempt, found, own, rfl⟩
  obtain ⟨_, -, heralds⟩ := run_announces (fresh node outranks) ops
  obtain ⟨first, current, -⟩ | ⟨-, latest, -⟩ := heralds.attempts lock attempt found own
  · simp [fresh] at current
  · exact absurd new (Nat.not_lt.2 latest)

/-- A timer whose attempt is not in flight does nothing. -/
theorem timeout_of_not_inFlight (lands : ¬ t.InFlight lock number) : t.timeout lock number = t := by
  unfold timeout
  split
  next attempt current =>
    exact if_neg fun due => lands ⟨attempt, current, due.2, due.1⟩
  next => rfl

/-- A timer whose attempt is no longer in flight does nothing for good. -/
theorem timeout_run_of_not_inFlight (lands : ¬ t.InFlight lock number)
    (old : number ≤ t.generation) (more : List LockOp) :
    (t.run more).timeout lock number = t.run more :=
  timeout_of_not_inFlight fun flies => lands (flies.before (run_announces t more) old)

/-- An attempt that completes is no longer in flight, whatever its callers begin then. -/
theorem not_inFlight_complete (old : number ≤ t.generation) :
    ¬ (t.complete lock attempt).InFlight lock number := by
  have ended (u : Arbitrator) (idle : u.attempts[lock]? = none) (same : u.generation = t.generation)
      (owner : Option NodeName) :
      ¬ (u.resolve lock owner attempt.waiters).InFlight lock number := by
    intro flies
    have served : Served .whole lock ⟨u, attempt.waiters⟩
        ⟨u.resolve lock owner attempt.waiters, []⟩ :=
      resolve_serves_all (Scope.whole_lenient.suits _ _)
    obtain ⟨attempt', current, -⟩ := flies.before served.moves.announces (old.trans_eq same.symm)
    rw [idle] at current
    cases current
  unfold complete
  dsimp only
  split
  next => exact ended ((t.drop lock).gain lock) (attempts_drop_self t lock) rfl _
  next => exact ended ((t.drop lock).relinquish lock) (attempts_drop_self t lock) rfl _

/-! ## Consents -/

theorem NameSet.nodup_toList (names : NameSet) : names.toList.Nodup := by
  refine names.distinct_toList.imp fun {a b} distinct same => distinct ?_
  rw [same]
  exact Std.ReflCmp.compare_self

/-- Whoever is left in an order of names when the first is struck is left without the order. -/
theorem perm_erase_of_cons {names : NameSet} {first : NodeName} {rest : List NodeName}
    (all : (first :: rest).Perm names.toList) : rest.Perm (names.erase first).toList := by
  obtain ⟨apart, once⟩ := List.nodup_cons.1 (all.nodup_iff.2 (NameSet.nodup_toList names))
  refine (List.perm_ext_iff_of_nodup once (NameSet.nodup_toList _)).2 fun name => ?_
  have among := all.mem_iff (a := name)
  rw [List.mem_cons, Std.ExtTreeSet.mem_toList] at among
  rw [Std.ExtTreeSet.mem_toList, Std.ExtTreeSet.mem_erase, ← among, Ne, Std.compare_eq_iff_eq]
  constructor
  · exact fun there => ⟨fun same => apart (same ▸ there), .inr there⟩
  · exact fun ⟨ne, there⟩ => there.resolve_left (Ne.symm ne)

/-- Consents complete an attempt in any order. -/
theorem foldl_ratify {order : List NodeName} {ratifiers : NameSet}
    (current : t.attempts[lock]? = some attempt) (own : attempt.ratifiers = some ratifiers)
    (company : ratifiers.isEmpty = false) (all : order.Perm ratifiers.toList) :
    order.foldl (fun t node => t.ratify node lock attempt.acquire) t = t.complete lock attempt := by
  induction order generalizing t attempt ratifiers with
  | nil =>
    have nobody : ratifiers.toList = [] := List.perm_nil.1 all.symm
    simp [← Std.ExtTreeSet.isEmpty_toList, nobody] at company
  | cons node rest ih =>
    have struck := attempts_strike current node
    rw [own, Option.map_some] at struck
    have isLocal : attempt.isLocal = true := by rw [Attempt.isLocal, own]; rfl
    -- Whoever consents is struck, and the others are left.
    have left : rest.Perm (ratifiers.erase node).toList := perm_erase_of_cons all
    have heard : t.ratify node lock attempt.acquire =
        (t.strike lock node).completeIfReady lock := by
      simp only [ratify, current, isLocal, and_self, if_true]
    rw [List.foldl_cons, heard, completeIfReady, struck]
    dsimp only
    split
    next last =>
      have nobody : rest = [] := by
        rw [← Std.ExtTreeSet.isEmpty_toList, List.isEmpty_iff] at last
        exact List.perm_nil.1 (last ▸ left)
      rw [nobody, List.foldl_nil, complete_strike]
    next more =>
      rw [ih struck rfl (Bool.eq_false_iff.2 more) left, complete_strike]

/-! ## A timer goes off -/

/-- A timer went off in time. -/
def late (t : Arbitrator) : Arbitrator :=
  { t with stats := { t.stats with timeouts := t.stats.timeouts + 1 } }

theorem acquire_late (lock : Lock) (ticket : Ticket) :
    t.late.acquire lock ticket = (t.acquire lock ticket).late := by
  have attempts : t.late.attempts = t.attempts := rfl
  have owner : t.late.owner lock = t.owner lock := rfl
  have subscribers : t.late.subscribers = t.subscribers := rfl
  unfold acquire
  rw [attempts, owner, subscribers]
  cases t.attempts[lock]? with
  | some attempt => rfl
  | none =>
    cases t.owner lock with
    | some owner => rfl
    | none => cases t.subscribers.isEmpty <;> rfl

theorem release_late (lock : Lock) (ticket : Ticket) :
    t.late.release lock ticket = (t.release lock ticket).late := by
  have attempts : t.late.attempts = t.attempts := rfl
  have held : t.late.held = t.held := rfl
  have subscribers : t.late.subscribers = t.subscribers := rfl
  unfold release
  rw [attempts, held, subscribers]
  cases t.attempts[lock]? with
  | some attempt => rfl
  | none =>
    by_cases there : lock ∈ t.held
    · simp only [if_pos there]
      cases t.subscribers.isEmpty <;> rfl
    · simp only [if_neg there]
      rfl

theorem serve_late (lock : Lock) (owner : Option NodeName) (waiter : Waiter) :
    serve lock owner t.late waiter = (serve lock owner t waiter).late := by
  have node : t.late.node = t.node := rfl
  unfold serve
  rw [node]
  split
  next => exact acquire_late lock waiter.ticket
  next =>
    split
    next => exact release_late lock waiter.ticket
    next => rfl
  next => rfl

theorem resolve_late (lock : Lock) (owner : Option NodeName) (waiters : List Waiter) :
    t.late.resolve lock owner waiters = (t.resolve lock owner waiters).late := by
  unfold resolve
  induction waiters generalizing t with
  | nil => rfl
  | cons waiter waiters ih => rw [List.foldl_cons, serve_late, ih, List.foldl_cons]

/-- Nothing that happens when an attempt completes depends on how many timers went off. -/
theorem complete_late (lock : Lock) (attempt : Attempt) :
    t.late.complete lock attempt = (t.complete lock attempt).late := by
  have gain : ((t.late.drop lock).gain lock) = ((t.drop lock).gain lock).late := rfl
  have relinquish : ((t.late.drop lock).relinquish lock) = ((t.drop lock).relinquish lock).late :=
    rfl
  unfold complete
  dsimp only
  rw [gain, relinquish, resolve_late, resolve_late]
  split <;> rfl

/-- A timer that is due is as good as the consents that are missing. -/
theorem timeout_eq_ratified (sound : t.Sound ∅) (current : t.attempts[lock]? = some attempt)
    {ratifiers : NameSet} (own : attempt.ratifiers = some ratifiers) {order : List NodeName}
    (all : order.Perm ratifiers.toList) :
    t.timeout lock attempt.generation =
      (order.foldl (fun t node => t.ratify node lock attempt.acquire) t).late := by
  have isLocal : attempt.isLocal = true := by rw [Attempt.isLocal, own]; rfl
  have due : t.timeout lock attempt.generation = t.late.complete lock attempt := by
    simp only [timeout, current, isLocal, and_self, if_true]
    rfl
  rw [due, complete_late, foldl_ratify current own (sound.hasCompany current ratifiers own) all]

/-- The attempt that completes when its timer goes off is no longer in flight then. -/
theorem not_inFlight_timeout (old : number ≤ t.generation) :
    ¬ (t.timeout lock number).InFlight lock number := by
  unfold timeout
  split
  next attempt current =>
    split
    next => exact not_inFlight_complete (t := t.late) old
    next other =>
      rintro ⟨attempt', found, own, same⟩
      obtain rfl := Option.some.inj (current.symm.trans found)
      exact other ⟨same, own⟩
  next idle =>
    rintro ⟨attempt', found, -⟩
    cases idle.symm.trans found

/-- An operation started a timer, with a number that no timer and no attempt had before it. Whenever
the timer goes off, there are two cases. Either an attempt of the node's own with that number is in
flight on the lock: then it is the one that the operation began and has been in flight ever since,
the timer does what the consents do that are missing, in any order, but that it is counted, and it
never does anything again. Or there is no such attempt: then it does nothing, now and for good. -/
theorem timers_complete_their_own_attempts (node : NodeName) (outranks : Precedence)
    (before : List LockOp) (op : LockOp) (after : List LockOp) {lock : Lock} {number : Nat}
    {effects : List LockEffect}
    (grown : (((fresh node outranks).run before).step op).outbox =
      ((fresh node outranks).run before).outbox ++ effects)
    (timer : .startTimer lock number ∈ effects) :
    let s := (fresh node outranks).run before
    let t := (s.step op).run after
    (timers t.outbox).Pairwise (fun a b => a.2 < b.2) ∧
    (∀ other, ¬ s.InFlight other number) ∧
    (t.InFlight lock number →
      (∃ attempt ratifiers, t.attempts[lock]? = some attempt ∧
        attempt.ratifiers = some ratifiers ∧
        (∀ front back, after = front ++ back → ∃ earlier,
          ((s.step op).run front).attempts[lock]? = some earlier ∧ attempt.Continues earlier) ∧
        ∀ order : List NodeName, order.Perm ratifiers.toList → t.timeout lock number =
          (order.foldl (fun t node => t.ratify node lock attempt.acquire) t).late) ∧
      ∀ more, ((t.timeout lock number).run more).timeout lock number =
        (t.timeout lock number).run more) ∧
    (¬ t.InFlight lock number → ∀ more, (t.run more).timeout lock number = t.run more) := by
  intro s t
  have sound : t.Sound ∅ := (step_sound ((sound_fresh node outranks).run before) op).run after
  -- The number is between those that were given before the operation and after it.
  obtain ⟨effects', grown', times⟩ := step_times s op
  obtain rfl : effects = effects' := List.append_cancel_left (grown.symm.trans grown')
  obtain ⟨new, old⟩ : s.generation < number ∧ number ≤ (s.step op).generation :=
    times.fresh (lock, number) (mem_timers.2 timer)
  have passed (ops : List LockOp) : number ≤ ((s.step op).run ops).generation := by
    obtain ⟨_, -, later⟩ := run_times (s.step op) ops
    exact old.trans later.generation
  refine ⟨?_, not_inFlight_of_lt node outranks before new, fun flies => ⟨?_, ?_⟩, ?_⟩
  · obtain ⟨all, grownAll, timesAll⟩ := run_times (fresh node outranks) (before ++ op :: after)
    have whole : t = (fresh node outranks).run (before ++ op :: after) := by
      simp [t, s, run]
    rw [whole, grownAll]
    exact timesAll.ascending
  · obtain ⟨attempt, current, isLocal, rfl⟩ := flies
    obtain ⟨ratifiers, own⟩ := Option.isSome_iff_exists.1 isLocal
    refine ⟨attempt, ratifiers, current, own, ?_, fun order all =>
      timeout_eq_ratified sound current own all⟩
    rintro front back rfl
    have rest : t = ((s.step op).run front).run back := by simp [t, run]
    rw [rest] at current
    exact (run_announces _ back).continues current isLocal (passed front)
  · have moves : Moves .whole lock ⟨t, []⟩ ⟨t.timeout lock number, []⟩ :=
      timeout_moves number Scope.whole_lenient
    exact timeout_run_of_not_inFlight (not_inFlight_timeout (passed after))
      ((passed after).trans moves.proceeds.generation)
  · exact fun lands => timeout_run_of_not_inFlight lands (passed after)

/-- A node that two others follow begins to acquire a lock, one of the two consents, and a caller
comes to wait. -/
theorem timers_complete_their_own_attempts_in_acquiring_run :
    let s := (fresh "a" .byName).run [.addSubscriber "b", .addSubscriber "c"]
    let u := s.step (.acquire ⟨"d", none⟩ 0)
    let t := u.run [.ratify "b" ⟨"d", none⟩ true, .query ⟨"d", none⟩ 1]
    u.outbox = s.outbox ++ [.publish (.acquiring ⟨"d", none⟩), .startTimer ⟨"d", none⟩ 1] ∧
    t.timeout ⟨"d", none⟩ 1 = (t.ratify "c" ⟨"d", none⟩ true).late ∧
    (t.timeout ⟨"d", none⟩ 1).outbox.drop t.outbox.length =
      [.publish (.added ⟨"d", none⟩), .answer 0 (.ok (some "a")), .answer 1 (.ok (some "a"))] := by
  intro s u t
  have grown : u.outbox =
      s.outbox ++ [.publish (.acquiring ⟨"d", none⟩), .startTimer ⟨"d", none⟩ 1] := by
    decide +kernel
  have timer : LockEffect.startTimer ⟨"d", none⟩ 1 ∈
      [.publish (.acquiring ⟨"d", none⟩), .startTimer ⟨"d", none⟩ 1] := by simp
  have own : (t.attempts[(⟨"d", none⟩ : Lock)]?.map fun attempt =>
      (attempt.isLocal, attempt.generation)) = some (true, 1) := by decide +kernel
  have flies : t.InFlight ⟨"d", none⟩ 1 := by
    obtain ⟨attempt, current, both⟩ := Option.map_eq_some_iff.1 own
    exact ⟨attempt, current, congrArg Prod.fst both, congrArg Prod.snd both⟩
  obtain ⟨-, -, due, -⟩ := timers_complete_their_own_attempts "a" .byName
    [.addSubscriber "b", .addSubscriber "c"] (.acquire ⟨"d", none⟩ 0)
    [.ratify "b" ⟨"d", none⟩ true, .query ⟨"d", none⟩ 1] grown timer
  obtain ⟨attempt, ratifiers, current, own, -, same⟩ := (due flies).1
  have left : (t.attempts[(⟨"d", none⟩ : Lock)]?.bind fun attempt =>
      attempt.ratifiers.map fun names => (attempt.acquire, names.toList)) = some (true, ["c"]) := by
    decide +kernel
  rw [current, Option.bind_some, own, Option.map_some, Option.some_inj, Prod.mk.injEq] at left
  obtain ⟨claims, missing⟩ := left
  have ratified := same ["c"] (by rw [missing])
  rw [claims] at ratified
  exact ⟨grown, ratified, by decide +kernel⟩

end Arbitrator

end Cohort

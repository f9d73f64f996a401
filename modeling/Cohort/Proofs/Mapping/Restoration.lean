import Cohort.Proofs.Mapping.Turns
import Mathlib.Data.List.Induction

/-!
# Hand-offs that fail

A copy that is handed off is parked with the call, and put back when the call fails, except for keys
that are kept here again. Several copies of one mapping may be parked at once. What comes back then
depends on which call fails first, and a key that was deleted meanwhile comes back as well. So the
copy is what its changes make of it, however its hand-offs fail, just as long as nothing is mislaid:
no key is deleted while a pending hand-off holds it, and no copy is handed off while a pending
hand-off holds another value of one of its keys.

## Main definitions

* `MappingService.Throughout`: something holds of every operation of a run.
* `MappingService.Acknowledges`: an operation tells that a new master has taken a copy.
* `MappingService.Mislays`: an operation leaves an outdated value with a pending hand-off.
* `MappingService.Settles`: a key has a certain value once all pending hand-offs have failed.

## Main statements

* `MappingService.refused_handOffs_leave_no_mark_iff`: the exact condition.
* `MappingService.refused_handOffs_leave_a_mark`: an older value comes back.
-/

namespace Cohort

namespace MappingService

variable {s t : MappingService} {i : UInt16} {key : Bytes} {value : Option Bytes}
  {op : MappingOp} {ops ops' : List MappingOp} {numbers : List Nat}

/-- Something holds of every operation of a run and the service it meets. -/
def Throughout (P : MappingService → MappingOp → Prop) (s : MappingService) :
    List MappingOp → Prop
  | [] => True
  | op :: ops => P s op ∧ Throughout P (s.step op) ops

theorem throughout_append {P : MappingService → MappingOp → Prop} :
    Throughout P s (ops ++ ops') ↔ Throughout P s ops ∧ Throughout P (s.after ops) ops' := by
  induction ops generalizing s with
  | nil => simp [Throughout]
  | cons op ops ih => simp [Throughout, ih, and_assoc]

theorem throughout_of_forall {P : MappingService → MappingOp → Prop}
    (each : ∀ op ∈ ops, ∀ s, P s op) (s : MappingService) : Throughout P s ops := by
  induction ops generalizing s with
  | nil => trivial
  | cons op ops ih =>
    refine ⟨each op List.mem_cons_self s, ih (fun op there => ?_) _⟩
    exact each op (List.mem_cons_of_mem _ there)

/-- An operation tells that a new master has taken a copy of a mapping. -/
def Acknowledges (s : MappingService) (i : UInt16) (op : MappingOp) : Prop :=
  ∃ number value, op = .complete number (.ok value) ∧ s.parkedAt i number ≠ none

/-- An operation hands the copy of a mapping off. -/
def HandsOff (s : MappingService) (i : UInt16) (op : MappingOp) : Prop :=
  ∃ number, s.parkedAt i number = none ∧ (s.step op).parkedAt i number ≠ none

/-- An operation leaves a value with a pending hand-off that is out of date from now on: it deletes
the key, or it hands off a newer value in its turn. -/
def Mislays (s : MappingService) (i : UInt16) (op : MappingOp) : Prop :=
  ∃ key number entries value, s.parkedAt i number = some entries ∧ entries[key]? = some value ∧
    (lastChange key (s.changesOn i op) = some none ∨
      s.HandsOff i op ∧ ∃ newer, (s.stock i)[key]? = some newer ∧ newer ≠ value)

/-- Calls fail, one after the other. -/
def failAll (s : MappingService) (numbers : List Nat) : MappingService :=
  s.after (numbers.map fun n => .complete n (.error .peerUnavailable))

/-! ## A hand-off fails -/

theorem changesOn_complete (s : MappingService) (i : UInt16) (n : Nat) (reply : MappingReply) :
    s.changesOn i (.complete n reply) = [] := rfl

theorem getElem?_stock_fail (sound : s.Sound) (i : UInt16) (key : Bytes) (n : Nat)
    (failure : Failure) : ((s.step (.complete n (.error failure))).stock i)[key]? =
      ((s.stock i)[key]?).or ((s.parkedAt i n).bind fun entries => entries[key]?) := by
  have single : (MappingOp.complete n (.error failure)).IsSingle := fun _ => nofun
  have turn := step_turn sound single i
  have after := s.parkedAt_callCompleted n (.error failure) i n
  rw [if_pos rfl] at after
  cases turn with
  | changed stock parked =>
    have unparked : s.parkedAt i n = none := (parked n).symm.trans after
    rw [stock, unparked, changesOn_complete]
    simp
  | handedOff number m held single nothing fresh stock parked =>
    have mine := parked number
    rw [if_pos rfl] at mine
    have gone := s.parkedAt_callCompleted n (.error failure) i number
    rw [sound.numbered.parkedAt_eq_none fresh, ite_self] at gone
    exact absurd (mine.symm.trans gone) nofun
  | acknowledged number entries value ended was stock parked => cases ended
  | restored number entries failure' ended was stock parked =>
    cases ended
    rw [stock, was, getElem?_regained]
    rfl

theorem failAll_nil (s : MappingService) : s.failAll [] = s := rfl

theorem failAll_cons (s : MappingService) (n : Nat) (numbers : List Nat) :
    s.failAll (n :: numbers) = (s.step (.complete n (.error .peerUnavailable))).failAll numbers :=
  rfl

theorem parkedAt_failAll (s : MappingService) (i : UInt16) (numbers : List Nat) (n : Nat) :
    (s.failAll numbers).parkedAt i n = if n ∈ numbers then none else s.parkedAt i n := by
  induction numbers generalizing s with
  | nil => rfl
  | cons m numbers ih =>
    have first := s.parkedAt_callCompleted m (.error .peerUnavailable) i n
    rw [failAll_cons, ih]
    show (if n ∈ numbers then none else (s.callCompleted _ _).parkedAt i n) = _
    rw [first]
    by_cases eq : m = n
    · simp [eq]
    · simp [eq, Ne.symm eq]

/-- A key that is here, or parked with one of the calls that fail, is here afterwards. -/
theorem mem_stock_failAll (sound : s.Sound)
    (there : key ∈ s.stock i ∨ ∃ n ∈ numbers, ∃ entries, s.parkedAt i n = some entries ∧
      key ∈ entries) : key ∈ (s.failAll numbers).stock i := by
  induction numbers generalizing s with
  | nil =>
    obtain kept | ⟨n, none, -⟩ := there
    · exact kept
    · cases none
  | cons m numbers ih =>
    have failed := getElem?_stock_fail sound i key m .peerUnavailable
    refine ih (sound.step _) ?_
    obtain kept | ⟨n, among, entries, parks, inside⟩ := there
    · left
      rw [Std.ExtTreeMap.mem_iff_isSome_getElem?] at kept ⊢
      rw [failed, Option.isSome_or, kept, Bool.true_or]
    · by_cases eq : m = n
      · subst eq
        left
        rw [Std.ExtTreeMap.mem_iff_isSome_getElem?] at inside ⊢
        rw [failed, parks, Option.isSome_or]
        exact Bool.or_eq_true_iff.2 (.inr inside)
      · refine .inr ⟨n, (List.mem_cons.1 among).resolve_left (Ne.symm eq), entries, ?_, inside⟩
        refine (s.parkedAt_callCompleted m (.error .peerUnavailable) i n).trans ?_
        rw [if_neg eq, parks]

/-- What a key holds here it keeps when calls fail. -/
theorem getElem?_stock_failAll {present : Bytes} (sound : s.Sound)
    (held : (s.stock i)[key]? = some present) :
    ((s.failAll numbers).stock i)[key]? = some present := by
  induction numbers generalizing s with
  | nil => exact held
  | cons m numbers ih =>
    refine ih (sound.step _) ?_
    rw [getElem?_stock_fail sound, held, Option.some_or]

/-! ## What pending hand-offs come to -/

/-- A key has the given value once all pending hand-offs have failed, whichever fails first: the
value is here, or every pending hand-off that holds the key holds it with that value. -/
structure Settles (s : MappingService) (i : UInt16) (key : Bytes) (value : Option Bytes) :
    Prop where
  here : ∀ {present : Bytes}, (s.stock i)[key]? = some present → value = some present
  parked : ∀ {n : Nat} {entries : Entries} {present : Bytes}, (s.stock i)[key]? = none →
    s.parkedAt i n = some entries → entries[key]? = some present → value = some present
  somewhere : ∀ {present : Bytes}, value = some present →
    (s.stock i)[key]? = some present ∨
      ∃ n entries, s.parkedAt i n = some entries ∧ entries[key]? = some present

namespace Settles

/-- The value of a key is settled when nothing is parked. -/
theorem eq_of_none (settles : s.Settles i key value) (none : ∀ n, s.parkedAt i n = none) :
    (s.stock i)[key]? = value := by
  cases held : (s.stock i)[key]? with
  | some present => exact (settles.here held).symm
  | none =>
    cases value with
    | none => rfl
    | some present =>
      obtain kept | ⟨n, entries, parks, -⟩ := settles.somewhere rfl
      · rw [held] at kept
        cases kept
      · rw [none n] at parks
        cases parks

theorem fail (sound : s.Sound) (settles : s.Settles i key value) (number : Nat)
    (failure : Failure) : (s.step (.complete number (.error failure))).Settles i key value := by
  have stock := getElem?_stock_fail sound i key number failure
  have parked := s.parkedAt_callCompleted number (.error failure) i
  have earlier : ∀ {n : Nat} {entries : Entries},
      (s.step (.complete number (.error failure))).parkedAt i n = some entries →
        number ≠ n ∧ s.parkedAt i n = some entries := by
    intro n entries parks
    replace parks := (parked n).symm.trans parks
    split at parks
    next => cases parks
    next ne => exact ⟨ne, parks⟩
  refine { here := fun held => ?_, parked := fun missing parks inside => ?_,
           somewhere := fun eq => ?_ }
  · rw [stock, Option.or_eq_some_iff] at held
    obtain kept | ⟨missing, back⟩ := held
    · exact settles.here kept
    · obtain ⟨entries, parks, inside⟩ := Option.bind_eq_some_iff.1 back
      exact settles.parked missing parks inside
  · rw [stock, Option.or_eq_none_iff] at missing
    exact settles.parked missing.1 (earlier parks).2 inside
  · obtain kept | ⟨n, entries, parks, inside⟩ := settles.somewhere eq
    · left
      rw [stock, kept, Option.some_or]
    · by_cases same : number = n
      · subst same
        left
        rw [stock, parks]
        cases held : (s.stock i)[key]? with
        | none => exact inside
        | some present =>
          have := settles.here held
          rw [eq] at this
          exact this.symm
      · refine .inr ⟨n, entries, (parked n).trans ?_, inside⟩
        rw [if_neg same, parks]

theorem failAll (sound : s.Sound) (settles : s.Settles i key value) (numbers : List Nat) :
    (s.failAll numbers).Settles i key value := by
  induction numbers generalizing s with
  | nil => exact settles
  | cons n numbers ih => exact ih (sound.step _) (settles.fail sound n _)

end Settles

theorem step_disconnect_eq_failAll (s : MappingService) (peer : NodeName) :
    s.step (.disconnect peer) = s.failAll (s.callsTo peer) :=
  s.step_disconnect peer

/-- An operation that mislays nothing leaves every key settled, with the value it gives it. -/
theorem Settles.step (sound : s.Sound) (settles : s.Settles i key value)
    (refused : ¬ s.Acknowledges i op) (tidy : ¬ s.Mislays i op) :
    (s.step op).Settles i key ((lastChange key (s.changesOn i op)).getD value) := by
  obtain single | ⟨peer, rfl⟩ := op.single_or_disconnect
  case inr =>
    rw [step_disconnect_eq_failAll]
    exact settles.failAll sound _
  cases step_turn sound single i with
  | changed stock parked =>
    have after := getElem?_foldl_changed key (s.changesOn i op) (s.stock i)
    rw [← stock] at after
    cases last : lastChange key (s.changesOn i op) with
    | none =>
      rw [last, Option.getD_none] at after
      refine { here := fun held => settles.here (after ▸ held), parked := ?_, somewhere := ?_ }
      · intro n entries present missing parks inside
        exact settles.parked (after ▸ missing) (parked n ▸ parks) inside
      · intro present eq
        obtain kept | ⟨n, entries, parks, inside⟩ := settles.somewhere eq
        · exact .inl (after.trans kept)
        · exact .inr ⟨n, entries, (parked n).trans parks, inside⟩
    | some now =>
      rw [last, Option.getD_some] at after
      refine { here := fun held => after ▸ held, parked := ?_, somewhere := fun eq => ?_ }
      · intro n entries present missing parks inside
        -- the key was deleted, so no pending hand-off may hold it
        rw [after] at missing
        refine absurd ⟨key, n, entries, present, parked n ▸ parks, inside, .inl ?_⟩ tidy
        rw [last, missing]
      · exact .inl (after.trans eq)
  | handedOff number m held single nothing fresh stock parked =>
    have vacant := sound.numbered.parkedAt_eq_none (i := i) fresh
    have handsOff : s.HandsOff i op := by
      refine ⟨number, vacant, ?_⟩
      rw [parked, if_pos rfl]
      exact nofun
    rw [nothing, lastChange_nil, Option.getD_none]
    refine { here := fun held => ?_, parked := ?_, somewhere := ?_ }
    · rw [stock] at held
      simp at held
    · intro n entries present missing parks inside
      rw [parked] at parks
      split at parks
      next =>
        obtain rfl := Option.some.inj parks
        exact settles.here inside
      next =>
        cases kept : (s.stock i)[key]? with
        | none => exact settles.parked kept parks inside
        | some newer =>
          by_cases same : newer = present
          · exact same ▸ settles.here kept
          · exact absurd ⟨key, n, entries, present, parks, inside,
              .inr ⟨handsOff, newer, kept, same⟩⟩ tidy
    · intro present eq
      right
      obtain kept | ⟨n, entries, parks, inside⟩ := settles.somewhere eq
      · exact ⟨number, s.stock i, by rw [parked, if_pos rfl], kept⟩
      · refine ⟨n, entries, ?_, inside⟩
        rw [parked, if_neg, parks]
        rintro rfl
        rw [vacant] at parks
        cases parks
  | acknowledged number entries value ended was stock parked =>
    refine absurd ⟨number, value, ended, ?_⟩ refused
    rw [was]
    exact nofun
  | restored number entries failure ended was stock parked =>
    subst ended
    exact settles.fail sound number failure

theorem Settles.after (sound : s.Sound) (settles : s.Settles i key value)
    (refused : Throughout (fun s op => ¬ s.Acknowledges i op) s ops)
    (tidy : Throughout (fun s op => ¬ s.Mislays i op) s ops) :
    (s.after ops).Settles i key ((lastChange key (s.changesOver i ops)).getD value) := by
  induction ops generalizing s value with
  | nil => exact settles
  | cons op ops ih =>
    have next := ih (sound.step op) (settles.step sound refused.1 tidy.1) refused.2 tidy.2
    rw [changesOver, lastChange_append]
    cases last : lastChange key ((s.step op).changesOver i ops) with
    | some now =>
      rw [last] at next
      exact next
    | none =>
      rw [last] at next
      exact next

theorem Blank.settles (blank : s.Blank) (i : UInt16) (key : Bytes) : s.Settles i key none where
  here held := by
    have empty : s.stock i = ∅ := by
      cases kept : s.mappings[i]? with
      | none => exact stock_of_unheld kept
      | some m => rw [stock_of_held kept, (blank.empty kept).1]
    rw [empty] at held
    simp at held
  parked missing parks inside := by
    rw [blank.parkedAt_eq_none] at parks
    cases parks
  somewhere eq := nomatch eq

/-! ## What mislaid values do -/

theorem parkedAt_of_pending_keys {n : Nat} {entries : Entries}
    (parks : s.parkedAt i n = some entries) : n ∈ s.pending.keys := by
  obtain ⟨pending, found, -⟩ := Option.bind_eq_some_iff.1 parks
  rw [Std.ExtTreeMap.mem_keys, Std.ExtTreeMap.mem_iff_isSome_getElem?, found]
  rfl

/-- Whoever hands a copy off takes the turn to do so. -/
theorem HandsOff.turn (sound : s.Sound) (handsOff : s.HandsOff i op) :
    ∃ number, s.changesOn i op = [] ∧ s.lastRequest < number ∧ (s.step op).stock i = ∅ ∧
      ∀ n, (s.step op).parkedAt i n = if n = number then some (s.stock i) else s.parkedAt i n := by
  obtain ⟨vacancy, vacant, taken⟩ := handsOff
  have fewer : ∀ number : Nat, (∀ n, (s.step op).parkedAt i n =
      if number = n then none else s.parkedAt i n) → False := by
    intro number parked
    rw [parked, vacant, ite_self] at taken
    exact taken rfl
  obtain single | ⟨peer, rfl⟩ := op.single_or_disconnect
  case inr =>
    rw [step_disconnect_eq_failAll, parkedAt_failAll, vacant, ite_self] at taken
    exact absurd rfl taken
  cases step_turn sound single i with
  | changed stock parked =>
    rw [parked, vacant] at taken
    exact absurd rfl taken
  | handedOff number m held single nothing fresh stock parked =>
    exact ⟨number, nothing, fresh, stock, parked⟩
  | acknowledged number entries value ended was stock parked => exact (fewer number parked).elim
  | restored number entries failure ended was stock parked => exact (fewer number parked).elim

/-- Whoever makes changes hands nothing off and waits for the same as before. -/
theorem parkedAt_step_of_changes (sound : s.Sound) (some : s.changesOn i op ≠ []) (n : Nat) :
    (s.step op).parkedAt i n = s.parkedAt i n := by
  have single : op.IsSingle := by
    rintro peer rfl
    exact some rfl
  cases step_turn sound single i with
  | changed stock parked => exact parked n
  | handedOff number m held single nothing fresh stock parked => exact absurd nothing some
  | acknowledged number entries value ended was stock parked =>
    subst ended
    exact absurd rfl some
  | restored number entries failure ended was stock parked =>
    subst ended
    exact absurd rfl some

/-- After an operation that mislays a value the pending hand-offs may fail so that a key is not what
its changes made of it. -/
theorem Mislays.leaves_a_mark (sound : s.Sound) (mislays : s.Mislays i op)
    {values : Bytes → Option Bytes} (settles : ∀ key, s.Settles i key (values key)) :
    ∃ key order, (∀ n entries, (s.step op).parkedAt i n = some entries → n ∈ order) ∧
      (((s.step op).failAll order).stock i)[key]? ≠
        (lastChange key (s.changesOn i op)).getD (values key) := by
  obtain ⟨key, number, entries, value, parks, inside, deleted | ⟨handsOff, newer, kept, ne⟩⟩ :=
    mislays
  · -- the key is deleted, and comes back with the hand-off
    have some : s.changesOn i op ≠ [] := fun none => by simp [none] at deleted
    have parks' := (parkedAt_step_of_changes sound some number).trans parks
    refine ⟨key, (s.step op).pending.keys, fun n entries => parkedAt_of_pending_keys, ?_⟩
    have back : key ∈ ((s.step op).failAll (s.step op).pending.keys).stock i := by
      refine mem_stock_failAll (sound.step op)
        (.inr ⟨number, parkedAt_of_pending_keys parks', entries, parks', ?_⟩)
      rw [Std.ExtTreeMap.mem_iff_isSome_getElem?, inside]
      rfl
    rw [deleted, Option.getD_some]
    rw [Std.ExtTreeMap.mem_iff_isSome_getElem?] at back
    exact Option.isSome_iff_ne_none.1 back
  · -- the older value comes back first, and the newer one finds the key taken
    obtain ⟨latest, nothing, fresh, stock, parked⟩ := handsOff.turn sound
    have other : number ≠ latest := by
      rintro rfl
      rw [sound.numbered.parkedAt_eq_none fresh] at parks
      cases parks
    refine ⟨key, number :: (s.step op).pending.keys, fun n entries parks => ?_, ?_⟩
    · exact List.mem_cons_of_mem _ (parkedAt_of_pending_keys parks)
    · have first : (((s.step op).step (.complete number (.error .peerUnavailable))).stock i)[key]? =
          some value := by
        rw [getElem?_stock_fail (sound.step op), stock, parked, if_neg other, parks]
        simpa using inside
      rw [failAll_cons, getElem?_stock_failAll ((sound.step op).step _) first, nothing,
        lastChange_nil, Option.getD_none, (settles key).here kept]
      exact fun eq => ne (Option.some.inj eq).symm

/-- In a run in which no hand-off of a mapping is acknowledged, nothing is mislaid just if the copy
is what the changes made here make of it, at any time, whatever order the pending hand-offs fail in;
so it is when none is pending. -/
theorem refused_handOffs_leave_no_mark_iff (configured : s.Configured)
    (refused : Throughout (fun s op => ¬ s.Acknowledges i op) s ops) :
    Throughout (fun s op => ¬ s.Mislays i op) s ops ↔
      ∀ before order, before <+: ops →
        (∀ n entries, (s.after before).parkedAt i n = some entries → n ∈ order) →
        ((s.after before).failAll order).stock i =
          (s.changesOver i before).foldl Mapping.changed ∅ := by
  have sound := configured.blank.sound
  have blank := configured.blank.settles i
  have replayed : ∀ changes key, (changes.foldl Mapping.changed ∅)[key]? =
      (lastChange key changes).getD none := by
    intro changes key
    rw [getElem?_foldl_changed, Std.ExtTreeMap.getElem?_empty]
  constructor
  · rintro tidy before order ⟨rest, rfl⟩ covered
    refine Std.ExtTreeMap.ext_getElem? fun key => ?_
    have settles := (blank key).after sound (throughout_append.1 refused).1
      (throughout_append.1 tidy).1
    rw [replayed, (settles.failAll (sound.after before) order).eq_of_none fun n => ?_]
    rw [parkedAt_failAll]
    cases parks : (s.after before).parkedAt i n with
    | none => exact ite_self _
    | some entries => exact if_pos (covered n entries parks)
  · intro unmarked
    -- the first value that is mislaid leaves a mark
    suffices all : ∀ before, before <+: ops →
        Throughout (fun s op => ¬ s.Mislays i op) s before from
      all ops List.prefix_rfl
    intro before
    induction before using List.reverseRecOn with
    | nil => exact fun _ => trivial
    | append_singleton before op ih =>
      intro front
      have earlier := ih ((List.prefix_append before [op]).trans front)
      refine throughout_append.2 ⟨earlier, fun mislays => ?_, trivial⟩
      obtain ⟨rest, rfl⟩ := front
      rw [List.append_assoc] at refused
      have settles := fun key => (blank key).after sound (throughout_append.1 refused).1 earlier
      obtain ⟨key, order, covered, marked⟩ :=
        mislays.leaves_a_mark (sound.after before) settles
      have same := unmarked (before ++ [op]) order (List.prefix_append _ _)
      rw [after_append] at same
      have replay := replayed (s.changesOver i (before ++ [op])) key
      rw [← same covered] at replay
      refine marked (replay.trans ?_)
      rw [changesOver_append, lastChange_append]
      show ((lastChange key ((s.after before).changesOn i op ++ [])).or _).getD none = _
      rw [List.append_nil]
      cases lastChange key ((s.after before).changesOn i op) <;> rfl

/-! ## Runs of a lone master -/

/-- Nothing is mislaid as long as nothing is parked. -/
theorem not_mislays_of_unparked (none : ∀ n, s.parkedAt i n = none) : ¬ s.Mislays i op := by
  rintro ⟨key, number, entries, value, parks, -⟩
  rw [none] at parks
  cases parks

/-- Nothing is mislaid when a call ends. -/
theorem not_mislays_complete (sound : s.Sound) (n : Nat) (reply : MappingReply) :
    ¬ s.Mislays i (.complete n reply) := by
  rintro ⟨key, number, entries, value, parks, inside, deleted | ⟨handsOff, -⟩⟩
  · cases deleted
  · obtain ⟨latest, -, fresh, -, parked⟩ := handsOff.turn sound
    have mine := (parked latest).symm.trans (s.parkedAt_callCompleted n reply i latest)
    rw [if_pos rfl, sound.numbered.parkedAt_eq_none fresh, ite_self] at mine
    cases mine

theorem unparked_of_isEmpty (idle : s.pending.isEmpty = true) (n : Nat) :
    s.parkedAt i n = none := by
  rw [parkedAt, Std.ExtTreeMap.isEmpty_iff.1 idle]
  simp

/-- A node with one mapping that is kept in one place. -/
def loneMaster : MappingService := ((fresh "alpha" 1).configure "m" .single).2.close

theorem loneMaster_configured : loneMaster.Configured :=
  .close (.configure "m" .single (.fresh "alpha" 1))

theorem refused_of_never_ok {ops : List MappingOp}
    (never : ∀ number value, MappingOp.complete number (.ok value) ∉ ops) :
    Throughout (fun s op => ¬ s.Acknowledges i op) s ops := by
  refine throughout_of_forall (fun op there s => ?_) s
  rintro ⟨number, value, rfl, -⟩
  exact never number value there

/-- The node hands its copy off and gets it back. -/
def steadyRun : List MappingOp :=
  [.govern (.ofList ["alpha"]), .submit (.put 1 [107] [1]) 1,
   .govern (.ofList ["aa", "alpha"]), .complete 1 (.error .notMaster)]

theorem refused_handOffs_leave_no_mark_in_steadyRun :
    loneMaster.Configured ∧
      Throughout (fun s op => ¬ s.Acknowledges 1 op) loneMaster steadyRun ∧
      Throughout (fun s op => ¬ s.Mislays 1 op) loneMaster steadyRun ∧
      (loneMaster.after steadyRun).stock 1 =
        (loneMaster.changesOver 1 steadyRun).foldl Mapping.changed ∅ := by
  have refused : Throughout (fun s op => ¬ s.Acknowledges 1 op) loneMaster steadyRun :=
    refused_of_never_ok fun number value => by simp [steadyRun]
  have idle : (loneMaster.after steadyRun).pending.isEmpty = true := by decide +kernel
  have tidy : Throughout (fun s op => ¬ s.Mislays 1 op) loneMaster steadyRun := by
    have sound := loneMaster_configured.blank.sound
    refine ⟨not_mislays_of_unparked (unparked_of_isEmpty ?_),
      not_mislays_of_unparked (unparked_of_isEmpty ?_),
      not_mislays_of_unparked (unparked_of_isEmpty ?_),
      not_mislays_complete (((sound.step _).step _).step _) _ _, trivial⟩
    all_goals decide +kernel
  have covered : ∀ n entries,
      (loneMaster.after steadyRun).parkedAt 1 n = some entries → n ∈ [] := by
    intro n entries parks
    rw [unparked_of_isEmpty idle n] at parks
    cases parks
  have settled := (refused_handOffs_leave_no_mark_iff loneMaster_configured refused).1 tidy
    steadyRun [] List.prefix_rfl covered
  rw [failAll_nil] at settled
  exact ⟨loneMaster_configured, refused, tidy, settled⟩

/-- The node hands its copy off twice, with a new value the second time. The hand-offs fail in the
order in which they were sent. -/
def overtakenRun : List MappingOp :=
  [.govern (.ofList ["alpha"]), .submit (.put 1 [107] [1]) 1,
   .govern (.ofList ["aa", "alpha"]), .govern (.ofList ["alpha"]),
   .submit (.put 1 [107] [2]) 2, .govern (.ofList ["aa", "alpha"]),
   .complete 1 (.error .notMaster), .complete 2 (.error .notMaster)]

/-- The first value is back although the second one was written later and nothing is pending. -/
theorem refused_handOffs_leave_a_mark :
    loneMaster.Configured ∧
      Throughout (fun s op => ¬ s.Acknowledges 1 op) loneMaster overtakenRun ∧
      (∀ n, (loneMaster.after overtakenRun).parkedAt 1 n = none) ∧
      (loneMaster.after overtakenRun).stock 1 ≠
        (loneMaster.changesOver 1 overtakenRun).foldl Mapping.changed ∅ := by
  have values : ((loneMaster.after overtakenRun).stock 1)[([107] : Bytes)]? = some [1] ∧
      ((loneMaster.changesOver 1 overtakenRun).foldl Mapping.changed ∅)[([107] : Bytes)]? =
        some [2] := by
    decide +kernel
  have idle : (loneMaster.after overtakenRun).pending.isEmpty = true := by decide +kernel
  refine ⟨loneMaster_configured, refused_of_never_ok fun number value => by simp [overtakenRun],
    unparked_of_isEmpty idle, fun eq => ?_⟩
  rw [eq, values.2] at values
  exact absurd values.1 (by decide)

end MappingService

end Cohort

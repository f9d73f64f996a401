import Cohort.Proofs.Mapping.Turns

/-!
# A key at one node

What calls do to one key of a mapping: some do not delete it, wherever they run, and some have it
there afterwards, wherever they succeed. A service does not lose a key that nobody deletes, unless a
hand-off ends well: the key is kept here, or parked with a call.

## Main definitions

* `MappingCall.Spares`, `MappingCall.Brings`: what a call does to a key.
* `MappingService.Keeps`: a key is kept here, or parked with a call that has not ended well.

## Main statements

* `MappingCall.brings_put`, `MappingCall.brings_handOff`.
* `MappingService.Keeps.step`: a key that is not deleted stays.
-/

namespace Cohort

/-! ## What calls do to a key -/

/-- Wherever the call runs, it does not delete a key of a mapping. -/
def MappingCall.Spares (i : UInt16) (key : Bytes) (call : MappingCall) : Prop :=
  call.index = i → ∀ (m : Mapping) (changes : List Change) (reply : Option Bytes),
    m.plan call = .ok (changes, reply) → (key, none) ∉ changes

/-- Wherever the call succeeds, a key of a mapping is there afterwards. -/
def MappingCall.Brings (i : UInt16) (key : Bytes) (call : MappingCall) : Prop :=
  call.index = i ∧ ∀ (m : Mapping) (changes : List Change) (reply : Option Bytes),
    m.plan call = .ok (changes, reply) → key ∈ changes.foldl Mapping.changed m.entries

theorem mem_foldl_changed {key : Bytes} {changes : List Change} {entries : Entries} :
    key ∈ changes.foldl Mapping.changed entries ↔
      ((lastChange key changes).getD entries[key]?).isSome = true := by
  rw [Std.ExtTreeMap.mem_iff_isSome_getElem?, getElem?_foldl_changed]

/-- A key that is not deleted stays. -/
theorem mem_foldl_of_spared {key : Bytes} {changes : List Change} {entries : Entries}
    (spared : (key, none) ∉ changes) (there : key ∈ entries) :
    key ∈ changes.foldl Mapping.changed entries := by
  rw [mem_foldl_changed]
  cases last : lastChange key changes with
  | none => exact Std.ExtTreeMap.mem_iff_isSome_getElem?.1 there
  | some value =>
    cases value with
    | none => exact absurd (mem_of_lastChange last) spared
    | some value => rfl

/-- A key that is stored and not deleted is there. -/
theorem mem_foldl_of_stored {key value : Bytes} {changes : List Change} {entries : Entries}
    (spared : (key, none) ∉ changes) (stored : (key, some value) ∈ changes) :
    key ∈ changes.foldl Mapping.changed entries := by
  rw [mem_foldl_changed]
  cases last : lastChange key changes with
  | none => exact absurd rfl (lastChange_eq_none_iff.1 last _ stored)
  | some value =>
    cases value with
    | none => exact absurd (mem_of_lastChange last) spared
    | some value => rfl

namespace MappingCall

variable {i : UInt16} {key : Bytes}

theorem spares_get (i j : UInt16) (key other : Bytes) : (get j other).Spares i key := by
  rintro - m changes reply planned
  simp only [Mapping.plan, Except.ok.injEq, Prod.mk.injEq] at planned
  simp [← planned.1]

theorem spares_put (i j : UInt16) (key other value : Bytes) : (put j other value).Spares i key := by
  rintro - m changes reply planned
  simp only [Mapping.plan, Except.ok.injEq, Prod.mk.injEq] at planned
  simp [← planned.1]

theorem spares_remove {other : Bytes} (ne : other ≠ key) (i j : UInt16) :
    (remove j other).Spares i key := by
  rintro - m changes reply planned
  simp only [Mapping.plan, Except.ok.injEq, Prod.mk.injEq] at planned
  simp [← planned.1, Ne.symm ne]

theorem brings_put (i : UInt16) (key value : Bytes) : (put i key value).Brings i key := by
  refine ⟨rfl, fun m changes reply planned => ?_⟩
  have spared := spares_put i i key key value rfl m changes reply planned
  simp only [Mapping.plan, Except.ok.injEq, Prod.mk.injEq] at planned
  have stored : (key, some value) ∈ changes := by simp [← planned.1]
  exact mem_foldl_of_stored spared stored

theorem spares_handOff (i j : UInt16) (key : Bytes) (keys values : List Bytes) :
    (handOff j keys values).Spares i key := by
  rintro - m changes reply planned
  simp only [Mapping.plan] at planned
  split at planned
  next =>
    obtain rfl := (Prod.mk.inj (Except.ok.inj planned)).1
    simp
  next => cases planned

/-- Entries that are handed off are where they were handed to, but for keys that were there. -/
theorem brings_handOff {keys values : List Bytes} (there : key ∈ keys) :
    (handOff i keys values).Brings i key := by
  refine ⟨rfl, fun m changes reply planned => ?_⟩
  have spared := spares_handOff i i key keys values rfl m changes reply planned
  by_cases kept : key ∈ m.entries
  · exact mem_foldl_of_spared spared kept
  simp only [Mapping.plan] at planned
  split at planned
  next length =>
    obtain ⟨value, paired⟩ : ∃ value, (key, value) ∈ keys.zip values := by
      rw [← List.map_fst_zip (Nat.le_of_eq length)] at there
      obtain ⟨⟨key, value⟩, among, rfl⟩ := List.mem_map.1 there
      exact ⟨value, among⟩
    have stored : (key, some value) ∈ changes := by
      rw [← (Prod.mk.inj (Except.ok.inj planned)).1]
      refine List.mem_map.2 ⟨(key, value), List.mem_filter.2 ⟨paired, ?_⟩, rfl⟩
      rw [Bool.not_eq_true', ← Bool.not_eq_true]
      exact fun contained => kept (Std.ExtTreeMap.mem_iff_contains.2 contained)
    exact mem_foldl_of_stored spared stored
  next => cases planned

end MappingCall

namespace MappingService

variable {s : MappingService} {m : Mapping} {i : UInt16} {key : Bytes} {op : MappingOp}
  {call : MappingCall} {value : Option Bytes} {ended : Nat → Prop}

/-! ## A key at one node -/

/-- A key of a mapping is kept here, or parked with a call that has not come to a good end. -/
def Keeps (s : MappingService) (i : UInt16) (key : Bytes) (ended : Nat → Prop) : Prop :=
  key ∈ s.stock i ∨
    ∃ n entries, s.parkedAt i n = some entries ∧ key ∈ entries ∧ ¬ ended n

/-- What runs with success makes the changes that were planned. -/
theorem plan_of_run (held : s.mappings[call.index]? = some m) (ran : (s.run call).1 = .ok value) :
    m.plan call = .ok (s.changesBy call, value) := by
  have found : s.mapping? call.index = .ok m := by rw [mapping?, held]
  unfold run at ran
  unfold changesBy
  rw [found] at ran
  rw [held]
  cases planned : m.plan call with
  | error failure => simp [planned] at ran
  | ok outcome =>
    simp only [planned, Except.ok.injEq] at ran
    simp [planned, ← ran]

theorem spared_changesBy (spares : call.Spares i key) (about : call.index = i) :
    (key, none) ∉ s.changesBy call := by
  unfold changesBy
  split
  next m held =>
    split
    next changes reply planned => exact spares about m changes reply planned
    next => exact List.not_mem_nil
  next => exact List.not_mem_nil

/-- A call that runs here with success leaves a key here that it brings. -/
theorem mem_stock_of_submit (sound : s.Sound) (brings : call.Brings i key)
    (serves : s.servesOwn call.index = true) (ran : (s.run call).1 = .ok value) (ticket : Ticket) :
    key ∈ (s.step (.submit call ticket)).stock i := by
  obtain ⟨rfl, brings⟩ := brings
  obtain ⟨m, held⟩ := held_of_servesOwn serves
  have single : (MappingOp.submit call ticket).IsSingle := fun _ => nofun
  rw [stock_step sound single held]
  simpa [turned, Mapping.committed, madeOn, serves] using brings m _ _ (plan_of_run held ran)

theorem mem_stock_of_handle (sound : s.Sound) (brings : call.Brings i key)
    (done : (s.handleCall call).1 = .ok value) : key ∈ (s.step (.handle call)).stock i := by
  obtain ⟨rfl, brings⟩ := brings
  obtain ⟨serves, ran⟩ | ⟨-, failure, refused⟩ := s.handleCall_cases call
  · obtain ⟨m, held, -⟩ := held_of_servesOthers serves
    have single : (MappingOp.handle call).IsSingle := fun _ => nofun
    rw [ran] at done
    rw [stock_step sound single held]
    simpa [turned, Mapping.committed, madeOn, serves] using brings m _ _ (plan_of_run held done)
  · rw [refused] at done
    cases done

theorem mem_regained {kept entries : Entries} (there : key ∈ kept ∨ key ∈ entries) :
    key ∈ entries.toList.foldl (fun kept entry => kept.insertIfNew entry.1 entry.2) kept := by
  simp only [Std.ExtTreeMap.mem_iff_isSome_getElem?] at there ⊢
  rwa [getElem?_regained, Option.isSome_or, Bool.or_eq_true]

/-- A key that is not deleted here stays here, parked or not, as long as no call is answered well
that is not known to have ended well. -/
theorem Keeps.step_single (sound : s.Sound) (single : op.IsSingle) (keeps : s.Keeps i key ended)
    (spared : (key, none) ∉ s.changesOn i op) (given : ∀ n, ended n → n ≤ s.lastRequest)
    (known : ∀ n value, op = .complete n (.ok value) → ended n) :
    (s.step op).Keeps i key ended := by
  cases step_turn sound single i with
  | changed stock parked =>
    obtain here | ⟨n, entries, parks, inside, unended⟩ := keeps
    · exact .inl (stock ▸ mem_foldl_of_spared spared here)
    · exact .inr ⟨n, entries, (parked n).trans parks, inside, unended⟩
  | handedOff number m held single nothing fresh stock parked =>
    obtain here | ⟨n, entries, parks, inside, unended⟩ := keeps
    · -- the new hand-off has a number under which nothing has ended yet
      refine .inr ⟨number, s.stock i, by rw [parked, if_pos rfl], here, fun ended => ?_⟩
      exact absurd (given number ended) (Nat.not_le_of_lt fresh)
    · refine .inr ⟨n, entries, ?_, inside, unended⟩
      rw [parked, if_neg, parks]
      rintro rfl
      rw [sound.numbered.parkedAt_eq_none fresh] at parks
      cases parks
  | acknowledged number entries value ended was stock parked =>
    obtain here | ⟨n, entries, parks, inside, unended⟩ := keeps
    · exact .inl (stock ▸ here)
    · refine .inr ⟨n, entries, ?_, inside, unended⟩
      rw [parked, if_neg, parks]
      rintro rfl
      exact unended (known number value ended)
  | restored number entries failure ended was stock parked =>
    rw [Keeps, stock]
    obtain here | ⟨n, entries', parks, inside, unended⟩ := keeps
    · exact .inl (mem_regained (.inl here))
    · by_cases same : number = n
      · subst same
        obtain rfl := Option.some.inj (was.symm.trans parks)
        exact .inl (mem_regained (.inr inside))
      · exact .inr ⟨n, entries', by rw [parked, if_neg same, parks], inside, unended⟩

/-- A key that is not deleted stays here when calls fail with a peer, or whatever else happens. -/
theorem Keeps.step (sound : s.Sound) (keeps : s.Keeps i key ended)
    (spared : (key, none) ∉ s.changesOn i op) (given : ∀ n, ended n → n ≤ s.lastRequest)
    (known : ∀ n value, op = .complete n (.ok value) → ended n) :
    (s.step op).Keeps i key ended := by
  obtain single | ⟨peer, rfl⟩ := op.single_or_disconnect
  · exact keeps.step_single sound single spared given known
  -- the calls of the peer fail one by one, and none of them ends well
  have kept := disconnect_keeps (P := fun t => t.Sound ∧ t.Keeps i key ended ∧
    ∀ n, ended n → n ≤ t.lastRequest) ?_ ⟨sound, keeps, given⟩ peer
  · exact kept.2.1
  rintro t n failure ⟨sound, keeps, given⟩
  have single : (MappingOp.complete n (.error failure)).IsSingle := fun _ => nofun
  refine ⟨sound.step (.complete n (.error failure)), ?_, ?_⟩
  · exact keeps.step_single sound single List.not_mem_nil given fun _ _ => nofun
  · rwa [(t.pending_callCompleted n (.error failure)).2.1]

end MappingService

end Cohort

import Cohort.Proofs.Lock.Likeness
import Cohort.Proofs.Lock.Truth

/-!
# Locks do not influence each other

All locks of a node share its followers, its peers, the numbers of its attempts and the list of what
is to be done, and several operations walk over all of them. Still, what happens to one lock is what
would happen to it if there were no other: a run, and the run that keeps only what concerns this
lock, agree about it at every time, but for the numbers of attempts.

## Main definitions

* `LockOp.within?`: what of an operation concerns a lock.
* `Arbitrator.AgreeOn`: two arbitrators agree about a lock, but for the numbers of attempts.

## Main statements

* `Arbitrator.Parallel.step`, `Arbitrator.Parallel.run`: an operation, and a run, with and without
  the other locks.
* `Arbitrator.locks_are_independent`: every run agrees with what of it concerns one lock.
-/

namespace Cohort

/-- An operation cut down to a lock, with the numbers of attempts changed. -/
def LockOp.cutDown (lock : Lock) (rename : Nat → Nat) : LockOp → LockOp
  | .timeout other generation => .timeout other (rename generation)
  | .peerSubscribed peer locks => .peerSubscribed peer (locks.filter fun other => other = lock)
  | op => op

/-- What of an operation concerns a lock: nothing, if it names another one. -/
def LockOp.within? (lock : Lock) (rename : Nat → Nat) (op : LockOp) : Option LockOp :=
  if op.lock?.any (· ≠ lock) then none else some (op.cutDown lock rename)

/-- An effect with the numbers of attempts changed. -/
def LockEffect.renumber (rename : Nat → Nat) : LockEffect → LockEffect
  | .startTimer lock generation => .startTimer lock (rename generation)
  | effect => effect

/-- Every ticket is issued for one lock only. -/
def Unambiguous (issued : List (Lock × Ticket)) : Prop :=
  ∀ lock other ticket, (lock, ticket) ∈ issued → (other, ticket) ∈ issued → lock = other

namespace Arbitrator

variable {lock other : Lock} {issued : List (Lock × Ticket)} {born later : List Nat}
  {t t' s s' : Arbitrator} {asked asked' : List Ticket} {op : LockOp} {peer : NodeName}

/-- The place of a number among those of the attempts on a lock, counted from one. -/
def placeIn (born : List Nat) (generation : Nat) : Nat :=
  if generation ∈ born then born.idxOf generation + 1 else 0

theorem eq_placeIn_iff (increasing : born.Pairwise (· < ·)) {generation number : Nat}
    (numbered : Numbered born generation number) (given : Nat) :
    number = placeIn born given ↔ generation = given := by
  obtain ⟨place, there, rfl⟩ := numbered
  obtain ⟨bound, rfl⟩ := List.getElem?_eq_some_iff.1 there
  have distinct : born.Nodup := increasing.imp Nat.ne_of_lt
  unfold placeIn
  split
  next among =>
    rw [Nat.add_right_cancel_iff]
    constructor
    · rintro rfl
      exact List.getElem_idxOf bound
    · rintro rfl
      exact (distinct.idxOf_getElem place bound).symm
  next absent =>
    refine iff_of_false (Nat.succ_ne_zero place) ?_
    rintro rfl
    exact absent (List.getElem_mem bound)

/-! ## With the other locks and without them -/

/-- There is no lock but the one given. -/
structure Lone (lock : Lock) (s : Arbitrator) : Prop where
  attempts : ∀ other ≠ lock, s.attempts[other]? = none
  record : ∀ (peer : NodeName) (other : Lock), other ∈ s.peerLocks[peer]?.getD ∅ → other = lock

theorem Lone.handles (lone : s.Lone lock) (handles : s.Handles lock asked s') : s'.Lone lock := by
  refine ⟨fun other ne => ?_, fun peer other there => ?_⟩
  · rw [(handles.elsewhere other ne).1]
    exact lone.attempts other ne
  · by_contra ne
    exact ne (lone.record peer other ((handles.record other ne peer).1 there))

/-- The first arbitrator deals with all locks, and the second one with the one given only. They
agree about that. -/
structure Parallel (lock : Lock) (issued : List (Lock × Ticket)) (born : List Nat)
    (t s : Arbitrator) : Prop where
  alike : Alike lock issued born t s
  filed : t.Filed issued
  lone : s.Lone lock

/-- The second arbitrator may have begun further attempts. -/
def Onward (lock : Lock) (issued : List (Lock × Ticket)) (born : List Nat) (t s : Arbitrator) :
    Prop :=
  ∃ later, Parallel lock issued (born ++ later) t s

theorem Onward.bind (onward : Onward lock issued born t s)
    (next : ∀ born, Parallel lock issued born t s → Onward lock issued born t' s') :
    Onward lock issued born t' s' := by
  obtain ⟨later, parallel⟩ := onward
  obtain ⟨later', parallel'⟩ := next _ parallel
  exact ⟨later ++ later', by rwa [← List.append_assoc]⟩

namespace Parallel

theorem onward (parallel : Parallel lock issued born t s) : Onward lock issued born t s :=
  ⟨[], by rwa [List.append_nil]⟩

/-- Both do something about the lock. -/
theorem here (parallel : Parallel lock issued born t s)
    (abreast : Abreast lock issued born t' s') (handles : t.Handles lock asked t')
    (handles' : s.Handles lock asked' s') (ask : ∀ ticket ∈ asked, (lock, ticket) ∈ issued) :
    Onward lock issued born t' s' := by
  obtain ⟨later, alike⟩ := abreast
  exact ⟨later, alike, parallel.filed.handled handles ask,
    parallel.lone.handles handles'⟩

/-- Something is done about another lock. -/
theorem apart (parallel : Parallel lock issued born t s) (single : Unambiguous issued)
    (ne : lock ≠ other) (proceeds : t.Proceeds other t') (handles : t.Handles other asked t')
    (ask : ∀ ticket ∈ asked, (other, ticket) ∈ issued) : Parallel lock issued born t' s := by
  refine ⟨parallel.alike.apart ne proceeds handles fun ticket there mine => ?_,
    parallel.filed.handled handles ask, parallel.lone⟩
  have theirs : (other, ticket) ∈ issued :=
    (List.mem_append.1 there).elim (parallel.filed other ticket) (ask ticket)
  exact ne (single lock other ticket mine theirs)

/-- Nothing is done about any lock. -/
theorem congr (parallel : Parallel lock issued born t s) (alike : Alike lock issued born t' s')
    (attempts : t'.attempts = t.attempts) (attempts' : s'.attempts = s.attempts)
    (record : ∀ (peer : NodeName) (other : Lock), other ∈ s'.peerLocks[peer]?.getD ∅ →
      other ∈ s.peerLocks[peer]?.getD ∅) : Parallel lock issued born t' s' := by
  refine ⟨alike, parallel.filed.congr attempts, fun other ne => ?_, fun peer other there => ?_⟩
  · rw [attempts']
    exact parallel.lone.attempts other ne
  · exact parallel.lone.record peer other (record peer other there)

/-- One lock after the other is handled, with the other locks and without them. -/
theorem foldl {f : Arbitrator → Lock → Arbitrator}
    (each : ∀ t lock, Moves .whole lock ⟨t, []⟩ ⟨f t lock, []⟩)
    (same : ∀ born t s, Alike lock issued born t s → t.Filed issued →
      Abreast lock issued born (f t lock) (f s lock))
    (single : Unambiguous issued) (locks : List Lock) (parallel : Parallel lock issued born t s) :
    Onward lock issued born (locks.foldl f t) ((locks.filter (· = lock)).foldl f s) := by
  induction locks generalizing born t s with
  | nil => exact parallel.onward
  | cons other locks ih =>
    have handles (u : Arbitrator) : u.Handles other [] (f u other) := (each u other).handles
    by_cases this : other = lock
    · subst this
      rw [List.filter_cons, if_pos (decide_eq_true rfl)]
      refine Onward.bind ?_ fun born parallel => ih parallel
      exact parallel.here (same born t s parallel.alike parallel.filed) (handles t) (handles s)
        nofun
    · rw [List.filter_cons, if_neg (by simpa using this)]
      exact ih (parallel.apart single (Ne.symm this) (each t other).proceeds (handles t) nofun)

end Parallel

/-- Lists of locks without repetition that agree about one lock, which is the only one in the
second. -/
theorem filter_eq_of_mem_iff {locks locks' : List Lock} (distinct : locks.Nodup)
    (distinct' : locks'.Nodup) (alone : ∀ other ∈ locks', other = lock)
    (same : lock ∈ locks' ↔ lock ∈ locks) : locks.filter (· = lock) = locks' := by
  have whole : locks'.filter (· = lock) = locks' :=
    List.filter_eq_self.2 fun other there => decide_eq_true (alone other there)
  rw [← whole, List.filter_eq, List.filter_eq, distinct.count, distinct'.count]
  simp only [same]

namespace Parallel

/-! ### Operations on one lock -/

/-- An operation that names the lock. -/
theorem step_abreast (alike : Alike lock issued born t s) (filed : t.Filed issued)
    (names : op.lock? = some lock) (ask : ∀ request ∈ op.requests, request ∈ issued) :
    Abreast lock issued born (t.step op) (s.step (op.cutDown lock (placeIn born))) := by
  cases op with
  | acquire lock ticket => cases names; exact alike.acquire (ask _ List.mem_cons_self)
  | release lock ticket => cases names; exact alike.release (ask _ List.mem_cons_self)
  | query lock ticket => cases names; exact (alike.query (ask _ List.mem_cons_self)).abreast
  | reacquire lock => cases names; exact alike.reacquire filed
  | ratify node lock acquire => cases names; exact alike.ratify filed node acquire
  | timeout lock generation =>
    cases names
    exact alike.timeout filed fun g number numbered =>
      eq_placeIn_iff alike.increasing numbered generation
  | peerAcquiring peer lock => cases names; exact alike.peerAcquiring peer
  | peerReleasing peer lock => cases names; exact alike.peerReleasing peer
  | peerAdded peer lock => cases names; exact alike.peerAdded filed peer
  | peerKept peer lock => cases names; exact alike.peerKept filed peer
  | peerRemoved peer lock => cases names; exact alike.peerRemoved filed peer
  | _ => cases names

/-! ### Operations that walk over several locks -/

/-- Among the locks with attempts of some kind, this one is there or not in both. -/
theorem attempted (parallel : Parallel lock issued born t s) {kind : Lock × Attempt → Bool}
    (same : ∀ attempt number, kind (lock, attempt.under number) = kind (lock, attempt)) :
    ((t.attempts.toList.filter kind).map Prod.fst).filter (· = lock) =
      (s.attempts.toList.filter kind).map Prod.fst := by
  have mem : ∀ (u : Arbitrator) (other : Lock),
      other ∈ (u.attempts.toList.filter kind).map Prod.fst ↔
        ∃ attempt, u.attempts[other]? = some attempt ∧ kind (other, attempt) = true := by
    intro u other
    simp only [List.mem_map, List.mem_filter, Prod.exists, exists_and_right, exists_eq_right,
      Std.ExtTreeMap.mem_toList_iff_getElem?_eq_some]
  refine filter_eq_of_mem_iff (t.nodup_attempts _) (s.nodup_attempts _) (fun other there => ?_) ?_
  · obtain ⟨attempt, current, -⟩ := (mem s other).1 there
    by_contra ne
    rw [parallel.lone.attempts other ne] at current
    cases current
  · rw [mem, mem]
    obtain ⟨idle, idle'⟩ | ⟨attempt, number, current, current', -⟩ := parallel.alike.attempts
    · simp [idle, idle']
    · simp only [current, current', Option.some.injEq, exists_eq_left', same]

/-- What is known of a peer is forgotten by both. -/
theorem forgetting (parallel : Parallel lock issued born t s)
    {f : Std.ExtTreeMap NodeName LockSet → Std.ExtTreeMap NodeName LockSet} (peer : NodeName)
    (forgets : ∀ (table : Std.ExtTreeMap NodeName LockSet) (p : NodeName) (other : Lock),
      other ∈ (f table)[p]?.getD ∅ ↔ peer ≠ p ∧ other ∈ table[p]?.getD ∅) :
    Parallel lock issued born { t with peerLocks := f t.peerLocks }
      { s with peerLocks := f s.peerLocks } := by
  refine parallel.congr { parallel.alike with record := fun p => ?_ } rfl rfl
    fun p other there => ?_
  · rw [forgets, forgets, parallel.alike.record]
  · exact ((forgets s.peerLocks p other).1 there).2

theorem removeSubscriber (parallel : Parallel lock issued born t s) (single : Unambiguous issued)
    (node : NodeName) :
    Onward lock issued born (t.removeSubscriber node) (s.removeSubscriber node) := by
  have awaited : (t.awaiting node).filter (· = lock) = s.awaiting node :=
    parallel.attempted fun _ _ => rfl
  have left : Parallel lock issued born { t with subscribers := t.subscribers.erase node }
      { s with subscribers := s.subscribers.erase node } :=
    parallel.congr { parallel.alike with
      subscribers := congrArg (·.erase node) parallel.alike.subscribers } rfl rfl fun _ _ => id
  have struck := left.foldl (fun _ _ => .single (.struck node (.inl trivial)))
    (fun _ _ _ alike _ => (alike.strike node).abreast) single (t.awaiting node)
  have completed := struck.bind fun born parallel => parallel.foldl
    (fun _ _ => completeIfReady_moves Scope.whole_lenient)
    (fun _ _ _ alike filed => alike.completeIfReady filed) single (t.awaiting node)
  rwa [awaited] at completed

theorem peerSubscribed (parallel : Parallel lock issued born t s) (single : Unambiguous issued)
    (peer : NodeName) (locks : LockSet) : Onward lock issued born (t.peerSubscribed peer locks)
      (s.peerSubscribed peer (locks.filter fun other => other = lock)) := by
  have mem_cut : ∀ other, other ∈ (locks.filter fun other => other = lock).toList ↔
      other ∈ locks.toList ∧ other = lock := by
    intro other
    simp [Std.ExtTreeSet.mem_toList, Std.ExtTreeSet.mem_filter]
  have cut : locks.toList.filter (· = lock) = (locks.filter fun other => other = lock).toList :=
    filter_eq_of_mem_iff (LockSet.nodup_toList _) (LockSet.nodup_toList _)
      (fun other there => ((mem_cut other).1 there).2) (by rw [mem_cut, and_iff_left rfl])
  have blank := parallel.forgetting (f := fun table => table.insert peer ∅) peer
    fun table p other => by
      by_cases same : peer = p <;> simp [Std.ExtTreeMap.getElem?_insert, same]
  have added := blank.foldl
    (fun _ _ => peerAdded_moves trivial (Scope.whole_lenient.suits _ _))
    (fun _ _ _ alike filed => alike.peerAdded filed peer) single locks.toList
  rwa [cut] at added

/-- The locks that a peer attempts are looked up before any attempt on them fails. -/
theorem failAttempts (parallel : Parallel lock issued born t s) (single : Unambiguous issued)
    (peer : NodeName) : Onward lock issued born ((t.attemptsOf peer).foldl failOfPeer t)
      ((s.attemptsOf peer).foldl failOfPeer s) := by
  have theirs : (t.attemptsOf peer).filter (· = lock) = s.attemptsOf peer :=
    parallel.attempted fun _ _ => rfl
  rw [← theirs]
  exact parallel.foldl (fun _ _ => failOfPeer_moves Scope.whole_lenient)
    (fun _ _ _ alike filed => (alike.failOfPeer filed).abreast) single _

theorem peerDisconnected (parallel : Parallel lock issued born t s) (single : Unambiguous issued)
    (peer : NodeName) :
    Onward lock issued born (t.peerDisconnected peer) (s.peerDisconnected peer) := by
  have known : (t.peerLocks[peer]?.getD ∅).toList.filter (· = lock) =
      (s.peerLocks[peer]?.getD ∅).toList := by
    refine filter_eq_of_mem_iff (LockSet.nodup_toList _) (LockSet.nodup_toList _)
      (fun other there => parallel.lone.record peer other (Std.ExtTreeSet.mem_toList.1 there)) ?_
    rw [Std.ExtTreeSet.mem_toList, Std.ExtTreeSet.mem_toList, parallel.alike.record]
  have forgotten := parallel.forgetting (f := fun table => table.erase peer) peer
    fun table p other => by
      by_cases same : peer = p <;> simp [Std.ExtTreeMap.getElem?_erase, same]
  have freed := forgotten.foldl (fun _ _ => freeOfPeer_moves (Scope.whole_lenient.suits _ _))
    (fun _ _ _ alike filed => alike.freeOfPeer filed peer) single
    (t.peerLocks[peer]?.getD ∅).toList
  rw [known] at freed
  exact freed.bind fun _ parallel => parallel.failAttempts single peer

theorem shutDown (parallel : Parallel lock issued born t s) (single : Unambiguous issued) :
    Onward lock issued born t.shutDown s.shutDown := by
  have whole : ∀ u : Arbitrator, u.attempts.keys =
      (u.attempts.toList.filter fun _ => true).map Prod.fst := by
    intro u
    rw [List.filter_eq_self.2 fun _ _ => rfl, Std.ExtTreeMap.map_fst_toList_eq_keys]
  have ended := parallel.foldl (fun _ _ => endAttempt_moves Scope.whole_lenient)
    (fun _ _ _ alike filed => (alike.endAttempt filed).abreast) single t.attempts.keys
  rwa [whole t, parallel.attempted fun _ _ => rfl, ← whole t, ← whole s] at ended

end Parallel

/-! ### Any operation -/

theorem within?_of_ne {rename : Nat → Nat} (names : op.lock? = some other) (ne : other ≠ lock) :
    op.within? lock rename = none := by
  rw [LockOp.within?, names, if_pos (by simpa using ne)]

theorem within?_of_eq {rename : Nat → Nat} (names : ∀ other, op.lock? = some other → other = lock) :
    op.within? lock rename = some (op.cutDown lock rename) := by
  rw [LockOp.within?, if_neg]
  cases named : op.lock? with
  | none => simp
  | some other => simpa using names other named

theorem lock?_cutDown (lock : Lock) (rename : Nat → Nat) (op : LockOp) :
    (op.cutDown lock rename).lock? = op.lock? := by
  cases op <;> rfl

/-- Who asks by an operation asks for the lock that it names. -/
theorem requests_of_names (names : op.lock? = some lock) :
    ∀ ticket ∈ op.requests.map Prod.snd, (lock, ticket) ∈ op.requests := by
  cases op <;> cases names <;> simp [LockOp.requests]

namespace Parallel

/-- With or without the other locks, an operation does the same about this one. -/
theorem step (parallel : Parallel lock issued born t s) (single : Unambiguous issued)
    (op : LockOp) (ask : ∀ request ∈ op.requests, request ∈ issued) :
    Onward lock issued born (t.step op) (s.run (op.within? lock (placeIn born)).toList) := by
  cases names : op.lock? with
  | some other =>
    have asks : ∀ ticket ∈ op.requests.map Prod.snd, (other, ticket) ∈ issued :=
      fun ticket there => ask _ (requests_of_names names ticket there)
    by_cases this : other = lock
    · subst this
      rw [within?_of_eq fun _ same => Option.some.inj (same.symm.trans names)]
      have handles' := step_handles ((lock?_cutDown other (placeIn born) op).trans names) s
      exact parallel.here (step_abreast parallel.alike parallel.filed names ask)
        (step_handles names t) handles' asks
    · rw [within?_of_ne names this]
      exact (parallel.apart single (Ne.symm this) (step_proceeds names t) (step_handles names t)
        asks).onward
  | none =>
    rw [within?_of_eq (by simp [names])]
    cases op with
    | addSubscriber node =>
      have joined : Parallel lock issued born (t.addSubscriber node) (s.addSubscriber node) :=
        parallel.congr { parallel.alike with
          subscribers := congrArg (·.insert node) parallel.alike.subscribers } rfl rfl fun _ _ => id
      exact joined.onward
    | removeSubscriber node => exact parallel.removeSubscriber single node
    | peerSubscribed peer locks => exact parallel.peerSubscribed single peer locks
    | peerDisconnected peer => exact parallel.peerDisconnected single peer
    | setPrecedence outranks =>
      have decided : Parallel lock issued born { t with outranks } { s with outranks } :=
        parallel.congr { parallel.alike with outranks := rfl } rfl rfl fun _ _ => id
      exact decided.onward
    | shutDown => exact parallel.shutDown single
    | _ => cases names

/-- Numbers that were not given to attempts on the lock yet do not matter: a timer for one of them
is none of an attempt that is there. -/
theorem run_within (parallel : Parallel lock issued born t s) (op : LockOp)
    (increasing : (born ++ later).Pairwise (· < ·)) :
    s.run (op.within? lock (placeIn (born ++ later))).toList =
      s.run (op.within? lock (placeIn born)).toList := by
  cases op with
  | timeout other generation =>
    by_cases this : other = lock
    · subst this
      have timed : ∀ rename : Nat → Nat, s.run ((LockOp.timeout other generation).within? other
          rename).toList = s.timeout other (rename generation) := by
        intro rename
        have names : (LockOp.timeout other generation).lock? = some other := rfl
        rw [within?_of_eq fun _ named => Option.some.inj (named.symm.trans names)]
        rfl
      rw [timed, timed]
      unfold Arbitrator.timeout
      obtain ⟨-, idle⟩ | ⟨attempt, number, -, current, numbered⟩ := parallel.alike.attempts
      · rw [idle]
      · have same :
            number = placeIn (born ++ later) generation ↔ number = placeIn born generation :=
          (eq_placeIn_iff increasing (numbered.append later) generation).trans
            (eq_placeIn_iff parallel.alike.increasing numbered generation).symm
        simp only [current, same]
    · rw [within?_of_ne rfl this, within?_of_ne rfl this]
  | _ => rfl

/-- With or without the other locks, a run does the same about this one, at every time. -/
theorem run (parallel : Parallel lock issued born t s) (single : Unambiguous issued)
    (ops : List LockOp) (ask : ∀ request ∈ requestsOf ops, request ∈ issued) :
    ∃ later, (born ++ later).Pairwise (· < ·) ∧ ∀ before after, ops = before ++ after →
      ∃ middle rest, later = middle ++ rest ∧ Parallel lock issued (born ++ middle) (t.run before)
        (s.run (before.filterMap (·.within? lock (placeIn (born ++ later))))) := by
  induction ops generalizing born t s with
  | nil =>
    refine ⟨[], by simpa using parallel.alike.increasing, fun before after split => ?_⟩
    obtain ⟨rfl, -⟩ := List.append_eq_nil_iff.1 split.symm
    exact ⟨[], [], rfl, (List.append_nil born).symm ▸ parallel⟩
  | cons op ops ih =>
    have asks : ∀ request ∈ op.requests ++ requestsOf ops, request ∈ issued := ask
    obtain ⟨first, stepped⟩ := parallel.step single op fun request there =>
      asks request (List.mem_append_left _ there)
    obtain ⟨later, increasing, parts⟩ := ih stepped fun request there =>
      asks request (List.mem_append_right _ there)
    rw [List.append_assoc] at increasing
    refine ⟨first ++ later, increasing, fun before after split => ?_⟩
    cases before with
    | nil => exact ⟨[], first ++ later, rfl, (List.append_nil born).symm ▸ parallel⟩
    | cons op' before =>
      obtain ⟨rfl, rest⟩ := List.cons.inj split
      obtain ⟨middle, rest, rfl, along⟩ := parts before after rest
      refine ⟨first ++ middle, rest, (List.append_assoc ..).symm, ?_⟩
      have whole : ∀ rename, s.run ((op :: before).filterMap (·.within? lock rename)) =
          (s.run (op.within? lock rename).toList).run
            (before.filterMap (·.within? lock rename)) := by
        intro rename
        rw [List.filterMap_cons]
        cases op.within? lock rename <;> rfl
      rw [whole, parallel.run_within op increasing, ← List.append_assoc, ← List.append_assoc]
      exact along

end Parallel

/-! ## Runs -/

/-- Two arbitrators agree about a lock, but for the numbers of attempts: the callers of the lock
wait in the same order on the same attempt, and the same was wanted and answered in the same
order. -/
structure AgreeOn (lock : Lock) (issued : List (Lock × Ticket)) (rename : Nat → Nat)
    (t s : Arbitrator) : Prop where
  held : lock ∈ s.held ↔ lock ∈ t.held
  peerLocks : ∀ peer : NodeName,
    lock ∈ s.peerLocks[peer]?.getD ∅ ↔ lock ∈ t.peerLocks[peer]?.getD ∅
  attempts : s.attempts[lock]? =
    t.attempts[lock]?.map fun attempt => { attempt with generation := rename attempt.generation }
  outbox : s.outbox = (t.outbox.filter (·.isAbout lock issued)).map (·.renumber rename)
  /-- Attempts on the lock have a new number. -/
  numbered : ∀ generation, (∃ attempt, t.attempts[lock]? = some attempt ∧
    attempt.generation = generation) ∨ .startTimer lock generation ∈ t.outbox →
      rename generation ≠ 0

theorem strictMonoOn_placeIn (increasing : born.Pairwise (· < ·)) :
    StrictMonoOn (placeIn born) {generation | placeIn born generation ≠ 0} := by
  have there : ∀ generation, placeIn born generation ≠ 0 → generation ∈ born := by
    intro generation placed
    by_contra absent
    exact placed (if_neg absent)
  intro generation placed generation' placed' before
  have here := there generation placed
  have here' := there generation' placed'
  have bound := List.idxOf_lt_length_iff.2 here
  have bound' := List.idxOf_lt_length_iff.2 here'
  rw [placeIn, placeIn, if_pos here, if_pos here', Nat.add_lt_add_iff_right]
  obtain less | same | more := Nat.lt_trichotomy (born.idxOf generation) (born.idxOf generation')
  · exact less
  · rw [(List.idxOf_inj here).1 same] at before
    exact absurd before (Nat.lt_irrefl _)
  · have after := List.pairwise_iff_getElem.1 increasing _ _ bound' bound more
    rw [List.getElem_idxOf, List.getElem_idxOf] at after
    omega

theorem Numbered.placeIn_ne_zero (increasing : born.Pairwise (· < ·)) {generation number : Nat}
    (numbered : Numbered born generation number) : placeIn born generation ≠ 0 := by
  rw [← (eq_placeIn_iff increasing numbered generation).2 rfl]
  obtain ⟨place, -, rfl⟩ := numbered
  exact Nat.succ_ne_zero place

theorem SameEffect.eq_renumber (increasing : born.Pairwise (· < ·)) {effect effect' : LockEffect}
    (same : SameEffect born effect effect') : effect.renumber (placeIn born) = effect' := by
  cases same with
  | same untimed =>
    cases effect with
    | startTimer lock generation => exact absurd rfl (untimed lock generation)
    | _ => rfl
  | timer lock numbered =>
    rw [LockEffect.renumber, ← (eq_placeIn_iff increasing numbered _).2 rfl]

theorem Alike.agreeOn (alike : Alike lock issued born t s)
    (increasing : (born ++ later).Pairwise (· < ·)) :
    AgreeOn lock issued (placeIn (born ++ later)) t s where
  held := alike.held
  peerLocks := alike.record
  attempts := by
    obtain ⟨idle, idle'⟩ | ⟨attempt, number, current, current', numbered⟩ := alike.attempts
    · rw [idle, idle', Option.map_none]
    · rw [current, current', Option.map_some,
        ← (eq_placeIn_iff increasing (numbered.append later) _).2 rfl]
  outbox := by
    have same : List.Forall₂ (· = ·) ((t.outbox.filter (·.isAbout lock issued)).map
        (·.renumber (placeIn (born ++ later)))) s.outbox :=
      List.forall₂_map_left_iff.2 <| alike.outbox.imp fun _ _ same =>
        (same.append later).eq_renumber increasing
    rw [List.forall₂_eq_eq_eq] at same
    exact same.symm
  numbered := by
    rintro generation (⟨attempt, found, rfl⟩ | wanted)
    · obtain ⟨idle, -⟩ | ⟨attempt', number, current, -, numbered⟩ := alike.attempts
      · rw [idle] at found
        cases found
      · obtain rfl := Option.some.inj (current.symm.trans found)
        exact (numbered.append later).placeIn_ne_zero increasing
    · have timers : ∀ effect ∈ t.outbox.filter (·.isAbout lock issued),
          effect = .startTimer lock generation → placeIn (born ++ later) generation ≠ 0 := by
        refine ((List.forall₂_and_left _ _).1 (alike.outbox.imp fun effect _ same => ⟨?_, same⟩)).1
        rintro rfl
        cases same with
        | same untimed => exact absurd rfl (untimed lock generation)
        | timer _ numbered => exact (numbered.append later).placeIn_ne_zero increasing
      exact timers _ (List.mem_filter.2 ⟨wanted, decide_eq_true rfl⟩) rfl

/-- What happens to a lock in a run is what would happen if there were no other lock: at every time
the run agrees about it with the run of what concerns this lock, when the attempts on it are
numbered one after the other. -/
theorem locks_are_independent (lock : Lock) (node : NodeName) (outranks : Precedence)
    (ops : List LockOp) (single : Unambiguous (requestsOf ops)) :
    ∃ rename : Nat → Nat, StrictMonoOn rename {generation | rename generation ≠ 0} ∧
      ∀ before after, ops = before ++ after →
        AgreeOn lock (requestsOf ops) rename ((fresh node outranks).run before)
          ((fresh node outranks).run (before.filterMap (·.within? lock rename))) := by
  have blank : Parallel lock (requestsOf ops) [] (fresh node outranks) (fresh node outranks) := by
    refine ⟨⟨rfl, rfl, rfl, Iff.rfl, fun _ => Iff.rfl, ?_, .nil, rfl, nofun, .nil⟩, ?_, ?_⟩
    · exact .inl (by simp [fresh])
    · intro lock ticket waits
      simp [callers, fresh] at waits
    · exact ⟨fun other _ => by simp [fresh], fun peer other there => by simp [fresh] at there⟩
  obtain ⟨born, increasing, parts⟩ := blank.run single ops fun _ there => there
  refine ⟨placeIn born, strictMonoOn_placeIn increasing, fun before after split => ?_⟩
  obtain ⟨middle, rest, rfl, parallel⟩ := parts before after split
  exact parallel.alike.agreeOn increasing

theorem unambiguous_of_nodup (distinct : (issued.map Prod.snd).Nodup) : Unambiguous issued :=
  fun _ _ _ here there => Accounted.lock_eq distinct there here

/-- A run with two locks. The attempt on the second one is the second attempt of all. -/
def entangledRun : List LockOp :=
  [.addSubscriber "b", .acquire ⟨"disk", none⟩ 0, .acquire ⟨"tape", none⟩ 1,
    .timeout ⟨"disk", none⟩ 1, .timeout ⟨"tape", none⟩ 2, .release ⟨"tape", none⟩ 2,
    .removeSubscriber "b"]

theorem locks_are_independent_in_entangledRun :
    Unambiguous (requestsOf entangledRun) ∧
      ∃ rename : Nat → Nat, StrictMonoOn rename {generation | rename generation ≠ 0} ∧
        ∀ before after, entangledRun = before ++ after →
          AgreeOn ⟨"tape", none⟩ (requestsOf entangledRun) rename
            ((fresh "a" .byName).run before)
            ((fresh "a" .byName).run (before.filterMap (·.within? ⟨"tape", none⟩ rename))) := by
  have single : Unambiguous (requestsOf entangledRun) := unambiguous_of_nodup (by decide)
  exact ⟨single, locks_are_independent _ "a" .byName entangledRun single⟩

end Arbitrator

end Cohort

import Cohort.Proofs.Lock.Coherence

/-!
# What a node and an observer of it share

Between a node `x` and another node `y` things go round in a circle, as long as no two nodes hold
the lock at once. First `x` does not hold the lock and `y` knows it (`apart`); then `x` has taken
the lock, and the news is on its way (`unheard`); then `y` knows that too (`shared`); then `x` has
given the lock up, and the news is on its way (`parting`). The phase says what may be on the link
from `x` to `y`, and which consents of `y` may be on the link back: in particular, no consent of
an earlier round can be mistaken for a consent to the release that comes next.

## Main definitions

* `Lock.events`, `Lock.consents`: the two kinds of signals on a link.
* `Lock.Tie`: the four phases.

## Main statements

* `Lock.Tie.deed`, `Lock.Tie.heard`, `Lock.Tie.observes`: a tie survives what the node does, what
  the node hears, and what the observer hears.
-/

namespace Cohort

namespace Lock

/-- What of a signal concerns the sender itself. -/
def Signal.event? : Signal → Option Signal
  | .consents _ => none
  | signal => some signal

/-- What of a signal concerns an attempt of the receiver. -/
def Signal.consent? : Signal → Option Bool
  | .consents acquire => some acquire
  | _ => none

/-- What the signals on a link say about the sender. -/
def events (link : List Signal) : List Signal := link.filterMap Signal.event?

/-- The consents on a link. -/
def consents (link : List Signal) : List Bool := link.filterMap Signal.consent?

theorem events_append (link link' : List Signal) :
    events (link ++ link') = events link ++ events link' := List.filterMap_append

theorem consents_append (link link' : List Signal) :
    consents (link ++ link') = consents link ++ consents link' := List.filterMap_append

theorem events_cons (signal : Signal) (link : List Signal) :
    events (signal :: link) = signal.event?.toList ++ events link := by
  cases signal <;> rfl

theorem consents_cons (signal : Signal) (link : List Signal) :
    consents (signal :: link) = signal.consent?.toList ++ consents link := by
  cases signal <;> rfl

theorem mem_events {signal : Signal} {link : List Signal} :
    signal ∈ events link ↔ signal ∈ link ∧ signal.consent? = none := by
  simp only [events, List.mem_filterMap]
  constructor
  · rintro ⟨e, member, eq⟩
    cases e <;> cases eq <;> exact ⟨member, rfl⟩
  · rintro ⟨member, eq⟩
    refine ⟨signal, member, ?_⟩
    cases signal with
    | consents => cases eq
    | begins | added | kept | removed => rfl

theorem mem_consents {acquire : Bool} {link : List Signal} :
    acquire ∈ consents link ↔ .consents acquire ∈ link := by
  simp only [consents, List.mem_filterMap]
  constructor
  · rintro ⟨e, member, eq⟩
    cases e <;> cases eq
    exact member
  · exact fun member => ⟨_, member, rfl⟩

/-- The news that a node which holds the lock may have sent since it took it. -/
def Signal.IsStay (signal : Signal) : Prop := signal = .begins false ∨ signal = .kept

/-- How things stand between a node of standing `b` and an observer `y`, which has the node on
record as an owner or not, when `news` about the node are on their way to the observer and
consents of the observer are `due` back. -/
inductive Tie (b : Standing) (y : NodeName) (known : Prop) (news : List Signal)
    (due : List Bool) : Prop
  | apart (free : ¬ b.holds) (unknown : ¬ known) (claims : ∀ e ∈ news, e = .begins true)
      (sorted : due.Pairwise fun u v => u = true → v = true)
      (struck : ∀ {node awaits}, b.stage = .own node true awaits → y ∉ awaits →
        ∀ u ∈ due, u = true)
  | unheard (holds : b.holds) (unknown : ¬ known) {before after : List Signal}
      (split : news = before ++ .added :: after) (claims : ∀ e ∈ before, e = .begins true)
      (stays : ∀ e ∈ after, e.IsStay) (fits : ∀ u ∈ due, u = true)
      (awaited : ∀ {node awaits}, b.stage = .own node false awaits → y ∈ awaits)
  | shared (holds : b.holds) (known : known) (stays : ∀ e ∈ news, e.IsStay)
      (sorted : due.Pairwise fun u v => u = false → v = false)
      (struck : ∀ {node awaits}, b.stage = .own node false awaits → y ∉ awaits →
        ∀ u ∈ due, u = false)
  | parting (free : ¬ b.holds) (known : known) {before after : List Signal}
      (split : news = before ++ .removed :: after) (stays : ∀ e ∈ before, e.IsStay)
      (claims : ∀ e ∈ after, e = .begins true) (fits : ∀ u ∈ due, u = false)
      (awaited : ∀ {node awaits}, b.stage = .own node true awaits → y ∈ awaits)

namespace Tie

variable {b b' : Standing} {x y p : NodeName} {known known' : Prop} {news : List Signal}
  {due : List Bool} {e : Signal}

theorem start : Tie ⟨False, ∅, .idle⟩ y False [] [] :=
  .apart id id (by simp) .nil nofun

/-- Whoever hears that a node took the lock hears it from a node that holds it. -/
theorem holds_of_added (tie : Tie b y known news due) (heard : .added ∈ news) : b.holds := by
  cases tie with
  | apart free unknown claims => cases claims _ heard
  | unheard holds => exact holds
  | shared holds => exact holds
  | parting free known split stays claims =>
    rw [split] at heard
    obtain early | late := List.mem_append.1 heard
    · rcases stays _ early with eq | eq <;> cases eq
    · obtain eq | last := List.mem_cons.1 late
      · cases eq
      · cases claims _ last

/-- Whoever hears that a node gave the lock up has it on record as the owner. -/
theorem parting_of_removed (tie : Tie b y known news due) (heard : .removed ∈ news) :
    ¬ b.holds ∧ known := by
  cases tie with
  | apart free unknown claims => cases claims _ heard
  | unheard holds unknown split claims stays =>
    rw [split] at heard
    obtain early | late := List.mem_append.1 heard
    · cases claims _ early
    · obtain eq | last := List.mem_cons.1 late
      · cases eq
      · rcases stays _ last with eq | eq <;> cases eq
  | shared holds known stays => rcases stays _ heard with eq | eq <;> cases eq
  | parting free known => exact ⟨free, known⟩

/-- A node that holds the lock and is known to is not waiting for word of it to arrive. -/
theorem known_of_struck (tie : Tie b y known news due) {node : NodeName} {awaits : Set NodeName}
    (own : b.stage = .own node false awaits) (holds : b.holds) (struck : y ∉ awaits) : known := by
  cases tie with
  | apart free => exact absurd holds free
  | unheard holds unknown split claims stays fits awaited => exact absurd (awaited own) struck
  | shared holds known => exact known
  | parting free => exact absurd holds free

/-- While word that a node took the lock is on its way, the observer does not know it. -/
theorem unknown_of_added (tie : Tie b y known news due) (told : .added ∈ news) : ¬ known := by
  cases tie with
  | apart free unknown => exact unknown
  | unheard holds unknown => exact unknown
  | shared holds known stays => rcases stays _ told with eq | eq <;> cases eq
  | parting free known split stays claims =>
    rw [split] at told
    obtain early | late := List.mem_append.1 told
    · rcases stays _ early with eq | eq <;> cases eq
    · obtain eq | last := List.mem_cons.1 late
      · cases eq
      · cases claims _ last

/-- What an observer hears next about a node it has on record is never that the node begins to
acquire the lock. -/
theorem unknown_of_claim (tie : Tie b y known (.begins true :: news) due) : ¬ known := by
  cases tie with
  | apart free unknown => exact unknown
  | unheard holds unknown => exact unknown
  | shared holds known stays => rcases stays _ List.mem_cons_self with eq | eq <;> cases eq
  | @parting free known before after split stays claims =>
    cases before with
    | nil => cases (List.cons.inj split).1
    | cons e before =>
      obtain ⟨rfl, -⟩ := List.cons.inj split
      rcases stays _ List.mem_cons_self with eq | eq <;> cases eq

/-- A node that begins to give the lock up is on record with whoever hears of it next. -/
theorem known_of_leave (tie : Tie b y known (.begins false :: news) due) : known := by
  cases tie with
  | apart free unknown claims => cases claims _ List.mem_cons_self
  | @unheard holds unknown before after split claims =>
    cases before with
    | nil => cases (List.cons.inj split).1
    | cons e before =>
      obtain ⟨rfl, -⟩ := List.cons.inj split
      cases claims _ List.mem_cons_self
  | shared holds known => exact known
  | parting free known => exact known

/-- A node whose consent to a release arrives has the releasing node on record. -/
theorem known_of_consent {due' : List Bool} (tie : Tie b y known news (false :: due'))
    (holds : b.holds) : known := by
  cases tie with
  | apart free => exact absurd holds free
  | unheard _ unknown split claims stays fits => cases fits _ List.mem_cons_self
  | shared _ known => exact known
  | parting free => exact absurd holds free

/-- A standing that differs only in a stage that is no attempt of the node's own. -/
theorem of_stage (tie : Tie b y known news due) (holds : b'.holds ↔ b.holds)
    (stage : ∀ node acquire awaits, b'.stage ≠ .own node acquire awaits) :
    Tie b' y known news due := by
  cases tie with
  | apart free unknown claims sorted =>
    exact .apart (fun h => free (holds.1 h)) unknown claims sorted fun own =>
      absurd own (stage _ _ _)
  | unheard held unknown split claims stays fits =>
    exact .unheard (holds.2 held) unknown split claims stays fits fun own =>
      absurd own (stage _ _ _)
  | shared held known stays sorted =>
    exact .shared (holds.2 held) known stays sorted fun own => absurd own (stage _ _ _)
  | parting free known split stays claims fits =>
    exact .parting (fun h => free (holds.1 h)) known split stays claims fits fun own =>
      absurd own (stage _ _ _)

/-! ### What the node does -/

/-- The announcement of an attempt goes behind the news. -/
theorem begins (tie : Tie b y known news due) {acquire : Bool} (may : b.holds ↔ acquire = false)
    {node : NodeName} {awaits : Set NodeName} (awaited : y ∈ awaits) :
    Tie { b with stage := .own node acquire awaits } y known (news ++ [.begins acquire]) due := by
  cases tie with
  | apart free unknown claims sorted struck =>
    obtain rfl : acquire = true := by
      rw [may] at free
      simpa using free
    refine .apart free unknown ?_ sorted ?_
    · simpa [or_imp, forall_and] using claims
    · rintro n aw ⟨⟩ absent
      exact absurd awaited absent
  | @unheard holds unknown before after split claims stays fits _ =>
    obtain rfl : acquire = false := may.1 holds
    -- Word that the node took the lock stays ahead of the announcement that it gives it up.
    have news' : news ++ [.begins false] = before ++ .added :: (after ++ [.begins false]) := by
      simp [split]
    refine .unheard holds unknown news' claims ?_ fits ?_
    · simpa [or_imp, forall_and, Signal.IsStay] using stays
    · rintro n aw ⟨⟩
      exact awaited
  | shared holds known stays sorted struck =>
    obtain rfl : acquire = false := may.1 holds
    refine .shared holds known ?_ sorted ?_
    · simpa [or_imp, forall_and, Signal.IsStay] using stays
    · rintro n aw ⟨⟩ absent
      exact absurd awaited absent
  | @parting free known before after split stays claims fits _ =>
    obtain rfl : acquire = true := by
      rw [may] at free
      simpa using free
    have news' : news ++ [.begins true] = before ++ .removed :: (after ++ [.begins true]) := by
      simp [split]
    refine .parting free known news' stays ?_ fits ?_
    · simpa [or_imp, forall_and] using claims
    · rintro n aw ⟨⟩
      exact awaited

theorem keeps (tie : Tie b y known news due) (holds : b.holds) :
    Tie { b with stage := .idle } y known (news ++ [.kept]) due := by
  cases tie with
  | apart free => exact absurd holds free
  | @unheard _ unknown before after split claims stays fits _ =>
    have news' : news ++ [.kept] = before ++ .added :: (after ++ [.kept]) := by simp [split]
    refine .unheard holds unknown news' claims ?_ fits nofun
    simpa [or_imp, forall_and, Signal.IsStay] using stays
  | shared _ known stays sorted =>
    refine .shared holds known ?_ sorted nofun
    simpa [or_imp, forall_and, Signal.IsStay] using stays
  | parting free => exact absurd holds free

/-- A tie survives what the node does on its own account. -/
theorem deed (tie : Tie b y known news due) (coherent : b.Coherent) {others : Set NodeName}
    (observer : y ∈ others) {initiative : Initiative} {said : List Saying}
    (deed : Deed x others initiative b b' said) :
    Tie b' y known (news ++ events (said.filterMap (Saying.signalTo? y))) due := by
  cases deed with
  | claim idle unowned company => exact tie.begins (by simp [unowned.1]) observer
  | leave idle holds company => exact tie.begins (by simp [holds]) observer
  | claimAlone idle unowned alone => exact absurd observer (by simp [alone])
  | leaveAlone idle holds alone => exact absurd observer (by simp [alone])
  | keep leaving => exact tie.keeps (coherent.leave leaving)

/-! ### What the node hears -/

/-- A tie looks at no more of the node than whether it holds the lock and how it settles it. -/
theorem congr (tie : Tie b y known news due) (holds : b'.holds ↔ b.holds)
    (stage : b'.stage = b.stage) : Tie b' y known news due := by
  cases tie with
  | apart free unknown claims sorted struck =>
    exact .apart (fun h => free (holds.1 h)) unknown claims sorted fun own =>
      struck (stage ▸ own)
  | unheard held unknown split claims stays fits awaited =>
    exact .unheard (holds.2 held) unknown split claims stays fits fun own =>
      awaited (stage ▸ own)
  | shared held known stays sorted struck =>
    exact .shared (holds.2 held) known stays sorted fun own => struck (stage ▸ own)
  | parting free known split stays claims fits awaited =>
    exact .parting (fun h => free (holds.1 h)) known split stays claims fits fun own =>
      awaited (stage ▸ own)

/-- Some of the consents that are due may be dropped. -/
theorem fewer {due' : List Bool} (tie : Tie b y known news due) (sub : due'.Sublist due) :
    Tie b y known news due' := by
  cases tie with
  | apart free unknown claims sorted struck =>
    exact .apart free unknown claims (sorted.sublist sub) fun own absent u member =>
      struck own absent u (sub.subset member)
  | unheard holds unknown split claims stays fits awaited =>
    exact .unheard holds unknown split claims stays (fun u member => fits u (sub.subset member))
      awaited
  | shared holds known stays sorted struck =>
    exact .shared holds known stays (sorted.sublist sub) fun own absent u member =>
      struck own absent u (sub.subset member)
  | parting free known split stays claims fits awaited =>
    exact .parting free known split stays claims (fun u member => fits u (sub.subset member))
      awaited

/-- The observer is struck from those whose consent is awaited once its consent arrives. -/
theorem strike_self {node : NodeName} {acquire : Bool} {due' : List Bool}
    (tie : Tie b y known news (acquire :: due')) (may : b.holds ↔ acquire = false)
    (awaits' : Set NodeName) :
    Tie { b with stage := .own node acquire awaits' } y known news due' := by
  cases tie with
  | apart free unknown claims sorted struck =>
    obtain rfl : acquire = true := by
      rw [may] at free
      simpa using free
    have rest := List.pairwise_cons.1 sorted
    exact .apart free unknown claims rest.2 fun _ _ u member => rest.1 u member rfl
  -- A consent to a release cannot be due before the observer knows that the node has the lock.
  | unheard holds unknown split claims stays fits awaited =>
    obtain rfl : acquire = false := may.1 holds
    cases fits false List.mem_cons_self
  | shared holds known stays sorted struck =>
    obtain rfl : acquire = false := may.1 holds
    have rest := List.pairwise_cons.1 sorted
    exact .shared holds known stays rest.2 fun _ _ u member => rest.1 u member rfl
  | parting free known split stays claims fits awaited =>
    obtain rfl : acquire = true := by
      rw [may] at free
      simpa using free
    cases fits true List.mem_cons_self

/-- Another observer is struck. -/
theorem strike_other {node : NodeName} {acquire : Bool} {awaits : Set NodeName}
    (tie : Tie b y known news due) (own : b.stage = .own node acquire awaits) (ne : y ≠ p) :
    Tie { b with stage := .own node acquire (awaits \ {p}) } y known news due := by
  have same : y ∈ awaits \ {p} ↔ y ∈ awaits := by simp [ne]
  cases tie with
  | apart free unknown claims sorted struck =>
    refine .apart free unknown claims sorted ?_
    rintro n aw ⟨⟩ absent
    exact struck own (same.not.1 absent)
  | unheard holds unknown split claims stays fits awaited =>
    refine .unheard holds unknown split claims stays fits ?_
    rintro n aw ⟨⟩
    exact same.2 (awaited own)
  | shared holds known stays sorted struck =>
    refine .shared holds known stays sorted ?_
    rintro n aw ⟨⟩ absent
    exact struck own (same.not.1 absent)
  | parting free known split stays claims fits awaited =>
    refine .parting free known split stays claims fits ?_
    rintro n aw ⟨⟩
    exact same.2 (awaited own)

/-- Once everybody consented, the node takes the lock. -/
theorem wins {node : NodeName} {awaits : Set NodeName} (tie : Tie b y known news due)
    (own : b.stage = .own node true awaits) (free : ¬ b.holds) (struck : y ∉ awaits) :
    Tie { b with holds := True, stage := .idle } y known (news ++ [.added]) due := by
  cases tie with
  | apart _ unknown claims sorted fits =>
    -- The observer learns of it from what is published now.
    exact .unheard trivial unknown rfl claims (by simp) (fits own struck) nofun
  | unheard holds => exact absurd holds free
  | shared holds => exact absurd holds free
  | parting _ known split stays claims fits awaited => exact absurd (awaited own) struck

/-- Once everybody consented, the node gives the lock up. -/
theorem parts {node : NodeName} {awaits : Set NodeName} (tie : Tie b y known news due)
    (own : b.stage = .own node false awaits) (holds : b.holds) (struck : y ∉ awaits) :
    Tie { b with holds := False, stage := .idle } y known (news ++ [.removed]) due := by
  cases tie with
  | apart free => exact absurd holds free
  | unheard _ unknown split claims stays fits awaited => exact absurd (awaited own) struck
  | shared _ known stays sorted fits =>
    exact .parting id known rfl stays (by simp) (fits own struck) nofun
  | parting free => exact absurd holds free

/-- A tie survives what the node hears, unless it is told of another holder of a lock it holds. -/
theorem heard (tie : Tie b y known news due) (coherent : b.Coherent) {outranks : Precedence}
    {signal : Signal} {said : List Saying} {response : Response}
    (hearing : Hearing x outranks p signal b b' said response)
    (alone : signal = .added → ¬ b.holds) {due' : List Bool}
    (took : p = y → due = signal.consent?.toList ++ due') (left : p ≠ y → due = due') :
    Tie b' y known (news ++ events (said.filterMap (Saying.signalTo? y))) due' := by
  have sub : due'.Sublist due := by
    by_cases eq : p = y
    · rw [took eq]
      exact List.sublist_append_right _ _
    · rw [left eq]
  -- What says nothing to the observer only has to be good for a shorter list of consents.
  have silent : ∀ said : List Saying, events (said.filterMap (Saying.signalTo? y)) = [] →
      ∀ {b' : Standing}, Tie b' y known news due' →
      Tie b' y known (news ++ events (said.filterMap (Saying.signalTo? y))) due' := by
    intro said none b' tie
    rwa [none, List.append_nil]
  have toPeer : ∀ acquire, events ([Saying.consent p acquire].filterMap (Saying.signalTo? y)) =
      [] := by
    intro acquire
    by_cases eq : p = y <;> simp [Saying.signalTo?, eq, events, Signal.event?]
  cases hearing with
  | followClaim unowned yields =>
    exact silent _ (toPeer true) ((tie.fewer sub).of_stage Iff.rfl nofun)
  | followLeave recorded idle =>
    exact silent _ (toPeer false) ((tie.fewer sub).of_stage Iff.rfl nofun)
  | refuse | alreadyOwner | defer | notOwner | busy | keptElsewhere =>
    exact silent _ rfl (tie.fewer sub)
  | added free => exact silent _ rfl ((tie.fewer sub).of_stage (by simp [free]) nofun)
  | hijacked holds => exact absurd holds (alone rfl)
  | kept | removed => exact silent _ rfl ((tie.fewer sub).of_stage Iff.rfl nofun)
  | removedElsewhere => exact silent _ rfl ((tie.fewer sub).congr Iff.rfl rfl)
  | stale => exact silent _ rfl (tie.fewer sub)
  | @strike _ node acquire awaits own more =>
    refine silent _ rfl ?_
    by_cases eq : p = y
    · have may : b.holds ↔ acquire = false := by
        cases acquire with
        | true => simpa using (coherent.own_claim own).1
        | false => simpa using coherent.leave own
      rw [took eq] at tie
      exact tie.strike_self may _
    · exact (left eq ▸ tie).strike_other own (Ne.symm eq)
  | @win _ node awaits own last =>
    have free := (coherent.own_claim own).1
    by_cases eq : p = y
    · have struck : Tie { b with stage := .own node true ∅ } y known news due' := by
        rw [took eq] at tie
        exact tie.strike_self (by simp [free]) ∅
      exact struck.wins rfl free (Set.notMem_empty y)
    · have struck := (left eq ▸ tie).strike_other own (Ne.symm eq)
      rw [last] at struck
      exact struck.wins rfl free (Set.notMem_empty y)
  | @part _ node awaits own last =>
    have holds := coherent.leave own
    by_cases eq : p = y
    · have struck : Tie { b with stage := .own node false ∅ } y known news due' := by
        rw [took eq] at tie
        exact tie.strike_self (by simp [holds]) ∅
      exact struck.parts rfl holds (Set.notMem_empty y)
    · have struck := (left eq ▸ tie).strike_other own (Ne.symm eq)
      rw [last] at struck
      exact struck.parts rfl holds (Set.notMem_empty y)

/-! ### What the observer hears -/

theorem congr_known (tie : Tie b y known news due) (same : known' ↔ known) :
    Tie b y known' news due := by
  rwa [propext same]

/-- The observer hears something that does not change who holds the lock. -/
theorem hears (tie : Tie b y known (e :: news) due) (ne : e ≠ .added) (ne' : e ≠ .removed) :
    Tie b y known news due := by
  cases tie with
  | apart free unknown claims sorted struck =>
    exact .apart free unknown (fun e member => claims e (List.mem_cons_of_mem _ member)) sorted
      struck
  | @unheard holds unknown before after split claims stays fits awaited =>
    cases before with
    | nil => exact absurd (List.cons.inj split).1 ne
    | cons e' before =>
      exact .unheard holds unknown (List.cons.inj split).2
        (fun e member => claims e (List.mem_cons_of_mem _ member)) stays fits awaited
  | shared holds known stays sorted struck =>
    exact .shared holds known (fun e member => stays e (List.mem_cons_of_mem _ member)) sorted
      struck
  | @parting free known before after split stays claims fits awaited =>
    cases before with
    | nil => exact absurd (List.cons.inj split).1 ne'
    | cons e' before =>
      exact .parting free known (List.cons.inj split).2
        (fun e member => stays e (List.mem_cons_of_mem _ member)) claims fits awaited

/-- The observer hears that the node took the lock. -/
theorem hears_added (tie : Tie b y known (.added :: news) due) (told : known') :
    Tie b y known' news due := by
  cases tie with
  | apart free unknown claims => cases claims _ List.mem_cons_self
  | @unheard holds unknown before after split claims stays fits awaited =>
    cases before with
    | nil =>
      obtain ⟨-, rfl⟩ := List.cons.inj split
      -- The consents that are still due were given before the observer heard of this.
      refine .shared holds told stays ?_ fun own absent => absurd (awaited own) absent
      exact List.pairwise_of_forall_mem_list fun u member _ _ not => absurd (fits u member) (by
        simp [not])
    | cons e before =>
      obtain ⟨rfl, -⟩ := List.cons.inj split
      cases claims _ List.mem_cons_self
  | shared holds known stays => rcases stays _ List.mem_cons_self with eq | eq <;> cases eq
  | @parting free known before after split stays =>
    cases before with
    | nil => cases (List.cons.inj split).1
    | cons e before =>
      obtain ⟨rfl, -⟩ := List.cons.inj split
      rcases stays _ List.mem_cons_self with eq | eq <;> cases eq

/-- The observer hears that the node gave the lock up. -/
theorem hears_removed (tie : Tie b y known (.removed :: news) due) (told : ¬ known') :
    Tie b y known' news due := by
  cases tie with
  | apart free unknown claims => cases claims _ List.mem_cons_self
  | @unheard holds unknown before after split claims =>
    cases before with
    | nil => cases (List.cons.inj split).1
    | cons e before =>
      obtain ⟨rfl, -⟩ := List.cons.inj split
      cases claims _ List.mem_cons_self
  | shared holds known stays => rcases stays _ List.mem_cons_self with eq | eq <;> cases eq
  | @parting free known before after split stays claims fits awaited =>
    cases before with
    | nil =>
      obtain ⟨-, rfl⟩ := List.cons.inj split
      refine .apart free told claims ?_ fun own absent => absurd (awaited own) absent
      exact List.pairwise_of_forall_mem_list fun u member _ _ yes => absurd (fits u member) (by
        simp [yes])
    | cons e before =>
      obtain ⟨rfl, -⟩ := List.cons.inj split
      rcases stays _ List.mem_cons_self with eq | eq <;> cases eq

/-- The observer consents to the node's acquiring the lock. -/
theorem consents_claim (tie : Tie b y known news due) (unknown : ¬ known) :
    Tie b y known news (due ++ [true]) := by
  cases tie with
  | apart free unknown claims sorted struck =>
    refine .apart free unknown claims ?_ ?_
    · exact List.pairwise_append.2 ⟨sorted, List.pairwise_singleton _ _, by simp⟩
    · intro node awaits own absent
      simpa [or_imp, forall_and] using struck own absent
  | unheard holds unknown split claims stays fits awaited =>
    refine .unheard holds unknown split claims stays ?_ awaited
    simpa [or_imp, forall_and] using fits
  | shared holds known => exact absurd known unknown
  | parting free known => exact absurd known unknown

/-- The observer consents to the node's giving the lock up. -/
theorem consents_leave (tie : Tie b y known news due) (isKnown : known) :
    Tie b y known news (due ++ [false]) := by
  cases tie with
  | apart free unknown => exact absurd isKnown unknown
  | unheard holds unknown => exact absurd isKnown unknown
  | shared holds known stays sorted struck =>
    refine .shared holds known stays ?_ ?_
    · exact List.pairwise_append.2 ⟨sorted, List.pairwise_singleton _ _, by simp⟩
    · intro node awaits own absent
      simpa [or_imp, forall_and] using struck own absent
  | parting free known split stays claims fits awaited =>
    refine .parting free known split stays claims ?_ awaited
    simpa [or_imp, forall_and] using fits

/-- A tie survives what the observer hears. -/
theorem observes {o o' : Standing} (tie : Tie b y (x ∈ o.knows) news due) (other : x ≠ y)
    {outranks : Precedence} {signal : Signal} {said : List Saying} {response : Response}
    (hearing : Hearing y outranks p signal o o' said response) {news' : List Signal}
    (took : p = x → news = signal.event?.toList ++ news') (left : p ≠ x → news = news') :
    Tie b y (x ∈ o'.knows) news' (due ++ consents (said.filterMap (Saying.signalTo? x))) := by
  -- Anything but word of a change of hands leaves the tie as it is, once it is off the link.
  have hears : signal ≠ .added → signal ≠ .removed → Tie b y (x ∈ o.knows) news' due := by
    intro ne ne'
    by_cases eq : p = x
    · rw [took eq] at tie
      cases event : signal.event? with
      | none => simpa [event] using tie
      | some e =>
        rw [event] at tie
        cases signal <;> cases event <;> exact tie.hears ne ne'
    · rwa [← left eq]
  have silent : ∀ {said : List Saying}, consents (said.filterMap (Saying.signalTo? x)) = [] →
      Tie b y (x ∈ o'.knows) news' due →
      Tie b y (x ∈ o'.knows) news' (due ++ consents (said.filterMap (Saying.signalTo? x))) := by
    intro said none tie
    rwa [none, List.append_nil]
  have consent : ∀ acquire, consents ([Saying.consent p acquire].filterMap
      (Saying.signalTo? x)) = if p = x then [acquire] else [] := by
    intro acquire
    by_cases eq : p = x <;> simp [Saying.signalTo?, eq, consents, Signal.consent?]
  cases hearing with
  | followClaim unowned yields =>
    have tie' := hears nofun nofun
    rw [consent]
    split
    · exact tie'.consents_claim (unowned.2 x)
    · rwa [List.append_nil]
  | followLeave recorded idle =>
    have tie' := hears nofun nofun
    rw [consent]
    split
    next eq =>
      subst eq
      exact tie'.consents_leave (recorded.resolve_left fun own => other own.2)
    · rwa [List.append_nil]
  | refuse | alreadyOwner | defer | notOwner | busy | keptElsewhere | kept | strike | stale =>
    exact silent rfl (hears nofun nofun)
  | win | part => exact silent rfl (hears nofun nofun)
  | added | hijacked =>
    refine silent rfl ?_
    by_cases eq : p = x
    · rw [took eq] at tie
      exact tie.hears_added (.inl eq.symm)
    · rw [left eq] at tie
      exact tie.congr_known ⟨fun known => known.resolve_left (Ne.symm eq), .inr⟩
  | removed | removedElsewhere =>
    refine silent rfl ?_
    by_cases eq : p = x
    · rw [took eq] at tie
      exact tie.hears_removed fun known => known.2 eq.symm
    · rw [left eq] at tie
      exact tie.congr_known ⟨And.left, fun known => ⟨known, Ne.symm eq⟩⟩

end Tie

end Lock

end Cohort

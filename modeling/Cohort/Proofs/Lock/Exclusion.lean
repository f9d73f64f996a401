import Cohort.Proofs.Lock.Mesh
import Cohort.Proofs.Lock.Tie

/-!
# Mutual exclusion

A consent names a lock and a direction, but not the attempt it is for. A node that makes several
attempts on a lock may therefore take a late consent to an earlier one for a consent to the latest.
This file says exactly when that does harm: two nodes come to hold a lock at once if and only if
two nodes come to hold it neither of which consented to the other since the other last began to
acquire it.

## Main definitions

* `Lock.Scene.Sound`: the invariant, which holds as long as nothing went wrong.
* `Lock.Scene.Crossed`: two nodes hold the lock without the consent of each other.
* `Lock.Scene.Current`: a consent arrives at the attempt it was given to.

## Main statements

* `Lock.Scene.Step.sound`: a step leaves a sound scene sound, or makes it a crossed one.
* `LockCluster.exclusive_iff_never_crossed`: when a run keeps a lock exclusive.
* `LockCluster.crossed_consents_grant_twice`: a run that does not.
-/

namespace Cohort

namespace Lock

namespace Scene

variable {names : NameSet} {outranks : Precedence} {free : Initiative → Prop}
  {admits : Admission} {s : Scene}

/-- Every node is consistent by itself. -/
structure Orderly (names : NameSet) (s : Scene) : Prop where
  coherent : ∀ {k}, k ∈ names → (s.node k).Coherent
  placed : ∀ {k}, k ∈ names → (s.node k).Placed names k

/-- How things stand between two nodes. -/
def Tied (s : Scene) (x y : NodeName) : Prop :=
  Tie (s.node x) y (x ∈ (s.node y).knows) (events (s.link x y)) (consents (s.link y x))

/-- The node has an attempt of its own in flight to acquire the lock. -/
def Claims (s : Scene) (k : NodeName) : Prop :=
  ∃ node awaits, (s.node k).stage = .own node true awaits

/-- The node knows the lock to be as good as taken: by one whose acquiring it follows, or by one
that holds it. -/
def Yields (names : NameSet) (s : Scene) (k : NodeName) : Prop :=
  (∃ peer, (s.node k).stage = .follows peer true) ∨
    ∃ h ∈ names, (s.node h).holds ∧ h ∈ (s.node k).knows

/-- Nothing has gone wrong so far. -/
structure Sound (names : NameSet) (s : Scene) : Prop extends Orderly names s where
  tied : ∀ {x y}, x ∈ names → y ∈ names → x ≠ y → s.Tied x y
  alone : ∀ {x y}, x ∈ names → y ∈ names → (s.node x).holds → (s.node y).holds → x = y
  /-- Who consented to an attempt that may still succeed, or did, keeps back. -/
  backed : ∀ {x y}, x ∈ names → y ∈ names → x ≠ y → (x, y) ∈ s.chronicle.agreed →
    s.Claims y ∨ (s.node y).holds → s.Yields names x

/-- Two nodes hold the lock, and neither consented to that after the other last began to acquire
it. -/
def Crossed (names : NameSet) (s : Scene) : Prop :=
  ∃ x ∈ names, ∃ y ∈ names, x ≠ y ∧ (s.node x).holds ∧ (s.node y).holds ∧
    (x, y) ∉ s.chronicle.agreed ∧ (y, x) ∉ s.chronicle.agreed

theorem sound_start : Sound names .start where
  coherent _ := Standing.coherent_start
  placed {k} _ := Standing.placed_start names k
  tied _ _ _ := Tie.start
  alone _ _ := nofun
  backed _ _ _ agreed := absurd agreed (Finset.notMem_empty _)

end Scene

/-! ### What deeds do not change -/

section

variable {self peer : NodeName} {others : Set NodeName} {outranks : Precedence}
  {initiative : Initiative} {signal : Signal} {b b' : Standing} {said : List Saying}
  {response : Response}

theorem Deed.knows_eq (deed : Deed self others initiative b b' said) : b'.knows = b.knows := by
  cases deed <;> rfl

/-- A node that is not alone changes hands with nobody on its own account. -/
theorem Deed.holds_iff (deed : Deed self others initiative b b' said)
    (company : others.Nonempty) : b'.holds ↔ b.holds := by
  cases deed with
  | claim | leave | keep => exact Iff.rfl
  | claimAlone _ _ alone | leaveAlone _ _ alone => exact absurd alone company.ne_empty

theorem Deed.consents_eq (deed : Deed self others initiative b b' said) (q : NodeName) :
    consents (said.filterMap (Saying.signalTo? q)) = [] := by
  cases deed <;> rfl

theorem Deed.agreed_subset (deed : Deed self others initiative b b' said) (h : Chronicle) :
    (h.notes self said).agreed ⊆ h.agreed := by
  cases deed with
  | claim => exact Finset.filter_subset _ _
  | claimAlone | leave | leaveAlone | keep => exact subset_rfl

theorem Hearing.agreed_superset (hearing : Hearing self outranks peer signal b b' said response)
    (h : Chronicle) : h.agreed ⊆ (h.notes self said).agreed := by
  cases hearing with
  | followClaim => exact Finset.subset_insert _ _
  | _ => exact subset_rfl

/-- A node comes to hold the lock by the last consent it waited for, and in no other way. -/
theorem Hearing.wins (hearing : Hearing self outranks peer signal b b' said response)
    (free : ¬ b.holds) (holds : b'.holds) :
    said = [.publish .added] ∧ ∃ node awaits, b.stage = .own node true awaits := by
  cases hearing with
  | win own last => exact ⟨rfl, _, _, own⟩
  | added | hijacked | part => exact holds.elim
  | _ => exact absurd holds free

end

namespace Scene

variable {names : NameSet} {outranks : Precedence} {free : Initiative → Prop}
  {admits : Admission} {s : Scene} {p k : NodeName} {signal : Signal} {rest : List Signal}
  {b : Standing} {said : List Saying} {response : Response} {initiative : Initiative}

theorem mem_company_of_ne {q : NodeName} (member : q ∈ names) (ne : q ≠ k) :
    q ∈ company names k := ⟨member, ne⟩

/-! ### Deeds -/

theorem Orderly.deed (orderly : Orderly names s)
    (deed : Deed k (company names k) initiative (s.node k) b said) :
    Orderly names (s.act names k b said) where
  coherent {q} member := by
    by_cases eq : q = k
    · subst eq
      rw [node_act_self]
      exact deed.coherent (orderly.coherent member)
    · rw [node_act_of_ne eq]
      exact orderly.coherent member
  placed {q} member := by
    by_cases eq : q = k
    · subst eq
      rw [node_act_self]
      exact deed.placed (orderly.placed member)
    · rw [node_act_of_ne eq]
      exact orderly.placed member

theorem Sound.tied_deed (sound : Sound names s) (member : k ∈ names)
    (deed : Deed k (company names k) initiative (s.node k) b said) {x y : NodeName}
    (hx : x ∈ names) (hy : y ∈ names) (ne : x ≠ y) : (s.act names k b said).Tied x y := by
  have tied := sound.tied hx hy ne
  unfold Tied at tied ⊢
  by_cases eqx : x = k
  · subst eqx
    rw [node_act_self, node_act_of_ne ne.symm, link_act_source hy ne.symm,
      link_act_of_ne ne.symm, events_append]
    exact tied.deed (sound.coherent hx) (mem_company_of_ne hy ne.symm) deed
  · by_cases eqy : y = k
    · subst eqy
      rw [node_act_self, node_act_of_ne ne, link_act_source hx ne, link_act_of_ne ne,
        consents_append, deed.consents_eq, List.append_nil, deed.knows_eq]
      exact tied
    · rw [node_act_of_ne eqx, node_act_of_ne eqy, link_act_of_ne eqx, link_act_of_ne eqy]
      exact tied

theorem holds_act_iff (deed : Deed k (company names k) initiative (s.node k) b said)
    (company : (company names k).Nonempty) (q : NodeName) :
    ((s.act names k b said).node q).holds ↔ (s.node q).holds := by
  by_cases eq : q = k
  · subst eq
    rw [node_act_self]
    exact deed.holds_iff company
  · rw [node_act_of_ne eq]

/-- Of two nodes, one is not the only node. -/
theorem company_nonempty {x y : NodeName} (hx : x ∈ names) (hy : y ∈ names) (ne : x ≠ y) :
    (company names k).Nonempty := by
  by_cases eq : x = k
  · exact ⟨y, hy, fun eq' => ne (eq.trans eq'.symm)⟩
  · exact ⟨x, hx, eq⟩

theorem yields_act (deed : Deed k (company names k) initiative (s.node k) b said)
    (company : (company names k).Nonempty) {q : NodeName} (yields : s.Yields names q) :
    (s.act names k b said).Yields names q := by
  obtain ⟨peer, follows⟩ | ⟨h, member, holds, known⟩ := yields
  · left
    refine ⟨peer, ?_⟩
    by_cases eq : q = k
    · subst eq
      cases deed <;> simp_all
    · rwa [node_act_of_ne eq]
  · right
    refine ⟨h, member, (holds_act_iff deed company h).2 holds, ?_⟩
    by_cases eq : q = k
    · subst eq
      rwa [node_act_self, deed.knows_eq]
    · rwa [node_act_of_ne eq]

theorem Sound.deed (sound : Sound names s) (member : k ∈ names)
    (deed : Deed k (company names k) initiative (s.node k) b said) :
    Sound names (s.act names k b said) where
  toOrderly := sound.toOrderly.deed deed
  tied := sound.tied_deed member deed
  alone {x y} hx hy holdsx holdsy := by
    by_contra ne
    rw [holds_act_iff deed (company_nonempty hx hy ne)] at holdsx holdsy
    exact ne (sound.alone hx hy holdsx holdsy)
  backed {x y} hx hy ne agreed candidate := by
    have company : (company names k).Nonempty := company_nonempty hx hy ne
    have agreed' := deed.agreed_subset s.chronicle agreed
    refine yields_act deed company (sound.backed hx hy ne agreed' ?_)
    rw [holds_act_iff deed company] at candidate
    refine candidate.imp_left ?_
    rintro ⟨node, awaits, own⟩
    by_cases eq : y = k
    · subst eq
      rw [node_act_self] at own
      cases deed with
      | claim idle unowned _ =>
        -- Nobody has consented yet to an attempt that begins.
        simp [Chronicle.note] at agreed
      | leave => cases own
      | claimAlone | leaveAlone => exact ⟨node, awaits, own⟩
      | keep => cases own
    · exact ⟨node, awaits, by rwa [node_act_of_ne eq] at own⟩

/-- Deeds take back nothing of what has gone wrong. -/
theorem Crossed.deed (crossed : Crossed names s)
    (deed : Deed k (company names k) initiative (s.node k) b said) :
    Crossed names (s.act names k b said) := by
  obtain ⟨x, hx, y, hy, ne, holdsx, holdsy, agreed, agreed'⟩ := crossed
  have company : (company names k).Nonempty := company_nonempty hx hy ne
  refine ⟨x, hx, y, hy, ne, (holds_act_iff deed company x).2 holdsx,
    (holds_act_iff deed company y).2 holdsy, ?_, ?_⟩
  · exact fun member => agreed (deed.agreed_subset _ member)
  · exact fun member => agreed' (deed.agreed_subset _ member)

/-! ### Hearings -/

theorem Orderly.hear (orderly : Orderly names s)
    (heard : Heard names outranks s p k signal rest b said response) :
    Orderly names ((s.pop p k rest).act names k b said) where
  coherent {q} member := by
    by_cases eq : q = k
    · subst eq
      rw [node_act_self]
      exact heard.hearing.coherent heard.ne (orderly.coherent member)
    · rw [node_act_of_ne eq]
      exact orderly.coherent member
  placed {q} member := by
    by_cases eq : q = k
    · subst eq
      rw [node_act_self]
      exact heard.hearing.placed (mem_company_of_ne heard.source heard.ne)
        (orderly.placed member)
    · rw [node_act_of_ne eq]
      exact orderly.placed member

/-- The tie of the node that is heard to the node that hears. -/
theorem Sound.tie_heard (sound : Sound names s)
    (heard : Heard names outranks s p k signal rest b said response) :
    Tie (s.node p) k (p ∈ (s.node k).knows) (signal.event?.toList ++ events rest)
      (consents (s.link k p)) := by
  have tied := sound.tied heard.source heard.target heard.ne
  unfold Tied at tied
  rwa [heard.head, events_cons] at tied

/-- Whoever hears of another holder does not hold the lock itself. -/
theorem Sound.free_of_added (sound : Sound names s)
    (heard : Heard names outranks s p k .added rest b said response) : ¬ (s.node k).holds := by
  intro holds
  have other := (sound.tie_heard heard).holds_of_added List.mem_cons_self
  exact heard.ne (sound.alone heard.source heard.target other holds)

theorem Sound.tied_hear (sound : Sound names s)
    (heard : Heard names outranks s p k signal rest b said response) {x y : NodeName}
    (hx : x ∈ names) (hy : y ∈ names) (ne : x ≠ y) :
    ((s.pop p k rest).act names k b said).Tied x y := by
  have tied := sound.tied hx hy ne
  unfold Tied at tied ⊢
  -- The node that hears is the one that is tied, the one that observes it, or neither.
  by_cases eqx : x = k
  · subst eqx
    rw [node_act_self, node_act_of_ne ne.symm, link_heard_source heard.ne hy ne.symm,
      events_append]
    refine tied.heard (sound.coherent hx) heard.hearing ?_ ?_ ?_
    · rintro rfl
      exact sound.free_of_added heard
    · rintro rfl
      rw [link_heard_self ne.symm, heard.head, consents_cons]
    · intro other
      rw [link_heard_of_ne ne.symm fun eq => other eq.1.symm]
  · by_cases eqy : y = k
    · subst eqy
      rw [node_act_self, node_act_of_ne ne, link_heard_source heard.ne hx ne, consents_append]
      refine tied.observes ne heard.hearing ?_ ?_
      · rintro rfl
        rw [link_heard_self ne, heard.head, events_cons]
      · intro other
        rw [link_heard_of_ne ne fun eq => other eq.1.symm]
    · rw [node_act_of_ne eqx, node_act_of_ne eqy, link_heard_of_ne eqx fun eq => eqy eq.2,
        link_heard_of_ne eqy fun eq => eqx eq.2]
      exact tied

/-- Who may still take the lock, or has it, could before. -/
theorem candidate_of_hear (heard : Heard names outranks s p k signal rest b said response)
    {y : NodeName} (candidate : ((s.pop p k rest).act names k b said).Claims y ∨
      (((s.pop p k rest).act names k b said).node y).holds) :
    s.Claims y ∨ (s.node y).holds := by
  unfold Claims at candidate ⊢
  by_cases eq : y = k
  · subst eq
    rw [node_act_self] at candidate
    cases heard.hearing with
    | win own last => exact .inl ⟨_, _, own⟩
    | strike own more =>
      refine candidate.imp ?_ id
      rintro ⟨node, awaits, eq⟩
      cases eq
      exact ⟨_, _, own⟩
    | _ => simp_all
  · rwa [node_act_of_ne eq] at candidate

/-- Once a lock is given up, every other node has the node that does on record. -/
theorem Sound.known_at_part (sound : Sound names s) {acquire : Bool}
    (heard : Heard names outranks s p k (.consents acquire) rest b said response) {node : NodeName}
    {awaits : Set NodeName} (own : (s.node k).stage = .own node false awaits)
    (leaves : acquire = false) (last : awaits \ {p} = ∅) {y : NodeName} (member : y ∈ names)
    (ne : y ≠ k) : k ∈ (s.node y).knows := by
  subst leaves
  have holds := (sound.coherent heard.target).leave own
  have tied := sound.tied heard.target member ne.symm
  unfold Tied at tied
  -- The consent of `y` arrives just now, or arrived before.
  by_cases eq : p = y
  · subst eq
    rw [heard.head, consents_cons] at tied
    exact tied.known_of_consent holds
  · refine tied.known_of_struck own holds fun awaited => ?_
    have left : y ∈ awaits \ {p} := ⟨awaited, Ne.symm eq⟩
    rw [last] at left
    exact left

/-- Nobody acquires a lock when it is given up, or follows anybody who does. -/
theorem Sound.no_claim_of_removed (sound : Sound names s)
    (heard : Heard names outranks s p k signal rest b said response)
    (removed : .publish .removed ∈ said) {y : NodeName} (member : y ∈ names) :
    ¬ (((s.pop p k rest).act names k b said).node y).stage.IsClaim := by
  cases hearing : heard.hearing with
  | hijacked holds => exact absurd holds (sound.free_of_added heard)
  | part own last =>
    by_cases eq : y = k
    · subst eq
      rw [node_act_self]
      exact id
    · rw [node_act_of_ne eq]
      intro claim
      have known := sound.known_at_part heard own rfl last member eq
      exact ((sound.coherent member).claim claim).2 k known
  | _ => simp at removed

/-- Who follows somebody's acquiring of the lock goes on to, or follows somebody else's, or learns
who holds the lock. -/
theorem Sound.follower_hear (sound : Sound names s)
    (heard : Heard names outranks s p k signal rest b said response) {peer : NodeName}
    (follows : (s.node k).stage = .follows peer true) :
    b.stage = .follows peer true ∨
      (signal = .begins true ∧ response = .consents ∧ b.stage = .follows p true) ∨
      (s.node p).holds ∧ p ∈ b.knows := by
  have unowned := (sound.coherent heard.target).follows_claim follows
  cases heard.hearing with
  | followClaim => exact .inr (.inl ⟨rfl, rfl, rfl⟩)
  | followLeave recorded idle => rw [idle] at follows; cases follows
  | refuse | alreadyOwner | defer | notOwner | busy | keptElsewhere | removedElsewhere | stale =>
    exact .inl follows
  | added free =>
    have holds := (sound.tie_heard heard).holds_of_added List.mem_cons_self
    exact .inr (.inr ⟨holds, .inl rfl⟩)
  | hijacked holds => exact absurd holds unowned.1
  | kept party release =>
    rw [follows] at release
    cases release
  | removed party =>
    have known := ((sound.tie_heard heard).parting_of_removed List.mem_cons_self).2
    exact absurd known (unowned.2 p)
  | strike own | win own | part own => rw [own] at follows; cases follows

theorem Sound.yields_of_follows (sound : Sound names s)
    (heard : Heard names outranks s p k signal rest b said response) {peer : NodeName}
    (follows : (s.node k).stage = .follows peer true) :
    ((s.pop p k rest).act names k b said).Yields names k := by
  unfold Yields
  rw [node_act_self]
  obtain same | ⟨-, -, other⟩ | ⟨holds, known⟩ := sound.follower_hear heard follows
  · exact .inl ⟨peer, same⟩
  · exact .inl ⟨p, other⟩
  · refine .inr ⟨p, heard.source, ?_, known⟩
    rwa [node_act_of_ne heard.ne]

/-- Who knows of a holder still does after it heard something. -/
theorem Sound.known_hear (sound : Sound names s)
    (heard : Heard names outranks s p k signal rest b said response) {h : NodeName}
    (holds : (s.node h).holds) (known : h ∈ (s.node k).knows) :
    (((s.pop p k rest).act names k b said).node h).holds ∧
      h ∈ (((s.pop p k rest).act names k b said).node k).knows := by
  have ne : h ≠ k := ((sound.placed heard.target).knows known).2
  rw [node_act_of_ne ne, node_act_self]
  refine ⟨holds, ?_⟩
  cases heard.hearing with
  | added | hijacked => exact .inr known
  | removed | removedElsewhere =>
    refine ⟨known, fun eq => ?_⟩
    have free := ((sound.tie_heard heard).parting_of_removed List.mem_cons_self).1
    rw [Set.mem_singleton_iff] at eq
    exact free (eq ▸ holds)
  | _ => exact known

/-- As long as somebody may still take the lock, or has it, those who keep back go on to. -/
theorem Sound.yields_hear (sound : Sound names s)
    (heard : Heard names outranks s p k signal rest b said response) {x y : NodeName}
    (hy : y ∈ names)
    (candidate : ((s.pop p k rest).act names k b said).Claims y ∨
      (((s.pop p k rest).act names k b said).node y).holds)
    (yields : s.Yields names x) : ((s.pop p k rest).act names k b said).Yields names x := by
  by_cases self : x = k
  · subst self
    obtain ⟨peer, follows⟩ | ⟨h, member, holds, known⟩ := yields
    · exact sound.yields_of_follows heard follows
    · exact .inr ⟨h, member, sound.known_hear heard holds known⟩
  · unfold Yields at yields ⊢
    rw [node_act_of_ne self]
    refine yields.imp id ?_
    rintro ⟨h, member, holds, known⟩
    refine ⟨h, member, ?_, known⟩
    by_cases eq : h = k
    · subst eq
      rw [node_act_self]
      have old := candidate_of_hear heard candidate
      cases heard.hearing with
      | followClaim unowned => exact absurd holds unowned.1
      | added free => exact absurd holds free
      | hijacked => exact absurd holds (sound.free_of_added heard)
      | win => exact trivial
      -- Everybody consented to the release, and whoever did has the owner on record still: nobody
      -- acquires the lock, and no other node has it.
      | part own last =>
        by_cases same : y = h
        · subst same
          unfold Claims at candidate
          rw [node_act_self] at candidate
          simp at candidate
        · obtain claims | held := old
          · obtain ⟨node, awaits, own'⟩ := claims
            have known := sound.known_at_part heard own rfl last hy same
            exact absurd known (((sound.coherent hy).own_claim own').2 h)
          · exact absurd (sound.alone hy member held holds) same
      | _ => exact holds
    · rwa [node_act_of_ne eq]

/-- What is agreed on grows by the consent of the node that hears, if it gives one. -/
theorem agreed_of_hear (heard : Heard names outranks s p k signal rest b said response)
    {x y : NodeName} (agreed : (x, y) ∈ (s.chronicle.notes k said).agreed) :
    (x, y) ∈ s.chronicle.agreed ∨
      x = k ∧ ((s.pop p k rest).act names k b said).Yields names x := by
  cases hearing : heard.hearing with
  | followClaim unowned yields =>
    simp only [Chronicle.notes_cons, Chronicle.notes_nil, Chronicle.note, Finset.mem_insert,
      Prod.mk.injEq] at agreed
    obtain ⟨rfl, rfl⟩ | old := agreed
    · refine .inr ⟨rfl, .inl ⟨y, ?_⟩⟩
      rw [node_act_self]
    · exact .inl old
  | _ => exact .inl agreed

/-- A hearing leaves a sound scene sound, or makes it a crossed one. -/
theorem Sound.hear (sound : Sound names s)
    (heard : Heard names outranks s p k signal rest b said response) :
    Sound names ((s.pop p k rest).act names k b said) ∨
      Crossed names ((s.pop p k rest).act names k b said) := by
  by_cases crossed : Crossed names ((s.pop p k rest).act names k b said)
  · exact .inr crossed
  left
  -- The node that hears takes the lock while another has it only by crossing consents.
  have alone : ∀ y ∈ names, y ≠ k → b.holds → ¬ (s.node y).holds := by
    intro y hy ne holds holdsy
    have free : ¬ (s.node k).holds := fun old => ne (sound.alone hy heard.target holdsy old)
    obtain ⟨rfl, node, awaits, own⟩ := heard.hearing.wins free holds
    refine crossed ⟨k, heard.target, y, hy, ne.symm, ?_, ?_, ?_, ?_⟩
    · rwa [node_act_self]
    · rwa [node_act_of_ne ne]
    · intro agreed
      have unowned := (sound.coherent heard.target).own_claim own
      obtain ⟨q, follows⟩ | known := sound.backed heard.target hy ne.symm agreed (.inr holdsy)
      · rw [own] at follows
        cases follows
      · obtain ⟨h, -, -, known⟩ := known
        exact unowned.2 h known
    · -- The one that has the lock does not keep back, since it follows nobody and knows of nobody.
      intro agreed
      rcases sound.backed hy heard.target ne agreed (.inl ⟨node, awaits, own⟩) with
        ⟨q, follows⟩ | known
      · exact ((sound.coherent hy).follows_claim follows).1 holdsy
      · obtain ⟨h, -, -, known⟩ := known
        exact (sound.coherent hy).sole holdsy h known
  refine ⟨sound.toOrderly.hear heard, sound.tied_hear heard, ?_, ?_⟩
  · intro x y hx hy holdsx holdsy
    by_contra ne
    by_cases eqx : x = k
    · subst eqx
      rw [node_act_self] at holdsx
      rw [node_act_of_ne (Ne.symm ne)] at holdsy
      exact alone y hy (Ne.symm ne) holdsx holdsy
    · rw [node_act_of_ne eqx] at holdsx
      by_cases eqy : y = k
      · subst eqy
        rw [node_act_self] at holdsy
        exact alone x hx eqx holdsy holdsx
      · rw [node_act_of_ne eqy] at holdsy
        exact ne (sound.alone hx hy holdsx holdsy)
  · intro x y hx hy ne agreed candidate
    obtain old | ⟨-, yields⟩ := agreed_of_hear heard agreed
    · exact sound.yields_hear heard hy candidate
        (sound.backed hx hy ne old (candidate_of_hear heard candidate))
    · exact yields

/-- A step leaves a sound scene sound, or makes it a crossed one. -/
theorem Step.sound {s' : Scene} (step : Step names outranks free admits s s')
    (sound : Sound names s) : Sound names s' ∨ Crossed names s' := by
  cases step with
  | rest => exact .inl sound
  | deeds member deeds =>
    exact .inl (deeds_preserve (fun s b said i h _ => h.deed member) rfl sound deeds)
  | hear heard admitted deeds =>
    rw [← act_act]
    refine (sound.hear heard).imp ?_ ?_
    · intro sound'
      exact deeds_preserve (fun s b said i h _ => h.deed heard.target) node_act_self sound' deeds
    · intro crossed
      exact deeds_preserve (fun s b said i h _ => h.deed) node_act_self crossed deeds

/-- The node `x` waits no longer for the consent of `y` to its acquiring the lock. -/
def Struck (s : Scene) (x y : NodeName) : Prop :=
  ∃ node awaits, (s.node x).stage = .own node true awaits ∧ y ∉ awaits

/-- The node `x` waits no longer for the consent of `y`, or holds the lock. -/
def Takes (s : Scene) (x y : NodeName) : Prop := s.Struck x y ∨ (s.node x).holds

/-- Who takes the lock after a deed does so by no attempt that began just now. -/
theorem Takes.of_deed (deed : Deed k (company names k) initiative (s.node k) b said)
    {x y : NodeName} (hx : x ∈ names) (hy : y ∈ names) (ne : x ≠ y)
    (takes : (s.act names k b said).Takes x y) :
    s.Takes x y ∧ ((y, x) ∈ s.chronicle.agreed → (y, x) ∈ (s.chronicle.notes k said).agreed) := by
  have company : (company names k).Nonempty := company_nonempty hx hy ne
  unfold Takes at takes ⊢
  rw [holds_act_iff deed company] at takes
  unfold Struck at takes ⊢
  by_cases eq : x = k
  · subst eq
    rw [node_act_self] at takes
    cases deed with
    | claim idle unowned =>
      -- Everybody's consent is awaited by an attempt that begins.
      obtain ⟨node, awaits, own, struck⟩ | holds := takes
      · cases own
        exact absurd (mem_company_of_ne hy ne.symm) struck
      · exact absurd holds unowned.1
    | claimAlone _ _ alone | leaveAlone _ _ alone => exact absurd alone company.ne_empty
    | leave idle holds => exact ⟨.inr holds, id⟩
    | keep leaving =>
      refine ⟨takes.imp ?_ id, id⟩
      rintro ⟨node, awaits, own, -⟩
      cases own
  · rw [node_act_of_ne eq] at takes
    refine ⟨takes, fun old => ?_⟩
    cases deed with
    | claim => exact Finset.mem_filter.2 ⟨old, eq⟩
    | claimAlone | leave | leaveAlone | keep => exact old

/-- A consent that is taken into account arrives while the node acquires the lock. -/
theorem Takes.of_hear (heard : Heard names outranks s p k signal rest b said response)
    {x y : NodeName} (takes : ((s.pop p k rest).act names k b said).Takes x y) :
    s.Takes x y ∨ x = k ∧ y = p ∧ signal = .consents true ∧ s.Claims k := by
  unfold Takes Struck at takes ⊢
  by_cases eq : x = k
  · subst eq
    rw [node_act_self] at takes
    -- Whoever is struck off now is the one whose consent arrives.
    have arrived : ∀ {node awaits}, (s.node x).stage = .own node true awaits →
        y ∉ awaits \ {p} → signal = .consents true →
          s.Takes x y ∨ x = x ∧ y = p ∧ signal = .consents true ∧ s.Claims x := by
      intro node awaits own struck consent
      by_cases same : y = p
      · exact .inr ⟨rfl, same, consent, node, awaits, own⟩
      · exact .inl (.inl ⟨node, awaits, own, fun awaited => struck ⟨awaited, same⟩⟩)
    cases hearing : heard.hearing with
    | strike own more =>
      obtain ⟨node, awaits, own', struck⟩ | holds := takes
      · cases own'
        exact arrived own struck rfl
      · exact .inl (.inr holds)
    | win own last => exact arrived own (by simp [last]) rfl
    | part | added | hijacked => simp at takes
    | followClaim | followLeave | kept | removed =>
      exact .inl (.inr (takes.resolve_left (by simp)))
    | _ => exact .inl takes
  · rw [node_act_of_ne eq] at takes
    exact .inl takes

/-- A consent that is taken into account was on its way. -/
theorem Takes.consent_of_hear (heard : Heard names outranks s p k signal rest b said response)
    {x y : NodeName} (takes : ((s.pop p k rest).act names k b said).Takes x y) :
    s.Takes x y ∨ .consents true ∈ s.link y x := by
  refine (takes.of_hear heard).imp_right ?_
  rintro ⟨rfl, rfl, rfl, -⟩
  rw [heard.head]
  exact List.mem_cons_self

/-! ### Consents to the latest attempt -/

/-- A consent to acquiring the lock that arrives while the node acquires it was given after the node
last began to. -/
def Current (s : Scene) (p k : NodeName) (signal : Signal) (_ : List Signal) (_ : Response) :
    Prop :=
  signal = .consents true → s.Claims k → (p, k) ∈ s.chronicle.agreed

/-- Nothing has gone wrong, and no attempt to acquire the lock went by an outdated consent. -/
structure Consented (names : NameSet) (s : Scene) : Prop extends Sound names s where
  consented : ∀ {x y}, x ∈ names → y ∈ names → x ≠ y → s.Takes x y →
    (y, x) ∈ s.chronicle.agreed

theorem consented_start : Consented names .start where
  toSound := sound_start
  consented _ _ _ takes := by
    obtain ⟨node, awaits, own, -⟩ | holds := takes
    · cases own
    · exact holds.elim

theorem Consented.deed (consented : Consented names s) (member : k ∈ names)
    (deed : Deed k (company names k) initiative (s.node k) b said) :
    Consented names (s.act names k b said) where
  toSound := consented.toSound.deed member deed
  consented hx hy ne takes := by
    obtain ⟨old, same⟩ := takes.of_deed deed hx hy ne
    exact same (consented.consented hx hy ne old)

theorem Consented.hear (consented : Consented names s)
    (heard : Heard names outranks s p k signal rest b said response)
    (current : Current s p k signal rest response) :
    Consented names ((s.pop p k rest).act names k b said) := by
  have agreed : ∀ {x y}, x ∈ names → y ∈ names → x ≠ y →
      ((s.pop p k rest).act names k b said).Takes x y →
      (y, x) ∈ ((s.pop p k rest).act names k b said).chronicle.agreed := by
    intro x y hx hy ne takes
    refine heard.hearing.agreed_superset s.chronicle ?_
    obtain old | ⟨rfl, rfl, consent, claims⟩ := takes.of_hear heard
    · exact consented.consented hx hy ne old
    · exact current consent claims
  refine ⟨(consented.toSound.hear heard).resolve_right ?_, agreed⟩
  rintro ⟨x, hx, y, hy, ne, holds, -, -, outdated⟩
  exact outdated (agreed hx hy ne (.inr holds))

/-- As long as consents arrive at the attempts they were given to, none went by another. -/
theorem Step.consented {s' : Scene} (step : Step names outranks free Current s s')
    (consented : Consented names s) : Consented names s' :=
  step.preserves (fun _ _ _ _ _ consented _ member deed => consented.deed member deed)
    (fun _ _ _ _ _ _ _ _ consented heard current => consented.hear heard current) consented

end Scene

end Lock

/-! ### Runs of a cluster -/

namespace LockCluster

open Lock (Initiative Chronicle Scene)

variable {c : LockCluster} {names : NameSet} {outranks : Precedence} {free : Initiative → Prop}
  {lock : Lock} {steps : List ClusterStep}

/-- A node that is there holds a lock. -/
def Holds (c : LockCluster) (k : NodeName) (lock : Lock) : Prop :=
  ∃ t ∈ c.nodes[k]?, lock ∈ t.held

instance (c : LockCluster) (k : NodeName) (lock : Lock) : Decidable (c.Holds k lock) :=
  inferInstanceAs (Decidable (∃ t ∈ c.nodes[k]?, lock ∈ t.held))

/-- No two nodes hold a lock. -/
def Exclusive (c : LockCluster) (lock : Lock) : Prop :=
  ∀ x y, c.Holds x lock → c.Holds y lock → x = y

/-- Two nodes hold a lock, and neither consented to that after the other last began to acquire
it. -/
def Crossed (c : LockCluster) (lock : Lock) (h : Chronicle) : Prop :=
  ∃ x y, x ≠ y ∧ c.Holds x lock ∧ c.Holds y lock ∧ (x, y) ∉ h.agreed ∧ (y, x) ∉ h.agreed

theorem holds_scene (c : LockCluster) (lock : Lock) (h : Chronicle) (k : NodeName) :
    ((c.scene lock h).node k).holds ↔ c.Holds k lock := by
  cases here : c.nodes[k]? with
  | none => simp [scene, Holds, here]
  | some t =>
    rw [node_scene here]
    simp [Holds, here, Arbitrator.standing]

theorem Meshed.mem_of_holds (mesh : c.Meshed names outranks) {k : NodeName}
    (holds : c.Holds k lock) : k ∈ names := by
  obtain ⟨t, here, -⟩ := holds
  rw [Option.mem_def] at here
  exact (mesh.nodes k).1 (Std.ExtTreeMap.mem_iff_isSome_getElem?.2 (by simp [here]))

theorem Meshed.exclusive (mesh : c.Meshed names outranks) {h : Chronicle}
    (sound : (c.scene lock h).Sound names) : c.Exclusive lock := by
  intro x y holdsx holdsy
  exact sound.alone (mesh.mem_of_holds holdsx) (mesh.mem_of_holds holdsy)
    ((holds_scene c lock h x).2 holdsx) ((holds_scene c lock h y).2 holdsy)

theorem crossed_of_scene {h : Chronicle} (crossed : (c.scene lock h).Crossed names) :
    c.Crossed lock h := by
  obtain ⟨x, -, y, -, ne, holdsx, holdsy, agreed, agreed'⟩ := crossed
  exact ⟨x, y, ne, (holds_scene c lock h x).1 holdsx, (holds_scene c lock h y).1 holdsy, agreed,
    agreed'⟩

theorem allows_of_free (claim : free .claim) (leave : free .leave) : c.Allows free :=
  fun _ _ _ _ _ => ⟨fun _ => claim, fun _ _ _ _ _ => leave⟩

/-- The hypotheses that a run meets, it met all along. -/
theorem prefix_of_append_one {past : List ClusterStep} {step : ClusterStep}
    (sofar : past <+: steps) : past <+: steps ++ [step] :=
  sofar.trans (List.prefix_append _ _)

/-- As long as no consents have crossed, a run of calls and deliveries is sound. -/
theorem sound_of_run (names : NameSet) (outranks : Precedence) (lock : Lock)
    (calls : ∀ step ∈ steps, step.Asks fun _ => True)
    (straight : ∀ past, past <+: steps →
      ¬ ((ofNodes outranks names).run past).Crossed lock
        ((ofNodes outranks names).chronicle lock past)) :
    ((ofNodes outranks names).run steps).Meshed names outranks ∧
      (((ofNodes outranks names).run steps).scene lock
        ((ofNodes outranks names).chronicle lock steps)).Sound names := by
  induction steps using List.reverseRecOn with
  | nil => exact ⟨meshed_ofNodes outranks names, by
      rw [run_nil, show (ofNodes outranks names).chronicle lock [] = .blank from rfl,
        scene_ofNodes]
      exact Scene.sound_start⟩
  | append_singleton steps step ih =>
    obtain ⟨mesh, sound⟩ := ih (fun s member => calls s (List.mem_append_left _ member))
      fun past sofar => straight past (prefix_of_append_one sofar)
    obtain ⟨mesh', simulates⟩ := mesh.step (fun _ _ _ _ _ _ => True) (calls step (by simp))
      (allows_of_free trivial trivial)
    rw [run_append_one, chronicle_append_one]
    refine ⟨mesh', ((simulates lock _ ?_).sound sound).resolve_right fun crossed => ?_⟩
    · cases step <;> simp [Admits]
    · refine straight _ List.prefix_rfl ?_
      rw [run_append_one, chronicle_append_one]
      exact crossed_of_scene crossed

/-- A run of calls and deliveries keeps a lock exclusive exactly if no two nodes ever come to hold
it neither of which consented to that after the other last began to acquire it. It does so if
consents arrive only at the attempts they were given to. -/
theorem exclusive_iff_never_crossed (names : NameSet) (outranks : Precedence) (lock : Lock)
    (steps : List ClusterStep) (calls : ∀ step ∈ steps, step.Asks fun _ => True) :
    ((∀ past, past <+: steps → ((ofNodes outranks names).run past).Exclusive lock) ↔
      ∀ past, past <+: steps →
        ¬ ((ofNodes outranks names).run past).Crossed lock
          ((ofNodes outranks names).chronicle lock past)) ∧
    ((ofNodes outranks names).Admitted Scene.Current lock steps →
      ∀ past, past <+: steps → ((ofNodes outranks names).run past).Exclusive lock) := by
  refine ⟨⟨fun exclusive past sofar crossed => ?_, fun straight past sofar => ?_⟩,
    fun current past sofar => ?_⟩
  · obtain ⟨x, y, ne, holdsx, holdsy, -, -⟩ := crossed
    exact ne (exclusive past sofar x y holdsx holdsy)
  · obtain ⟨mesh, sound⟩ := sound_of_run names outranks lock
      (fun step member => calls step (sofar.subset member))
      fun earlier before => straight earlier (before.trans sofar)
    exact mesh.exclusive sound
  · obtain ⟨mesh, consented⟩ := preserved_of_run
      (fun step member => calls step (sofar.subset member))
      (fun _ _ => allows_of_free trivial trivial)
      (fun earlier step before => current earlier step (before.trans sofar))
      Scene.consented_start fun step consented => step.consented consented
    exact mesh.exclusive consented.toSound

/-! ### A run whose consents cross -/

/-- The lock of the run below. -/
def contested : Lock := ⟨"d", none⟩

/-- Deliveries over the given links, in order. -/
def deliveries (links : List (NodeName × NodeName)) : List ClusterStep :=
  links.map fun (source, target) => .deliver ⟨source, target⟩

/-- What `a` publishes reaches both other nodes. -/
def tellAll : List ClusterStep := deliveries [("a", "b"), ("a", "c")]

/-- Something from each of the other nodes reaches `a`. -/
def hearAll : List ClusterStep := deliveries [("b", "a"), ("c", "a")]

/-- What `a` announced is consented to, and `a` tells that it went through. -/
def goThrough : List ClusterStep := tellAll ++ hearAll ++ tellAll

/-- The links between `b` and `c` are slow. Both want the lock, and consent to each other's first
attempts, but `a` comes first, twice. When they want the lock again, each takes the late consent
of the other for a consent to its new attempt. -/
def crossingRun : List ClusterStep :=
  [.act "c" (.acquire contested 0), .act "b" (.acquire contested 1)] ++
  deliveries [("b", "c")] ++
  [.act "a" (.acquire contested 2)] ++ tellAll ++ hearAll ++ hearAll ++ tellAll ++
  [.act "a" (.release contested 3)] ++ goThrough ++
  deliveries [("c", "b")] ++
  [.act "a" (.acquire contested 4)] ++ goThrough ++
  [.act "a" (.release contested 5)] ++ goThrough ++
  [.act "c" (.acquire contested 6), .act "b" (.acquire contested 7)] ++
  deliveries [("c", "a"), ("a", "c"), ("b", "a"), ("a", "b"), ("b", "c"), ("c", "b")]

theorem asks_crossingRun : ∀ step ∈ crossingRun, step.Asks fun _ => True := by
  simp [crossingRun, goThrough, tellAll, hearAll, deliveries, ClusterStep.Asks, LockOp.Asks]

theorem holds_crossingRun :
    ((ofNodes .byName (.ofList ["a", "b", "c"])).run crossingRun).Holds "b" contested ∧
    ((ofNodes .byName (.ofList ["a", "b", "c"])).run crossingRun).Holds "c" contested := by
  decide +kernel

/-- Somewhere in this run consents have crossed. -/
theorem crossed_in_crossingRun : ∃ past, past <+: crossingRun ∧
    ((ofNodes .byName (.ofList ["a", "b", "c"])).run past).Crossed contested
      ((ofNodes .byName (.ofList ["a", "b", "c"])).chronicle contested past) := by
  by_contra none
  push Not at none
  have exclusive :=
    (exclusive_iff_never_crossed _ _ contested crossingRun asks_crossingRun).1.2 none
  have same := exclusive crossingRun List.prefix_rfl "b" "c" holds_crossingRun.1
    holds_crossingRun.2
  simp at same

/-- Calls and deliveries alone can make two nodes hold a lock at once. -/
theorem crossed_consents_grant_twice :
    (∀ step ∈ crossingRun, step.Asks fun _ => True) ∧
    ¬ ((ofNodes .byName (.ofList ["a", "b", "c"])).run crossingRun).Exclusive contested := by
  refine ⟨asks_crossingRun, fun exclusive => ?_⟩
  have same := exclusive "b" "c" holds_crossingRun.1 holds_crossingRun.2
  simp at same

end LockCluster

end Cohort

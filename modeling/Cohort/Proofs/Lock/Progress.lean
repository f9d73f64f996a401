import Cohort.Proofs.Lock.Timely

/-!
# Why an attempt goes on

When nothing is on the links any more, a node that still waits for another must have been heard by
it; the other must have had a reason to keep silent, and as long as all answers are given in time
that reason is a node that will be served first. The first of them waits for nobody, so nobody
waits at all.

## Main definitions

* `Lock.Scene.Lively`: what every attempt waits for.

## Main statements

* `Lock.Scene.Step.lively`: a timely step in which no node keeps a lock it was giving up leaves a
  lively scene lively.
* `Lock.Scene.Lively.idle_of_quiet`: nobody waits in a lively scene in which nothing is on the
  links.
-/

namespace Cohort

namespace Lock

/-! ### How a node comes to follow, to acquire and to announce -/

section

variable {self peer : NodeName} {outranks : Precedence} {signal : Signal} {b b' : Standing}
  {said : List Saying} {response : Response}

theorem Hearing.follows_claim (hearing : Hearing self outranks peer signal b b' said response)
    {q : NodeName} (follows : b'.stage = .follows q true) :
    b.stage = .follows q true ∨
      q = peer ∧ signal = .begins true ∧ response = .consents := by
  cases hearing with
  | followClaim =>
    cases follows
    exact .inr ⟨rfl, rfl, rfl⟩
  | followLeave | added | hijacked | kept | removed | strike | win | part => cases follows
  | _ => exact .inl follows

theorem Hearing.follows_leave (hearing : Hearing self outranks peer signal b b' said response)
    {q : NodeName} (follows : b'.stage = .follows q false) :
    b.stage = .follows q false ∧ b'.knows ⊆ b.knows ∧ (signal = .removed → q ≠ peer) ∨
      q = peer ∧ signal = .begins false ∧ b'.knows = b.knows := by
  cases hearing with
  | followLeave =>
    cases follows
    exact .inr ⟨rfl, rfl, rfl⟩
  | followClaim | added | hijacked | kept | removed | strike | win | part => cases follows
  | removedElsewhere other =>
    refine .inl ⟨follows, Set.sdiff_subset, fun _ eq => other ?_⟩
    rw [follows, eq]
    rfl
  | _ => exact .inl ⟨follows, subset_rfl, nofun⟩

/-- An attempt of the node's own that goes on after something was heard went on before. -/
theorem Hearing.own (hearing : Hearing self outranks peer signal b b' said response)
    {node : NodeName} {acquire : Bool} {awaits : Set NodeName}
    (own : b'.stage = .own node acquire awaits) :
    ∃ awaits', b.stage = .own node acquire awaits' ∧ awaits ⊆ awaits' ∧
      (signal = .consents acquire → peer ∉ awaits) := by
  cases hearing with
  | followClaim | followLeave | added | hijacked | kept | removed | win | part => cases own
  | strike own' =>
    cases own
    exact ⟨_, own', Set.sdiff_subset, fun _ awaited => awaited.2 rfl⟩
  | stale other =>
    refine ⟨awaits, own, subset_rfl, fun eq => ?_⟩
    cases eq
    exact absurd own (other _ _)
  | _ => exact ⟨awaits, own, subset_rfl, nofun⟩

/-- A node begins no attempt by hearing something. -/
theorem Hearing.no_begins (hearing : Hearing self outranks peer signal b b' said response)
    (acquire : Bool) (q : NodeName) :
    .begins acquire ∉ said.filterMap (Saying.signalTo? q) := by
  cases hearing with
  | followClaim | followLeave => by_cases eq : peer = q <;> simp [Saying.signalTo?, eq]
  | _ => simp [Saying.signalTo?]

end

namespace Scene

variable {names : NameSet} {outranks : Precedence} {free : Initiative → Prop}
  {s : Scene} {p k : NodeName} {signal : Signal} {rest : List Signal}
  {b : Standing} {said : List Saying} {response : Response} {initiative : Initiative}

/-! ### What attempts wait for -/

/-- Some node holds the lock. -/
def Held (names : NameSet) (s : Scene) : Prop := ∃ h ∈ names, (s.node h).holds

/-- As far as the node `k` is concerned, `w` is to have the lock. -/
def Favours (s : Scene) (k w : NodeName) : Prop :=
  (s.node k).stage.IsClaim ∧ (s.node k).stage.party = some w

/-- The node `h` gives the lock up, and waits for the consent of `y`. -/
def Leaves (s : Scene) (h y : NodeName) : Prop :=
  ∃ node awaits, (s.node h).stage = .own node false awaits ∧ y ∈ awaits

/-- The announcements of a release that are on their way to a node, and its consents to it that
are on their way back. -/
def due (s : Scene) (h y : NodeName) : ℕ :=
  (s.link h y).count (.begins false) + (s.link y h).count (.consents false)

/-- What every attempt waits for. -/
structure Lively (names : NameSet) (outranks : Precedence) (s : Scene) : Prop
    extends Punctual names outranks s where
  /-- Whoever is followed began to acquire the lock since it was last given up. -/
  recent : ∀ {y q}, y ∈ names → (s.node y).stage = .follows q true → q ∈ s.chronicle.fresh
  /-- Whoever is followed has announced nothing else. -/
  latest : ∀ {y q}, y ∈ names → (s.node y).stage = .follows q true → .begins true ∉ s.link q y
  /-- Somebody is followed only while there is somebody to have the lock. -/
  sought : ∀ {y q}, y ∈ names → (s.node y).stage = .follows q true →
    Held names s ∨ ∃ z ∈ names, s.Claims z ∧ (z = q ∨ outranks z q = true)
  /-- Whoever waits for a consent is being announced, or the consent is on its way, or it comes
  second. -/
  awaited : ∀ {z y node awaits}, z ∈ names → (s.node z).stage = .own node true awaits →
    y ∈ awaits →
    .begins true ∈ s.link z y ∨ .consents true ∈ s.link y z ∨
      (∃ w, s.Favours y w ∧ outranks w z = true) ∨ Held names s
  /-- Whoever waits for a consent to a release is being announced, or the consent is on its
  way. -/
  counted : ∀ {h y}, h ∈ names → y ∈ names → h ≠ y →
    s.Leaves h y ∧ s.due h y = 1 ∨ ¬ s.Leaves h y ∧ s.due h y = 0
  /-- A release that is followed is either going on or over. -/
  ended : ∀ {y q}, y ∈ names → (s.node y).stage = .follows q false →
    .begins false ∉ s.link q y ∧
      ((∃ node awaits, (s.node q).stage = .own node false awaits) ∨ .removed ∈ s.link q y)
  /-- A release is followed only of the node that holds the lock, if that is on record. -/
  released : ∀ {y q h}, y ∈ names → (s.node y).stage = .follows q false → h ∈ names →
    (s.node h).holds → h ∈ (s.node y).knows → h = q

theorem lively_start : Lively names outranks .start where
  toPunctual := punctual_start
  recent _ := nofun
  latest _ := nofun
  sought _ := nofun
  awaited _ := nofun
  counted _ _ _ := by
    refine .inr ⟨?_, rfl⟩
    rintro ⟨node, awaits, own, -⟩
    cases own
  ended _ := nofun
  released _ := nofun

/-! ### Deeds -/

theorem node_deed_of_follows (deed : Deed k (company names k) initiative (s.node k) b said)
    {y q : NodeName} {acquire : Bool}
    (follows : ((s.act names k b said).node y).stage = .follows q acquire) : y ≠ k := by
  rintro rfl
  rw [node_act_self] at follows
  cases deed with
  | claim | leave | keep => cases follows
  | claimAlone idle | leaveAlone idle =>
    rw [show _ = Stage.idle from idle] at follows
    cases follows

theorem Held.deed (deed : Deed k (company names k) initiative (s.node k) b said)
    (company : (company names k).Nonempty) (held : Held names s) :
    Held names (s.act names k b said) := by
  obtain ⟨h, member, holds⟩ := held
  exact ⟨h, member, (holds_act_iff deed company h).2 holds⟩

/-- Who begins an attempt has none so far. -/
theorem Claims.deed (deed : Deed k (company names k) initiative (s.node k) b said) {z : NodeName}
    (claims : s.Claims z) : (s.act names k b said).Claims z := by
  obtain ⟨node, awaits, own⟩ := claims
  by_cases eq : z = k
  · subst eq
    cases deed with
    | claim idle | claimAlone idle | leave idle | leaveAlone idle => rw [idle] at own; cases own
    | keep leaving => rw [leaving] at own; cases own
  · exact ⟨node, awaits, by rwa [node_act_of_ne eq]⟩

theorem Favours.deed (deed : Deed k (company names k) initiative (s.node k) b said)
    {y w : NodeName} (favours : s.Favours y w) : (s.act names k b said).Favours y w := by
  obtain ⟨claim, party⟩ := favours
  by_cases eq : y = k
  · subst eq
    cases deed with
    | claim idle | claimAlone idle | leave idle | leaveAlone idle => rw [idle] at claim; cases claim
    | keep leaving => rw [leaving] at claim; cases claim
  · unfold Favours
    rw [node_act_of_ne eq]
    exact ⟨claim, party⟩

/-- What is on a link stays there while nodes act on their own account. -/
theorem mem_link_act {e : Signal} {x y : NodeName} (member : e ∈ s.link x y) :
    e ∈ (s.act names k b said).link x y := by
  unfold act
  dsimp only
  split
  · exact List.mem_append_left _ member
  · exact member

/-- An attempt of the node's own in a scene after a deed began just now, or before. -/
theorem own_deed (deed : Deed k (company names k) initiative (s.node k) b said)
    {z node : NodeName} {acquire : Bool} {awaits : Set NodeName}
    (own : ((s.act names k b said).node z).stage = .own node acquire awaits) :
    z = k ∧ said = [.publish (.begins acquire)] ∧ awaits = company names k ∨
      z ≠ k ∧ (s.node z).stage = .own node acquire awaits := by
  by_cases eq : z = k
  · subst eq
    rw [node_act_self] at own
    cases deed with
    | claim | leave =>
      cases own
      exact .inl ⟨rfl, rfl, rfl⟩
    | claimAlone idle | leaveAlone idle =>
      rw [show _ = Stage.idle from idle] at own
      cases own
    | keep => cases own
  · rw [node_act_of_ne eq] at own
    exact .inr ⟨eq, own⟩

/-- A node that another follows does not begin to acquire the lock. -/
theorem Lively.latest_deed (lively : Lively names outranks s) (member : k ∈ names)
    (deed : Deed k (company names k) initiative (s.node k) b said) {y q : NodeName}
    (hy : y ∈ names) (follows : (s.node y).stage = .follows q true) :
    .begins true ∉ (s.act names k b said).link q y := by
  have latest := lively.latest hy follows
  have ne : q ≠ y := ((lively.placed hy).party follows).2
  by_cases eq : q = k
  · subst eq
    rw [link_act_source hy ne.symm]
    cases deed with
    | claim idle unowned =>
      -- A node that is followed is engaged, and an engaged node does not begin again.
      rcases lively.engaged member (lively.recent hy follows) with
        ⟨node, awaits, own⟩ | ⟨q', other, -⟩ | holds | ⟨h, -, -, known⟩
      · rw [idle] at own
        cases own
      · rw [idle] at other
        cases other
      · exact absurd holds unowned.1
      · exact absurd known (unowned.2 h)
    | claimAlone | leave | leaveAlone | keep =>
      intro announced
      obtain old | new := List.mem_append.1 announced
      · exact latest old
      · simp [Saying.signalTo?] at new
  · rwa [link_act_of_ne eq]

theorem Lively.counted_deed (lively : Lively names outranks s) (member : k ∈ names)
    (deed : Deed k (company names k) initiative (s.node k) b said) (keeps : initiative ≠ .keep)
    {h y : NodeName} (hh : h ∈ names) (hy : y ∈ names) (ne : h ≠ y) :
    (s.act names k b said).Leaves h y ∧ (s.act names k b said).due h y = 1 ∨
      ¬ (s.act names k b said).Leaves h y ∧ (s.act names k b said).due h y = 0 := by
  have counted := lively.counted hh hy ne
  unfold Leaves due at counted ⊢
  by_cases eqh : h = k
  · subst eqh
    rw [node_act_self, link_act_source hy ne.symm, link_act_of_ne ne.symm]
    cases deed with
    | claim idle =>
      right
      rw [idle] at counted
      simpa [Saying.signalTo?] using counted
    -- The announcement is the one signal of this release that is under way.
    | leave idle =>
      left
      rw [idle] at counted
      have none : (s.link h y).count (.begins false) = 0 ∧
          (s.link y h).count (.consents false) = 0 := by
        simpa using counted
      refine ⟨⟨_, _, rfl, mem_company_of_ne hy ne.symm⟩, ?_⟩
      simp [Saying.signalTo?, none.1, none.2]
    | claimAlone _ _ alone | leaveAlone _ _ alone =>
      exact absurd alone (company_nonempty hh hy ne).ne_empty
    | keep => exact absurd rfl keeps
  · rw [node_act_of_ne eqh, link_act_of_ne eqh]
    by_cases eqy : y = k
    · subst eqy
      have none : (said.filterMap (Saying.signalTo? h)).count (.consents false) = 0 := by
        refine List.count_eq_zero.2 fun consent => ?_
        rw [← mem_consents, deed.consents_eq] at consent
        cases consent
      rw [link_act_source hh ne, List.count_append, none, Nat.add_zero]
      exact counted
    · rwa [link_act_of_ne eqy]

/-- A node whose release another follows begins no new one. -/
theorem Lively.ended_deed (lively : Lively names outranks s) (member : k ∈ names)
    (deed : Deed k (company names k) initiative (s.node k) b said) (keeps : initiative ≠ .keep)
    {y q : NodeName} (hy : y ∈ names) (follows : (s.node y).stage = .follows q false) :
    .begins false ∉ (s.act names k b said).link q y ∧
      ((∃ node awaits, ((s.act names k b said).node q).stage = .own node false awaits) ∨
        .removed ∈ (s.act names k b said).link q y) := by
  obtain ⟨none, state⟩ := lively.ended hy follows
  have party := (lively.placed hy).party follows
  by_cases eq : q = k
  · subst eq
    have idle : (s.node q).stage = .idle := by
      cases deed with
      | claim idle | claimAlone idle | leave idle | leaveAlone idle => exact idle
      | keep => exact absurd rfl keeps
    have removed : .removed ∈ s.link q y := state.resolve_left fun ⟨node, awaits, own⟩ => by
      rw [idle] at own
      cases own
    -- Word of the release is still on its way, so the node does not hold the lock.
    have free := ((lively.tied member hy party.2).parting_of_removed
      (mem_events.2 ⟨removed, rfl⟩)).1
    refine ⟨?_, .inr (mem_link_act removed)⟩
    rw [link_act_source hy party.2.symm]
    intro announced
    refine (List.mem_append.1 announced).elim none fun new => ?_
    cases deed with
    | leave _ holds => exact free holds
    | claim | claimAlone | leaveAlone | keep => simp [Saying.signalTo?] at new
  · rw [link_act_of_ne eq, node_act_of_ne eq]
    exact ⟨none, state⟩

theorem Lively.deed (lively : Lively names outranks s) (member : k ∈ names)
    (deed : Deed k (company names k) initiative (s.node k) b said) (keeps : initiative ≠ .keep) :
    Lively names outranks (s.act names k b said) where
  toPunctual := lively.toPunctual.deed member deed
  recent {y q} hy follows := by
    have ne := node_deed_of_follows deed follows
    rw [node_act_of_ne ne] at follows
    have recent := lively.recent hy follows
    cases deed with
    | claim => exact Finset.mem_insert_of_mem recent
    | leaveAlone _ _ alone => exact absurd alone (company_nonempty hy member ne).ne_empty
    | claimAlone | leave | keep => exact recent
  latest hy follows := by
    rw [node_act_of_ne (node_deed_of_follows deed follows)] at follows
    exact lively.latest_deed member deed hy follows
  sought {y q} hy follows := by
    have ne := node_deed_of_follows deed follows
    rw [node_act_of_ne ne] at follows
    refine (lively.sought hy follows).imp (Held.deed deed (company_nonempty hy member ne)) ?_
    rintro ⟨z, hz, claims, ahead⟩
    exact ⟨z, hz, claims.deed deed, ahead⟩
  awaited {z y node awaits} hz own awaited := by
    obtain ⟨rfl, rfl, rfl⟩ | ⟨-, old⟩ := own_deed deed own
    · left
      rw [link_act_source awaited.1 awaited.2]
      exact List.mem_append_right _ List.mem_cons_self
    · obtain ⟨hy, ne⟩ := ((lively.placed hz).own old).2.2 awaited
      refine (lively.awaited hz old awaited).imp mem_link_act
        (Or.imp mem_link_act (Or.imp ?_ ?_))
      · rintro ⟨w, favours, ahead⟩
        exact ⟨w, favours.deed deed, ahead⟩
      · exact Held.deed deed (company_nonempty hy hz ne)
  counted := lively.counted_deed member deed keeps
  ended hy follows := by
    rw [node_act_of_ne (node_deed_of_follows deed follows)] at follows
    exact lively.ended_deed member deed keeps hy follows
  released {y q h} hy follows hh holds known := by
    have ne := node_deed_of_follows deed follows
    rw [node_act_of_ne ne] at follows known
    rw [holds_act_iff deed (company_nonempty hy member ne)] at holds
    exact lively.released hy follows hh holds known

/-! ### Hearings -/

theorem holds_hear (heard : Heard names outranks s p k signal rest b said response)
    (kept : .publish .removed ∉ said) {h : NodeName} (holds : (s.node h).holds) :
    (((s.pop p k rest).act names k b said).node h).holds := by
  by_cases eq : h = k
  · subst eq
    rw [node_act_self]
    exact (heard.hearing.holds_or_removed holds).resolve_right kept
  · rwa [node_act_of_ne eq]

theorem Held.hear (heard : Heard names outranks s p k signal rest b said response)
    (kept : .publish .removed ∉ said) (held : Held names s) :
    Held names ((s.pop p k rest).act names k b said) := by
  obtain ⟨h, member, holds⟩ := held
  exact ⟨h, member, holds_hear heard kept holds⟩

/-- What is on a link stays there until it is heard. -/
theorem mem_link_hear (heard : Heard names outranks s p k signal rest b said response)
    {e : Signal} {x y : NodeName} (member : e ∈ s.link x y) :
    e ∈ ((s.pop p k rest).act names k b said).link x y ∨ x = p ∧ y = k ∧ e = signal := by
  by_cases eq : x = p ∧ y = k
  · obtain ⟨rfl, rfl⟩ := eq
    rw [link_heard_self heard.ne]
    rw [heard.head] at member
    exact (List.mem_cons.1 member).symm.imp id fun eq => ⟨rfl, rfl, eq⟩
  · left
    refine mem_link_act ?_
    rwa [link_pop_of_ne eq]

/-- Who is followed to acquire the lock after something was heard was followed before, or was heard
just now. -/
theorem follows_hear (heard : Heard names outranks s p k signal rest b said response)
    {y q : NodeName}
    (follows : (((s.pop p k rest).act names k b said).node y).stage = .follows q true) :
    (s.node y).stage = .follows q true ∨
      y = k ∧ q = p ∧ signal = .begins true ∧ response = .consents := by
  by_cases eq : y = k
  · subst eq
    rw [node_act_self] at follows
    exact (heard.hearing.follows_claim follows).imp id fun new => ⟨rfl, new⟩
  · rw [node_act_of_ne eq] at follows
    exact .inl follows

/-- A node favours itself or the one it follows. -/
theorem Orderly.favours_cases (orderly : Orderly names s) {y w : NodeName} (hy : y ∈ names)
    (favours : s.Favours y w) : w = y ∧ s.Claims y ∨ (s.node y).stage = .follows w true := by
  obtain ⟨claim, party⟩ := favours
  cases stage : (s.node y).stage with
  | idle =>
    rw [stage] at claim
    cases claim
  | own node acquire awaits =>
    rw [stage] at claim party
    obtain rfl := Option.some.inj party
    obtain rfl : acquire = true := claim
    exact .inl ⟨((orderly.placed hy).own stage).1, node, awaits, stage⟩
  | follows q acquire =>
    rw [stage] at claim party
    obtain rfl := Option.some.inj party
    obtain rfl : acquire = true := claim
    exact .inr rfl

/-- Whoever a node favours is one of the cluster. -/
theorem Orderly.mem_of_favours (orderly : Orderly names s) {y w : NodeName} (hy : y ∈ names)
    (favours : s.Favours y w) : w ∈ names := by
  obtain ⟨rfl, -⟩ | stage := orderly.favours_cases hy favours
  · exact hy
  · exact ((orderly.placed hy).party stage).1

/-- A node that favours another goes on to, or favours one who comes first, or somebody holds the
lock. -/
theorem Sound.favours_hear (orders : outranks.Orders names) (sound : Sound names s)
    (heard : Heard names outranks s p k signal rest b said response) {w : NodeName}
    (favours : s.Favours k w) :
    ((s.pop p k rest).act names k b said).Favours k w ∨
      ((s.pop p k rest).act names k b said).Favours k p ∧ outranks p w = true ∨
      Held names ((s.pop p k rest).act names k b said) := by
  have member := sound.mem_of_favours heard.target favours
  obtain ⟨claim, party⟩ := favours
  have unowned := (sound.coherent heard.target).claim claim
  unfold Favours
  rw [node_act_self]
  cases hearing : heard.hearing with
  | followClaim _ yields =>
    exact .inr (.inl ⟨⟨rfl, rfl⟩,
      outranks_of_yields orders member heard.source (yields w party)⟩)
  | followLeave recorded idle => rw [idle] at claim; cases claim
  | refuse | alreadyOwner | defer | notOwner | busy | keptElsewhere | removedElsewhere | stale =>
    exact .inl ⟨claim, party⟩
  | added =>
    have holds := (sound.tie_heard heard).holds_of_added List.mem_cons_self
    refine .inr (.inr ⟨p, heard.source, ?_⟩)
    rwa [node_act_of_ne heard.ne]
  | hijacked holds => exact absurd holds unowned.1
  | kept _ release => exact absurd release claim.not_isRelease
  | removed =>
    have known := ((sound.tie_heard heard).parting_of_removed List.mem_cons_self).2
    exact absurd known (unowned.2 p)
  | @strike _ node acquire awaits own more =>
    rw [own] at claim party
    exact .inl ⟨claim, party⟩
  | win =>
    refine .inr (.inr ⟨k, heard.target, ?_⟩)
    rw [node_act_self]
    exact trivial
  | part own =>
    rw [own] at claim
    cases claim

/-- Whoever is followed from now on began to acquire the lock, or comes after one who does, or
somebody holds the lock. -/
theorem Lively.sought_new (orders : outranks.Orders names) (lively : Lively names outranks s)
    (heard : Heard names outranks s p k (.begins true) rest b said .consents)
    (timely : Timely s p k (.begins true) rest .consents) :
    Held names ((s.pop p k rest).act names k b said) ∨
      ∃ z ∈ names, ((s.pop p k rest).act names k b said).Claims z ∧
        (z = p ∨ outranks z p = true) := by
  have kept : .publish .removed ∉ said := by
    cases heard.hearing
    simp
  have fresh := (timely.consents rfl rfl).1
  -- The announcement is fresh, so its sender is still engaged in one of four ways.
  rcases lively.engaged heard.source fresh with
    ⟨node, awaits, own⟩ | ⟨q, follows, ahead⟩ | holds | ⟨h, member, holds, -⟩
  · refine .inr ⟨p, heard.source, ⟨node, awaits, ?_⟩, .inl rfl⟩
    rwa [node_act_of_ne heard.ne]
  · obtain held | ⟨z, hz, claims, first⟩ := lively.sought heard.source follows
    · exact .inl (held.hear heard kept)
    · have hq := ((lively.placed heard.source).party follows).1
      have ahead' : outranks z p = true := by
        obtain rfl | first := first
        · exact ahead
        · exact orders.trans hz hq heard.source first ahead
      obtain ⟨node, awaits, own⟩ := claims
      -- A node that claims the lock itself does not consent to one that comes after it.
      have ne : z ≠ k := by
        rintro rfl
        cases heard.hearing with
        | followClaim unowned yields =>
          obtain ⟨rfl, -, -⟩ := (lively.placed hz).own own
          have yields := (yields node (by rw [own]; rfl)).2
          simp [ahead'] at yields
      refine .inr ⟨z, hz, ⟨node, awaits, ?_⟩, .inr ahead'⟩
      rwa [node_act_of_ne ne]
  · exact .inl (Held.hear heard kept ⟨p, heard.source, holds⟩)
  · exact .inl (Held.hear heard kept ⟨h, member, holds⟩)

theorem Lively.sought_hear (orders : outranks.Orders names) (lively : Lively names outranks s)
    (heard : Heard names outranks s p k signal rest b said response)
    (timely : Timely s p k signal rest response) {y q : NodeName} (hy : y ∈ names)
    (follows : (((s.pop p k rest).act names k b said).node y).stage = .follows q true) :
    Held names ((s.pop p k rest).act names k b said) ∨
      ∃ z ∈ names, ((s.pop p k rest).act names k b said).Claims z ∧
        (z = q ∨ outranks z q = true) := by
  have kept : .publish .removed ∉ said := fun removed =>
    lively.no_claim_of_removed heard removed hy (by rw [follows]; rfl)
  obtain old | ⟨rfl, rfl, rfl, rfl⟩ := follows_hear heard follows
  · have hq := ((lively.placed hy).party old).1
    obtain held | ⟨z, hz, claims, first⟩ := lively.sought hy old
    · exact .inl (held.hear heard kept)
    · by_cases eq : z = k
      · subst eq
        -- The node that is waited for heard something itself.
        rcases Engaged.claimant_hear orders lively.toSound heard claims with
          claims' | ⟨q', follows', ahead⟩ | holds | ⟨h, member, holds, -⟩
        · exact .inr ⟨z, hz, claims', first⟩
        · rw [node_act_self] at follows'
          obtain ⟨node, awaits, own⟩ := claims
          obtain ⟨rfl, rfl, rfl⟩ := (heard.hearing.follows_claim follows').resolve_left
            (by simp [own])
          refine (lively.sought_new orders heard timely).imp id ?_
          rintro ⟨z', hz', claims', first'⟩
          refine ⟨z', hz', claims', .inr ?_⟩
          have ahead' : outranks z' z = true := by
            obtain rfl | first' := first'
            · exact ahead
            · exact orders.trans hz' heard.source hz first' ahead
          obtain rfl | first := first
          · exact ahead'
          · exact orders.trans hz' hz hq ahead' first
        · exact .inl ⟨z, hz, holds⟩
        · exact .inl ⟨h, member, holds⟩
      · refine .inr ⟨z, hz, ?_, first⟩
        unfold Claims
        rwa [node_act_of_ne eq]
  · exact lively.sought_new orders heard timely

/-- Whoever a node has on record is one of the cluster. -/
theorem Orderly.mem_of_records (orderly : Orderly names s) (member : k ∈ names) {owner : NodeName}
    (recorded : (s.node k).Records k owner) : owner ∈ names := by
  obtain ⟨-, rfl⟩ | known := recorded
  · exact member
  · exact ((orderly.placed member).knows known).1

/-- What becomes of the announcement of a node that acquires the lock when it is heard. -/
theorem Lively.announced (lively : Lively names outranks s)
    (heard : Heard names outranks s p k (.begins true) rest b said response)
    (timely : Timely s p k (.begins true) rest response) (claims : s.Claims p) :
    .begins true ∈ rest ∨ said = [.consent p true] ∧ b.stage = .follows p true ∨
      (∃ w, s.Favours k w ∧ b = s.node k ∧ (w = p ∨ outranks w p = true)) ∨ Held names s := by
  cases hearing : heard.hearing with
  | followClaim => exact .inr (.inl ⟨rfl, rfl⟩)
  | @refuse _ acquire owner recorded other =>
    by_cases again : .begins true ∈ rest
    · exact .inl again
    · exact .inr (.inr (.inr ⟨owner, lively.mem_of_records heard.target recorded,
        timely.refuses rfl rfl claims again⟩))
  | alreadyOwner recorded =>
    have known : p ∈ (s.node k).knows := recorded.resolve_left fun own => heard.ne own.2
    exact absurd known (lively.tie_heard heard).unknown_of_claim
  | @defer _ node unowned party prevails =>
    refine .inr (.inr (.inl ⟨node, ⟨?_, party⟩, rfl, prevails⟩))
    have coherent := lively.coherent heard.target
    cases stage : (s.node k).stage with
    | idle => rw [stage] at party; cases party
    | own n acquire awaits =>
      cases acquire with
      | true => rfl
      | false => exact absurd (coherent.leave stage) unowned.1
    | follows q acquire =>
      cases acquire with
      | true => rfl
      | false => exact absurd (coherent.follow stage) (unowned.2 q)

theorem kept_of_claims (sound : Sound names s)
    (heard : Heard names outranks s p k signal rest b said response) {z : NodeName}
    (hz : z ∈ names) (claims : ((s.pop p k rest).act names k b said).Claims z) :
    .publish .removed ∉ said := by
  obtain ⟨node, awaits, own⟩ := claims
  exact fun removed => sound.no_claim_of_removed heard removed hz (by rw [own]; rfl)

theorem own_hear (heard : Heard names outranks s p k signal rest b said response)
    {z node : NodeName} {acquire : Bool} {awaits : Set NodeName}
    (own : (((s.pop p k rest).act names k b said).node z).stage = .own node acquire awaits) :
    ∃ awaits', (s.node z).stage = .own node acquire awaits' ∧ awaits ⊆ awaits' ∧
      (z = k → signal = .consents acquire → p ∉ awaits) := by
  by_cases eq : z = k
  · subst eq
    rw [node_act_self] at own
    obtain ⟨awaits', old, sub, struck⟩ := heard.hearing.own own
    exact ⟨awaits', old, sub, fun _ => struck⟩
  · rw [node_act_of_ne eq] at own
    exact ⟨awaits, own, subset_rfl, fun same => absurd same eq⟩

/-- A node that favours one who comes before `z` goes on to do so, or somebody holds the lock. -/
theorem Lively.ahead_hear (orders : outranks.Orders names) (lively : Lively names outranks s)
    (heard : Heard names outranks s p k signal rest b said response) {y z w : NodeName}
    (hz : z ∈ names) (favours : s.Favours y w) (first : w = z ∨ outranks w z = true)
    (hw : w ∈ names) :
    (∃ w', ((s.pop p k rest).act names k b said).Favours y w' ∧
      (w' = w ∨ outranks w' z = true)) ∨
      Held names ((s.pop p k rest).act names k b said) := by
  by_cases eq : y = k
  · subst eq
    obtain same | ⟨favours', ahead⟩ | held := lively.favours_hear orders heard favours
    · exact .inl ⟨w, same, .inl rfl⟩
    · refine .inl ⟨p, favours', .inr ?_⟩
      obtain rfl | first := first
      · exact ahead
      · exact orders.trans heard.source hw hz ahead first
    · exact .inr held
  · refine .inl ⟨w, ?_, .inl rfl⟩
    unfold Favours
    rwa [node_act_of_ne eq]

theorem Lively.awaited_hear (orders : outranks.Orders names) (lively : Lively names outranks s)
    (heard : Heard names outranks s p k signal rest b said response)
    (timely : Timely s p k signal rest response) {z y node : NodeName} {awaits : Set NodeName}
    (hz : z ∈ names)
    (own : (((s.pop p k rest).act names k b said).node z).stage = .own node true awaits)
    (awaited : y ∈ awaits) :
    .begins true ∈ ((s.pop p k rest).act names k b said).link z y ∨
      .consents true ∈ ((s.pop p k rest).act names k b said).link y z ∨
      (∃ w, ((s.pop p k rest).act names k b said).Favours y w ∧ outranks w z = true) ∨
      Held names ((s.pop p k rest).act names k b said) := by
  have kept := kept_of_claims lively.toSound heard hz ⟨node, awaits, own⟩
  obtain ⟨awaits', old, sub, struck⟩ := own_hear heard own
  obtain ⟨hy, ne⟩ := ((lively.placed hz).own old).2.2 (sub awaited)
  -- What the awaited consent hung on before: an announcement or a consent under way, a node that
  -- comes first, or a holder of the lock.
  rcases lively.awaited hz old (sub awaited) with
    announced | consent | ⟨w, favours, first⟩ | held
  · obtain still | ⟨rfl, rfl, rfl⟩ := mem_link_hear heard announced
    · exact .inl still
    · rcases lively.announced heard timely ⟨node, awaits', old⟩ with
        again | ⟨rfl, -⟩ | ⟨w, favours, rfl, rfl | first⟩ | held
      · left
        rwa [link_heard_self heard.ne]
      · refine .inr (.inl ?_)
        rw [link_heard_source heard.ne hz heard.ne]
        simp [Saying.signalTo?]
      · -- Whoever is followed has announced nothing else.
        obtain ⟨same, -⟩ | stage := lively.favours_cases hy favours
        · exact absurd same.symm ne
        · refine absurd ?_ (lively.latest hy stage)
          rw [heard.head]
          exact List.mem_cons_self
      · refine .inr (.inr (.inl ⟨w, ?_, first⟩))
        unfold Favours
        rw [node_act_self]
        exact favours
      · exact .inr (.inr (.inr (held.hear heard kept)))
  · obtain still | ⟨rfl, rfl, rfl⟩ := mem_link_hear heard consent
    · exact .inr (.inl still)
    · exact absurd awaited (struck rfl rfl)
  · refine .inr (.inr ((lively.ahead_hear orders heard hz favours (.inr first)
      (lively.mem_of_favours hy favours)).imp ?_ id))
    rintro ⟨w', favours', rfl | ahead⟩
    · exact ⟨w', favours', first⟩
    · exact ⟨w', favours', ahead⟩
  · exact .inr (.inr (.inr (held.hear heard kept)))

/-- A node that gives the lock up goes on to after it heard something, or has given it up. -/
theorem Sound.leaver_hear (sound : Sound names s)
    (heard : Heard names outranks s p k signal rest b said response) {node : NodeName}
    {awaits : Set NodeName} (own : (s.node k).stage = .own node false awaits) :
    (∃ awaits', b.stage = .own node false awaits' ∧
      ∀ y ∈ awaits, y ≠ p ∨ signal ≠ .consents false → y ∈ awaits') ∨
    signal = .consents false ∧ said = [.publish .removed] ∧ awaits \ {p} = ∅ := by
  have holds := (sound.coherent heard.target).leave own
  have party : (s.node k).stage.party = some node := by rw [own]; rfl
  obtain ⟨rfl, -, -⟩ := (sound.placed heard.target).own own
  cases hearing : heard.hearing with
  | followClaim unowned => exact absurd holds unowned.1
  | followLeave recorded idle => rw [idle] at own; cases own
  | added free => exact absurd holds free
  | hijacked => exact absurd holds (sound.free_of_added heard)
  | kept party' | removed party' =>
    exact absurd (Option.some.inj (party.symm.trans party')) heard.ne.symm
  | strike own' =>
    rw [own] at own'
    cases own'
    refine .inl ⟨_, rfl, fun y awaited left => ⟨awaited, fun eq => ?_⟩⟩
    obtain ne | other := left
    · exact ne eq
    · exact other rfl
  | win own' =>
    rw [own] at own'
    cases own'
  | part own' last =>
    rw [own] at own'
    cases own'
    exact .inr ⟨rfl, rfl, last⟩
  | _ => exact .inl ⟨awaits, own, fun y awaited _ => awaited⟩

theorem Sound.leaves_hear (sound : Sound names s)
    (heard : Heard names outranks s p k signal rest b said response) {y : NodeName}
    (other : y ≠ p ∨ signal ≠ .consents false) :
    ((s.pop p k rest).act names k b said).Leaves k y ↔ s.Leaves k y := by
  unfold Leaves
  rw [node_act_self]
  constructor
  · rintro ⟨node, awaits, own, awaited⟩
    obtain ⟨awaits', old, sub, -⟩ := heard.hearing.own own
    exact ⟨node, awaits', old, sub awaited⟩
  · rintro ⟨node, awaits, own, awaited⟩
    obtain ⟨awaits', own', still⟩ | ⟨eq, -, last⟩ := sound.leaver_hear heard own
    · exact ⟨node, awaits', own', still y awaited other⟩
    · have left : y ∈ awaits \ {p} := ⟨awaited, other.resolve_right (absurd eq)⟩
      rw [last] at left
      exact left.elim

/-- A release that is announced is consented to. -/
theorem Lively.consents_of_leave (lively : Lively names outranks s)
    (heard : Heard names outranks s p k (.begins false) rest b said response)
    (timely : Timely s p k (.begins false) rest response) : said = [.consent p false] := by
  have known : p ∈ (s.node k).knows := (lively.tie_heard heard).known_of_leave
  obtain ⟨leaves, one⟩ := (lively.counted heard.source heard.target heard.ne).resolve_right
    fun none => by simp [due, heard.head] at none
  obtain ⟨node, awaits, own, -⟩ := leaves
  have holds := (lively.coherent heard.source).leave own
  -- One signal of the release is under way, and that is the announcement itself.
  have last : .begins false ∉ rest := by
    intro again
    have := List.count_pos_iff.2 again
    simp only [due, heard.head, List.count_cons_self] at one
    omega
  cases hearing : heard.hearing with
  | followLeave => rfl
  | @refuse _ acquire owner recorded other =>
    have member := lively.mem_of_records heard.target recorded
    have really := timely.refuses rfl rfl ⟨node, awaits, own⟩ last
    exact absurd (lively.alone member heard.source really holds) other
  | notOwner unowned => exact absurd known (unowned.2 p)
  | busy recorded busy =>
    have coherent := lively.coherent heard.target
    cases stage : (s.node k).stage with
    | idle => exact absurd stage busy
    | own n acquire aw =>
      cases acquire with
      | true => exact absurd known ((coherent.own_claim stage).2 p)
      | false =>
        have holds' := coherent.leave stage
        exact absurd (lively.alone heard.source heard.target holds holds') heard.ne
    | follows q acquire =>
      cases acquire with
      | true => exact absurd known ((coherent.follows_claim stage).2 p)
      -- A release is followed already, which must be this one, but it is only now announced.
      | false =>
        obtain rfl := lively.released heard.target stage heard.source holds known
        refine absurd ?_ (lively.ended heard.target stage).1
        rw [heard.head]
        exact List.mem_cons_self

/-- A node consents to a release in no other way. -/
theorem count_consents_hear (heard : Heard names outranks s p k signal rest b said response)
    {q : NodeName} (other : q ≠ p ∨ signal ≠ .begins false) :
    (said.filterMap (Saying.signalTo? q)).count (.consents false) = 0 := by
  refine List.count_eq_zero.2 ?_
  cases heard.hearing with
  | followLeave =>
    have ne : p ≠ q := fun eq => other.elim (fun ne => ne eq.symm) fun ne => ne rfl
    simp [Saying.signalTo?, ne]
  | followClaim => by_cases eq : p = q <;> simp [Saying.signalTo?, eq]
  | _ => simp [Saying.signalTo?]

theorem Lively.counted_hear (lively : Lively names outranks s)
    (heard : Heard names outranks s p k signal rest b said response)
    (timely : Timely s p k signal rest response) {h y : NodeName} (hh : h ∈ names)
    (hy : y ∈ names) (ne : h ≠ y) :
    ((s.pop p k rest).act names k b said).Leaves h y ∧
        ((s.pop p k rest).act names k b said).due h y = 1 ∨
      ¬ ((s.pop p k rest).act names k b said).Leaves h y ∧
        ((s.pop p k rest).act names k b said).due h y = 0 := by
  have counted := lively.counted hh hy ne
  have quiet : ∀ q, (said.filterMap (Saying.signalTo? q)).count (.begins false) = 0 := fun q =>
    List.count_eq_zero.2 (heard.hearing.no_begins false q)
  by_cases eqy : y = k
  · subst eqy
    have leaves : ((s.pop p y rest).act names y b said).Leaves h y ↔ s.Leaves h y := by
      unfold Leaves
      rw [node_act_of_ne ne]
      rfl
    have same : ((s.pop p y rest).act names y b said).due h y = s.due h y := by
      unfold due
      rw [link_heard_source heard.ne hh ne, List.count_append]
      by_cases eqh : h = p
      · subst eqh
        rw [link_heard_self ne, heard.head]
        by_cases leave : signal = .begins false
        · -- The announcement goes off the one link as the consent goes on the other.
          subst leave
          rw [lively.consents_of_leave heard timely]
          simp [Saying.signalTo?]
          omega
        · rw [count_consents_hear heard (.inr leave), List.count_cons_of_ne leave, Nat.add_zero]
      · rw [link_heard_of_ne ne fun eq => eqh eq.1, count_consents_hear heard (.inl eqh),
          Nat.add_zero]
    rwa [leaves, same]
  · by_cases eqh : h = k
    · subst eqh
      unfold due at counted ⊢
      rw [link_heard_source heard.ne hy ne.symm, List.count_append, quiet, Nat.add_zero]
      by_cases eqp : y = p
      · subst eqp
        rw [link_heard_self ne.symm]
        rw [heard.head] at counted
        by_cases leave : signal = .consents false
        · subst leave
          rw [List.count_cons_self] at counted
          obtain ⟨⟨node, awaits, own, awaited⟩, one⟩ := counted.resolve_right (by omega)
          refine .inr ⟨?_, by omega⟩
          rintro ⟨n, aw, own', awaited'⟩
          rw [node_act_self] at own'
          obtain ⟨-, -, -, struck⟩ := heard.hearing.own own'
          exact struck rfl awaited'
        · rw [lively.leaves_hear heard (.inr leave)]
          rwa [List.count_cons_of_ne leave] at counted
      · rw [link_heard_of_ne ne.symm fun eq => eqp eq.1, lively.leaves_hear heard (.inl eqp)]
        exact counted
    · unfold due Leaves at counted ⊢
      rw [node_act_of_ne eqh, link_heard_of_ne eqh fun eq => eqy eq.2,
        link_heard_of_ne eqy fun eq => eqh eq.2]
      exact counted

/-- No announcement gets on a link by hearing something. -/
theorem begins_of_hear (heard : Heard names outranks s p k signal rest b said response)
    {acquire : Bool} {x y : NodeName}
    (announced : .begins acquire ∈ ((s.pop p k rest).act names k b said).link x y) :
    .begins acquire ∈ s.link x y :=
  (mem_link_of_hear heard announced).resolve_right fun new =>
    heard.hearing.no_begins acquire y new.2

theorem Lively.latest_hear (lively : Lively names outranks s)
    (heard : Heard names outranks s p k signal rest b said response)
    (timely : Timely s p k signal rest response) {y q : NodeName} (hy : y ∈ names)
    (follows : (((s.pop p k rest).act names k b said).node y).stage = .follows q true) :
    .begins true ∉ ((s.pop p k rest).act names k b said).link q y := by
  obtain old | ⟨rfl, rfl, rfl, rfl⟩ := follows_hear heard follows
  · exact fun announced => lively.latest hy old (begins_of_hear heard announced)
  · rw [link_heard_self heard.ne]
    exact (timely.consents rfl rfl).2

theorem Lively.recent_hear (lively : Lively names outranks s)
    (heard : Heard names outranks s p k signal rest b said response)
    (timely : Timely s p k signal rest response) {y q : NodeName} (hy : y ∈ names)
    (follows : (((s.pop p k rest).act names k b said).node y).stage = .follows q true) :
    q ∈ (s.chronicle.notes k said).fresh := by
  have kept : .publish .removed ∉ said := fun removed =>
    lively.no_claim_of_removed heard removed hy (by rw [follows]; rfl)
  rw [heard.hearing.mem_fresh_iff kept]
  obtain old | ⟨rfl, rfl, rfl, rfl⟩ := follows_hear heard follows
  · exact lively.recent hy old
  · exact (timely.consents rfl rfl).1

theorem Lively.ended_hear (lively : Lively names outranks s)
    (heard : Heard names outranks s p k signal rest b said response) {y q : NodeName}
    (hy : y ∈ names)
    (follows : (((s.pop p k rest).act names k b said).node y).stage = .follows q false) :
    .begins false ∉ ((s.pop p k rest).act names k b said).link q y ∧
      ((∃ node awaits, (((s.pop p k rest).act names k b said).node q).stage =
        .own node false awaits) ∨
      .removed ∈ ((s.pop p k rest).act names k b said).link q y) := by
  by_cases eqy : y = k
  · subst eqy
    rw [node_act_self] at follows
    obtain ⟨old, -, other⟩ | ⟨rfl, rfl, -⟩ := heard.hearing.follows_leave follows
    · obtain ⟨none, state⟩ := lively.ended hy old
      have ne := ((lively.placed hy).party old).2
      refine ⟨fun announced => none (begins_of_hear heard announced), ?_⟩
      rw [node_act_of_ne ne]
      refine state.imp id fun removed => ?_
      refine (mem_link_hear heard removed).resolve_right ?_
      rintro ⟨rfl, -, eq⟩
      exact other eq.symm rfl
    · -- The release followed from now on is announced once only, so it is still going on.
      obtain ⟨leaves, one⟩ := (lively.counted heard.source heard.target heard.ne).resolve_right
        fun none => by simp [due, heard.head] at none
      obtain ⟨node, awaits, own, -⟩ := leaves
      refine ⟨fun again => ?_, .inl ⟨node, awaits, ?_⟩⟩
      · rw [link_heard_self heard.ne] at again
        have := List.count_pos_iff.2 again
        simp only [due, heard.head, List.count_cons_self] at one
        omega
      · rwa [node_act_of_ne heard.ne]
  · rw [node_act_of_ne eqy] at follows
    obtain ⟨none, state⟩ := lively.ended hy follows
    refine ⟨fun announced => none (begins_of_hear heard announced), ?_⟩
    obtain ⟨node, awaits, own⟩ | removed := state
    · by_cases eqq : q = k
      · subst eqq
        rw [node_act_self]
        obtain ⟨awaits', own', -⟩ | ⟨-, rfl, -⟩ := lively.leaver_hear heard own
        · exact .inl ⟨node, awaits', own'⟩
        · right
          rw [link_heard_source heard.ne hy eqy]
          simp [Saying.signalTo?]
      · rw [node_act_of_ne eqq]
        exact .inl ⟨node, awaits, own⟩
    · exact .inr ((mem_link_hear heard removed).resolve_right fun at_ => eqy at_.2.1)

theorem Lively.released_hear (lively : Lively names outranks s)
    (heard : Heard names outranks s p k signal rest b said response)
    (sound : Sound names ((s.pop p k rest).act names k b said)) {y q h : NodeName}
    (hy : y ∈ names)
    (follows : (((s.pop p k rest).act names k b said).node y).stage = .follows q false)
    (hh : h ∈ names) (holds : (((s.pop p k rest).act names k b said).node h).holds)
    (known : h ∈ (((s.pop p k rest).act names k b said).node y).knows) : h = q := by
  have ne := ((sound.placed hy).knows known).2
  by_cases eqy : y = k
  · subst eqy
    rw [node_act_self] at follows known
    rw [node_act_of_ne ne] at holds
    obtain ⟨old, sub, -⟩ | ⟨rfl, rfl, -⟩ := heard.hearing.follows_leave follows
    · exact lively.released hy old hh holds (sub known)
    · obtain ⟨⟨node, awaits, own, -⟩, -⟩ :=
        (lively.counted heard.source heard.target heard.ne).resolve_right
          fun none => by simp [due, heard.head] at none
      exact lively.alone hh heard.source holds ((lively.coherent heard.source).leave own)
  · have known' := known
    rw [node_act_of_ne eqy] at follows known'
    refine lively.released hy follows hh ?_ known'
    by_cases eqh : h = k
    · subst eqh
      by_contra free
      rw [node_act_self] at holds
      obtain ⟨rfl, -⟩ := heard.hearing.wins free holds
      -- Word that the node took the lock is still on its way.
      refine (sound.tied hh hy ne).unknown_of_added ?_ known
      rw [mem_events, link_heard_source heard.ne hy eqy]
      exact ⟨by simp [Saying.signalTo?], rfl⟩
    · rwa [node_act_of_ne eqh] at holds

theorem Lively.hear (orders : outranks.Orders names) (lively : Lively names outranks s)
    (heard : Heard names outranks s p k signal rest b said response)
    (timely : Timely s p k signal rest response) :
    Lively names outranks ((s.pop p k rest).act names k b said) where
  toPunctual := lively.toPunctual.hear orders heard timely
  recent := lively.recent_hear heard timely
  latest := lively.latest_hear heard timely
  sought := lively.sought_hear orders heard timely
  awaited hz own awaited := lively.awaited_hear orders heard timely hz own awaited
  counted := lively.counted_hear heard timely
  ended := lively.ended_hear heard
  released := lively.released_hear heard (lively.toPunctual.hear orders heard timely).toSound

/-- A timely step in which no node keeps a lock it was giving up leaves a lively scene lively. -/
theorem Step.lively (orders : outranks.Orders names) (keeps : ¬ free .keep) {s' : Scene}
    (step : Step names outranks free Timely s s') (lively : Lively names outranks s) :
    Lively names outranks s' :=
  step.preserves
    (fun _ _ _ _ _ lively may member deed =>
      lively.deed member deed fun eq => keeps (eq ▸ may))
    (fun _ _ _ _ _ _ _ _ lively heard timely => lively.hear orders heard timely) lively

/-! ### Nothing is on the links -/

/-- Nothing is on the links between the nodes. -/
def Quiet (names : NameSet) (s : Scene) : Prop :=
  ∀ x ∈ names, ∀ y ∈ names, x ≠ y → s.link x y = []

/-- When nothing is on the links, every node knows who holds the lock. -/
theorem Sound.knows_iff_of_quiet (sound : Sound names s) (quiet : Quiet names s) {x y : NodeName}
    (hx : x ∈ names) (hy : y ∈ names) (ne : x ≠ y) :
    x ∈ (s.node y).knows ↔ (s.node x).holds := by
  have tied := sound.tied hx hy ne
  unfold Tied at tied
  rw [quiet x hx y hy ne] at tied
  cases tied with
  | apart free unknown => exact iff_of_false unknown free
  | unheard holds unknown split => simp [events] at split
  | shared holds known => exact iff_of_true known holds
  | parting free known split => simp [events] at split

/-- Nobody acquires the lock while a node holds it, once nothing is on the links. -/
theorem Sound.not_held_of_unowned (sound : Sound names s) (quiet : Quiet names s)
    (member : k ∈ names) (unowned : (s.node k).Unowned) : ¬ Held names s := by
  rintro ⟨h, hh, holds⟩
  by_cases eq : h = k
  · subst eq
    exact unowned.1 holds
  · exact unowned.2 h ((sound.knows_iff_of_quiet quiet hh member eq).2 holds)

theorem Lively.no_claims_of_quiet (orders : outranks.Orders names)
    (lively : Lively names outranks s) (quiet : Quiet names s) :
    ∀ z ∈ names, ¬ s.Claims z := by
  by_contra some_
  push Not at some_
  obtain ⟨z, hz, ⟨node, awaits, own⟩, first⟩ := orders.exists_first some_
  have unheld := lively.not_held_of_unowned quiet hz ((lively.coherent hz).own_claim own)
  obtain ⟨y, awaited⟩ := ((lively.placed hz).own own).2.1
  obtain ⟨hy, ne⟩ := ((lively.placed hz).own own).2.2 awaited
  -- The first of those who acquire the lock waits for a node that favours one who comes before it.
  obtain announced | consent | ⟨w, favours, ahead⟩ | held := lively.awaited hz own awaited
  · rw [quiet z hz y hy ne.symm] at announced
    cases announced
  · rw [quiet y hy z hz ne] at consent
    cases consent
  · obtain ⟨rfl, claims⟩ | stage := lively.favours_cases hy favours
    · simp [first w hy claims] at ahead
    · have hw := ((lively.placed hy).party stage).1
      obtain held | ⟨z', hz', claims, before⟩ := lively.sought hy stage
      · exact unheld held
      · have ahead' : outranks z' z = true := by
          obtain rfl | before := before
          · exact ahead
          · exact orders.trans hz' hw hz before ahead
        simp [first z' hz' claims] at ahead'
  · exact unheld held

/-- Nobody waits in a lively scene in which nothing is on the links. -/
theorem Lively.idle_of_quiet (orders : outranks.Orders names) (lively : Lively names outranks s)
    (quiet : Quiet names s) (member : k ∈ names) : (s.node k).stage = .idle := by
  have claims := lively.no_claims_of_quiet orders quiet
  -- A release under way has one signal on the links for everybody whose consent it awaits.
  have leaves : ∀ h ∈ names, ∀ node awaits, (s.node h).stage ≠ .own node false awaits := by
    intro h hh node awaits own
    obtain ⟨y, awaited⟩ := ((lively.placed hh).own own).2.1
    obtain ⟨hy, ne⟩ := ((lively.placed hh).own own).2.2 awaited
    obtain ⟨-, one⟩ | ⟨none, -⟩ := lively.counted hh hy ne.symm
    · simp [due, quiet h hh y hy ne.symm, quiet y hy h hh ne] at one
    · exact none ⟨node, awaits, own, awaited⟩
  cases stage : (s.node k).stage with
  | idle => rfl
  | own node acquire awaits =>
    cases acquire with
    | true => exact absurd ⟨node, awaits, stage⟩ (claims k member)
    | false => exact absurd stage (leaves k member node awaits)
  | follows q acquire =>
    obtain ⟨hq, ne⟩ := (lively.placed member).party stage
    cases acquire with
    | true =>
      obtain held | ⟨z, hz, claim, -⟩ := lively.sought member stage
      · have unowned := (lively.coherent member).follows_claim stage
        exact absurd held (lively.not_held_of_unowned quiet member unowned)
      · exact absurd claim (claims z hz)
    | false =>
      obtain ⟨node, awaits, own⟩ | removed := (lively.ended member stage).2
      · exact absurd own (leaves q hq node awaits)
      · rw [quiet q hq k member ne] at removed
        cases removed

end Scene

end Lock

end Cohort

import Cohort.Proofs.Lock.Exclusion
import Mathlib.Data.String.Basic

/-!
# Answers that are given in time

An announcement may arrive so late that the answer to it does harm. A node that consents to
somebody's acquiring a lock after the lock changed hands, or while a newer announcement is already
on its way, gives a consent that may be taken for one to another attempt, or follows an attempt
that is over. A node that keeps silent because it has an owner on record, who gave the lock up
meanwhile, leaves the attempt without an answer. A scene in which neither happens stays sound, and
what a node announced is never forgotten.

## Main definitions

* `Precedence.Orders`: a strict total order of the nodes.
* `Lock.Scene.Timely`: the deliveries that are answered in time.
* `Lock.Scene.Punctual`: the invariant of a scene in which all of them are.

* `LockCluster.areTimely`: a check that a given run makes timely deliveries only.

## Main statements

* `Lock.Scene.Step.punctual`: a timely step leaves a punctual scene punctual.
* `LockCluster.admitted_of_areTimely`: the check is sound.
-/

namespace Cohort

/-- The precedence is a strict total order of the nodes. -/
structure Precedence.Orders (outranks : Precedence) (names : NameSet) : Prop where
  asymm : ∀ {x y}, x ∈ names → y ∈ names → outranks x y = true → outranks y x = false
  trans : ∀ {x y z}, x ∈ names → y ∈ names → z ∈ names → outranks x y = true →
    outranks y z = true → outranks x z = true
  total : ∀ {x y}, x ∈ names → y ∈ names → x ≠ y → outranks x y = true ∨ outranks y x = true

theorem Precedence.byName_orders (names : NameSet) : Precedence.byName.Orders names where
  asymm _ _ before := by
    simp only [byName, decide_eq_true_eq, decide_eq_false_iff_not] at *
    exact lt_asymm before
  trans _ _ _ first second := by
    simp only [byName, decide_eq_true_eq] at *
    exact lt_trans first second
  total _ _ ne := by
    simp only [byName, decide_eq_true_eq]
    exact lt_or_gt_of_ne ne

/-- Of the nodes with a property one comes first. -/
theorem Precedence.Orders.exists_first {outranks : Precedence} {names : NameSet}
    (orders : outranks.Orders names) {P : NodeName → Prop} (some_ : ∃ x ∈ names, P x) :
    ∃ x ∈ names, P x ∧ ∀ y ∈ names, P y → outranks y x = false := by
  have general : ∀ members : List NodeName, (∀ x ∈ members, x ∈ names) → (∃ x ∈ members, P x) →
      ∃ x ∈ members, P x ∧ ∀ y ∈ members, P y → outranks y x = false := by
    intro members
    induction members with
    | nil => simp
    | cons a members ih =>
      intro among has
      have ha := among a List.mem_cons_self
      have irrefl : outranks a a = false := by
        by_contra self
        rw [Bool.not_eq_false] at self
        simp [orders.asymm ha ha self] at self
      by_cases rest : ∃ x ∈ members, P x
      · obtain ⟨x, member, holds, first⟩ :=
          ih (fun y hy => among y (List.mem_cons_of_mem _ hy)) rest
        have hx := among x (List.mem_cons_of_mem _ member)
        by_cases ahead : P a ∧ outranks a x = true
        · refine ⟨a, List.mem_cons_self, ahead.1, fun y hy py => ?_⟩
          obtain rfl | hy := List.mem_cons.1 hy
          · exact irrefl
          · by_contra before
            rw [Bool.not_eq_false] at before
            have := orders.trans (among y (List.mem_cons_of_mem _ hy)) ha hx before ahead.2
            simp [first y hy py] at this
        · refine ⟨x, List.mem_cons_of_mem _ member, holds, fun y hy py => ?_⟩
          obtain rfl | hy := List.mem_cons.1 hy
          · simpa using fun before => ahead ⟨py, before⟩
          · exact first y hy py
      · obtain ⟨x, hx, px⟩ := has
        obtain rfl | hx := List.mem_cons.1 hx
        · refine ⟨x, List.mem_cons_self, px, fun y hy py => ?_⟩
          obtain rfl | hy := List.mem_cons.1 hy
          · exact irrefl
          · exact absurd ⟨y, hy, py⟩ rest
        · exact absurd ⟨x, hx, px⟩ rest
  simpa using general names.toList (by simp) (by simpa using some_)

namespace Lock

namespace Scene

variable {names : NameSet} {outranks : Precedence} {free : Initiative → Prop}
  {s : Scene} {p k : NodeName} {signal : Signal} {rest : List Signal}
  {b : Standing} {said : List Saying} {response : Response} {initiative : Initiative}

/-- An announcement of acquiring that is consented to is the last one on its link, and the lock was
not given up since it was made. An announcement that is refused because the lock has an owner is
no longer of interest to its sender, or the owner really holds the lock. -/
structure Timely (s : Scene) (p k : NodeName) (signal : Signal) (rest : List Signal)
    (response : Response) : Prop where
  consents : response = .consents → signal = .begins true →
    p ∈ s.chronicle.fresh ∧ .begins true ∉ rest
  refuses : ∀ {acquire owner}, signal = .begins acquire → response = .refuses owner →
    (∃ node awaits, (s.node p).stage = .own node acquire awaits) → .begins acquire ∉ rest →
    (s.node owner).holds

/-- Only announcements may be answered too late. -/
theorem timely_of_not_begins (other : ∀ acquire, signal ≠ .begins acquire) :
    Timely s p k signal rest response :=
  ⟨fun _ eq => absurd eq (other true), fun eq => absurd eq (other _)⟩

/-- What has become of a node that began to acquire the lock: it still acquires it, it follows a
node that outranks it, it holds the lock, or it knows who does. -/
def Engaged (names : NameSet) (outranks : Precedence) (s : Scene) (y : NodeName) : Prop :=
  s.Claims y ∨ (∃ q, (s.node y).stage = .follows q true ∧ outranks q y = true) ∨
    (s.node y).holds ∨ ∃ h ∈ names, (s.node h).holds ∧ h ∈ (s.node y).knows

/-- The last announcement of acquiring on a link is followed by a consent. -/
def Yielded (link : List Signal) : Prop :=
  ∃ before after, link = before ++ .begins true :: after ∧ .begins true ∉ after ∧
    .consents true ∈ after

/-- The node `x` takes the lock, or may, by a consent of `y` that is on its way or was not given to
its latest attempt. -/
def Presumes (s : Scene) (x y : NodeName) : Prop :=
  .consents true ∈ s.link y x ∨ s.Takes x y ∧ (y, x) ∉ s.chronicle.agreed

/-- The invariant of a scene in which all answers are given in time. -/
structure Punctual (names : NameSet) (outranks : Precedence) (s : Scene) : Prop
    extends Sound names s where
  engaged : ∀ {y}, y ∈ names → y ∈ s.chronicle.fresh → s.Engaged names outranks y
  yielded : ∀ {x y}, x ∈ names → y ∈ names → x ≠ y → x ∈ s.chronicle.fresh →
    Yielded (s.link x y) → outranks y x = true ∧ y ∈ s.chronicle.fresh
  straight : ∀ {x y}, x ∈ names → y ∈ names → x ≠ y → s.Presumes x y → ¬ s.Presumes y x

theorem punctual_start : Punctual names outranks .start where
  toSound := sound_start
  engaged _ fresh := absurd fresh (Finset.notMem_empty _)
  yielded _ _ _ fresh := absurd fresh (Finset.notMem_empty _)
  straight _ _ _ presumes := by
    obtain consent | ⟨struck | holds, -⟩ := presumes
    · cases consent
    · obtain ⟨node, awaits, own, -⟩ := struck
      cases own
    · exact holds.elim

/-- Consents do not cross in a punctual scene. -/
theorem Punctual.not_crossed (straight : ∀ {x y}, x ∈ names → y ∈ names → x ≠ y →
    s.Presumes x y → ¬ s.Presumes y x) : ¬ Crossed names s := by
  rintro ⟨x, hx, y, hy, ne, holdsx, holdsy, agreed, agreed'⟩
  exact straight hx hy ne (.inr ⟨.inr holdsx, agreed'⟩) (.inr ⟨.inr holdsy, agreed⟩)

/-! ### The last announcement on a link -/

theorem Yielded.of_cons {signal : Signal} {link : List Signal} (yielded : Yielded link) :
    Yielded (signal :: link) := by
  obtain ⟨before, after, rfl, last, consent⟩ := yielded
  exact ⟨signal :: before, after, rfl, last, consent⟩

theorem yielded_of_consent {link : List Signal} (last : .begins true ∉ link)
    (consent : .consents true ∈ link) : Yielded (.begins true :: link) :=
  ⟨[], link, rfl, last, consent⟩

/-- Something put on a link makes its last announcement yielded only if it is a consent. -/
theorem Yielded.of_append_one {signal : Signal} {link : List Signal}
    (yielded : Yielded (link ++ [signal])) :
    signal ≠ .begins true ∧
      (Yielded link ∨ signal = .consents true ∧ .begins true ∈ link) := by
  obtain ⟨before, after, split, last, consent⟩ := yielded
  obtain rfl | ⟨after, e, rfl⟩ := List.eq_nil_or_concat after
  · cases consent
  · have split' : link ++ [signal] = (before ++ .begins true :: after) ++ [e] := by
      simpa using split
    obtain ⟨rfl, eq⟩ := List.append_inj' split' rfl
    obtain rfl : signal = e := by simpa using eq
    rw [List.concat_eq_append, List.mem_append, not_or] at last
    refine ⟨fun eq => last.2 (by simp [eq]), ?_⟩
    rw [List.concat_eq_append, List.mem_append] at consent
    obtain early | late := consent
    · exact .inl ⟨before, after, rfl, last.1, early⟩
    · exact .inr ⟨(List.mem_singleton.1 late).symm, by simp⟩

end Scene

/-! ### What is said of the lock, and what is fresh -/

section

variable {self peer : NodeName} {others : Set NodeName} {outranks : Precedence}
  {initiative : Initiative} {signal : Signal} {b b' : Standing} {said : List Saying}
  {response : Response}

/-- Who no longer holds the lock says so. -/
theorem Hearing.holds_or_removed (hearing : Hearing self outranks peer signal b b' said response)
    (holds : b.holds) : b'.holds ∨ .publish .removed ∈ said := by
  cases hearing with
  | added free => exact absurd holds free
  | hijacked | part => exact .inr List.mem_cons_self
  | win => exact .inl trivial
  | _ => exact .inl holds

/-- Hearing something makes nothing fresh, and nothing is once a node gave the lock up. -/
theorem Hearing.of_mem_fresh (hearing : Hearing self outranks peer signal b b' said response)
    {h : Chronicle} {y : NodeName} (fresh : y ∈ (h.notes self said).fresh) :
    .publish .removed ∉ said ∧ y ∈ h.fresh := by
  cases hearing <;> simp_all [Chronicle.note]

theorem Hearing.mem_fresh_iff (hearing : Hearing self outranks peer signal b b' said response)
    (kept : .publish .removed ∉ said) (h : Chronicle) (y : NodeName) :
    y ∈ (h.notes self said).fresh ↔ y ∈ h.fresh := by
  cases hearing <;> simp_all [Chronicle.note]

/-- A consent to acquiring the lock is given by following the one who acquires it. -/
theorem Hearing.consented (hearing : Hearing self outranks peer signal b b' said response)
    {q : NodeName} (consent : .consents true ∈ said.filterMap (Saying.signalTo? q)) :
    q = peer ∧ signal = .begins true ∧ response = .consents := by
  cases hearing with
  | followClaim =>
    by_cases eq : peer = q
    · exact ⟨eq.symm, rfl, rfl⟩
    · simp [Saying.signalTo?, eq] at consent
  | followLeave => by_cases eq : peer = q <;> simp [Saying.signalTo?, eq] at consent
  | _ => simp [Saying.signalTo?] at consent

end

namespace Scene

variable {names : NameSet} {outranks : Precedence} {free : Initiative → Prop}
  {s : Scene} {p k : NodeName} {signal : Signal} {rest : List Signal}
  {b : Standing} {said : List Saying} {response : Response} {initiative : Initiative}

/-! ### Who began to acquire the lock is not forgotten -/

/-- What a node does not forget, it does not forget by what another node does. -/
theorem Engaged.of_ne {y : NodeName} (engaged : s.Engaged names outranks y) (ne : y ≠ k)
    (keeps : (s.node k).holds → b.holds) :
    (s.act names k b said).Engaged names outranks y := by
  unfold Engaged Claims at engaged ⊢
  rw [node_act_of_ne ne]
  refine engaged.imp id (Or.imp id (Or.imp id ?_))
  rintro ⟨h, member, holds, known⟩
  refine ⟨h, member, ?_, known⟩
  by_cases eq : h = k
  · subst eq
    rw [node_act_self]
    exact keeps holds
  · rwa [node_act_of_ne eq]

theorem Engaged.deed {y : NodeName} (orderly : Orderly names s) (member : y ∈ names)
    (deed : Deed k (company names k) initiative (s.node k) b said)
    (fresh : y ∈ (s.chronicle.notes k said).fresh)
    (engaged : y ∈ s.chronicle.fresh → s.Engaged names outranks y) :
    (s.act names k b said).Engaged names outranks y := by
  by_cases eq : y = k
  · subst eq
    unfold Engaged Claims
    rw [node_act_self]
    cases deed with
    | claim => exact .inl ⟨_, _, rfl⟩
    | claimAlone => exact .inr (.inr (.inl trivial))
    | leave idle holds => exact .inr (.inr (.inl holds))
    | leaveAlone => exact absurd fresh (Finset.notMem_empty _)
    | keep leaving => exact .inr (.inr (.inl ((orderly.coherent member).leave leaving)))
  · have old : y ∈ s.chronicle.fresh := by
      cases deed with
      | claim => exact (Finset.mem_insert.1 fresh).resolve_left eq
      | leaveAlone => exact absurd fresh (Finset.notMem_empty _)
      | claimAlone | leave | keep => exact fresh
    refine (engaged old).of_ne eq fun holds => ?_
    exact (deed.holds_iff ⟨y, member, eq⟩).2 holds

/-- A node that yields to another is outranked by it. -/
theorem outranks_of_yields (orders : outranks.Orders names) {x y : NodeName} (hx : x ∈ names)
    (hy : y ∈ names) (yields : x ≠ y ∧ outranks x y = false) : outranks y x = true :=
  (orders.total hx hy yields.1).resolve_left (by simp [yields.2])

/-- An engaged node follows only who outranks it. -/
theorem Engaged.outranked (orders : outranks.Orders names) (sound : Sound names s)
    (heard : Heard names outranks s p k (.begins true) rest b said .consents)
    (engaged : s.Engaged names outranks k) : outranks p k = true := by
  cases heard.hearing with
  | followClaim unowned yields =>
    -- A node that consents holds nothing and knows of no owner; if it claims the lock itself or
    -- follows another, the one it consents to comes first.
    obtain ⟨node, awaits, own⟩ | ⟨q, follows, ahead⟩ | holds | ⟨h, -, -, known⟩ := engaged
    · obtain ⟨rfl, -, -⟩ := (sound.placed heard.target).own own
      exact outranks_of_yields orders heard.target heard.source (yields node (by rw [own]; rfl))
    · have member := ((sound.placed heard.target).party follows).1
      have behind := outranks_of_yields orders member heard.source
        (yields q (by rw [follows]; rfl))
      exact orders.trans heard.source member heard.target behind ahead
    · exact absurd holds unowned.1
    · exact absurd known (unowned.2 h)

/-- Who acquires the lock goes on to after it heard something, unless it follows somebody who
outranks it, or takes the lock, or learns who has. -/
theorem Engaged.claimant_hear (orders : outranks.Orders names) (sound : Sound names s)
    (heard : Heard names outranks s p k signal rest b said response) (claims : s.Claims k) :
    ((s.pop p k rest).act names k b said).Engaged names outranks k := by
  obtain ⟨node, awaits, own⟩ := claims
  obtain ⟨rfl, -, -⟩ := (sound.placed heard.target).own own
  have coherent := sound.coherent heard.target
  have party : (s.node node).stage.party = some node := by rw [own]; rfl
  unfold Engaged Claims
  rw [node_act_self]
  cases hearing : heard.hearing with
  | followClaim unowned yields =>
    refine .inr (.inl ⟨p, rfl, ?_⟩)
    exact Engaged.outranked orders sound heard (.inl ⟨node, awaits, own⟩)
  | followLeave recorded idle => rw [idle] at own; cases own
  | added =>
    have holds := (sound.tie_heard heard).holds_of_added List.mem_cons_self
    refine .inr (.inr (.inr ⟨p, heard.source, ?_, .inl rfl⟩))
    rwa [node_act_of_ne heard.ne]
  | hijacked holds => exact absurd holds (coherent.own_claim own).1
  | kept party' | removed party' =>
    exact absurd (Option.some.inj (party.symm.trans party')) heard.ne.symm
  | strike own' =>
    rw [own] at own'
    cases own'
    exact .inl ⟨_, _, rfl⟩
  | win => exact .inr (.inr (.inl trivial))
  | part own' =>
    rw [own] at own'
    cases own'
  | _ => exact .inl ⟨_, _, own⟩

/-- What a node does not forget, it does not forget by what it hears, unless the lock is given
up. -/
theorem Engaged.hear_self (orders : outranks.Orders names) (sound : Sound names s)
    (heard : Heard names outranks s p k signal rest b said response)
    (kept : .publish .removed ∉ said) (engaged : s.Engaged names outranks k) :
    ((s.pop p k rest).act names k b said).Engaged names outranks k := by
  obtain claims | ⟨q, follows, ahead⟩ | holds | ⟨h, member, holds, known⟩ := engaged
  · exact claimant_hear orders sound heard claims
  · -- A follower changes over only to who outranks the one it followed.
    obtain same | ⟨rfl, rfl, other⟩ | ⟨holds, known⟩ := sound.follower_hear heard follows
    · refine .inr (.inl ⟨q, ?_, ahead⟩)
      rw [node_act_self, same]
    · have ahead' := outranked orders sound heard (.inr (.inl ⟨q, follows, ahead⟩))
      refine .inr (.inl ⟨p, ?_, ahead'⟩)
      rw [node_act_self, other]
    · refine .inr (.inr (.inr ⟨p, heard.source, ?_, ?_⟩))
      · rwa [node_act_of_ne heard.ne]
      · rwa [node_act_self]
  · refine .inr (.inr (.inl ?_))
    rw [node_act_self]
    exact (heard.hearing.holds_or_removed holds).resolve_right kept
  · exact .inr (.inr (.inr ⟨h, member, sound.known_hear heard holds known⟩))

theorem Engaged.hear (orders : outranks.Orders names) (sound : Sound names s)
    (heard : Heard names outranks s p k signal rest b said response) {y : NodeName}
    (kept : .publish .removed ∉ said) (engaged : s.Engaged names outranks y) :
    ((s.pop p k rest).act names k b said).Engaged names outranks y := by
  by_cases eq : y = k
  · subst eq
    exact hear_self orders sound heard kept engaged
  · refine Engaged.of_ne engaged eq fun holds => ?_
    exact (heard.hearing.holds_or_removed holds).resolve_right kept

/-! ### Who yields to whom -/

/-- A deed makes no announcement yielded. -/
theorem Yielded.of_deed (deed : Deed k (company names k) initiative (s.node k) b said)
    {q : NodeName} {link : List Signal}
    (yielded : Yielded (link ++ said.filterMap (Saying.signalTo? q))) : Yielded link := by
  cases deed with
  | claim => exact absurd rfl yielded.of_append_one.1
  | claimAlone | leave | leaveAlone | keep =>
    exact yielded.of_append_one.2.resolve_right fun consent => nomatch consent.1

theorem Punctual.yielded_deed (punctual : Punctual names outranks s)
    (deed : Deed k (company names k) initiative (s.node k) b said) {x y : NodeName}
    (hx : x ∈ names) (hy : y ∈ names) (ne : x ≠ y) (fresh : x ∈ (s.chronicle.notes k said).fresh)
    (yielded : Yielded ((s.act names k b said).link x y)) :
    outranks y x = true ∧ y ∈ (s.chronicle.notes k said).fresh := by
  have old : Yielded (s.link x y) := by
    by_cases eq : x = k
    · subst eq
      rw [link_act_source hy ne.symm] at yielded
      exact yielded.of_deed deed
    · rwa [link_act_of_ne eq] at yielded
  cases deed with
  | claim idle unowned =>
    obtain rfl | fresh := Finset.mem_insert.1 fresh
    · -- What the node announced just now nobody has yielded to.
      rw [link_act_source hy ne.symm] at yielded
      exact absurd rfl yielded.of_append_one.1
    · obtain ⟨ahead, freshy⟩ := punctual.yielded hx hy ne fresh old
      exact ⟨ahead, Finset.mem_insert_of_mem freshy⟩
  | leaveAlone => exact absurd fresh (Finset.notMem_empty _)
  | claimAlone | leave | keep => exact punctual.yielded hx hy ne fresh old

/-- What a node says on hearing something makes its announcement yielded only if it consents. -/
theorem Yielded.of_hearing {b' : Standing}
    (hearing : Hearing k outranks p signal b' b said response)
    {q : NodeName} {link : List Signal}
    (yielded : Yielded (link ++ said.filterMap (Saying.signalTo? q))) :
    Yielded link ∨
      (q = p ∧ signal = .begins true ∧ response = .consents) ∧ .begins true ∈ link := by
  cases hearing with
  | followClaim =>
    by_cases eq : p = q
    · simp only [List.filterMap_cons, Saying.signalTo?, eq, if_true, List.filterMap_nil] at yielded
      exact yielded.of_append_one.2.imp id fun consent => ⟨⟨eq.symm, rfl, rfl⟩, consent.2⟩
    · simp only [List.filterMap_cons, Saying.signalTo?, eq, if_false, List.filterMap_nil,
        List.append_nil] at yielded
      exact .inl yielded
  | followLeave =>
    by_cases eq : p = q
    · simp only [List.filterMap_cons, Saying.signalTo?, eq, if_true, List.filterMap_nil] at yielded
      exact .inl (yielded.of_append_one.2.resolve_right fun consent => absurd consent.1 (by simp))
    · simp only [List.filterMap_cons, Saying.signalTo?, eq, if_false, List.filterMap_nil,
        List.append_nil] at yielded
      exact .inl yielded
  | hijacked | win | part =>
    exact .inl (yielded.of_append_one.2.resolve_right fun consent => absurd consent.1 (by simp))
  | _ => exact .inl (by simpa using yielded)

theorem Punctual.yielded_hear (orders : outranks.Orders names)
    (punctual : Punctual names outranks s)
    (heard : Heard names outranks s p k signal rest b said response)
    (timely : Timely s p k signal rest response) {x y : NodeName} (hx : x ∈ names) (hy : y ∈ names)
    (ne : x ≠ y) (fresh : x ∈ (s.chronicle.notes k said).fresh)
    (yielded : Yielded (((s.pop p k rest).act names k b said).link x y)) :
    outranks y x = true ∧ y ∈ (s.chronicle.notes k said).fresh := by
  obtain ⟨kept, freshx⟩ := heard.hearing.of_mem_fresh fresh
  rw [heard.hearing.mem_fresh_iff kept]
  by_cases eq : x = k
  · subst eq
    rw [link_heard_source heard.ne hy ne.symm] at yielded
    obtain old | ⟨⟨rfl, rfl, rfl⟩, announced⟩ := Yielded.of_hearing heard.hearing yielded
    · exact punctual.yielded hx hy ne freshx old
    · refine ⟨?_, (timely.consents rfl rfl).1⟩
      exact Engaged.outranked orders punctual.toSound heard (punctual.engaged hx freshx)
  · refine punctual.yielded hx hy ne freshx ?_
    by_cases popped : x = p ∧ y = k
    · obtain ⟨rfl, rfl⟩ := popped
      rw [link_heard_self heard.ne] at yielded
      rw [heard.head]
      exact yielded.of_cons
    · rwa [link_heard_of_ne eq popped] at yielded

/-! ### Consents do not cross -/

theorem consent_of_deed (deed : Deed k (company names k) initiative (s.node k) b said)
    {x y : NodeName} (hx : x ∈ names) (ne : x ≠ y)
    (consent : .consents true ∈ (s.act names k b said).link y x) :
    .consents true ∈ s.link y x := by
  by_cases eq : y = k
  · subst eq
    rw [link_act_source hx ne] at consent
    refine (List.mem_append.1 consent).resolve_right fun new => ?_
    have none := deed.consents_eq x
    rw [← mem_consents, none] at new
    cases new
  · rwa [link_act_of_ne eq] at consent

theorem Presumes.of_deed (deed : Deed k (company names k) initiative (s.node k) b said)
    {x y : NodeName} (hx : x ∈ names) (hy : y ∈ names) (ne : x ≠ y)
    (presumes : (s.act names k b said).Presumes x y) : s.Presumes x y := by
  obtain consent | ⟨takes, agreed⟩ := presumes
  · exact .inl (consent_of_deed deed hx ne consent)
  · obtain ⟨old, same⟩ := takes.of_deed deed hx hy ne
    exact .inr ⟨old, fun agreed' => agreed (same agreed')⟩

/-- What is on a link after something was heard was there before, or was said just now. -/
theorem mem_link_of_hear (heard : Heard names outranks s p k signal rest b said response)
    {x y : NodeName} {e : Signal} (there : e ∈ ((s.pop p k rest).act names k b said).link x y) :
    e ∈ s.link x y ∨ x = k ∧ e ∈ said.filterMap (Saying.signalTo? y) := by
  have old : e ∈ (s.pop p k rest).link x y → e ∈ s.link x y := by
    intro there
    by_cases popped : x = p ∧ y = k
    · obtain ⟨rfl, rfl⟩ := popped
      rw [link_pop_self] at there
      rw [heard.head]
      exact List.mem_cons_of_mem _ there
    · rwa [link_pop_of_ne popped] at there
  unfold act at there
  dsimp only at there
  split at there
  next source => exact (List.mem_append.1 there).imp old fun new => ⟨source.1, new⟩
  next => exact .inl (old there)

theorem consent_of_hear (heard : Heard names outranks s p k signal rest b said response)
    {x y : NodeName} (consent : .consents true ∈ ((s.pop p k rest).act names k b said).link y x) :
    .consents true ∈ s.link y x ∨
      y = k ∧ x = p ∧ signal = .begins true ∧ response = .consents :=
  (mem_link_of_hear heard consent).imp id fun ⟨eq, new⟩ => ⟨eq, heard.hearing.consented new⟩

theorem Presumes.of_hear (heard : Heard names outranks s p k signal rest b said response)
    {x y : NodeName} (presumes : ((s.pop p k rest).act names k b said).Presumes x y) :
    s.Presumes x y ∨ y = k ∧ x = p ∧ signal = .begins true ∧ response = .consents := by
  obtain consent | ⟨takes, agreed⟩ := presumes
  · exact (consent_of_hear heard consent).imp .inl id
  · obtain old | consent := takes.consent_of_hear heard
    · exact .inl (.inr ⟨old, fun agreed' => agreed (heard.hearing.agreed_superset _ agreed')⟩)
    · exact .inl (.inl consent)

/-- Who consents presumes nothing of the one it consents to. -/
theorem Punctual.not_presumes_of_consents (orders : outranks.Orders names)
    (punctual : Punctual names outranks s)
    (heard : Heard names outranks s p k (.begins true) rest b said .consents)
    (timely : Timely s p k (.begins true) rest .consents) :
    ¬ ((s.pop p k rest).act names k b said).Presumes k p := by
  obtain ⟨fresh, last⟩ := timely.consents rfl rfl
  rintro (consent | ⟨takes, -⟩)
  · rw [link_heard_self heard.ne] at consent
    -- The other's own consent is behind its announcement on the link, so each would outrank the
    -- other.
    have yielded : Yielded (s.link p k) := by
      rw [heard.head]
      exact yielded_of_consent last consent
    obtain ⟨ahead, freshk⟩ := punctual.yielded heard.source heard.target heard.ne fresh yielded
    have behind := Engaged.outranked orders punctual.toSound heard
      (punctual.engaged heard.target freshk)
    simp [orders.asymm heard.target heard.source ahead] at behind
  · unfold Takes Struck at takes
    rw [node_act_self] at takes
    cases heard.hearing with
    | followClaim unowned yields =>
      obtain ⟨node, awaits, own, -⟩ | holds := takes
      · cases own
      · exact unowned.1 holds

/-! ### The invariant -/

theorem Punctual.deed (punctual : Punctual names outranks s) (member : k ∈ names)
    (deed : Deed k (company names k) initiative (s.node k) b said) :
    Punctual names outranks (s.act names k b said) where
  toSound := punctual.toSound.deed member deed
  engaged hy fresh := Engaged.deed punctual.toOrderly hy deed fresh (punctual.engaged hy)
  yielded := punctual.yielded_deed deed
  straight hx hy ne presumes presumes' :=
    punctual.straight hx hy ne (presumes.of_deed deed hx hy ne)
      (presumes'.of_deed deed hy hx ne.symm)

theorem Punctual.hear (orders : outranks.Orders names) (punctual : Punctual names outranks s)
    (heard : Heard names outranks s p k signal rest b said response)
    (timely : Timely s p k signal rest response) :
    Punctual names outranks ((s.pop p k rest).act names k b said) := by
  have straight : ∀ {x y}, x ∈ names → y ∈ names → x ≠ y →
      ((s.pop p k rest).act names k b said).Presumes x y →
      ¬ ((s.pop p k rest).act names k b said).Presumes y x := by
    intro x y hx hy ne presumes presumes'
    -- If both presume on each other now, one of them does so by the consent given just now.
    obtain old | ⟨rfl, rfl, rfl, rfl⟩ := presumes.of_hear heard
    · obtain old' | ⟨rfl, rfl, rfl, rfl⟩ := presumes'.of_hear heard
      · exact punctual.straight hx hy ne old old'
      · exact punctual.not_presumes_of_consents orders heard timely presumes
    · exact punctual.not_presumes_of_consents orders heard timely presumes'
  refine ⟨(punctual.toSound.hear heard).resolve_right (not_crossed straight), ?_,
    punctual.yielded_hear orders heard timely, straight⟩
  intro y hy fresh
  obtain ⟨kept, old⟩ := heard.hearing.of_mem_fresh fresh
  exact Engaged.hear orders punctual.toSound heard kept (punctual.engaged hy old)

/-- A timely step leaves a punctual scene punctual. -/
theorem Step.punctual (orders : outranks.Orders names) {s' : Scene}
    (step : Step names outranks free Timely s s') (punctual : Punctual names outranks s) :
    Punctual names outranks s' :=
  step.preserves (fun _ _ _ _ _ punctual _ member deed => punctual.deed member deed)
    (fun _ _ _ _ _ _ _ _ punctual heard timely => punctual.hear orders heard timely) punctual

end Scene

end Lock

/-! ## Runs that can be seen to be timely -/

namespace LockCluster

open Lock (Chronicle Scene Signal Response)

variable {c : LockCluster} {lock : Lock} {h : Chronicle} {steps : List ClusterStep}
  {step : ClusterStep}

/-- What a step does to a cluster and to the chronicle of a lock. -/
def record (lock : Lock) (past : LockCluster × Chronicle) (step : ClusterStep) :
    LockCluster × Chronicle :=
  (past.1.step step, past.2.after past.1 lock step)

theorem foldl_record (c : LockCluster) (lock : Lock) (steps : List ClusterStep) :
    steps.foldl (record lock) (c, .blank) = (c.run steps, c.chronicle lock steps) := by
  induction steps using List.reverseRecOn with
  | nil => rfl
  | append_singleton steps step ih =>
    rw [List.foldl_append, ih, run_append_one, chronicle_append_one]
    rfl

/-- Whether an announcement is answered in time, as far as the nodes can tell, when `rest` follows
it on the link. A node that keeps silent because the lock has an owner is in time if that owner has
it. -/
def answersInTime (c : LockCluster) (lock : Lock) (h : Chronicle) (source : NodeName)
    (rest : List LockWire) (acquire : Bool) : Response → Bool
  | .consents => !acquire || source ∈ h.fresh &&
      .begins true ∉ rest.filterMap (LockWire.signal? lock)
  | .refuses owner => c.nodes[owner]?.any (lock ∈ ·.held)
  | .silent => true

/-- Whether a node that hears a signal answers it in time. -/
def hearsInTime (c : LockCluster) (lock : Lock) (h : Chronicle) (source : NodeName)
    (rest : List LockWire) (t : Arbitrator) : Signal → Bool
  | .begins acquire =>
    c.answersInTime lock h source rest acquire (t.response source lock (.begins acquire))
  | .added | .kept | .removed | .consents _ => true

/-- Whether a step makes no delivery that is answered too late. -/
def isTimely (c : LockCluster) (lock : Lock) (h : Chronicle) : ClusterStep → Bool
  | .deliver channel =>
    match c.wires channel.source channel.target, c.nodes[channel.target]? with
    | wire :: rest, some t =>
      (wire.signal? lock).all (c.hearsInTime lock h channel.source rest t)
    | _, _ => true
  | .act _ _ | .kill _ | .expire _ => true

/-- Whether none of several steps makes a delivery that is answered too late. -/
def areTimely (lock : Lock) : LockCluster × Chronicle → List ClusterStep → Bool
  | _, [] => true
  | past, step :: steps =>
    past.1.isTimely lock past.2 step && areTimely lock (record lock past step) steps

theorem admits_of_isTimely (timely : c.isTimely lock h step = true) :
    c.Admits Scene.Timely lock h step := by
  cases step with
  | deliver channel =>
    intro wire rest signal t on about here
    simp only [isTimely, on, here, about, Option.all_some] at timely
    cases signal with
    | begins acquire =>
      have timely : c.answersInTime lock h channel.source rest acquire
          (t.response channel.source lock (.begins acquire)) = true := timely
      refine ⟨fun consents eq => ?_, fun {announced owner} eq refuses _ _ => ?_⟩
      · obtain rfl : acquire = true := by simpa using eq
        rw [consents] at timely
        simpa [answersInTime, scene] using timely
      · rw [refuses] at timely
        obtain ⟨holder, there, holds⟩ := (Option.any_eq_true _ _).1 timely
        rw [node_scene there]
        exact of_decide_eq_true (p := lock ∈ holder.held) holds
    | _ => exact Scene.timely_of_not_begins (by simp)
  | act | kill | expire => exact trivial

theorem isTimely_of_areTimely {past : LockCluster × Chronicle} {early late : List ClusterStep}
    (timely : areTimely lock past (early ++ step :: late) = true) :
    let now := early.foldl (record lock) past
    now.1.isTimely lock now.2 step = true := by
  induction early generalizing past with
  | nil => exact ((Bool.and_eq_true _ _).mp timely).1
  | cons first early ih => exact ih ((Bool.and_eq_true _ _).mp timely).2

/-- A run that is seen to be timely makes timely deliveries only. -/
theorem admitted_of_areTimely (timely : areTimely lock (c, .blank) steps = true) :
    c.Admitted Scene.Timely lock steps := by
  rintro past step ⟨late, rfl⟩
  rw [List.append_assoc] at timely
  have now := isTimely_of_areTimely timely
  rw [foldl_record] at now
  exact admits_of_isTimely now

end LockCluster

end Cohort

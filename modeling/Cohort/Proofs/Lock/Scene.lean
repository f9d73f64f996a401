import Cohort.Proofs.Lock.Operations
import Mathlib.Data.Finset.Insert
import Mathlib.Data.Finset.Filter

/-!
# A cluster, seen from one lock

A `Scene` keeps what a cluster has to do with one lock: the standing of each node, the signals on
each link, and a `Chronicle` of what was said that no node remembers. A step of a cluster is a
short sequence of moves of its scene: a node may hear the signal at the head of a link, and then
do something on its own account.

## Main definitions

* `Lock.Chronicle`: who began to acquire the lock lately, and who consented to that.
* `Lock.Scene`, `Lock.Scene.act`, `Lock.Scene.pop`.
* `Lock.Scene.Step`: what one step of a cluster can do to its scene.
* `LockCluster.Meshed`: every node follows every other.

## Main statements

* `LockCluster.Meshed.step`: a call or a delivery is a step of the scene of every lock.
* `Lock.Scene.Step.preserves`: what every move preserves, every step preserves.
-/

namespace Cohort

namespace Lock

/-! ### What is remembered of the past -/

/-- What was said about a lock, as far as it bears on what may go wrong with it. -/
structure Chronicle where
  /-- The nodes that began to acquire the lock since a node last gave it up. -/
  fresh : Finset NodeName
  /-- The nodes that consented to another's acquiring the lock, after the other last began to. -/
  agreed : Finset (NodeName × NodeName)

namespace Chronicle

/-- Nothing was said yet. -/
def blank : Chronicle := ⟨∅, ∅⟩

/-- The chronicle after a node said something. -/
def note (node : NodeName) (h : Chronicle) : Saying → Chronicle
  | .publish (.begins true) =>
    { fresh := insert node h.fresh, agreed := h.agreed.filter fun pair => pair.2 ≠ node }
  | .publish .removed => { h with fresh := ∅ }
  | .consent peer true => { h with agreed := insert (node, peer) h.agreed }
  | .publish _ | .consent _ false | .lose => h

/-- The chronicle after a node said several things in order. -/
def notes (h : Chronicle) (node : NodeName) (said : List Saying) : Chronicle :=
  said.foldl (note node) h

@[simp] theorem notes_nil (h : Chronicle) (node : NodeName) : h.notes node [] = h := rfl

@[simp] theorem notes_cons (h : Chronicle) (node : NodeName) (saying : Saying)
    (said : List Saying) :
    h.notes node (saying :: said) = (h.note node saying).notes node said := rfl

theorem notes_append (h : Chronicle) (node : NodeName) (said said' : List Saying) :
    h.notes node (said ++ said') = (h.notes node said).notes node said' :=
  List.foldl_append

end Chronicle

/-! ### Scenes -/

/-- What a cluster has to do with one lock. -/
structure Scene where
  node : NodeName → Standing
  link : NodeName → NodeName → List Signal
  chronicle : Chronicle

/-- The nodes of a cluster other than the given one. -/
def company (names : NameSet) (k : NodeName) : Set NodeName := {node | node ∈ names ∧ node ≠ k}

namespace Scene

variable {names : NameSet} {outranks : Precedence} {free : Initiative → Prop}

/-- A node changes its standing and says something. -/
def act (names : NameSet) (s : Scene) (k : NodeName) (b : Standing) (said : List Saying) :
    Scene where
  node := Function.update s.node k b
  link p q :=
    if p = k ∧ q ∈ names ∧ q ≠ k then s.link p q ++ said.filterMap (Saying.signalTo? q)
    else s.link p q
  chronicle := s.chronicle.notes k said

/-- The signals that are left on a link replace what is on it. -/
def pop (s : Scene) (p k : NodeName) (rest : List Signal) : Scene :=
  { s with link := fun p' k' => if p' = p ∧ k' = k then rest else s.link p' k' }

section

variable {s : Scene} {k p q : NodeName} {b : Standing} {said : List Saying} {rest : List Signal}

@[simp] theorem node_act_self : (s.act names k b said).node k = b := by
  simp [act]

theorem node_act_of_ne (ne : q ≠ k) : (s.act names k b said).node q = s.node q := by
  simp [act, ne]

theorem link_act_source (member : q ∈ names) (ne : q ≠ k) :
    (s.act names k b said).link k q = s.link k q ++ said.filterMap (Saying.signalTo? q) := by
  simp [act, member, ne]

theorem link_act_of_ne (ne : p ≠ k) : (s.act names k b said).link p q = s.link p q := by
  simp [act, ne]

@[simp] theorem chronicle_act :
    (s.act names k b said).chronicle = s.chronicle.notes k said := rfl

@[simp] theorem node_pop : (s.pop p k rest).node = s.node := rfl

@[simp] theorem link_pop_self : (s.pop p k rest).link p k = rest := by
  simp [pop]

theorem link_pop_of_ne {p' k' : NodeName} (ne : ¬ (p' = p ∧ k' = k)) :
    (s.pop p k rest).link p' k' = s.link p' k' := by
  simp [pop, ne]

@[simp] theorem chronicle_pop : (s.pop p k rest).chronicle = s.chronicle := rfl

/-! What becomes of the links when `k` hears what `p` sent it, and says something. -/

theorem link_heard_source (hp : p ≠ k) (member : q ∈ names) (ne : q ≠ k) :
    ((s.pop p k rest).act names k b said).link k q =
      s.link k q ++ said.filterMap (Saying.signalTo? q) := by
  rw [link_act_source member ne, link_pop_of_ne fun eq => hp eq.1.symm]

theorem link_heard_self (hp : p ≠ k) : ((s.pop p k rest).act names k b said).link p k = rest := by
  rw [link_act_of_ne hp, link_pop_self]

theorem link_heard_of_ne {p' q' : NodeName} (source : p' ≠ k) (ne : ¬ (p' = p ∧ q' = k)) :
    ((s.pop p k rest).act names k b said).link p' q' = s.link p' q' := by
  rw [link_act_of_ne source, link_pop_of_ne ne]

theorem act_act {b' : Standing} {said' : List Saying} :
    (s.act names k b said).act names k b' said' = s.act names k b' (said ++ said') := by
  simp only [act, Function.update_idem, Chronicle.notes_append, mk.injEq, and_true, true_and]
  funext p q
  split <;> simp

theorem pop_self (h : s.link p k = rest) : s.pop p k rest = s := by
  have link : (s.pop p k rest).link = s.link := by
    funext p' k'
    by_cases eq : p' = p ∧ k' = k
    · rw [eq.1, eq.2, link_pop_self, h]
    · exact link_pop_of_ne eq
  unfold pop at link ⊢
  rw [show (fun p' k' => if p' = p ∧ k' = k then rest else s.link p' k') = s.link from link]

theorem act_self : s.act names k (s.node k) [] = s := by
  simp [act]

end

/-! ### Moves and steps -/

/-- A node hears the signal at the head of a link. -/
structure Heard (names : NameSet) (outranks : Precedence) (s : Scene) (p k : NodeName)
    (signal : Signal) (rest : List Signal) (b : Standing) (said : List Saying)
    (response : Response) : Prop where
  source : p ∈ names
  target : k ∈ names
  ne : p ≠ k
  head : s.link p k = signal :: rest
  hearing : Hearing k outranks p signal (s.node k) b said response

/-- The deliveries that may happen: from one node to another, of a signal that is taken in some
way, with signals left behind it on the link. -/
abbrev Admission :=
  Scene → NodeName → NodeName → Signal → List Signal → Response → Prop

/-- What one step of a cluster can do to its scene. -/
inductive Step (names : NameSet) (outranks : Precedence) (free : Initiative → Prop)
    (admits : Admission) : Scene → Scene → Prop
  | rest (s : Scene) : Step names outranks free admits s s
  | deeds {s : Scene} {k : NodeName} {b : Standing} {said : List Saying} (member : k ∈ names)
      (deeds : Deeds k (company names k) free (s.node k) b said) :
      Step names outranks free admits s (s.act names k b said)
  | hear {s : Scene} {p k : NodeName} {signal : Signal} {rest : List Signal} {b b' : Standing}
      {said said' : List Saying} {response : Response}
      (heard : Heard names outranks s p k signal rest b said response)
      (admitted : admits s p k signal rest response)
      (deeds : Deeds k (company names k) free b b' said') :
      Step names outranks free admits s ((s.pop p k rest).act names k b' (said ++ said'))

/-- What every deed of a node preserves, a sequence of its deeds preserves. -/
theorem deeds_preserve {P : Scene → Prop} {k : NodeName}
    (deed : ∀ s b said initiative, P s → free initiative →
      Deed k (company names k) initiative (s.node k) b said → P (s.act names k b said))
    {s : Scene} {b b' : Standing} {said : List Saying} (at_ : s.node k = b) (holds : P s)
    (deeds : Deeds k (company names k) free b b' said) : P (s.act names k b' said) := by
  induction deeds generalizing s with
  | none b =>
    subst at_
    rwa [act_self]
  | more may first _ ih =>
    subst at_
    rw [← act_act]
    exact ih node_act_self (deed _ _ _ _ holds may first)

/-- What every move preserves, every step preserves. -/
theorem Step.preserves {admits : Admission} {P : Scene → Prop}
    (deed : ∀ s k b said initiative, P s → free initiative → k ∈ names →
      Deed k (company names k) initiative (s.node k) b said → P (s.act names k b said))
    (hear : ∀ s p k signal rest b said response, P s →
      Heard names outranks s p k signal rest b said response →
      admits s p k signal rest response → P ((s.pop p k rest).act names k b said))
    {s s' : Scene} (step : Step names outranks free admits s s') (holds : P s) : P s' := by
  cases step with
  | rest => exact holds
  | deeds member deeds =>
    exact deeds_preserve (fun s b said i h may => deed s _ b said i h may member) rfl holds deeds
  | hear heard admitted deeds =>
    rw [← act_act]
    exact deeds_preserve (fun s b said i h may => deed s _ b said i h may heard.target)
      node_act_self (hear _ _ _ _ _ _ _ _ holds heard admitted) deeds

end Scene

end Lock

end Cohort

import Cohort.Proofs.Mapping.Mastery
import Mathlib.Data.String.Basic
import Mathlib.Logic.Function.Iterate

/-!
# Who owns a place on the ring

The ring is settled node by node, each taking those of the places it claims that are still free.
What comes of it can be said without that order: a place belongs to the lowest of the names that
claim it, and a key to the owner of the first place from its value on. Nothing is asked of the
values: chains may meet, and a chain may come back to where it was.

## Main definitions

* `Ring.Claims`: a node claims a place.
* `Ring.Owns`: a place belongs to a node.
* `Ring.FirstFrom`: the first place from a value on, going round at the end.
* `Ring.Masters`: a key belongs to a node.

## Main statements

* `Ring.getElem?_places_ofNodes`: a place belongs to the lowest name that claims it.
* `Ring.masterOf_ofNodes`: a key belongs to the owner of the first place from its value on.
* `Ring.mastership_moves_little`: keys change hands only to or from the node that comes or goes.
-/

namespace Cohort

namespace Ring

variable {share : Nat} {nodes : NameSet} {node other : NodeName} {place value : UInt64}
  {key : String}

/-! ## Places -/

/-- A node claims a place: one of the first `share` values of the chain that its name starts. -/
def Claims (share : Nat) (node : NodeName) (place : UInt64) : Prop :=
  ∃ i < share, place = Fnv.next^[i] (Fnv.ofText node)

/-- A place belongs to a node: the lowest name of those that claim it. -/
structure Owns (share : Nat) (nodes : NameSet) (place : UInt64) (node : NodeName) : Prop where
  inside : node ∈ nodes
  claims : Claims share node place
  lowest : ∀ other ∈ nodes, Claims share other place → node ≤ other

theorem mem_chain {start : UInt64} {count : Nat} :
    place ∈ Fnv.chain start count ↔ ∃ i < count, place = Fnv.next^[i + 1] start := by
  induction count generalizing start with
  | zero => exact iff_of_false List.not_mem_nil fun ⟨i, bound, _⟩ => Nat.not_lt_zero i bound
  | succ count ih =>
    rw [Fnv.chain, List.mem_cons, ih, Nat.exists_lt_succ_left, Function.iterate_succ_apply _ 0,
      Function.iterate_zero_apply]
    refine or_congr_right (exists_congr fun i => and_congr_right fun _ => ?_)
    rw [Function.iterate_succ_apply _ (i + 1)]

theorem mem_claims : place ∈ claims share node ↔ Claims share node place := by
  cases share with
  | zero => exact iff_of_false List.not_mem_nil fun ⟨i, bound, _⟩ => Nat.not_lt_zero i bound
  | succ share =>
    simp only [claims, List.mem_cons, mem_chain, Claims, Nat.exists_lt_succ_left,
      Function.iterate_zero_apply]

theorem getElem?_foldl_insertIfNew (claimed : List UInt64)
    (places : Std.ExtTreeMap UInt64 NodeName) :
    (claimed.foldl (fun places place => places.insertIfNew place node) places)[place]? =
      places[place]?.or (if place ∈ claimed then some node else none) := by
  induction claimed generalizing places with
  | nil => simp
  | cons first rest ih =>
    rw [List.foldl_cons, ih, Std.ExtTreeMap.getElem?_insertIfNew]
    simp only [Std.compare_eq_iff_eq, List.mem_cons]
    by_cases free : place ∈ places
    · obtain ⟨owner, owned⟩ := Option.isSome_iff_exists.1
        (Std.ExtTreeMap.mem_iff_isSome_getElem?.1 free)
      simp only [owned, Option.some_or]
      rw [if_neg]
      · rfl
      · rintro ⟨rfl, taken⟩
        exact taken free
    · rw [Std.ExtTreeMap.getElem?_eq_none free, Option.none_or]
      by_cases same : first = place
      · subst same
        simp [free]
      · simp [same, Ne.symm same]

/-- Nodes that settle one after the other leave a place to the first of them that claims it. -/
theorem getElem?_foldl_settle (settlers : List NodeName)
    (places : Std.ExtTreeMap UInt64 NodeName) :
    (settlers.foldl (settle share) places)[place]? =
      places[place]?.or (settlers.find? fun node => place ∈ claims share node) := by
  induction settlers generalizing places with
  | nil => simp
  | cons first rest ih =>
    rw [List.foldl_cons, ih, settle, getElem?_foldl_insertIfNew, Option.or_assoc, List.find?_cons]
    congr 1
    by_cases claimed : place ∈ claims share first <;> simp [claimed]

/-- The names of a set are in order, so the first one with a property is the lowest. -/
theorem find?_toList_eq_some_iff {p : NodeName → Bool} :
    nodes.toList.find? p = some node ↔
      node ∈ nodes ∧ p node = true ∧ ∀ other ∈ nodes, p other = true → node ≤ other := by
  have ordered : nodes.toList.Pairwise (· < ·) :=
    Std.ExtTreeSet.ordered_toList.imp fun before => compare_lt_iff_lt.1 before
  constructor
  · intro found
    obtain ⟨holds, before, after, split, none⟩ := List.find?_eq_some_iff_append.1 found
    refine ⟨Std.ExtTreeSet.mem_toList.1 (List.mem_of_find?_eq_some found), holds, ?_⟩
    intro other inside fits
    have among := Std.ExtTreeSet.mem_toList.2 inside
    rw [split] at among ordered
    obtain early | late := List.mem_append.1 among
    · exact absurd fits (by simpa using none other early)
    · obtain rfl | late := List.mem_cons.1 late
      · exact le_rfl
      · exact le_of_lt (List.rel_of_pairwise_cons (List.pairwise_append.1 ordered).2.1 late)
  · rintro ⟨inside, holds, lowest⟩
    cases found : nodes.toList.find? p with
    | none =>
      exact absurd holds (List.find?_eq_none.1 found node (Std.ExtTreeSet.mem_toList.2 inside))
    | some first =>
      obtain ⟨-, before, after, split, none⟩ := List.find?_eq_some_iff_append.1 found
      have fits : p first = true := List.find?_some found
      have first_le : node ≤ first := lowest first
        (Std.ExtTreeSet.mem_toList.1 (List.mem_of_find?_eq_some found)) fits
      -- the node comes no earlier in the list than the first that fits
      have among := Std.ExtTreeSet.mem_toList.2 inside
      rw [split] at among ordered
      obtain early | late := List.mem_append.1 among
      · exact absurd holds (by simpa using none node early)
      · obtain rfl | late := List.mem_cons.1 late
        · rfl
        · have later := List.rel_of_pairwise_cons (List.pairwise_append.1 ordered).2.1 late
          exact absurd (lt_of_lt_of_le later first_le) (lt_irrefl _)

/-- A place of the ring belongs to the lowest name that claims it. -/
theorem getElem?_places_ofNodes :
    (ofNodes share nodes).places[place]? = some node ↔ Owns share nodes place node := by
  rw [ofNodes, getElem?_foldl_settle, Std.ExtTreeMap.getElem?_empty, Option.none_or,
    find?_toList_eq_some_iff]
  simp only [decide_eq_true_eq, mem_claims]
  constructor
  · rintro ⟨inside, claims, lowest⟩
    exact ⟨inside, claims, lowest⟩
  · rintro ⟨inside, claims, lowest⟩
    exact ⟨inside, claims, lowest⟩

/-! ## Keys -/

/-- The first of the places that are taken, from a value on; if there is none from there on, the
lowest of all. -/
def FirstFrom (taken : UInt64 → Prop) (value place : UInt64) : Prop :=
  taken place ∧
    ((value ≤ place ∧ ∀ other, taken other → value ≤ other → place ≤ other) ∨
      ∀ other, taken other → other < value ∧ place ≤ other)

theorem FirstFrom.unique {taken : UInt64 → Prop} {place' : UInt64}
    (first : FirstFrom taken value place) (first' : FirstFrom taken value place') :
    place = place' := by
  obtain ⟨there, ⟨from_, least⟩ | around⟩ := first <;>
    obtain ⟨there', ⟨from', least'⟩ | around'⟩ := first'
  · exact UInt64.le_antisymm (least _ there' from') (least' _ there from_)
  · exact absurd (around' _ there).1 (UInt64.not_lt.2 from_)
  · exact absurd (around _ there').1 (UInt64.not_lt.2 from')
  · exact UInt64.le_antisymm (around _ there').2 (around' _ there).2

/-- A place that is the first one of many is the first one of some of them, if it is one of them. -/
theorem FirstFrom.of_fewer {taken fewer : UInt64 → Prop} (first : FirstFrom taken value place)
    (there : fewer place) (imp : ∀ other, fewer other → taken other) :
    FirstFrom fewer value place := by
  obtain ⟨-, ⟨from_, least⟩ | around⟩ := first
  · exact ⟨there, .inl ⟨from_, fun other among => least other (imp other among)⟩⟩
  · exact ⟨there, .inr fun other among => around other (imp other among)⟩

/-- What is found in a table, from a value on and going round at the end. -/
theorem firstFrom_of_found {places : Std.ExtTreeMap UInt64 NodeName}
    (found : (places.toList.find? fun entry => value ≤ entry.1).or places.toList.head? =
      some (place, node)) :
    places[place]? = some node ∧ FirstFrom (· ∈ places) value place := by
  have ordered : places.toList.Pairwise fun a b => a.1 < b.1 :=
    Std.ExtTreeMap.ordered_keys_toList.imp fun before => Std.compare_eq_lt.1 before
  have listed : ∀ other, other ∈ places → ∃ owner, (other, owner) ∈ places.toList := by
    intro other there
    obtain ⟨owner, owned⟩ := Option.isSome_iff_exists.1
      (Std.ExtTreeMap.mem_iff_isSome_getElem?.1 there)
    exact ⟨owner, Std.ExtTreeMap.mem_toList_iff_getElem?_eq_some.2 owned⟩
  have owned : ∀ {entry}, entry ∈ places.toList →
      places[entry.1]? = some entry.2 ∧ entry.1 ∈ places := by
    intro entry among
    have there := Std.ExtTreeMap.mem_toList_iff_getElem?_eq_some.1 among
    refine ⟨there, Std.ExtTreeMap.mem_iff_isSome_getElem?.2 ?_⟩
    rw [there]
    rfl
  obtain near | ⟨none, around⟩ := Option.or_eq_some_iff.1 found
  · obtain ⟨from_, before, after, split, earlier⟩ := List.find?_eq_some_iff_append.1 near
    obtain ⟨there, taken⟩ := owned (List.mem_of_find?_eq_some near)
    refine ⟨there, taken, .inl ⟨of_decide_eq_true from_, fun other among beyond => ?_⟩⟩
    obtain ⟨owner, member⟩ := listed other among
    rw [split] at member ordered
    obtain early | late := List.mem_append.1 member
    · exact absurd beyond (by simpa using earlier _ early)
    · obtain same | late := List.mem_cons.1 late
      · exact UInt64.le_of_eq (congrArg Prod.fst same).symm
      · exact UInt64.le_of_lt
          (List.rel_of_pairwise_cons (List.pairwise_append.1 ordered).2.1 late)
  · obtain ⟨rest, split⟩ := List.head?_eq_some_iff.1 around
    obtain ⟨there, taken⟩ := owned (List.mem_of_head? around)
    refine ⟨there, taken, .inr fun other among => ?_⟩
    obtain ⟨owner, member⟩ := listed other among
    refine ⟨by simpa using List.find?_eq_none.1 none _ member, ?_⟩
    rw [split] at member ordered
    obtain same | late := List.mem_cons.1 member
    · exact UInt64.le_of_eq (congrArg Prod.fst same).symm
    · exact UInt64.le_of_lt (List.rel_of_pairwise_cons ordered late)

/-- A key belongs to a node: the owner of the first place that anybody claims, from the key's value
on. -/
def Masters (share : Nat) (nodes : NameSet) (key : String) (node : NodeName) : Prop :=
  ∃ place,
    FirstFrom (fun place => ∃ other ∈ nodes, Claims share other place) (Fnv.ofText key) place ∧
      Owns share nodes place node

theorem Masters.inside (masters : Masters share nodes key node) : node ∈ nodes := by
  obtain ⟨place, -, owns⟩ := masters
  exact owns.inside

theorem mem_places_ofNodes :
    place ∈ (ofNodes share nodes).places ↔ ∃ node ∈ nodes, Claims share node place := by
  rw [Std.ExtTreeMap.mem_iff_isSome_getElem?, Option.isSome_iff_exists]
  simp only [getElem?_places_ofNodes]
  constructor
  · rintro ⟨node, owns⟩
    exact ⟨node, owns.inside, owns.claims⟩
  · rintro ⟨node, inside, claims⟩
    -- somebody claims the place, so one of them is found first
    cases found : (ofNodes share nodes).places[place]? with
    | some owner => exact ⟨owner, getElem?_places_ofNodes.1 found⟩
    | none =>
      rw [ofNodes, getElem?_foldl_settle, Std.ExtTreeMap.getElem?_empty, Option.none_or] at found
      refine absurd (List.find?_eq_none.1 found node (Std.ExtTreeSet.mem_toList.2 inside)) ?_
      simpa [mem_claims] using claims

/-- A key belongs to the owner of the first place from its value on. -/
theorem masterOf_ofNodes :
    (ofNodes share nodes).masterOf key = some node ↔ Masters share nodes key node := by
  have taken : (fun place => ∃ other ∈ nodes, Claims share other place) =
      (· ∈ (ofNodes share nodes).places) :=
    funext fun place => propext mem_places_ofNodes.symm
  have sound : ∀ {node}, (ofNodes share nodes).masterOf key = some node →
      Masters share nodes key node := by
    intro node mastered
    obtain ⟨⟨place, owner⟩, found, rfl⟩ := Option.map_eq_some_iff.1 mastered
    obtain ⟨owned, first⟩ := firstFrom_of_found found
    exact ⟨place, taken ▸ first, getElem?_places_ofNodes.1 owned⟩
  refine ⟨sound, fun ⟨place, first, owns⟩ => ?_⟩
  -- the ring names somebody, and the first place has only one owner
  obtain ⟨i, bound, -⟩ := owns.claims
  obtain ⟨master, mastered⟩ := exists_masterOf (Nat.zero_lt_of_lt bound) owns.inside key
  obtain ⟨place', first', owns'⟩ := sound mastered
  obtain rfl := first.unique first'
  rw [mastered, ← getElem?_places_ofNodes.2 owns, getElem?_places_ofNodes.2 owns']

/-- A node stays the master of a key when others go. -/
theorem Masters.of_fewer {fewer : NameSet} (masters : Masters share nodes key node)
    (there : node ∈ fewer) (imp : ∀ other, other ∈ fewer → other ∈ nodes) :
    Masters share fewer key node := by
  obtain ⟨place, first, owns⟩ := masters
  refine ⟨place, first.of_fewer ⟨node, there, owns.claims⟩ ?_, there, owns.claims, ?_⟩
  · rintro other ⟨claimer, inside, claims⟩
    exact ⟨claimer, imp claimer inside, claims⟩
  · exact fun other inside claims => owns.lowest other (imp other inside) claims

theorem isSome_masterOf_ofNodes :
    ((ofNodes share nodes).masterOf key).isSome = true ↔ 0 < share ∧ ∃ node, node ∈ nodes := by
  constructor
  · intro mastered
    obtain ⟨master, mastered⟩ := Option.isSome_iff_exists.1 mastered
    obtain ⟨place, -, owns⟩ := masterOf_ofNodes.1 mastered
    obtain ⟨i, bound, -⟩ := owns.claims
    exact ⟨Nat.zero_lt_of_lt bound, master, owns.inside⟩
  · rintro ⟨claims, node, inside⟩
    obtain ⟨master, mastered⟩ := exists_masterOf claims inside key
    rw [mastered]
    rfl

/-- A node that goes takes only its own keys with it. -/
theorem masterOf_erase (other : (ofNodes share nodes).masterOf key ≠ some node) :
    (ofNodes share (nodes.erase node)).masterOf key = (ofNodes share nodes).masterOf key := by
  have fewer : ∀ name, name ∈ nodes.erase node → name ∈ nodes := fun name inside =>
    Std.ExtTreeSet.mem_of_mem_erase inside
  cases mastered : (ofNodes share nodes).masterOf key with
  | some master =>
    have masters := masterOf_ofNodes.1 mastered
    have inside : master ∈ nodes := masters.inside
    have left : master ∈ nodes.erase node := by
      rw [Std.ExtTreeSet.mem_erase, ne_eq, Std.compare_eq_iff_eq]
      refine ⟨?_, inside⟩
      rintro rfl
      exact other mastered
    exact masterOf_ofNodes.2 (masters.of_fewer left fewer)
  | none =>
    -- nobody is there who could be master, or nobody claims a place
    rw [← Option.not_isSome_iff_eq_none, isSome_masterOf_ofNodes] at mastered ⊢
    rintro ⟨claims, name, inside⟩
    exact mastered ⟨claims, name, fewer name inside⟩

/-- The master of a key is the owner of the first place that is claimed from the key's value on,
and a place that several nodes claim belongs to the lowest name. It is one of the nodes, and there
is one if nodes claim places at all. A node that goes takes only its own keys with it, and a node
that comes takes keys only for itself. -/
theorem mastership_moves_little (share : Nat) (nodes : NameSet) (key : String) :
    (∀ node, (ofNodes share nodes).masterOf key = some node ↔ Masters share nodes key node) ∧
      (∀ node, (ofNodes share nodes).masterOf key = some node → node ∈ nodes) ∧
      (((ofNodes share nodes).masterOf key).isSome = true ↔ 0 < share ∧ ∃ node, node ∈ nodes) ∧
      (∀ node, (ofNodes share nodes).masterOf key ≠ some node →
        (ofNodes share (nodes.erase node)).masterOf key = (ofNodes share nodes).masterOf key) ∧
      ∀ node, (ofNodes share (nodes.insert node)).masterOf key =
          (ofNodes share nodes).masterOf key ∨
        (ofNodes share (nodes.insert node)).masterOf key = some node := by
  refine ⟨fun node => masterOf_ofNodes, fun node mastered => (masterOf_ofNodes.1 mastered).inside,
    isSome_masterOf_ofNodes, fun node => masterOf_erase, fun node => ?_⟩
  · by_cases known : node ∈ nodes
    · have same : nodes.insert node = nodes := by
        refine Std.ExtTreeSet.ext_mem fun name => ?_
        rw [Std.ExtTreeSet.mem_insert, Std.compare_eq_iff_eq]
        exact ⟨fun inside => inside.elim (fun same => same ▸ known) id, .inr⟩
      exact .inl (by rw [same])
    · by_cases taken : (ofNodes share (nodes.insert node)).masterOf key = some node
      · exact .inr taken
      · -- it goes again, and takes nothing with it
        have back : (nodes.insert node).erase node = nodes := by
          refine Std.ExtTreeSet.ext_mem fun name => ?_
          rw [Std.ExtTreeSet.mem_erase, Std.ExtTreeSet.mem_insert, ne_eq, Std.compare_eq_iff_eq]
          constructor
          · rintro ⟨ne, same | inside⟩
            · exact absurd same ne
            · exact inside
          · intro inside
            refine ⟨?_, .inr inside⟩
            rintro rfl
            exact known inside
        rw [← masterOf_erase taken, back]
        exact .inl rfl

end Ring

end Cohort

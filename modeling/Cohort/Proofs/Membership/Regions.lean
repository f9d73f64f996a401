import Cohort.Membership.Record
import Mathlib.Tactic.Common

/-!
# The tree of regions

Regions are compared by their octets, and what that means is said by their components, the pieces
between the slashes: one region contains another if its components come first in those of the other.
With the root above all of them, the regions form a tree, and the four relationships tell how two of
its places sit to each other.

## Main definitions

* `Region.components`: the pieces of a path.
* `Region.Above`: one place of the tree contains another.

## Main statements

* `Region.contains?_eq`: the comparison never breaks down, and what it tells.
* `Region.slash_prefix_iff_components`: a region contains those whose components go on from its own.
* `Relationship.between?_eq`: the relationship of two places, by the tree.
* `Relationship.regions_form_a_tree`: relationships follow the tree, and hosts follow relationships.
-/

namespace Cohort

/-- The octets of a text come first in those of another just if the text does. -/
theorem Bytes.ofText_prefix_iff {s t : String} : ofText s <+: ofText t ↔ ∃ rest, t = s ++ rest := by
  constructor
  · intro first
    have front : t.toByteArray.extract 0 s.utf8ByteSize = s.toByteArray := by
      have taken := List.prefix_iff_eq_take.1 first
      rw [length_ofText] at taken
      refine ByteArray.ext (Array.toList_inj.1 ?_)
      simpa [ofText] using taken.symm
    -- What comes first is a text, so the other one can be cut after it.
    have cut : String.Pos.Raw.IsValid t ⟨s.utf8ByteSize⟩ := by
      refine String.Pos.Raw.isValid_iff_isValidUTF8_extract_zero.2 ⟨?_, front ▸ s.isValidUTF8⟩
      have shorter := first.length_le
      rwa [length_ofText, length_ofText] at shorter
    obtain ⟨s', rest, rfl, size⟩ := String.Pos.Raw.isValid_iff_exists_append.1 cut
    have length : (ofText s).length = (ofText s').length := by
      rw [length_ofText, length_ofText]
      exact congrArg String.Pos.Raw.byteIdx size
    rw [ofText_append] at first
    have same : ofText s = ofText s' :=
      (List.prefix_of_prefix_length_le first (List.prefix_append ..)
        (Nat.le_of_eq length)).eq_of_length length
    exact ⟨rest, by rw [ofText_inj.1 same]⟩
  · rintro ⟨rest, rfl⟩
    rw [ofText_append]
    exact List.prefix_append ..

namespace Region

/-! ## Paths -/

/-- A path is cut where a text ends that it starts with. -/
theorem restFrom?_append (front rest : String) :
    restFrom? (front ++ rest) front.utf8ByteSize = some rest := by
  have cut : String.Pos.Raw.IsValid (front ++ rest) ⟨front.utf8ByteSize⟩ :=
    String.Pos.Raw.isValid_iff_exists_append.2 ⟨front, rest, rfl, rfl⟩
  have splits : (⟨⟨front.utf8ByteSize⟩, cut⟩ : (front ++ rest).Pos).Splits front rest := ⟨rfl, rfl⟩
  rw [restFrom?, dif_pos cut, splits.copy_sliceFrom_eq]

/-- The comparison never breaks down: it cuts a path only after another one that it starts with. -/
theorem contains?_eq (outer inner : String) :
    contains? outer inner = some (decide (outer.toList ++ ['/'] <+: inner.toList)) := by
  unfold contains?
  split
  next starts =>
    obtain ⟨rest, rfl⟩ := Bytes.ofText_prefix_iff.1 (List.isPrefixOf_iff_prefix.1 starts.2)
    rw [restFrom?_append, Option.map_some, String.toList_append]
    refine congrArg some (Bool.eq_iff_iff.2 ?_)
    rw [List.isPrefixOf_iff_prefix, decide_eq_true_iff, List.prefix_append_right_inj]
  next other =>
    refine congrArg some (decide_eq_false fun first => other ?_).symm
    obtain ⟨rest, same⟩ := first
    obtain rfl : inner = outer ++ ("/" ++ String.ofList rest) := by
      rw [← String.toList_inj, ← same]
      simp
    refine ⟨?_, List.isPrefixOf_iff_prefix.2 (Bytes.ofText_prefix_iff.2 ⟨_, rfl⟩)⟩
    have slash : "/".utf8ByteSize = 1 := rfl
    rw [String.utf8ByteSize_append, String.utf8ByteSize_append]
    omega

/-! ## Components -/

/-- The pieces of a path, between its slashes. -/
def components (path : String) : List (List Char) := path.toList.splitOn '/'

theorem components_ne_nil (path : String) : components path ≠ [] := List.splitOn_ne_nil _ _

theorem intercalate_components (path : String) :
    ['/'].intercalate (components path) = path.toList :=
  List.intercalate_splitOn '/'

theorem intercalate_append {α : Type} {sep : List α} {front rest : List (List α)}
    (some_ : front ≠ []) (more : rest ≠ []) :
    sep.intercalate (front ++ rest) = sep.intercalate front ++ sep ++ sep.intercalate rest := by
  induction front with
  | nil => exact absurd rfl some_
  | cons piece front ih =>
    cases front with
    | nil => rw [List.singleton_append, List.intercalate_cons_of_ne_nil more,
        List.intercalate_singleton]
    | cons next front =>
      have later : next :: front ++ rest ≠ [] := List.cons_ne_nil _ _
      rw [List.cons_append, List.intercalate_cons_of_ne_nil later, ih (List.cons_ne_nil _ _),
        List.intercalate_cons_of_ne_nil (List.cons_ne_nil next front)]
      simp only [List.append_assoc]

/-- A path goes on with a slash from another one just if its components go on from those of the
other. -/
theorem slash_prefix_iff_components {outer inner : String} :
    outer.toList ++ ['/'] <+: inner.toList ↔
      components outer <+: components inner ∧ components outer ≠ components inner := by
  constructor
  · rintro ⟨rest, whole⟩
    have split : components inner = components outer ++ components (String.ofList rest) := by
      rw [components, ← whole, List.append_assoc, List.singleton_append]
      simp only [components, List.splitOn_eq_splitOnP, String.toList_ofList]
      exact List.splitOnP_append_cons _ _ (beq_self_eq_true _)
    refine ⟨split ▸ List.prefix_append .., fun same => ?_⟩
    rw [same, List.self_eq_append_right] at split
    exact components_ne_nil _ split
  · rintro ⟨⟨rest, split⟩, other⟩
    have more : rest ≠ [] := by
      rintro rfl
      exact other (by rw [← split, List.append_nil])
    refine ⟨['/'].intercalate rest, ?_⟩
    rw [← intercalate_components inner, ← split,
      intercalate_append (components_ne_nil outer) more, intercalate_components]

/-! ## Places of the tree -/

/-- One place of the tree contains another: the root contains all regions, and a region those whose
paths go on from its own. -/
def Above : (outer inner : Option String) → Prop
  | none, some _ => True
  | some outer, some inner => outer.toList ++ ['/'] <+: inner.toList
  | _, none => False

instance (outer inner : Option String) : Decidable (Above outer inner) :=
  match outer, inner with
  | none, some _ => inferInstanceAs (Decidable True)
  | some outer, some inner => inferInstanceAs (Decidable (outer.toList ++ ['/'] <+: inner.toList))
  | none, none => inferInstanceAs (Decidable False)
  | some _, none => inferInstanceAs (Decidable False)

theorem Above.irrefl (place : Option String) : ¬ Above place place := by
  intro above
  cases place with
  | none => exact above
  | some path =>
    have longer := List.IsPrefix.length_le above
    rw [List.length_append, List.length_singleton] at longer
    omega

theorem Above.trans {a b c : Option String} (first : Above a b) (second : Above b c) :
    Above a c := by
  cases c with
  | none => cases b <;> exact second.elim
  | some inner =>
    cases a with
    | none => trivial
    | some outer =>
      cases b with
      | none => exact first.elim
      | some middle =>
        have middle_inner : middle.toList <+: inner.toList :=
          (List.prefix_append ..).trans (show middle.toList ++ ['/'] <+: inner.toList from second)
        exact List.IsPrefix.trans first middle_inner

theorem Above.asymm {a b : Option String} (above : Above a b) : ¬ Above b a :=
  fun below => Above.irrefl a (above.trans below)

/-- The places above a place lie above one another. -/
theorem Above.chain {a b c : Option String} (above : Above a c) (above' : Above b c) :
    a = b ∨ Above a b ∨ Above b a := by
  cases c with
  | none => cases a <;> exact above.elim
  | some inner =>
    cases a with
    | none =>
      cases b with
      | none => exact .inl rfl
      | some => exact .inr (.inl trivial)
    | some a =>
      cases b with
      | none => exact .inr (.inr trivial)
      | some b =>
        obtain first | first := List.prefix_or_prefix_of_prefix above above'
        · obtain same | first := List.prefix_concat_iff.1 first
          · exact .inl (congrArg some (String.toList_inj.1 (List.append_cancel_right same)))
          · exact .inr (.inl first)
        · obtain same | first := List.prefix_concat_iff.1 first
          · exact .inl (congrArg some (String.toList_inj.1 (List.append_cancel_right same)).symm)
          · exact .inr (.inr first)

end Region

/-! ## Relationships -/

namespace Relationship

variable {a b c : Option String}

/-- The comparison never breaks down, and it tells who is above whom. -/
theorem between?_eq (here remote : Option String) : between? here remote =
    some (if here = remote then peer else if Region.Above remote here then parent
      else if Region.Above here remote then child else indirect) := by
  cases here with
  | none => cases remote <;> rfl
  | some here =>
    cases remote with
    | none => rfl
    | some remote =>
      simp only [between?, Region.contains?_eq, Option.some.injEq, Region.Above]
      split
      · rfl
      by_cases above : remote.toList ++ ['/'] <+: here.toList
      · simp [above]
      · by_cases below : here.toList ++ ['/'] <+: remote.toList <;> simp [above, below]

/-- A letter that takes two octets is never cut. -/
example : Region.restFrom? "é/x" 1 = none ∧ between? (some "é/x") (some "é") = some parent := by
  decide

theorem between_eq (here remote : Option String) : between here remote =
    if here = remote then peer else if Region.Above remote here then parent
    else if Region.Above here remote then child else indirect := by
  rw [between, between?_eq, Option.getD_some]

theorem between_eq_peer_iff : between a b = peer ↔ a = b := by
  rw [between_eq]
  split
  next same => simp [same]
  next other =>
    split
    · simp [other]
    split <;> simp [other]

theorem between_eq_parent_iff : between a b = parent ↔ Region.Above b a := by
  rw [between_eq]
  split
  next same => simp [same, Region.Above.irrefl]
  next =>
    split
    next above => simp [above]
    next aside => split <;> simp [aside]

theorem between_eq_child_iff : between a b = child ↔ Region.Above a b := by
  rw [between_eq]
  split
  next same => simp [same, Region.Above.irrefl]
  next =>
    split
    next above => simp [above.asymm]
    next =>
      split
      next below => simp [below]
      next aside => simp [aside]

theorem between_eq_indirect_iff :
    between a b = indirect ↔ a ≠ b ∧ ¬ Region.Above a b ∧ ¬ Region.Above b a := by
  rw [Ne, ← between_eq_peer_iff, ← between_eq_child_iff, ← between_eq_parent_iff]
  cases between a b <;> simp

/-- The relationships of places are those of a tree: what is above whom looks the same from both
sides, goes from one place to the next, and never parts on the way up. For two regions it is told by
their components, and the root is above every region. The comparison never breaks down. And a node
is reached at its own host from its peers, and at its public host from everywhere else. -/
theorem regions_form_a_tree :
    (∀ a b, between? a b = some (between a b)) ∧
    (∀ a b, between a b = parent ↔ between b a = child) ∧
    (∀ a b, between a b = peer ↔ a = b) ∧
    (∀ a b, between a b = indirect ↔ between b a = indirect) ∧
    (∀ a b c, between a b = parent → between b c = parent → between a c = parent) ∧
    (∀ a b c, between a b = parent → between a c = parent → between b c ≠ indirect) ∧
    (∀ here remote : String, between (some here) (some remote) = parent ↔
      Region.components remote <+: Region.components here ∧
        Region.components remote ≠ Region.components here) ∧
    (∀ here : String, between (some here) none = parent) ∧
    ∀ (record : NodeRecord) (here : Option String), record.hostFrom here =
      if record.relationshipTo here = peer then record.hostName else record.publicHostName := by
  refine ⟨fun a b => ?_, fun a b => ?_, fun a b => between_eq_peer_iff, fun a b => ?_,
    fun a b c => ?_, fun a b c => ?_, fun here remote => ?_, fun here => rfl,
    fun record here => ?_⟩
  · rw [between_eq, between?_eq]
  · rw [between_eq_parent_iff, between_eq_child_iff]
  · rw [between_eq_indirect_iff, between_eq_indirect_iff, ne_comm,
      and_comm (a := ¬ Region.Above a b)]
  · simp only [between_eq_parent_iff]
    exact fun above above' => above'.trans above
  · rw [between_eq_parent_iff, between_eq_parent_iff, Ne, between_eq_indirect_iff]
    rintro above above' ⟨apart, aside, aside'⟩
    obtain same | first | first := above.chain above'
    · exact apart same
    · exact aside first
    · exact aside' first
  · rw [between_eq_parent_iff]
    exact Region.slash_prefix_iff_components
  · have same : record.relationshipTo here = peer ↔ record.region = here := by
      rw [NodeRecord.relationshipTo, between_eq_peer_iff, eq_comm]
    rw [NodeRecord.hostFrom, if_congr same rfl rfl]

end Relationship

end Cohort

import Cohort.Membership.FileStore
import Mathlib.Data.String.Basic

/-!
# Names of record files

The record of a node is in a file that is named after it, with an extension, and is written with
another extension first. A name without a slash is a path of one step, so that each node has a file
of its own, whatever dots its name has, and no draft is ever taken for a record.

## Main statements

* `Disk.steps_of_absent`: a name without a slash is one step.
* `FileStore.splitExtension?_append`: what stands before the last dot and after it.
* `FileStore.draftPath_recordPath`, `FileStore.isRecordName_recordPath`: the files of a node.
-/

namespace Cohort

/-! ## Texts without a slash -/

section Slash

open String

/-- A text is walked through to its end as long as there is no slash. -/
theorem splitOnAux_of_absent (front rest : List Char) (absent : '/' ∉ rest) :
    splitOnAux (ofList (front ++ rest)) "/" 0 ⟨utf8Len front⟩ 0 [] = [ofList (front ++ rest)] := by
  induction rest generalizing front with
  | nil =>
    have ended : Pos.Raw.atEnd (ofList (front ++ [])) ⟨utf8Len front⟩ = true :=
      (atEnd_of_valid front []).2 rfl
    have whole := extract_of_valid [] front []
    rw [splitOnAux, if_pos ended]
    simpa using whole
  | cons c rest ih =>
    obtain ⟨ne, absent⟩ := not_or.1 (mt List.mem_cons.2 absent)
    have more : ¬ Pos.Raw.atEnd (ofList (front ++ c :: rest)) ⟨utf8Len front⟩ = true := by
      rw [atEnd_of_valid]
      exact List.cons_ne_nil c rest
    have slash : Pos.Raw.get "/" 0 = '/' := rfl
    have differs : ¬ (Pos.Raw.get (ofList (front ++ c :: rest)) ⟨utf8Len front⟩ ==
        Pos.Raw.get "/" 0) = true := by
      rw [get_of_valid, slash]
      simpa using Ne.symm ne
    have same : (⟨utf8Len front⟩ : Pos.Raw).unoffsetBy 0 = ⟨utf8Len front⟩ := rfl
    have further := ih (front ++ [c]) absent
    rw [splitOnAux, if_neg more, if_neg differs, same, next_of_valid]
    rwa [List.append_assoc, List.singleton_append, utf8Len_append, utf8Len_cons, utf8Len_nil,
      Nat.zero_add] at further

theorem splitOn_of_absent {s : String} (absent : '/' ∉ s.toList) : s.splitOn "/" = [s] := by
  have walked := splitOnAux_of_absent [] s.toList absent
  rw [List.nil_append, ofList_toList] at walked
  exact walked

theorem startsWith_of_absent {s : String} (absent : '/' ∉ s.toList) : s.startsWith "/" = false := by
  rw [Bool.eq_false_iff, Ne, startsWith_string_iff]
  exact fun front => absent (front.subset List.mem_cons_self)

theorem endsWith_of_absent {s : String} (absent : '/' ∉ s.toList) : s.endsWith "/" = false := by
  rw [Bool.eq_false_iff, Ne, endsWith_eq_endsWith_toSlice, Slice.endsWith_string_iff, copy_toSlice]
  exact fun back => absent (back.subset List.mem_cons_self)

end Slash

/-- A name without a slash is one step. -/
theorem Disk.steps_of_absent {name : String} (named : name ≠ "") (absent : '/' ∉ name.toList) :
    steps name = [name] := by
  rw [steps, splitOn_of_absent absent]
  simp [named]

/-! ## Extensions -/

namespace FileStore

variable {node : NodeName} {stem extension : List Char}

/-- What stands before the last dot of a file name, and what stands after it. -/
theorem splitExtension?_append (dotless : '.' ∉ extension) (some_ : extension ≠ [])
    (named : stem ≠ []) : splitExtension? (String.ofList (stem ++ '.' :: extension)) =
      some (String.ofList stem, String.ofList extension) := by
  have backwards : (stem ++ '.' :: extension).reverse =
      extension.reverse ++ '.' :: stem.reverse := by simp
  have dots : ∀ c ∈ extension.reverse, decide (c ≠ '.') = true := fun c there =>
    decide_eq_true fun same => dotless (same ▸ List.mem_reverse.1 there)
  have front : (extension.reverse ++ '.' :: stem.reverse).takeWhile (fun c => decide (c ≠ '.')) =
      extension.reverse := by
    rw [List.takeWhile_append_of_pos dots]
    simp
  have back : ((extension.reverse ++ '.' :: stem.reverse).dropWhile
      fun c => decide (c ≠ '.')).drop 1 = stem.reverse := by
    rw [List.dropWhile_append_of_pos dots]
    simp
  have other : String.ofList (stem ++ '.' :: extension) ≠ ".." := by
    intro same
    have short := congrArg (List.length ∘ String.toList) same
    simp only [Function.comp_apply, String.toList_ofList, List.length_append, List.length_cons]
      at short
    have long : 0 < stem.length ∧ 0 < extension.length :=
      ⟨List.length_pos_iff.2 named, List.length_pos_iff.2 some_⟩
    have two : "..".toList.length = 2 := rfl
    omega
  unfold splitExtension?
  rw [String.toList_ofList, backwards]
  dsimp only
  rw [front, back]
  split
  next none_ => exact absurd (List.reverse_eq_nil_iff.1 none_) named
  next => rw [if_neg other, List.reverse_reverse, List.reverse_reverse]

/-! ## The files of a node -/

theorem toList_recordPath (node : NodeName) :
    (recordPath node).toList = node.toList ++ '.' :: ['n', 'o', 'd', 'e'] :=
  String.toList_append

theorem recordPath_inj {other : NodeName} : recordPath node = recordPath other ↔ node = other := by
  constructor
  · intro same
    have chars := congrArg String.toList same
    rw [toList_recordPath, toList_recordPath] at chars
    exact String.toList_inj.1 (List.append_cancel_right chars)
  · exact fun same => same ▸ rfl

theorem splitExtension?_recordPath (named : node ≠ "") :
    splitExtension? (recordPath node) = some (node, "node") := by
  have stem : node.toList ≠ [] := by simpa using named
  have dotless : '.' ∉ ['n', 'o', 'd', 'e'] := by decide
  have parts := splitExtension?_append dotless (List.cons_ne_nil _ _) stem
  rw [← toList_recordPath, String.ofList_toList, String.ofList_toList] at parts
  exact parts

theorem isRecordName_recordPath (named : node ≠ "") : isRecordName (recordPath node) = true := by
  rw [isRecordName, splitExtension?_recordPath named]
  rfl

/-- A record is written to a file beside its own, but for a node named by a single dot. -/
theorem draftPath_recordPath (named : node ≠ "") (ne_dot : node ≠ ".")
    (absent : '/' ∉ node.toList) : draftPath (recordPath node) = node ++ ".tmp" := by
  have whole : '/' ∉ (recordPath node).toList := by
    rw [toList_recordPath, List.mem_append]
    exact not_or.2 ⟨absent, by decide⟩
  have draft : draftName (recordPath node) = node ++ ".tmp" := by
    rw [draftName, splitExtension?_recordPath named]
    split
    next same =>
      cases same
      exact absurd rfl ne_dot
    next same =>
      cases same
      rfl
    next none_ => cases none_
  unfold draftPath
  rw [splitOn_of_absent whole]
  dsimp only
  rw [List.dropLast_singleton, List.nil_append, String.intercalate_singleton]
  exact draft

end FileStore

end Cohort

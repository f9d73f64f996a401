import Cohort.Credentials
import Mathlib.Tactic.Common

/-!
# What a password proves

A password is the digest of a name followed by a secret. It is accepted for the name and the secret
that it was made for, and for no others with the same name or the same secret. But nothing marks
where the name ends: whoever moves the end of the name into the secret, or the beginning of the
secret into the name, is accepted too.

## Main definitions

* `Credentials.Shifted`: two names and secrets that are one text, cut in two places.

## Main statements

* `Credentials.append_eq_append_iff_shifted`: a name and a secret are found in their joined text up
  to a shift.
* `Credentials.passwords_bind_up_to_shift`: what a password proves.
* `Credentials.password_passes_for_another_name`: a password that two nodes of different clusters
  share.
-/

namespace Cohort

theorem Bytes.toHex_inj {bs cs : Bytes} : bs.toHex = cs.toHex ↔ bs = cs := by
  refine ⟨fun same => ?_, fun same => same ▸ rfl⟩
  have read := ofHex?_toHex bs
  rw [same, ofHex?_toHex] at read
  exact (Option.some.inj read).symm

namespace Credentials

variable {digest : Bytes → Bytes} {name name' secret secret' : String}

/-- One text is cut into a name and a secret in two places. -/
def Shifted (name secret name' secret' : String) : Prop :=
  ∃ moved, moved ≠ "" ∧ (name = name' ++ moved ∧ secret' = moved ++ secret ∨
    name' = name ++ moved ∧ secret = moved ++ secret')

theorem Shifted.symm (shifted : Shifted name secret name' secret') :
    Shifted name' secret' name secret := by
  obtain ⟨moved, some_, cut⟩ := shifted
  exact ⟨moved, some_, cut.symm⟩

theorem Shifted.ne (shifted : Shifted name secret name' secret') : name ≠ name' := by
  rintro rfl
  obtain ⟨moved, some_, ⟨same, -⟩ | ⟨same, -⟩⟩ := shifted <;>
    exact some_ ((String.append_right_inj name).1 ((String.append_empty).trans same)).symm

theorem Shifted.ne_secret (shifted : Shifted name secret name' secret') : secret ≠ secret' := by
  rintro rfl
  obtain ⟨moved, some_, ⟨-, same⟩ | ⟨-, same⟩⟩ := shifted <;>
    exact some_ ((String.append_left_inj secret).1 ((String.empty_append).trans same)).symm

/-- Two cuts of one text are the same, or one comes after the other. -/
theorem eq_or_shifted_of_toList {cut : List Char}
    (first : name'.toList = name.toList ++ cut) (second : secret.toList = cut ++ secret'.toList) :
    (name = name' ∧ secret = secret') ∨ Shifted name secret name' secret' := by
  have names : name' = name ++ String.ofList cut := by
    rw [← String.toList_inj, String.toList_append, String.toList_ofList, first]
  have secrets : secret = String.ofList cut ++ secret' := by
    rw [← String.toList_inj, String.toList_append, String.toList_ofList, second]
  cases cut with
  | nil => exact .inl ⟨by simpa using names.symm, by simpa using secrets⟩
  | cons c cut => exact .inr ⟨String.ofList (c :: cut), by simp, .inr ⟨names, secrets⟩⟩

/-- A name and a secret are found in their joined text, up to a shift. -/
theorem append_eq_append_iff_shifted : name ++ secret = name' ++ secret' ↔
    (name = name' ∧ secret = secret') ∨ Shifted name secret name' secret' := by
  constructor
  · intro same
    have chars : name.toList ++ secret.toList = name'.toList ++ secret'.toList := by
      rw [← String.toList_append, same, String.toList_append]
    obtain ⟨cut, first, second⟩ | ⟨cut, first, second⟩ := List.append_eq_append_iff.1 chars
    · exact eq_or_shifted_of_toList first second
    · obtain ⟨rfl, rfl⟩ | shifted := eq_or_shifted_of_toList first second
      · exact .inl ⟨rfl, rfl⟩
      · exact .inr shifted.symm
  · rintro (⟨rfl, rfl⟩ | ⟨moved, -, ⟨rfl, rfl⟩ | ⟨rfl, rfl⟩⟩)
    · rfl
    · exact String.append_assoc ..
    · exact (String.append_assoc ..).symm

/-- A password is accepted for a name and a secret just if the same digest comes of them. -/
theorem isAuthenticThrough_iff_digest :
    (⟨name, passwordThrough digest name' secret'⟩ : Credentials).isAuthenticThrough digest
        (some secret) = true ↔
      digest (Bytes.ofText (name ++ secret)) = digest (Bytes.ofText (name' ++ secret')) := by
  rw [isAuthenticThrough, decide_eq_true_iff, passwordThrough, passwordThrough, Bytes.toHex_inj,
    Bytes.ofText_append, Bytes.ofText_append]

/-- Whatever the digest, the credentials of a node that knows the secret are accepted. A password
proves a name and a secret up to a shift, unless two texts with one digest were found: it is
accepted for the name and the secret that it was made for and for all to which these can be
shifted, and nothing else. So it proves both just where nothing was shifted, in particular where
one of them is known. -/
theorem passwords_bind_up_to_shift (digest : Bytes → Bytes) (name name' secret secret' : String)
    (apart : digest (Bytes.ofText (name ++ secret)) = digest (Bytes.ofText (name' ++ secret')) →
      Bytes.ofText (name ++ secret) = Bytes.ofText (name' ++ secret')) :
    let password := passwordThrough digest name' secret'
    (makeThrough digest name (some secret)).isAuthenticThrough digest (some secret) = true ∧
    (isAuthenticThrough digest ⟨name, password⟩ (some secret) = true ↔
      (name = name' ∧ secret = secret') ∨ Shifted name secret name' secret') ∧
    ((isAuthenticThrough digest ⟨name, password⟩ (some secret) = true →
        name = name' ∧ secret = secret') ↔
      ¬ Shifted name secret name' secret') ∧
    (name = name' ∨ secret = secret' → ¬ Shifted name secret name' secret') := by
  intro password
  have accepted : isAuthenticThrough digest ⟨name, password⟩ (some secret) = true ↔
      (name = name' ∧ secret = secret') ∨ Shifted name secret name' secret' := by
    rw [← append_eq_append_iff_shifted, ← Bytes.ofText_inj]
    exact isAuthenticThrough_iff_digest.trans ⟨apart, congrArg _⟩
  refine ⟨isAuthenticThrough_iff_digest.2 rfl, accepted, ?_, ?_⟩
  · rw [accepted]
    refine ⟨fun proves shifted => shifted.ne (proves (.inr shifted)).1, fun unshifted => ?_⟩
    exact fun found => found.resolve_right unshifted
  · rintro (same | same) shifted
    · exact shifted.ne same
    · exact shifted.ne_secret same

/-- In one cluster a password is bound to its name; in two whose secrets end alike it need not
be. -/
theorem passwords_bind_up_to_shift_in_two_clusters :
    Sha256.digest (Bytes.ofText ("alpha" ++ "hunter2")) ≠
        Sha256.digest (Bytes.ofText ("bravo" ++ "hunter2")) ∧
      (⟨"alpha", passwordFor "bravo" "hunter2"⟩ : Credentials).isAuthentic (some "hunter2") ≠
        true ∧
      Shifted "alphab" "ravo" "alpha" "bravo" ∧
      (⟨"alphab", passwordFor "alpha" "bravo"⟩ : Credentials).isAuthentic (some "ravo") = true := by
  have unlike : Sha256.digest (Bytes.ofText ("alpha" ++ "hunter2")) ≠
      Sha256.digest (Bytes.ofText ("bravo" ++ "hunter2")) := by decide +kernel
  have shifted : Shifted "alphab" "ravo" "alpha" "bravo" :=
    ⟨"b", by decide, .inl ⟨by decide, by decide⟩⟩
  have same : "alphab" ++ "ravo" = "alpha" ++ "bravo" := by decide
  obtain ⟨-, -, binds, unshifted⟩ := passwords_bind_up_to_shift Sha256.digest "alpha" "bravo"
    "hunter2" "hunter2" fun collision => absurd collision unlike
  obtain ⟨-, accepted, -⟩ := passwords_bind_up_to_shift Sha256.digest "alphab" "alpha" "ravo"
    "bravo" fun _ => congrArg Bytes.ofText same
  refine ⟨unlike, fun proven => ?_, shifted, accepted.2 (.inr shifted)⟩
  exact absurd (binds.2 (unshifted (.inr rfl)) proven).1 (by decide)

/-- In two clusters whose secrets are unlike, the password of one node passes for another name. -/
theorem password_passes_for_another_name :
    (⟨"alphab", passwordFor "alpha" "bravo"⟩ : Credentials).isAuthentic (some "ravo") = true ∧
      "alphab" ≠ "alpha" ∧ "ravo" ≠ "bravo" := by
  refine ⟨isAuthenticThrough_iff_digest.2 ?_, by decide, by decide⟩
  have same : "alphab" ++ "ravo" = "alpha" ++ "bravo" := by decide
  rw [same]

end Credentials

end Cohort

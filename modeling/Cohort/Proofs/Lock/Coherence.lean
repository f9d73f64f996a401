import Cohort.Proofs.Lock.Scene

/-!
# What holds of every node by itself

A node never holds a lock that it also has on record as a peer's, it follows the acquiring of a
lock only while it knows of no owner, and it follows a release only of an owner. None of this
depends on what is on the links.

## Main definitions

* `Lock.Standing.Coherent`: how the parts of a standing go together.
* `Lock.Standing.Placed`: a standing names no node but those of the cluster.

## Main statements

* `Lock.Deed.coherent`, `Lock.Hearing.coherent`, `Lock.Deed.placed`, `Lock.Hearing.placed`.
-/

namespace Cohort

namespace Lock

/-- Whether the attempt that is being settled is one to acquire the lock. -/
def Stage.IsClaim : Stage → Prop
  | idle => False
  | own _ acquire _ | follows _ acquire => acquire = true

theorem Stage.IsClaim.not_isRelease {stage : Stage} (claim : stage.IsClaim) :
    ¬ stage.IsRelease := by
  intro release
  cases stage with
  | idle => cases claim
  | own node acquire awaits =>
    have both : true = false := claim.symm.trans release
    cases both
  | follows peer acquire =>
    have both : true = false := claim.symm.trans release
    cases both

namespace Standing

/-- How the parts of a standing go together. -/
structure Coherent (b : Standing) : Prop where
  sole : b.holds → ∀ peer, peer ∉ b.knows
  claim : b.stage.IsClaim → b.Unowned
  leave : ∀ {node awaits}, b.stage = .own node false awaits → b.holds
  follow : ∀ {peer}, b.stage = .follows peer false → peer ∈ b.knows

/-- The standing of `k` names no node but those of the cluster. -/
structure Placed (names : NameSet) (k : NodeName) (b : Standing) : Prop where
  knows : ∀ {peer}, peer ∈ b.knows → peer ∈ company names k
  own : ∀ {node acquire awaits}, b.stage = .own node acquire awaits →
    node = k ∧ awaits.Nonempty ∧ awaits ⊆ company names k
  party : ∀ {peer acquire}, b.stage = .follows peer acquire → peer ∈ company names k

/-- A node that settles nothing only has to be the sole owner if it holds the lock. -/
theorem coherent_of_idle {b : Standing} (idle : b.stage = .idle)
    (sole : b.holds → ∀ peer, peer ∉ b.knows) : b.Coherent where
  sole := sole
  claim claim := by
    rw [idle] at claim
    exact claim.elim
  leave own := by
    rw [idle] at own
    cases own
  follow follows := by
    rw [idle] at follows
    cases follows

theorem coherent_start : Coherent ⟨False, ∅, .idle⟩ := coherent_of_idle rfl False.elim

theorem placed_start (names : NameSet) (k : NodeName) : Placed names k ⟨False, ∅, .idle⟩ :=
  ⟨nofun, nofun, nofun⟩

namespace Coherent

variable {b : Standing}

theorem idle (coherent : b.Coherent) : Coherent { b with stage := .idle } :=
  coherent_of_idle rfl coherent.sole

/-- A node that begins to acquire the lock, or follows somebody who does, knows of no owner. -/
theorem begin_claim (unowned : b.Unowned) {stage : Stage} (claim : stage.IsClaim) :
    Coherent { b with stage } where
  sole holds := absurd holds unowned.1
  claim _ := unowned
  leave eq := by
    subst eq
    cases claim
  follow eq := by
    subst eq
    cases claim

theorem own_claim (coherent : b.Coherent) {node : NodeName} {awaits : Set NodeName}
    (own : b.stage = .own node true awaits) : b.Unowned :=
  coherent.claim (by rw [own]; rfl)

theorem follows_claim (coherent : b.Coherent) {peer : NodeName}
    (follows : b.stage = .follows peer true) : b.Unowned :=
  coherent.claim (by rw [follows]; rfl)

end Coherent

end Standing

variable {self peer : NodeName} {others : Set NodeName} {outranks : Precedence}
  {names : NameSet} {initiative : Initiative} {signal : Signal} {b b' : Standing}
  {said : List Saying} {response : Response}

open Standing

theorem Deed.coherent (coherent : b.Coherent) (deed : Deed self others initiative b b' said) :
    b'.Coherent := by
  cases deed with
  | claim idle unowned company => exact .begin_claim unowned rfl
  | claimAlone idle unowned alone => exact coherent_of_idle idle fun _ => unowned.2
  | leave idle holds company =>
    exact ⟨coherent.sole, by simp [Stage.IsClaim], fun _ => holds, nofun⟩
  | leaveAlone idle holds alone => exact coherent_of_idle idle False.elim
  | keep leaving => exact coherent.idle

theorem Hearing.coherent (ne : peer ≠ self) (coherent : b.Coherent)
    (hearing : Hearing self outranks peer signal b b' said response) : b'.Coherent := by
  cases hearing with
  | followClaim unowned yields => exact .begin_claim unowned rfl
  | followLeave recorded idle =>
    have known : peer ∈ b.knows := recorded.resolve_left fun own => ne own.2
    refine ⟨coherent.sole, by simp [Stage.IsClaim], nofun, ?_⟩
    intro p eq
    cases eq
    exact known
  | refuse | alreadyOwner | defer | notOwner | busy | keptElsewhere | stale => exact coherent
  | added | hijacked => exact coherent_of_idle rfl False.elim
  | kept => exact coherent.idle
  | removed party =>
    exact coherent_of_idle rfl fun holds p known => coherent.sole holds p known.1
  -- A peer is followed in giving the lock up only while it is on record as the owner, so a node
  -- that settles nothing with that peer loses nothing it relies on.
  | removedElsewhere other =>
    refine ⟨fun holds p known => coherent.sole holds p known.1, ?_, coherent.leave, ?_⟩
    · intro claim
      have unowned := coherent.claim claim
      exact ⟨unowned.1, fun p known => unowned.2 p known.1⟩
    · intro p eq
      refine ⟨coherent.follow eq, fun same => other ?_⟩
      rw [Set.mem_singleton_iff] at same
      rw [eq, same]
      rfl
  | @strike _ node acquire awaits own more =>
    refine ⟨coherent.sole, ?_, ?_, nofun⟩
    · intro claim
      cases acquire with
      | true => exact coherent.own_claim own
      | false => cases claim
    · intro n aw eq
      cases eq
      exact coherent.leave own
  | win own last => exact coherent_of_idle rfl fun _ => (coherent.own_claim own).2
  | part own last => exact coherent_of_idle rfl False.elim

theorem Deed.placed (placed : b.Placed names self)
    (deed : Deed self (company names self) initiative b b' said) : b'.Placed names self := by
  cases deed with
  | claim idle unowned company =>
    refine ⟨placed.knows, ?_, nofun⟩
    rintro n a aw ⟨⟩
    exact ⟨rfl, company, subset_rfl⟩
  | leave idle holds company =>
    refine ⟨placed.knows, ?_, nofun⟩
    rintro n a aw ⟨⟩
    exact ⟨rfl, company, subset_rfl⟩
  | claimAlone | leaveAlone => exact ⟨placed.knows, placed.own, placed.party⟩
  | keep leaving => exact ⟨placed.knows, nofun, nofun⟩

theorem Hearing.placed (member : peer ∈ company names self) (placed : b.Placed names self)
    (hearing : Hearing self outranks peer signal b b' said response) : b'.Placed names self := by
  cases hearing with
  | followClaim unowned yields =>
    refine ⟨placed.knows, nofun, ?_⟩
    rintro p a ⟨⟩
    exact member
  | followLeave recorded idle =>
    refine ⟨placed.knows, nofun, ?_⟩
    rintro p a ⟨⟩
    exact member
  | refuse | alreadyOwner | defer | notOwner | busy | keptElsewhere | stale => exact placed
  | added | hijacked =>
    refine ⟨?_, nofun, nofun⟩
    rintro p (rfl | known)
    · exact member
    · exact placed.knows known
  | kept => exact ⟨placed.knows, nofun, nofun⟩
  | removed party => exact ⟨fun known => placed.knows known.1, nofun, nofun⟩
  | removedElsewhere other =>
    exact ⟨fun known => placed.knows known.1, placed.own, placed.party⟩
  | strike own more =>
    refine ⟨placed.knows, ?_, nofun⟩
    rintro n a aw ⟨⟩
    obtain ⟨self, -, among⟩ := placed.own own
    exact ⟨self, more, Set.sdiff_subset.trans among⟩
  | win own last => exact ⟨placed.knows, nofun, nofun⟩
  | part own last => exact ⟨placed.knows, nofun, nofun⟩

end Lock

end Cohort

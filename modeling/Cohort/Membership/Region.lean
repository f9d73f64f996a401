import Cohort.Bytes

/-!
# Regions

Nodes live in a tree of regions whose paths are written with slashes. A node without a region
lives at the root. `Relationship.between` says how a remote node sits relative to the local one.

Paths are compared octet by octet, and a path is cut where another one that it starts with ends.
A text can only be cut between characters; where it were cut elsewhere, the comparison would break
down (`Region.contains?`, `Relationship.between?`).
-/

namespace Cohort

/-- How a remote node sits relative to the local one in the region tree. -/
inductive Relationship where
  /-- Both live in the same region. -/
  | peer
  /-- The remote region contains the local one. -/
  | parent
  /-- The local region contains the remote one. -/
  | child
  /-- Neither region contains the other. -/
  | indirect
  deriving DecidableEq, Repr

namespace Region

/-- What follows the first `start` octets of a path; nothing if these do not end between two
characters. -/
def restFrom? (path : String) (start : Nat) : Option String :=
  if cut : String.Pos.Raw.IsValid path ⟨start⟩ then some (path.sliceFrom ⟨⟨start⟩, cut⟩).copy
  else none

/-- Whether the region `outer` contains the region `inner`, which is not `outer` itself. -/
def contains? (outer inner : String) : Option Bool :=
  if outer.utf8ByteSize < inner.utf8ByteSize ∧
      (Bytes.ofText outer).isPrefixOf (Bytes.ofText inner) then
    (restFrom? inner outer.utf8ByteSize).map fun rest => ['/'].isPrefixOf rest.toList
  else some false

end Region

namespace Relationship

/-- How a node in the region `remote` sits as seen from the region `here`, unless the comparison
breaks down. -/
def between? : (here remote : Option String) → Option Relationship
  | none, none => some peer
  | some _, none => some parent
  | none, some _ => some child
  | some here, some remote =>
    if here = remote then some peer
    else do
      if ← Region.contains? remote here then return parent
      if ← Region.contains? here remote then return child
      return indirect

/-- How a node in the region `remote` sits as seen from the region `here`. The comparison never
breaks down. -/
def between (here remote : Option String) : Relationship := (between? here remote).getD indirect

/-- The word for a relationship. -/
def render : Relationship → String
  | peer => "peer"
  | parent => "parent"
  | child => "child"
  | indirect => "indirect"

end Relationship

end Cohort

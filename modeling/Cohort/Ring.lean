import Cohort.Hash.Fnv
import Cohort.Lock.Basic

/-!
# The mastership ring

Mappings with a single copy are spread over nodes by consistent hashing. Every node owns a chain
of places on a ring of 64-bit values; a key belongs to the node that owns the first place at or
after the key's own value, going round at the end. A place that several nodes hash to belongs to
the one with the lowest name.

## Main definitions

* `Ring.ofNodes`: the ring over a set of nodes.
* `Ring.masterOf`: the node that a key belongs to.
-/

namespace Cohort

/-- Nodes and the places they own. -/
structure Ring where
  nodes : NameSet
  places : Std.ExtTreeMap UInt64 NodeName

namespace Ring

/-- How many places a node owns unless told otherwise. -/
def defaultShare : Nat := 64

/-- The places that a node claims: the chain of its name's value. -/
def claims (share : Nat) (node : NodeName) : List UInt64 :=
  match share with
  | 0 => []
  | share + 1 => Fnv.ofText node :: Fnv.chain (Fnv.ofText node) share

/-- Give a node those of its places that nobody owns yet. -/
def settle (share : Nat) (places : Std.ExtTreeMap UInt64 NodeName) (node : NodeName) :
    Std.ExtTreeMap UInt64 NodeName :=
  (claims share node).foldl (fun places place => places.insertIfNew place node) places

/-- The ring over a set of nodes, with `share` places claimed by each. -/
def ofNodes (share : Nat) (nodes : NameSet) : Ring where
  nodes := nodes
  places := nodes.toList.foldl (settle share) ∅

/-- The node that a key belongs to: the owner of the first place at or after the key's value, or
else of the lowest place. -/
def masterOf (ring : Ring) (key : String) : Option NodeName :=
  let value := Fnv.ofText key
  let places := ring.places.toList
  ((places.find? fun place => value ≤ place.1).or places.head?).map Prod.snd

end Ring

end Cohort

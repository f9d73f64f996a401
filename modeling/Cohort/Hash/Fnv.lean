import Cohort.Bytes

/-!
# The placement hash

Every node must place names and mapping ids alike, so the hash is fixed: 64-bit FNV-1a, run over
a key and then over its own value once more (`Fnv.ofBytes`). `Fnv.next` walks on from a value to
the next one of its chain, which is how one name comes to own many places.
-/

namespace Cohort.Fnv

/-- The value a hash starts from. -/
def basis : UInt64 := 0xcbf29ce484222325

/-- The factor of each step. -/
def prime : UInt64 := 0x100000001b3

/-- One step: fold an octet into the value. -/
def step (value : UInt64) (b : UInt8) : UInt64 := (value ^^^ b.toUInt64) * prime

/-- The hash of octets, walking on from `start`. -/
def run (start : UInt64) (bs : Bytes) : UInt64 := bs.foldl step start

/-- The hash of a word's eight octets, least significant first. -/
def runWord (start word : UInt64) : UInt64 := run start (Bytes.ofNatLE 8 word.toNat)

/-- The value after `value` in its chain. -/
def next (value : UInt64) : UInt64 := runWord value value

/-- The hash of a key. -/
def ofBytes (bs : Bytes) : UInt64 := next (run basis bs)

/-- The hash of a name. -/
def ofText (s : String) : UInt64 := ofBytes (Bytes.ofText s)

/-- The first `count` values after `value` in its chain. -/
def chain (value : UInt64) : Nat → List UInt64
  | 0 => []
  | count + 1 => next value :: chain (next value) count

end Cohort.Fnv

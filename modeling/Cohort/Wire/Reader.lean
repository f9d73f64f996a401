import Cohort.Bytes

/-!
# Readers

A `Reader` takes a value off the front of a payload. It answers with the value, or with nothing
when the payload does not hold one, and in both cases with the octets it left: how far a failed
read got can be seen by whoever holds the payload. A read of a fixed number of octets that finds
fewer uses up all of them.

## Main definitions

* `Reader.take`: exactly so many octets.
* `Reader.times`: the same reader so many times.
-/

namespace Cohort

/-- Takes a value off the front of a payload and leaves the rest. -/
def Reader (α : Type) : Type := Bytes → Option α × Bytes

namespace Reader

variable {α β : Type}

/-- Reads nothing. -/
def done (a : α) : Reader α := fun bs => (some a, bs)

/-- Gives up where it stands. -/
def giveUp : Reader α := fun bs => (none, bs)

/-- Reads on after a value. -/
def andThen (first : Reader α) (second : α → Reader β) : Reader β := fun bs =>
  match first bs with
  | (some a, rest) => second a rest
  | (none, rest) => (none, rest)

instance : Monad Reader where
  pure := done
  bind := andThen

/-- Exactly `n` octets. A payload that runs short is used up. -/
def take (n : Nat) : Reader Bytes := fun bs =>
  if (bs.take n).length = n then (some (bs.take n), bs.drop n) else (none, [])

/-- Keeps a value that `f` accepts and gives up on any other. -/
def accept (f : α → Option β) (reader : Reader α) : Reader β := fun bs =>
  match reader bs with
  | (some a, rest) => (f a, rest)
  | (none, rest) => (none, rest)

/-- The reader `n` times, after what was read already, latest first. -/
def timesOnto (reader : Reader α) : Nat → List α → Reader (List α)
  | 0, read, bs => (some read.reverse, bs)
  | n + 1, read, bs =>
    match reader bs with
    | (some a, rest) => timesOnto reader n (a :: read) rest
    | (none, rest) => (none, rest)

/-- The reader `n` times. -/
def times (n : Nat) (reader : Reader α) : Reader (List α) := timesOnto reader n []

/-- The value a payload starts with, whatever follows it. -/
def value? (reader : Reader α) (bs : Bytes) : Option α := (reader bs).1

@[simp] theorem pure_apply (a : α) (bs : Bytes) : (pure a : Reader α) bs = (some a, bs) := rfl

theorem bind_apply (first : Reader α) (second : α → Reader β) (bs : Bytes) :
    (first >>= second) bs = match first bs with
      | (some a, rest) => second a rest
      | (none, rest) => (none, rest) := rfl

/-- Reading on after a value that was found. -/
theorem bind_apply_of_some {first : Reader α} {bs rest : Bytes} {a : α}
    (found : first bs = (some a, rest)) (second : α → Reader β) :
    (first >>= second) bs = second a rest := by
  simp [bind_apply, found]

/-- Octets that stand in front are taken. -/
theorem take_append (front rest : Bytes) :
    take front.length (front ++ rest) = (some front, rest) := by
  simp [take]

end Reader

end Cohort

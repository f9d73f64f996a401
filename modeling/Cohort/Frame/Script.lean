import Cohort.Bytes

/-!
# Byte sources

A `Script` is a source of octets that says in advance what each read will meet: a piece of the
stream, a pause, an error, or the end. Pieces may be cut anywhere, so every way in which a stream
can arrive is some script. A source is read in two ways. `Script.readNow` answers at once, and a
pause shows as an error; `Script.readWaiting` waits past pauses and meets the end of the stream
when the script is over.

## Main statements

* `Script.readWaiting_weight`: a waiting read that gives octets or an error moves the script on.
-/

namespace Cohort

/-- What kind of error a source reports. -/
inductive IoKind where
  | wouldBlock
  | interrupted
  | connectionReset
  | invalidData
  | unexpectedEof
  deriving DecidableEq, Repr

/-- The name of a kind of error. -/
def IoKind.render : IoKind → String
  | wouldBlock => "WouldBlock"
  | interrupted => "Interrupted"
  | connectionReset => "ConnectionReset"
  | invalidData => "InvalidData"
  | unexpectedEof => "UnexpectedEof"

/-- An error of a byte source. -/
structure IoError where
  kind : IoKind
  message : String
  deriving DecidableEq, Repr

/-- What one read meets. -/
inductive Delivery where
  /-- Octets of the stream. A read takes as many as it asked for; the others stay in front. -/
  | piece (bs : Bytes)
  /-- Nothing for now. -/
  | pause
  /-- An error. -/
  | failing (error : IoError)
  /-- The end of the stream. -/
  | ended
  deriving DecidableEq, Repr

/-- What a read answers; no octets mean the end of the stream. -/
inductive ReadAnswer where
  | octets (bs : Bytes)
  | failed (error : IoError)
  deriving DecidableEq, Repr

/-- A source that says in advance what each read will meet. -/
abbrev Script := List Delivery

namespace Script

/-- The error of a read that would have to wait. -/
def wouldBlock : IoError := ⟨.wouldBlock, "would block"⟩

/-- What is left of a piece, in front of the rest of the script. -/
def putBack (bs : Bytes) (rest : Script) : Script :=
  if bs.isEmpty then rest else .piece bs :: rest

/-- A read of at most `asked` octets that does not wait. -/
def readNow (asked : Nat) : Script → ReadAnswer × Script
  | [] => (.failed wouldBlock, [])
  | .piece bs :: rest =>
    if bs.isEmpty then readNow asked rest
    else (.octets (bs.take asked), putBack (bs.drop asked) rest)
  | .pause :: rest => (.failed wouldBlock, rest)
  | .failing error :: rest => (.failed error, rest)
  | .ended :: rest => (.octets [], rest)

/-- A read of at most `asked` octets that waits for the stream. -/
def readWaiting (asked : Nat) : Script → ReadAnswer × Script
  | [] => (.octets [], [])
  | .piece bs :: rest =>
    if bs.isEmpty then readWaiting asked rest
    else (.octets (bs.take asked), putBack (bs.drop asked) rest)
  | .pause :: rest => readWaiting asked rest
  | .failing error :: rest => (.failed error, rest)
  | .ended :: rest => (.octets [], rest)

/-- How much a script still has to give: its octets and its events. -/
def weight : Script → Nat
  | [] => 0
  | .piece bs :: rest => bs.length + 1 + weight rest
  | .pause :: rest | .failing _ :: rest | .ended :: rest => 1 + weight rest

theorem weight_putBack (bs : Bytes) (rest : Script) :
    weight (putBack bs rest) ≤ bs.length + 1 + weight rest := by
  unfold putBack
  split
  · omega
  · simp [weight]

/-- A read that waits and gives octets moves the script on. -/
theorem readWaiting_weight {asked : Nat} {script rest : Script} {bs : Bytes}
    (given : readWaiting asked script = (.octets bs, rest)) (nonempty : bs ≠ []) :
    rest.weight < script.weight := by
  fun_induction readWaiting asked script with
  | case1 => simp_all
  | case2 piece more h ih => have := ih given; simp only [weight]; omega
  | case3 piece more h =>
    have := weight_putBack (piece.drop asked) more
    simp only [Prod.mk.injEq, ReadAnswer.octets.injEq] at given
    have : 0 < (piece.take asked).length := List.length_pos_iff.2 (given.1 ▸ nonempty)
    rw [← given.2]
    simp only [weight, List.length_drop, List.length_take] at *
    omega
  | case4 more ih => have := ih given; simp only [weight]; omega
  | case5 => simp_all
  | case6 => simp_all

end Script

end Cohort

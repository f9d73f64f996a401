import Cohort.Frame.Draft
import Cohort.Frame.Script

/-!
# Reassembling frames

An `Assembler` puts frames together from a stream that arrives in any pieces. It keeps the octets
of the frame it works on, and whatever arrived of the frames after it. A frame is reported only
once all of it is there; its payload can then be read piece by piece, and the next attempt drops
the frame, read or not.

## Main definitions

* `Assembler.readFrame`: one attempt at the next frame, with at most one read that does not wait.
* `Assembler.readFrameUpTo`: the same with a read that waits, and that takes up to as many octets
  as there is room for; `Assembler.readFrameWaiting` is the case of a chunk.
* `Assembler.nextFrameUpTo`, `Assembler.nextFrame`: attempts until a frame is there.
* `Assembler.remaining`, `Assembler.readPayload`: the payload of the frame.
* `Assembler.decode`: a value from the payload.
-/

namespace Cohort

/-- The octets a read asks for at least. -/
def readChunk : Nat := 4096

/-- Puts frames together from a stream that arrives in any pieces. -/
structure Assembler where
  /-- The current frame from its header on, and what arrived after it. -/
  buffer : Bytes
  /-- The length the current frame declares; zero until its header is there. -/
  length : Nat
  /-- Whether all of the current frame is there. -/
  complete : Bool
  /-- How far the current frame was read. -/
  cursor : Nat
  /-- The greatest length a frame may declare. -/
  limit : Nat
  deriving DecidableEq, Repr

namespace Assembler

/-- Nothing arrived yet. -/
def fresh (limit : Nat) : Assembler where
  buffer := []
  length := 0
  complete := false
  cursor := frameHeader
  limit := limit

/-- Forget everything that arrived. -/
def clear (a : Assembler) : Assembler := fresh a.limit

/-- The unread payload of the current frame. -/
def remaining (a : Assembler) : Bytes :=
  if a.complete then (a.buffer.take a.length).drop a.cursor else []

/-- Whether a part of an unfinished frame arrived. -/
def hasPartial (a : Assembler) : Bool := !a.complete && !a.buffer.isEmpty

/-- Drop the current frame if all of it is there. -/
def advance (a : Assembler) : Assembler :=
  if a.complete then { fresh a.limit with buffer := a.buffer.drop a.length } else a

/-- The error of a header that declares an impossible length. -/
def malformed (declared : Nat) : IoError :=
  ⟨.invalidData, "malformed frame header: length " ++ toString declared⟩

/-- Note that all of the current frame is there, if it is. -/
def finish (a : Assembler) : Bool × Assembler :=
  if a.length ≤ a.buffer.length then (true, { a with complete := true, cursor := frameHeader })
  else (a.complete, a)

/-- Look whether the current frame is there: read its header once that arrived, and check the
length it declares. -/
def settle (a : Assembler) : Except IoError Bool × Assembler :=
  if a.length = 0 then
    if a.buffer.length < frameHeader then (.ok false, a)
    else
      let declared := Bytes.toNatBE (a.buffer.take frameHeader)
      if declared < frameHeader ∨ a.limit < declared then (.error (malformed declared), a)
      else
        let (done, a) := finish { a with length := declared }
        (.ok done, a)
  else
    let (done, a) := finish a
    (.ok done, a)

/-- How many octets to ask for: what the header or the frame lacks, and a chunk at least. -/
def readSize (a : Assembler) : Nat :=
  max ((if a.length = 0 then frameHeader else a.length) - a.buffer.length) readChunk

/-- The error of a stream that ended here. -/
def endError (a : Assembler) : IoError :=
  ⟨.unexpectedEof, if a.buffer.isEmpty then "end of stream" else "stream ended inside a frame"⟩

/-- Take the answer of a read in, where `tolerates` says which errors mean no more than that
nothing arrived. -/
def absorb (tolerates : IoKind → Bool) (a : Assembler) :
    ReadAnswer → Except IoError Bool × Assembler
  | .octets bs =>
    if bs.isEmpty then (.error a.endError, a)
    else settle { a with buffer := a.buffer ++ bs }
  | .failed error => if tolerates error.kind then (.ok false, a) else (.error error, a)

/-- The errors after which a caller that does not wait tries again. -/
def isPassing (kind : IoKind) : Bool := kind = .wouldBlock || kind = .interrupted

/-- One attempt at the next frame, with at most one read that does not wait. True when the frame
is there. -/
def readFrame (a : Assembler) (source : Script) : Except IoError Bool × Assembler × Script :=
  match a.advance.settle with
  | (.ok false, a) =>
    let (answer, source) := source.readNow a.readSize
    let (result, a) := a.absorb isPassing answer
    (result, a, source)
  | (result, a) => (result, a, source)

/-- One attempt at the next frame, with at most one read that waits and takes at most `room` octets.
True when the frame is there. -/
def readFrameUpTo (room : Nat) (a : Assembler) (source : Script) :
    Except IoError Bool × Assembler × Script :=
  match a.advance.settle with
  | (.ok false, a) =>
    let (answer, source) := source.readWaiting room
    let (result, a) := a.absorb (fun _ => false) answer
    (result, a, source)
  | (result, a) => (result, a, source)

/-- One attempt at the next frame, with at most one read that waits for a chunk. -/
def readFrameWaiting (a : Assembler) (source : Script) :
    Except IoError Bool × Assembler × Script :=
  a.readFrameUpTo readChunk source

/-- An attempt that waits and finds the frame unfinished has moved the source on. -/
theorem readFrameUpTo_weight {room : Nat} {a after : Assembler} {source rest : Script}
    (unfinished : a.readFrameUpTo room source = (.ok false, after, rest)) :
    rest.weight < source.weight := by
  unfold readFrameUpTo at unfinished
  split at unfinished
  · rename_i ready _
    generalize answered : source.readWaiting room = read at unfinished
    obtain ⟨answer, left⟩ := read
    simp only [Prod.mk.injEq] at unfinished
    obtain ⟨result, -, same⟩ := unfinished
    cases answer with
    | failed error => simp [absorb] at result
    | octets bs =>
      have nonempty : bs ≠ [] := by
        rintro rfl
        simp [absorb] at result
      exact same ▸ Script.readWaiting_weight answered nonempty
  · rename_i other _
    simp only [Prod.mk.injEq] at unfinished
    exact (other unfinished.1).elim

/-- Attempts that wait, until a frame is there or the stream fails. Each read takes at most `room`
octets. -/
def nextFrameUpTo (room : Nat) (a : Assembler) (source : Script) :
    Except IoError Unit × Assembler × Script :=
  match _attempt : a.readFrameUpTo room source with
  | (.ok true, a, source) => (.ok (), a, source)
  | (.ok false, a, source) => nextFrameUpTo room a source
  | (.error error, a, source) => (.error error, a, source)
termination_by source.weight
decreasing_by exact readFrameUpTo_weight _attempt

/-- Attempts that wait, until a frame is there or the stream fails. -/
def nextFrame (a : Assembler) (source : Script) : Except IoError Unit × Assembler × Script :=
  a.nextFrameUpTo readChunk source

/-- Mark `n` octets of the payload as read. -/
def skip (a : Assembler) (n : Nat) : Assembler := { a with cursor := a.cursor + n }

/-- At most `n` octets of the unread payload; none at its end. -/
def readPayload (a : Assembler) (n : Nat) : Bytes × Assembler :=
  let bs := a.remaining.take n
  (bs, a.skip bs.length)

/-- All of the unread payload. -/
def readAll (a : Assembler) : Bytes × Assembler := a.readPayload a.remaining.length

/-- Exactly `n` octets of the payload; where fewer are left, they are used up. -/
def readExactly (a : Assembler) (n : Nat) : Option Bytes × Assembler :=
  let (bs, a) := a.readPayload n
  (if bs.length = n then some bs else none, a)

/-- A value from the unread payload. Reading stops where the codec stops, in the current frame at
the latest. -/
def decode {α : Type} (codec : Codec α) (a : Assembler) : Outcome α × Assembler :=
  let (value, rest) := codec.read a.remaining
  (match value with
    | some value => .ok value
    | none => .error .codec,
    a.skip (a.remaining.length - rest.length))

end Assembler

end Cohort

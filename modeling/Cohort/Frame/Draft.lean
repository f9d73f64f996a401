import Cohort.Failure
import Cohort.Wire.Codec

/-!
# Writing frames

A frame is four octets that give its whole length, these four included, followed by its payload.
A `Draft` collects the payload of one frame at a time; `Draft.close` finishes it. A frame too long
for four octets is stamped with the greatest number they hold, which no reader with a smaller
limit accepts.

## Main definitions

* `Draft.close`: the finished frame, and a fresh draft.
* `Draft.encode`: a value as one frame, unless the frame would pass a limit.
-/

namespace Cohort

/-- The octets that a frame's length takes. -/
def frameHeader : Nat := 4

/-- The length a frame may have unless another limit is set. -/
def defaultFrameLimit : Nat := 512 * 1024

/-- The payload of a frame that is being written. -/
structure Draft where
  payload : Bytes
  deriving DecidableEq, Repr

namespace Draft

/-- Nothing written yet. -/
def fresh : Draft := ⟨[]⟩

/-- How many octets were written since the last frame. -/
def length (draft : Draft) : Nat := draft.payload.length

/-- More octets. -/
def append (draft : Draft) (bs : Bytes) : Draft := ⟨draft.payload ++ bs⟩

/-- A number in `width` octets, most significant first. -/
def appendNumber (draft : Draft) (width n : Nat) : Draft := draft.append (Bytes.ofNatBE width n)

/-- The length that the frame of so many octets is stamped with. -/
def stamp (length : Nat) : Nat := min length (UInt32.size - 1)

/-- The finished frame. -/
def frame (draft : Draft) : Bytes :=
  Bytes.ofNatBE frameHeader (stamp (draft.length + frameHeader)) ++ draft.payload

/-- The finished frame, and a fresh draft for the next one. -/
def close (draft : Draft) : Bytes × Draft := (draft.frame, fresh)

/-- The frame of a value, unless it is longer than `limit`. What the draft held before is dropped,
and nothing of the value stays in it. -/
def encode {α : Type} (codec : Codec α) (limit : Nat) (a : α) (_ : Draft) :
    Outcome Bytes × Draft :=
  let draft := fresh.append (codec.encode a)
  if draft.length + frameHeader > limit then (.error .invalidParameters, fresh)
  else (.ok draft.frame, fresh)

end Draft

end Cohort

import Cohort.Frame.Assembler

/-!
# Messages over byte streams

One value travels in one frame. A `Sender` writes values into a `Sink`, and a `Receiver` reads
them from a source. Both know the greatest frame they may use: a longer one is refused before any
octet of it is written, and ends the connection when it is announced by the other side.

## Main definitions

* `Sender.send`: write a value as one frame.
* `Receiver.receiveUpTo`, `Receiver.receive`: wait for the next value.
-/

namespace Cohort

/-- A place that octets are written to. It may take them in small steps, and it may fail. -/
structure Sink where
  /-- Everything it took. -/
  taken : Bytes
  /-- The most it takes at once, if bounded. -/
  step : Option Nat
  /-- It fails once it holds so many octets. -/
  capacity : Option Nat
  /-- Whether it takes octets in but never hands them on. -/
  stuck : Bool
  deriving DecidableEq, Repr

namespace Sink

/-- How many octets of `wanted` the sink takes at once while it holds `held`; none when it fails. -/
def room (sink : Sink) (held wanted : Nat) : Nat :=
  let bounded := match sink.step with
    | some step => min wanted step
    | none => wanted
  match sink.capacity with
  | some capacity => min bounded (capacity - held)
  | none => bounded

/-- A sink takes no more at once than it is given. -/
theorem room_le (sink : Sink) (held wanted : Nat) : sink.room held wanted ≤ wanted := by
  unfold room
  cases sink.step <;> cases sink.capacity <;> simp only <;> omega

/-- How many octets a sink that holds `held` will hold after `wanted` more were offered, in as many
steps as it wants. A step that takes nothing is the last. -/
def heldAfter (sink : Sink) (held wanted : Nat) : Nat :=
  let n := sink.room held wanted
  if _stopped : n = 0 then held else heldAfter sink (held + n) (wanted - n)
termination_by wanted
decreasing_by
  have := sink.room_le held wanted
  have : sink.room held wanted ≠ 0 := _stopped
  omega

/-- Write octets. It has failed if the sink did not take all of them; what it took stays taken. -/
def write (sink : Sink) (bs : Bytes) : Outcome Unit × Sink :=
  let held := sink.taken.length
  let n := sink.heldAfter held bs.length - held
  (if n < bs.length then .error .network else .ok (),
    { sink with taken := sink.taken ++ bs.take n })

end Sink

/-- Writes values into a sink, one frame each. -/
structure Sender where
  sink : Sink
  draft : Draft
  limit : Nat

namespace Sender

/-- A sender that wrote nothing yet. -/
def fresh (sink : Sink) (limit : Nat) : Sender := ⟨sink, .fresh, limit⟩

/-- Write a value as one frame and hand it on. A value whose frame would pass the limit leaves the
sink alone. -/
def send {α : Type} (codec : Codec α) (a : α) (sender : Sender) : Outcome Unit × Sender :=
  match sender.draft.encode codec sender.limit a with
  | (.error failure, draft) => (.error failure, { sender with draft })
  | (.ok frame, draft) =>
    let (result, sink) := sender.sink.write frame
    let sender := { sender with sink, draft }
    match result with
    | .error failure => (.error failure, sender)
    | .ok () => (if sink.stuck then .error .network else .ok (), sender)

end Sender

/-- Reads values from a source, one frame each. -/
structure Receiver where
  source : Script
  frames : Assembler

namespace Receiver

/-- A receiver that read nothing yet. -/
def fresh (source : Script) (limit : Nat) : Receiver := ⟨source, .fresh limit⟩

/-- What an error of the source means for the connection. -/
def failureOf (frames : Assembler) (error : IoError) : Failure :=
  match error.kind with
  | .invalidData => .malformedFrame
  | .unexpectedEof => if frames.hasPartial then .truncatedFrame else .network
  | _ => .network

/-- Wait for the next value; each read takes at most `room` octets. After a failure nothing that
arrived is kept. -/
def receiveUpTo {α : Type} (room : Nat) (codec : Codec α) (receiver : Receiver) :
    Outcome α × Receiver :=
  match receiver.frames.nextFrameUpTo room receiver.source with
  | (.error error, frames, source) => (.error (failureOf frames error), ⟨source, frames.clear⟩)
  | (.ok (), frames, source) =>
    match frames.decode codec with
    | (.error failure, frames) => (.error failure, ⟨source, frames.clear⟩)
    | (.ok a, frames) => (.ok a, ⟨source, frames⟩)

/-- Wait for the next value. -/
def receive {α : Type} (codec : Codec α) (receiver : Receiver) : Outcome α × Receiver :=
  receiver.receiveUpTo readChunk codec

end Receiver

end Cohort

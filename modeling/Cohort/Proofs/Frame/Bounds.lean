import Cohort.Proofs.Frame.Lengths

/-!
# The buffer of an assembler

An assembler computes with places in its buffer: where the current frame ends, how far it was read,
and how many octets are still missing. `Assembler.perform?` does what `Assembler.perform` does and
checks every such place: it gives up where one is out of range. It never does, whatever is done
with an assembler and whatever its sources answer, also after errors. And the buffer stays small: no
source makes it hold a chunk more than the longest frame, as long as no read takes more than a
chunk.

## Main definitions

* `ReadOp`: what can be done with an assembler; `Assembler.perform`: what comes of it.
* `Assembler.Checks`: what the check of a frame may come to.
* `Assembler.Proper`: what holds of an assembler between operations.
* `Assembler.perform?`: the same as `Assembler.perform`, with every place checked.

## Main statements

* `Assembler.settle_checks`: what the check of a frame comes to.
* `Assembler.Proper.perform`: every operation leaves a proper assembler behind.
* `Assembler.perform?_eq`: no place is ever out of range.
* `Assembler.places_stay_in_range`: what holds after any operations.
-/

namespace Cohort

/-- What can be done with an assembler. Each attempt at a frame may find another source. -/
inductive ReadOp where
  /-- An attempt at the next frame that does not wait. -/
  | attempt (source : Script)
  /-- An attempt at the next frame that waits and reads at most so many octets. -/
  | attemptUpTo (room : Nat) (source : Script)
  /-- Read at most so many octets of the payload. -/
  | readPayload (n : Nat)
  /-- Look at the unread payload. -/
  | remaining
  /-- Look whether a part of an unfinished frame is there. -/
  | hasPartial
  /-- Forget everything. -/
  | clear
  deriving DecidableEq

/-- The operation reads no more than a chunk at a time, if it waits. -/
def ReadOp.IsModest : ReadOp → Prop
  | .attemptUpTo room _ => room ≤ readChunk
  | _ => True

/-! ## What reads give -/

namespace Script

variable {source : Script} {asked : Nat}

theorem length_given_readNow : (source.readNow asked).1.given.length ≤ asked := by
  fun_induction readNow asked source with
  | case3 bs rest => exact List.length_take_le asked bs
  | case2 bs rest empty ih => exact ih
  | _ => exact Nat.zero_le asked

theorem length_given_readWaiting : (source.readWaiting asked).1.given.length ≤ asked := by
  fun_induction readWaiting asked source with
  | case3 bs rest => exact List.length_take_le asked bs
  | case2 bs rest empty ih => exact ih
  | case4 rest ih => exact ih
  | _ => exact Nat.zero_le asked

end Script

namespace Assembler

variable {a : Assembler} {source : Script}

/-- What comes of an operation. -/
def perform (a : Assembler) : ReadOp → Assembler
  | .attempt source => (a.readFrame source).2.1
  | .attemptUpTo room source => (a.readFrameUpTo room source).2.1
  | .readPayload n => (a.readPayload n).2
  | .remaining | .hasPartial => a
  | .clear => a.clear

/-- The assembler after operations. -/
def after (a : Assembler) (ops : List ReadOp) : Assembler := ops.foldl perform a

/-! ## One check of a frame -/

/-- What the check of a frame may come to: all of the frame is there, or its header is not, or its
payload is not, or the header is impossible. -/
inductive Checks (a : Assembler) : Except IoError Bool × Assembler → Prop
  | whole {length : Nat} (header : frameHeader ≤ a.buffer.length)
      (declares : Bytes.toNatBE (a.buffer.take frameHeader) = length)
      (possible : frameHeader ≤ length ∧ length ≤ a.limit) (whole : length ≤ a.buffer.length) :
      Checks a (.ok true, { a with length, complete := true, cursor := frameHeader })
  | headless (unknown : a.length = 0) (short : a.buffer.length < frameHeader) :
      Checks a (.ok false, a)
  | short {length : Nat} (header : frameHeader ≤ a.buffer.length)
      (declares : Bytes.toNatBE (a.buffer.take frameHeader) = length)
      (possible : frameHeader ≤ length ∧ length ≤ a.limit) (short : a.buffer.length < length) :
      Checks a (.ok false, { a with length })
  | malformed (header : frameHeader ≤ a.buffer.length)
      (impossible : Bytes.toNatBE (a.buffer.take frameHeader) < frameHeader ∨
        a.limit < Bytes.toNatBE (a.buffer.take frameHeader)) :
      Checks a (.error (malformed (Bytes.toNatBE (a.buffer.take frameHeader))), a)

/-- What the check of a frame with a known length comes to. -/
theorem finish_checks (unfinished : a.complete = false) {length : Nat}
    (header : frameHeader ≤ a.buffer.length)
    (declares : Bytes.toNatBE (a.buffer.take frameHeader) = length)
    (possible : frameHeader ≤ length ∧ length ≤ a.limit) :
    Checks a (.ok (finish { a with length }).1, (finish { a with length }).2) := by
  by_cases whole : length ≤ a.buffer.length
  · rw [finish, if_pos whole]
    exact .whole header declares possible whole
  · rw [finish, if_neg whole]
    show Checks a (.ok a.complete, { a with length })
    exact (congrArg (fun complete => Checks a (.ok complete, { a with length })) unfinished).mpr
      (.short header declares possible (Nat.lt_of_not_le whole))

theorem settle_checks (sound : a.Sound) (unfinished : a.complete = false) : Checks a a.settle := by
  by_cases unknown : a.length = 0
  · by_cases short : a.buffer.length < frameHeader
    · rw [settle, if_pos unknown, if_pos short]
      exact .headless unknown short
    · have header := Nat.le_of_not_lt short
      by_cases impossible : Bytes.toNatBE (a.buffer.take frameHeader) < frameHeader ∨
          a.limit < Bytes.toNatBE (a.buffer.take frameHeader)
      · simp only [settle, if_pos unknown, if_neg short, if_pos impossible]
        exact .malformed header impossible
      · simp only [settle, if_pos unknown, if_neg short, if_neg impossible]
        rw [not_or, Nat.not_lt, Nat.not_lt] at impossible
        exact finish_checks unfinished header rfl impossible
  · obtain ⟨header, declares, possible⟩ := sound.header unknown
    simp only [settle, if_neg unknown]
    exact finish_checks unfinished header declares possible

/-! ## What holds between operations -/

/-- An assembler knows what it has of a frame, and its cursor is inside of a frame that is there. -/
structure Proper (a : Assembler) : Prop extends Sound a where
  cursor : a.complete = true → frameHeader ≤ a.cursor ∧ a.cursor ≤ a.length

theorem proper_fresh (limit : Nat) : (fresh limit).Proper := ⟨sound_fresh limit, nofun⟩

/-- An assembler without a finished frame is proper if it knows what it has of the frame. -/
theorem Sound.proper (sound : a.Sound) (unfinished : a.complete = false) : a.Proper :=
  ⟨sound, fun complete => by rw [complete] at unfinished; cases unfinished⟩

/-- The check of a frame leaves a proper assembler behind and takes no octets in. -/
theorem Checks.proper (sound : a.Sound) (unfinished : a.complete = false)
    {result : Except IoError Bool × Assembler} (checks : Checks a result) :
    result.2.Proper ∧ result.2.limit = a.limit ∧ result.2.buffer = a.buffer := by
  have width : frameHeader = 4 := rfl
  cases checks with
  | @whole length header declares possible whole =>
    have known : length ≠ 0 := by omega
    exact ⟨⟨⟨fun _ => ⟨header, declares, possible⟩, fun _ => ⟨known, whole⟩⟩,
      fun _ => ⟨Nat.le_refl _, possible.1⟩⟩, rfl, rfl⟩
  | headless unknown short => exact ⟨sound.proper unfinished, rfl, rfl⟩
  | @short length header declares possible short =>
    have sound' : Sound { a with length } :=
      ⟨fun _ => ⟨header, declares, possible⟩, fun complete => by
        rw [show a.complete = true from complete] at unfinished; cases unfinished⟩
    exact ⟨sound'.proper unfinished, rfl, rfl⟩
  | malformed header impossible => exact ⟨sound.proper unfinished, rfl, rfl⟩

theorem Proper.advance (proper : a.Proper) :
    a.advance.Sound ∧ a.advance.complete = false ∧ a.advance.limit = a.limit ∧
      a.advance.buffer.length ≤ a.buffer.length := by
  obtain ⟨sound, unfinished, limit⟩ := proper.toSound.advance
  refine ⟨sound, unfinished, limit, ?_⟩
  unfold Assembler.advance
  split
  · exact List.length_drop ▸ Nat.sub_le ..
  · exact Nat.le_refl _

/-- Taking an answer in leaves a proper assembler behind, with as many octets more as came. -/
theorem absorb_proper (sound : a.Sound) (unfinished : a.complete = false)
    (tolerates : IoKind → Bool) (answer : ReadAnswer) :
    (a.absorb tolerates answer).2.Proper ∧ (a.absorb tolerates answer).2.limit = a.limit ∧
      (a.absorb tolerates answer).2.buffer.length = a.buffer.length + answer.given.length := by
  cases answer with
  | failed error =>
    rw [absorb]
    split <;> exact ⟨sound.proper unfinished, rfl, rfl⟩
  | octets bs =>
    rw [absorb]
    split
    next empty =>
      obtain rfl : bs = [] := List.isEmpty_iff.1 empty
      exact ⟨sound.proper unfinished, rfl, rfl⟩
    next =>
      have sound' := sound.append unfinished bs
      obtain ⟨proper, limit, buffer⟩ := (settle_checks sound' unfinished).proper sound' unfinished
      exact ⟨proper, limit, buffer ▸ List.length_append⟩

/-- How many octets the buffer comes to hold at most, if no read takes more than is asked for. -/
def capacity (limit : Nat) : Nat := max limit frameHeader + (readChunk - 1)

/-- Where octets are asked for, some are missing, and what is asked for has room. -/
theorem Checks.room {b : Assembler} (checks : Checks a (.ok false, b)) :
    b.buffer.length < (if b.length = 0 then frameHeader else b.length) ∧
      b.buffer.length + b.readSize ≤ capacity b.limit := by
  have width : frameHeader = 4 := rfl
  have chunk : readChunk = 4096 := rfl
  unfold capacity readSize
  cases checks with
  | headless unknown short =>
    rw [if_pos unknown]
    omega
  | @short length header declares possible short =>
    dsimp only
    rw [if_neg (by omega : length ≠ 0)]
    omega

/-- An attempt at a frame, by whatever kind of read. -/
def attemptBy (tolerates : IoKind → Bool) (read : Nat → ReadAnswer × Script) (source : Script)
    (a : Assembler) : Except IoError Bool × Assembler × Script :=
  match a.advance.settle with
  | (.ok false, a) =>
    let (result, b) := a.absorb tolerates (read a.readSize).1
    (result, b, (read a.readSize).2)
  | (result, a) => (result, a, source)

theorem readFrame_eq (a : Assembler) (source : Script) :
    a.readFrame source = a.attemptBy isPassing (fun size => source.readNow size) source := rfl

theorem readFrameUpTo_eq (room : Nat) (a : Assembler) (source : Script) :
    a.readFrameUpTo room source =
      a.attemptBy (fun _ => false) (fun _ => source.readWaiting room) source := rfl

/-- An attempt leaves a proper assembler behind. Its buffer stays within its capacity if the read
takes no more than is asked for. -/
theorem Proper.attemptBy (proper : a.Proper) (tolerates : IoKind → Bool)
    (read : Nat → ReadAnswer × Script) (source : Script) :
    (a.attemptBy tolerates read source).2.1.Proper ∧
      (a.attemptBy tolerates read source).2.1.limit = a.limit ∧
      ((∀ size, readChunk ≤ size → (read size).1.given.length ≤ size) →
        a.buffer.length ≤ capacity a.limit →
        (a.attemptBy tolerates read source).2.1.buffer.length ≤ capacity a.limit) := by
  obtain ⟨sound, unfinished, limit, shorter⟩ := proper.advance
  have checks := settle_checks sound unfinished
  have kept := checks.proper sound unfinished
  unfold Assembler.attemptBy
  generalize a.advance.settle = settled at checks kept
  obtain ⟨proper', limit', buffer⟩ := kept
  split
  next b =>
    have open_ : b.complete = false := by cases checks <;> exact unfinished
    obtain ⟨proper'', limit'', grown⟩ :=
      absorb_proper proper'.toSound open_ tolerates (read b.readSize).1
    have same : b.limit = a.limit := limit'.trans limit
    refine ⟨proper'', limit''.trans same, fun takes _ => ?_⟩
    have asked := takes b.readSize (Nat.le_max_right _ _)
    have roomy := same ▸ checks.room.2
    exact grown.le.trans ((Nat.add_le_add_left asked _).trans roomy)
  next => exact ⟨proper', limit'.trans limit, fun _ within => (buffer ▸ shorter).trans within⟩

theorem Proper.skip (proper : a.Proper) {n : Nat} (fits : n ≤ a.remaining.length) :
    (a.skip n).Proper := by
  refine ⟨proper.toSound.skip n, fun complete => ?_⟩
  have complete : a.complete = true := complete
  obtain ⟨least, most⟩ := proper.cursor complete
  obtain ⟨-, whole⟩ := proper.whole complete
  rw [remaining, if_pos complete, List.length_drop, List.length_take] at fits
  show frameHeader ≤ a.cursor + n ∧ a.cursor + n ≤ a.length
  omega

/-- Every operation leaves a proper assembler behind, and one that reads no more than a chunk at a
time leaves the buffer within its capacity. -/
theorem Proper.perform (proper : a.Proper) (op : ReadOp) :
    (a.perform op).Proper ∧ (a.perform op).limit = a.limit ∧
      (op.IsModest → a.buffer.length ≤ capacity a.limit →
        (a.perform op).buffer.length ≤ capacity a.limit) := by
  cases op with
  | attempt source =>
    obtain ⟨proper', limit, within⟩ :=
      proper.attemptBy isPassing (fun size => source.readNow size) source
    exact ⟨proper', limit, fun _ => within fun _ _ => Script.length_given_readNow⟩
  | attemptUpTo room source =>
    obtain ⟨proper', limit, within⟩ :=
      proper.attemptBy (fun _ => false) (fun _ => source.readWaiting room) source
    exact ⟨proper', limit, fun modest => within fun _ chunk =>
      (Script.length_given_readWaiting.trans modest).trans chunk⟩
  | readPayload n =>
    exact ⟨proper.skip (List.length_take_le' n a.remaining), rfl, fun _ => id⟩
  | remaining => exact ⟨proper, rfl, fun _ => id⟩
  | hasPartial => exact ⟨proper, rfl, fun _ => id⟩
  | clear => exact ⟨proper_fresh a.limit, rfl, fun _ _ => Nat.zero_le _⟩

theorem Proper.after (proper : a.Proper) (ops : List ReadOp) :
    (a.after ops).Proper ∧ (a.after ops).limit = a.limit ∧
      ((∀ op ∈ ops, op.IsModest) → a.buffer.length ≤ capacity a.limit →
        (a.after ops).buffer.length ≤ capacity a.limit) := by
  induction ops generalizing a with
  | nil => exact ⟨proper, rfl, fun _ => id⟩
  | cons op ops ih =>
    obtain ⟨proper', limit, within⟩ := proper.perform op
    obtain ⟨proper'', limit', within'⟩ := ih proper'
    rw [limit] at within'
    refine ⟨proper'', limit'.trans limit, fun modest fits => ?_⟩
    obtain ⟨first, others⟩ := List.forall_mem_cons.1 modest
    exact within' others (within first fits)

end Assembler

/-! ## Every place checked -/

/-- What is left of a number when another is taken off, if it is not less. -/
def minus? (m n : Nat) : Option Nat := if n ≤ m then some (m - n) else none

namespace Bytes

/-- The octets from one place on and before another, if these are in range and in order. -/
def slice? (bs : Bytes) (first last : Nat) : Option Bytes :=
  if first ≤ last ∧ last ≤ bs.length then some ((bs.take last).drop first) else none

/-- Write octets over those from some place on, if there are as many. -/
def overwrite? (bs : Bytes) (first : Nat) (new : Bytes) : Option Bytes :=
  if first + new.length ≤ bs.length then
    some (bs.take first ++ new ++ bs.drop (first + new.length))
  else none

theorem slice?_eq {bs : Bytes} {first last : Nat} (order : first ≤ last)
    (range : last ≤ bs.length) : bs.slice? first last = some ((bs.take last).drop first) :=
  if_pos ⟨order, range⟩

/-- Octets that are written over the beginning of what a buffer was stretched by stand behind what
it held. -/
theorem overwrite?_stretched (bs new : Bytes) {room : Nat} (fits : new.length ≤ room) :
    overwrite? (bs ++ List.replicate room 0) bs.length new =
      some (bs ++ new ++ List.replicate (room - new.length) 0) := by
  have range : bs.length + new.length ≤ (bs ++ List.replicate room 0).length := by
    rw [List.length_append, List.length_replicate]
    omega
  rw [overwrite?, if_pos range, List.take_left, ← List.drop_drop, List.drop_left,
    List.drop_replicate]

end Bytes

namespace Assembler

variable {a : Assembler} {source : Script}

/-- Drop the current frame if all of it is there. -/
def advance? (a : Assembler) : Option Assembler :=
  if a.complete then do
    let rest ← a.buffer.slice? a.length a.buffer.length
    return { fresh a.limit with buffer := rest }
  else return a

/-- Look whether the current frame is there. -/
def settle? (a : Assembler) : Option (Except IoError Bool × Assembler) :=
  if a.length = 0 then
    if a.buffer.length < frameHeader then return (.ok false, a)
    else do
      let header ← a.buffer.slice? 0 frameHeader
      let declared := Bytes.toNatBE header
      if declared < frameHeader ∨ a.limit < declared then return (.error (malformed declared), a)
      else
        let (done, a) := finish { a with length := declared }
        return (.ok done, a)
  else
    let (done, a) := finish a
    return (.ok done, a)

/-- How many octets to ask for. -/
def readSize? (a : Assembler) : Option Nat := do
  let missing ← minus? (if a.length = 0 then frameHeader else a.length) a.buffer.length
  return max missing readChunk

/-- Take the answer of a read in. The buffer was stretched for it, the read wrote over the new
places, and those that it left are cut off. -/
def absorb? (tolerates : IoKind → Bool) (room : Nat) (a : Assembler) (answer : ReadAnswer) :
    Option (Except IoError Bool × Assembler) := do
  let stretched := a.buffer ++ List.replicate room 0
  let filled ← stretched.overwrite? a.buffer.length answer.given
  let a := { a with buffer := filled.take (a.buffer.length + answer.given.length) }
  match answer with
  | .octets bs => if bs.isEmpty then return (.error a.endError, a) else a.settle?
  | .failed error => return if tolerates error.kind then (.ok false, a) else (.error error, a)

/-- An attempt at a frame, by a read that is given so much room. -/
def attemptBy? (tolerates : IoKind → Bool) (room : Nat → Nat) (read : Nat → ReadAnswer × Script)
    (source : Script) (a : Assembler) : Option (Except IoError Bool × Assembler × Script) := do
  let a ← a.advance?
  match ← a.settle? with
  | (.ok false, a) =>
    let size ← a.readSize?
    let (answer, rest) := read (room size)
    let (result, a) ← a.absorb? tolerates (room size) answer
    return (result, a, rest)
  | (result, a) => return (result, a, source)

/-- The unread payload of the current frame. -/
def remaining? (a : Assembler) : Option Bytes :=
  if a.complete then a.buffer.slice? a.cursor a.length else return []

/-- Copy octets of the payload over the beginning of `n` places, as many as there are. -/
def readPayload? (a : Assembler) (n : Nat) : Option (Bytes × Assembler) := do
  let rest ← a.remaining?
  let bs ← rest.slice? 0 (min n rest.length)
  let _ ← Bytes.overwrite? (List.replicate n 0) 0 bs
  return (bs, a.skip bs.length)

/-- What comes of an operation, unless it meets a place that is out of range. -/
def perform? (a : Assembler) : ReadOp → Option Assembler
  | .attempt source => do
    let (_, a, _) ← a.attemptBy? isPassing id (fun room => source.readNow room) source
    return a
  | .attemptUpTo room source => do
    let (_, a, _) ← a.attemptBy? (fun _ => false) (fun _ => room)
      (fun room => source.readWaiting room) source
    return a
  | .readPayload n => do
    let (_, a) ← a.readPayload? n
    return a
  | .remaining => do
    let _ ← a.remaining?
    return a
  | .hasPartial => return a
  | .clear => return a.clear

theorem advance?_eq (proper : a.Proper) : a.advance? = some a.advance := by
  unfold advance? Assembler.advance
  split
  next complete =>
    rw [Bytes.slice?_eq (proper.whole complete).2 (Nat.le_refl _), List.take_length]
    rfl
  next => rfl

theorem settle?_eq (a : Assembler) : a.settle? = some a.settle := by
  unfold settle? Assembler.settle
  split
  · split
    next => rfl
    next long =>
      rw [Bytes.slice?_eq (Nat.zero_le _) (Nat.le_of_not_lt long), List.drop_zero]
      simp only [Option.pure_def, Option.bind_eq_bind, Option.bind_some]
      split <;> rfl
  · rfl

theorem readSize?_eq
    (missing : a.buffer.length < if a.length = 0 then frameHeader else a.length) :
    a.readSize? = some a.readSize := by
  rw [readSize?, minus?, if_pos missing.le]
  rfl

theorem absorb?_eq (tolerates : IoKind → Bool) {room : Nat} {answer : ReadAnswer}
    (fits : answer.given.length ≤ room) :
    a.absorb? tolerates room answer = some (a.absorb tolerates answer) := by
  have cut : (a.buffer ++ answer.given ++ List.replicate (room - answer.given.length) 0).take
      (a.buffer.length + answer.given.length) = a.buffer ++ answer.given :=
    List.take_left' List.length_append
  rw [absorb?, Bytes.overwrite?_stretched _ _ fits]
  simp only [Option.bind_eq_bind, Option.bind_some, cut]
  cases answer with
  | failed error =>
    simp only [ReadAnswer.given, List.append_nil, Assembler.absorb]
    rfl
  | octets bs =>
    simp only [ReadAnswer.given, Assembler.absorb]
    split
    next empty =>
      obtain rfl : bs = [] := List.isEmpty_iff.1 empty
      simp only [List.append_nil]
      rfl
    next => rw [settle?_eq]

/-- No place is out of range in an attempt, if the read takes no more than there is room for. -/
theorem attemptBy?_eq (proper : a.Proper) (tolerates : IoKind → Bool) (room : Nat → Nat)
    {read : Nat → ReadAnswer × Script} (takes : ∀ n, (read n).1.given.length ≤ n)
    (source : Script) :
    a.attemptBy? tolerates room read source =
      some (a.attemptBy tolerates (fun size => read (room size)) source) := by
  obtain ⟨sound, unfinished, -, -⟩ := proper.advance
  have checks := settle_checks sound unfinished
  rw [attemptBy?, advance?_eq proper, Assembler.attemptBy]
  simp only [Option.bind_eq_bind, Option.bind_some, settle?_eq]
  generalize a.advance.settle = settled at checks
  split
  next b =>
    simp only [readSize?_eq checks.room.1, absorb?_eq tolerates (takes _), Option.bind_some]
    rfl
  next => rfl

theorem remaining?_eq (proper : a.Proper) : a.remaining? = some a.remaining := by
  unfold remaining? Assembler.remaining
  split
  next complete =>
    exact Bytes.slice?_eq (proper.cursor complete).2 (proper.whole complete).2
  next => rfl

theorem readPayload?_eq (proper : a.Proper) (n : Nat) :
    a.readPayload? n = some (a.readPayload n) := by
  have copied : a.remaining.take (min n a.remaining.length) = a.remaining.take n := by
    rw [List.take_eq_take_iff]
    omega
  have fits : (a.remaining.take n).length ≤ n := List.length_take_le ..
  have room := Bytes.overwrite?_stretched [] _ fits
  rw [List.nil_append, List.length_nil] at room
  rw [readPayload?, remaining?_eq proper]
  simp only [Option.bind_eq_bind, Option.bind_some]
  rw [Bytes.slice?_eq (Nat.zero_le _) (Nat.min_le_right ..), List.drop_zero, copied]
  simp only [Option.bind_some]
  rw [room]
  rfl

/-- An operation on a proper assembler meets no place that is out of range. -/
theorem Proper.perform?_eq (proper : a.Proper) (op : ReadOp) :
    a.perform? op = some (a.perform op) := by
  cases op with
  | attempt source =>
    rw [perform?, attemptBy?_eq proper isPassing id (fun _ => Script.length_given_readNow)]
    rfl
  | attemptUpTo room source =>
    rw [perform?, attemptBy?_eq proper _ _ (fun _ => Script.length_given_readWaiting)]
    rfl
  | readPayload n =>
    rw [perform?, readPayload?_eq proper]
    rfl
  | remaining =>
    rw [perform?, remaining?_eq proper]
    rfl
  | hasPartial => rfl
  | clear => rfl

/-- The assembler after operations, unless one of them meets a place that is out of range. -/
def after? (a : Assembler) (ops : List ReadOp) : Option Assembler := ops.foldlM perform? a

theorem Proper.after?_eq (proper : a.Proper) (ops : List ReadOp) :
    a.after? ops = some (a.after ops) := by
  induction ops generalizing a with
  | nil => rfl
  | cons op ops ih =>
    rw [after?, List.foldlM_cons, proper.perform?_eq op]
    exact ih (proper.perform op).1

/-- Whatever is done with an assembler, and whatever its sources answer, no place in a buffer is
ever out of range and nothing is taken off a smaller number. A frame that is there reaches from its
header to its end inside of the buffer, the cursor is inside of the frame, and the frame is within
the limit. The buffer is never stretched by more than a chunk beyond the longest frame, and never
holds more if no read takes more than a chunk. -/
theorem places_stay_in_range (limit : Nat) (ops : List ReadOp) :
    let a := (fresh limit).after ops
    (fresh limit).after? ops = some a ∧
    (a.complete = true → 4 ≤ a.cursor ∧ a.cursor ≤ a.length ∧ a.length ≤ a.buffer.length ∧
      a.length ≤ limit) ∧
    (∀ b, a.advance.settle = (.ok false, b) →
      b.buffer.length < (if b.length = 0 then 4 else b.length) ∧
        b.buffer.length + b.readSize ≤ max limit 4 + 4095) ∧
    ((∀ op ∈ ops, op.IsModest) → a.buffer.length ≤ max limit 4 + 4095) := by
  intro a
  obtain ⟨proper, same, within⟩ := (proper_fresh limit).after ops
  change a.limit = limit at same
  refine ⟨(proper_fresh limit).after?_eq ops, fun complete => ?_, fun b short => ?_,
    fun modest => within modest (Nat.zero_le _)⟩
  · obtain ⟨least, most⟩ := proper.cursor complete
    obtain ⟨known, whole⟩ := proper.whole complete
    exact ⟨least, most, whole, same ▸ (proper.header known).2.2.2⟩
  · obtain ⟨sound, unfinished, kept, -⟩ := proper.advance
    have checks := settle_checks sound unfinished
    have limits := (checks.proper sound unfinished).2.1.trans kept
    rw [short] at checks limits
    have room := checks.room
    rw [show b.limit = limit from limits.trans same] at room
    exact room

/-- A header beyond the limit comes, and more after it; then everything is forgotten, a read fails,
a frame comes in two pieces with a header behind it, and one octet of it is read. -/
def hostileOps : List ReadOp :=
  [.attempt [.piece [0, 0, 0, 9]], .attempt [.piece [1]], .clear,
    .attemptUpTo 3 [.failing ⟨.connectionReset, "reset"⟩],
    .attemptUpTo 3 [.pause, .piece [0, 0, 0, 6]], .attempt [],
    .attempt [.piece [6, 1, 2, 0, 0, 0, 9]], .readPayload 1]

theorem places_stay_in_range_in_hostileOps :
    (∀ op ∈ hostileOps, op.IsModest) ∧
    let a := (fresh 8).after hostileOps
    (fresh 8).after? hostileOps = some a ∧ a.complete = true ∧ a.remaining = [2] ∧
      (4 ≤ a.cursor ∧ a.cursor ≤ a.length ∧ a.length ≤ a.buffer.length ∧ a.length ≤ 8) ∧
      a.buffer.length ≤ 4103 := by
  have modest : ∀ op ∈ hostileOps, op.IsModest := by
    simp [hostileOps, ReadOp.IsModest, readChunk]
  have complete : ((fresh 8).after hostileOps).complete = true := by decide
  obtain ⟨checked, places, -, within⟩ := places_stay_in_range 8 hostileOps
  exact ⟨modest, checked, complete, by decide, places complete, within modest⟩

end Assembler

end Cohort

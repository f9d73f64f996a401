import Cohort.Frame.Assembler
import Mathlib.Tactic.Common

/-!
# Frames arrive as they were sent

What an assembler reports depends on the octets that arrive and on nothing else: not on how they
are cut into pieces, not on pauses and errors in between, and not on how much of a payload is read
before the next attempt. `parseFrames` reads the frames off the whole stream at once, and every run
of attempts reports the same frames in the same order, and the same end.

## Main definitions

* `parseFrames`: the frames of a stream, and how the stream ends.
* `Script.stream`, `Script.failures`: what a script delivers, and the errors in between.
* `Assembler.Makes`: what one attempt may come to.
* `Assembler.reports`: what a caller sees who attempts again and again.

## Main statements

* `Assembler.readFrame_makes`, `Assembler.readFrameUpTo_makes`: what one attempt comes to.
* `Assembler.reports_eq_parse`: however a stream arrives, its frames are reported.
-/

namespace Cohort

/-! ## The frames of a stream -/

/-- How a stream of frames ends. -/
inductive StreamEnd where
  /-- After a frame. -/
  | clean
  /-- Inside a frame. -/
  | truncated
  /-- With a header that declares an impossible length. -/
  | malformed (declared : Nat)
  deriving DecidableEq

/-- The payloads of the frames that a stream holds, in order, and how the stream ends. -/
def parseFrames (limit : Nat) (stream : Bytes) : List Bytes × StreamEnd :=
  if _short : stream.length < frameHeader then
    ([], if stream.isEmpty then .clean else .truncated)
  else
    let declared := Bytes.toNatBE (stream.take frameHeader)
    if _possible : declared < frameHeader ∨ limit < declared then ([], .malformed declared)
    else if stream.length < declared then ([], .truncated)
    else
      let (payloads, ending) := parseFrames limit (stream.drop declared)
      ((stream.take declared).drop frameHeader :: payloads, ending)
termination_by stream.length
decreasing_by
  have width : frameHeader = 4 := rfl
  rw [List.length_drop]
  omega

section Parse

variable {limit : Nat} {stream : Bytes}

theorem parseFrames_short (short : stream.length < frameHeader) :
    parseFrames limit stream = ([], if stream.isEmpty then .clean else .truncated) := by
  rw [parseFrames, dif_pos short]

theorem parseFrames_malformed (header : frameHeader ≤ stream.length) {declared : Nat}
    (declares : Bytes.toNatBE (stream.take frameHeader) = declared)
    (impossible : declared < frameHeader ∨ limit < declared) :
    parseFrames limit stream = ([], .malformed declared) := by
  subst declares
  rw [parseFrames, dif_neg (Nat.not_lt.2 header), dif_pos impossible]

theorem parseFrames_truncated (header : frameHeader ≤ stream.length) {declared : Nat}
    (declares : Bytes.toNatBE (stream.take frameHeader) = declared)
    (possible : frameHeader ≤ declared ∧ declared ≤ limit) (short : stream.length < declared) :
    parseFrames limit stream = ([], .truncated) := by
  subst declares
  have possible' : ¬ (Bytes.toNatBE (stream.take frameHeader) < frameHeader ∨
      limit < Bytes.toNatBE (stream.take frameHeader)) := by omega
  rw [parseFrames, dif_neg (Nat.not_lt.2 header), dif_neg possible', if_pos short]

theorem parseFrames_frame (header : frameHeader ≤ stream.length) {declared : Nat}
    (declares : Bytes.toNatBE (stream.take frameHeader) = declared)
    (possible : frameHeader ≤ declared ∧ declared ≤ limit) (whole : declared ≤ stream.length) :
    parseFrames limit stream =
      ((stream.take declared).drop frameHeader :: (parseFrames limit (stream.drop declared)).1,
        (parseFrames limit (stream.drop declared)).2) := by
  subst declares
  have possible' : ¬ (Bytes.toNatBE (stream.take frameHeader) < frameHeader ∨
      limit < Bytes.toNatBE (stream.take frameHeader)) := by omega
  rw [parseFrames, dif_neg (Nat.not_lt.2 header), dif_neg possible', if_neg (Nat.not_lt.2 whole)]

end Parse

/-! ## What a script delivers -/

namespace Script

/-- The octets that a script delivers before the stream ends. -/
def stream : Script → Bytes
  | [] | .ended :: _ => []
  | .piece bs :: rest => bs ++ stream rest
  | .pause :: rest | .failing _ :: rest => stream rest

/-- The errors of the source before the stream ends, in order, without those that mean no more than
that nothing arrived. -/
def failures (tolerates : IoKind → Bool) : Script → List IoError
  | [] | .ended :: _ => []
  | .piece _ :: rest | .pause :: rest => failures tolerates rest
  | .failing error :: rest =>
    if tolerates error.kind then failures tolerates rest else error :: failures tolerates rest

/-- What a read makes of a script. The stream goes on where the read stopped, and an error that
counts as one is the next of the source. -/
inductive Meets (tolerates : IoKind → Bool) (source rest : Script) : ReadAnswer → Prop
  | octets {bs : Bytes} (nonempty : bs ≠ []) (stream : source.stream = bs ++ rest.stream)
      (failures : source.failures tolerates = rest.failures tolerates)
      (lighter : rest.weight + bs.length ≤ source.weight)
      (ends : .ended ∈ source → .ended ∈ rest) : Meets tolerates source rest (.octets bs)
  | passing {error : IoError} (tolerated : tolerates error.kind = true)
      (stream : source.stream = rest.stream)
      (failures : source.failures tolerates = rest.failures tolerates)
      (lighter : rest.weight < source.weight)
      (ends : .ended ∈ source → .ended ∈ rest) : Meets tolerates source rest (.failed error)
  | failing {error : IoError} (fatal : tolerates error.kind = false)
      (stream : source.stream = rest.stream)
      (failures : source.failures tolerates = error :: rest.failures tolerates)
      (lighter : rest.weight < source.weight)
      (ends : .ended ∈ source → .ended ∈ rest) : Meets tolerates source rest (.failed error)
  | ended (stream : source.stream = []) (failures : source.failures tolerates = []) :
      Meets tolerates source rest (.octets [])

variable {tolerates : IoKind → Bool} {source rest : Script} {answer : ReadAnswer} {asked : Nat}

/-- A read past something that delivers nothing. -/
theorem Meets.past {delivery : Delivery} (meets : Meets tolerates source rest answer)
    (stream : Script.stream (delivery :: source) = source.stream)
    (failures : Script.failures tolerates (delivery :: source) = source.failures tolerates)
    (heavier : source.weight ≤ Script.weight (delivery :: source)) (continues : delivery ≠ .ended) :
    Meets tolerates (delivery :: source) rest answer := by
  have ends (there : .ended ∈ delivery :: source) : .ended ∈ source :=
    (List.mem_cons.1 there).resolve_left (Ne.symm continues)
  cases meets with
  | octets nonempty stream' failures' lighter ends' =>
    exact .octets nonempty (stream.trans stream') (failures.trans failures') (by omega)
      fun there => ends' (ends there)
  | passing tolerated stream' failures' lighter ends' =>
    exact .passing tolerated (stream.trans stream') (failures.trans failures') (by omega)
      fun there => ends' (ends there)
  | failing fatal stream' failures' lighter ends' =>
    exact .failing fatal (stream.trans stream') (failures.trans failures') (by omega)
      fun there => ends' (ends there)
  | ended stream' failures' => exact .ended (stream.trans stream') (failures.trans failures')

theorem stream_putBack (bs : Bytes) (rest : Script) :
    (putBack bs rest).stream = bs ++ rest.stream := by
  unfold putBack
  split
  next empty => rw [List.isEmpty_iff.1 empty, List.nil_append]
  next => rfl

/-- A read takes what it asked for off a piece and leaves the rest in front. -/
theorem meets_piece {bs : Bytes} (nonempty : bs.isEmpty = false) (positive : 0 < asked) :
    Meets tolerates (.piece bs :: rest) (putBack (bs.drop asked) rest)
      (.octets (bs.take asked)) := by
  have some_ : bs ≠ [] := by
    rintro rfl
    cases nonempty
  refine .octets ?_ ?_ ?_ ?_ fun there => ?_
  · rw [Ne, List.take_eq_nil_iff, not_or]
    exact ⟨by omega, some_⟩
  · rw [stream_putBack, ← List.append_assoc, List.take_append_drop]
    rfl
  · unfold putBack
    split <;> rfl
  · have lighter := weight_putBack (bs.drop asked) rest
    simp only [weight, List.length_drop, List.length_take] at lighter ⊢
    omega
  · have later : .ended ∈ rest := (List.mem_cons.1 there).resolve_left (by simp)
    unfold putBack
    split
    · exact later
    · exact List.mem_cons_of_mem _ later

/-- A read that does not wait meets something as long as the stream has not ended. -/
theorem readNow_meets (tolerated : tolerates .wouldBlock = true) (positive : 0 < asked)
    (ends : .ended ∈ source) :
    Meets tolerates source (source.readNow asked).2 (source.readNow asked).1 := by
  fun_induction readNow asked source with
  | case1 => cases ends
  | case2 bs rest empty ih =>
    obtain rfl : bs = [] := List.isEmpty_iff.1 empty
    have later : .ended ∈ rest := (List.mem_cons.1 ends).resolve_left (by simp)
    exact (ih later).past rfl rfl (by simp [weight]) (by simp)
  | case3 bs rest nonempty => exact meets_piece (Bool.eq_false_iff.2 nonempty) positive
  | case4 rest =>
    exact .passing tolerated rfl rfl (by simp [weight])
      fun there => (List.mem_cons.1 there).resolve_left (by simp)
  | case5 error rest =>
    have later (there : .ended ∈ .failing error :: rest) : .ended ∈ rest :=
      (List.mem_cons.1 there).resolve_left (by simp)
    cases passes : tolerates error.kind with
    | true =>
      exact .passing passes rfl (by simp [failures, passes]) (by simp [weight]) later
    | false =>
      exact .failing passes rfl (by simp [failures, passes]) (by simp [weight]) later
  | case6 rest => exact .ended rfl rfl

/-- A read that waits meets something in any case. -/
theorem readWaiting_meets (positive : 0 < asked) :
    Meets (fun _ => false) source (source.readWaiting asked).2 (source.readWaiting asked).1 := by
  fun_induction readWaiting asked source with
  | case1 => exact .ended rfl rfl
  | case2 bs rest empty ih =>
    obtain rfl : bs = [] := List.isEmpty_iff.1 empty
    exact ih.past rfl rfl (by simp [weight]) (by simp)
  | case3 bs rest nonempty => exact meets_piece (Bool.eq_false_iff.2 nonempty) positive
  | case4 rest ih => exact ih.past rfl rfl (by simp [weight]) (by simp)
  | case5 error rest =>
    exact .failing rfl rfl rfl (by simp [weight])
      fun there => (List.mem_cons.1 there).resolve_left (by simp)
  | case6 rest => exact .ended rfl rfl

end Script

/-! ## One attempt at a frame -/

namespace Assembler

variable {a a' : Assembler} {tolerates : IoKind → Bool} {source source' : Script}
  {answer : ReadAnswer}

/-- An assembler knows the length of the current frame once its header is there, and reports the
frame only once all of it is there. -/
structure Sound (a : Assembler) : Prop where
  header : a.length ≠ 0 → frameHeader ≤ a.buffer.length ∧
    Bytes.toNatBE (a.buffer.take frameHeader) = a.length ∧
    frameHeader ≤ a.length ∧ a.length ≤ a.limit
  whole : a.complete = true → a.length ≠ 0 ∧ a.length ≤ a.buffer.length

/-- What arrived of the frames that are not reported yet. -/
def pending (a : Assembler) : Bytes := a.advance.buffer

theorem sound_fresh (limit : Nat) : (fresh limit).Sound := ⟨fun some_ => absurd rfl some_, nofun⟩

theorem pending_of_open (unfinished : a.complete = false) : a.pending = a.buffer := by
  simp [pending, advance, unfinished]

theorem pending_of_complete (complete : a.complete = true) :
    a.pending = a.buffer.drop a.length := by
  simp [pending, advance, complete]

theorem Sound.advance (sound : a.Sound) :
    a.advance.Sound ∧ a.advance.complete = false ∧ a.advance.limit = a.limit := by
  unfold Assembler.advance
  split
  next => exact ⟨⟨fun some_ => absurd rfl some_, nofun⟩, rfl, rfl⟩
  next unfinished => exact ⟨sound, Bool.eq_false_iff.2 unfinished, rfl⟩

/-- Reading the payload changes nothing but how far it was read. -/
theorem Sound.skip (sound : a.Sound) (n : Nat) : (a.skip n).Sound := ⟨sound.header, sound.whole⟩

theorem pending_skip (n : Nat) : (a.skip n).pending = a.pending := by
  cases complete : a.complete <;> simp [pending, Assembler.advance, Assembler.skip, complete]

/-- The error that reports the end of a stream. -/
def errorOf : StreamEnd → IoError
  | .clean => ⟨.unexpectedEof, "end of stream"⟩
  | .truncated => ⟨.unexpectedEof, "stream ended inside a frame"⟩
  | .malformed declared => malformed declared

/-- What one attempt at the next frame may come to, when some octets are pending. Either it reports
the next frame of the stream, or it makes no more than progress, or it passes on an error of the
source, or it reports how the stream ends. -/
inductive Makes (tolerates : IoKind → Bool) (limit : Nat) (pending : Bytes) (source : Script) :
    Except IoError Bool × Assembler × Script → Prop
  | frame {a : Assembler} {rest : Script} (sound : a.Sound) (same : a.limit = limit)
      (parse : parseFrames limit (pending ++ source.stream) =
        (a.remaining :: (parseFrames limit (a.pending ++ rest.stream)).1,
          (parseFrames limit (a.pending ++ rest.stream)).2))
      (failures : source.failures tolerates = rest.failures tolerates)
      (lighter : 2 * rest.weight + a.pending.length < 2 * source.weight + pending.length)
      (ends : .ended ∈ source → .ended ∈ rest) :
      Makes tolerates limit pending source (.ok true, a, rest)
  | progress {a : Assembler} {rest : Script} (sound : a.Sound) (same : a.limit = limit)
      (stream : a.pending ++ rest.stream = pending ++ source.stream)
      (failures : source.failures tolerates = rest.failures tolerates)
      (lighter : 2 * rest.weight + a.pending.length < 2 * source.weight + pending.length)
      (ends : .ended ∈ source → .ended ∈ rest) :
      Makes tolerates limit pending source (.ok false, a, rest)
  | failing {a : Assembler} {rest : Script} {error : IoError} (sound : a.Sound)
      (same : a.limit = limit) (stream : a.pending ++ rest.stream = pending ++ source.stream)
      (failures : source.failures tolerates = error :: rest.failures tolerates)
      (lighter : 2 * rest.weight + a.pending.length < 2 * source.weight + pending.length)
      (ends : .ended ∈ source → .ended ∈ rest) :
      Makes tolerates limit pending source (.error error, a, rest)
  | last {a : Assembler} {rest : Script} {error : IoError} {ending : StreamEnd}
      (parse : parseFrames limit (pending ++ source.stream) = ([], ending))
      (names : error = errorOf ending)
      (passed : source.failures tolerates = [] ∨ ∃ declared, ending = .malformed declared)
      (leftover : a.hasPartial = decide (ending ≠ .clean)) :
      Makes tolerates limit pending source (.error error, a, rest)

/-- What the check of a frame that is not reported yet comes to, whatever arrives later: the frame
is there, or it cannot be told yet, or its header is impossible. -/
inductive Settles (limit : Nat) (buffer : Bytes) : Except IoError Bool × Assembler → Prop
  | frame {a : Assembler} (sound : a.Sound) (same : a.limit = limit)
      (less : a.pending.length < buffer.length)
      (parse : ∀ later, parseFrames limit (buffer ++ later) =
        (a.remaining :: (parseFrames limit (a.pending ++ later)).1,
          (parseFrames limit (a.pending ++ later)).2)) : Settles limit buffer (.ok true, a)
  | short {a : Assembler} (sound : a.Sound) (same : a.limit = limit)
      (unfinished : a.complete = false) (kept : a.buffer = buffer)
      (parse : parseFrames limit buffer = ([], if buffer.isEmpty then .clean else .truncated)) :
      Settles limit buffer (.ok false, a)
  | malformed {a : Assembler} {declared : Nat} (unfinished : a.complete = false)
      (kept : a.buffer = buffer) (nonempty : buffer.isEmpty = false)
      (parse : ∀ later, parseFrames limit (buffer ++ later) = ([], .malformed declared)) :
      Settles limit buffer (.error (malformed declared), a)

/-- Where a header arrived, something did. -/
theorem isEmpty_of_header {buffer : Bytes} (header : frameHeader ≤ buffer.length) :
    buffer.isEmpty = false := by
  have width : 0 < frameHeader := by decide
  rw [List.isEmpty_eq_false_iff, ← List.length_pos_iff]
  exact Nat.lt_of_lt_of_le width header

/-- A frame whose length is known is there, or not yet. -/
theorem finish_settles (sound : a.Sound) (unfinished : a.complete = false) (known : a.length ≠ 0) :
    Settles a.limit a.buffer ((.ok a.finish.1 : Except IoError Bool), a.finish.2) := by
  obtain ⟨header, declares, least, most⟩ := sound.header known
  have front (later : Bytes) : Bytes.toNatBE ((a.buffer ++ later).take frameHeader) = a.length := by
    rw [List.take_append_of_le_length header, declares]
  unfold finish
  split
  next whole =>
    refine .frame ⟨fun _ => ⟨header, declares, least, most⟩, fun _ => ⟨known, whole⟩⟩ rfl ?_ ?_
    · rw [pending_of_complete rfl, List.length_drop]
      show a.buffer.length - a.length < a.buffer.length
      omega
    · intro later
      rw [parseFrames_frame (by rw [List.length_append]; omega) (front later) ⟨least, most⟩
        (by rw [List.length_append]; omega), List.take_append_of_le_length whole,
        List.drop_append_of_le_length whole, pending_of_complete rfl]
      rfl
  next short =>
    rw [unfinished]
    refine .short sound rfl unfinished rfl ?_
    rw [isEmpty_of_header header]
    exact parseFrames_truncated header declares ⟨least, most⟩ (Nat.lt_of_not_le short)

theorem settle_settles (sound : a.Sound) (unfinished : a.complete = false) :
    Settles a.limit a.buffer a.settle := by
  unfold settle
  split
  next unknown =>
    split
    next short => exact .short sound rfl unfinished rfl (parseFrames_short short)
    next long =>
      have header := Nat.le_of_not_lt long
      have front (later : Bytes) : Bytes.toNatBE ((a.buffer ++ later).take frameHeader) =
          Bytes.toNatBE (a.buffer.take frameHeader) := by
        rw [List.take_append_of_le_length header]
      dsimp only
      split
      next impossible =>
        refine .malformed unfinished rfl (isEmpty_of_header header) fun later =>
          parseFrames_malformed ?_ (front later) impossible
        rw [List.length_append]
        omega
      next possible =>
        rw [not_or, Nat.not_lt, Nat.not_lt] at possible
        have known : Bytes.toNatBE (a.buffer.take frameHeader) ≠ 0 := by
          have width : frameHeader = 4 := rfl
          omega
        have sound' : Sound { a with length := Bytes.toNatBE (a.buffer.take frameHeader) } :=
          ⟨fun _ => ⟨header, rfl, possible⟩, fun complete => by
            rw [show a.complete = true from complete] at unfinished; cases unfinished⟩
        exact finish_settles sound' unfinished known
  next known => exact finish_settles sound unfinished known

/-- More octets may arrive for a frame that is not there yet. -/
theorem Sound.append (sound : a.Sound) (unfinished : a.complete = false) (bs : Bytes) :
    Sound { a with buffer := a.buffer ++ bs } := by
  refine ⟨fun known => ?_, fun complete => ?_⟩
  · obtain ⟨header, declares, possible⟩ := sound.header known
    refine ⟨by rw [List.length_append]; omega, ?_, possible⟩
    rw [List.take_append_of_le_length header]
    exact declares
  · rw [show a.complete = true from complete] at unfinished
    cases unfinished

theorem hasPartial_of_open (unfinished : a.complete = false) :
    a.hasPartial = !a.buffer.isEmpty := by
  simp [hasPartial, unfinished]

/-- Octets that a read brings are taken in. -/
theorem absorb_octets_makes (sound : a.Sound) (unfinished : a.complete = false) {bs : Bytes}
    (nonempty : bs ≠ []) (stream : source.stream = bs ++ source'.stream)
    (failures : source.failures tolerates = source'.failures tolerates)
    (lighter : source'.weight + bs.length ≤ source.weight)
    (ends : .ended ∈ source → .ended ∈ source') :
    Makes tolerates a.limit a.buffer source
      ((a.absorb tolerates (.octets bs)).1, (a.absorb tolerates (.octets bs)).2, source') := by
  have some_ : 0 < bs.length := List.length_pos_iff.2 nonempty
  have settled := settle_settles (sound.append unfinished bs) unfinished
  have arrived : a.absorb tolerates (.octets bs) =
      settle { a with buffer := a.buffer ++ bs } := by
    rw [absorb, if_neg (by simpa using nonempty)]
  rw [arrived]
  generalize settle { a with buffer := a.buffer ++ bs } = result at settled
  cases settled with
  | frame sound' same less parse =>
    refine .frame sound' same ?_ failures ?_ ends
    · rw [stream, ← List.append_assoc]
      exact parse source'.stream
    · rw [List.length_append] at less
      dsimp only
      omega
  | short sound' same unfinished' kept parse =>
    have pending := (pending_of_open unfinished').trans kept
    refine .progress sound' same ?_ failures ?_ ends
    · rw [pending, stream, List.append_assoc]
    · rw [pending, List.length_append]
      omega
  | @malformed a' declared unfinished' kept nonempty' parse =>
    have parse' : parseFrames a.limit (a.buffer ++ source.stream) =
        ([], .malformed declared) := by
      rw [stream, ← List.append_assoc]
      exact parse source'.stream
    refine .last parse' rfl (.inr ⟨declared, rfl⟩) ?_
    rw [hasPartial_of_open unfinished', kept, nonempty']
    rfl

/-- The end of the stream is named after what is left of a frame. -/
theorem endError_eq (a : Assembler) :
    a.endError = errorOf (if a.buffer.isEmpty then .clean else .truncated) := by
  unfold endError
  split <;> rfl

/-- What a read brings is taken in. -/
theorem absorb_makes (sound : a.Sound) (unfinished : a.complete = false)
    (short : parseFrames a.limit a.buffer =
      ([], if a.buffer.isEmpty then .clean else .truncated))
    (meets : Script.Meets tolerates source source' answer) :
    Makes tolerates a.limit a.buffer source
      ((a.absorb tolerates answer).1, (a.absorb tolerates answer).2, source') := by
  have pending := pending_of_open unfinished
  cases meets with
  | octets nonempty stream failures lighter ends =>
    exact absorb_octets_makes sound unfinished nonempty stream failures lighter ends
  | passing tolerated stream failures lighter ends =>
    rw [absorb, if_pos tolerated]
    exact .progress sound rfl (by rw [pending, stream]) failures (by rw [pending]; omega) ends
  | failing fatal stream failures lighter ends =>
    rw [absorb, if_neg (Bool.eq_false_iff.1 fatal)]
    exact .failing sound rfl (by rw [pending, stream]) failures (by rw [pending]; omega) ends
  | ended stream failures =>
    have stops : a.absorb tolerates (.octets []) = (.error a.endError, a) := rfl
    have parse : parseFrames a.limit (a.buffer ++ source.stream) =
        ([], if a.buffer.isEmpty then .clean else .truncated) := by
      rw [stream, List.append_nil, short]
    rw [stops]
    refine .last parse a.endError_eq (.inl failures) ?_
    rw [hasPartial_of_open unfinished]
    split <;> simp [*]

/-- What one attempt comes to, by whatever kind of read. -/
theorem attempt_makes (sound : a.Sound) (read : Assembler → Script → ReadAnswer × Script)
    (meets : ∀ a, Script.Meets tolerates source (read a source).2 (read a source).1) :
    Makes tolerates a.limit a.pending source
      (match a.advance.settle with
        | (.ok false, a) =>
          ((a.absorb tolerates (read a source).1).1, (a.absorb tolerates (read a source).1).2,
            (read a source).2)
        | (result, a) => (result, a, source)) := by
  obtain ⟨sound', unfinished, same⟩ := sound.advance
  have settled := settle_settles sound' unfinished
  rw [same] at settled
  change Settles a.limit a.pending a.advance.settle at settled
  generalize a.advance.settle = result at settled
  cases settled with
  | frame sound' same less parse =>
    exact .frame sound' same (parse source.stream) rfl (by omega) id
  | @short a' sound' same unfinished' kept parse =>
    rw [← same, ← kept] at parse ⊢
    exact absorb_makes sound' unfinished' parse (meets a')
  | malformed unfinished' kept nonempty parse =>
    refine .last (parse source.stream) rfl (.inr ⟨_, rfl⟩) ?_
    rw [hasPartial_of_open unfinished', kept, nonempty]
    rfl

/-- What an attempt comes to that does not wait. -/
theorem readFrame_makes (sound : a.Sound) (ends : .ended ∈ source) :
    Makes isPassing a.limit a.pending source (a.readFrame source) := by
  have positive (a : Assembler) : 0 < a.readSize :=
    Nat.lt_of_lt_of_le (by decide) (Nat.le_max_right _ _)
  exact attempt_makes sound (fun a source => source.readNow a.readSize)
    fun a => Script.readNow_meets (by decide) (positive a) ends

/-- What an attempt comes to that waits. -/
theorem readFrameUpTo_makes (sound : a.Sound) {room : Nat} (positive : 0 < room)
    (source : Script) :
    Makes (fun _ => false) a.limit a.pending source (a.readFrameUpTo room source) :=
  attempt_makes sound (fun _ source => source.readWaiting room)
    fun _ => Script.readWaiting_meets positive

/-! ## Attempts again and again -/

/-- What a caller sees of an attempt. -/
structure Report where
  result : Except IoError Bool
  /-- The payload of the current frame. -/
  payload : Bytes
  /-- Whether a part of an unfinished frame is there. -/
  leftover : Bool

/-- The frame that is reported, if one is. -/
def Report.frame? (report : Report) : Option Bytes :=
  match report.result with
  | .ok true => some report.payload
  | _ => none

/-- The error that is reported, if one is. -/
def Report.error? (report : Report) : Option IoError :=
  match report.result with
  | .ok _ => none
  | .error error => some error

/-- Read at the payload of the current frame, so many octets at a time. -/
def readOff (a : Assembler) (sizes : List Nat) : Assembler :=
  sizes.foldl (fun a n => (a.readPayload n).2) a

/-- What a caller sees who makes `n` attempts from the `i`-th on, and reads at the payload in
between. -/
def reports (attempt : Nat → Assembler → Script → Except IoError Bool × Assembler × Script)
    (sizes : Nat → List Nat) (i : Nat) : Nat → Assembler → Script → List Report
  | 0, _, _ => []
  | n + 1, a, source =>
    let (result, a, source) := attempt i a source
    ⟨result, a.remaining, a.hasPartial⟩ ::
      reports attempt sizes (i + 1) n (a.readOff (sizes i)) source

theorem Sound.readOff (sound : a.Sound) (sizes : List Nat) :
    (a.readOff sizes).Sound ∧ (a.readOff sizes).limit = a.limit ∧
      (a.readOff sizes).pending = a.pending := by
  unfold Assembler.readOff
  induction sizes generalizing a with
  | nil => exact ⟨sound, rfl, rfl⟩
  | cons n sizes ih =>
    obtain ⟨sound', limit, pending⟩ := ih (sound.skip (a.remaining.take n).length)
    exact ⟨sound', limit, pending.trans (pending_skip _)⟩

/-- The reports of attempts, up to the last one, give the frames of a stream in their order, pass
on the errors of its source, and tell how it ends. -/
structure Retell (limit : Nat) (stream : Bytes)
    (failures : List IoError) (reports : List Report) (last : Report) : Prop where
  frames : reports.filterMap Report.frame? = (parseFrames limit stream).1
  errors : reports.filterMap Report.error? <+: failures
  passed : (∀ declared, (parseFrames limit stream).2 ≠ .malformed declared) →
    reports.filterMap Report.error? = failures
  ending : last.result = .error (errorOf (parseFrames limit stream).2)
  leftover : last.leftover = decide ((parseFrames limit stream).2 ≠ .clean)

namespace Retell

variable {limit : Nat} {stream stream' : Bytes} {failures failures' : List IoError}
  {before : List Report} {last report : Report}

/-- A report of no frame and no error adds nothing. -/
theorem progress (retell : Retell limit stream failures before last)
    (result : report.result = .ok false) :
    Retell limit stream failures (report :: before) last := by
  have noFrame : report.frame? = none := by rw [Report.frame?, result]
  have noError : report.error? = none := by rw [Report.error?, result]
  refine ⟨?_, ?_, fun proper => ?_, retell.ending, retell.leftover⟩
  · rw [List.filterMap_cons_none noFrame, retell.frames]
  · rw [List.filterMap_cons_none noError]
    exact retell.errors
  · rw [List.filterMap_cons_none noError, retell.passed proper]

/-- An error of the source comes before those that follow. -/
theorem failing (retell : Retell limit stream failures before last) {error : IoError}
    (result : report.result = .error error) :
    Retell limit stream (error :: failures) (report :: before) last := by
  have noFrame : report.frame? = none := by rw [Report.frame?, result]
  have some_ : report.error? = some error := by rw [Report.error?, result]
  refine ⟨?_, ?_, fun proper => ?_, retell.ending, retell.leftover⟩
  · rw [List.filterMap_cons_none noFrame, retell.frames]
  · rw [List.filterMap_cons_some some_]
    exact (List.prefix_cons_inj error).2 retell.errors
  · rw [List.filterMap_cons_some some_, retell.passed proper]

/-- A frame comes before those that follow. -/
theorem frame (retell : Retell limit stream failures before last)
    (result : report.result = .ok true)
    (parse : parseFrames limit stream' =
      (report.payload :: (parseFrames limit stream).1, (parseFrames limit stream).2)) :
    Retell limit stream' failures (report :: before) last := by
  have some_ : report.frame? = some report.payload := by rw [Report.frame?, result]
  have noError : report.error? = none := by rw [Report.error?, result]
  refine ⟨?_, ?_, fun proper => ?_, ?_, ?_⟩
  · rw [List.filterMap_cons_some some_, retell.frames, parse]
  · rw [List.filterMap_cons_none noError]
    exact retell.errors
  · rw [parse] at proper
    rw [List.filterMap_cons_none noError, retell.passed proper]
  · rw [parse, retell.ending]
  · rw [parse, retell.leftover]

end Retell

/-- Attempts that each come to what an attempt may come to retell the stream after some time. Every
attempt but the last uses up some of the script or of what is pending. -/
theorem reports_retell {live : Script → Prop}
    {attempt : Nat → Assembler → Script → Except IoError Bool × Assembler × Script}
    (makes : ∀ i a source, Sound a → live source →
      Makes tolerates a.limit a.pending source (attempt i a source))
    (stays : ∀ {source rest : Script}, (.ended ∈ source → .ended ∈ rest) → live source → live rest)
    (sizes : Nat → List Nat) (i : Nat) (sound : a.Sound) (lives : live source) :
    ∃ n, ∃ before last, a.reports attempt sizes i n source = before ++ [last] ∧
      Retell a.limit (a.pending ++ source.stream) (source.failures tolerates) before last := by
  -- A frame that is all there uses up what is pending and leaves the script alone, and octets that
  -- a read brings move from the script to what is pending: the script weighs twice.
  induction size : 2 * source.weight + a.pending.length using Nat.strongRecOn
    generalizing i a source with
  | ind size ih =>
    subst size
    -- Whatever an attempt made, reading at the payload changes nothing for those that follow.
    have onward {result : Except IoError Bool} {a' : Assembler} {rest : Script}
        (attempted : attempt i a source = (result, a', rest)) (sound' : a'.Sound)
        (same : a'.limit = a.limit)
        (lighter : 2 * rest.weight + a'.pending.length < 2 * source.weight + a.pending.length)
        (ends : .ended ∈ source → .ended ∈ rest) :
        ∃ n, ∃ before last, a.reports attempt sizes i n source =
            (⟨result, a'.remaining, a'.hasPartial⟩ :: before) ++ [last] ∧
          Retell a.limit (a'.pending ++ rest.stream) (rest.failures tolerates) before last := by
      obtain ⟨sound'', same', pending⟩ := sound'.readOff (sizes i)
      obtain ⟨n, before, last, run, retell⟩ :=
        ih _ (by rw [pending]; exact lighter) (i + 1) sound'' (stays ends lives) rfl
      rw [same', same, pending] at retell
      refine ⟨n + 1, before, last, ?_, retell⟩
      rw [reports, attempted]
      exact congrArg (_ :: ·) run
    have made := makes i a source sound lives
    generalize attempted : attempt i a source = result at made
    cases made with
    | frame sound' same parse failures lighter ends =>
      obtain ⟨n, before, last, run, retell⟩ := onward attempted sound' same lighter ends
      refine ⟨n, _, last, run, ?_⟩
      rw [failures]
      exact retell.frame rfl parse
    | progress sound' same stream failures lighter ends =>
      obtain ⟨n, before, last, run, retell⟩ := onward attempted sound' same lighter ends
      refine ⟨n, _, last, run, ?_⟩
      rw [failures, ← stream]
      exact retell.progress rfl
    | failing sound' same stream failures lighter ends =>
      obtain ⟨n, before, last, run, retell⟩ := onward attempted sound' same lighter ends
      refine ⟨n, _, last, run, ?_⟩
      rw [failures, ← stream]
      exact retell.failing rfl
    | @last a' rest error ending parse names passed leftover =>
      refine ⟨1, [], ⟨.error error, a'.remaining, a'.hasPartial⟩, ?_, ?_⟩
      · rw [reports, attempted]
        rfl
      · refine ⟨by rw [parse]; rfl, List.nil_prefix, fun proper => ?_, ?_, ?_⟩
        · obtain none_ | ⟨declared, malformed⟩ := passed
          · exact none_.symm
          · exact absurd (by rw [parse, malformed]) (proper declared)
        · rw [parse, names]
        · rw [parse, leftover]

/-- However the octets of a stream arrive, and whatever is read of each payload, attempt after
attempt reports the frames of the stream in their order, until the last one tells how the stream
ends. Attempts that do not wait find pauses and errors in between; those that wait may take any
number of octets at a time. -/
theorem reports_eq_parse (limit : Nat) (source : Script) (sizes : Nat → List Nat) :
    (.ended ∈ source → ∃ n, ∃ before last,
      (fresh limit).reports (fun _ => readFrame) sizes 0 n source = before ++ [last] ∧
        Retell limit source.stream (source.failures isPassing) before last) ∧
    ∀ rooms : Nat → Nat, (∀ i, 0 < rooms i) → ∃ n, ∃ before last,
      (fresh limit).reports (fun i => readFrameUpTo (rooms i)) sizes 0 n source =
          before ++ [last] ∧
        Retell limit source.stream (source.failures fun _ => false) before last := by
  constructor
  · intro ends
    exact reports_retell (fun _ _ _ sound ends => readFrame_makes sound ends) id sizes 0
      (sound_fresh limit) ends
  · intro rooms positive
    exact reports_retell
      (fun i _ source sound (_ : True) => readFrameUpTo_makes sound (positive i) source)
      (fun _ => id) sizes 0 (sound_fresh limit) trivial

/-- A frame of two octets is cut inside its header and inside its payload, with a pause and an error
in between, and one octet of another frame follows. -/
def cutScript : Script :=
  [.piece [0, 0, 0], .pause, .piece [6, 1], .failing ⟨.connectionReset, "reset"⟩, .piece [2, 0],
    .ended]

theorem parseFrames_cutScript : parseFrames 64 cutScript.stream = ([[1, 2]], .truncated) := by
  have stream : cutScript.stream = [0, 0, 0, 6, 1, 2, 0] := rfl
  have rest : parseFrames 64 [0] = ([], .truncated) := parseFrames_short (by decide)
  rw [stream, parseFrames_frame (by decide) (by decide : _ = 6) (by decide) (by decide)]
  show ([1, 2] :: (parseFrames 64 [0]).1, (parseFrames 64 [0]).2) = _
  rw [rest]

theorem reports_eq_parse_of_cutScript :
    .ended ∈ cutScript ∧
    (∃ n, ∃ before last,
      (fresh 64).reports (fun _ => readFrame) (fun _ => [1]) 0 n cutScript = before ++ [last] ∧
        before.filterMap Report.frame? = [[1, 2]] ∧
        last.result = .error ⟨.unexpectedEof, "stream ended inside a frame"⟩ ∧
        last.leftover = true) ∧
    ∃ n, ∃ before last,
      (fresh 64).reports (fun i => readFrameUpTo (i + 1)) (fun _ => []) 0 n cutScript =
          before ++ [last] ∧
        before.filterMap Report.frame? = [[1, 2]] ∧
        before.filterMap Report.error? = [⟨.connectionReset, "reset"⟩] := by
  have ends : .ended ∈ cutScript := by decide
  obtain ⟨n, before, last, run, retell⟩ := (reports_eq_parse 64 cutScript fun _ => [1]).1 ends
  obtain ⟨n', before', last', run', retell'⟩ :=
    (reports_eq_parse 64 cutScript fun _ => []).2 (fun i => i + 1) Nat.succ_pos
  have parse := parseFrames_cutScript
  refine ⟨ends, ⟨n, before, last, run, ?_, ?_, ?_⟩, n', before', last', run', ?_, ?_⟩
  · rw [retell.frames, parse]
  · rw [retell.ending, parse]
    rfl
  · rw [retell.leftover, parse]
    rfl
  · rw [retell'.frames, parse]
  · rw [retell'.passed (by rw [parse]; exact nofun)]
    rfl

end Assembler

end Cohort

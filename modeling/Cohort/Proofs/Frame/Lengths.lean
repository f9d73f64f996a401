import Cohort.Proofs.Frame.Transport
import Mathlib.Data.List.DropRight
import Mathlib.Data.List.TakeDrop

/-!
# Frames of any length

A header holds lengths below `UInt32.size`. A longer frame is stamped with the greatest of them, and
it takes a reader with a smaller limit to see that something is wrong: such a reader refuses the
frame at its header. A reader whose limit is that number, or above it, takes the stamp for the
length of the frame.

## Main definitions

* `DraftOp`: what can be done with a draft; `DraftOp.payloads`: what is in the frames that come
  of it.
* `Faithful`: a reader returned every frame, up to one at whose header it stopped.
* `StampsTell`: each frame is refused or of the length that its header tells.

## Main statements

* `Draft.closed_fresh`: a frame holds what was written since the last one, or since the last time
  that it was dropped.
* `faithful_parseFrames_iff`: when a stream of frames is read as it was written.
* `Assembler.frames_reports_of_advances`: attempts after an error report frames of the stream too,
  and nothing else.
* `Assembler.frames_return_or_stop_iff`: when frames are returned as they were written, or refused.
-/

namespace Cohort

/-! ## What is written -/

/-- What can be done with a draft. -/
inductive DraftOp where
  /-- Write a number in so many octets. -/
  | number (width n : Nat)
  /-- Write octets. -/
  | octets (bs : Bytes)
  /-- Drop what was written since the last frame. -/
  | reset
  /-- Finish the frame. -/
  | close
  deriving DecidableEq, Repr

namespace DraftOp

/-- What it writes. -/
def written : DraftOp → Bytes
  | number width n => Bytes.ofNatBE width n
  | octets bs => bs
  | reset | close => []

/-- Whether it goes on with the same frame. -/
def continues : DraftOp → Bool
  | number .. | octets _ => true
  | reset | close => false

/-- What was written since a frame was last finished or dropped. -/
def lastWritten (ops : List DraftOp) : Bytes := (ops.rtakeWhile continues).flatMap written

/-- What is in the frames that are finished. -/
def payloads (ops : List DraftOp) : List Bytes :=
  ((List.range ops.length).filter fun i => ops[i]? = some close).map fun i =>
    lastWritten (ops.take i)

theorem lastWritten_concat (ops : List DraftOp) (op : DraftOp) :
    lastWritten (ops ++ [op]) = if op.continues then lastWritten ops ++ op.written else [] := by
  unfold lastWritten
  split
  next more => rw [List.rtakeWhile_concat_pos _ _ _ more, List.flatMap_append,
    List.flatMap_singleton]
  next cut => rw [List.rtakeWhile_concat_neg _ _ _ cut, List.flatMap_nil]

theorem payloads_concat (ops : List DraftOp) (op : DraftOp) :
    payloads (ops ++ [op]) = payloads ops ++ if op = close then [lastWritten ops] else [] := by
  have before : ∀ i ∈ List.range ops.length,
      (ops ++ [op])[i]? = ops[i]? ∧ (ops ++ [op]).take i = ops.take i := by
    intro i inside
    have inside := List.mem_range.1 inside
    exact ⟨List.getElem?_append_left inside, List.take_append_of_le_length inside.le⟩
  unfold payloads
  rw [List.length_append, List.length_singleton, List.range_succ, List.filter_append,
    List.map_append]
  congr 1
  · rw [List.filter_congr fun i inside => by rw [(before i inside).1]]
    exact List.map_congr_left fun i inside => by rw [(before i (List.mem_filter.1 inside).1).2]
  · by_cases closes : op = close <;> simp [closes]

end DraftOp

namespace Draft

/-- What comes of an operation: the frame that it finishes, if it does, and the draft. -/
def perform (draft : Draft) : DraftOp → Option Bytes × Draft
  | .number width n => (none, draft.appendNumber width n)
  | .octets bs => (none, draft.append bs)
  | .reset => (none, fresh)
  | .close => (some draft.close.1, draft.close.2)

/-- The draft after operations. -/
def after (draft : Draft) (ops : List DraftOp) : Draft :=
  ops.foldl (fun draft op => (draft.perform op).2) draft

/-- The frames that operations finish, in order. -/
def closed (draft : Draft) : List DraftOp → List Bytes
  | [] => []
  | op :: ops => (draft.perform op).1.toList ++ closed (draft.perform op).2 ops

theorem closed_concat (draft : Draft) (ops : List DraftOp) (op : DraftOp) :
    draft.closed (ops ++ [op]) =
      draft.closed ops ++ ((draft.after ops).perform op).1.toList := by
  induction ops generalizing draft with
  | nil => exact List.append_nil _
  | cons first ops ih =>
    rw [List.cons_append, closed, ih, closed, List.append_assoc]
    rfl

/-- A draft holds what was written since a frame was last finished or dropped. -/
theorem after_fresh (ops : List DraftOp) : fresh.after ops = ⟨DraftOp.lastWritten ops⟩ := by
  induction ops using List.reverseRecOn with
  | nil => rfl
  | append_singleton ops op ih =>
    have step : fresh.after (ops ++ [op]) = ((fresh.after ops).perform op).2 := List.foldl_append
    rw [step, ih, DraftOp.lastWritten_concat]
    cases op <;> rfl

/-- The frames that are finished hold the payloads. -/
theorem closed_fresh (ops : List DraftOp) :
    fresh.closed ops = (DraftOp.payloads ops).map frameOf := by
  induction ops using List.reverseRecOn with
  | nil => rfl
  | append_singleton ops op ih =>
    rw [closed_concat, ih, after_fresh, DraftOp.payloads_concat, List.map_append]
    cases op <;> rfl

end Draft

/-! ## What is read -/

/-- The frames of some payloads were returned in their order, and what comes last is right: either
the end of the stream, or the error of the header of a frame beyond the limit. -/
inductive Faithful (limit : Nat) : List Bytes → List Bytes → Except IoError Bool → Prop
  | ended : Faithful limit [] [] (.error (Assembler.errorOf .clean))
  | returned {payload : Bytes} {payloads frames : List Bytes} {last : Except IoError Bool}
      (later : Faithful limit payloads frames last) :
      Faithful limit (payload :: payloads) (payload :: frames) last
  | refused {payload : Bytes} {payloads : List Bytes} {error : IoError}
      (beyond : limit < payload.length + frameHeader) (kind : error.kind = .invalidData)
      (names : error = Assembler.malformed (Draft.stamp (payload.length + frameHeader))) :
      Faithful limit (payload :: payloads) [] (.error error)

/-- Either no frame with the greatest stamp gets past the limit, or no frame is too long for its
header. -/
def StampsTell (limit : Nat) (payloads : List Bytes) : Prop :=
  limit < UInt32.size - 1 ∨ ∀ payload ∈ payloads, payload.length + frameHeader < UInt32.size

section Parse

variable {limit : Nat} {payload : Bytes} {payloads : List Bytes}

/-- A frame is refused at its header if its stamp is beyond the limit. -/
theorem parseFrames_of_lt_stamp (beyond : limit < Draft.stamp (payload.length + frameHeader))
    (rest : Bytes) : parseFrames limit (frameOf payload ++ rest) =
      ([], .malformed (Draft.stamp (payload.length + frameHeader))) := by
  refine parseFrames_malformed ?_ (declared_frameOf payload rest) (.inr beyond)
  rw [List.length_append, length_frameOf]
  omega

/-- As much as a stamp tells is all of a payload just if the header holds the length of the
frame. -/
theorem take_of_stamp_eq_iff {length : Nat}
    (stamp : Draft.stamp (payload.length + frameHeader) = frameHeader + length) :
    payload.take length = payload ↔ payload.length + frameHeader < UInt32.size := by
  have some_ : 0 < UInt32.size := by decide
  rw [Draft.stamp] at stamp
  rw [List.take_eq_self_iff]
  omega

theorem faithful_cons_iff {frame : Bytes} {frames : List Bytes} {last : Except IoError Bool} :
    Faithful limit (payload :: payloads) (frame :: frames) last ↔
      frame = payload ∧ Faithful limit payloads frames last := by
  constructor
  · rintro (_ | later)
    exact ⟨rfl, later⟩
  · rintro ⟨rfl, later⟩
    exact .returned later

/-- A stream of frames is read as it was written just if the limit is too small for the greatest
stamp, or no frame is too long for its header. -/
theorem faithful_parseFrames_iff :
    Faithful limit payloads (parseFrames limit (payloads.map frameOf).flatten).1
        (.error (Assembler.errorOf (parseFrames limit (payloads.map frameOf).flatten).2)) ↔
      StampsTell limit payloads := by
  unfold StampsTell
  induction payloads with
  | nil =>
    have parse : parseFrames limit [] = ([], .clean) := parseFrames_short (by decide)
    rw [List.map_nil, List.flatten_nil, parse]
    exact ⟨fun _ => .inr (by simp), fun _ => .ended⟩
  | cons payload payloads ih =>
    rw [List.map_cons, List.flatten_cons, List.forall_mem_cons]
    have some_ : frameHeader ≤ Draft.stamp (payload.length + frameHeader) :=
      Nat.le_min.2 ⟨Nat.le_add_left .., by decide⟩
    have least : Draft.stamp (payload.length + frameHeader) ≤ UInt32.size - 1 := Nat.min_le_right ..
    by_cases within : Draft.stamp (payload.length + frameHeader) ≤ limit
    · obtain ⟨length, stamp⟩ := Nat.exists_eq_add_of_le some_
      rw [parseFrames_of_stamp_le stamp (stamp ▸ within), faithful_cons_iff,
        take_of_stamp_eq_iff stamp]
      by_cases fits : payload.length + frameHeader < UInt32.size
      · have whole := (List.take_eq_self_iff payload).1 ((take_of_stamp_eq_iff stamp).2 fits)
        rw [List.drop_eq_nil_of_le whole, List.nil_append, ih]
        simp only [fits, true_and]
      · -- The stamp is the greatest of all.
        have tolerant : ¬ limit < UInt32.size - 1 := by
          rw [Draft.stamp] at within
          omega
        simp only [tolerant, fits, false_and, or_self]
    · have strict : limit < UInt32.size - 1 := by omega
      have beyond : limit < payload.length + frameHeader :=
        Nat.lt_of_lt_of_le (Nat.lt_of_not_le within) (Nat.min_le_left ..)
      rw [parseFrames_of_lt_stamp (Nat.lt_of_not_le within)]
      exact ⟨fun _ => .inl strict, fun _ => .refused beyond rfl rfl⟩

/-- What is returned is what was written first. -/
theorem Faithful.beginning {frames : List Bytes} {last : Except IoError Bool}
    (faithful : Faithful limit payloads frames last) : frames <+: payloads := by
  induction faithful with
  | ended => exact List.prefix_rfl
  | returned _ ih => exact (List.prefix_cons_inj _).2 ih
  | refused => exact List.nil_prefix

end Parse

/-! ## Going on after an error -/

/-- The octets that a read gives. -/
def ReadAnswer.given : ReadAnswer → Bytes
  | .octets bs => bs
  | .failed _ => []

/-- The octets of a delivery. -/
def Delivery.octets : Delivery → Bytes
  | .piece bs => bs
  | .pause | .failing _ | .ended => []

namespace Script

variable {source : Script} {asked : Nat}

/-- All octets of a script, those included that arrive after an end. -/
def delivered (source : Script) : Bytes := source.flatMap Delivery.octets

theorem delivered_cons (delivery : Delivery) (source : Script) :
    delivered (delivery :: source) = delivery.octets ++ source.delivered := List.flatMap_cons

theorem delivered_putBack (bs : Bytes) (rest : Script) :
    (putBack bs rest).delivered = bs ++ rest.delivered := by
  unfold putBack
  split
  next empty => rw [List.isEmpty_iff.1 empty, List.nil_append]
  next => exact delivered_cons ..

/-- A read takes what it gives off a piece. -/
theorem delivered_piece (bs : Bytes) (rest : Script) :
    delivered (.piece bs :: rest) =
      bs.take asked ++ (putBack (bs.drop asked) rest).delivered := by
  rw [delivered_putBack, ← List.append_assoc, List.take_append_drop]
  exact delivered_cons ..

/-- A read that does not wait loses nothing. -/
theorem delivered_readNow : source.delivered =
    (source.readNow asked).1.given ++ (source.readNow asked).2.delivered := by
  fun_induction readNow asked source with
  | case1 => rfl
  | case2 bs rest empty ih =>
    rw [delivered_cons, ← ih]
    exact congrArg (· ++ _) (List.isEmpty_iff.1 empty)
  | case3 bs rest => exact delivered_piece bs rest
  | case4 rest => exact delivered_cons ..
  | case5 error rest => exact delivered_cons ..
  | case6 rest => exact delivered_cons ..

/-- A read that waits loses nothing. -/
theorem delivered_readWaiting : source.delivered =
    (source.readWaiting asked).1.given ++ (source.readWaiting asked).2.delivered := by
  fun_induction readWaiting asked source with
  | case1 => rfl
  | case2 bs rest empty ih =>
    rw [delivered_cons, ← ih]
    exact congrArg (· ++ _) (List.isEmpty_iff.1 empty)
  | case3 bs rest => exact delivered_piece bs rest
  | case4 rest ih =>
    rw [delivered_cons, ← ih]
    rfl
  | case5 error rest => exact delivered_cons ..
  | case6 rest => exact delivered_cons ..

end Script

namespace Assembler

variable {a : Assembler} {source rest : Script} {error : IoError}
  {result : Except IoError Bool} {made : Except IoError Bool × Assembler × Script}

/-- The check of a frame leaves an assembler alone that refuses its header. -/
theorem settle_of_error (refuses : a.settle.1 = .error error) : a.settle.2 = a := by
  by_cases known : a.length = 0
  · by_cases short : a.buffer.length < frameHeader
    · simp only [settle, if_pos known, if_pos short]
    · by_cases impossible : Bytes.toNatBE (a.buffer.take frameHeader) < frameHeader ∨
        a.limit < Bytes.toNatBE (a.buffer.take frameHeader)
      · simp only [settle, if_pos known, if_neg short, if_pos impossible]
      · simp [settle, known, short, impossible] at refuses
  · simp [settle, known] at refuses

/-- The frame that is reported, if one is, is the next one of the stream, and those after it are
still to come. Unlike `Makes`, this holds of attempts after an error as well. -/
structure Advances (limit : Nat) (stream : Bytes)
    (made : Except IoError Bool × Assembler × Script) : Prop where
  sound : made.2.1.Sound
  same : made.2.1.limit = limit
  frames : (parseFrames limit stream).1 =
    (Report.frame? ⟨made.1, made.2.1.remaining, made.2.1.hasPartial⟩).toList ++
      (parseFrames limit (made.2.1.pending ++ made.2.2.delivered)).1

/-- Where nothing is reported and nothing got lost, all frames are still to come. -/
theorem advances_of_kept (sound : a.Sound) {stream : Bytes}
    (kept : stream = a.pending ++ rest.delivered) (none_ : result ≠ .ok true) :
    Advances a.limit stream (result, a, rest) where
  sound := sound
  same := rfl
  frames := by
    have noFrame : Report.frame? ⟨result, a.remaining, a.hasPartial⟩ = none := by
      rw [Report.frame?]
      split
      next is => exact absurd is none_
      next => rfl
    rw [noFrame, kept]
    rfl

theorem settle_advances (sound : a.Sound) (unfinished : a.complete = false) (rest : Script) :
    Advances a.limit (a.buffer ++ rest.delivered) (a.settle.1, a.settle.2, rest) := by
  have settled := settle_settles sound unfinished
  generalize made : a.settle = made at settled
  cases settled with
  | frame sound' same less parse => exact ⟨sound', same, by rw [parse rest.delivered]; rfl⟩
  | @short a' sound' same unfinished' kept parse =>
    rw [← same]
    exact advances_of_kept sound' (by rw [pending_of_open unfinished', kept]) (by simp)
  | @malformed a' declared unfinished' kept nonempty parse =>
    have refuses : a.settle.1 = .error (malformed declared) := by rw [made]
    obtain rfl : a' = a := by rw [← settle_of_error refuses, made]
    exact advances_of_kept sound (by rw [pending_of_open unfinished']) (by simp)

theorem absorb_advances (sound : a.Sound) (unfinished : a.complete = false)
    (tolerates : IoKind → Bool) {answer : ReadAnswer}
    (loses : source.delivered = answer.given ++ rest.delivered) :
    Advances a.limit (a.buffer ++ source.delivered)
      ((a.absorb tolerates answer).1, (a.absorb tolerates answer).2, rest) := by
  have pending := pending_of_open unfinished
  rw [loses]
  cases answer with
  | failed error =>
    rw [absorb]
    split <;> exact advances_of_kept sound (by rw [pending]; rfl) (by simp)
  | octets bs =>
    rw [absorb]
    split
    next empty =>
      obtain rfl : bs = [] := List.isEmpty_iff.1 empty
      exact advances_of_kept sound (by rw [pending]; rfl) (by simp)
    next =>
      rw [ReadAnswer.given, ← List.append_assoc]
      exact settle_advances (sound.append unfinished bs) unfinished rest

/-- An attempt advances, by whatever kind of read. -/
theorem attempt_advances (sound : a.Sound) (tolerates : IoKind → Bool)
    (read : Assembler → Script → ReadAnswer × Script)
    (loses : ∀ a, source.delivered = (read a source).1.given ++ (read a source).2.delivered) :
    Advances a.limit (a.pending ++ source.delivered)
      (match a.advance.settle with
        | (.ok false, a) =>
          ((a.absorb tolerates (read a source).1).1, (a.absorb tolerates (read a source).1).2,
            (read a source).2)
        | (result, a) => (result, a, source)) := by
  obtain ⟨sound', unfinished, same⟩ := sound.advance
  have settled := settle_settles sound' unfinished
  have advances := settle_advances sound' unfinished source
  rw [same] at settled advances
  change Advances a.limit (a.pending ++ source.delivered) _ at advances
  generalize made : a.advance.settle = result at settled advances
  cases settled with
  | frame => exact advances
  | malformed => exact advances
  | @short a' sound'' same' unfinished' kept =>
    rw [← same', pending, ← kept]
    exact absorb_advances sound'' unfinished' tolerates (loses a')

/-- An attempt that does not wait advances. -/
theorem readFrame_advances (sound : a.Sound) (source : Script) :
    Advances a.limit (a.pending ++ source.delivered) (a.readFrame source) :=
  attempt_advances sound isPassing (fun a source => source.readNow a.readSize)
    fun _ => Script.delivered_readNow

/-- An attempt that waits advances. -/
theorem readFrameUpTo_advances (sound : a.Sound) (room : Nat) (source : Script) :
    Advances a.limit (a.pending ++ source.delivered) (a.readFrameUpTo room source) :=
  attempt_advances sound (fun _ => false) (fun _ source => source.readWaiting room)
    fun _ => Script.delivered_readWaiting

/-- Attempts that each advance report frames of the stream and nothing else, also those after an
error. -/
theorem frames_reports_of_advances
    {attempt : Nat → Assembler → Script → Except IoError Bool × Assembler × Script}
    (advances : ∀ i a source, Sound a →
      Advances a.limit (a.pending ++ source.delivered) (attempt i a source))
    (sizes : Nat → List Nat) (i n : Nat) (sound : a.Sound) (source : Script) :
    (a.reports attempt sizes i n source).filterMap Report.frame? <+:
      (parseFrames a.limit (a.pending ++ source.delivered)).1 := by
  induction n generalizing i a source with
  | zero => exact List.nil_prefix
  | succ n ih =>
    have made := advances i a source sound
    rw [reports]
    generalize attempt i a source = result at made ⊢
    obtain ⟨result, a', rest⟩ := result
    obtain ⟨sound', same, frames⟩ := made
    obtain ⟨sound'', same', pending⟩ := sound'.readOff (sizes i)
    have later := ih (i + 1) sound'' rest
    rw [same', same, pending] at later
    rw [frames, List.filterMap_cons]
    cases Report.frame? ⟨result, a'.remaining, a'.hasPartial⟩ with
    | none => exact later
    | some payload => exact (List.prefix_cons_inj payload).2 later

/-- What was retold of frames is right if their stamps tell, and only then. -/
theorem faithful_iff_of_retell {limit : Nat} {stream : Bytes} {payloads : List Bytes}
    {failures : List IoError} {before : List Report} {last : Report}
    (whole : stream = (payloads.map frameOf).flatten)
    (retell : Retell limit stream failures before last) :
    Faithful limit payloads (before.filterMap Report.frame?) last.result ↔
      StampsTell limit payloads := by
  rw [retell.frames, retell.ending, whole]
  exact faithful_parseFrames_iff

/-- Whatever is written, and in whatever pieces its frames arrive, the frames are returned as they
were written, or refused at a header, just if their stamps tell. And then attempts that go on after
an error still return nothing else. -/
theorem frames_return_or_stop_iff (ops : List DraftOp) (limit : Nat) (source : Script)
    (sizes : Nat → List Nat) (rooms : Nat → Nat) (positive : ∀ i, 0 < rooms i) :
    (source.stream = (Draft.fresh.closed ops).flatten →
      (.ended ∈ source → ∃ n, ∃ before last,
        (fresh limit).reports (fun _ => readFrame) sizes 0 n source = before ++ [last] ∧
          before.filterMap Report.error? <+: source.failures isPassing ∧
          (Faithful limit (DraftOp.payloads ops) (before.filterMap Report.frame?) last.result ↔
            StampsTell limit (DraftOp.payloads ops))) ∧
      ∃ n, ∃ before last,
        (fresh limit).reports (fun i => readFrameUpTo (rooms i)) sizes 0 n source =
            before ++ [last] ∧
          before.filterMap Report.error? <+: (source.failures fun _ => false) ∧
          (Faithful limit (DraftOp.payloads ops) (before.filterMap Report.frame?) last.result ↔
            StampsTell limit (DraftOp.payloads ops))) ∧
    (source.delivered = (Draft.fresh.closed ops).flatten →
      StampsTell limit (DraftOp.payloads ops) → ∀ n,
        ((fresh limit).reports (fun _ => readFrame) sizes 0 n source).filterMap Report.frame? <+:
            DraftOp.payloads ops ∧
          ((fresh limit).reports (fun i => readFrameUpTo (rooms i)) sizes 0 n source).filterMap
              Report.frame? <+: DraftOp.payloads ops) := by
  rw [Draft.closed_fresh]
  have sound := sound_fresh limit
  refine ⟨fun whole => ⟨fun ends => ?_, ?_⟩, fun whole stampsTell n => ?_⟩
  · obtain ⟨n, before, last, run, retell⟩ := reports_retell
      (fun _ _ _ sound ends => readFrame_makes sound ends) id sizes 0 sound ends
    exact ⟨n, before, last, run, retell.errors, faithful_iff_of_retell whole retell⟩
  · obtain ⟨n, before, last, run, retell⟩ : ∃ n, ∃ before last,
        (fresh limit).reports (fun i => readFrameUpTo (rooms i)) sizes 0 n source =
            before ++ [last] ∧
          Retell limit source.stream (source.failures fun _ => false) before last :=
      reports_retell
        (fun i _ source sound (_ : True) => readFrameUpTo_makes sound (positive i) source)
        (fun _ => id) sizes 0 sound trivial
    exact ⟨n, before, last, run, retell.errors, faithful_iff_of_retell whole retell⟩
  · have beginning : (parseFrames limit source.delivered).1 <+: DraftOp.payloads ops := by
      rw [whole]
      exact (faithful_parseFrames_iff.2 stampsTell).beginning
    exact ⟨(frames_reports_of_advances (fun _ _ _ sound => readFrame_advances sound _) sizes 0 n
        sound source).trans beginning,
      (frames_reports_of_advances (fun i _ _ sound => readFrameUpTo_advances sound (rooms i) _)
        sizes 0 n sound source).trans beginning⟩

/-- An octet is dropped, and the frames of a number in two octets and of nothing follow. -/
def shortOps : List DraftOp := [.octets [9], .reset, .number 2 258, .close, .close]

theorem frames_return_or_stop_of_shortOps :
    (∀ i : Nat, 0 < i + 1) ∧ StampsTell 64 (DraftOp.payloads shortOps) ∧
    (∃ n, ∃ before last,
      (fresh 64).reports (fun _ => readFrame) (fun _ => [1]) 0 n
          [.piece [0, 0, 0], .pause, .piece [6, 1], .piece [2, 0, 0, 0, 4], .ended] =
          before ++ [last] ∧
        before.filterMap Report.frame? = [[1, 2], []] ∧
        last.result = .error ⟨.unexpectedEof, "end of stream"⟩) ∧
    ∀ n, ((fresh 64).reports (fun i => readFrameUpTo (i + 1)) (fun _ => [1]) 0 n
        [.piece [0, 0, 0], .pause, .piece [6, 1], .piece [2, 0, 0, 0, 4], .ended]).filterMap
          Report.frame? <+: [[1, 2], []] := by
  have positive : ∀ i : Nat, 0 < i + 1 := Nat.succ_pos
  have stampsTell : StampsTell 64 (DraftOp.payloads shortOps) := .inl (by decide)
  obtain ⟨whole, later⟩ := frames_return_or_stop_iff shortOps 64
    [.piece [0, 0, 0], .pause, .piece [6, 1], .piece [2, 0, 0, 0, 4], .ended] (fun _ => [1])
    (fun i => i + 1) positive
  obtain ⟨n, before, last, run, -, faithful⟩ := (whole (by decide)).1 (by decide)
  refine ⟨positive, stampsTell, ⟨n, before, last, run, ?_⟩,
    fun n => (later (by decide) stampsTell n).2⟩
  have both : DraftOp.payloads shortOps = [[1, 2], []] := by decide
  have told := faithful.2 stampsTell
  rw [both] at told
  generalize before.filterMap Report.frame? = frames at told ⊢
  generalize last.result = ending at told ⊢
  -- Neither frame is beyond the limit.
  obtain _ | ⟨_ | ⟨_ | _⟩ | beyond⟩ | beyond := told
  · exact ⟨rfl, rfl⟩
  · exact absurd beyond (by decide)
  · exact absurd beyond (by decide)

/-- More octets than a header can tell of. -/
def overlong : Bytes := List.replicate UInt32.size 0

theorem length_overlong : overlong.length = UInt32.size := List.length_replicate

theorem payloads_overlong : DraftOp.payloads [.octets overlong, .close] = [overlong] := by
  have single (bs : Bytes) : DraftOp.payloads [.octets bs, .close] = [bs] :=
    congrArg (fun payload => [payload]) (List.append_nil bs)
  exact single overlong

/-- A limit of the greatest stamp lets the frame pass, but without its last five octets. -/
theorem parseFrames_overlong : parseFrames (UInt32.size - 1) (frameOf overlong) =
    ([overlong.take (UInt32.size - 5)], .malformed 0) := by
  have stamp : Draft.stamp (overlong.length + frameHeader) = frameHeader + (UInt32.size - 5) := by
    rw [length_overlong]
    decide
  have others : overlong.drop (UInt32.size - 5) ++ [] = List.replicate 5 0 := by
    rw [List.append_nil, overlong, List.drop_replicate]
    rfl
  have zero : parseFrames (UInt32.size - 1) (List.replicate 5 0) = ([], .malformed 0) :=
    parseFrames_malformed (by decide) (by decide) (.inl (by decide))
  rw [← List.append_nil (frameOf overlong), parseFrames_of_stamp_le stamp (by decide), others, zero]

/-- A reader whose limit is the greatest stamp returns a part of a longer frame for the whole, and
takes the rest of it for a header. -/
theorem overlong_frame_is_cut :
    (Draft.fresh.closed [.octets overlong, .close]).flatten = frameOf overlong ∧
    ∃ n, ∃ before last,
      (fresh (UInt32.size - 1)).reports (fun _ => readFrame) (fun _ => []) 0 n
          [.piece (frameOf overlong), .ended] = before ++ [last] ∧
        before.filterMap Report.frame? = [overlong.take (UInt32.size - 5)] ∧
        last.result = .error (malformed 0) ∧
        ¬ Faithful (UInt32.size - 1) (DraftOp.payloads [.octets overlong, .close])
          (before.filterMap Report.frame?) last.result := by
  have finished : (Draft.fresh.closed [.octets overlong, .close]).flatten = frameOf overlong := by
    rw [Draft.closed_fresh, payloads_overlong, List.map_singleton, List.flatten_singleton]
  have shorter : overlong.take (UInt32.size - 5) ≠ overlong := by
    intro same
    have lengths := congrArg List.length same
    rw [List.length_take, length_overlong] at lengths
    exact absurd lengths (by decide)
  have ends : Delivery.ended ∈ [.piece (frameOf overlong), .ended] :=
    List.mem_cons_of_mem _ (List.mem_singleton.2 rfl)
  obtain ⟨n, before, last, run, retell⟩ := reports_retell
    (fun _ _ _ sound ends => readFrame_makes sound ends) id (fun _ => []) 0
    (sound_fresh (UInt32.size - 1)) ends
  have stream (bs : Bytes) : Script.stream [.piece bs, .ended] = bs := List.append_nil bs
  change Retell (UInt32.size - 1) (Script.stream [.piece (frameOf overlong), .ended]) _ before last
    at retell
  rw [stream] at retell
  have frames := retell.frames
  have ending := retell.ending
  rw [parseFrames_overlong] at frames ending
  refine ⟨finished, n, before, last, run, frames, ending, ?_⟩
  rw [frames, payloads_overlong, faithful_cons_iff]
  exact fun faithful => shorter faithful.1

end Assembler

end Cohort

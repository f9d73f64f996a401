import Cohort.Proofs.Frame.Bounds

/-!
# Frames and errors in their order

A caller who makes attempt after attempt is told frames, and errors of the source between them. What
it is told, and in which order, depends on the octets and the errors that the source brings, but not
on how many octets a read takes. `recount` takes in one octet or error after the other, and every
run of attempts tells the same. Attempts that wait and attempts that do not differ in one thing
only: an interruption is an error for the one kind and means nothing for the other.

## Main definitions

* `tellings`: what a caller is told.
* `Script.feed`: the octets and errors that a source brings.
* `recount`: what a caller is told who takes them in one by one.
* `Script.Reaches`: an error comes before the stream is over.

## Main statements

* `recount_octets`, `recount_whole`, `recount_malformed`: a buffer taken in octet by octet.
* `Assembler.attemptBy_recounts`: what one attempt tells, by whatever kind of read.
* `Assembler.reports_recount`: what attempt after attempt tells, from any state of an assembler.
* `Assembler.waiting_tells_the_same_iff`: when attempts that wait tell what others do.
-/

namespace Cohort

/-! ## What is told -/

namespace Assembler

/-- What a report tells: a frame, an error, or nothing yet. -/
def Report.told? (report : Report) : Option (Except IoError Bytes) :=
  match report.result with
  | .ok true => some (.ok report.payload)
  | .ok false => none
  | .error error => some (.error error)

/-- The frames and errors that a caller is told, in their order. -/
def tellings (reports : List Report) : List (Except IoError Bytes) :=
  reports.filterMap Report.told?

end Assembler

/-- An error that is passed over by attempts that do not wait. -/
def isPassed {α : Type} : Except IoError α → Bool
  | .ok _ => false
  | .error error => Assembler.isPassing error.kind

@[simp] theorem isPassed_ok {α : Type} (a : α) : isPassed (.ok a : Except IoError α) = false := rfl

@[simp] theorem isPassed_error {α : Type} (error : IoError) :
    isPassed (.error error : Except IoError α) = Assembler.isPassing error.kind := rfl

/-- Without the text of the error. -/
def kindOnly (telling : Except IoError Bytes) : Except IoKind Bytes := telling.mapError IoError.kind

/-- What a read met, as a delivery of its own. -/
def ReadAnswer.delivery : ReadAnswer → Delivery
  | .octets bs => if bs.isEmpty then .ended else .piece bs
  | .failed error => .failing error

namespace Script

variable {tolerates : IoKind → Bool} {source : Script} {asked : Nat}

/-- The octets and errors that a source brings before the stream ends, without the errors that are
passed over. -/
def feed (tolerates : IoKind → Bool) : Script → List (Except IoError UInt8)
  | [] | .ended :: _ => []
  | .piece bs :: rest => bs.map .ok ++ feed tolerates rest
  | .pause :: rest => feed tolerates rest
  | .failing error :: rest =>
    if tolerates error.kind then feed tolerates rest else .error error :: feed tolerates rest

theorem feed_putBack (bs : Bytes) (rest : Script) :
    (putBack bs rest).feed tolerates = bs.map .ok ++ rest.feed tolerates := by
  unfold putBack
  split
  next empty => rw [List.isEmpty_iff.1 empty, List.map_nil, List.nil_append]
  next => rfl

/-- A read takes what it gives off a piece. -/
theorem feed_piece {bs : Bytes} (nonempty : bs.isEmpty = false) (positive : 0 < asked)
    (rest : Script) : feed tolerates (.piece bs :: rest) =
      feed tolerates ((ReadAnswer.octets (bs.take asked)).delivery ::
        putBack (bs.drop asked) rest) := by
  have some_ : (bs.take asked).isEmpty = false := by
    rw [List.isEmpty_eq_false_iff] at nonempty ⊢
    rw [Ne, List.take_eq_nil_iff, not_or]
    exact ⟨by omega, nonempty⟩
  rw [ReadAnswer.delivery, if_neg (Bool.eq_false_iff.1 some_), feed, feed, feed_putBack,
    ← List.append_assoc, ← List.map_append, List.take_append_drop]

/-- A read that does not wait takes what it met off the front. -/
theorem feed_readNow (tolerated : tolerates .wouldBlock = true) (positive : 0 < asked)
    (ends : .ended ∈ source) : source.feed tolerates =
      feed tolerates ((source.readNow asked).1.delivery :: (source.readNow asked).2) := by
  fun_induction readNow asked source with
  | case1 => cases ends
  | case2 bs rest empty ih =>
    obtain rfl : bs = [] := List.isEmpty_iff.1 empty
    exact ih ((List.mem_cons.1 ends).resolve_left (by simp))
  | case3 bs rest nonempty => exact feed_piece (Bool.eq_false_iff.2 nonempty) positive rest
  | case4 rest => exact (if_pos tolerated).symm
  | case5 error rest => rfl
  | case6 rest => rfl

/-- A read that waits takes what it met off the front. -/
theorem feed_readWaiting (positive : 0 < asked) : source.feed tolerates =
    feed tolerates ((source.readWaiting asked).1.delivery :: (source.readWaiting asked).2) := by
  fun_induction readWaiting asked source with
  | case1 => rfl
  | case2 bs rest empty ih =>
    obtain rfl : bs = [] := List.isEmpty_iff.1 empty
    exact ih
  | case3 bs rest nonempty => exact feed_piece (Bool.eq_false_iff.2 nonempty) positive rest
  | case4 rest ih => exact ih
  | case5 error rest => rfl
  | case6 rest => rfl

end Script

/-! ## One octet after the other -/

/-- What a caller is told who takes in octets and errors one by one, after the octets in `front`. As
soon as they make up a frame, it is told; an impossible header and the end of the stream are told
last. -/
def recount (limit : Nat) (front : Bytes) :
    List (Except IoError UInt8) → List (Except IoError Bytes)
  | [] => [.error (Assembler.errorOf (parseFrames limit front).2)]
  | .error error :: items => .error error :: recount limit front items
  | .ok octet :: items =>
    match parseFrames limit (front ++ [octet]) with
    | (payload :: _, _) => .ok payload :: recount limit [] items
    | ([], .malformed declared) => [.error (Assembler.malformed declared)]
    | ([], _) => recount limit (front ++ [octet]) items

/-- No frame is complete, and no header is known to be impossible. -/
def IsOpen (limit : Nat) (bs : Bytes) : Prop :=
  frameHeader ≤ bs.length →
    frameHeader ≤ Bytes.toNatBE (bs.take frameHeader) ∧
      Bytes.toNatBE (bs.take frameHeader) ≤ limit ∧
      bs.length < Bytes.toNatBE (bs.take frameHeader)

section Recount

variable {limit : Nat} {front bs : Bytes} {items : List (Except IoError UInt8)} {octet : UInt8}

theorem IsOpen.parse (opened : IsOpen limit bs) :
    parseFrames limit bs = ([], if bs.isEmpty then .clean else .truncated) := by
  by_cases short : bs.length < frameHeader
  · exact parseFrames_short short
  · have header := Nat.le_of_not_lt short
    obtain ⟨least, most, longer⟩ := opened header
    rw [Assembler.isEmpty_of_header header]
    exact parseFrames_truncated header rfl ⟨least, most⟩ longer

/-- What is open was open before. -/
theorem IsOpen.of_append {later : Bytes} (opened : IsOpen limit (bs ++ later)) :
    IsOpen limit bs := by
  intro header
  have longer := opened (by rw [List.length_append]; omega)
  rw [List.take_append_of_le_length header, List.length_append] at longer
  omega

/-- An octet that does not complete anything is kept. -/
theorem recount_octet (opened : IsOpen limit (front ++ [octet])) :
    recount limit front (.ok octet :: items) = recount limit (front ++ [octet]) items := by
  rw [recount, opened.parse]
  split
  next eq => cases eq
  next declared eq =>
    rw [Prod.mk.injEq] at eq
    split at eq <;> cases eq.2
  next => rfl

/-- Octets that do not complete anything are kept. -/
theorem recount_octets (opened : IsOpen limit (front ++ bs)) :
    recount limit front (bs.map .ok ++ items) = recount limit (front ++ bs) items := by
  induction bs generalizing front with
  | nil => rw [List.map_nil, List.nil_append, List.append_nil]
  | cons octet bs ih =>
    have split : front ++ octet :: bs = front ++ [octet] ++ bs := by
      rw [List.append_assoc, List.singleton_append]
    rw [split] at opened ⊢
    rw [List.map_cons, List.cons_append, recount_octet opened.of_append, ih opened]

/-- Octets up to some place are kept if they do not complete anything. -/
theorem recount_upTo {n : Nat} (inside : n < bs.length) (opened : IsOpen limit (bs.take n)) :
    recount limit [] (bs.map .ok ++ items) =
      recount limit (bs.take n) (.ok bs[n] :: ((bs.drop (n + 1)).map .ok ++ items)) := by
  have kept := @recount_octets limit [] (bs.take n)
    (.ok bs[n] :: ((bs.drop (n + 1)).map .ok ++ items)) opened
  rw [List.nil_append] at kept
  rw [← kept, ← List.cons_append, ← List.map_cons, ← List.append_assoc, ← List.map_append,
    ← List.drop_eq_getElem_cons inside, List.take_append_drop]

/-- A frame at the front is told first. -/
theorem recount_whole {length : Nat}
    (declares : Bytes.toNatBE (bs.take frameHeader) = length)
    (possible : frameHeader ≤ length ∧ length ≤ limit) (whole : length ≤ bs.length) :
    recount limit [] (bs.map .ok ++ items) =
      .ok ((bs.take length).drop frameHeader) ::
        recount limit [] ((bs.drop length).map .ok ++ items) := by
  have width : frameHeader = 4 := rfl
  obtain ⟨n, rfl⟩ : ∃ n, length = n + 1 := ⟨length - 1, by omega⟩
  have front (m : Nat) (long : frameHeader ≤ m) : (bs.take m).take frameHeader =
      bs.take frameHeader := by rw [List.take_take, Nat.min_eq_left long]
  have opened : IsOpen limit (bs.take n) := by
    intro long
    rw [List.length_take] at long ⊢
    rw [front n (by omega), declares]
    omega
  have last : bs.take n ++ [bs[n]] = bs.take (n + 1) := List.take_append_getElem whole
  have size : (bs.take (n + 1)).length = n + 1 := by rw [List.length_take]; omega
  have parse : parseFrames limit (bs.take (n + 1)) = _ := parseFrames_frame (by omega)
    ((congrArg _ (front (n + 1) possible.1)).trans declares) possible size.ge
  rw [recount_upTo whole opened, recount, last, parse, List.take_take, Nat.min_self]

/-- An impossible header is told and nothing after it. -/
theorem recount_malformed (header : frameHeader ≤ bs.length) {declared : Nat}
    (declares : Bytes.toNatBE (bs.take frameHeader) = declared)
    (impossible : declared < frameHeader ∨ limit < declared) :
    recount limit [] (bs.map .ok ++ items) = [.error (Assembler.malformed declared)] := by
  have inside : 3 < bs.length := header
  have opened : IsOpen limit (bs.take 3) := fun long =>
    absurd (long.trans (List.length_take_le ..)) (by decide)
  have last : bs.take 3 ++ [bs[3]] = bs.take frameHeader := List.take_append_getElem inside
  have size : (bs.take frameHeader).length = frameHeader := by rw [List.length_take]; omega
  have parse : parseFrames limit (bs.take frameHeader) = _ := parseFrames_malformed size.ge
    (by rwa [List.take_take, Nat.min_self]) impossible
  rw [recount_upTo inside opened, recount, last, parse]

end Recount

namespace Assembler

variable {a b : Assembler} {tolerates : IoKind → Bool} {limit : Nat} {source : Script}
  {items : List (Except IoError UInt8)}

/-! ## What an attempt tells -/

theorem Checks.isOpen (checks : Checks a (.ok false, b)) : IsOpen a.limit a.buffer := by
  cases checks with
  | headless unknown short => exact fun header => absurd header (Nat.not_le.2 short)
  | short header declares possible short =>
    rw [IsOpen, declares]
    exact fun _ => ⟨possible.1, possible.2, short⟩

/-- A frame that is found is the first of what is told of the buffer. -/
theorem Checks.recount_found (checks : Checks a (.ok true, b))
    (items : List (Except IoError UInt8)) :
    recount a.limit [] (a.buffer.map .ok ++ items) =
      .ok b.remaining :: recount a.limit [] (b.pending.map .ok ++ items) ∧
    b.pending.length < a.buffer.length := by
  cases checks with
  | whole header declares possible whole =>
    have width : frameHeader = 4 := rfl
    refine ⟨recount_whole declares possible whole, ?_⟩
    rw [pending_of_complete rfl, List.length_drop]
    dsimp only
    omega

/-- A header that is refused is all that is told of the buffer. -/
theorem Checks.recount_refused {error : IoError} (checks : Checks a (.error error, b)) :
    recount a.limit [] (a.buffer.map .ok ++ items) = [.error error] := by
  cases checks with
  | malformed header impossible => exact recount_malformed header rfl impossible

/-- What one attempt tells of what is pending and of what the source brings: the first of it, or
nothing yet, or all of it. -/
inductive Recounts (tolerates : IoKind → Bool) (limit : Nat) (pending : Bytes) (source : Script) :
    Except IoError Bool × Assembler × Script → Prop
  | onward {result : Except IoError Bool} {a : Assembler} {rest : Script} (sound : a.Sound)
      (same : a.limit = limit)
      (tells : recount limit [] (pending.map .ok ++ source.feed tolerates) =
        (Report.told? ⟨result, a.remaining, a.hasPartial⟩).toList ++
          recount limit [] (a.pending.map .ok ++ rest.feed tolerates))
      (lighter : 2 * rest.weight + a.pending.length < 2 * source.weight + pending.length)
      (ends : .ended ∈ source → .ended ∈ rest) :
      Recounts tolerates limit pending source (result, a, rest)
  | last {error : IoError} {a : Assembler} {rest : Script}
      (tells : recount limit [] (pending.map .ok ++ source.feed tolerates) = [.error error]) :
      Recounts tolerates limit pending source (.error error, a, rest)

/-- The check of a frame tells what is at the front of the buffer, if it finds a frame or refuses a
header, or if there was something to take in. -/
theorem settle_recounts (sound : a.Sound) (unfinished : a.complete = false) {pending : Bytes}
    {rest : Script} (joined : pending.map .ok ++ source.feed tolerates =
      a.buffer.map .ok ++ rest.feed tolerates)
    (weighs : 2 * rest.weight + a.buffer.length ≤ 2 * source.weight + pending.length)
    (lighter : a.settle.1 = .ok false →
      2 * rest.weight + a.buffer.length < 2 * source.weight + pending.length)
    (ends : .ended ∈ source → .ended ∈ rest) :
    Recounts tolerates a.limit pending source (a.settle.1, a.settle.2, rest) := by
  have checks := settle_checks sound unfinished
  obtain ⟨proper, limit, buffer⟩ := checks.proper sound unfinished
  generalize a.settle = settled at checks proper limit buffer lighter
  obtain ⟨result, b⟩ := settled
  cases result with
  | error error => exact .last (joined ▸ checks.recount_refused)
  | ok found =>
    cases found with
    | true =>
      obtain ⟨found, shorter⟩ := checks.recount_found (rest.feed tolerates)
      exact .onward proper.toSound limit (joined ▸ found)
        (Nat.lt_of_lt_of_le (Nat.add_lt_add_left shorter _) weighs) ends
    | false =>
      have unfinished' : b.complete = false := by cases checks <;> exact unfinished
      have pending' : b.pending = a.buffer := (pending_of_open unfinished').trans buffer
      exact .onward proper.toSound limit (by rw [joined, pending']; rfl)
        (pending' ▸ lighter rfl) ends

/-- What a read brings is told after what is there. -/
theorem absorb_recounts (sound : a.Sound) (unfinished : a.complete = false)
    (opened : IsOpen a.limit a.buffer) {answer : ReadAnswer} {rest : Script}
    (meets : Script.Meets tolerates source rest answer)
    (feeds : source.feed tolerates = Script.feed tolerates (answer.delivery :: rest)) :
    Recounts tolerates a.limit a.buffer source
      ((a.absorb tolerates answer).1, (a.absorb tolerates answer).2, rest) := by
  have pending := pending_of_open unfinished
  cases meets with
  | @octets bs nonempty _ _ lighter ends =>
    have some_ : bs.isEmpty = false := List.isEmpty_eq_false_iff.2 nonempty
    have joined : a.buffer.map .ok ++ source.feed tolerates =
        (a.buffer ++ bs).map .ok ++ rest.feed tolerates := by
      rw [feeds, ReadAnswer.delivery, if_neg (Bool.eq_false_iff.1 some_), Script.feed,
        ← List.append_assoc, ← List.map_append]
    have fewer : 2 * rest.weight + (a.buffer ++ bs).length <
        2 * source.weight + a.buffer.length := by
      rw [List.length_append]
      have := List.length_pos_iff.2 nonempty
      omega
    rw [absorb, if_neg (Bool.eq_false_iff.1 some_)]
    exact settle_recounts (sound.append unfinished bs) unfinished joined fewer.le
      (fun _ => fewer) ends
  | @passing error tolerated _ _ lighter ends =>
    rw [ReadAnswer.delivery, Script.feed, if_pos tolerated] at feeds
    rw [absorb, if_pos tolerated]
    exact .onward sound rfl (by rw [feeds, pending]; rfl) (by rw [pending]; omega) ends
  | @failing error fatal _ _ lighter ends =>
    rw [ReadAnswer.delivery, Script.feed, if_neg (Bool.eq_false_iff.1 fatal)] at feeds
    rw [absorb, if_neg (Bool.eq_false_iff.1 fatal)]
    refine .onward sound rfl ?_ (by rw [pending]; omega) ends
    rw [feeds, pending, @recount_octets _ [] _ _ opened, @recount_octets _ [] _ _ opened]
    rfl
  | ended =>
    have stops : a.absorb tolerates (.octets []) = (.error a.endError, a) := rfl
    rw [stops]
    refine .last ?_
    have nothing : source.feed tolerates = [] := feeds
    rw [nothing, @recount_octets _ [] _ _ opened, List.nil_append, recount, opened.parse,
      endError_eq]

/-- What one attempt tells, by whatever kind of read. -/
theorem attemptBy_recounts (sound : a.Sound) {read : Nat → ReadAnswer × Script}
    (meets : ∀ size, 0 < size → Script.Meets tolerates source (read size).2 (read size).1)
    (feeds : ∀ size, 0 < size → source.feed tolerates =
      Script.feed tolerates ((read size).1.delivery :: (read size).2)) :
    Recounts tolerates a.limit a.pending source (a.attemptBy tolerates read source) := by
  obtain ⟨sound', unfinished, same⟩ := sound.advance
  rw [attemptBy, ← same]
  split
  next b paused =>
    have checks := paused ▸ settle_checks sound' unfinished
    obtain ⟨proper, limit, buffer⟩ := checks.proper sound' unfinished
    have unfinished' : b.complete = false := by cases checks <;> exact unfinished
    have positive : 0 < b.readSize := Nat.lt_of_lt_of_le (by decide) (Nat.le_max_right _ _)
    have opened := checks.isOpen
    change Recounts tolerates a.advance.limit a.advance.buffer source _
    change b.limit = _ at limit
    change b.buffer = _ at buffer
    rw [← limit, ← buffer] at opened ⊢
    exact absorb_recounts proper.toSound unfinished' opened (meets _ positive) (feeds _ positive)
  next result b other settled =>
    have parts : (result, b, source) = (a.advance.settle.1, a.advance.settle.2, source) := by
      rw [settled]
    rw [parts]
    refine settle_recounts sound' unfinished rfl (Nat.le_refl _) (fun paused => ?_) id
    rw [settled] at paused
    exact absurd paused other

/-- What an attempt tells that does not wait. -/
theorem readFrame_recounts (sound : a.Sound) (ends : .ended ∈ source) :
    Recounts isPassing a.limit a.pending source (a.readFrame source) := by
  rw [readFrame_eq]
  exact attemptBy_recounts sound
    (fun _ positive => Script.readNow_meets (by decide) positive ends)
    fun _ positive => Script.feed_readNow (by decide) positive ends

/-- What an attempt tells that waits. -/
theorem readFrameUpTo_recounts (sound : a.Sound) {room : Nat} (positive : 0 < room)
    (source : Script) :
    Recounts (fun _ => false) a.limit a.pending source (a.readFrameUpTo room source) := by
  rw [readFrameUpTo_eq]
  exact attemptBy_recounts sound (fun _ _ => Script.readWaiting_meets positive)
    fun _ _ => Script.feed_readWaiting positive

/-- Attempt after attempt tells what is pending and what the source brings, from any state of an
assembler, and whatever is read of the payloads in between. -/
theorem reports_recount {live : Script → Prop}
    {attempt : Nat → Assembler → Script → Except IoError Bool × Assembler × Script}
    (recounts : ∀ i a source, Sound a → live source →
      Recounts tolerates a.limit a.pending source (attempt i a source))
    (stays : ∀ {source rest : Script}, (.ended ∈ source → .ended ∈ rest) → live source → live rest)
    (sizes : Nat → List Nat) (i : Nat) (sound : a.Sound) (source : Script) (lives : live source) :
    ∃ n, tellings (a.reports attempt sizes i n source) =
      recount a.limit [] (a.pending.map .ok ++ source.feed tolerates) := by
  -- As for `reports_retell`, an attempt that is not the last uses up some of the script, which
  -- weighs twice, or of what is pending.
  induction size : 2 * source.weight + a.pending.length using Nat.strongRecOn
    generalizing i a source with
  | ind size ih =>
    subst size
    have told := recounts i a source sound lives
    generalize attempted : attempt i a source = result at told
    cases told with
    | @onward result b rest sound' same tells lighter ends =>
      obtain ⟨sound'', same', pending⟩ := sound'.readOff (sizes i)
      obtain ⟨n, later⟩ :=
        ih _ (by rw [pending]; exact lighter) (i + 1) sound'' rest (stays ends lives) rfl
      rw [same', same, pending] at later
      refine ⟨n + 1, ?_⟩
      rw [tells, ← later, reports, attempted, tellings, List.filterMap_cons]
      cases Report.told? ⟨result, b.remaining, b.hasPartial⟩ <;> rfl
    | last tells =>
      refine ⟨1, ?_⟩
      rw [tells, reports, attempted]
      rfl

end Assembler

/-! ## Interruptions -/

theorem isPassed_errorOf (ending : StreamEnd) :
    isPassed (.error (Assembler.errorOf ending) : Except IoError Bytes) = false := by
  cases ending <;> rfl

/-- The octets among what a source brings. -/
def octetsOf (items : List (Except IoError UInt8)) : Bytes := items.filterMap Except.toOption

/-- Where an element is found in a list: in front, or further on. -/
theorem exists_split_cons {α : Type} {x y : α} {l : List α} {P : List α → Prop} :
    (∃ before after, x :: l = before ++ y :: after ∧ P before) ↔
      x = y ∧ P [] ∨ ∃ before after, l = before ++ y :: after ∧ P (x :: before) := by
  constructor
  · rintro ⟨before, after, split, holds⟩
    cases before with
    | nil => exact .inl ⟨(List.cons.inj split).1, holds⟩
    | cons first before =>
      obtain ⟨rfl, later⟩ := List.cons.inj split
      exact .inr ⟨before, after, later, holds⟩
  · rintro (⟨rfl, holds⟩ | ⟨before, after, rfl, holds⟩)
    · exact ⟨[], l, rfl, holds⟩
    · exact ⟨x :: before, after, rfl, holds⟩

namespace Script

variable {source : Script} {limit : Nat} {error : IoError}

/-- Attempts that do not wait miss the interruptions, and nothing else. -/
theorem feed_isPassing (source : Script) : source.feed Assembler.isPassing =
    (source.feed fun _ => false).filter fun item => !isPassed item := by
  induction source with
  | nil => rfl
  | cons delivery source ih =>
    cases delivery with
    | piece bs =>
      have octets : (bs.map (Except.ok (ε := IoError))).filter (fun item => !isPassed item) =
          bs.map .ok := by
        rw [List.filter_eq_self]
        intro item there
        obtain ⟨octet, -, rfl⟩ := List.mem_map.1 there
        rfl
      rw [feed, feed, List.filter_append, octets, ih]
    | pause => exact ih
    | failing error =>
      cases passes : Assembler.isPassing error.kind <;> simp [feed, passes, ih]
    | ended => rfl

/-- An error comes before the stream ends, and before a header that is impossible. -/
def Reaches (limit : Nat) (source : Script) (error : IoError) : Prop :=
  ∃ before after, source = before ++ .failing error :: after ∧ .ended ∉ before ∧
    ∀ declared, (parseFrames limit (stream before)).2 ≠ .malformed declared

/-- An error is brought after octets if a source holds it behind deliveries of these. -/
theorem split_feed_iff {P : Bytes → Prop} :
    (∃ before after, feed (fun _ => false) source = before ++ .error error :: after ∧
        P (octetsOf before)) ↔
      ∃ before after, source = before ++ .failing error :: after ∧ .ended ∉ before ∧
        P (stream before) := by
  induction source generalizing P with
  | nil => simp [feed]
  | cons delivery source ih =>
    rw [exists_split_cons (P := fun before => .ended ∉ before ∧ P (stream before))]
    cases delivery with
    | piece bs =>
      -- no octet of the piece is the error, and all of them come before what follows
      have skipped : (∃ before after, bs.map .ok ++ feed (fun _ => false) source =
            before ++ .error error :: after ∧ P (octetsOf before)) ↔
          ∃ before after, feed (fun _ => false) source = before ++ .error error :: after ∧
            P (bs ++ octetsOf before) := by
        clear ih
        induction bs generalizing P with
        | nil => rfl
        | cons octet bs ih =>
          rw [List.map_cons, List.cons_append,
            exists_split_cons (P := fun before => P (octetsOf before))]
          simp only [reduceCtorEq, false_and, false_or]
          exact @ih fun octets => P (octet :: octets)
      rw [feed, skipped, @ih fun octets => P (bs ++ octets)]
      simp [stream]
    | pause =>
      rw [feed, ih]
      simp [stream]
    | failing other =>
      have later := @ih P
      rw [feed, if_neg (by simp), exists_split_cons (P := fun before => P (octetsOf before))]
      refine or_congr (by simp [octetsOf, stream]) (later.trans ?_)
      simp [stream]
    | ended => simp [feed]

end Script

section Recount

variable {limit : Nat} {front : Bytes} {items : List (Except IoError UInt8)} {error : IoError}

/-- One octet more, and a frame is there, or an impossible header, or still neither. -/
theorem IsOpen.next (opened : IsOpen limit front) (octet : UInt8) :
    let bs := front ++ [octet]
    let declared := Bytes.toNatBE (bs.take frameHeader)
    IsOpen limit bs ∨ (frameHeader ≤ declared ∧ declared ≤ limit ∧ declared = bs.length) ∨
      frameHeader ≤ bs.length ∧ (declared < frameHeader ∨ limit < declared) := by
  intro bs declared
  have width : frameHeader = 4 := rfl
  have size : bs.length = front.length + 1 := List.length_append
  by_cases header : frameHeader ≤ bs.length
  · by_cases impossible : declared < frameHeader ∨ limit < declared
    · exact .inr (.inr ⟨header, impossible⟩)
    · rw [not_or, Nat.not_lt, Nat.not_lt] at impossible
      have least : bs.length ≤ declared := by
        by_cases before : frameHeader ≤ front.length
        · have same : bs.take frameHeader = front.take frameHeader :=
            List.take_append_of_le_length before
          have longer := (opened before).2.2
          rw [← same] at longer
          omega
        · omega
      by_cases longer : bs.length < declared
      · exact .inl fun _ => ⟨impossible.1, impossible.2, longer⟩
      · exact .inr (.inl ⟨impossible.1, impossible.2, by omega⟩)
  · exact .inl fun there => absurd there header

/-- Where interruptions are left out of what is brought, they are left out of what is told. -/
theorem recount_filter : recount limit front (items.filter fun item => !isPassed item) =
    (recount limit front items).filter fun telling => !isPassed telling := by
  induction items generalizing front with
  | nil =>
    have told := isPassed_errorOf (parseFrames limit front).2
    rw [List.filter_nil, recount, List.filter_cons_of_pos (by rw [told]; rfl), List.filter_nil]
  | cons item items ih =>
    cases item with
    | error error =>
      cases passes : Assembler.isPassing error.kind <;> simp [recount, passes, ih]
    | ok octet =>
      have kept : (.ok octet :: items).filter (fun item => !isPassed item) =
          .ok octet :: items.filter fun item => !isPassed item := rfl
      rw [kept]
      rcases parse : parseFrames limit (front ++ [octet]) with ⟨_ | ⟨payload, payloads⟩, ending⟩
      · have refused := isPassed_errorOf ending
        cases ending <;> simp_all [recount, Assembler.errorOf]
      · simp [recount, parse, ih]

/-- An interruption is told if it is brought before an impossible header is complete. -/
theorem mem_recount_iff (passes : Assembler.isPassing error.kind = true)
    (opened : IsOpen limit front) : .error error ∈ recount limit front items ↔
      ∃ before after, items = before ++ .error error :: after ∧
        ∀ declared, (parseFrames limit (front ++ octetsOf before)).2 ≠ .malformed declared := by
  have apart (ending : StreamEnd) : (.error error : Except IoError Bytes) ≠
      .error (Assembler.errorOf ending) := by
    intro same
    have refused := isPassed_errorOf ending
    rw [← same, isPassed, passes] at refused
    cases refused
  have fresh : IsOpen limit [] := fun header => absurd header (by decide)
  induction items generalizing front with
  | nil =>
    refine iff_of_false (fun there => apart _ (List.mem_singleton.1 there)) ?_
    rintro ⟨before, after, split, -⟩
    exact absurd split (by simp)
  | cons item items ih =>
    rw [exists_split_cons
      (P := fun before => ∀ d, (parseFrames limit (front ++ octetsOf before)).2 ≠ .malformed d)]
    cases item with
    | error other =>
      have now : ∀ d, (parseFrames limit (front ++ octetsOf [])).2 ≠ .malformed d := by
        intro d
        rw [octetsOf, List.filterMap_nil, List.append_nil, opened.parse]
        dsimp only
        split <;> simp
      rw [recount, List.mem_cons]
      refine or_congr ?_ (ih opened)
      rw [Except.error.injEq, Except.error.injEq, eq_comm, and_iff_left now]
    | ok octet =>
      have split (before : List (Except IoError UInt8)) :
          front ++ octetsOf (.ok octet :: before) = front ++ [octet] ++ octetsOf before := by
        rw [List.append_assoc]
        rfl
      simp only [reduceCtorEq, false_and, false_or, split]
      -- a frame leaves nothing in front, and after an impossible header nothing is told any more
      obtain still | ⟨least, most, whole⟩ | ⟨header, impossible⟩ := opened.next octet
      · rw [recount_octet still]
        exact ih still
      · have first (later : Bytes) : parseFrames limit (front ++ [octet] ++ later) = _ :=
          parseFrames_frame (by rw [List.length_append]; omega)
            (congrArg _ (List.take_append_of_le_length (by omega))) ⟨least, most⟩
            (by rw [List.length_append]; omega)
        have parse := first []
        rw [List.append_nil] at parse
        rw [recount, parse, List.mem_cons, or_iff_right (by simp)]
        simp only [first, whole, List.drop_left]
        exact ih fresh
      · have refused (later : Bytes) : parseFrames limit (front ++ [octet] ++ later) = _ :=
          parseFrames_malformed (by rw [List.length_append]; omega)
            (congrArg _ (List.take_append_of_le_length header)) impossible
        have parse := refused []
        rw [List.append_nil] at parse
        rw [recount, parse]
        refine iff_of_false (fun there => apart (.malformed _) (List.mem_singleton.1 there)) ?_
        rintro ⟨before, after, -, sound⟩
        exact sound _ (congrArg Prod.snd (refused _))

/-- Interruptions are told that come before the stream is over. -/
theorem Script.mem_recount_feed_iff {source : Script}
    (passes : Assembler.isPassing error.kind = true) :
    .error error ∈ recount limit [] (source.feed fun _ => false) ↔ source.Reaches limit error := by
  rw [mem_recount_iff passes fun header => absurd header (by decide)]
  exact split_feed_iff (P := fun bs => ∀ declared, (parseFrames limit bs).2 ≠ .malformed declared)

/-- Leaving interruptions out is no difference if and only if there are none. -/
theorem map_kindOnly_filter_iff {tellings : List (Except IoError Bytes)} :
    (tellings.filter fun telling => !isPassed telling).map kindOnly = tellings.map kindOnly ↔
      ∀ error, .error error ∈ tellings → Assembler.isPassing error.kind = false := by
  constructor
  · intro kinds error there
    have length := congrArg List.length kinds
    rw [List.length_map, List.length_map, List.length_filter_eq_length_iff] at length
    rw [← isPassed_error (α := Bytes), ← Bool.not_eq_true']
    exact length _ there
  · intro without
    refine congrArg _ (List.filter_eq_self.2 fun telling there => ?_)
    cases telling with
    | ok payload => rfl
    | error error => rw [isPassed_error, without error there, Bool.not_false]

end Recount

namespace Assembler

/-- Attempts that do not wait are told what attempts that wait are told, less the interruptions.
Both are told the same frames and the same kinds of errors between them if and only if no
interruption comes before the end of the stream and before an impossible header. This holds in every
state of an assembler, whose pending octets stand in front of the source. -/
theorem waiting_tells_the_same_iff (limit : Nat) (ops : List ReadOp) {source : Script}
    (ends : .ended ∈ source) (sizes sizes' : Nat → List Nat) (rooms : Nat → Nat)
    (positive : ∀ i, 0 < rooms i) :
    let a := (fresh limit).after ops
    let whole : Script := .piece a.pending :: source
    ∃ n m,
      let told := tellings (a.reports (fun _ => readFrame) sizes 0 n source)
      let waiting := tellings (a.reports (fun i => readFrameUpTo (rooms i)) sizes' 0 m source)
      told = recount limit [] (whole.feed isPassing) ∧
      waiting = recount limit [] (whole.feed fun _ => false) ∧
      told = waiting.filter (fun telling => !isPassed telling) ∧
      (told.map kindOnly = waiting.map kindOnly ↔
        ∀ error, whole.Reaches limit error → isPassing error.kind = false) := by
  intro a whole
  obtain ⟨proper, same, -⟩ := (proper_fresh limit).after ops
  have sound : a.Sound := proper.toSound
  change a.limit = limit at same
  obtain ⟨n, told⟩ := reports_recount (fun _ _ _ sound ends => readFrame_recounts sound ends) id
    sizes 0 sound source ends
  obtain ⟨m, waiting⟩ := reports_recount
    (fun i _ source sound (_ : True) => readFrameUpTo_recounts sound (positive i) source)
    (fun _ => id) sizes' 0 sound source trivial
  rw [same] at told waiting
  change _ = recount limit [] (whole.feed isPassing) at told
  change _ = recount limit [] (whole.feed fun _ => false) at waiting
  have filtered : recount limit [] (whole.feed isPassing) =
      (recount limit [] (whole.feed fun _ => false)).filter fun telling => !isPassed telling := by
    rw [whole.feed_isPassing, recount_filter]
  refine ⟨n, m, told, waiting, by rw [told, waiting, filtered], ?_⟩
  rw [told, waiting, filtered, map_kindOnly_filter_iff]
  refine forall_congr' fun error => ?_
  cases passes : isPassing error.kind with
  | false => exact iff_of_true (fun _ => rfl) fun _ => rfl
  | true => rw [Script.mem_recount_feed_iff passes]

/-- An error that is not an interruption, inside of a frame, is told by both. -/
theorem waiting_tells_the_same_of_cutScript :
    .ended ∈ cutScript ∧ (∀ i, 0 < i + 1) ∧ ∃ n m,
      let told := tellings ((fresh 64).reports (fun _ => readFrame) (fun _ => [1]) 0 n cutScript)
      let waiting := tellings
        ((fresh 64).reports (fun i => readFrameUpTo (i + 1)) (fun _ => []) 0 m cutScript)
      told = [.error ⟨.connectionReset, "reset"⟩, .ok [1, 2],
          .error ⟨.unexpectedEof, "stream ended inside a frame"⟩] ∧
        told.map kindOnly = waiting.map kindOnly := by
  have ends : .ended ∈ cutScript := by decide
  obtain ⟨n, m, told, -, -, same⟩ := waiting_tells_the_same_iff 64 [] ends (fun _ => [1])
    (fun _ => []) (fun i => i + 1) Nat.succ_pos
  refine ⟨ends, Nat.succ_pos, n, m, told.trans (by decide +kernel), same.2 ?_⟩
  rintro error ⟨before, after, split, -⟩
  have there : .failing error ∈ Delivery.piece [] :: cutScript :=
    split ▸ List.mem_append_right before List.mem_cons_self
  obtain rfl : error = ⟨.connectionReset, "reset"⟩ := by simpa [cutScript] using there
  rfl

/-- An interruption, a frame of one octet, and the end. -/
def interruptedScript : Script :=
  [.failing ⟨.interrupted, "interrupted"⟩, .piece [0, 0, 0, 5, 7], .ended]

/-- Attempts that wait are told of an interruption, others are not. -/
theorem interruption_tells_apart :
    let told :=
      tellings ((fresh 64).reports (fun _ => readFrame) (fun _ => []) 0 3 interruptedScript)
    let waiting :=
      tellings ((fresh 64).reports (fun _ => readFrameUpTo 8) (fun _ => []) 0 3 interruptedScript)
    told = [.ok [7], .error ⟨.unexpectedEof, "end of stream"⟩] ∧
      waiting = .error ⟨.interrupted, "interrupted"⟩ :: told ∧
      told.map kindOnly ≠ waiting.map kindOnly := by
  decide

end Assembler

end Cohort

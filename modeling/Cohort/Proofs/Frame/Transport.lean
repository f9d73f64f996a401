import Cohort.Frame.Channel
import Cohort.Proofs.Frame.Reassembly
import Cohort.Proofs.Wire.Messages

/-!
# Messages arrive as they were sent

What is sent over a stream is received from it. A message too long for a frame is refused and leaves
no trace in the stream; every other one arrives, equal and in its place, whatever way the stream is
cut; and the end of the stream after the last of them is reported as such.

## Main definitions

* `WireMessage`: what travels over a session, in either direction.
* `Sender.postAll`, `Receiver.collectAll`: send and receive several messages.
* `Receiver.Awaits`: the payloads that a receiver is going to find.

## Main statements

* `Assembler.decode_of_keeps`: a payload reads back, and what follows it is left unread.
* `Receiver.receiveUpTo_value`, `Receiver.receiveUpTo_ended`: what a receiver finds next.
* `messages_arrive`: several messages arrive as they were sent.
-/

namespace Cohort

/-! ## What is written -/

namespace Sink

variable {sink : Sink}

/-- The sink takes whatever it is given, if only in small steps. -/
structure Accepts (sink : Sink) : Prop where
  unbounded : sink.capacity = none
  moves : sink.step ≠ some 0
  flows : sink.stuck = false

theorem heldAfter_of_accepts (accepts : sink.Accepts) (held wanted : Nat) :
    sink.heldAfter held wanted = held + wanted := by
  induction wanted using Nat.strongRecOn generalizing held with
  | ind wanted ih =>
    have least : wanted = 0 ∨ 0 < sink.room held wanted := by
      have moves := accepts.moves
      unfold room
      rw [accepts.unbounded]
      cases step : sink.step with
      | none => simp only; omega
      | some n =>
        have : n ≠ 0 := fun zero => moves (by rw [step, zero])
        simp only
        omega
    have most := sink.room_le held wanted
    rw [heldAfter]
    split
    · omega
    · rw [ih _ (by omega)]
      omega

theorem write_of_accepts (accepts : sink.Accepts) (bs : Bytes) :
    sink.write bs = (.ok (), { sink with taken := sink.taken ++ bs }) := by
  have all : sink.heldAfter sink.taken.length bs.length - sink.taken.length = bs.length := by
    rw [heldAfter_of_accepts accepts]
    omega
  simp [write, all]

end Sink

/-- The frame of a payload. -/
def frameOf (payload : Bytes) : Bytes := (Draft.fresh.append payload).frame

theorem length_frameOf (payload : Bytes) :
    (frameOf payload).length = payload.length + frameHeader := by
  rw [frameOf, Draft.frame, List.length_append, Bytes.length_ofNatBE, Nat.add_comm]
  rfl

/-- A frame is its stamp, followed by its payload. -/
theorem frameOf_eq (payload : Bytes) : frameOf payload =
    Bytes.ofNatBE frameHeader (Draft.stamp (payload.length + frameHeader)) ++ payload := rfl

theorem take_frameOf (payload rest : Bytes) : (frameOf payload ++ rest).take frameHeader =
    Bytes.ofNatBE frameHeader (Draft.stamp (payload.length + frameHeader)) := by
  rw [frameOf_eq, List.append_assoc, List.take_left' (Bytes.length_ofNatBE ..)]

theorem drop_frameOf (payload rest : Bytes) :
    (frameOf payload ++ rest).drop frameHeader = payload ++ rest := by
  rw [frameOf_eq, List.append_assoc, List.drop_left' (Bytes.length_ofNatBE ..)]

/-- The length that a frame declares is its stamp. -/
theorem declared_frameOf (payload rest : Bytes) :
    Bytes.toNatBE ((frameOf payload ++ rest).take frameHeader) =
      Draft.stamp (payload.length + frameHeader) := by
  have small : Draft.stamp (payload.length + frameHeader) < Bytes.capacity frameHeader :=
    Nat.lt_of_le_of_lt (Nat.min_le_right ..) (by decide)
  rw [take_frameOf, Bytes.toNatBE_ofNatBE small]

/-- A frame is read off the front of a stream as far as its stamp tells, if that is within the
limit. -/
theorem parseFrames_of_stamp_le {limit : Nat} {payload : Bytes} {length : Nat}
    (stamp : Draft.stamp (payload.length + frameHeader) = frameHeader + length)
    (within : frameHeader + length ≤ limit) (rest : Bytes) :
    parseFrames limit (frameOf payload ++ rest) =
      (payload.take length :: (parseFrames limit (payload.drop length ++ rest)).1,
        (parseFrames limit (payload.drop length ++ rest)).2) := by
  have shorter : length ≤ payload.length := by
    have : Draft.stamp (payload.length + frameHeader) ≤ payload.length + frameHeader :=
      Nat.min_le_left ..
    omega
  have size : (frameOf payload ++ rest).length = payload.length + frameHeader + rest.length := by
    rw [List.length_append, length_frameOf]
  rw [parseFrames_frame (by omega) ((declared_frameOf payload rest).trans stamp)
    ⟨Nat.le_add_right .., within⟩ (by omega), List.drop_take, ← List.drop_drop, drop_frameOf,
    Nat.add_sub_cancel_left, List.take_append_of_le_length shorter,
    List.drop_append_of_le_length shorter]

/-- A frame within the limit is read off the front of a stream. -/
theorem parseFrames_frameOf {limit : Nat} {payload : Bytes} (small : limit < UInt32.size)
    (fits : payload.length + frameHeader ≤ limit) (rest : Bytes) :
    parseFrames limit (frameOf payload ++ rest) =
      (payload :: (parseFrames limit rest).1, (parseFrames limit rest).2) := by
  have stamp : Draft.stamp (payload.length + frameHeader) = frameHeader + payload.length := by
    rw [Draft.stamp]
    omega
  rw [parseFrames_of_stamp_le stamp (by omega), List.take_length, List.drop_length,
    List.nil_append]

/-! ## What is read -/

namespace Assembler

variable {a a' : Assembler} {source rest : Script} {room : Nat} {tolerates : IoKind → Bool}
  {limit : Nat} {pending payload : Bytes} {payloads : List Bytes} {ending : StreamEnd}
  {result : Except IoError Bool × Assembler × Script}

/-- What an attempt makes after another that made no more than progress, both make together. -/
theorem Makes.after_progress (first : Makes tolerates limit pending source (.ok false, a, rest))
    (second : Makes tolerates limit a.pending rest result) :
    Makes tolerates limit pending source result := by
  cases first with
  | progress sound same stream failures lighter ends =>
    cases second with
    | frame sound' same' parse failures' lighter' ends' =>
      rw [stream] at parse
      exact .frame sound' same' parse (failures.trans failures') (Nat.lt_trans lighter' lighter)
        fun there => ends' (ends there)
    | progress sound' same' stream' failures' lighter' ends' =>
      exact .progress sound' same' (stream'.trans stream) (failures.trans failures')
        (Nat.lt_trans lighter' lighter) fun there => ends' (ends there)
    | failing sound' same' stream' failures' lighter' ends' =>
      exact .failing sound' same' (stream'.trans stream) (failures.trans failures')
        (Nat.lt_trans lighter' lighter) fun there => ends' (ends there)
    | last parse names passed leftover =>
      rw [stream] at parse
      rw [← failures] at passed
      exact .last parse names passed leftover

/-- Attempts that wait go on until they make more than progress. -/
theorem nextFrameUpTo_makes (positive : 0 < room) (sound : a.Sound) (source : Script) :
    (∃ a' rest, a.nextFrameUpTo room source = (.ok (), a', rest) ∧
      Makes (fun _ => false) a.limit a.pending source (.ok true, a', rest)) ∨
    ∃ error a' rest, a.nextFrameUpTo room source = (.error error, a', rest) ∧
      Makes (fun _ => false) a.limit a.pending source (.error error, a', rest) := by
  fun_induction nextFrameUpTo room a source with
  | case1 a source a' rest attempted =>
    exact .inl ⟨a', rest, rfl, attempted ▸ readFrameUpTo_makes sound positive source⟩
  | case2 a source a' rest attempted ih =>
    have made := readFrameUpTo_makes sound positive source
    rw [attempted] at made
    have kept : a'.Sound ∧ a'.limit = a.limit := by
      cases made with
      | progress sound' same => exact ⟨sound', same⟩
    have later := ih kept.1
    rw [kept.2] at later
    obtain ⟨b, last, run, made'⟩ | ⟨error, b, last, run, made'⟩ := later
    · exact .inl ⟨b, last, run, made.after_progress made'⟩
    · exact .inr ⟨error, b, last, run, made.after_progress made'⟩
  | case3 a source error a' rest attempted =>
    exact .inr ⟨error, a', rest, rfl, attempted ▸ readFrameUpTo_makes sound positive source⟩

/-- The next frame of the stream is found. -/
theorem nextFrameUpTo_frame (positive : 0 < room) (sound : a.Sound)
    (quiet : source.failures (fun _ => false) = [])
    (parse : parseFrames a.limit (a.pending ++ source.stream) = (payload :: payloads, ending)) :
    ∃ a' rest, a.nextFrameUpTo room source = (.ok (), a', rest) ∧ a'.Sound ∧
      a'.limit = a.limit ∧ a'.remaining = payload ∧ rest.failures (fun _ => false) = [] ∧
      parseFrames a.limit (a'.pending ++ rest.stream) = (payloads, ending) := by
  obtain ⟨a', rest, run, made⟩ | ⟨error, a', rest, run, made⟩ :=
    nextFrameUpTo_makes positive sound source
  · cases made with
    | frame sound' same parse' failures =>
      rw [parse] at parse'
      obtain ⟨frames, ends⟩ := Prod.ext_iff.1 parse'
      obtain ⟨same', others⟩ := List.cons.inj frames
      exact ⟨a', rest, run, sound', same, same'.symm, failures.symm.trans quiet,
        Prod.ext others.symm ends.symm⟩
  · cases made with
    | failing _ _ _ failures => exact nomatch failures.symm.trans quiet
    | last parse' => exact nomatch parse.symm.trans parse'

/-- The end of the stream is found. -/
theorem nextFrameUpTo_ended (positive : 0 < room) (sound : a.Sound)
    (quiet : source.failures (fun _ => false) = [])
    (parse : parseFrames a.limit (a.pending ++ source.stream) = ([], ending)) :
    ∃ a' rest, a.nextFrameUpTo room source = (.error (errorOf ending), a', rest) ∧
      a'.hasPartial = decide (ending ≠ .clean) := by
  obtain ⟨a', rest, run, made⟩ | ⟨error, a', rest, run, made⟩ :=
    nextFrameUpTo_makes positive sound source
  · cases made with
    | frame _ _ parse' => exact nomatch parse.symm.trans parse'
  · cases made with
    | failing _ _ _ failures => exact nomatch failures.symm.trans quiet
    | last parse' names passed leftover =>
      obtain rfl : ending = _ := (Prod.ext_iff.1 (parse.symm.trans parse')).2
      exact ⟨a', rest, names ▸ run, leftover⟩

theorem remaining_skip (n : Nat) : (a.skip n).remaining = a.remaining.drop n := by
  cases complete : a.complete <;> simp [remaining, skip, complete]

/-- A value reads back from a payload, and what follows it is left unread. -/
theorem decode_of_keeps {α : Type} {codec : Codec α} {value : α} (keeps : codec.Keeps value)
    {more : Bytes} (payload : a.remaining = codec.encode value ++ more) :
    a.decode codec = (.ok value, a.skip (codec.encode value).length) ∧
      (a.skip (codec.encode value).length).remaining = more := by
  have length : a.remaining.length - more.length = (codec.encode value).length := by
    rw [payload, List.length_append]
    omega
  refine ⟨?_, ?_⟩
  · rw [decode, payload, keeps, ← payload]
    exact congrArg (fun n => (Except.ok value, a.skip n)) length
  · rw [remaining_skip, payload, List.drop_left]

end Assembler

namespace Receiver

variable {receiver : Receiver} {room limit : Nat} {payloads : List Bytes} {payload : Bytes}
  {ending : StreamEnd} {α : Type} {codec : Codec α}

/-- A receiver is going to find the given payloads, and then the given end of the stream. -/
structure Awaits (receiver : Receiver) (limit : Nat) (payloads : List Bytes) (ending : StreamEnd) :
    Prop where
  sound : receiver.frames.Sound
  same : receiver.frames.limit = limit
  quiet : receiver.source.failures (fun _ => false) = []
  parse : parseFrames limit (receiver.frames.pending ++ receiver.source.stream) =
    (payloads, ending)

/-- A value arrives that its codec keeps. -/
theorem receiveUpTo_value (positive : 0 < room) {value : α} (keeps : codec.Keeps value)
    (awaits : receiver.Awaits limit (codec.encode value :: payloads) ending) :
    ∃ receiver', receiver.receiveUpTo room codec = (.ok value, receiver') ∧
      receiver'.Awaits limit payloads ending := by
  obtain ⟨sound, rfl, quiet, parse⟩ := awaits
  obtain ⟨frames, rest, run, sound', same, remaining, quiet', parse'⟩ :=
    Assembler.nextFrameUpTo_frame positive sound quiet parse
  have alone : frames.remaining = codec.encode value ++ [] := by rw [remaining, List.append_nil]
  obtain ⟨decoded, -⟩ := Assembler.decode_of_keeps keeps alone
  refine ⟨⟨rest, frames.skip (codec.encode value).length⟩, ?_, sound'.skip _, same, quiet', ?_⟩
  · rw [receiveUpTo, run]
    dsimp only
    rw [decoded]
  · rw [Assembler.pending_skip]
    exact parse'

/-- After the last frame the connection is over. -/
theorem receiveUpTo_ended (positive : 0 < room) (awaits : receiver.Awaits limit [] .clean)
    (codec : Codec α) : (receiver.receiveUpTo room codec).1 = .error .network := by
  obtain ⟨sound, rfl, quiet, parse⟩ := awaits
  obtain ⟨frames, rest, run, leftover⟩ :=
    Assembler.nextFrameUpTo_ended positive sound quiet parse
  rw [receiveUpTo, run]
  have nothing : frames.hasPartial = false := leftover
  simp [failureOf, Assembler.errorOf, nothing]

end Receiver

/-! ## Several messages -/

/-- What travels over a session: requests one way, messages the other. -/
inductive WireMessage where
  | request (r : Request)
  | message (m : Message)
  deriving DecidableEq

/-- Which way something travels. -/
inductive WireKind where
  | request
  | message
  deriving DecidableEq

namespace WireMessage

/-- Which way it travels. -/
def kind : WireMessage → WireKind
  | request _ => .request
  | message _ => .message

/-- Its octets. -/
def encode : WireMessage → Bytes
  | request r => Request.codec.encode r
  | message m => Message.codec.encode m

/-- The numbers it is written with. -/
def numbers : WireMessage → List Nat
  | request r => r.numbers
  | message m => m.numbers

/-- Whether its frame is within the limit. -/
def Framed (limit : Nat) (m : WireMessage) : Prop := m.encode.length + frameHeader ≤ limit

instance (limit : Nat) : DecidablePred (Framed limit) := fun m =>
  inferInstanceAs (Decidable (m.encode.length + frameHeader ≤ limit))

/-- What its sender is told. -/
def outcome (limit : Nat) (m : WireMessage) : Outcome Unit :=
  if m.Framed limit then .ok () else .error .invalidParameters

end WireMessage

namespace Sender

variable {sender : Sender}

section Send

variable {α : Type} {codec : Codec α} {value : α}

/-- A value too long for a frame is refused, and nothing of it reaches the sink. -/
theorem send_of_lt (long : sender.limit < (codec.encode value).length + frameHeader) :
    sender.send codec value = (.error .invalidParameters, { sender with draft := .fresh }) := by
  have more : (Draft.fresh.append (codec.encode value)).length + frameHeader > sender.limit := long
  simp only [send, Draft.encode, if_pos more]

/-- Every other value is written as one frame. -/
theorem send_of_le (accepts : sender.sink.Accepts)
    (fits : (codec.encode value).length + frameHeader ≤ sender.limit) :
    sender.send codec value = (.ok (), { sender with
      sink := { sender.sink with taken := sender.sink.taken ++ frameOf (codec.encode value) }
      draft := .fresh }) := by
  have within : ¬ (Draft.fresh.append (codec.encode value)).length + frameHeader > sender.limit :=
    Nat.not_lt.2 fits
  simp only [send, Draft.encode, if_neg within, Sink.write_of_accepts accepts, accepts.flows]
  rfl

end Send

/-- Send what travels over a session. -/
def post (sender : Sender) : WireMessage → Outcome Unit × Sender
  | .request r => sender.send Request.codec r
  | .message m => sender.send Message.codec m

/-- Send several, in their order. -/
def postAll (sender : Sender) : List WireMessage → List (Outcome Unit) × Sender
  | [] => ([], sender)
  | m :: ms =>
    let (result, sender) := sender.post m
    let (results, sender) := sender.postAll ms
    (result :: results, sender)

variable {m : WireMessage}

theorem post_of_not_framed (long : ¬ m.Framed sender.limit) :
    sender.post m = (.error .invalidParameters, { sender with draft := .fresh }) := by
  cases m with
  | request r => exact send_of_lt (Nat.lt_of_not_le long)
  | message m => exact send_of_lt (Nat.lt_of_not_le long)

theorem post_of_framed (accepts : sender.sink.Accepts) (framed : m.Framed sender.limit) :
    sender.post m = (.ok (), { sender with
      sink := { sender.sink with taken := sender.sink.taken ++ frameOf m.encode }
      draft := .fresh }) := by
  cases m with
  | request r => exact send_of_le accepts framed
  | message m => exact send_of_le accepts framed

/-- Each message gets its outcome, and the sink takes the frames of those within the limit. -/
theorem postAll_outcomes (accepts : sender.sink.Accepts) (ms : List WireMessage) :
    (sender.postAll ms).1 = ms.map (WireMessage.outcome sender.limit) ∧
      (sender.postAll ms).2.sink.taken = sender.sink.taken ++
        (ms.filter (WireMessage.Framed sender.limit)).flatMap fun m => frameOf m.encode := by
  induction ms generalizing sender with
  | nil => simp [postAll]
  | cons m ms ih =>
    by_cases framed : m.Framed sender.limit
    · obtain ⟨outcomes, taken⟩ := @ih { sender with
        sink := { sender.sink with taken := sender.sink.taken ++ frameOf m.encode }
        draft := .fresh } ⟨accepts.unbounded, accepts.moves, accepts.flows⟩
      simp [postAll, post_of_framed accepts framed, outcomes, taken, WireMessage.outcome, framed]
    · obtain ⟨outcomes, taken⟩ := @ih { sender with draft := .fresh } accepts
      simp [postAll, post_of_not_framed framed, outcomes, taken, WireMessage.outcome, framed]

end Sender

/-- The frames of several messages are read off the front of a stream. -/
theorem parseFrames_messages {limit : Nat} (small : limit < UInt32.size) {ms : List WireMessage}
    (framed : ∀ m ∈ ms, m.Framed limit) :
    parseFrames limit (ms.flatMap fun m => frameOf m.encode) =
      (ms.map WireMessage.encode, .clean) := by
  induction ms with
  | nil => exact parseFrames_short (by decide)
  | cons m ms ih =>
    obtain ⟨first, others⟩ := List.forall_mem_cons.1 framed
    rw [List.flatMap_cons, parseFrames_frameOf small first, ih others]
    rfl

namespace Receiver

/-- Wait for what travels one way. -/
def collect (room : Nat) (receiver : Receiver) : WireKind → Outcome WireMessage × Receiver
  | .request =>
    let (result, receiver) := receiver.receiveUpTo room Request.codec
    (result.map .request, receiver)
  | .message =>
    let (result, receiver) := receiver.receiveUpTo room Message.codec
    (result.map .message, receiver)

/-- Wait for several, one after the other. -/
def collectAll (room : Nat) (receiver : Receiver) :
    List WireKind → List (Outcome WireMessage) × Receiver
  | [] => ([], receiver)
  | kind :: kinds =>
    let (result, receiver) := receiver.collect room kind
    let (results, receiver) := receiver.collectAll room kinds
    (result :: results, receiver)

variable {receiver : Receiver} {room limit : Nat} {payloads : List Bytes} {ending : StreamEnd}

theorem collect_message (positive : 0 < room) {m : WireMessage} (fits : Fit m.numbers)
    (awaits : receiver.Awaits limit (m.encode :: payloads) ending) :
    ∃ receiver', receiver.collect room m.kind = (.ok m, receiver') ∧
      receiver'.Awaits limit payloads ending := by
  cases m with
  | request r =>
    obtain ⟨receiver', received, awaits'⟩ := receiveUpTo_value positive (Request.keeps fits) awaits
    exact ⟨receiver', by simp only [WireMessage.kind, collect, received]; rfl, awaits'⟩
  | message m =>
    obtain ⟨receiver', received, awaits'⟩ := receiveUpTo_value positive (Message.keeps fits) awaits
    exact ⟨receiver', by simp only [WireMessage.kind, collect, received]; rfl, awaits'⟩

theorem collect_ended (positive : 0 < room) (awaits : receiver.Awaits limit [] .clean)
    (kind : WireKind) : (receiver.collect room kind).1 = .error .network := by
  cases kind with
  | request => simp [collect, receiveUpTo_ended positive awaits, Except.map]
  | message => simp [collect, receiveUpTo_ended positive awaits, Except.map]

/-- All the messages that a receiver awaits arrive. -/
theorem collectAll_messages (positive : 0 < room) {ms : List WireMessage}
    (fits : ∀ m ∈ ms, Fit m.numbers)
    (awaits : receiver.Awaits limit (ms.map WireMessage.encode) ending) :
    ∃ receiver', receiver.collectAll room (ms.map WireMessage.kind) = (ms.map .ok, receiver') ∧
      receiver'.Awaits limit [] ending := by
  induction ms generalizing receiver with
  | nil => exact ⟨receiver, rfl, awaits⟩
  | cons m ms ih =>
    obtain ⟨first, others⟩ := List.forall_mem_cons.1 fits
    obtain ⟨receiver₁, received, awaits₁⟩ := collect_message positive first awaits
    obtain ⟨receiver₂, collected, awaits₂⟩ := ih others awaits₁
    exact ⟨receiver₂, by simp only [List.map_cons, collectAll, received, collected], awaits₂⟩

end Receiver

/-- A stream that arrives whole and undisturbed shows its frames to a receiver that read nothing
yet. -/
theorem Receiver.awaits_fresh {limit : Nat} {script : Script} {payloads : List Bytes}
    {ending : StreamEnd} (quiet : script.failures (fun _ => false) = [])
    (parse : parseFrames limit script.stream = (payloads, ending)) :
    (Receiver.fresh script limit).Awaits limit payloads ending :=
  ⟨Assembler.sound_fresh limit, rfl, quiet, parse⟩

/-- Several messages are sent over a stream that takes everything. Those whose frames pass the limit
are refused, and refusing one adds nothing to any stream. The others arrive, equal and in order,
however the stream is cut, and then its end shows. A payload is read no further than its message
reaches. -/
theorem messages_arrive {limit : Nat} (small : limit < UInt32.size) {sink : Sink}
    (accepts : sink.Accepts) (empty : sink.taken = []) {ms : List WireMessage}
    (fits : ∀ m ∈ ms, Fit m.numbers) :
    let sent := (Sender.fresh sink limit).postAll ms
    let accepted := ms.filter (WireMessage.Framed limit)
    sent.1 = ms.map (WireMessage.outcome limit) ∧
    (∀ (sender : Sender) (m : WireMessage), ¬ m.Framed sender.limit →
      (sender.post m).2.sink = sender.sink) ∧
    (∀ (script : Script) (room : Nat), script.stream = sent.2.sink.taken →
      script.failures (fun _ => false) = [] → 0 < room →
      ∃ receiver, (Receiver.fresh script limit).collectAll room (accepted.map WireMessage.kind) =
          (accepted.map .ok, receiver) ∧
        ∀ kind, (receiver.collect room kind).1 = .error .network) ∧
    (∀ (r : Request) (a : Assembler) (more : Bytes), Fit r.numbers →
      a.remaining = Request.codec.encode r ++ more →
      ∃ a', a.decode Request.codec = (.ok r, a') ∧ a'.remaining = more) ∧
    ∀ (m : Message) (a : Assembler) (more : Bytes), Fit m.numbers →
      a.remaining = Message.codec.encode m ++ more →
      ∃ a', a.decode Message.codec = (.ok m, a') ∧ a'.remaining = more := by
  intro sent accepted
  obtain ⟨outcomes, taken⟩ :=
    @Sender.postAll_outcomes (Sender.fresh sink limit) accepts ms
  have framed : ∀ m ∈ accepted, m.Framed limit := fun m member =>
    of_decide_eq_true (List.mem_filter.1 member).2
  have acceptedFit : ∀ m ∈ accepted, Fit m.numbers := fun m member =>
    fits m (List.mem_filter.1 member).1
  refine ⟨outcomes, fun sender m long => ?_, fun script room stream quiet positive => ?_,
    fun r a more fit payload => ?_, fun m a more fit payload => ?_⟩
  · rw [Sender.post_of_not_framed long]
  · have written : script.stream = accepted.flatMap fun m => frameOf m.encode := by
      rw [stream, taken, Sender.fresh, empty, List.nil_append]
    have parse : parseFrames limit script.stream = (accepted.map WireMessage.encode, .clean) := by
      rw [written, parseFrames_messages small framed]
    obtain ⟨receiver, collected, awaits⟩ :=
      Receiver.collectAll_messages positive acceptedFit (Receiver.awaits_fresh quiet parse)
    exact ⟨receiver, collected, Receiver.collect_ended positive awaits⟩
  · exact ⟨_, Assembler.decode_of_keeps (Request.keeps fit) payload⟩
  · exact ⟨_, Assembler.decode_of_keeps (Message.keeps fit) payload⟩

/-- Takes three octets at a time. -/
def slowSink : Sink := ⟨[], some 3, none, false⟩

/-- A request, another that is too long for sixteen octets, and a message. -/
def mixedMessages : List WireMessage :=
  [.request .logOff, .request (.nodeAction 1 "ping" [1, 2]), .message (.refused 7)]

/-- The frames of the first and the last of them, cut inside a header and inside a payload. -/
def mixedScript : Script :=
  [.piece [0, 0, 0], .pause, .piece [8, 4, 0, 0, 0, 0, 0, 0, 12, 4, 0], .pause,
    .piece [0, 0, 7, 0, 0, 0], .ended]

theorem messages_arrive_in_mixedScript :
    16 < UInt32.size ∧ slowSink.Accepts ∧ (∀ m ∈ mixedMessages, Fit m.numbers) ∧
    ((Sender.fresh slowSink 16).postAll mixedMessages).1 =
      [.ok (), .error .invalidParameters, .ok ()] ∧
    ((Sender.fresh slowSink 16).postAll mixedMessages).2.sink.taken = mixedScript.stream ∧
    ∃ receiver, (Receiver.fresh mixedScript 16).collectAll 2 [.request, .message] =
        ([.ok (.request .logOff), .ok (.message (.refused 7))], receiver) ∧
      (receiver.collect 2 .request).1 = .error .network := by
  have accepts : slowSink.Accepts := ⟨rfl, by decide, rfl⟩
  have fits : ∀ m ∈ mixedMessages, Fit m.numbers := by
    unfold Fit
    decide
  have written : ((Sender.fresh slowSink 16).postAll mixedMessages).2.sink.taken =
      mixedScript.stream := by
    rw [(Sender.postAll_outcomes accepts mixedMessages).2]
    decide
  obtain ⟨outcomes, -, arrive, -⟩ := messages_arrive (by decide : 16 < UInt32.size) accepts rfl fits
  obtain ⟨receiver, collected, ended⟩ := arrive mixedScript 2 written.symm rfl (by decide)
  refine ⟨by decide, accepts, fits, ?_, written, receiver, ?_, ended .request⟩
  · rw [outcomes]
    decide
  · have filtered : mixedMessages.filter (WireMessage.Framed 16) =
        [.request .logOff, .message (.refused 7)] := by decide
    rw [filtered] at collected
    exact collected

end Cohort

import Cohort.Proofs.Mapping.Mail

/-!
# What a listener can make of what it is told

A listener is told of every change of a mapping that makes a difference, with the value that was
there before. So it can keep a table of its own up to date, whenever it joined and whatever the
other listeners make of what they are told.

Listeners may do with a notice what they like, and differently from one time to the next. A listener
is therefore known by its place among those of its mapping, and what stands in a place may change
its ways at any moment.

## Main definitions

* `Retell`: notices lead from one table to another, and name the values that were there before.
* `Mapping.notices`: what a listener is told of changes.
* `Happening`, `MappingService.undergo`: what may happen to a service and to its listeners.
* `MappingService.noticesOver`: what a listener is told in the course of a run.

## Main statements

* `Mapping.retell_notices`: what is told of changes leads to the table after them.
* `MappingService.undergo_retells`: what is told of a happening leads to the copy after it.
* `MappingService.listeners_can_rebuild`: what a listener was told leads from the copy it joined to
  the copy there is.
-/

namespace Cohort

/-! ## Notices and changes -/

namespace Notice

/-- The change that a notice tells of. -/
def change : Notice → Change
  | put key value _ => (key, some value)
  | removed key _ => (key, none)

/-- The value that was there before, if there was one, as a notice has it. -/
def old : Notice → Option Bytes
  | put _ _ old => old
  | removed _ old => some old

end Notice

/-- Notices lead from one table to another: each of them names the value that its key had until
then, and the changes that they tell of, made one after the other, are all there is to it. A notice
of a deletion names a value, so the key was there. -/
def Retell : Entries → List Notice → Entries → Prop
  | before, [], after => after = before
  | before, notice :: rest, after =>
    before[notice.change.1]? = notice.old ∧ Retell (Mapping.changed before notice.change) rest after

theorem Retell.append {first second third : Entries} {notices notices' : List Notice}
    (retell : Retell first notices second) (retell' : Retell second notices' third) :
    Retell first (notices ++ notices') third := by
  induction notices generalizing first with
  | nil =>
    obtain rfl := retell
    exact retell'
  | cons notice rest ih => exact ⟨retell.1, ih retell.2⟩

namespace Mapping

/-- What a listener is told of changes, made one after the other. -/
def notices (entries : Entries) : List Change → List Notice
  | [] => []
  | change :: rest =>
    (noticeOf change entries[change.1]?).toList ++ notices (changed entries change) rest

/-- A change that nobody is told of makes no difference. -/
theorem changed_of_noticeOf_eq_none {entries : Entries} {change : Change}
    (silent : noticeOf change entries[change.1]? = none) : changed entries change = entries := by
  obtain ⟨key, value | value⟩ := change
  · cases held : entries[key]? with
    | none =>
      refine Std.ExtTreeMap.ext_getElem? fun other => ?_
      simp only [changed, Std.ExtTreeMap.getElem?_erase, Std.compare_eq_iff_eq]
      split
      next same => rw [← same, held]
      next => rfl
    | some old => simp [noticeOf, held] at silent
  · simp [noticeOf] at silent

/-- A notice of a change tells of just this change, and of the old value. -/
theorem change_of_noticeOf {change : Change} {old : Option Bytes} {notice : Notice}
    (told : noticeOf change old = some notice) : notice.change = change ∧ notice.old = old := by
  obtain ⟨key, value | value⟩ := change
  · cases old with
    | none => simp [noticeOf] at told
    | some old =>
      obtain rfl := Option.some.inj told
      exact ⟨rfl, rfl⟩
  · obtain rfl : Notice.put key value old = notice := by simpa [noticeOf] using told
    exact ⟨rfl, rfl⟩

/-- What is told of changes leads to the table after them. -/
theorem retell_notices (entries : Entries) (changes : List Change) :
    Retell entries (notices entries changes) (changes.foldl changed entries) := by
  induction changes generalizing entries with
  | nil => exact rfl
  | cons change rest ih =>
    have later := ih (changed entries change)
    rw [notices, List.foldl_cons]
    cases told : noticeOf change entries[change.1]? with
    | none =>
      have same := changed_of_noticeOf_eq_none told
      rw [same] at later ⊢
      exact later
    | some notice =>
      obtain ⟨tells, names⟩ := change_of_noticeOf told
      refine ⟨?_, ?_⟩
      · rw [tells, names]
      · rw [tells]
        exact later

end Mapping

/-! ## Who is told -/

/-- What the listener in a certain place of a mapping is told. -/
def Told.noticeTo? (i : UInt16) (k : Nat) (told : Told) : Option Notice :=
  if told.index = i ∧ told.listener = k then some told.notice else none

/-- What the listener in a certain place of a mapping is told by an effect. -/
def MappingEffect.noticeTo? (i : UInt16) (k : Nat) : MappingEffect → Option Notice
  | .told one => one.noticeTo? i k
  | _ => none

namespace Mapping

variable {m : Mapping} {i : UInt16} {k : Nat}

/-- Every listener of a mapping is told once, and no others are. -/
theorem filterMap_tell (m : Mapping) (notice : Notice) (i : UInt16) (k : Nat) :
    (m.tell notice).filterMap (Told.noticeTo? i k) =
      if m.index = i ∧ k < m.listeners.length then [notice] else [] := by
  -- places are counted from wherever the rest of the listeners starts
  have counted : ∀ (listeners : List Listener) (n : Nat),
      (listeners.zipIdx n).filterMap (fun entry =>
        Told.noticeTo? i k ⟨m.index, entry.2, notice, entry.1 notice⟩) =
        if m.index = i ∧ n ≤ k ∧ k < n + listeners.length then [notice] else [] := by
    intro listeners
    induction listeners with
    | nil =>
      intro n
      simp only [List.zipIdx_nil, List.filterMap_nil, List.length_nil, Nat.add_zero]
      rw [if_neg (by omega)]
    | cons listener rest ih =>
      intro n
      rw [List.zipIdx_cons, List.filterMap_cons, ih, List.length_cons]
      simp only [Told.noticeTo?]
      by_cases about : m.index = i
      · by_cases here : n = k
        · have passed : ¬ (m.index = i ∧ n + 1 ≤ k ∧ k < n + 1 + rest.length) := by omega
          have inside : m.index = i ∧ n ≤ k ∧ k < n + (rest.length + 1) := ⟨about, by omega⟩
          rw [if_neg passed, if_pos inside, if_pos ⟨about, here⟩]
        · simp only [about, here, true_and, and_false, if_false]
          congr 1
          exact propext (by omega)
      · simp [about]
  rw [tell, List.mapIdx_eq_zipIdx_map, List.filterMap_map]
  have all := counted m.listeners 0
  simp only [Nat.zero_le, true_and, Nat.zero_add] at all
  exact all

/-- What the listener in a place is told when changes are made. -/
theorem filterMap_apply (m : Mapping) (changes : List Change) (i : UInt16) (k : Nat) :
    (m.apply changes).2.filterMap (Told.noticeTo? i k) =
      if m.index = i ∧ k < m.listeners.length then notices m.entries changes else [] := by
  induction changes generalizing m with
  | nil => simp [apply, notices]
  | cons change rest ih =>
    have later : ((m.applyOne change).1.apply rest).2.filterMap (Told.noticeTo? i k) =
        if m.index = i ∧ k < m.listeners.length then
          notices (changed m.entries change) rest else [] := ih (m.applyOne change).1
    have told : (m.applyOne change).2.filterMap (Told.noticeTo? i k) =
        if m.index = i ∧ k < m.listeners.length then
          (noticeOf change m.entries[change.1]?).toList else [] := by
      unfold applyOne
      cases noticeOf change m.entries[change.1]? with
      | none => simp
      | some notice => exact m.filterMap_tell notice i k
    rw [apply]
    show ((m.applyOne change).2 ++ ((m.applyOne change).1.apply rest).2).filterMap _ = _
    rw [List.filterMap_append, told, later, notices]
    split <;> rfl

end Mapping

/-! ## What may happen -/

/-- What may happen to a service and to those who listen to it. -/
inductive Happening where
  /-- Something happens to the mappings. -/
  | op (op : MappingOp)
  /-- A listener joins those of a mapping. -/
  | joins (i : UInt16) (listener : Listener)
  /-- The listener in a place of a mapping takes notices otherwise from now on. -/
  | turns (i : UInt16) (k : Nat) (listener : Listener)
  /-- What is to be done is handed out. -/
  | handsOut

namespace MappingService

variable {s t u : MappingService} {m m' : Mapping} {i : UInt16} {k : Nat} {call : MappingCall}
  {told told' : List Notice}

/-- The service after something happened. -/
def undergo (s : MappingService) : Happening → MappingService
  | .op op => s.step op
  | .joins i listener => (s.addListener i listener).2
  | .turns i k listener => s.relisten i (·.set k listener)
  | .handsOut => s.takeOutbox.2

/-- The service after several things happened. -/
def afterAll (s : MappingService) (happenings : List Happening) : MappingService :=
  happenings.foldl undergo s

/-- What the listener in a place of a mapping is told when something happens. -/
def noticesTo (s : MappingService) (i : UInt16) (k : Nat) (happening : Happening) : List Notice :=
  ((s.undergo happening).outbox.drop s.outbox.length).filterMap (MappingEffect.noticeTo? i k)

/-- What the listener in a place of a mapping is told in the course of several happenings. -/
def noticesOver (s : MappingService) (i : UInt16) (k : Nat) : List Happening → List Notice
  | [] => []
  | happening :: rest => s.noticesTo i k happening ++ (s.undergo happening).noticesOver i k rest

/-! ## What a listener is told of an operation -/

/-- On the way from one state to another, the listener in a place was told certain things. -/
def Notifies (i : UInt16) (k : Nat) (s t : MappingService) (told : List Notice) : Prop :=
  ∃ effects, t.outbox = s.outbox ++ effects ∧
    effects.filterMap (MappingEffect.noticeTo? i k) = told

namespace Notifies

theorem of_eq (outbox : t.outbox = s.outbox) : Notifies i k s t [] :=
  ⟨[], by rw [outbox, List.append_nil], rfl⟩

/-- Effects that tell nobody of a change. -/
theorem silent {effects : List MappingEffect} (grown : t.outbox = s.outbox ++ effects)
    (aside : ∀ effect ∈ effects, effect.noticeTo? i k = none) : Notifies i k s t [] :=
  ⟨effects, grown, List.filterMap_eq_nil_iff.2 aside⟩

theorem trans (first : Notifies i k s t told) (second : Notifies i k t u told') :
    Notifies i k s u (told ++ told') := by
  obtain ⟨effects, grown, rfl⟩ := first
  obtain ⟨effects', grown', rfl⟩ := second
  exact ⟨effects ++ effects', by rw [grown', grown, List.append_assoc], List.filterMap_append⟩

/-- Nothing but changes of mappings and what else is to be done. -/
theorem of_changes (changes : List Told) (events : List NodeEvent)
    (grown : t.outbox = s.outbox ++ (changes.map .told ++ events.map .broadcast)) :
    Notifies i k s t (changes.filterMap (Told.noticeTo? i k)) := by
  refine ⟨_, grown, ?_⟩
  have unheard : (events.map MappingEffect.broadcast).filterMap
      (MappingEffect.noticeTo? i k) = [] := by simp [MappingEffect.noticeTo?]
  rw [List.filterMap_append, unheard, List.append_nil, List.filterMap_map]
  rfl

theorem noticesTo_eq {happening : Happening}
    (notifies : Notifies i k s (s.undergo happening) told) : s.noticesTo i k happening = told := by
  obtain ⟨effects, grown, rfl⟩ := notifies
  rw [noticesTo, grown, List.drop_left]

end Notifies

/-- A listener is told of the changes that a call makes on its own mapping. -/
theorem run_notifies (indexed : s.Indexed) (held : s.mappings[i]? = some m)
    (there : k < m.listeners.length) (found : s.mappings[call.index]? = some m') :
    Notifies i k s (s.run call).2
      (Mapping.notices m.entries (if call.index = i then s.changesBy call else [])) := by
  obtain ⟨⟨failure, ran⟩, none⟩ | ⟨reply, ran⟩ := run_cases found
  · rw [ran, none, ite_self]
    exact .of_eq rfl
  · have place := indexed.placed found
    have notifies : Notifies i k s (s.run call).2
        ((m'.apply (s.changesBy call)).2.filterMap (Told.noticeTo? i k)) := by
      rw [ran]
      exact .of_changes _ _ (by rw [commit_eq])
    rw [Mapping.filterMap_apply, place] at notifies
    by_cases about : call.index = i
    · obtain rfl : m' = m := Option.some.inj (found.symm.trans (about ▸ held))
      rw [if_pos ⟨about, there⟩] at notifies
      rw [if_pos about]
      exact notifies
    · rw [if_neg fun both => about both.1] at notifies
      rw [if_neg about]
      exact notifies

theorem submit_notifies (indexed : s.Indexed) (held : s.mappings[i]? = some m)
    (there : k < m.listeners.length) (call : MappingCall) (ticket : Ticket) :
    Notifies i k s (s.submit call ticket)
      (Mapping.notices m.entries (s.madeOn i (.submit call ticket))) := by
  -- answers and calls tell no listener
  have answers : ∀ (t : MappingService) (reply : MappingReply),
      Notifies i k t (t.answer ticket reply) [] :=
    fun t reply => ⟨[.answer ticket reply], rfl, rfl⟩
  obtain ⟨serves, ran⟩ | ⟨unserved, ⟨failure, refused⟩ | ⟨master, sent⟩⟩ :=
    s.submit_cases call ticket
  · obtain ⟨m', found⟩ := held_of_servesOwn serves
    have notifies := (run_notifies indexed held there found).trans (answers _ (s.run call).1)
    rw [List.append_nil] at notifies
    rw [ran, madeOn]
    simp only [serves, and_true]
    exact notifies
  · rw [refused, madeOn, if_neg (by simp [unserved])]
    exact answers s _
  · rw [sent, madeOn, if_neg (by simp [unserved])]
    exact ⟨[.call master (s.lastRequest + 1) call], rfl, rfl⟩

theorem handleCall_notifies (indexed : s.Indexed) (held : s.mappings[i]? = some m)
    (there : k < m.listeners.length) (call : MappingCall) :
    Notifies i k s (s.handleCall call).2
      (Mapping.notices m.entries (s.madeOn i (.handle call))) := by
  obtain ⟨serves, ran⟩ | ⟨unserved, failure, refused⟩ := s.handleCall_cases call
  · obtain ⟨m', found, -⟩ := held_of_servesOthers serves
    rw [ran, madeOn]
    simp only [serves, and_true]
    exact run_notifies indexed held there found
  · rw [refused, madeOn, if_neg (by simp [unserved])]
    exact .of_eq rfl

theorem callCompleted_notifies (i : UInt16) (k : Nat) (s : MappingService) (requestId : Nat)
    (reply : MappingReply) : Notifies i k s (s.callCompleted requestId reply) [] := by
  obtain ⟨effects, grown, answers⟩ := s.outbox_callCompleted requestId reply
  refine .silent grown fun effect among => ?_
  obtain ⟨peer, ticket, rfl, -⟩ := answers effect among
  rfl

theorem Mails.notifies {op : MappingOp} (mails : Mails op s t) : Notifies i k s t [] := by
  obtain ⟨effects, grown, posted⟩ := mails.outbox
  refine .silent grown fun effect among => ?_
  obtain ⟨peer, n, call, rfl, -⟩ := posted effect among
  rfl

theorem hear_notifies (indexed : s.Indexed) (held : s.mappings[i]? = some m)
    (there : k < m.listeners.length) (event : NodeEvent) :
    Notifies i k s (s.hear event) (Mapping.notices m.entries (event.newsOf m.id)) := by
  obtain ⟨ignored, silent⟩ | ⟨m', found, heard, silent⟩ := hear_cases indexed event
  · rw [ignored, silent i m held]
    exact .of_eq rfl
  · have notifies : Notifies i k s (s.hear event)
        ((m'.apply (event.newsOf m'.id)).2.filterMap (Told.noticeTo? i k)) := by
      rw [heard]
      exact .of_changes _ [] (by rw [List.map_nil, List.append_nil]; rfl)
    rw [Mapping.filterMap_apply] at notifies
    by_cases about : m'.index = i
    · obtain rfl : m' = m := Option.some.inj (found.symm.trans (about ▸ held))
      rw [if_pos ⟨about, there⟩] at notifies
      exact notifies
    · rw [if_neg fun both => about both.1] at notifies
      rw [silent i m held fun same => about (same ▸ indexed.placed held)]
      exact notifies

/-- A listener is told of the changes that an operation makes on its mapping, and of nothing
else. -/
theorem step_notifies (indexed : s.Indexed) (held : s.mappings[i]? = some m)
    (there : k < m.listeners.length) (op : MappingOp) :
    Notifies i k s (s.step op) (Mapping.notices m.entries (s.changesOn i op)) := by
  cases op with
  | submit call ticket =>
    have made : s.changesOn i (.submit call ticket) = s.madeOn i (.submit call ticket) :=
      List.append_nil _
    rw [made]
    exact submit_notifies indexed held there call ticket
  | handle call =>
    have made : s.changesOn i (.handle call) = s.madeOn i (.handle call) := List.append_nil _
    rw [made]
    exact handleCall_notifies indexed held there call
  | complete requestId reply => exact callCompleted_notifies i k s requestId reply
  | disconnect peer =>
    refine disconnect_keeps (P := fun t => Notifies i k s t []) (fun t n failure told => ?_)
      (.of_eq rfl) peer
    exact told.trans (callCompleted_notifies i k t n (.error failure))
  | hear event =>
    have heard : s.changesOn i (.hear event) = event.newsOf m.id := by
      simp [changesOn, madeOn, heardOn, held]
    rw [heard]
    exact hear_notifies indexed held there event
  | flush now force =>
    exact .of_changes [] _ (s.outbox_flush now force)
  | govern live => exact (Mails.updateMinistry (.govern live) s live).notifies
  | resume => exact (Mails.resumeHandOffs .resume s).notifies

/-! ## Runs -/

theorem listeners_turned (s : MappingService) (i : UInt16) (op : MappingOp) (m : Mapping) :
    (s.turned i op m).listeners = m.listeners := by
  cases op with
  | complete requestId reply =>
    simp only [turned, settled]
    split <;> rfl
  | flush now force =>
    simp only [turned, Mapping.flushed]
    split <;> rfl
  | govern live =>
    simp only [turned, vacated]
    split <;> rfl
  | resume =>
    simp only [turned, vacated]
    split <;> rfl
  | _ => rfl

/-- The copy of a mapping that every node keeps, seen by one of its listeners. -/
structure Watched (s : MappingService) (i : UInt16) (k : Nat) (entries : Entries) : Prop where
  sound : s.Sound
  copy : ∃ m : Mapping, s.mappings[i]? = some m ∧ m.replication.isReplicated = true ∧
    k < m.listeners.length ∧ m.entries = entries

theorem Watched.stock_eq {entries : Entries} (watched : s.Watched i k entries) :
    s.stock i = entries := by
  obtain ⟨m, held, -, -, entries⟩ := watched.copy
  exact (stock_of_held held).trans entries

theorem outbox_relisten (s : MappingService) (i : UInt16) (f : List Listener → List Listener) :
    (s.relisten i f).outbox = s.outbox := by
  unfold MappingService.relisten
  split <;> rfl

/-- Other listeners, as long as there are no fewer, watch the same copy. -/
theorem Watched.relisten {entries : Entries} (watched : s.Watched i k entries) (j : UInt16)
    {f : List Listener → List Listener}
    (keeps : ∀ listeners, listeners.length ≤ (f listeners).length) :
    (s.relisten j f).Watched i k entries := by
  obtain ⟨m, held, shared, there, same⟩ := watched.copy
  have found := getElem?_relisten watched.sound.toIndexed j f i
  rw [held, Option.map_some] at found
  refine ⟨watched.sound.relisten j f, _, found, ?_⟩
  split
  · exact ⟨shared, Nat.lt_of_lt_of_le there (keeps m.listeners), same⟩
  · exact ⟨shared, there, same⟩

theorem noticesTo_of_outbox {happening : Happening}
    (outbox : (s.undergo happening).outbox = s.outbox) : s.noticesTo i k happening = [] :=
  Notifies.noticesTo_eq (.of_eq outbox)

/-- Whatever happens, what a listener is told leads from the copy there was to the copy there is. -/
theorem Watched.undergo {entries : Entries} (watched : s.Watched i k entries)
    (happening : Happening) : ∃ entries', (s.undergo happening).Watched i k entries' ∧
      Retell entries (s.noticesTo i k happening) entries' := by
  cases happening with
  | op op =>
    obtain ⟨m, held, shared, there, rfl⟩ := watched.copy
    have sound := watched.sound
    have notices : s.noticesTo i k (.op op) = Mapping.notices m.entries (s.changesOn i op) :=
      (step_notifies sound.toIndexed held there op).noticesTo_eq
    have label := s.label_turned i op m
    refine ⟨(s.turned i op m).entries, ⟨sound.step op, s.turned i op m, ?_, ?_, ?_, rfl⟩, ?_⟩
    · exact getElem?_step_of_replicated sound held shared op
    · rwa [Mapping.replication_of_label label]
    · rwa [listeners_turned]
    · rw [notices, turned_of_replicated sound held shared]
      exact Mapping.retell_notices _ _
  | joins j listener =>
    have reached : s.undergo (.joins j listener) = s.relisten j (· ++ [listener]) :=
      s.addListener_eq_relisten j listener
    refine ⟨entries, ?_, ?_⟩
    · rw [reached]
      exact watched.relisten j fun listeners => by simp
    · rw [noticesTo_of_outbox (by rw [reached, outbox_relisten])]
      exact rfl
  | turns j place listener =>
    refine ⟨entries, ?_, ?_⟩
    · exact watched.relisten (f := (·.set place listener)) j fun listeners => by simp
    · have outbox : (s.undergo (.turns j place listener)).outbox = s.outbox :=
        s.outbox_relisten j _
      rw [noticesTo_of_outbox outbox]
      exact rfl
  | handsOut =>
    have sound := watched.sound
    refine ⟨entries, ⟨?_, watched.copy⟩, ?_⟩
    · exact
        { toIndexed := sound.toIndexed.of_label rfl fun _ => rfl
          tidy := sound.tidy
          numbered := sound.numbered
          parked := sound.parked }
    · have nothing : s.noticesTo i k .handsOut = [] := by
        rw [noticesTo]
        show ([].drop s.outbox.length).filterMap _ = []
        rw [List.drop_nil, List.filterMap_nil]
      rw [nothing]
      exact rfl

theorem Watched.afterAll {entries : Entries} (watched : s.Watched i k entries)
    (happenings : List Happening) : ∃ entries', (s.afterAll happenings).Watched i k entries' ∧
      Retell entries (s.noticesOver i k happenings) entries' := by
  induction happenings generalizing s entries with
  | nil => exact ⟨entries, watched, rfl⟩
  | cons happening rest ih =>
    obtain ⟨entries', watched', first⟩ := watched.undergo happening
    obtain ⟨entries'', watched'', later⟩ := ih watched'
    exact ⟨entries'', watched'', first.append later⟩

/-- Whoever joins the listeners of a mapping that every node keeps has its place among them. From
then on, whatever happens to the mappings and whatever the listeners do, what it is told leads from
the copy as it was when it joined to the copy as it is, and every notice names the value that was
there until then. -/
theorem listeners_can_rebuild (sound : s.Sound) (held : s.mappings[i]? = some m)
    (shared : m.replication.isReplicated = true) (listener : Listener)
    (happenings : List Happening) :
    let joined := s.undergo (.joins i listener)
    let place := m.listeners.length
    (∃ m', joined.mappings[i]? = some m' ∧ m'.listeners[place]? = some listener) ∧
      Retell (s.stock i) (joined.noticesOver i place happenings)
        ((joined.afterAll happenings).stock i) := by
  intro joined place
  have reached : joined = s.relisten i (· ++ [listener]) := s.addListener_eq_relisten i listener
  have found := getElem?_relisten sound.toIndexed i (· ++ [listener]) i
  rw [held, Option.map_some, if_pos rfl, ← reached] at found
  have watched : joined.Watched i place m.entries := by
    refine ⟨reached ▸ sound.relisten i _, _, found, shared, ?_, rfl⟩
    simp [place]
  obtain ⟨entries, watched', retell⟩ := watched.afterAll happenings
  refine ⟨⟨_, found, by simp [place]⟩, ?_⟩
  rw [stock_of_held held, watched'.stock_eq]
  exact retell

/-- A copy with an entry and a listener that breaks down whenever it is told of a change. -/
def overheardCopy : MappingService :=
  let s := ((fresh "a" 1).configure "m" .immediate).2.close
  (s.addListener 1 fun _ => ⟨[], .error .crashed⟩).2.step (.submit (.put 1 [1] [10]) 1)

/-- A bulk change with a key that comes twice and one that is not there, listeners that fail in
another way and that join later, news from elsewhere, and a deletion. -/
def overheardRun : List Happening :=
  [.op (.submit (.sync 1 [[1], [2], [1], [3]] [none, some [20], some [30], none]) 2),
    .turns 1 0 fun _ => ⟨[], .error (.failed .io)⟩,
    .joins 1 fun _ => ⟨[], .error .crashed⟩,
    .handsOut,
    .op (.hear (.cacheData "mapping/m" (MappingCall.codec.encode (.sync 9 [[2]] [some [40]])))),
    .op (.submit (.remove 1 [2]) 3)]

theorem listeners_can_rebuild_in_overheardRun :
    let joined := overheardCopy.undergo (.joins 1 fun _ => ⟨[], .ok ()⟩)
    joined.noticesOver 1 1 overheardRun =
        [.removed [1] [10], .put [2] [20] none, .put [1] [30] none, .put [2] [40] (some [20]),
          .removed [2] [40]] ∧
      Retell (overheardCopy.stock 1) (joined.noticesOver 1 1 overheardRun)
        ((joined.afterAll overheardRun).stock 1) := by
  intro joined
  have sound : overheardCopy.Sound := by
    have configured : Configured _ := .listener 1 (fun _ => ⟨[], .error .crashed⟩)
      (.close (.configure "m" .immediate (.fresh "a" 1)))
    exact configured.blank.sound.step (.submit (.put 1 [1] [10]) 1)
  have watched : overheardCopy.mappings[(1 : UInt16)]?.any fun m =>
      m.replication.isReplicated = true ∧ m.listeners.length = 1 := by decide +kernel
  obtain ⟨m, held, watched⟩ := (Option.any_eq_true _ _).1 watched
  obtain ⟨shared, place⟩ := of_decide_eq_true watched
  have rebuilds := listeners_can_rebuild sound held shared (fun _ => ⟨[], .ok ()⟩) overheardRun
  rw [place] at rebuilds
  exact ⟨by decide +kernel, rebuilds.2⟩

end MappingService

end Cohort

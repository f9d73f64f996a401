import Cohort.Proofs.Mapping.Turns

/-!
# What the other nodes are told

A copy that every node keeps is changed here, and the other nodes are told, at once or later: what
was told and what is still owed always come to the changes that were made. So whoever starts with
the same entries and hears everything has the same entries whenever nothing is owed, even though
what was told is not what was done step by step.

## Main definitions

* `NodeEvent.isAbout`: an event is about a certain mapping.
* `MappingService.Tells`: an operation publishes news of a mapping.
* `MappingService.hearAll`: several events reach a service.

## Main statements

* `MappingService.owed_step`: what is told and owed comes to what was made.
* `MappingService.broadcasts_replay`: a listener follows the copy of a lone writer, and news in
  batches are as far apart as they should be.
-/

namespace Cohort

open MappingService (syncEvent)

/-- An event is about the mapping with the given id. -/
def NodeEvent.isAbout (id : String) : NodeEvent → Bool
  | .cacheData cache _ => MappingService.mappingOfCache? cache = some id
  | _ => false

theorem newsOf_of_not_about {id : String} {event : NodeEvent} (other : event.isAbout id = false) :
    event.newsOf id = [] := by
  cases event with
  | cacheData cache data => exact if_neg (of_decide_eq_false other)
  | _ => rfl

/-- Only the events about a mapping bring news of it. -/
theorem flatMap_newsOf_filter (id : String) (events : List NodeEvent) :
    (events.filter (NodeEvent.isAbout id)).flatMap (NodeEvent.newsOf id) =
      events.flatMap (NodeEvent.newsOf id) := by
  induction events with
  | nil => rfl
  | cons event events ih =>
    rw [List.filter_cons, List.flatMap_cons]
    cases about : event.isAbout id with
    | true => rw [if_pos rfl, List.flatMap_cons, ih]
    | false => rw [if_neg Bool.false_ne_true, ih, newsOf_of_not_about about, List.nil_append]

theorem isAbout_syncEvent (m : Mapping) (table : Changes) (id : String) :
    (syncEvent m table).isAbout id = decide (m.id = id) := by
  simp [syncEvent, NodeEvent.isAbout, mappingOfCache?_cacheName]

/-- A caller calls on a mapping, or changes are told to the others. -/
def MappingOp.isLocal : MappingOp → Bool
  | .submit .. | .flush .. => true
  | _ => false

/-- When an operation tells changes to the others. -/
def MappingOp.time? : MappingOp → Option Nat
  | .flush now _ => some now
  | _ => none

namespace Mapping

variable {m : Mapping} {changes : List Change}

/-- What is told of changes at once and what is kept for later come to what was kept and made. -/
theorem committed_owes (tidy : m.Tidy) (shared : m.replication.isReplicated = true)
    {all : List Change} (writable : Writable all) (makes : changes ⊆ all) (key : Bytes) :
    lastChange key (m.dirty.toList ++ changes) =
      lastChange key ((m.committedNews changes).flatMap (NodeEvent.newsOf m.id) ++
        (m.committed changes).dirty.toList) := by
  unfold committedNews committed
  cases kind : m.replication with
  | immediate =>
    have clean : m.dirty = ∅ := tidy fun interval eq => by simp [kind] at eq
    cases changes with
    | nil => simp [clean]
    | cons change rest =>
      have fits : Writable (Std.ExtTreeMap.ofList (change :: rest) : Changes).toList := by
        refine writable.table fun key value found => ?_
        rw [getElem?_ofList] at found
        exact makes (mem_of_lastChange found)
      simp only [List.isEmpty_cons, Bool.false_eq_true, if_false, List.flatMap_cons,
        List.flatMap_nil, newsOf_syncEvent m fits, lastChange_append, lastChange_toList,
        getElem?_ofList, clean]
      simp
  | batched interval =>
    simp only [List.flatMap_nil, List.nil_append, lastChange_append, lastChange_toList,
      getElem?_insertMany]
  | single => simp [kind, Replication.isReplicated] at shared

/-- What a flush tells and what it leaves for later come to what was kept. -/
theorem flushed_owes {all : List Change} (writable : Writable all) (owes : m.dirty.toList ⊆ all)
    (now : Nat) (force : Bool) (key : Bytes) :
    lastChange key m.dirty.toList =
      lastChange key ((m.flushedNews now force).flatMap (NodeEvent.newsOf m.id) ++
        (m.flushed now force).dirty.toList) := by
  unfold flushedNews flushed
  split
  · have fits : Writable m.dirty.toList := writable.table fun key value found =>
      owes (Std.ExtTreeMap.mem_toList_iff_getElem?_eq_some.2 found)
    have nothing : (∅ : Changes).toList = [] := rfl
    simp [newsOf_syncEvent m fits, nothing]
  · simp

theorem filter_committedNews (m : Mapping) (changes : List Change) (id : String) :
    (m.committedNews changes).filter (NodeEvent.isAbout id) =
      if m.id = id then m.committedNews changes else [] := by
  unfold committedNews
  split
  · split
    · simp
    · by_cases same : m.id = id <;> simp [isAbout_syncEvent, same]
  · simp

theorem filter_flushedNews (m : Mapping) (now : Nat) (force : Bool) (id : String) :
    (m.flushedNews now force).filter (NodeEvent.isAbout id) =
      if m.id = id then m.flushedNews now force else [] := by
  unfold flushedNews
  split
  · by_cases same : m.id = id <;> simp [isAbout_syncEvent, same]
  · simp

end Mapping

namespace MappingService

variable {s t A B : MappingService} {m m' : Mapping} {i : UInt16} {key : Bytes}
  {op : MappingOp} {ops : List MappingOp} {all : List Change}

/-- The events that a service has published so far. -/
def published (s : MappingService) : List NodeEvent := s.outbox.filterMap MappingEffect.event?

/-- Several events reach a service, one after the other. -/
def hearAll (s : MappingService) (events : List NodeEvent) : MappingService := events.foldl hear s

/-- An operation publishes news of a mapping. -/
def Tells (s : MappingService) (id : String) (op : MappingOp) : Prop :=
  ∃ event ∈ s.broadcasts op, event.isAbout id = true

/-- What several operations publish. -/
def broadcastsOver (s : MappingService) : List MappingOp → List NodeEvent
  | [] => []
  | op :: ops => s.broadcasts op ++ (s.step op).broadcastsOver ops

/-! ## What an operation publishes -/

theorem event?_told (told : List Told) :
    (told.map MappingEffect.told).filterMap MappingEffect.event? = [] := by
  simp [MappingEffect.event?]

theorem event?_broadcast (events : List NodeEvent) :
    (events.map MappingEffect.broadcast).filterMap MappingEffect.event? = events := by
  rw [List.filterMap_map]
  exact List.filterMap_some

/-- What a call of a caller has the service ask for. -/
theorem outbox_submit (indexed : s.Indexed) (held : s.mappings[i]? = some m) (call : MappingCall)
    (ticket : Ticket) : ∃ effects, (s.submit call ticket).outbox = s.outbox ++ effects ∧
      (effects.filterMap MappingEffect.event?).filter (NodeEvent.isAbout m.id) =
        m.committedNews (s.madeOn i (.submit call ticket)) := by
  have silent : m.committedNews [] = [] := by
    unfold Mapping.committedNews
    split <;> rfl
  obtain ⟨serves, ran⟩ | ⟨serves, ⟨failure, refused⟩ | ⟨master, sent⟩⟩ := s.submit_cases call ticket
  · obtain ⟨m', held'⟩ := held_of_servesOwn serves
    rw [ran, runFor]
    obtain ⟨⟨failure, ran⟩, none⟩ | ⟨reply, ran⟩ := run_cases held'
    · rw [ran]
      refine ⟨[.answer ticket (.error failure)], rfl, ?_⟩
      simp [MappingEffect.event?, madeOn, none, silent]
    · rw [ran, commit_eq]
      refine ⟨_, List.append_assoc .., ?_⟩
      rw [List.filterMap_append, List.filterMap_append, event?_told, event?_broadcast]
      show ((m'.committedNews _) ++ []).filter _ = _
      rw [List.append_nil, Mapping.filter_committedNews, madeOn, serves]
      by_cases same : call.index = i
      · obtain rfl : m' = m := Option.some.inj (held'.symm.trans (same ▸ held))
        simp [same]
      · have apart : m'.id ≠ m.id := fun eq => same (indexed.index_eq_of_id_eq held held' eq)
        simp [same, apart, silent]
  · rw [refused]
    refine ⟨[.answer ticket (.error failure)], rfl, ?_⟩
    simp [MappingEffect.event?, madeOn, serves, silent]
  · rw [sent]
    refine ⟨[.call master (s.lastRequest + 1) call], rfl, ?_⟩
    simp [MappingEffect.event?, madeOn, serves, silent]

/-- What a flush has the service ask for. -/
theorem filter_news_flush (indexed : s.Indexed) (held : s.mappings[i]? = some m) (now : Nat)
    (force : Bool) : (s.mappings.values.flatMap (Mapping.flushedNews now force)).filter
      (NodeEvent.isAbout m.id) = m.flushedNews now force := by
  obtain ⟨before, after, split, apart⟩ := indexed.values_split held
  have others : ∀ m' ∈ before ++ after,
      (m'.flushedNews now force).filter (NodeEvent.isAbout m.id) = [] := by
    intro m' there
    have held' : s.mappings[m'.index]? = some m' := by
      refine indexed.held_of_mem_values ?_
      rw [split]
      obtain first | last := List.mem_append.1 there
      · exact List.mem_append_left _ first
      · exact List.mem_append_right _ (List.mem_cons_of_mem _ last)
    rw [Mapping.filter_flushedNews, if_neg]
    exact fun eq => apart m' there (indexed.index_eq_of_id_eq held held' eq)
  have none : ∀ l : List Mapping, (∀ m' ∈ l, m' ∈ before ++ after) →
      l.flatMap (fun m' => (m'.flushedNews now force).filter (NodeEvent.isAbout m.id)) = [] := by
    intro l among
    exact List.flatMap_eq_nil_iff.2 fun m' there => others m' (among m' there)
  rw [List.filter_flatMap, split, List.flatMap_append, List.flatMap_cons,
    none before fun _ => List.mem_append_left _, none after fun _ => List.mem_append_right _,
    Mapping.filter_flushedNews, if_pos rfl, List.append_nil, List.nil_append]

theorem broadcasts_submit (indexed : s.Indexed) (held : s.mappings[i]? = some m)
    (call : MappingCall) (ticket : Ticket) :
    (s.broadcasts (.submit call ticket)).filter (NodeEvent.isAbout m.id) =
      m.committedNews (s.madeOn i (.submit call ticket)) := by
  obtain ⟨effects, grown, news⟩ := outbox_submit indexed held call ticket
  have emitted : s.emitted (.submit call ticket) = effects := emitted_eq grown
  rw [broadcasts, emitted]
  exact news

theorem broadcasts_flush (indexed : s.Indexed) (held : s.mappings[i]? = some m) (now : Nat)
    (force : Bool) : (s.broadcasts (.flush now force)).filter (NodeEvent.isAbout m.id) =
      m.flushedNews now force := by
  have emitted : s.emitted (.flush now force) =
      (s.mappings.values.flatMap (Mapping.flushedNews now force)).map .broadcast :=
    emitted_eq (s.outbox_flush now force)
  rw [broadcasts, emitted, event?_broadcast]
  exact filter_news_flush indexed held now force

theorem broadcasts_hear (indexed : s.Indexed) (event : NodeEvent) :
    s.broadcasts (.hear event) = [] := by
  obtain ⟨ignored, -⟩ | ⟨m, -, heard, -⟩ := hear_cases indexed event
  · have grown : (s.step (.hear event)).outbox = s.outbox ++ [] := by
      show (s.hear event).outbox = _
      rw [ignored, List.append_nil]
    rw [broadcasts, emitted_eq grown]
    rfl
  · have grown : (s.step (.hear event)).outbox =
        s.outbox ++ (m.apply (event.newsOf m.id)).2.map .told := by
      show (s.hear event).outbox = _
      rw [heard]
      rfl
    rw [broadcasts, emitted_eq grown, event?_told]

/-- What is published stays published. -/
theorem published_step (indexed : s.Indexed) (held : s.mappings[i]? = some m)
    (here : op.isLocal = true) : (s.step op).published = s.published ++ s.broadcasts op := by
  have grown : ∃ effects, (s.step op).outbox = s.outbox ++ effects := by
    cases op with
    | submit call ticket =>
      obtain ⟨effects, grown, -⟩ := outbox_submit indexed held call ticket
      exact ⟨effects, grown⟩
    | flush now force => exact ⟨_, s.outbox_flush now force⟩
    | _ => cases here
  obtain ⟨effects, grown⟩ := grown
  rw [published, grown, List.filterMap_append, broadcasts, emitted_eq grown]
  rfl

/-- A flush tells of a mapping just if it tells of its changes. -/
theorem tells_flush_iff (indexed : s.Indexed) (held : s.mappings[i]? = some m) (now : Nat)
    (force : Bool) : s.Tells m.id (.flush now force) ↔ m.flushes now force = true := by
  have filtered := broadcasts_flush indexed held now force
  have some : s.Tells m.id (.flush now force) ↔
      (s.broadcasts (.flush now force)).filter (NodeEvent.isAbout m.id) ≠ [] := by
    rw [Ne, List.filter_eq_nil_iff]
    simp [Tells]
  rw [some, filtered, Mapping.flushedNews]
  split
  next flushes => simp [flushes]
  next silent => simp [silent]

/-! ## What is told and what is owed -/

theorem owed_of_turned (sound : s.Sound) (held : s.mappings[i]? = some m)
    (shared : m.replication.isReplicated = true) (op : MappingOp) :
    (s.step op).owed i = (s.turned i op m).dirty.toList :=
  owed_of_held (getElem?_step_of_replicated sound held shared op)

/-- What an operation makes of a copy and what was owed of it before come to what the operation
tells the others and what is owed of it afterwards. -/
theorem owed_step (sound : s.Sound) (held : s.mappings[i]? = some m)
    (shared : m.replication.isReplicated = true) (writable : Writable all)
    (owes : s.owed i ⊆ all) (makes : s.madeOn i op ⊆ all)
    (concerns : op.isLocal = true ∨ ∃ event, op = .hear event) (key : Bytes) :
    lastChange key (s.owed i ++ s.madeOn i op) =
      lastChange key ((s.broadcasts op).flatMap (NodeEvent.newsOf m.id) ++ (s.step op).owed i) := by
  -- of all that is published, only what is about this mapping counts
  rw [owed_of_turned sound held shared, owed_of_held held, ← flatMap_newsOf_filter]
  rw [owed_of_held held] at owes
  cases op with
  | submit call ticket =>
    rw [broadcasts_submit sound.toIndexed held]
    exact m.committed_owes (sound.tidy held) shared writable makes key
  | flush now force =>
    rw [broadcasts_flush sound.toIndexed held]
    show lastChange key (m.dirty.toList ++ []) = _
    rw [List.append_nil]
    exact m.flushed_owes writable owes now force key
  | hear event =>
    rw [broadcasts_hear sound.toIndexed]
    simp [madeOn, turned, Mapping.heard]
  | _ => simp [MappingOp.isLocal] at concerns

/-- What is owed afterwards was owed before or made meanwhile. -/
theorem owed_step_subset (sound : s.Sound) (held : s.mappings[i]? = some m)
    (shared : m.replication.isReplicated = true)
    (concerns : op.isLocal = true ∨ ∃ event, op = .hear event) :
    (s.step op).owed i ⊆ s.owed i ++ s.madeOn i op := by
  rw [owed_of_turned sound held shared, owed_of_held held]
  cases op with
  | submit call ticket =>
    intro change there
    rw [Std.ExtTreeMap.mem_toList_iff_getElem?_eq_some] at there
    simp only [turned, Mapping.committed] at there
    split at there
    · rw [getElem?_insertMany, Option.or_eq_some_iff] at there
      obtain made | ⟨-, owed⟩ := there
      · exact List.mem_append_right _ (mem_of_lastChange made)
      · exact List.mem_append_left _ (Std.ExtTreeMap.mem_toList_iff_getElem?_eq_some.2 owed)
    · exact List.mem_append_left _ (Std.ExtTreeMap.mem_toList_iff_getElem?_eq_some.2 there)
  | flush now force =>
    simp only [turned, Mapping.flushed]
    split
    · exact List.nil_subset _
    · exact List.subset_append_left _ _
  | hear event => exact List.subset_append_left _ _
  | _ => simp [MappingOp.isLocal] at concerns

/-! ## A lone writer -/

theorem changesOn_of_local (here : op.isLocal = true) : s.changesOn i op = s.madeOn i op := by
  cases op with
  | submit call ticket => exact List.append_nil _
  | flush now force => rfl
  | _ => cases here

/-- What a run tells and what it leaves for later come to what was owed and made. -/
theorem owed_after (sound : s.Sound) (held : s.mappings[i]? = some m)
    (shared : m.replication.isReplicated = true) (writable : Writable all)
    (owes : s.owed i ⊆ all) (makes : s.changesOver i ops ⊆ all)
    (here : ∀ op ∈ ops, op.isLocal = true) (key : Bytes) :
    lastChange key (s.owed i ++ s.changesOver i ops) =
      lastChange key ((s.broadcastsOver ops).flatMap (NodeEvent.newsOf m.id) ++
        (s.after ops).owed i) := by
  induction ops generalizing s m with
  | nil => simp [changesOver, broadcastsOver]
  | cons op ops ih =>
    have concerns : op.isLocal = true ∨ ∃ event, op = .hear event :=
      .inl (here op List.mem_cons_self)
    rw [changesOver, changesOn_of_local (here op List.mem_cons_self), List.append_subset] at makes
    have first := owed_step sound held shared writable owes makes.1 concerns key
    have subset : (s.step op).owed i ⊆ all := fun change there =>
      (List.append_subset.2 ⟨owes, makes.1⟩) (owed_step_subset sound held shared concerns there)
    obtain ⟨m', held', label⟩ := held_step sound held op
    have id : m'.id = m.id := Mapping.id_of_label label
    have kind : m'.replication = m.replication := Mapping.replication_of_label label
    have rest := ih (sound.step op) held' (kind ▸ shared) subset makes.2
      fun op' there => here op' (List.mem_cons_of_mem _ there)
    rw [id] at rest
    rw [changesOver, changesOn_of_local (here op List.mem_cons_self), ← List.append_assoc,
      lastChange_append, first, ← lastChange_append, List.append_assoc, lastChange_append, rest,
      ← lastChange_append, broadcastsOver, List.flatMap_append, List.append_assoc]
    rfl

theorem published_after (sound : s.Sound) (held : s.mappings[i]? = some m)
    (here : ∀ op ∈ ops, op.isLocal = true) :
    (s.after ops).published = s.published ++ s.broadcastsOver ops := by
  induction ops generalizing s m with
  | nil => exact (List.append_nil _).symm
  | cons op ops ih =>
    obtain ⟨m', held', -⟩ := held_step sound held op
    have rest := ih (sound.step op) held' fun op' there => here op' (List.mem_cons_of_mem _ there)
    rw [after_cons, rest, published_step sound.toIndexed held (here op List.mem_cons_self),
      broadcastsOver, List.append_assoc]

theorem stock_step_of_replicated (sound : s.Sound) (held : s.mappings[i]? = some m)
    (shared : m.replication.isReplicated = true) (op : MappingOp) :
    (s.step op).stock i = (s.changesOn i op).foldl Mapping.changed (s.stock i) := by
  rw [stock_of_held (getElem?_step_of_replicated sound held shared op),
    turned_of_replicated sound held shared op, stock_of_held held]

/-- The copy of a replicated mapping is what the changes made here make of it. -/
theorem stock_after_of_replicated (sound : s.Sound) (held : s.mappings[i]? = some m)
    (shared : m.replication.isReplicated = true) (ops : List MappingOp) :
    (s.after ops).stock i = (s.changesOver i ops).foldl Mapping.changed (s.stock i) := by
  induction ops generalizing s m with
  | nil => rfl
  | cons op ops ih =>
    obtain ⟨m', held', label⟩ := held_step sound held op
    have kind : m'.replication = m.replication := Mapping.replication_of_label label
    rw [after_cons, ih (sound.step op) held' (kind ▸ shared), changesOver, List.foldl_append,
      stock_step_of_replicated sound held shared op]

theorem hearAll_eq_after (s : MappingService) (events : List NodeEvent) :
    s.hearAll events = s.after (events.map .hear) := by
  rw [hearAll, after, List.foldl_map]
  rfl

theorem changesOver_hear (sound : s.Sound) (held : s.mappings[i]? = some m)
    (events : List NodeEvent) :
    s.changesOver i (events.map .hear) = events.flatMap (NodeEvent.newsOf m.id) := by
  induction events generalizing s m with
  | nil => rfl
  | cons event events ih =>
    obtain ⟨m', held', label⟩ := held_step sound held (.hear event)
    have id : m'.id = m.id := Mapping.id_of_label label
    rw [List.map_cons, changesOver, ih (sound.step _) held', id, List.flatMap_cons]
    simp [changesOn, madeOn, heardOn, held]

/-- A copy that hears events is what their news make of it. -/
theorem stock_hearAll (sound : s.Sound) (held : s.mappings[i]? = some m)
    (shared : m.replication.isReplicated = true) (events : List NodeEvent) :
    (s.hearAll events).stock i =
      (events.flatMap (NodeEvent.newsOf m.id)).foldl Mapping.changed (s.stock i) := by
  rw [hearAll_eq_after, stock_after_of_replicated sound held shared, changesOver_hear sound held]

/-- The other nodes were told of a mapping at some time from `now` on. -/
def FlushedSince (now : Nat) (m : Mapping) : Prop := ∃ last, m.lastFlush = some last ∧ now ≤ last

theorem flushedSince_turned {now : Nat} (since : FlushedSince now m) (here : op.isLocal = true)
    (later : ∀ time, op.time? = some time → now ≤ time) : FlushedSince now (s.turned i op m) := by
  cases op with
  | submit call ticket => exact since
  | flush time force =>
    simp only [turned, Mapping.flushed]
    split
    · exact ⟨time, rfl, later time rfl⟩
    · exact since
  | _ => cases here

theorem flushedSince_after {now : Nat} (sound : s.Sound) (held : s.mappings[i]? = some m)
    (shared : m.replication.isReplicated = true) (since : FlushedSince now m)
    (here : ∀ op ∈ ops, op.isLocal = true)
    (later : ∀ op ∈ ops, ∀ time, op.time? = some time → now ≤ time) :
    ∃ m' : Mapping, (s.after ops).mappings[i]? = some m' ∧ m'.label = m.label ∧
      FlushedSince now m' := by
  induction ops generalizing s m with
  | nil => exact ⟨m, held, rfl, since⟩
  | cons op ops ih =>
    have label := s.label_turned i op m
    have kind : (s.turned i op m).replication = m.replication :=
      Mapping.replication_of_label label
    obtain ⟨m', held', label', since'⟩ := ih (sound.step op)
      (getElem?_step_of_replicated sound held shared op) (kind ▸ shared)
      (flushedSince_turned since (here op List.mem_cons_self) (later op List.mem_cons_self))
      (fun op there => here op (List.mem_cons_of_mem _ there))
      (fun op there => later op (List.mem_cons_of_mem _ there))
    exact ⟨m', held', label'.trans label, since'⟩

/-- An unforced flush that tells of a mapping comes at least an interval after an earlier one. -/
theorem flushes_apart {now now' interval : Nat} {force : Bool} (sound : s.Sound)
    (held : s.mappings[i]? = some m) (kind : m.replication = .batched interval)
    (tells : s.Tells m.id (.flush now force)) (here : ∀ op ∈ ops, op.isLocal = true)
    (later : ∀ op ∈ ops, ∀ time, op.time? = some time → now ≤ time) (ordered : now ≤ now')
    (tells' : ((s.step (.flush now force)).after ops).Tells m.id (.flush now' false)) :
    now + interval ≤ now' := by
  have shared : m.replication.isReplicated = true := by rw [kind]; rfl
  rw [tells_flush_iff sound.toIndexed held] at tells
  have label := s.label_turned i (.flush now force) m
  have kind' : (s.turned i (.flush now force) m).replication = m.replication :=
    Mapping.replication_of_label label
  have since : FlushedSince now (s.turned i (.flush now force) m) := by
    refine ⟨now, ?_, Nat.le_refl now⟩
    simp [turned, Mapping.flushed, tells]
  obtain ⟨m', held', label', last, flushed, after⟩ := flushedSince_after (sound.step _)
    (getElem?_step_of_replicated sound held shared _) (kind' ▸ shared) since here later
  have same := label'.trans label
  have id : m'.id = m.id := Mapping.id_of_label same
  have kind'' : m'.replication = m.replication := Mapping.replication_of_label same
  rw [← id, tells_flush_iff ((sound.step _).after ops).toIndexed held', Mapping.flushes, kind'',
    kind] at tells'
  simp only [Mapping.isDue, flushed, Bool.or_false, Bool.and_eq_true, decide_eq_true_eq] at tells'
  omega

/-- Whoever starts with the entries of a lone writer and hears what the writer publishes has the
writer's entries whenever the writer owes nothing. -/
theorem follows (soundA : A.Sound) (soundB : B.Sound) (held : A.mappings[i]? = some m)
    (held' : B.mappings[i]? = some m') (label : m'.label = m.label)
    (shared : m.replication.isReplicated = true) (equal : m'.entries = m.entries)
    (owes : ∀ change ∈ A.owed i, m.entries[change.1]? = change.2)
    (silent : A.outbox = []) (here : ∀ op ∈ ops, op.isLocal = true)
    (writable : Writable (A.owed i ++ A.changesOver i ops)) (clear : (A.after ops).owed i = []) :
    (B.hearAll (A.after ops).published).stock i = (A.after ops).stock i := by
  have id : m'.id = m.id := Mapping.id_of_label label
  have kind : m'.replication = m.replication := Mapping.replication_of_label label
  have quiet : A.published = [] := by rw [published, silent]; rfl
  refine Std.ExtTreeMap.ext_getElem? fun key => ?_
  have told := owed_after soundA held shared writable (List.subset_append_left _ _)
    (List.subset_append_right _ _) here key
  rw [clear, List.append_nil, lastChange_append, owed_of_held held, lastChange_toList] at told
  rw [stock_hearAll soundB held' (kind ▸ shared), stock_after_of_replicated soundA held shared,
    stock_of_held held, stock_of_held held', equal, published_after soundA held here, quiet,
    List.nil_append, id, getElem?_foldl_changed, getElem?_foldl_changed, ← told]
  cases lastChange key (A.changesOver i ops) with
  | some value => rfl
  | none =>
    -- the key was not changed, but it may have been owed from before
    cases owed : m.dirty[key]? with
    | none => rfl
    | some value =>
      refine (owes (key, value) ?_).symm
      rw [owed_of_held held]
      exact Std.ExtTreeMap.mem_toList_iff_getElem?_eq_some.2 owed

/-- A lone writer of a replicated mapping, and somebody who starts with the same entries and hears
what the writer publishes: if changes are told at once, their entries agree after any number of
operations; if changes are told in batches, they agree after any flush that told of the mapping or
had nothing to tell, and news that an unforced flush tells come at least an interval after any
earlier news. -/
theorem broadcasts_replay (soundA : A.Sound) (soundB : B.Sound) (held : A.mappings[i]? = some m)
    (held' : B.mappings[i]? = some m') (label : m'.label = m.label)
    (equal : m'.entries = m.entries)
    (owes : ∀ change ∈ A.owed i, m.entries[change.1]? = change.2)
    (silent : A.outbox = []) (here : ∀ op ∈ ops, op.isLocal = true)
    (writable : Writable (A.owed i ++ A.changesOver i ops))
    (ordered : (ops.filterMap MappingOp.time?).Pairwise (· ≤ ·)) :
    (m.replication = .immediate →
      (B.hearAll (A.after ops).published).stock i = (A.after ops).stock i) ∧
    ∀ interval, m.replication = .batched interval →
      (∀ now force, (A.after ops).Tells m.id (.flush now force) ∨ (A.after ops).owed i = [] →
        (B.hearAll (A.after (ops ++ [.flush now force])).published).stock i =
          (A.after (ops ++ [.flush now force])).stock i) ∧
      ∀ before now force between now' rest,
        ops = before ++ .flush now force :: (between ++ .flush now' false :: rest) →
        (A.after before).Tells m.id (.flush now force) →
        (A.after (before ++ .flush now force :: between)).Tells m.id (.flush now' false) →
        now + interval ≤ now' := by
  have copy := fun (ops : List MappingOp) => held_after soundA held ops
  refine ⟨fun kind => ?_, fun interval kind => ⟨fun now force told => ?_, ?_⟩⟩
  · have shared : m.replication.isReplicated = true := by rw [kind]; rfl
    obtain ⟨m'', kept, label''⟩ := copy ops
    have kind'' : m''.replication = m.replication := Mapping.replication_of_label label''
    refine follows soundA soundB held held' label shared equal owes silent here writable ?_
    have clean : m''.dirty = ∅ := (soundA.after ops).tidy kept fun interval eq => by
      rw [kind'', kind] at eq
      cases eq
    rw [owed_of_held kept, clean]
    rfl
  · have shared : m.replication.isReplicated = true := by rw [kind]; rfl
    obtain ⟨m'', kept, label''⟩ := copy ops
    have id'' : m''.id = m.id := Mapping.id_of_label label''
    have kind'' : m''.replication = m.replication := Mapping.replication_of_label label''
    have here' : ∀ op ∈ ops ++ [.flush now force], op.isLocal = true := by
      intro op there
      obtain early | last := List.mem_append.1 there
      · exact here op early
      · rw [List.mem_singleton.1 last]
        rfl
    have same : A.changesOver i (ops ++ [.flush now force]) = A.changesOver i ops := by
      rw [changesOver_append]
      exact List.append_nil _
    refine follows soundA soundB held held' label shared equal owes silent here'
      (same ▸ writable) ?_
    rw [after_append]
    show ((A.after ops).step (.flush now force)).owed i = []
    rw [owed_of_turned (soundA.after ops) kept (kind'' ▸ shared)]
    show (m''.flushed now force).dirty.toList = []
    rw [← id'', tells_flush_iff (soundA.after ops).toIndexed kept, owed_of_held kept] at told
    unfold Mapping.flushed
    split
    next => rfl
    next silent => exact told.resolve_left silent
  · rintro before now force between now' rest rfl tells tells'
    obtain ⟨m'', kept, label''⟩ := copy before
    have id'' : m''.id = m.id := Mapping.id_of_label label''
    have kind'' : m''.replication = m.replication := Mapping.replication_of_label label''
    rw [List.filterMap_append, List.filterMap_cons, List.filterMap_append] at ordered
    have later := (List.pairwise_cons.1 (List.pairwise_append.1 ordered).2.1).1
    rw [← id''] at tells tells'
    rw [after_append] at tells'
    refine flushes_apart (soundA.after before) kept (kind''.trans kind) tells
      (fun op there => here op ?_) (fun op there time found => later time ?_) (later now' ?_) tells'
    · simp [there]
    · exact List.mem_append_left _ (List.mem_filterMap.2 ⟨op, there, found⟩)
    · simp [MappingOp.time?]

/-- A node with one mapping whose changes are told in batches. -/
def batchedCopy (node : NodeName) : MappingService :=
  ((fresh node 1).configure "m" (.batched 10)).2.close

theorem batchedCopy_sound (node : NodeName) : (batchedCopy node).Sound :=
  (Configured.close (.configure "m" (.batched 10) (.fresh node 1))).blank.sound

/-- A writer that changes its mind between flushes, one of which comes too early. -/
def batchedRun : List MappingOp :=
  [.submit (.put 1 [1] [10]) 1, .submit (.sync 1 [[1], [2], [1]] [none, some [20], some [30]]) 2,
   .flush 0 false, .submit (.remove 1 [2]) 3, .flush 5 false, .submit (.remove 1 [9]) 4,
   .flush 12 false, .submit (.put 1 [3] [40]) 5]

theorem broadcasts_replay_in_batchedRun :
    let writer := (batchedCopy "a").after (batchedRun ++ [.flush 13 true])
    writer.published.map (NodeEvent.newsOf "m") =
        [[([1], some [30]), ([2], some [20])], [([2], none), ([9], none)], [([3], some [40])]] ∧
      (writer.stock 1).toList = [([1], [30]), ([3], [40])] ∧
      ((batchedCopy "b").hearAll writer.published).stock 1 = writer.stock 1 ∧
      0 + 10 ≤ 12 := by
  have held : ∀ node, (batchedCopy node).mappings[(1 : UInt16)]? =
      some (.fresh "m" 1 (.batched 10)) := fun node => rfl
  have here : ∀ op ∈ batchedRun, op.isLocal = true := by decide
  have writable :
      Writable ((batchedCopy "a").owed 1 ++ (batchedCopy "a").changesOver 1 batchedRun) := by
    unfold Writable Fit
    decide +kernel
  have replays := broadcasts_replay (batchedCopy_sound "a") (batchedCopy_sound "b") (held "a")
    (held "b") rfl rfl (fun change there => by cases there) rfl here writable (by decide)
  obtain ⟨-, batched⟩ := replays
  obtain ⟨agree, apart⟩ := batched 10 rfl
  refine ⟨by decide +kernel, by decide +kernel, agree 13 true (.inl ?_),
    apart (batchedRun.take 2) 0 false ((batchedRun.take 6).drop 3) 12 (batchedRun.drop 7) rfl
      ?_ ?_⟩
  all_goals
    unfold Tells
    decide +kernel

end MappingService

end Cohort

import Cohort.Proofs.Mapping.Mail

/-!
# Who masters a mapping

The ministers are the first few names of those that are alive, and the master of a mapping is drawn
from them by the ring. Only news of who is alive change what a service goes by, and nodes that go by
the same ministers name the same master.

## Main definitions

* `MappingService.Abides`: a service goes by the same ministers as before.

## Main statements

* `Ring.exists_masterOf`: a ring over somebody names a master.
* `MappingService.nodes_updateMinistry`: the ministers are drawn from the nodes that are alive.
* `MappingService.ring_step`: places on the ring are settled by the ministers.
* `MappingService.Configured.updateMinistry_eq`: the first ministry of a service.
-/

namespace Cohort

namespace Ring

theorem mem_foldl_insertIfNew {node : NodeName} {place : UInt64} (claimed : List UInt64)
    {places : Std.ExtTreeMap UInt64 NodeName} (there : place ∈ places ∨ place ∈ claimed) :
    place ∈ claimed.foldl (fun places place => places.insertIfNew place node) places := by
  induction claimed generalizing places with
  | nil => simpa using there
  | cons first rest ih =>
    refine ih ?_
    rw [Std.ExtTreeMap.mem_insertIfNew, Std.compare_eq_iff_eq]
    rw [List.mem_cons] at there
    tauto

theorem mem_foldl_settle (share : Nat) {place : UInt64} (nodes : List NodeName)
    {places : Std.ExtTreeMap UInt64 NodeName} (there : place ∈ places) :
    place ∈ nodes.foldl (settle share) places := by
  induction nodes generalizing places with
  | nil => exact there
  | cons node nodes ih => exact ih (mem_foldl_insertIfNew _ (.inl there))

/-- A ring over somebody, who claims a place, names a master for every key. -/
theorem exists_masterOf {share : Nat} {nodes : NameSet} (claims : 0 < share) {node : NodeName}
    (inside : node ∈ nodes) (key : String) : ∃ master, (ofNodes share nodes).masterOf key =
      some master := by
  obtain ⟨first, rest, listed⟩ : ∃ first rest, nodes.toList = first :: rest := by
    cases listed : nodes.toList with
    | nil => exact absurd (Std.ExtTreeSet.mem_toList.2 inside) (by rw [listed]; exact nofun)
    | cons first rest => exact ⟨first, rest, rfl⟩
  have claimed : Fnv.ofText first ∈ Ring.claims share first := by
    obtain ⟨n, rfl⟩ := Nat.exists_eq_succ_of_ne_zero (Nat.ne_of_gt claims)
    exact List.mem_cons_self
  have owned : Fnv.ofText first ∈ (ofNodes share nodes).places := by
    rw [ofNodes, listed, List.foldl_cons]
    exact mem_foldl_settle share rest (mem_foldl_insertIfNew _ (.inr claimed))
  -- whatever is found, there is a lowest place at least
  have lowest : (ofNodes share nodes).places.toList.head?.isSome := by
    rw [List.isSome_head?, ne_eq, Std.ExtTreeMap.toList_eq_nil_iff]
    rintro none
    rw [none] at owned
    exact Std.ExtTreeMap.not_mem_empty owned
  have found : ((ofNodes share nodes).masterOf key).isSome := by
    simp [masterOf, lowest]
  exact Option.isSome_iff_exists.1 found

end Ring

namespace MappingService

variable {s t u : MappingService} {call : MappingCall} {live : NameSet}

/-! ## Who a service goes by -/

/-- The node goes by the same ministers. -/
structure Abides (s t : MappingService) : Prop where
  node : t.node = s.node
  ministerCount : t.ministerCount = s.ministerCount
  ring : t.ring = s.ring

namespace Abides

theorem refl (s : MappingService) : Abides s s := ⟨rfl, rfl, rfl⟩

theorem trans (first : Abides s t) (second : Abides t u) : Abides s u :=
  ⟨second.node.trans first.node, second.ministerCount.trans first.ministerCount,
    second.ring.trans first.ring⟩

theorem foldl {α : Type} {f : MappingService → α → MappingService}
    (each : ∀ s a, Abides s (f s a)) (l : List α) (s : MappingService) :
    Abides s (l.foldl f s) := by
  induction l generalizing s with
  | nil => exact refl s
  | cons a l ih => exact (each s a).trans (ih (f s a))

theorem of_tends (tends : s.Tends t) : Abides s t := by
  rw [tends]
  exact ⟨rfl, rfl, rfl⟩

theorem submit (s : MappingService) (call : MappingCall) (ticket : Ticket) :
    Abides s (s.submit call ticket) := by
  obtain ⟨serves, ran⟩ | ⟨-, ⟨failure, refused⟩ | ⟨master, sent⟩⟩ := s.submit_cases call ticket
  · obtain ⟨m, held⟩ := held_of_servesOwn serves
    have ended : Abides (s.run call).2 (s.submit call ticket) := by
      rw [ran]
      exact ⟨rfl, rfl, rfl⟩
    exact (of_tends (run_tends held)).trans ended
  · rw [refused]
    exact ⟨rfl, rfl, rfl⟩
  · rw [sent]
    exact ⟨rfl, rfl, rfl⟩

theorem handleCall (s : MappingService) (call : MappingCall) : Abides s (s.handleCall call).2 :=
  of_tends (s.handleCall_tends call)

theorem callCompleted (s : MappingService) (n : Nat) (reply : MappingReply) :
    Abides s (s.callCompleted n reply) := by
  obtain ⟨-, ended⟩ | ⟨peer, ticket, -, ended⟩ | ⟨peer, index, entries, -, ended⟩ :=
    s.callCompleted_cases n reply
  · rw [ended]
    exact refl s
  · rw [ended]
    exact ⟨rfl, rfl, rfl⟩
  · rw [ended]
    cases reply with
    | ok value => exact ⟨rfl, rfl, rfl⟩
    | error failure =>
      simp only [restore_eq]
      split <;> exact ⟨rfl, rfl, rfl⟩

theorem peerDisconnected (s : MappingService) (peer : NodeName) :
    Abides s (s.peerDisconnected peer) :=
  foldl (fun s n => callCompleted s n (.error .peerUnavailable)) _ s

theorem cacheData (s : MappingService) (cache : String) (data : Bytes) :
    Abides s (s.cacheData cache data).2 := by
  unfold MappingService.cacheData
  split
  · exact refl s
  · split
    · exact ⟨rfl, rfl, rfl⟩
    · exact refl s

theorem addListener (s : MappingService) (i : UInt16) (listener : Listener) :
    Abides s (s.addListener i listener).2 := by
  unfold MappingService.addListener
  split
  · exact ⟨rfl, rfl, rfl⟩
  · exact refl s

theorem handOffOne (s : MappingService) (m : Mapping) : Abides s (s.handOffOne m) := by
  rw [handOffOne_eq]
  cases s.heir? m with
  | none => exact refl s
  | some master => exact ⟨rfl, rfl, rfl⟩

theorem resumeHandOffs (s : MappingService) : Abides s s.resumeHandOffs :=
  foldl handOffOne _ s

end Abides

theorem nodes_governed (s : MappingService) (live : NameSet) :
    (s.governed live).ring.nodes = s.ministers live := by
  rw [governed]
  split
  next same => exact same.symm
  next => rfl

theorem ring_governed (settled : s.ring = .ofNodes Ring.defaultShare s.ring.nodes)
    (live : NameSet) :
    (s.governed live).ring = .ofNodes Ring.defaultShare (s.governed live).ring.nodes := by
  unfold governed
  split
  · exact settled
  · rfl

/-- The ministers are drawn from the nodes that are alive. -/
theorem nodes_updateMinistry (s : MappingService) (live : NameSet) :
    (s.updateMinistry live).ring.nodes = s.ministers live := by
  rw [updateMinistry_eq, (Abides.resumeHandOffs _).ring, nodes_governed]

/-- Places on the ring are settled by the ministers, whoever these are. -/
theorem ring_step (s : MappingService) (op : MappingOp)
    (settled : s.ring = .ofNodes Ring.defaultShare s.ring.nodes) :
    (s.step op).ring = .ofNodes Ring.defaultShare (s.step op).ring.nodes := by
  have same : ∀ {t : MappingService}, Abides s t →
      t.ring = .ofNodes Ring.defaultShare t.ring.nodes :=
    fun abides => by rwa [abides.ring]
  cases op with
  | submit call ticket => exact same (.submit s call ticket)
  | handle call => exact same (.handleCall s call)
  | complete requestId reply => exact same (.callCompleted s requestId reply)
  | disconnect peer => exact same (.peerDisconnected s peer)
  | hear event =>
    cases event with
    | cacheData cache data => exact same (.cacheData s cache data)
    | _ => exact same (.refl s)
  | flush now force => exact same (.of_tends (s.flush_tends now force))
  | resume => exact same (.resumeHandOffs s)
  | govern live =>
    rw [step, updateMinistry_eq, (Abides.resumeHandOffs _).ring]
    exact ring_governed settled live

/-! ## Services that were only configured -/

/-- Before anybody else is known, a node is its own only minister. -/
theorem Configured.alone (configured : s.Configured) :
    s.ring = .ofNodes Ring.defaultShare (.ofList [s.node]) ∧ 0 < s.ministerCount := by
  have registered : ∀ (s : MappingService) (id : String) (f : Mapping → Mapping),
      Abides s (s.register id f).2 := by
    intro s id f
    unfold register
    split
    · exact .refl s
    · split
      · exact ⟨rfl, rfl, rfl⟩
      · exact .refl s
  have kept : ∀ {s t : MappingService}, Abides s t →
      (s.ring = .ofNodes Ring.defaultShare (.ofList [s.node]) ∧ 0 < s.ministerCount) →
      t.ring = .ofNodes Ring.defaultShare (.ofList [t.node]) ∧ 0 < t.ministerCount := by
    rintro s t ⟨node, count, ring⟩ alone
    rwa [node, count, ring]
  induction configured with
  | fresh node ministerCount => exact ⟨rfl, Nat.lt_of_lt_of_le Nat.one_pos (Nat.le_max_right _ _)⟩
  | @configure s id replication _ alone =>
    unfold MappingService.configure
    split
    · exact alone
    split
    · exact alone
    split
    · exact alone
    · exact alone
  | valueAction id name action _ alone => exact kept (registered _ _ _) alone
  | mapAction id name action _ alone => exact kept (registered _ _ _) alone
  | listener i listener _ alone => exact kept (.addListener _ i listener) alone
  | close _ alone => exact alone

/-- A service that was only configured has nothing to hand off: it goes by the new ministers, and
nothing else happens to it. -/
theorem Configured.updateMinistry_eq (configured : s.Configured) (live : NameSet) :
    s.updateMinistry live =
      { s with ring := .ofNodes Ring.defaultShare (s.ministers live) } := by
  have blank := configured.blank
  have idle : ∀ (t : MappingService) (m : Mapping), m.entries = ∅ → t.handOffOne m = t := by
    intro t m empty
    rw [handOffOne, if_pos (by simp [empty])]
  have still : ∀ t : MappingService, t.mappings = s.mappings → t.resumeHandOffs = t := by
    intro t same
    have empty : ∀ m ∈ t.mappings.values, m.entries = ∅ := by
      intro m there
      rw [same] at there
      exact (blank.empty (blank.held_of_mem_values there)).1
    refine List.foldlRecOn (motive := fun u => u = t) _ _ rfl ?_
    rintro u rfl m there
    exact idle u m (empty m there)
  rw [MappingService.updateMinistry_eq, still _ (mappings_governed s live), governed]
  split
  next same =>
    rw [same]
    have alone := configured.alone.1
    have nodes : s.ring.nodes = .ofList [s.node] := by rw [alone]; rfl
    rw [nodes, ← alone]
  next => rfl

end MappingService

end Cohort

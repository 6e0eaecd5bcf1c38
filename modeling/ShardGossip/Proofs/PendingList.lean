import ShardGossip.Proofs.Store

/-!
# ShardGossip.Proofs.PendingList

**A store is an ordered list of events with different proofs.** What can be asked of a store
(`EventStore.Operation`) is described a second time for plain lists, where an event goes to the back
unless its proof is there, is deleted by its proof, and so on (`PendingList.perform`). The pending
events of a well-formed store are such a list, and every operation does to them what it does to the
list, with the same answer (`EventStore.WellFormed.perform`). So no sequence of operations tells a
store from a list (`EventStore.acts_as_list`).

To see that a store holds a list, it is enough that its queue has the list's proofs in order, and
that its index finds the list's events (`EventStore.pendingEvents_eq`).
-/

namespace ShardGossip

namespace EventStore

variable {s : EventStore} {event : Event} {events : List Event} {p : Proof}

/-! ### What a store holds -/

/-- What is in the queue with these proofs and in the index with these events is pending. -/
theorem pendingEvents_eq {l : List Event} (hq : s.queue = l.map (·.proof))
    (hg : ∀ e ∈ l, s.get? e.proof = some e) : s.pendingEvents = l := by
  rw [pendingEvents, hq, List.filterMap_map]
  exact (List.filterMap_congr fun e he => hg e he).trans List.filterMap_some

theorem WellFormed.contains_iff_mem (h : s.WellFormed) :
    s.contains p ↔ p ∈ s.pendingEvents.map (·.proof) := by
  rw [h.map_pendingEvents, h.queued]

theorem WellFormed.contains_eq (h : s.WellFormed) (p : Proof) :
    s.contains p = decide (p ∈ s.pendingEvents.map (·.proof)) := by
  rw [Bool.eq_iff_iff, h.contains_iff_mem, decide_eq_true_eq]

theorem WellFormed.nodup_pendingEvents (h : s.WellFormed) :
    (s.pendingEvents.map (·.proof)).Nodup :=
  h.map_pendingEvents.symm ▸ h.nodup

/-- Looking up a proof is looking for it among the pending events. -/
theorem WellFormed.get?_eq (h : s.WellFormed) (p : Proof) :
    s.get? p = s.pendingEvents.find? (·.proof = p) := by
  cases hp : s.get? p with
  | some e =>
      obtain rfl := h.keyed hp
      exact (find?_key h.nodup_pendingEvents (h.mem_pendingEvents.mpr hp)).symm
  | none =>
      symm
      rw [List.find?_eq_none]
      intro e he
      have hg := h.mem_pendingEvents.mp he
      rw [decide_eq_true_eq]
      rintro rfl
      cases hp.symm.trans hg

/-! ### One by one -/

/-- An event that is not known goes to the back. -/
theorem WellFormed.pendingEvents_insert (h : s.WellFormed) (event : Event) :
    (s.insert event).2.pendingEvents =
      if s.contains event.proof then s.pendingEvents else s.pendingEvents ++ [event] := by
  split
  · rename_i hc
    rw [EventStore.insert, if_pos hc]
  · rename_i hc
    rw [Bool.not_eq_true] at hc
    refine pendingEvents_eq ?_ fun e he => ?_
    · rw [queue_insert hc, List.map_append, h.map_pendingEvents, List.map_singleton]
    · rw [get?_insert]
      rcases List.mem_append.mp he with he | he
      · have hg := h.mem_pendingEvents.mp he
        rw [if_neg, hg]
        rintro ⟨-, hp⟩
        rw [hp, contains_of_get? hg] at hc
        cases hc
      · rw [List.mem_singleton.mp he, if_pos ⟨hc, rfl⟩]

theorem WellFormed.pendingEvents_remove (h : s.WellFormed) (p : Proof) :
    (s.remove p).2.pendingEvents = s.pendingEvents.filter (·.proof ≠ p) := by
  refine pendingEvents_eq ?_ fun e he => ?_
  · have hq : (s.remove p).2.queue = s.queue.filter (· ≠ p) := by
      unfold EventStore.remove
      split
      · rfl
      · rename_i hn
        refine (List.filter_eq_self.mpr fun q hq => decide_eq_true ?_).symm
        rintro rfl
        rw [h.queued, contains_eq_isSome, hn] at hq
        cases hq
    rw [hq, ← h.map_pendingEvents, List.filter_map]
    rfl
  · obtain ⟨he, hp⟩ := List.mem_filter.mp he
    rw [get?_remove, if_neg (of_decide_eq_true hp).symm]
    exact h.mem_pendingEvents.mp he

theorem WellFormed.pendingEvents_update (h : s.WellFormed) (p : Proof) {change : Event → Event}
    (hc : ∀ e, (change e).proof = e.proof) :
    (s.update p change).pendingEvents =
      s.pendingEvents.map fun e => if e.proof = p then change e else e := by
  refine pendingEvents_eq ?_ fun e he => ?_
  · rw [queue_update, map_map_ite hc, h.map_pendingEvents]
  · obtain ⟨e₀, he₀, rfl⟩ := List.mem_map.mp he
    have hg := h.mem_pendingEvents.mp he₀
    rw [get?_update]
    by_cases hp : e₀.proof = p
    · subst hp
      rw [if_pos rfl, hc, if_pos rfl, hg, Option.map_some]
    · rw [if_neg hp, if_neg (Ne.symm hp), hg]

/-! ### Many at once -/

/-- The given proofs come first, each once; the others follow as they were. -/
theorem WellFormed.queue_reordered (h : s.WellFormed) (events : List Event) :
    (s.replaceWith events).2.queue =
      (events.map (·.proof)).eraseDups ++ s.queue.filter (· ∉ events.map (·.proof)) := by
  have hr : s.queue.removeAll (events.map (·.proof)) =
      s.queue.filter (· ∉ events.map (·.proof)) := by
    refine List.filter_congr fun p _ => ?_
    rw [Bool.eq_iff_iff, Bool.not_eq_true', List.elem_eq_mem]
    simp
  rw [queue_replaceWith, List.eraseDups_append, hr, eraseDups_eq_self (h.nodup.filter _)]

end EventStore

/-! ### Two descriptions -/

/-- A change of an event that keeps its proof. -/
structure Edit where
  change : Event → Event
  proof_change : ∀ e, (change e).proof = e.proof

namespace EventStore

/-- Something that is asked of a store. -/
inductive Operation where
  | insert (event : Event)
  | remove (proof : Proof)
  /-- To take all events out. -/
  | drain
  /-- To put the queue into the order of the given events. -/
  | replaceWith (events : List Event)
  | append (events : List Event)
  /-- To change the event with this proof in place. -/
  | update (proof : Proof) (edit : Edit)

/-- What is answered. -/
inductive Answer where
  | inserted (isNew : Bool)
  | removed (event : Option Event)
  | drained (events : List Event)
  | added (proofs : List Proof)
  | updated (found : Bool)

/-- What a store makes of it. -/
def perform (s : EventStore) : Operation → Answer × EventStore
  | .insert event => (.inserted (s.insert event).1, (s.insert event).2)
  | .remove proof => (.removed (s.remove proof).1, (s.remove proof).2)
  | .drain => (.drained s.drain.1, s.drain.2)
  | .replaceWith events => (.added (s.replaceWith events).1, (s.replaceWith events).2)
  | .append events => (.added (s.append events).1, (s.append events).2)
  | .update proof edit => (.updated (s.contains proof), s.update proof edit.change)

/-- The answers to one operation after the other, and what is held in the end. -/
def run {σ : Type} (perform : σ → Operation → Answer × σ) : σ → List Operation → List Answer × σ
  | s, [] => ([], s)
  | s, op :: rest =>
    let (answer, s) := perform s op
    let (answers, s) := run perform s rest
    (answer :: answers, s)

end EventStore

namespace PendingList

/-- The proofs of a list. -/
def proofs (l : List Event) : List Proof := l.map (·.proof)

/-- The proofs among the given events' that a list lacks, each once, where it comes up first. -/
def lacking (l events : List Event) : List Proof :=
  (proofs events).eraseDups.filter (· ∉ proofs l)

/-- An event goes to the back, unless its proof is there. -/
def insert (l : List Event) (event : Event) : List Event :=
  if event.proof ∈ proofs l then l else l ++ [event]

/-- The given events come first, each proof where it comes up first; then come the others as they
were. Of an event that the list has, its own version stays. -/
def reorder (l events : List Event) : List Event :=
  ((proofs events).eraseDups.filterMap fun p => (l ++ events).find? (·.proof = p)) ++
    l.filter (·.proof ∉ proofs events)

/-- What an ordered list of events makes of what is asked of a store. -/
def perform (l : List Event) : EventStore.Operation → EventStore.Answer × List Event
  | .insert event => (.inserted (event.proof ∉ proofs l), insert l event)
  | .remove proof => (.removed (l.find? (·.proof = proof)), l.filter (·.proof ≠ proof))
  | .drain => (.drained l, [])
  | .replaceWith events => (.added (lacking l events), reorder l events)
  | .append events => (.added (lacking l events), events.foldl insert l)
  | .update proof edit =>
    (.updated (proof ∈ proofs l), l.map fun e => if e.proof = proof then edit.change e else e)

end PendingList

namespace EventStore

open PendingList

variable {s : EventStore}

/-! ### They agree -/

theorem WellFormed.unknown_eq_lacking (h : s.WellFormed) (events : List Event) :
    s.unknown events = lacking s.pendingEvents events := by
  rw [unknown, eraseDups_filter]
  refine List.filter_congr fun p _ => ?_
  rw [h.contains_eq, decide_not]
  rfl

theorem WellFormed.append_lacking (h : s.WellFormed) (events : List Event) :
    (s.append events).1 = lacking s.pendingEvents events ∧
      (s.append events).2.queue = s.queue ++ lacking s.pendingEvents events := by
  rw [← h.unknown_eq_lacking]
  exact s.append_unknown events

theorem WellFormed.replaceWith_lacking (h : s.WellFormed) (events : List Event) :
    (s.replaceWith events).1 = lacking s.pendingEvents events := by
  rw [added_replaceWith, h.unknown_eq_lacking]

theorem WellFormed.pendingEvents_append (h : s.WellFormed) (events : List Event) :
    (s.append events).2.pendingEvents = events.foldl PendingList.insert s.pendingEvents := by
  induction events generalizing s with
  | nil => rw [append_of_contains (List.forall_mem_nil _), List.foldl_nil]
  | cons event rest ih =>
      refine (ih (h.insert event)).trans ?_
      rw [h.pendingEvents_insert, List.foldl_cons, PendingList.insert]
      simp only [h.contains_iff_mem]
      rfl

/-- Every given proof has an event, the own one or else a given one. -/
theorem find?_of_mem_proofs {l events : List Event} {p : Proof} (hp : p ∈ proofs events) :
    ∃ e, (l ++ events).find? (·.proof = p) = some e ∧ e.proof = p := by
  obtain ⟨e₀, he₀, rfl⟩ := List.mem_map.mp hp
  obtain ⟨e, he⟩ := Option.isSome_iff_exists.mp (List.find?_isSome (p := (·.proof = e₀.proof)).mpr
    ⟨e₀, List.mem_append_right l he₀, decide_eq_true rfl⟩)
  exact ⟨e, he, by simpa using List.find?_some he⟩

theorem proofs_reorder (l events : List Event) :
    proofs (reorder l events) =
      (proofs events).eraseDups ++ (proofs l).filter (· ∉ proofs events) := by
  rw [reorder, proofs, List.map_append, List.map_filterMap]
  congr 1
  · refine (List.filterMap_congr fun p hp => ?_).trans List.filterMap_some
    obtain ⟨e, he, hep⟩ := find?_of_mem_proofs (l := l) (List.mem_eraseDups.mp hp)
    rw [he, Option.map_some, hep]
  · rw [proofs, proofs, List.filter_map]
    rfl

theorem WellFormed.pendingEvents_replaceWith (h : s.WellFormed) (events : List Event) :
    (s.replaceWith events).2.pendingEvents = reorder s.pendingEvents events := by
  refine pendingEvents_eq ?_ fun e he => ?_
  · rw [h.queue_reordered, ← h.map_pendingEvents]
    exact (proofs_reorder ..).symm
  · rw [get?_replaceWith]
    rcases List.mem_append.mp he with he | he
    · obtain ⟨p, -, hf⟩ := List.mem_filterMap.mp he
      obtain rfl : e.proof = p := by simpa using List.find?_some hf
      rw [List.find?_append, ← h.get?_eq] at hf
      exact hf
    · rw [h.mem_pendingEvents.mp (List.mem_filter.mp he).1, Option.some_or]

/-- Every operation keeps a store well-formed, does to its pending events what it does to a list,
and is answered in the same way. -/
theorem WellFormed.perform (h : s.WellFormed) (op : Operation) :
    (s.perform op).2.WellFormed ∧
      (s.perform op).1 = (PendingList.perform s.pendingEvents op).1 ∧
      (s.perform op).2.pendingEvents = (PendingList.perform s.pendingEvents op).2 := by
  cases op with
  | insert event =>
      refine ⟨h.insert event, ?_, ?_⟩
      · have hn : (s.insert event).1 = !s.contains event.proof := by
          unfold EventStore.insert
          split <;> simp_all
        exact congrArg Answer.inserted (by rw [hn, h.contains_eq, decide_not]; rfl)
      · refine (h.pendingEvents_insert event).trans ?_
        simp only [h.contains_iff_mem]
        rfl
  | remove p =>
      refine ⟨h.remove p, ?_, h.pendingEvents_remove p⟩
      have hf : (s.remove p).1 = s.get? p := by
        unfold EventStore.remove
        split <;> simp_all
      exact congrArg Answer.removed (hf.trans (h.get?_eq p))
  | drain => exact ⟨wellFormed_empty, rfl, rfl⟩
  | replaceWith events =>
      exact ⟨h.replaceWith events, congrArg Answer.added (h.replaceWith_lacking events),
        h.pendingEvents_replaceWith events⟩
  | append events =>
      exact ⟨h.append events, congrArg Answer.added (h.append_lacking events).1,
        h.pendingEvents_append events⟩
  | update p edit =>
      exact ⟨h.update p edit.proof_change, congrArg Answer.updated (h.contains_eq p),
        h.pendingEvents_update p edit.proof_change⟩

theorem WellFormed.run (h : s.WellFormed) (ops : List Operation) :
    (run EventStore.perform s ops).2.WellFormed ∧
      (run EventStore.perform s ops).1 = (run PendingList.perform s.pendingEvents ops).1 ∧
      (run EventStore.perform s ops).2.pendingEvents =
        (run PendingList.perform s.pendingEvents ops).2 := by
  induction ops generalizing s with
  | nil => exact ⟨h, rfl, rfl⟩
  | cons op rest ih =>
      obtain ⟨hw, ha, hp⟩ := h.perform op
      obtain ⟨hw', ha', hp'⟩ := ih hw
      rw [hp] at ha' hp'
      exact ⟨hw', congrArg₂ List.cons ha ha', hp'⟩

/-- **No sequence of operations tells a store from an ordered list of events**, whose proofs differ.
Whatever is asked of an empty store, it answers as the list does and holds the list, with queue and
index in step. Then, whatever queue it is given: replacing its own queue by that one puts the given
proofs to the front, each where it comes up first, keeps the others behind them in their order, and
keeps every event it had as it was; and both replacing and appending tell just the proofs that were
new, each once. -/
theorem acts_as_list (ops : List Operation) :
    let (answers, s) := run EventStore.perform ∅ ops
    let (answers', l) := run PendingList.perform [] ops
    answers = answers' ∧ s.pendingEvents = l ∧
      s.queue = proofs l ∧ (proofs l).Nodup ∧ s.isConsistent ∧
      (∀ p, s.get? p = l.find? (·.proof = p)) ∧
      ∀ events,
        (s.replaceWith events).2.queue =
            (proofs events).eraseDups ++ s.queue.filter (· ∉ proofs events) ∧
          (∀ e ∈ l, (s.replaceWith events).2.get? e.proof = some e) ∧
          (s.replaceWith events).1 = lacking l events ∧
          (s.append events).1 = lacking l events ∧
          (s.append events).2.queue = s.queue ++ lacking l events ∧
          (lacking l events).Nodup := by
  obtain ⟨h, ha, hp⟩ := wellFormed_empty.run ops
  generalize run EventStore.perform ∅ ops = held at h ha hp
  obtain ⟨answers, s⟩ := held
  dsimp only at h ha hp ⊢
  rw [show (∅ : EventStore).pendingEvents = [] from rfl] at ha hp
  rw [← hp]
  refine ⟨ha, rfl, h.map_pendingEvents.symm, h.nodup_pendingEvents, h.isConsistent, h.get?_eq,
    fun events => ⟨h.queue_reordered events, fun e he => ?_, h.replaceWith_lacking events,
      (h.append_lacking events).1, (h.append_lacking events).2, (nodup_eraseDups _).filter _⟩⟩
  rw [get?_replaceWith, h.mem_pendingEvents.mp he, Option.some_or]

/-- A proof that is given twice and one that is pending already change nothing but the order. -/
example :
    let event (time : Nat) : Event := .sealed ⟨"a"⟩ time []
    let ops : List Operation :=
      [.insert (event 1), .insert (event 5), .replaceWith [event 3, event 1, event 3]]
    (run EventStore.perform ∅ ops).2.queue = ["3-a", "1-a", "5-a"] := by
  decide +kernel

end EventStore

end ShardGossip

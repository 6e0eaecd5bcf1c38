import ShardGossip.Event

/-!
# ShardGossip.EventStore

The pending events of one chain.

A store is an index from proofs to events and a queue of the same proofs in the order of arrival,
the oldest first. Every operation keeps the two in step: the queue has no repetitions and holds
exactly the proofs of the index. What can be observed of a store is `pendingEvents`, its events in
queue order.
-/

namespace ShardGossip

/-- Events by proof, and their order. -/
structure EventStore where
  index : Std.ExtTreeMap Proof Event
  /-- The proofs, in the order in which they are to be elected. -/
  queue : List Proof
  deriving DecidableEq

namespace EventStore

/-- The store without events. -/
def empty : EventStore := ⟨∅, []⟩

instance : EmptyCollection EventStore := ⟨empty⟩

instance : Inhabited EventStore := ⟨empty⟩

/-- Whether an event with this proof is stored. -/
def contains (s : EventStore) (proof : Proof) : Bool :=
  s.index.contains proof

/-- The event with this proof. -/
def get? (s : EventStore) (proof : Proof) : Option Event :=
  s.index[proof]?

/-- The number of pending events. -/
def size (s : EventStore) : Nat :=
  s.queue.length

/-- Whether no event is pending. -/
def isEmpty (s : EventStore) : Bool :=
  s.queue.isEmpty

/-- The pending events in queue order. -/
def pendingEvents (s : EventStore) : List Event :=
  s.queue.filterMap s.get?

/-- Whether index and queue hold the same proofs, as far as their sizes and the queue's proofs
tell. -/
def isConsistent (s : EventStore) : Bool :=
  s.queue.length == s.index.size && s.queue.all s.contains

/-- Stores an event at the back of the queue, unless its proof is known. Tells whether it was
new. -/
def insert (s : EventStore) (event : Event) : Bool × EventStore :=
  if s.contains event.proof then (false, s)
  else (true, ⟨s.index.insert event.proof event, s.queue ++ [event.proof]⟩)

/-- Changes the event with this proof, if there is one. The change must keep the proof. -/
def update (s : EventStore) (proof : Proof) (change : Event → Event) : EventStore :=
  match s.get? proof with
  | some event => { s with index := s.index.insert proof (change event) }
  | none => s

/-- Takes the event with this proof out. -/
def remove (s : EventStore) (proof : Proof) : Option Event × EventStore :=
  match s.get? proof with
  | some event => (some event, ⟨s.index.erase proof, s.queue.filter (· ≠ proof)⟩)
  | none => (none, s)

/-- Takes all events out, in queue order. -/
def drain (s : EventStore) : List Event × EventStore :=
  (s.pendingEvents, empty)

/-- Stores events one by one. Gives the proofs of those that were new. -/
def append : EventStore → List Event → List Proof × EventStore
  | s, [] => ([], s)
  | s, event :: rest =>
    let (isNew, s) := s.insert event
    let (added, s) := s.append rest
    (if isNew then event.proof :: added else added, s)

/-- A queue that is being put into a new order. -/
structure Reordering where
  /-- The proofs that have had their turn. -/
  seen : List Proof
  order : List Proof
  /-- The proofs among them that were unknown. -/
  added : List Proof
  index : Std.ExtTreeMap Proof Event

namespace Reordering

/-- A proof comes next, unless it has had its turn. -/
def place (q : Reordering) (proof : Proof) : Reordering :=
  if proof ∈ q.seen then q
  else { q with seen := proof :: q.seen, order := q.order ++ [proof] }

/-- An event comes next, unless its proof has had its turn. It is stored if its proof is unknown. -/
def take (q : Reordering) (event : Event) : Reordering :=
  if event.proof ∈ q.seen then q
  else
    let q := q.place event.proof
    if q.index.contains event.proof then q
    else
      { q with
        added := q.added ++ [event.proof]
        index := q.index.insert event.proof event }

end Reordering

/-- Puts the queue into the order of the given events, adding those that were unknown; events that
are not mentioned keep their order at the back. Known events stay as they are. Gives the proofs that
were unknown. -/
def replaceWith (s : EventStore) (events : List Event) : List Proof × EventStore :=
  let q := events.foldl Reordering.take ⟨[], [], [], s.index⟩
  let q := s.queue.foldl Reordering.place q
  (q.added, ⟨q.index, q.order⟩)

end EventStore

end ShardGossip

import ShardGossip.EventStore

/-!
# ShardGossip.EventStore.Merge

Interleaving two queues by time.

Each queue keeps its own order; at every step the earlier one of the two heads goes first, the left
one on equal times. A proof that comes up again is dropped.
-/

namespace ShardGossip

/-- The head that goes first, and what is left of the two queues then. -/
def nextByTime? : List Event → List Event → Option (Event × List Event × List Event)
  | l :: left, r :: right =>
    if l.timestamp ≤ r.timestamp then some (l, left, r :: right) else some (r, l :: left, right)
  | l :: left, [] => some (l, left, [])
  | [], r :: right => some (r, [], right)
  | [], [] => none

theorem length_nextByTime? {left right left' right' : List Event} {event : Event}
    (h : nextByTime? left right = some (event, left', right')) :
    left'.length + right'.length < left.length + right.length := by
  unfold nextByTime? at h
  split at h
  · split at h <;> cases h <;> simp only [List.length_cons] <;> omega
  · cases h
    simp
  · cases h
    simp
  · cases h

/-- Takes the heads one by one, without those whose proofs were seen. -/
def mergeUnseen (seen : List Proof) (left right : List Event) : List Event :=
  match _h : nextByTime? left right with
  | none => []
  | some (event, left, right) =>
    if event.proof ∈ seen then mergeUnseen seen left right
    else event :: mergeUnseen (event.proof :: seen) left right
termination_by left.length + right.length
decreasing_by all_goals exact length_nextByTime? ‹_›

/-- The stable two-way merge by timestamp, with the first event of each proof only. -/
def mergeByTimestamp (left right : List Event) : List Event :=
  mergeUnseen [] left right

end ShardGossip

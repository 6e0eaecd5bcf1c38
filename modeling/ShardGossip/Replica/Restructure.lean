import ShardGossip.EventStore.Merge
import ShardGossip.Replica.Sealing

/-!
# ShardGossip.Replica.Restructure

Taking over and giving away pending work when shards merge, split or dissolve.

Events that come from another queue were exchanged in full before, so they are announced at once.
When a member takes over the queue of a shard that merges into its own, it interleaves the two by
time and tells the others; who is told appends what it lacks and keeps its own order.
-/

namespace ShardGossip.Replica

/-- Jumps to a round that the other members have reached. A winner that was waiting for the others
counts as committed. -/
def fastForward (r : Replica) (round : Nat) : Replica :=
  if round ≤ r.rounds then r
  else
    let r :=
      match r.chosen with
      | some chosen => r.closeRound chosen
      | none => r.clearRound
    { r with rounds := round, jumped := true, electing := false }

/-- How a foreign queue is combined with the own one. -/
inductive QueueUpdate where
  /-- The foreign order counts; own events that it does not mention go to the back. -/
  | reorder
  /-- The own order counts; unknown events go to the back. -/
  | append
  deriving DecidableEq, Repr

/-- Stores foreign events, each unknown one with the own signature. -/
def storeForeign (r : Replica) (events : List Event) (update : QueueUpdate) (signer : Signer) :
    Replica :=
  let (added, store) :=
    match update with
    | .reorder => r.store.replaceWith events
    | .append => r.store.append events
  let sign (store : EventStore) (proof : Proof) : EventStore :=
    store.update proof (·.heldWith (signer.sign (Utf8.encode proof)))
  { r with store := added.foldl sign store }

/-- Asks for an election if none is under way. -/
def ensureElection (r : Replica) : Outcome :=
  if r.electing then .silent r else r.scheduleElection

/-- Adopts the events of a foreign queue that are not committed yet. -/
def adopt (r : Replica) (events : List Event) (update : QueueUpdate) (signer : Signer) : Outcome :=
  let events := events.filter fun e => !r.finalized.contains e.proof
  let r := r.storeForeign events update signer
  -- ballots for these events may have been waiting for them
  (((Outcome.silent r).each announce (events.map (·.proof))).andThen replayHeld).andThen
    ensureElection

/-- Interleaves a foreign queue with the own one and tells the other members the new order. -/
def mergeEvents (r : Replica) (events : List Event) (signer : Signer) : Outcome :=
  (r.adopt (mergeByTimestamp r.store.pendingEvents events) .reorder signer).tellAll fun r =>
    .overwriteEvents r.rounds r.queueForWire

/-- Adopts the queue of another member that is at the given round. -/
def overwriteEvents (r : Replica) (round : Nat) (events : List Event) (signer : Signer) : Outcome :=
  (r.fastForward round).adopt events .append signer

/-- Takes the unbatched transactions. -/
def takeLeftovers (r : Replica) : List Transaction × Replica :=
  (r.unbatched, { r with unbatched := [] })

/-- Takes every transaction that the member has to propose elsewhere: those of its own pending
events and the unbatched ones. -/
def takeOwnTransactions (r : Replica) : List Transaction × Replica :=
  let own := r.store.pendingEvents.filter (·.origin = r.localId)
  let proofs := own.map (·.proof)
  let r' := { r with
    store := proofs.foldl (fun store proof => (store.remove proof).2) r.store
    announced := proofs.foldl (·.erase ·) r.announced }
  let (rest, r') := r'.takeLeftovers
  (own.flatMap (·.transactions) ++ rest, r')

/-- Takes the responses out of every pending event. -/
def takeResponses (r : Replica) : List Transaction × Replica :=
  let strip (store : EventStore) (proof : Proof) := store.update proof (·.withoutResponses)
  (r.store.pendingEvents.flatMap (·.responses),
    { r with store := r.store.queue.foldl strip r.store })

/-- Takes all pending events, in queue order, and forgets the round in progress. -/
def takePendingEvents (r : Replica) : List Event × Replica :=
  (r.store.pendingEvents.map (·.forWire),
    { r with
      announced := ∅
      chosen := none
      ballot := none
      ready := ∅
      ballots := ∅
      held := ∅
      sittingOut := ∅
      electing := false
      store := (r.store.drain).2 })

end ShardGossip.Replica

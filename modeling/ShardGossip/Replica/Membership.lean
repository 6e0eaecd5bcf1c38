import ShardGossip.Replica.Round

/-!
# ShardGossip.Replica.Membership

Members that come and go.

A member that leaves may have been the one that everybody was waiting for, so every quorum is looked
at again. A member that joins when events have already been exchanged sits out the round in
progress, and is brought up to date once, on its first connection.
-/

namespace ShardGossip.Replica

/-- Adds a member before anything has been exchanged. Tells whether it is new. -/
def addPeer (r : Replica) (id : NodeId) : Bool × Replica :=
  if id = r.localId ∨ r.peers.contains id then (false, r)
  else (true, { r with peers := r.peers.insert id })

/-- Looks at every quorum again. -/
def reevaluate (r : Replica) : Outcome :=
  (((Outcome.silent r).each checkAckQuorum r.ownProofs).andThen tryTally).andThen tryClose

/-- Forgets a member with everything it sent. -/
def forget (r : Replica) (id : NodeId) : Replica :=
  { r with
    peers := r.peers.erase id
    ballots := r.ballots.erase id
    held := r.held.erase id
    ready := r.ready.erase id
    lateJoiners := r.lateJoiners.erase id
    sittingOut := r.sittingOut.erase id }

/-- Drops a member. -/
def removePeer (r : Replica) (id : NodeId) : Outcome :=
  if r.peers.contains id then (r.forget id).reevaluate else .silent r

/-- Whether events have been exchanged. -/
def hasHistory (r : Replica) : Bool :=
  0 < r.rounds || !r.store.isEmpty

/-- Adds a member that has missed `history`, if there is any. -/
def join (history : Bool) (r : Replica) (id : NodeId) : Replica :=
  if r.peers.contains id then r
  else if history then
    { r with
      peers := r.peers.insert id
      lateJoiners := r.lateJoiners.insert id
      sittingOut := r.sittingOut.insert id }
  else { r with peers := r.peers.insert id }

/-- Replaces the members. The list may name the member itself, and may repeat ids. -/
def setMembers (r : Replica) (members : List NodeId) : Outcome :=
  let wanted : NodeSet := (members.filter (· ≠ r.localId)).foldl (·.insert ·) ∅
  let removed := r.peers.toList.filter (!wanted.contains ·)
  (Outcome.silent (wanted.toList.foldl (join r.hasHistory) r)).each removePeer removed

/-- What brings a member that joined late up to date, once: the announced queue with the first round
it takes part in, and the own ballot if that round is already being voted on. -/
def takeSyncFor (r : Replica) (peer : NodeId) : List Packet × Replica :=
  if !r.lateJoiners.contains peer then ([], r)
  else
    let sitsOut := r.sittingOut.contains peer
    let round := if sitsOut then r.nextRound else r.rounds
    let queue := r.queueForWire.filter fun e => r.announced.contains e.proof
    let vote :=
      if sitsOut ∨ r.chosen.isSome then []
      else
        ((r.ballot >>= r.store.get?).map fun e =>
          Packet.vote round e.signedUpdate e.proof).toList
    (.overwriteEvents round queue :: vote, { r with lateJoiners := r.lateJoiners.erase peer })

end ShardGossip.Replica

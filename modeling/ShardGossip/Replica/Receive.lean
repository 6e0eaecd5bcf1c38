import ShardGossip.Replica.Membership
import ShardGossip.Replica.Restructure

/-!
# ShardGossip.Replica.Receive

Packets from other members.

A packet is refused for reasons that can be seen before anything changes, so a refused packet leaves
the state as it was.
-/

namespace ShardGossip

/-- Why a packet or a connection is refused. -/
inductive Refusal where
  /-- A proposal names another origin than its sender. -/
  | originMismatch (proof : Proof) (claimed sender : NodeId)
  | unknownProof (proof : Proof)
  | unknownPeer (id : NodeId)
  | unexpectedPacket (name : String)
  | shutDown (shard : ShardId)
  deriving DecidableEq, Repr

/-- The refusal in words. -/
def Refusal.message : Refusal → String
  | originMismatch proof claimed sender =>
    s!"event {proof} claims origin {claimed} but arrived from {sender}"
  | unknownProof proof => s!"unknown proof {proof}"
  | unknownPeer id => s!"{id} is not a member of this shard"
  | unexpectedPacket name => s!"unexpected {name} packet"
  | shutDown shard => s!"chain for shard {shard} is shut down"

namespace Replica

/-- Stores a proposal unless it is known, acknowledges it, and lets in the ballots that were waiting
for it. -/
def onPropose (r : Replica) (sender : NodeId) (event : Event) (signer : Signer) :
    Except Refusal Outcome :=
  if event.origin ≠ sender then .error (.originMismatch event.proof event.origin sender)
  else
    let proof := event.proof
    -- a known event is acknowledged all the same: the sender may have missed it
    let r :=
      if r.finalized.contains proof ∨ r.store.contains proof then r
      else { r with
        store := (r.store.insert (event.heldWith (signer.sign (Utf8.encode proof)))).2 }
    .ok ((Outcome.mk r (.sendTo sender (.ack proof))).andThen replayHeld)

/-- Records an acknowledgement of an own proposal. -/
def onAck (r : Replica) (sender : NodeId) (proof : Proof) : Except Refusal Outcome :=
  if r.finalized.contains proof then .ok (.silent r)
  else
    match r.store.get? proof with
    | none => .error (.unknownProof proof)
    | some event =>
      if event.origin ≠ r.localId then .error (.unexpectedPacket (Packet.ack proof).name)
      else .ok ({ r with store := r.store.update proof (·.recordAck sender) }.checkAckQuorum proof)

/-- Lets an event be voted for. -/
def onFinalize (r : Replica) (proof : Proof) : Except Refusal Outcome :=
  if r.finalized.contains proof then .ok (.silent r)
  else if r.store.contains proof then .ok (r.announce proof)
  else .error (.unknownProof proof)

/-- Records that a member is ready, if it speaks of the round in progress. -/
def onElectorReady (r : Replica) (sender : NodeId) (round : Nat) : Outcome :=
  if round = r.rounds then { r with ready := r.ready.insert sender }.tryClose else .silent r

/-- Handles a packet from another member. -/
def onPacket (r : Replica) (sender : NodeId) (packet : Packet) (signer : Signer) :
    Except Refusal Outcome :=
  if !r.peers.contains sender then .error (.unknownPeer sender)
  else
    match packet with
    | .propose _ event => r.onPropose sender event signer
    | .ack proof => r.onAck sender proof
    | .finalize proof => r.onFinalize proof
    | .vote round signature proof => .ok (r.recordVote sender ⟨round, signature, proof⟩)
    | .electorReady round => .ok (r.onElectorReady sender round)
    | .overwriteEvents round events => .ok (r.overwriteEvents round events signer)
    | .appendTransactions transactions => .ok (.silent (r.absorb transactions))
    | .hello .. => .error (.unexpectedPacket packet.name)
    | .received => .error (.unexpectedPacket packet.name)

end Replica

end ShardGossip

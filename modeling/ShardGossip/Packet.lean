import ShardGossip.Event

/-!
# ShardGossip.Packet

Packets: what the members of a shard say to each other.

A round is told by the number of elections that the sender had completed when it spoke. Each kind of
packet has a tag, which is its first byte on the wire, and a name.
-/

namespace ShardGossip

/-- A message between two nodes. -/
inductive Packet where
  /-- First on a new connection: who is calling, and for which shard. -/
  | hello (node : NodeId) (shard : ShardId)
  /-- A new event from its origin. -/
  | propose (signature : Bytes) (event : Event)
  | ack (proof : Proof)
  /-- Every member stored the proposal; it may be voted for. -/
  | finalize (proof : Proof)
  /-- The sender's ballot for the event to commit in `round`. -/
  | vote (round : Nat) (signature : Bytes) (proof : Proof)
  /-- The sender applied the event that `round` committed. -/
  | electorReady (round : Nat)
  /-- The sender's queue, with the round that the receiver should be at. -/
  | overwriteEvents (round : Nat) (events : List Event)
  /-- Transactions handed over by a dissolved shard. -/
  | appendTransactions (transactions : List Transaction)
  | received
  deriving DecidableEq

namespace Packet

instance : Inhabited Packet := ⟨received⟩

/-- The first byte of the packet on the wire. -/
def tag : Packet → UInt8
  | hello .. => 0x00
  | propose .. => 0x01
  | ack .. => 0x02
  | finalize .. => 0x03
  | vote .. => 0x04
  | electorReady .. => 0x05
  | overwriteEvents .. => 0xA1
  | appendTransactions .. => 0xA2
  | received => 0xFF

/-- The name of the packet's kind. -/
def name : Packet → String
  | hello .. => "hello"
  | propose .. => "propose"
  | ack .. => "ack"
  | finalize .. => "finalize"
  | vote .. => "vote"
  | electorReady .. => "elector-ready"
  | overwriteEvents .. => "overwrite-events"
  | appendTransactions .. => "append-transactions"
  | received => "received"

end Packet

end ShardGossip

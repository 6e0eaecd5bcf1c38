import ShardGossip.Identity

/-!
# ShardGossip.Discovery

Who dials whom.

Of every two nodes the one with the smaller id opens the connection, so a pair never ends up with
two. A dial that is under way holds a slot for its shard and peer, so that looking again does not
start another one.
-/

namespace ShardGossip

/-- Whether a node is the one that opens the connection to a peer. -/
def shouldDial (localId peer : NodeId) : Bool :=
  localId < peer

/-- The members that a node has to dial and is not connected to, in the order in which they are
listed. -/
def dialTargets (localId : NodeId) (members : List NodeId) (connected : NodeId → Bool) :
    List NodeId :=
  members.filter fun peer => shouldDial localId peer && !connected peer

/-- The known addresses, and the dials that are under way. -/
structure PeerDirectory where
  addresses : NodeMap String
  dialing : List (ShardId × NodeId)

namespace PeerDirectory

/-- A directory of the given addresses; of a peer listed twice the last address counts. -/
def ofList (entries : List (NodeId × String)) : PeerDirectory :=
  ⟨entries.foldl (fun map (id, address) => map.insert id address) ∅, []⟩

/-- The address of a peer. -/
def addressOf (d : PeerDirectory) (id : NodeId) : Option String :=
  d.addresses[id]?

/-- The number of known peers. -/
def size (d : PeerDirectory) : Nat :=
  d.addresses.size

/-- Whether no peer is known. -/
def isEmpty (d : PeerDirectory) : Bool :=
  d.addresses.isEmpty

/-- Claims the slot for a dial. Tells whether it was free. -/
def beginDial (d : PeerDirectory) (shard : ShardId) (peer : NodeId) : Bool × PeerDirectory :=
  if (shard, peer) ∈ d.dialing then (false, d)
  else (true, { d with dialing := (shard, peer) :: d.dialing })

/-- Frees the slot of a dial. -/
def finishDial (d : PeerDirectory) (shard : ShardId) (peer : NodeId) : PeerDirectory :=
  { d with dialing := d.dialing.filter (· ≠ (shard, peer)) }

end PeerDirectory

end ShardGossip

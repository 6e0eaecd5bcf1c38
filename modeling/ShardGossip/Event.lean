import ShardGossip.Bytes.Hex
import ShardGossip.Transaction

/-!
# ShardGossip.Event

Events: batches of transactions that one node seals and every member of its shard commits or none.

An event is identified by its *proof*, the time of sealing followed by a dash and the origin. The
origin qualifies the time, so two nodes that seal in the same millisecond get different proofs; the
text up to the first dash is the time, so no two pairs of time and origin share a proof. What
members add to an event while it is pending, acknowledgements and ballots, only ever grows.
-/

namespace ShardGossip

/-- A batch of transactions on its way to being committed. -/
structure Event where
  transactions : List Transaction
  proof : Proof
  origin : NodeId
  timestamp : Nat
  signedUpdate : Bytes
  backedResponses : NodeSet
  /-- The signature in hexadecimal digits of each ballot for the event, by voter. -/
  backedProofs : NodeMap String
  deriving DecidableEq

namespace Event

/-- The proof of what a node seals at a time. -/
def proofFor (timestamp : Nat) (origin : NodeId) : Proof :=
  s!"{timestamp}-{origin}"

/-- A fresh event: nobody has acknowledged it or voted for it. -/
def sealed (origin : NodeId) (timestamp : Nat) (transactions : List Transaction) : Event where
  transactions := transactions
  proof := proofFor timestamp origin
  origin := origin
  timestamp := timestamp
  signedUpdate := []
  backedResponses := ∅
  backedProofs := ∅

instance : Inhabited Event := ⟨sealed default 0 []⟩

/-- Records that a member acknowledged the proposal. -/
def recordAck (e : Event) (member : NodeId) : Event :=
  { e with backedResponses := e.backedResponses.insert member }

/-- Records the signature of a member's ballot for the event; a later one replaces it. -/
def recordBallot (e : Event) (voter : NodeId) (signature : Bytes) : Event :=
  { e with backedProofs := e.backedProofs.insert voter (Hex.encode signature) }

/-- The responses among the transactions. -/
def responses (e : Event) : List Transaction :=
  e.transactions.filter (·.isResponse)

/-- The event without its responses. -/
def withoutResponses (e : Event) : Event :=
  { e with transactions := e.transactions.filter (!·.isResponse) }

/-- The event without what only means something to its holder. -/
def forWire (e : Event) : Event :=
  { e with signedUpdate := [], backedResponses := ∅, backedProofs := ∅ }

/-- The event as a new holder stores it: with the holder's signature, and nothing recorded yet. -/
def heldWith (e : Event) (signature : Bytes) : Event :=
  { e with signedUpdate := signature, backedResponses := ∅, backedProofs := ∅ }

end Event

end ShardGossip

import ShardGossip.Config
import ShardGossip.SigningKey

/-!
# ShardGossip.Config.Validation

Which configurations a node can be run with.

A configuration is looked through in a fixed order, and the first thing wrong is reported: the id,
the address, the peers one by one, the numbers that must not be zero, the thresholds, the seed.
-/

namespace ShardGossip

/-- Why a node cannot be run with a configuration. -/
inductive ConfigError where
  | missingNodeId
  | missingListenAddr
  /-- The peer at this index lacks an id or an address. -/
  | incompletePeer (index : Nat)
  | duplicatePeer (id : NodeId)
  /-- The node is its own peer. -/
  | localNodeInPeers (id : NodeId)
  /-- A number is zero that must not be. -/
  | zero (setting : String)
  /-- Merged shards would be split again. -/
  | thresholds (merge split : Nat)
  /-- There is a seed, and it is no seed. -/
  | seed (error : SeedError)
  deriving DecidableEq, Repr

namespace ConfigError

/-- The error in words. -/
def message : ConfigError → String
  | missingNodeId => "node_id must not be empty"
  | missingListenAddr => "listen_addr must not be empty"
  | incompletePeer index => s!"peer entry {index} needs both an id and an address"
  | duplicatePeer id => s!"peer {id} is listed more than once"
  | localNodeInPeers id => s!"peer list contains the local node {id}"
  | zero setting => s!"{setting} must be greater than zero"
  | thresholds merge split => s!"merge_threshold ({merge}) must be below split_threshold ({split})"
  | seed error => s!"invalid signing seed: {error.message}"

/-- The innermost reason in words. -/
def cause : ConfigError → String
  | seed error => error.cause
  | error => error.message

end ConfigError

namespace NodeConfig

/-- Looks through the peers from an index on, given the ids of the earlier ones. -/
def checkPeers (localId : NodeId) (index : Nat) (seen : List NodeId) :
    List PeerConfig → Except ConfigError Unit
  | [] => .ok ()
  | peer :: rest =>
    if peer.id.name.isEmpty ∨ peer.address.isEmpty then .error (.incompletePeer index)
    else if peer.id = localId then .error (.localNodeInPeers peer.id)
    else if peer.id ∈ seen then .error (.duplicatePeer peer.id)
    else checkPeers localId (index + 1) (peer.id :: seen) rest

/-- The numbers that must not be zero, with their names, in order. -/
def positiveSettings (c : NodeConfig) : List (String × Nat) := [
  ("chain.tick_ms", c.chain.tickMs),
  ("chain.round_timeout_ms", c.chain.roundTimeoutMs),
  ("chain.max_frame_len", c.chain.maxFrameLen),
  ("sharding.shard_capacity", c.sharding.shardCapacity),
  ("sharding.rebalance_interval_secs", c.sharding.rebalanceIntervalSecs)]

/-- Looks for a number that is zero. -/
def checkPositive (settings : List (String × Nat)) : Except ConfigError Unit :=
  match settings.find? (·.2 = 0) with
  | some (setting, _) => .error (.zero setting)
  | none => .ok ()

/-- The key that the node signs with. -/
def signingKey (c : NodeConfig) : Except ConfigError Crypto.Ed25519.Key :=
  match c.signingSeed with
  | none => .ok (SigningKey.ofNodeId c.nodeId)
  | some seed => (SigningKey.ofText seed).mapError .seed

/-- Looks at the seed, if there is one. -/
def checkSeed : Option String → Except ConfigError Unit
  | none => .ok ()
  | some seed =>
    match SigningKey.seedOfText seed with
    | .ok _ => .ok ()
    | .error error => .error (.seed error)

/-- Finds the first thing wrong with a configuration, if there is any. -/
def validate (c : NodeConfig) : Except ConfigError Unit := do
  if Text.isBlankText c.nodeId.name then .error .missingNodeId
  if Text.isBlankText c.listenAddr then .error .missingListenAddr
  checkPeers c.nodeId 0 [] c.peers
  checkPositive c.positiveSettings
  if c.sharding.splitThreshold ≤ c.sharding.mergeThreshold then
    .error (.thresholds c.sharding.mergeThreshold c.sharding.splitThreshold)
  checkSeed c.signingSeed

end NodeConfig

end ShardGossip

import ShardGossip.Event.Json
import ShardGossip.Frame

/-!
# ShardGossip.Config

What a node is configured with. Every setting has a value of its own when it is not given.
-/

namespace ShardGossip

/-- Times and sizes of every chain of a node. -/
structure ChainConfig where
  tickMs : Nat
  /-- Milliseconds without an election after which packets are sent again. -/
  roundTimeoutMs : Nat
  maxFrameLen : Nat
  deriving DecidableEq, Repr

/-- When shards are opened, split and merged. -/
structure ShardingConfig where
  /-- Contracts that a shard takes before another one is opened. -/
  shardCapacity : Nat
  splitThreshold : Nat
  /-- The two newest shards merge when they hold at most so many contracts together. -/
  mergeThreshold : Nat
  rebalanceIntervalSecs : Nat
  deriving DecidableEq, Repr

/-- Another node of the network. -/
structure PeerConfig where
  id : NodeId
  address : String
  power : Nat
  deriving DecidableEq, Repr

/-- Everything that a node is configured with. -/
structure NodeConfig where
  nodeId : NodeId
  listenAddr : String
  power : Nat
  /-- The seed of its signing key; without one the key is made from the id. -/
  signingSeed : Option String
  logFilter : String
  peers : List PeerConfig
  chain : ChainConfig
  sharding : ShardingConfig
  deriving DecidableEq, Repr

namespace ChainConfig

/-- The settings when none are given. -/
def default : ChainConfig := ⟨100, 5000, Frame.defaultLimit⟩

instance : Inhabited ChainConfig := ⟨default⟩

/-- The time between two ticks, at least one millisecond. -/
def tick (c : ChainConfig) : Nat := max c.tickMs 1

/-- The time without an election that is waited, at least one millisecond. -/
def roundTimeout (c : ChainConfig) : Nat := max c.roundTimeoutMs 1

end ChainConfig

namespace ShardingConfig

/-- The settings when none are given. -/
def default : ShardingConfig := ⟨16, 10, 4, 5⟩

instance : Inhabited ShardingConfig := ⟨default⟩

/-- The seconds between two looks at the table, at least one. -/
def rebalanceSecs (c : ShardingConfig) : Nat := max c.rebalanceIntervalSecs 1

end ShardingConfig

/-- The voting power when none is given. -/
def defaultPower : Nat := 1

namespace NodeConfig

/-- The settings when none are given. -/
def default : NodeConfig where
  nodeId := ⟨"node-0"⟩
  listenAddr := "127.0.0.1:7400"
  power := defaultPower
  signingSeed := none
  logFilter := "info"
  peers := []
  chain := .default
  sharding := .default

instance : Inhabited NodeConfig := ⟨default⟩

/-- The ids of the peers with their addresses. -/
def peerAddresses (c : NodeConfig) : List (NodeId × String) :=
  c.peers.map fun peer => (peer.id, peer.address)

end NodeConfig

/-! ### JSON forms -/

namespace ChainConfig

/-- The JSON form. -/
def toJson (c : ChainConfig) : Json.Value :=
  .record [
    ("tick_ms", .ofNat c.tickMs),
    ("round_timeout_ms", .ofNat c.roundTimeoutMs),
    ("max_frame_len", .ofNat c.maxFrameLen)]

/-- The fields of the JSON form, in order. -/
def fieldNames : List String := ["tick_ms", "round_timeout_ms", "max_frame_len"]

/-- Reads the JSON form. -/
def ofJson? (v : Json.Value) : Option ChainConfig := do
  let [tick, timeout, frame] ← Json.slots? fieldNames v | none
  return {
    tickMs := ← tick.orElse (·.asNat? 64) default.tickMs
    roundTimeoutMs := ← timeout.orElse (·.asNat? 64) default.roundTimeoutMs
    maxFrameLen := ← frame.orElse (·.asNat? 64) default.maxFrameLen }

end ChainConfig

namespace ShardingConfig

/-- The JSON form. -/
def toJson (c : ShardingConfig) : Json.Value :=
  .record [
    ("shard_capacity", .ofNat c.shardCapacity),
    ("split_threshold", .ofNat c.splitThreshold),
    ("merge_threshold", .ofNat c.mergeThreshold),
    ("rebalance_interval_secs", .ofNat c.rebalanceIntervalSecs)]

/-- The fields of the JSON form, in order. -/
def fieldNames : List String :=
  ["shard_capacity", "split_threshold", "merge_threshold", "rebalance_interval_secs"]

/-- Reads the JSON form. -/
def ofJson? (v : Json.Value) : Option ShardingConfig := do
  let [capacity, split, merge, interval] ← Json.slots? fieldNames v | none
  return {
    shardCapacity := ← capacity.orElse (·.asNat? 64) default.shardCapacity
    splitThreshold := ← split.orElse (·.asNat? 64) default.splitThreshold
    mergeThreshold := ← merge.orElse (·.asNat? 64) default.mergeThreshold
    rebalanceIntervalSecs := ← interval.orElse (·.asNat? 64) default.rebalanceIntervalSecs }

end ShardingConfig

namespace PeerConfig

/-- The JSON form. -/
def toJson (c : PeerConfig) : Json.Value :=
  .record [("id", c.id.toJson), ("address", .ofText c.address), ("power", .ofNat c.power)]

/-- The fields of the JSON form, in order. -/
def fieldNames : List String := ["id", "address", "power"]

/-- Reads the JSON form. -/
def ofJson? (v : Json.Value) : Option PeerConfig := do
  let [id, address, power] ← Json.slots? fieldNames v | none
  return {
    id := ← id.required NodeId.ofJson?
    address := ← address.required (·.asText?)
    power := ← power.orElse (·.asNat? 32) defaultPower }

end PeerConfig

namespace NodeConfig

/-- The JSON form. -/
def toJson (c : NodeConfig) : Json.Value :=
  .record [
    ("node_id", c.nodeId.toJson),
    ("listen_addr", .ofText c.listenAddr),
    ("power", .ofNat c.power),
    ("signing_seed", .ofText? c.signingSeed),
    ("log_filter", .ofText c.logFilter),
    ("peers", .array (c.peers.map PeerConfig.toJson)),
    ("chain", c.chain.toJson),
    ("sharding", c.sharding.toJson)]

/-- The fields of the JSON form, in order. -/
def fieldNames : List String :=
  ["node_id", "listen_addr", "power", "signing_seed", "log_filter", "peers", "chain", "sharding"]

/-- Reads the JSON form. -/
def ofJson? (v : Json.Value) : Option NodeConfig := do
  let [nodeId, listenAddr, power, signingSeed, logFilter, peers, chain, sharding] ←
    Json.slots? fieldNames v | none
  return {
    nodeId := ← nodeId.orElse NodeId.ofJson? default.nodeId
    listenAddr := ← listenAddr.orElse (·.asText?) default.listenAddr
    power := ← power.orElse (·.asNat? 32) default.power
    signingSeed := ← signingSeed.orElse (Json.nullable? (·.asText?)) default.signingSeed
    logFilter := ← logFilter.orElse (·.asText?) default.logFilter
    peers := ← peers.orElse (·.asList? PeerConfig.ofJson?) default.peers
    chain := ← chain.orElse ChainConfig.ofJson? default.chain
    sharding := ← sharding.orElse ShardingConfig.ofJson? default.sharding }

end NodeConfig

end ShardGossip

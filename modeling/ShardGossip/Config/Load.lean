import ShardGossip.Config.Validation
import ShardGossip.Settings.Environment
import ShardGossip.Toml.Reader

/-!
# ShardGossip.Config.Load

Loading a configuration.

A configuration is made up of a TOML document, if there is one, and environment variables, which
win. What neither of them gives has its default. A configuration that a node cannot be run with is
refused.
-/

namespace ShardGossip

/-- Where the document of a configuration is. -/
inductive ConfigFile where
  | none
  | missing
  | text (content : String)
  deriving DecidableEq, Repr

/-- Why a configuration was not loaded. -/
inductive LoadError where
  /-- The document cannot be read, or a setting has the wrong kind of value. -/
  | unreadable
  /-- A node cannot be run with the configuration. -/
  | invalid (error : ConfigError)
  deriving DecidableEq, Repr

namespace Setting

/-- A whole number below `2 ^ 32`. Of a larger number the low bits count. -/
def asNat32? (s : Setting) : Option Nat :=
  s.asNat?.map (· % Nat.pow 2 32)

end Setting

namespace ChainConfig

/-- The configuration that settings describe. -/
def ofSetting? (s : Setting) : Option ChainConfig := do
  let [tick, timeout, frame] ← s.slots? fieldNames | none
  return {
    tickMs := ← Setting.readOr tick (·.asNat?) default.tickMs
    roundTimeoutMs := ← Setting.readOr timeout (·.asNat?) default.roundTimeoutMs
    maxFrameLen := ← Setting.readOr frame (·.asNat?) default.maxFrameLen }

end ChainConfig

namespace ShardingConfig

/-- The configuration that settings describe. -/
def ofSetting? (s : Setting) : Option ShardingConfig := do
  let [capacity, split, merge, interval] ← s.slots? fieldNames | none
  return {
    shardCapacity := ← Setting.readOr capacity (·.asNat?) default.shardCapacity
    splitThreshold := ← Setting.readOr split (·.asNat?) default.splitThreshold
    mergeThreshold := ← Setting.readOr merge (·.asNat?) default.mergeThreshold
    rebalanceIntervalSecs := ← Setting.readOr interval (·.asNat?) default.rebalanceIntervalSecs }

end ShardingConfig

namespace PeerConfig

/-- The peer that settings describe. Its id and address must be given. -/
def ofSetting? (s : Setting) : Option PeerConfig := do
  let [id, address, power] ← s.slots? fieldNames | none
  return {
    id := ⟨← id >>= (·.asText?)⟩
    address := ← address >>= (·.asText?)
    power := ← Setting.readOr power (·.asNat32?) defaultPower }

end PeerConfig

namespace NodeConfig

/-- The peers that settings describe. -/
def peersOfSetting? : Setting → Option (List PeerConfig)
  | .list elements => elements.mapM PeerConfig.ofSetting?
  | _ => none

/-- The seed that settings give, if they do. -/
def seedOfSetting? : Setting → Option (Option String)
  | .absent => some none
  | s => s.asText?.map some

/-- The configuration that settings describe. -/
def ofSetting? (s : Setting) : Option NodeConfig := do
  let [node, address, power, seed, log, peers, chain, sharding] ← s.slots? fieldNames | none
  return {
    nodeId := ← Setting.readOr node (·.asText?.map NodeId.mk) default.nodeId
    listenAddr := ← Setting.readOr address (·.asText?) default.listenAddr
    power := ← Setting.readOr power (·.asNat32?) default.power
    signingSeed := ← Setting.readOr seed seedOfSetting? default.signingSeed
    logFilter := ← Setting.readOr log (·.asText?) default.logFilter
    peers := ← Setting.readOr peers peersOfSetting? default.peers
    chain := ← Setting.readOr chain ChainConfig.ofSetting? default.chain
    sharding := ← Setting.readOr sharding ShardingConfig.ofSetting? default.sharding }

/-- The settings that a document gives. -/
def settingsOf? : ConfigFile → Option Setting
  | .none => some (.table [])
  | .missing => none
  | .text content =>
    (Toml.parse? content).map fun members =>
      members.foldl (fun s (name, value) => Setting.layAt value (Setting.path name) s) (.table [])

/-- The configuration that a document and environment variables describe. -/
def load (file : ConfigFile) (environment : List (String × String)) : Except LoadError NodeConfig :=
  match settingsOf? file >>= fun s => ofSetting? (s.layEnvironment environment) with
  | none => .error .unreadable
  | some config =>
    match config.validate with
    | .ok () => .ok config
    | .error error => .error (.invalid error)

end NodeConfig

end ShardGossip

import ShardGossip.Chain.Work

/-!
# ShardGossip.ChainRegistry

The chains of a node.

At most one chain is registered for a shard. A chain that is taken out is shut down and remembered:
its state can still be looked at, and its connections and its loops end in their own time.
-/

namespace ShardGossip

/-- The chains of a node. -/
structure ChainRegistry where
  localId : NodeId
  config : ChainConfig
  signer : Signer
  chains : List Chain
  retired : List Chain
  pipeline : Option Pipeline
  created : Nat

namespace ChainRegistry

/-- A registry without chains. -/
def fresh (localId : NodeId) (config : ChainConfig) (signer : Signer) : ChainRegistry :=
  ⟨localId, config, signer, [], [], none, 0⟩

/-! ### Looking things up -/

/-- The chain of a shard. -/
def get? (r : ChainRegistry) (shard : ShardId) : Option Chain :=
  r.chains.find? (·.shardId = shard)

/-- Every chain there ever was, the registered ones first. -/
def all (r : ChainRegistry) : List Chain :=
  r.chains ++ r.retired

/-- The chain with a serial number, registered or not. -/
def bySerial? (r : ChainRegistry) (serial : Nat) : Option Chain :=
  r.all.find? (·.serial = serial)

/-- The running chains, by shard. -/
def running (r : ChainRegistry) : List Chain :=
  r.chains.filter (·.running)

/-- The number of registered chains. -/
def size (r : ChainRegistry) : Nat :=
  r.chains.length

/-- Whether no chain is registered. -/
def isEmpty (r : ChainRegistry) : Bool :=
  r.chains.isEmpty

/-! ### Changing chains -/

/-- Changes every chain, registered or not. -/
def mapAll (r : ChainRegistry) (change : Chain → Chain) : ChainRegistry :=
  { r with chains := r.chains.map change, retired := r.retired.map change }

/-- Changes the chain with a serial number, registered or not. -/
def updateSerial (r : ChainRegistry) (serial : Nat) (change : Chain → Chain) : ChainRegistry :=
  r.mapAll fun c => if c.serial = serial then change c else c

/-- Changes the chain of a shard. -/
def update (r : ChainRegistry) (shard : ShardId) (change : Chain → Chain) : ChainRegistry :=
  { r with chains := r.chains.map fun c => if c.shardId = shard then change c else c }

/-- All loops of the chains that were shut down end. -/
def finishAll (r : ChainRegistry) : ChainRegistry :=
  r.mapAll (·.finishAll)

/-- Registers a chain for a shard, unless there is one. It is not started. -/
def create (r : ChainRegistry) (shard : ShardId) : ChainRegistry :=
  if (r.get? shard).isSome then r
  else
    let chain := Chain.fresh r.created shard r.localId r.config r.signer r.pipeline
    let (before, after) := r.chains.partition (·.shardId.number < shard.number)
    { r with chains := before ++ chain :: after, created := r.created + 1 }

/-- Takes the chain of a shard out and shuts it down. -/
def remove (r : ChainRegistry) (shard : ShardId) : Option Chain × ChainRegistry :=
  match r.get? shard with
  | none => (none, r)
  | some chain =>
    let chain := chain.shutdown
    (some chain,
      { r with
        chains := r.chains.filter (·.shardId ≠ shard)
        retired := chain :: r.retired })

/-- Takes every chain out and shuts it down. -/
def shutdownAll (r : ChainRegistry) : ChainRegistry :=
  { r with chains := [], retired := r.chains.map Chain.shutdown ++ r.retired }

/-- Says where the registered chains and all new ones deliver. -/
def register (r : ChainRegistry) (pipeline : Pipeline) : ChainRegistry :=
  { r with pipeline := some pipeline, chains := r.chains.map (·.register pipeline) }

/-- Takes something out of the chain with a serial number. -/
def takeFrom {α : Type} [Inhabited α] (r : ChainRegistry) (serial : Nat)
    (taking : Replica → α × Replica) : α × ChainRegistry :=
  match r.bySerial? serial with
  | none => (default, r)
  | some chain => ((chain.take taking).1, r.updateSerial serial fun c => (c.take taking).2)

end ChainRegistry

end ShardGossip

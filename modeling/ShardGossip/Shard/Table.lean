import ShardGossip.Config
import ShardGossip.Shard

/-!
# ShardGossip.Shard.Table

The table of shards: which shard holds which contract and which node.

Shards are listed in the order in which they were opened, and an id is never given twice. A contract
goes to the first shard with room, a node to the one with the least load. Every node of the network
keeps a table of its own; the tables agree because they are changed by the same transactions in the
same order.
-/

namespace ShardGossip

/-- The shards of the network. -/
structure ShardTable where
  shards : List Shard
  /-- The id of the next shard to be opened. It goes up by one with every shard, and so never gets
  to the end of the 64 bits that an id has. -/
  nextId : Nat
  deriving DecidableEq, Repr

/-- Why the table was not changed. -/
inductive ShardingError where
  | shardNotFound (shard : ShardId)
  /-- The shard does not hold the contract. -/
  | contractNotFound (shard : ShardId) (contract : ContractId)
  | contractAlreadyAssigned (contract : ContractId) (shard : ShardId)
  /-- There are fewer than two shards. -/
  | notEnoughShards (count : Nat)
  deriving DecidableEq, Repr

/-- The error in words. -/
def ShardingError.message : ShardingError → String
  | shardNotFound shard => s!"shard {shard} not found"
  | contractNotFound shard contract => s!"contract {contract} not found in shard {shard}"
  | contractAlreadyAssigned contract shard =>
    s!"contract {contract} is already assigned to shard {shard}"
  | notEnoughShards count => s!"a merge needs two shards, {count} exist"

namespace ShardTable

/-- No shards. -/
def empty : ShardTable := ⟨[], 0⟩

instance : EmptyCollection ShardTable := ⟨empty⟩

instance : Inhabited ShardTable := ⟨∅⟩

/-! ### Looking things up -/

/-- The shard with an id. -/
def find? (t : ShardTable) (id : ShardId) : Option Shard :=
  t.shards.find? (·.id = id)

/-- The shard that holds a contract. -/
def shardOfContract (t : ShardTable) (contract : ContractId) : Option ShardId :=
  (t.shards.find? (·.containsContract contract)).map (·.id)

/-- The shard that holds a node. -/
def shardOfNode (t : ShardTable) (node : NodeId) : Option ShardId :=
  (t.shards.find? (·.containsNode node)).map (·.id)

/-- The shards that hold a node. -/
def shardsWith (t : ShardTable) (node : NodeId) : List ShardId :=
  (t.shards.filter (·.containsNode node)).map (·.id)

/-! ### Changing shards -/

/-- Opens a shard. -/
def openShard (t : ShardTable) (capacity : Nat) : ShardId × ShardTable :=
  let id : ShardId := ⟨t.nextId⟩
  (id, ⟨t.shards ++ [.empty id capacity], t.nextId + 1⟩)

/-- Changes the shard with an id. -/
def update (t : ShardTable) (id : ShardId) (change : Shard → Shard) : ShardTable :=
  { t with shards := t.shards.map fun s => if s.id = id then change s else s }

/-- Takes the shard with an id off the table. -/
def erase (t : ShardTable) (id : ShardId) : ShardTable :=
  { t with shards := t.shards.filter (·.id ≠ id) }

/-! ### Placement -/

/-- Where a contract or a node was placed. -/
structure Placed where
  shard : ShardId
  isNew : Bool
  deriving DecidableEq, Repr

/-- Places a contract in the first shard with room, or in a new one if there is none. -/
def assign (t : ShardTable) (config : ShardingConfig) (contract : Contract) :
    Except ShardingError (Placed × ShardTable) :=
  match t.shardOfContract contract.id with
  | some shard => .error (.contractAlreadyAssigned contract.id shard)
  | none =>
    match t.shards.find? (·.hasRoom) with
    | some shard => .ok (⟨shard.id, false⟩, t.update shard.id (·.pushContract contract))
    | none =>
      let (id, t) := t.openShard config.shardCapacity
      .ok (⟨id, true⟩, t.update id (·.pushContract contract))

/-- The shard with the least load; of several, the oldest. -/
def lightest : List Shard → Option Shard
  | [] => none
  | shard :: rest => some (rest.foldl (fun best s => if s.load < best.load then s else best) shard)

/-- Places a node in the shard with the least load. A node that has a shard stays there. -/
def place (t : ShardTable) (config : ShardingConfig) (node : Placement) : ShardId × ShardTable :=
  match t.shardOfNode node.id with
  | some shard => (shard, t)
  | none =>
    match lightest t.shards with
    | some shard => (shard.id, t.update shard.id (·.pushNode node))
    | none =>
      let (id, t) := t.openShard config.shardCapacity
      (id, t.update id (·.pushNode node))

/-- Counts one transaction against a contract. -/
def count (t : ShardTable) (id : ShardId) (contract : ContractId) :
    Except ShardingError ShardTable :=
  match t.find? id with
  | none => .error (.shardNotFound id)
  | some shard =>
    if shard.containsContract contract then .ok (t.update id (·.count contract))
    else .error (.contractNotFound id contract)

end ShardTable

end ShardGossip

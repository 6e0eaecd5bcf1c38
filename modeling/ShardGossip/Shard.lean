import ShardGossip.Event.Json

/-!
# ShardGossip.Shard

Shards: groups of nodes with the contracts they look after.

The load of a shard is the sum of the transactions counted against its contracts. A contract and a
node carry the id of the shard that holds them.

Counts and loads are numbers of any size here. They start at zero and grow by one with a transaction
that is counted, so no network gets to the end of the 64 bits, sign included, that a node keeps for
them; only a contract that is made with a count close to that end would.
-/

namespace ShardGossip

/-- A unit of placement, with the transactions counted against it. -/
structure Contract where
  id : ContractId
  shard : Option ShardId
  /-- A signed number, although counting starts at zero. -/
  transactionCount : Int
  deriving DecidableEq, Repr, Inhabited

/-- A node as a shard sees it. -/
structure Placement where
  id : NodeId
  shard : Option ShardId
  /-- The voting power, which is only reported: every ballot counts once. -/
  power : Nat
  deriving DecidableEq, Repr, Inhabited

/-- A group of nodes with the contracts they look after. -/
structure Shard where
  id : ShardId
  contracts : List Contract
  nodes : List Placement
  /-- How many contracts are placed here before others go elsewhere. -/
  capacity : Nat
  /-- The sum of the counts of the contracts. -/
  load : Int
  deriving DecidableEq, Repr, Inhabited

namespace Contract

/-- A contract that is nowhere yet. -/
def unplaced (id : ContractId) (transactionCount : Int) : Contract :=
  ⟨id, none, transactionCount⟩

end Contract

namespace Placement

/-- A node that is nowhere yet. -/
def unplaced (id : NodeId) (power : Nat) : Placement :=
  ⟨id, none, power⟩

end Placement

namespace Shard

/-- A shard without contracts and nodes. -/
def empty (id : ShardId) (capacity : Nat) : Shard :=
  ⟨id, [], [], capacity, 0⟩

/-- Whether another contract may be placed here. -/
def hasRoom (s : Shard) : Bool :=
  s.contracts.length < s.capacity

/-- Whether a node is here. -/
def containsNode (s : Shard) (id : NodeId) : Bool :=
  s.nodes.any (·.id = id)

/-- Whether a contract is here. -/
def containsContract (s : Shard) (id : ContractId) : Bool :=
  s.contracts.any (·.id = id)

/-- The ids of the nodes, in the order of placement. -/
def nodeIds (s : Shard) : List NodeId :=
  s.nodes.map (·.id)

/-- Places a contract here, with what was counted against it. -/
def pushContract (s : Shard) (contract : Contract) : Shard :=
  { s with
    contracts := s.contracts ++ [{ contract with shard := some s.id }]
    load := s.load + contract.transactionCount }

/-- Places a node here. -/
def pushNode (s : Shard) (node : Placement) : Shard :=
  { s with nodes := s.nodes ++ [{ node with shard := some s.id }] }

/-- Counts one transaction against a contract. -/
def count (s : Shard) (id : ContractId) : Shard :=
  match s.contracts.findIdx? (·.id = id) with
  | none => s
  | some i =>
    { s with
      contracts := s.contracts.modify i fun c =>
        { c with transactionCount := c.transactionCount + 1 }
      load := s.load + 1 }

end Shard

/-! ### JSON forms -/

namespace ShardId

/-- The JSON form: the number. -/
def toJson (id : ShardId) : Json.Value := .ofNat id.number

/-- Reads the JSON form. -/
def ofJson? (v : Json.Value) : Option ShardId := (v.asNat? 64).map ShardId.mk

end ShardId

namespace Contract

/-- The JSON form. -/
def toJson (c : Contract) : Json.Value :=
  .record [
    ("id", .ofText c.id),
    ("shard_id", c.shard.elim .null ShardId.toJson),
    ("transaction_count", .ofInt c.transactionCount)]

/-- Reads the JSON form. -/
def ofJson? (v : Json.Value) : Option Contract := do
  let [id, shard, count] ← Json.slots? ["id", "shard_id", "transaction_count"] v | none
  return {
    id := ← id.required (·.asText?)
    shard := ← shard.nullable ShardId.ofJson?
    transactionCount := ← count.required (·.asInt64?) }

end Contract

namespace Placement

/-- The JSON form. -/
def toJson (n : Placement) : Json.Value :=
  .record [
    ("id", n.id.toJson),
    ("shard_id", n.shard.elim .null ShardId.toJson),
    ("power", .ofNat n.power)]

/-- Reads the JSON form. -/
def ofJson? (v : Json.Value) : Option Placement := do
  let [id, shard, power] ← Json.slots? ["id", "shard_id", "power"] v | none
  return {
    id := ← id.required NodeId.ofJson?
    shard := ← shard.nullable ShardId.ofJson?
    power := ← power.required (·.asNat? 32) }

end Placement

namespace Shard

/-- The JSON form. -/
def toJson (s : Shard) : Json.Value :=
  .record [
    ("id", s.id.toJson),
    ("contracts", .array (s.contracts.map Contract.toJson)),
    ("nodes", .array (s.nodes.map Placement.toJson)),
    ("capacity", .ofNat s.capacity),
    ("load", .ofInt s.load)]

/-- Reads the JSON form. -/
def ofJson? (v : Json.Value) : Option Shard := do
  let [id, contracts, nodes, capacity, load] ←
    Json.slots? ["id", "contracts", "nodes", "capacity", "load"] v | none
  return {
    id := ← id.required ShardId.ofJson?
    contracts := ← contracts.required (·.asList? Contract.ofJson?)
    nodes := ← nodes.required (·.asList? Placement.ofJson?)
    capacity := ← capacity.required (·.asNat? 64)
    load := ← load.required (·.asInt64?) }

end Shard

end ShardGossip

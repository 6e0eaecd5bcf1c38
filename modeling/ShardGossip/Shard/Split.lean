import ShardGossip.Shard.Table

/-!
# ShardGossip.Shard.Split

Splitting shards that hold too many contracts.

The contracts are dealt out to two new shards, the heaviest first, each to the half with less load;
the nodes are dealt out evenly, in the order of placement.
-/

namespace ShardGossip

/-- A split shard, with the members before and after. -/
structure SplitPlan where
  parent : ShardId
  members : List NodeId
  first : ShardId × List NodeId
  second : ShardId × List NodeId
  deriving DecidableEq, Repr

namespace SplitPlan

/-- Both halves. -/
def halves (p : SplitPlan) : List (ShardId × List NodeId) := [p.first, p.second]

end SplitPlan

namespace Shard

/-- Whether the second of two halves takes the next contract: it has less load, or as much with
fewer contracts. -/
def isLighter (second first : Shard) : Bool :=
  second.load < first.load ||
    (second.load = first.load && second.contracts.length < first.contracts.length)

/-- Deals a contract to the lighter of two halves. -/
def dealContract (halves : Shard × Shard) (contract : Contract) : Shard × Shard :=
  if halves.2.isLighter halves.1 then (halves.1, halves.2.pushContract contract)
  else (halves.1.pushContract contract, halves.2)

/-- Deals a node to the half with fewer nodes. -/
def dealNode (halves : Shard × Shard) (node : Placement) : Shard × Shard :=
  if halves.2.nodes.length < halves.1.nodes.length then (halves.1, halves.2.pushNode node)
  else (halves.1.pushNode node, halves.2)

/-- The contracts, those with the most transactions first. -/
def byWeight (contracts : List Contract) : List Contract :=
  contracts.mergeSort fun a b => b.transactionCount ≤ a.transactionCount

/-- The two halves of a shard. -/
def split (s : Shard) (capacity : Nat) (first second : ShardId) : Shard × Shard :=
  s.nodes.foldl dealNode
    ((byWeight s.contracts).foldl dealContract (.empty first capacity, .empty second capacity))

end Shard

namespace ShardTable

/-- Replaces a shard by its two halves, which are the newest shards then. -/
def splitShard (t : ShardTable) (config : ShardingConfig) (shard : Shard) :
    SplitPlan × ShardTable :=
  let (first, t) := (t.erase shard.id).openShard config.shardCapacity
  let (second, t) := t.openShard config.shardCapacity
  let (a, b) := shard.split config.shardCapacity first second
  (⟨shard.id, shard.nodeIds, (first, a.nodeIds), (second, b.nodeIds)⟩,
    (t.update first fun _ => a).update second fun _ => b)

/-- The shards that hold more contracts than they should. -/
def overloaded (t : ShardTable) (config : ShardingConfig) : List Shard :=
  t.shards.filter (config.splitThreshold < ·.contracts.length)

/-- Splits every shard that holds too many contracts. The halves are not looked at again. -/
def split (t : ShardTable) (config : ShardingConfig) : List SplitPlan × ShardTable :=
  (t.overloaded config).foldl
    (fun (plans, t) shard =>
      let (plan, t) := t.splitShard config shard
      (plans ++ [plan], t))
    ([], t)

end ShardTable

end ShardGossip

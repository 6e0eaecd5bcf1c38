import ShardGossip.Shard.Table

/-!
# ShardGossip.Shard.Merge

Merging the two newest shards.

The newest shard dissolves into the one that was opened before it, which takes over its contracts
and nodes.
-/

namespace ShardGossip

/-- A merge, with the members before it and what the survivor holds after it. -/
structure MergePlan where
  survivor : ShardId
  survivorMembers : List NodeId
  dissolved : ShardId
  dissolvedMembers : List NodeId
  contracts : Nat
  nodes : Nat
  deriving DecidableEq, Repr

namespace MergePlan

/-- Whether some node sat in both shards. -/
def isBridged (p : MergePlan) : Bool :=
  p.dissolvedMembers.any (p.survivorMembers.contains ·)

end MergePlan

namespace Shard

/-- Places a node here unless it is here. -/
def adoptNode (s : Shard) (node : Placement) : Shard :=
  if s.containsNode node.id then s else s.pushNode node

/-- Takes over the contracts and the nodes of another shard. -/
def absorb (s other : Shard) : Shard :=
  other.nodes.foldl adoptNode (other.contracts.foldl pushContract s)

end Shard

namespace ShardTable

/-- The last two of some shards. -/
def newestTwo : List Shard → Option (Shard × Shard)
  | [] => none
  | [_] => none
  | [survivor, dissolved] => some (survivor, dissolved)
  | _ :: rest => newestTwo rest

/-- Dissolves the newest shard into the one before it. -/
def merge (t : ShardTable) : Except ShardingError (MergePlan × ShardTable) :=
  match newestTwo t.shards with
  | none => .error (.notEnoughShards t.shards.length)
  | some (survivor, dissolved) =>
    let merged := survivor.absorb dissolved
    .ok (⟨survivor.id, survivor.nodeIds, dissolved.id, dissolved.nodeIds,
        merged.contracts.length, merged.nodes.length⟩,
      (t.erase dissolved.id).update survivor.id fun _ => merged)

/-- Whether the two newest shards hold few enough contracts together. -/
def isUnderloaded (t : ShardTable) (config : ShardingConfig) : Bool :=
  match newestTwo t.shards with
  | none => false
  | some (survivor, dissolved) =>
    survivor.contracts.length + dissolved.contracts.length ≤ config.mergeThreshold

end ShardTable

end ShardGossip

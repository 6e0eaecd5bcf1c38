import ShardGossip.ChainRegistry
import ShardGossip.Shard.Merge
import ShardGossip.Shard.Split

/-!
# ShardGossip.ShardManager

The shard table of a node together with its chains.

There is a chain for every shard of the table, with the nodes of the shard as its members, and it
runs when the node itself is one of them. When a shard is split or dissolves, the node carries what
it has not committed yet over to the chain that takes the shard's place.

The table is changed by committed transactions only, apart from nodes that join and shards that are
split or merged by a rule, so the tables of all nodes stay the same.
-/

namespace ShardGossip

/-- Transactions that were delivered together, with the shard that committed them. -/
abbrev Batch := ShardId × List Transaction

/-- The shard table of a node together with its chains. -/
structure ShardManager where
  config : ShardingConfig
  table : ShardTable
  chains : ChainRegistry
  /-- Whether what the table has seen goes on to the application. -/
  forwards : Bool
  delivered : List Batch

namespace ShardManager

/-- A manager without shards. -/
def fresh (config : ShardingConfig) (chains : ChainRegistry) : ShardManager :=
  ⟨config, ∅, chains, false, []⟩

/-- The node. -/
def localId (m : ShardManager) : NodeId := m.chains.localId

/-- The shards that the node belongs to. -/
def localShards (m : ShardManager) : List ShardId := m.table.shardsWith m.localId

/-- Changes the chains. -/
def updateChains (m : ShardManager) (change : ChainRegistry → ChainRegistry) : ShardManager :=
  { m with chains := change m.chains }

/-- Makes the chain of a shard agree with the nodes of the shard, and starts it when the node itself
is one of them. -/
def syncChain (m : ShardManager) (shard : ShardId) (members : List NodeId) : ShardManager :=
  m.updateChains fun chains =>
    (chains.create shard).update shard fun c =>
      let c := c.setMembers members
      if members.contains m.localId then c.run else c

/-! ### Placement -/

/-- Places a contract. -/
def assign (m : ShardManager) (contract : Contract) :
    Except ShardingError (ShardId × ShardManager) := do
  let (placed, table) ← m.table.assign m.config contract
  let m := { m with table := table }
  return (placed.shard, if placed.isNew then m.syncChain placed.shard [] else m)

/-- Opens a shard without contracts and nodes. -/
def createShard (m : ShardManager) : ShardId × ShardManager :=
  let (shard, table) := m.table.openShard m.config.shardCapacity
  (shard, { m with table := table }.syncChain shard [])

/-- Places a node, unless it has a shard. -/
def placeNode (m : ShardManager) (node : Placement) : ShardId × ShardManager :=
  match m.table.shardOfNode node.id with
  | some shard => (shard, m)
  | none =>
    let (shard, table) := m.table.place m.config node
    let members := ((table.find? shard).map (·.nodeIds)).getD []
    (shard, { m with table := table }.syncChain shard members)

/-! ### Splitting -/

/-- Replaces the chain of a split shard by those of its halves. What the node has to propose goes to
the half it belongs to. -/
def followSplit (m : ShardManager) (plan : SplitPlan) : ShardManager :=
  let (removed, chains) := m.chains.remove plan.parent
  let (own, chains) : List Transaction × ChainRegistry :=
    match removed with
    | some chain =>
      if plan.members.contains m.localId then
        chains.takeFrom chain.serial (·.takeOwnTransactions)
      else ([], chains)
    | none => ([], chains)
  plan.halves.foldl
    (fun m (half, members) =>
      let m := m.syncChain half members
      if members.contains m.localId then m.updateChains (·.update half (·.absorb own)) else m)
    { m with chains := chains }

/-- Splits every shard that holds too many contracts. -/
def checkSplit (m : ShardManager) : List SplitPlan × ShardManager :=
  let (plans, table) := m.table.split m.config
  (plans, plans.foldl followSplit { m with table := table })

/-- Counts one transaction against a contract of a shard, and splits what holds too much. -/
def logLoad (m : ShardManager) (shard : ShardId) (contract : ContractId) :
    Except ShardingError (List SplitPlan × ShardManager) := do
  let table ← m.table.count shard contract
  return { m with table := table }.checkSplit

/-! ### Committed transactions -/

/-- Applies a committed transaction to the table: an assignment places its contract, and anything
else counts against its contract. Responses never count, as they are not committed by everyone. -/
def applyCommitted (m : ShardManager) (transaction : Transaction) : ShardManager :=
  match transaction.contract with
  | none => m
  | some contract =>
    if transaction.isAssignment then
      match m.assign (.unplaced contract 0) with
      | .ok (_, m) => m
      | .error _ => m
    else if transaction.isResponse then m
    else
      match m.table.shardOfContract contract with
      | none => m
      | some shard =>
        match m.logLoad shard contract with
        | .ok (_, m) => m
        | .error _ => m

/-- Gives a batch to the application. -/
def collect (m : ShardManager) (shard : ShardId) (transactions : List Transaction) : ShardManager :=
  { m with delivered := m.delivered ++ [(shard, transactions)] }

/-- Shows a batch to the table, and then gives what is not about the table to the application. -/
def track (m : ShardManager) (shard : ShardId) (transactions : List Transaction) : ShardManager :=
  let m := transactions.foldl applyCommitted m
  let rest := transactions.filter (!·.isAssignment)
  if m.forwards && !rest.isEmpty then m.collect shard rest else m

/-- Delivers a batch. -/
def deliver (m : ShardManager) (pipeline : Pipeline) (shard : ShardId)
    (transactions : List Transaction) : ShardManager :=
  match pipeline with
  | .application => m.collect shard transactions
  | .tracker => m.track shard transactions

/-- Delivers a batch that no chain has committed. -/
def forward (m : ShardManager) (shard : ShardId) (transactions : List Transaction) : ShardManager :=
  if transactions.isEmpty then m
  else
    match m.chains.pipeline with
    | some pipeline => m.deliver pipeline shard transactions
    | none => m

/-- Delivers the next committed event of a chain. -/
def deliverNext (m : ShardManager) (serial : Nat) : ShardManager :=
  match m.chains.bySerial? serial with
  | none => m
  | some chain =>
    match chain.takeCommitted? with
    | none => m
    | some (event, rest) =>
      let m := m.updateChains (·.updateSerial serial fun _ => rest)
      match chain.pipeline with
      | some pipeline => m.deliver pipeline chain.shardId event.transactions
      | none => m

/-! ### Merging -/

/-- Moves the work of a dissolved chain into the survivor. Responses are delivered at once. If some
node sat in both shards, a node of both interleaves the two queues and tells the others; everyone
else only carries unbatched transactions over. Otherwise every node proposes its own transactions
again. -/
def carryOver (m : ShardManager) (plan : MergePlan) (dissolved : Nat) : ShardManager :=
  let (responses, chains) := m.chains.takeFrom dissolved (·.takeResponses)
  let m := { m with chains := chains }.forward plan.dissolved responses
  if plan.isBridged && plan.survivorMembers.contains m.localId then
    let (events, chains) := m.chains.takeFrom dissolved (·.takePendingEvents)
    let (leftovers, chains) := chains.takeFrom dissolved (·.takeLeftovers)
    { m with chains := chains.update plan.survivor fun c => (c.merge events).absorb leftovers }
  else
    let (carried, chains) := m.chains.takeFrom dissolved
      (if plan.isBridged then (·.takeLeftovers) else (·.takeOwnTransactions))
    if carried.isEmpty then { m with chains := chains }
    else
      { m with
        chains := chains.update plan.survivor fun c =>
          (c.handOff? carried).getD (c.absorb carried) }

/-- Removes the chain of a dissolved shard and makes the survivor's chain take over. -/
def followMerge (m : ShardManager) (plan : MergePlan) : ShardManager :=
  let (removed, chains) := m.chains.remove plan.dissolved
  let m := { m with chains := chains }.syncChain plan.survivor
    (plan.survivorMembers ++ plan.dissolvedMembers)
  match removed with
  | some chain =>
    if plan.dissolvedMembers.contains m.localId then m.carryOver plan chain.serial else m
  | none => m

/-- Dissolves the newest shard into the one before it. -/
def mergeLatest (m : ShardManager) : Except ShardingError (MergePlan × ShardManager) := do
  let (plan, table) ← m.table.merge
  return (plan, { m with table := table }.followMerge plan)

/-- Merges the two newest shards if they hold few enough contracts together. -/
def checkMerge (m : ShardManager) : Option MergePlan × ShardManager :=
  if m.table.isUnderloaded m.config then
    match m.mergeLatest with
    | .ok (plan, m) => (some plan, m)
    | .error _ => (none, m)
  else (none, m)

/-- Splits and merges what is due for it. -/
def rebalance (m : ShardManager) : ShardManager :=
  m.checkSplit.2.checkMerge.2

end ShardManager

end ShardGossip

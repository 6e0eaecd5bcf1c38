import ShardGossip.Config.Validation
import ShardGossip.Discovery
import ShardGossip.Handshake
import ShardGossip.ShardManager

/-!
# ShardGossip.Node

A node: its configuration, its shards and whom it knows.

Every node of the network starts from the same table. Later on the table changes with committed
transactions, so a contract is deployed by committing a request for its placement, and transactions
for a contract go to the shard that holds it.
-/

namespace ShardGossip

/-- A node. -/
structure Node where
  config : NodeConfig
  shards : ShardManager
  /-- The addresses of its peers, and the dials that are under way. -/
  directory : PeerDirectory
  shutDown : Bool

/-- Why a node does not take a transaction. -/
inductive NodeError where
  /-- The node does not belong to the shard. -/
  | notMember (node : NodeId) (shard : ShardId)
  | unassigned (contract : ContractId)
  /-- The contract has a shard already. -/
  | alreadyDeployed (contract : ContractId) (shard : ShardId)
  /-- The node belongs to no shard. -/
  | noShard (node : NodeId)
  deriving DecidableEq, Repr

/-- The error in words. -/
def NodeError.message : NodeError → String
  | notMember node shard => s!"node {node} is not a member of shard {shard}"
  | unassigned contract => s!"contract {contract} is not assigned to any shard"
  | alreadyDeployed contract shard => s!"contract {contract} is already in shard {shard}"
  | noShard node => s!"node {node} is not a member of any shard"

namespace Node

/-- Milliseconds between two looks for peers that are not connected. -/
def discoveryInterval : Nat := 1000

/-- A node with a signer at hand. -/
def withSigner (config : NodeConfig) (signer : Signer) : Node where
  config := config
  shards := .fresh config.sharding (.fresh config.nodeId config.chain signer)
  directory := .ofList config.peerAddresses
  shutDown := false

/-- What went wrong when a node could not be made, in outline. -/
def refusedConfiguration : String := "invalid node configuration"

/-- The node of a configuration. It shows everything that is committed to its shard table. -/
def ofConfig (config : NodeConfig) : Except ConfigError Node := do
  config.validate
  let key ← config.signingKey
  let node := withSigner config (.ofKey key)
  return { node with shards := node.shards.updateChains (·.register .tracker) }

/-- The node's id. -/
def localId (n : Node) : NodeId := n.config.nodeId

/-- Gives the application everything that is committed from now on. -/
def forwardToApplication (n : Node) : Node :=
  { n with shards := { n.shards with forwards := true } }

/-- How the node is shown. -/
def describe (n : Node) : String :=
  "Node \x7b local_id: NodeId(" ++ Text.quoted n.localId.name ++ "), listen_addr: "
    ++ Text.quoted n.config.listenAddr ++ ", peers: " ++ toString n.directory.size
    ++ ", chains: " ++ toString n.shards.chains.size ++ " \x7d"

/-! ### Starting and stopping -/

/-- The node itself and its peers, in the order of their ids. -/
def everyone (n : Node) : List Placement :=
  let peers := n.config.peers.map fun peer => Placement.unplaced peer.id peer.power
  let own := Placement.unplaced n.localId n.config.power
  (peers ++ [own]).mergeSort fun a b => (compare a.id b.id).isLE

/-- Places the node itself and its peers. Gives the shards that the node belongs to. -/
def bootstrap (n : Node) : List ShardId × Node :=
  let shards := n.everyone.foldl (fun m node => (m.placeNode node).2) n.shards
  (shards.localShards, { n with shards := shards })

/-- Stops the node with all its chains. -/
def shutdown (n : Node) : Node :=
  if n.shutDown then n
  else { n with shutDown := true, shards := n.shards.updateChains (·.shutdownAll) }

/-! ### Transactions -/

/-- Queues a transaction in a shard that the node belongs to. -/
def submit (n : Node) (shard : ShardId) (transaction : Transaction) : Except NodeError Node :=
  match (n.shards.chains.get? shard).filter (·.running) with
  | none => .error (.notMember n.localId shard)
  | some _ =>
    .ok { n with shards := n.shards.updateChains (·.update shard (·.submit transaction)) }

/-- Queues a transaction in the shard of its contract. Gives the shard. -/
def submitForContract (n : Node) (contract : ContractId) (kind : String) (payload : Bytes) :
    Except NodeError (ShardId × Node) :=
  match n.shards.table.shardOfContract contract with
  | none => .error (.unassigned contract)
  | some shard => (n.submit shard ⟨kind, payload, some contract⟩).map (shard, ·)

/-- Queues a request to place a contract in the first shard that the node belongs to. Gives the
shard. -/
def deploy (n : Node) (contract : ContractId) : Except NodeError (ShardId × Node) :=
  match n.shards.table.shardOfContract contract with
  | some shard => .error (.alreadyDeployed contract shard)
  | none =>
    match n.shards.localShards with
    | [] => .error (.noShard n.localId)
    | shard :: _ => (n.submit shard (.assignment contract)).map (shard, ·)

/-! ### Finding peers -/

/-- A connection to be opened. -/
structure Dial where
  shard : ShardId
  serial : Nat
  peer : NodeId
  address : String
  deriving DecidableEq, Repr

/-- Claims a dial to a member of a chain, unless its address is not known or it is being dialed. -/
def claimDial (chain : Chain) (found : List Dial × Node) (peer : NodeId) : List Dial × Node :=
  match found.2.directory.addressOf peer with
  | none => found
  | some address =>
    match found.2.directory.beginDial chain.shardId peer with
    | (true, directory) =>
      (found.1 ++ [⟨chain.shardId, chain.serial, peer, address⟩],
        { found.2 with directory := directory })
    | (false, _) => found

/-- Looks for members of running chains that the node has to dial, and claims the dials. No dial
comes to its end between the look and the claim: a sweep is over before anything else happens. -/
def sweep (n : Node) : List Dial × Node :=
  n.shards.chains.running.foldl
    (fun found chain =>
      (dialTargets n.localId chain.peers chain.hasSocket).foldl (claimDial chain) found)
    ([], n)

/-! ### Connections -/

/-- A connection to a node over which nothing has gone yet. -/
def freshSocket (n : Node) (peer : NodeId) : PeerSocket :=
  .fresh peer n.config.chain.maxFrameLen

/-- Attaches a connection to the chain with a serial number. -/
def attachTo (n : Node) (serial : Nat) (socket : PeerSocket) : Node :=
  { n with shards := n.shards.updateChains (·.updateSerial serial fun c => (c.attach socket).2) }

/-- A dial is over, whatever came of it. -/
def finishDial (n : Node) (dial : Dial) : Node :=
  { n with directory := n.directory.finishDial dial.shard dial.peer }

/-- The connection of a dial, with the hello written. -/
def greet? (n : Node) (dial : Dial) : Option PeerSocket :=
  match Handshake.hello n.localId dial.shard with
  | .ok hello => (n.freshSocket dial.peer).transmit? hello
  | .error _ => none

/-- The peer of a dial has answered. Unless the hello cannot be written, the connection goes to the
chain that the dial was for. -/
def dialConnected (n : Node) (dial : Dial) : Node :=
  match n.greet? dial with
  | some socket => (n.attachTo dial.serial socket).finishDial dial
  | none => n.finishDial dial

/-- Some node has opened a connection and sent bytes. If they begin with a hello for a shard that
has a chain, the connection goes to that chain. -/
def welcome (n : Node) (arrived : Bytes) (ended : Bool) : Node :=
  match Handshake.accept n.config.chain.maxFrameLen arrived ended with
  | .error _ => n
  | .ok (peer, shard, rest) =>
    match n.shards.chains.get? shard with
    | some chain => n.attachTo chain.serial { n.freshSocket peer with incoming := rest }
    | none => n

end Node

end ShardGossip

import ShardGossip.Config
import ShardGossip.PeerSocket
import ShardGossip.Replica.Receive

/-!
# ShardGossip.Chain.Basic

A shard's chain at one node: the member's state, its connections, and what is left to be done.

A change of the state gives packets, which go to the connections at once, committed events, which
wait in a queue for their delivery, and elections, which wait to be run. What has become due is
noted in `due`, in order. An entry there is only a reminder: whether there is anything to do is seen
from the chain itself, so a reminder too many does no harm.

A chain that was not started keeps its state but does nothing by itself. A chain that is started has
three loops, which go on side by side. A chain that was shut down is not started again, and each of
its loops ends, but not all at once with the chain: a loop that has something to do as well may do
that before it ends.
-/

namespace ShardGossip

/-- Where committed transactions go. -/
inductive Pipeline where
  | application
  /-- To the shard table, and from there to the application. -/
  | tracker
  deriving DecidableEq, Repr

/-- Something that a chain has to do. -/
inductive Work where
  | tick
  /-- Run an election, or repeat what may have got lost. -/
  | elect
  | deliver
  | read (connection : Nat)
  /-- Handle what was read from a connection. -/
  | handle (connection : Nat)
  | write (connection : Nat)
  deriving DecidableEq, Repr

/-- What a chain does by itself, side by side. -/
inductive Loop where
  /-- Seals an event at every tick. -/
  | tick
  /-- Runs the elections. -/
  | election
  /-- Delivers the committed events. -/
  | delivery
  deriving DecidableEq, Repr

/-- A shard's chain at one node. -/
structure Chain where
  /-- Tells the chains of a node apart, also those of one shard. -/
  serial : Nat
  config : ChainConfig
  signer : Signer
  replica : Replica
  connections : List PeerSocket
  sockets : NodeMap Nat
  woken : Bool
  committed : List Event
  pipeline : Option Pipeline
  /-- Whether the chain was started, and not shut down since. -/
  running : Bool
  shutDown : Bool
  /-- The loops that were started and have not ended. -/
  loops : List Loop
  /-- When the next event is sealed, once the chain has begun. -/
  nextTick : Option Nat
  /-- Until when an election is waited for, once the chain has begun. -/
  deadline : Option Nat
  due : List Work

namespace Chain

/-- A chain that was not started, without other members. -/
def fresh (serial : Nat) (shard : ShardId) (localId : NodeId) (config : ChainConfig)
    (signer : Signer) (pipeline : Option Pipeline) : Chain where
  serial := serial
  config := config
  signer := signer
  replica := .fresh localId shard
  connections := []
  sockets := ∅
  woken := false
  committed := []
  pipeline := pipeline
  running := false
  shutDown := false
  loops := []
  nextTick := none
  deadline := none
  due := []

/-- The shard. -/
def shardId (c : Chain) : ShardId := c.replica.shardId

/-- The node. -/
def localId (c : Chain) : NodeId := c.replica.localId

/-- The other members. -/
def peers (c : Chain) : List NodeId := c.replica.peers.toList

/-- All members. -/
def members (c : Chain) : List NodeId := (c.replica.peers.insert c.localId).toList

/-- The members there is a connection to. -/
def connected (c : Chain) : List NodeId := c.sockets.keys

/-- Whether there is a connection to a member. -/
def hasSocket (c : Chain) (id : NodeId) : Bool := c.sockets.contains id

/-- How the chain is shown. -/
def describe (c : Chain) : String :=
  "Chain \x7b shard_id: ShardId(" ++ toString c.shardId ++ "), local_id: NodeId("
    ++ Text.quoted c.localId.name ++ "), running: " ++ toString c.running ++ " \x7d"

/-! ### Connections -/

/-- Notes that something has become due. -/
def remind (c : Chain) (work : List Work) : Chain :=
  { c with due := c.due ++ work }

/-- Changes a connection, and notes the writes that come from it and the end of its reading. -/
def updateSocket (c : Chain) (connection : Nat) (change : PeerSocket → PeerSocket) : Chain :=
  match c.connections[connection]? with
  | none => c
  | some old =>
    let new := change old
    let writes := List.replicate (new.writes.length - old.writes.length) (Work.write connection)
    let ending := if new.closed && !old.closed then [Work.read connection] else []
    { c with connections := c.connections.set connection new }.remind (writes ++ ending)

/-- Closes connections. -/
def closeAll (c : Chain) (connections : List Nat) : Chain :=
  connections.foldl (fun c n => c.updateSocket n .close) c

/-- Sends a frame over some connections. -/
def sendFrame (c : Chain) (connections : List Nat) (frame : Bytes) : Chain :=
  connections.foldl (fun c n => c.updateSocket n (·.send frame)) c

/-- Sends a packet. Packets to members without a connection are lost, as are those that cannot be
encoded. -/
def sendOutbound (c : Chain) (outbound : Outbound) : Chain :=
  let (connections, packet) :=
    match outbound with
    | .broadcast packet => (c.sockets.values, packet)
    | .sendTo target packet => (c.sockets[target]?.toList, packet)
  match packet.encode with
  | .ok frame => c.sendFrame connections frame
  | .error _ => c

/-! ### Changes of the state -/

/-- Asks for an election. -/
def wake (c : Chain) : Chain :=
  { c with woken := true }.remind [.elect]

/-- Queues committed events for delivery. -/
def enqueue (c : Chain) (events : List Event) : Chain :=
  if events.isEmpty then c
  else { c with committed := c.committed ++ events }.remind [.deliver]

/-- Puts a change of the state into effect. -/
def apply (c : Chain) (o : Outcome) : Chain :=
  let c := o.effects.outbound.foldl sendOutbound { c with replica := o.replica }
  let c := c.enqueue o.effects.committed
  if o.effects.wake then c.wake else c

/-- Changes the state without effects. -/
def updateReplica (c : Chain) (change : Replica → Replica) : Chain :=
  { c with replica := change c.replica }

/-- Queues a transaction for the next event. -/
def submit (c : Chain) (transaction : Transaction) : Chain :=
  c.updateReplica (·.submit transaction)

/-- Queues transactions handed over by another chain. -/
def absorb (c : Chain) (transactions : List Transaction) : Chain :=
  c.updateReplica (·.absorb transactions)

/-- Interleaves the queue of a dissolved chain with the own one. -/
def merge (c : Chain) (events : List Event) : Chain :=
  c.apply (c.replica.mergeEvents events c.signer)

/-- Handles a packet from another member. A packet that is refused changes nothing. -/
def handlePacket (c : Chain) (sender : NodeId) (packet : Packet) : Chain :=
  match c.replica.onPacket sender packet c.signer with
  | .ok outcome => c.apply outcome
  | .error _ => c

/-- Takes something out of the state. -/
def take {α : Type} (c : Chain) (taking : Replica → α × Replica) : α × Chain :=
  let (a, replica) := taking c.replica
  (a, { c with replica := replica })

/-- Says where committed events are delivered. -/
def register (c : Chain) (pipeline : Pipeline) : Chain :=
  { c with pipeline := some pipeline }

end Chain

end ShardGossip

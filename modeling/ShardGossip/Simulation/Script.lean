import ShardGossip.PeerSocket.FarEnd
import ShardGossip.Simulation.Basic

/-!
# ShardGossip.Simulation.Script

A script that plays the far ends of a node's connections.

The script holds at most one end for each shard and member. Events that the node's chains seal carry
the time of the wall clock, so the script does not know their proofs in advance: it calls them by
the order in which it has seen them.
-/

namespace ShardGossip.Simulation

/-- Why a step of a script is not possible. -/
inductive Obstacle where
  /-- There never was a chain for the shard. -/
  | noChain
  /-- The script holds no end for the shard and member. -/
  | noSocket
  /-- The node has closed the connection. -/
  | closed
  /-- The chain has refused the connection. -/
  | refused (refusal : Refusal)
  deriving DecidableEq, Repr

/-- The end that the script holds for a shard and member. -/
def farEnd? (s : Simulation) (shard : ShardId) (peer : NodeId) : Option FarEnd :=
  s.ends.find? fun e => e.shard = shard && e.peer = peer

/-- The node's side of a connection. -/
def socket? (s : Simulation) (e : FarEnd) : Option PeerSocket :=
  s.chains.bySerial? e.serial >>= fun c => c.connections[e.connection]?

/-- Changes the node's side of a connection. -/
def updateSocket (s : Simulation) (e : FarEnd) (change : PeerSocket → PeerSocket) : Simulation :=
  s.updateChain e.serial fun c => (c.updateSocket e.connection change).remind [.read e.connection]

/-- Lets go of an end. -/
def hangUp (s : Simulation) (shard : ShardId) (peer : NodeId) : Except Obstacle Simulation :=
  match s.farEnd? shard peer with
  | none => .error .noSocket
  | some e => .ok ({ s with ends := s.ends.erase e }.updateSocket e .hangUp)

/-- Connects to the chain of a shard as one of its members. An end that the script holds for them is
let go. -/
def attach (s : Simulation) (shard : ShardId) (peer : NodeId) (limit : Option Nat) :
    Option Obstacle × Simulation :=
  match s.reach? shard >>= s.chains.bySerial? with
  | none => (some .noChain, s)
  | some c =>
    let socket := PeerSocket.fresh peer (limit.getD c.config.maxFrameLen)
    let (refusal, c') := c.attach socket
    let s := (s.updateChain c.serial fun _ => c')
    let s := ((s.hangUp shard peer).toOption).getD s
    let e : FarEnd := ⟨shard, peer, c.serial, c.connections.length⟩
    (refusal.map .refused, { s with ends := s.ends ++ [e], prompt := true })

/-- Writes bytes into a connection. -/
def write (s : Simulation) (shard : ShardId) (peer : NodeId) (bytes : Bytes) :
    Except Obstacle Simulation :=
  match s.farEnd? shard peer with
  | none => .error .noSocket
  | some e =>
    match s.socket? e with
    | none => .error .noSocket
    | some socket =>
      if socket.reading then .ok (s.updateSocket e (·.arrive bytes)) else .error .closed

/-- Takes what the node has written into a connection. -/
def receive (s : Simulation) (shard : ShardId) (peer : NodeId) :
    Except Obstacle (Receipt × Simulation) :=
  match s.farEnd? shard peer with
  | none => .error .noSocket
  | some e =>
    match s.socket? e with
    | none => .error .noSocket
    | some socket => .ok (socket.collect.1, s.updateSocket e fun socket => socket.collect.2)

/-! ### The names of own events -/

/-- The proofs that a packet names. -/
def proofsOf : Packet → List Proof
  | .propose _ event => [event.proof]
  | .ack proof => [proof]
  | .finalize proof => [proof]
  | .vote _ _ proof => [proof]
  | .overwriteEvents _ events => events.map (·.proof)
  | _ => []

/-- The script sees a packet. -/
def see (s : Simulation) (packet : Packet) : Simulation :=
  let note (seen : List Proof) (proof : Proof) : List Proof :=
    if s.sealedProofs.contains proof && !seen.contains proof then seen ++ [proof] else seen
  { s with seen := (proofsOf packet).foldl note s.seen }

/-- What the script calls an event that it has seen. -/
def nameFor (index : Nat) : String :=
  s!"own#{index}"

/-- What the script calls an event, if it is one of the node's own that it has seen. -/
def nameOf? (s : Simulation) (proof : Proof) : Option String :=
  (s.seen.idxOf? proof).map nameFor

/-- The proof of what the script calls by a name. -/
def proofOf (s : Simulation) (name : String) : Proof :=
  match (s.seen.zipIdx.find? fun (_, i) => nameFor i = name) with
  | some (proof, _) => proof
  | none => name

/-- A packet of the script with the proof that its name stands for. -/
def resolve (s : Simulation) : Packet → Packet
  | .ack name => .ack (s.proofOf name)
  | .finalize name => .finalize (s.proofOf name)
  | .vote round signature name => .vote round signature (s.proofOf name)
  | packet => packet

end ShardGossip.Simulation

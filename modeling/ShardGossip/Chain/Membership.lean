import ShardGossip.Chain.Basic

/-!
# ShardGossip.Chain.Membership

Connections that come and go, and the beginning and the end of a chain.

A connection belongs to a member, and a member has one connection at most: a new one replaces the
old one, which is closed. When an old connection ends at last, the new one stays.

Each function is one step: calls that change a chain are taken one after the other. Where members
are replaced or a connection is attached, the connections and the state are changed under one lock
after the other, so calls that overlapped could see the time in between; such calls are left out
here.
-/

namespace ShardGossip.Chain

/-- Starts the chain. -/
def run (c : Chain) : Chain :=
  if c.shutDown || c.running then c
  else
    { c with running := true, loops := [.tick, .election, .delivery] }.remind
      [.tick, .elect, .deliver]

/-- Shuts the chain down and closes its connections. From now on its loops may end. Calls that would
overlap with this one come before or after it. -/
def shutdown (c : Chain) : Chain :=
  if c.shutDown then c
  else
    { c with shutDown := true, running := false, sockets := ∅ }.closeAll c.sockets.values

/-- A loop of a chain that was shut down ends. Nothing says when: as long as the loop has something
to do, it is open whether it does that first or ends. -/
def finish (c : Chain) (loop : Loop) : Chain :=
  if c.shutDown then { c with loops := c.loops.filter (· ≠ loop) } else c

/-- All loops of a chain that was shut down end. -/
def finishAll (c : Chain) : Chain :=
  c.loops.foldl finish c

/-- Replaces the members. Connections to those that have left are closed. No connection is attached
between the two. -/
def setMembers (c : Chain) (members : List NodeId) : Chain :=
  let (kept, gone) := c.sockets.toList.partition fun (id, _) => members.contains id
  let c := { c with sockets := kept.foldl (fun map (id, n) => map.insert id n) ∅ }
  let c := c.closeAll (gone.map (·.2))
  c.apply (c.replica.setMembers members)

/-- Why a connection to a node cannot be attached, if it cannot. -/
def objection (c : Chain) (id : NodeId) : Option Refusal :=
  if c.shutDown then some (.shutDown c.shardId)
  else if c.replica.peers.contains id then none
  else some (.unknownPeer id)

/-- Attaches a connection to a member, brings the member up to date if it joined late, and starts to
read. A connection that is refused is closed. The chain is not shut down, nor are its members
replaced, while this goes on. -/
def attach (c : Chain) (socket : PeerSocket) : Option Refusal × Chain :=
  let number := c.connections.length
  let c := { c with connections := c.connections ++ [socket] }
  match c.objection socket.id with
  | some refusal => (some refusal, c.updateSocket number fun s => s.close.stopReading)
  | none =>
    let old := c.sockets[socket.id]?
    let c := { c with sockets := c.sockets.insert socket.id number }
    let (packets, c) := c.take (·.takeSyncFor socket.id)
    let c := packets.foldl (fun c p => c.sendOutbound (.sendTo socket.id p)) c
    let c := c.closeAll old.toList
    (none, (c.updateSocket number .startReading).remind [.read number])

/-- A connection has ended. If it is the one in use for its member, the member has none now. -/
def connectionClosed (c : Chain) (connection : Nat) : Chain :=
  match c.connections[connection]? with
  | none => c
  | some socket =>
    if c.sockets[socket.id]? = some connection then
      { c with sockets := c.sockets.erase socket.id }
    else c

/-- Sends transactions to the connected member with the smallest id, if there is one. -/
def handOff? (c : Chain) (transactions : List Transaction) : Option Chain :=
  match c.sockets.toList with
  | [] => none
  | (_, number) :: _ =>
    match (Packet.appendTransactions transactions).encode with
    | .ok frame => some (c.sendFrame [number] frame)
    | .error _ => none

end ShardGossip.Chain

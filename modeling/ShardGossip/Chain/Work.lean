import ShardGossip.Chain.Membership

/-!
# ShardGossip.Chain.Work

What the loops of a chain do.

At every tick the chain seals an event, if transactions wait. It runs an election whenever one is
asked for; when none was for a while, packets may have got lost, and it sends them again. Committed
events are delivered one by one, in the order in which they were committed. Each is done as long as
its loop has not ended, also when the chain was shut down meanwhile.

Each function takes the present time and does nothing when nothing is due.
-/

namespace ShardGossip.Chain

/-! ### Ticks -/

/-- Whether a tick is due. The first one is due at once. -/
def tickIsDue (c : Chain) (now : Nat) : Bool :=
  c.loops.contains .tick && c.nextTick.all (· ≤ now)

/-- Seals an event if a tick is due. `wall` is the wall clock's time. -/
def tick (c : Chain) (now wall : Nat) : Chain :=
  if c.tickIsDue now then
    { c with nextTick := some (c.nextTick.getD now + c.config.tick) }.apply
      (c.replica.sealEvent wall c.signer)
  else c

/-! ### Elections -/

/-- Runs elections for as long as they are asked for. -/
def runElections : (fuel : Nat) → Chain → Chain
  | 0, c => c
  | fuel + 1, c =>
    if c.woken then
      runElections fuel ({ c with woken := false }.apply c.replica.runElection)
    else c

/-- Every election commits one of the pending events, or none. -/
def electionLimit (c : Chain) : Nat :=
  c.replica.store.size + 1

/-- Runs the elections that were asked for. If there are none and it is time, sends packets
again. -/
def elect (c : Chain) (now : Nat) : Chain :=
  if !c.loops.contains .election then c
  else
    let waited := { c with deadline := some (now + c.config.roundTimeout) }
    if c.woken then waited.runElections c.electionLimit
    else
      match c.deadline with
      | none => waited
      | some deadline =>
        if deadline ≤ now then waited.apply (c.replica.retransmit c.signer) else c

/-! ### Deliveries -/

/-- The next event to be delivered. -/
def takeCommitted? (c : Chain) : Option (Event × Chain) :=
  match c.loops.contains .delivery, c.committed with
  | true, event :: rest => some (event, { c with committed := rest })
  | _, _ => none

/-! ### Connections -/

/-- Reads from a connection, and lets go of it when it has ended. One that was closed is read no
further; a packet that is still read from it (`PeerSocket.readOn`) is handled as any other. -/
def read (c : Chain) (connection : Nat) : Chain :=
  match c.connections[connection]? with
  | none => c
  | some old =>
    let c := c.updateSocket connection .read
    match c.connections[connection]? with
    | none => c
    | some new =>
      let c := if new.inbox.isEmpty then c else c.remind [.handle connection]
      if old.reading && !new.reading then c.connectionClosed connection else c

/-- Handles the packets that were read from a connection. -/
def handle (c : Chain) (connection : Nat) : Chain :=
  match c.connections[connection]? with
  | none => c
  | some socket =>
    let (packets, socket) := socket.takeInbox
    let c := { c with connections := c.connections.set connection socket }
    packets.foldl (fun c p => c.handlePacket socket.id p) c

/-- Does the first write that is due on a connection. -/
def write (c : Chain) (connection : Nat) : Chain :=
  c.updateSocket connection .write

end ShardGossip.Chain

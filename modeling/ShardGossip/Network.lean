import ShardGossip.Replica.Receive

/-!
# ShardGossip.Network

The members of one shard and the packets between them.

Between every two nodes there is a link, a queue of packets under way. What a member sends is put at
the back of its links; a broadcast goes to everyone whom the member counts as a peer at that moment,
in the order of their ids. A link may be told to deliver, repeat or lose what it holds, in any
order; a packet for a node that is not there is lost on delivery.

A network that is left alone takes its possible actions one by one: first the links, each delivering
its head, then the elections that were asked for.
-/

namespace ShardGossip

/-- A member with what it committed so far and whether it has to run an election. -/
structure Station where
  replica : Replica
  signer : Signer
  committed : List Proof
  /-- Whether an election was asked for and has not been run. -/
  woken : Bool

/-- A station before anything happened, in a shard with the given members. -/
def Station.founding (shard : ShardId) (id : NodeId) (signer : Signer) (members : List NodeId) :
    Station where
  replica := ((Replica.fresh id shard).setMembers members).replica
  signer := signer
  committed := []
  woken := false

/-- A station before anything happened, in the shard that comes first. -/
def Station.fresh (id : NodeId) (signer : Signer) (members : List NodeId) : Station :=
  .founding ⟨0⟩ id signer members

/-- Stations and the packets under way between them. -/
structure Network where
  stations : NodeMap Station
  /-- The packets under way, by sender and then by receiver. -/
  links : NodeMap (NodeMap (List Packet))

namespace Network

/-- What happened to one member. -/
structure Report where
  node : NodeId
  /-- The packet that was delivered to it, with its sender. -/
  delivery : Option (NodeId × Packet)
  result : Except Refusal Effects

/-- A network without members. -/
def empty : Network := ⟨∅, ∅⟩

/-- Adds a station. -/
def addStation (n : Network) (id : NodeId) (station : Station) : Network :=
  { n with stations := n.stations.insert id station }

/-! ### Links -/

/-- The packets under way from one node to another. -/
def link (n : Network) (src dst : NodeId) : List Packet :=
  (n.links[src]? >>= fun row => row[dst]?).getD []

/-- Puts other packets on a link. -/
def setLink (n : Network) (src dst : NodeId) (packets : List Packet) : Network :=
  { n with links := n.links.insert src ((n.links[src]?.getD ∅).insert dst packets) }

/-- Puts packets at the back of a link. -/
def send (n : Network) (src dst : NodeId) (packets : List Packet) : Network :=
  n.setLink src dst (n.link src dst ++ packets)

/-- The links with packets, ordered by sender and then by receiver. -/
def busyLinks (n : Network) : List (NodeId × NodeId × List Packet) :=
  n.links.toList.flatMap fun (src, row) =>
    (row.toList.filter fun (_, packets) => !packets.isEmpty).map fun (dst, packets) =>
      (src, dst, packets)

/-- Puts what a member sends on its links. -/
def post (n : Network) (src : NodeId) (peers : List NodeId) : List Outbound → Network
  | [] => n
  | .broadcast packet :: rest =>
    (peers.foldl (fun n peer => n.send src peer [packet]) n).post src peers rest
  | .sendTo dst packet :: rest => (n.send src dst [packet]).post src peers rest

/-! ### Members -/

/-- Gives a member its new state and carries out the effects. -/
def settleOutcome (n : Network) (id : NodeId) (station : Station) (outcome : Outcome) : Network :=
  let station := { station with
    replica := outcome.replica
    committed := station.committed ++ outcome.effects.committed.map (·.proof)
    woken := station.woken || outcome.effects.wake }
  (n.addStation id station).post id outcome.replica.peers.toList outcome.effects.outbound

/-- Changes a member. -/
def change (n : Network) (id : NodeId) (f : Station → Outcome) : Option Report × Network :=
  match n.stations[id]? with
  | none => (none, n)
  | some station =>
    let outcome := f station
    (some ⟨id, none, .ok outcome.effects⟩, n.settleOutcome id station outcome)

/-- Runs the election of a member. -/
def elect (n : Network) (id : NodeId) : Option Report × Network :=
  match n.stations[id]? with
  | none => (none, n)
  | some station =>
    let outcome := station.replica.runElection
    -- the request is served, and the election may make a new one
    (some ⟨id, none, .ok outcome.effects⟩,
      n.settleOutcome id { station with woken := false } outcome)

/-- Lets a member send again what it is waiting for. -/
def retransmit (n : Network) (id : NodeId) : Option Report × Network :=
  n.change id fun s => s.replica.retransmit s.signer

/-- Hands a packet to a node. -/
def hand (n : Network) (src dst : NodeId) (packet : Packet) : Option Report × Network :=
  match n.stations[dst]? with
  | none => (none, n)
  | some station =>
    match station.replica.onPacket src packet station.signer with
    | .ok outcome =>
      (some ⟨dst, some (src, packet), .ok outcome.effects⟩, n.settleOutcome dst station outcome)
    | .error refusal => (some ⟨dst, some (src, packet), .error refusal⟩, n)

/-- Delivers the packet at a position of a link. -/
def deliver (n : Network) (src dst : NodeId) (position : Nat) : Option Report × Network :=
  let packets := n.link src dst
  match packets[position]? with
  | none => (none, n)
  | some packet => (n.setLink src dst (packets.eraseIdx position)).hand src dst packet

/-- Takes the packets that bring a late member up to date, and sends them. -/
def sync (n : Network) (id peer : NodeId) : List Packet × Network :=
  match n.stations[id]? with
  | none => ([], n)
  | some station =>
    let (packets, replica) := station.replica.takeSyncFor peer
    (packets, (n.addStation id { station with replica := replica }).send id peer packets)

/-! ### Running -/

/-- Something that can happen next. -/
inductive Action where
  | deliver (src dst : NodeId)
  /-- A member runs the election that it was asked for. -/
  | elect (id : NodeId)

/-- Everything that can happen next, in order. -/
def actions (n : Network) : List Action :=
  n.busyLinks.map (fun (src, dst, _) => .deliver src dst)
    ++ ((n.stations.toList.filter fun (_, station) => station.woken).map fun (id, _) => .elect id)

/-- Takes an action. -/
def act (n : Network) : Action → Option Report × Network
  | .deliver src dst => n.deliver src dst 0
  | .elect id => n.elect id

/-- How many actions a run takes at most. -/
def runLimit : Nat := 5000

/-- Takes the first possible action until there is none, at most `fuel` times. Gives their
number. -/
def runFor : (fuel taken : Nat) → Network → Nat × Network
  | 0, taken, n => (taken, n)
  | fuel + 1, taken, n =>
    match n.actions with
    | [] => (taken, n)
    | action :: _ => runFor fuel (taken + 1) (n.act action).2

/-- Takes the first possible action until there is none. -/
def run (n : Network) : Nat × Network :=
  runFor runLimit 0 n

/-- Whether no member has pending events. -/
def isDrained (n : Network) : Bool :=
  n.stations.toList.all fun (_, station) => station.replica.store.isEmpty

/-- Lets every member send again what it is waiting for, in the order of their ids. -/
def retransmitAll (n : Network) : Network :=
  n.stations.keys.foldl (fun n id => (n.retransmit id).2) n

/-- How often a network that does not come to rest is made to send again. -/
def resendLimit : Nat := 10

/-- Runs the network until no event is pending, sending again whenever it gets stuck, at most `fuel`
times. Gives the number of times it was made to send again. -/
def settleFor : (fuel resends : Nat) → Network → Nat × Network
  | 0, resends, n => (resends, n)
  | fuel + 1, resends, n =>
    let n := n.run.2
    if n.isDrained then (resends, n) else settleFor fuel (resends + 1) n.retransmitAll

/-- Runs the network until no event is pending. -/
def settle (n : Network) : Nat × Network :=
  settleFor resendLimit 0 n

end Network

end ShardGossip

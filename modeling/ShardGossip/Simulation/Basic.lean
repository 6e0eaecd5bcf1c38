import ShardGossip.Node

/-!
# ShardGossip.Simulation.Basic

A node under virtual time.

What is due at the present instant is done in the order in which it became due. Time moves from one
timer to the next; of several timers for one instant the one that was set first goes first. A timer
that has become pointless is let go off all the same, as whether there is anything to do is seen
from the chains.

No connection can be opened: every dial fails at once. The loops of a chain that is shut down end
before they do anything else.
-/

namespace ShardGossip

/-- Something that a node has to do. -/
inductive Task where
  /-- Something that a chain has to do. -/
  | chain (serial : Nat) (work : Work)
  /-- Look for peers that are not connected. -/
  | sweep
  | rebalance
  deriving DecidableEq, Repr

/-- One of the two ends of a connection that a script holds. -/
structure FarEnd where
  shard : ShardId
  peer : NodeId
  serial : Nat
  connection : Nat
  deriving DecidableEq, Repr

/-- A node under virtual time. -/
structure Simulation where
  node : Node
  now : Nat
  agenda : List Task
  timers : List (Nat × Task)
  /-- The proofs of the events that the chains have sealed by themselves, oldest first. -/
  sealedProofs : List Proof
  /-- Those among them that the script has seen, in the order of appearance. -/
  seen : List Proof
  /-- The chain that was registered last for each shard, as of the end of the last step. -/
  lastKnown : List (ShardId × Nat)
  ends : List FarEnd
  /-- Whether everything that is due is done after each step. -/
  prompt : Bool

namespace Simulation

/-- A node at the beginning of time. -/
def start (node : Node) : Simulation :=
  ⟨node, 0, [], [], [], [], [], [], false⟩

/-- The chains. -/
def chains (s : Simulation) : ChainRegistry := s.node.shards.chains

/-- Changes the shards. -/
def updateShards (s : Simulation) (change : ShardManager → ShardManager) : Simulation :=
  { s with node := { s.node with shards := change s.node.shards } }

/-- Changes a chain. -/
def updateChain (s : Simulation) (serial : Nat) (change : Chain → Chain) : Simulation :=
  s.updateShards fun m => m.updateChains (·.updateSerial serial change)

/-! ### The agenda -/

/-- What the chains have noted as due. -/
def noted (s : Simulation) : List Task :=
  s.chains.all.flatMap fun c => c.due.map (.chain c.serial)

/-- Moves what the chains have noted onto the agenda. -/
def gather (s : Simulation) : Simulation :=
  let noted := s.noted
  if noted.isEmpty then s
  else
    { s with agenda := s.agenda ++ noted }.updateShards fun m =>
      m.updateChains (·.mapAll fun c => { c with due := [] })

/-- Puts a timer behind those for the same or an earlier time. -/
def insertTimer (time : Nat) (task : Task) : List (Nat × Task) → List (Nat × Task)
  | [] => [(time, task)]
  | timer :: rest =>
    if timer.1 ≤ time then timer :: insertTimer time task rest else (time, task) :: timer :: rest

/-- Sets a timer. -/
def setTimer (s : Simulation) (time : Nat) (task : Task) : Simulation :=
  { s with timers := insertTimer time task s.timers }

/-- Moves what has become due by now from the timers onto the agenda. -/
def ring (s : Simulation) : Simulation :=
  let (due, later) := s.timers.span (·.1 ≤ s.now)
  { s with agenda := s.agenda ++ due.map (·.2), timers := later }

/-! ### Doing what is due -/

/-- When the wall clock stood at the beginning of time. -/
def epoch : Nat := 1700000000000

/-- The wall clock. It goes on by itself between any two events. -/
def wall (s : Simulation) : Nat :=
  epoch + s.sealedProofs.length

/-- Lets a chain seal an event, and sets the timer for the next one. -/
def tick (s : Simulation) (c : Chain) : Simulation :=
  if c.tickIsDue s.now then
    let c' := c.tick s.now s.wall
    let fresh :=
      if c'.replica.clock = c.replica.clock then []
      else [Event.proofFor c'.replica.clock c'.localId]
    let s := { s with sealedProofs := s.sealedProofs ++ fresh }.updateChain c.serial fun _ => c'
    s.setTimer (c'.nextTick.getD s.now) (.chain c.serial .tick)
  else s

/-- Lets a chain run its elections, and sets the timer for the time until which it waits for the
next one. -/
def elect (s : Simulation) (c : Chain) : Simulation :=
  let c' := c.elect s.now
  let s := s.updateChain c.serial fun _ => c'
  match c'.deadline with
  | some deadline =>
    if c.deadline = some deadline then s else s.setTimer deadline (.chain c.serial .elect)
  | none => s

/-- Delivers the committed events of a chain, up to one that shuts the chain down. -/
def deliver (s : Simulation) (c : Chain) : Simulation :=
  s.updateShards (Nat.repeat (fun m => (m.deliverNext c.serial).updateChains (·.finishAll))
    c.committed.length)

/-- Does what a chain has to do. -/
def work (s : Simulation) (c : Chain) : Work → Simulation
  | .tick => s.tick c
  | .elect => s.elect c
  | .deliver => s.deliver c
  | .read n => s.updateChain c.serial (·.read n)
  | .handle n => s.updateChain c.serial (·.handle n)
  | .write n => s.updateChain c.serial (·.write n)

/-- Looks for peers. Every dial that is started comes to nothing. -/
def sweep (s : Simulation) : Simulation :=
  let (dials, node) := s.node.sweep
  { s with node := dials.foldl Node.finishDial node }

/-- Milliseconds between two looks at the shard table. -/
def rebalanceInterval (s : Simulation) : Nat :=
  s.node.config.sharding.rebalanceSecs * 1000

/-- Does what is due. -/
def perform (s : Simulation) : Task → Simulation
  | .chain serial work =>
    let s := s.updateShards fun m => m.updateChains (·.finishAll)
    match s.chains.bySerial? serial with
    | some c => s.work c work
    | none => s
  | .sweep =>
    if s.node.shutDown then s else s.sweep.setTimer (s.now + Node.discoveryInterval) .sweep
  | .rebalance =>
    if s.node.shutDown then s
    else (s.updateShards (·.rebalance)).setTimer (s.now + s.rebalanceInterval) .rebalance

/-- How many things are done at one instant at most. -/
def taskLimit : Nat := 1000000

/-- Does what is due, in order, until nothing is left. -/
def drain : (fuel : Nat) → Simulation → Simulation
  | 0, s => s
  | fuel + 1, s =>
    let s := s.gather
    match s.agenda with
    | [] => s
    | task :: rest => drain fuel ({ s with agenda := rest }.perform task)

/-- Does everything that is due at the present instant. -/
def settle (s : Simulation) : Simulation :=
  drain taskLimit s.ring

/-! ### Time -/

/-- Goes from instant to instant until a time, which is not reached. `fuel` bounds their number. -/
def runUntil (stop : Nat) : (fuel : Nat) → Simulation → Simulation
  | 0, s => s
  | fuel + 1, s =>
    let s := s.settle
    match s.timers with
    | [] => s
    | (time, _) :: _ =>
      if time < stop then runUntil stop fuel { s with now := max s.now time } else s

/-- Lets time pass: everything happens that is due before the end. -/
def runFor (s : Simulation) (duration : Nat) : Simulation :=
  if duration = 0 then s
  else
    let stop := s.now + duration
    { runUntil stop duration s with now := stop }.gather.ring

/-- Serves: looks for peers now and then, and at the shard table. `prompt` tells that some peer is
within reach, so that from here on each step waits for what it has set off. -/
def serve (s : Simulation) (prompt : Bool) : Simulation :=
  { s with agenda := s.agenda ++ [Task.sweep], prompt := s.prompt || prompt }.setTimer
    (s.now + s.rebalanceInterval) .rebalance

/-! ### Steps of a script -/

/-- The serial number of the chain of a shard: of the registered one, or of the one that was
registered last. -/
def reach? (s : Simulation) (shard : ShardId) : Option Nat :=
  match s.chains.get? shard with
  | some chain => some chain.serial
  | none => (s.lastKnown.find? (·.1 = shard)).map (·.2)

/-- Remembers the registered chains. -/
def remember (s : Simulation) : Simulation :=
  let current := s.chains.chains.map fun c => (c.shardId, c.serial)
  let older := s.lastKnown.filter fun (shard, _) => !current.any (·.1 = shard)
  { s with lastKnown := current ++ older }

/-- Ends a step: does what is due, if that is wanted, and remembers the chains. -/
def endStep (s : Simulation) : Simulation :=
  (if s.prompt then s.settle else s.gather).remember

end Simulation

end ShardGossip

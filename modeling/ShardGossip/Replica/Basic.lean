import ShardGossip.Effects
import ShardGossip.EventStore

/-!
# ShardGossip.Replica.Basic

One member's state of its shard's chain.

The members of a shard commit one event a round. A round goes through these steps: an origin seals
an event and proposes it; the other members store and acknowledge it; when all have, the origin
announces it; every member votes for the oldest announced event it holds; once all ballots are in,
each member counts them, commits the winner and says it is ready; once all are ready, the round is
closed.

* `announced` holds the proofs that every member is known to hold; only those are voted for, so a
  ballot never names an event that a member lacks.
* `ballot` is the own vote of the round in progress, and `chosen` the winner between the count and
  the end of the round.
* Ballots and elector-readies name their round. Earlier rounds are ignored, and a ballot for a later
  round or for an unknown event is held back.
* Rounds are numbered with 64 bits, so the round after the last number is round zero again.
* `finalized` remembers the latest committed proofs, so that late packets about them are harmless.
-/

namespace ShardGossip

/-! ### Remembered proofs -/

/-- The proofs used last, the latest first. -/
structure RecentProofs where
  /-- The proofs, without repetitions. -/
  proofs : List Proof
  deriving DecidableEq, Repr

namespace RecentProofs

/-- How many proofs are remembered. -/
def capacity : Nat := 4096

/-- Nothing remembered. -/
def empty : RecentProofs := ⟨[]⟩

/-- Whether a proof is remembered. Asking does not count as a use. -/
def contains (r : RecentProofs) (proof : Proof) : Bool :=
  r.proofs.contains proof

/-- Remembers a proof as the latest; the one used least recently gives way when there is no room. -/
def remember (r : RecentProofs) (proof : Proof) : RecentProofs :=
  ⟨(proof :: r.proofs.filter (· ≠ proof)).take capacity⟩

end RecentProofs

/-! ### The state -/

/-- A ballot that came before its round or before its event. -/
structure HeldVote where
  /-- The number of the round it is for, of 64 bits as it was sent. -/
  round : Nat
  /-- The voter's signature of the proof. -/
  signature : Bytes
  /-- The event it is for. -/
  proof : Proof
  deriving DecidableEq, Repr

/-- One member's state of its shard's chain. -/
structure Replica where
  /-- The member itself. -/
  localId : NodeId
  /-- The shard. -/
  shardId : ShardId
  /-- The other members. -/
  peers : NodeSet
  /-- The pending events. -/
  store : EventStore
  /-- The event that the round in progress committed. -/
  chosen : Option Proof
  /-- The own vote of the round in progress. -/
  ballot : Option Proof
  /-- Whether an election was asked for or is under way. -/
  electing : Bool
  /-- The members that are ready for the next round. -/
  ready : NodeSet
  /-- The ballots of the round in progress. -/
  ballots : NodeMap Proof
  /-- The latest held-back ballot of each member. -/
  held : NodeMap HeldVote
  /-- The proofs that may be voted for. -/
  announced : Std.ExtTreeSet Proof
  /-- Members that have yet to be brought up to date. -/
  lateJoiners : NodeSet
  /-- Members that joined during the round in progress and do not take part in it. -/
  sittingOut : NodeSet
  /-- The latest committed proofs. -/
  finalized : RecentProofs
  /-- Transactions that no event holds yet. -/
  unbatched : List Transaction
  /-- The time of the latest own event, in milliseconds. It is a number of 64 bits, and ahead of the
  wall clock by no more than one for each event, so its end is out of reach. -/
  clock : Nat
  /-- The number of the round in progress: that of the rounds it has completed, or what another
  member has named since. -/
  rounds : Nat
  /-- Whether another member has ever named a later round. -/
  jumped : Bool
  /-- How often the numbers have begun anew. Nothing that a member does depends on this; it tells
  rounds apart that have one number. -/
  laps : Nat
  deriving DecidableEq

/-- Where the round in progress stands, as its member sees it. -/
inductive Phase where
  /-- Nothing is pending. -/
  | idle
  /-- Holding proposals of others. -/
  | awaitingAck
  /-- An own proposal waits for acknowledgements. -/
  | awaitingQuorumAck
  /-- The own vote is cast, and ballots are missing. -/
  | voting
  /-- The winner is committed, and members are not ready yet. -/
  | awaitingElectorReady
  deriving DecidableEq, Repr

/-- The name of a phase. -/
def Phase.name : Phase → String
  | idle => "idle"
  | awaitingAck => "awaiting-ack"
  | awaitingQuorumAck => "awaiting-quorum-ack"
  | voting => "voting"
  | awaitingElectorReady => "awaiting-elector-ready"

namespace Replica

/-- The state before anything happened, without other members. -/
def fresh (localId : NodeId) (shardId : ShardId) : Replica where
  localId := localId
  shardId := shardId
  peers := ∅
  store := ∅
  chosen := none
  ballot := none
  electing := false
  ready := ∅
  ballots := ∅
  held := ∅
  announced := ∅
  lateJoiners := ∅
  sittingOut := ∅
  finalized := .empty
  unbatched := []
  clock := 0
  rounds := 0
  jumped := false
  laps := 0

instance : Inhabited Replica := ⟨fresh default default⟩

/-- Whether a node is a member of the shard. -/
def isMember (r : Replica) (id : NodeId) : Bool :=
  id == r.localId || r.peers.contains id

/-- Whether a node takes part in the round in progress. -/
def isElector (r : Replica) (id : NodeId) : Bool :=
  id == r.localId || (r.peers.contains id && !r.sittingOut.contains id)

/-- The other members that take part in the round in progress. -/
def electors (r : Replica) : List NodeId :=
  r.peers.toList.filter (!r.sittingOut.contains ·)

/-- How many numbers there are for rounds, two to the power of 64. -/
def roundNumbers : Nat := 18446744073709551616

/-- Whether the round in progress has the last number. A member that counts its rounds from zero
never gets there: that would take more rounds than any network has time for. So this is only asked
of a member that was told a number, for that can be any. -/
def inLastRound (r : Replica) : Bool :=
  r.jumped && r.rounds + 1 == roundNumbers

/-- The number of the next round. -/
def nextRound (r : Replica) : Nat :=
  if r.inLastRound then 0 else r.rounds + 1

/-- Goes on to the next round. -/
def advance (r : Replica) : Replica :=
  { r with
    rounds := r.nextRound
    laps := if r.inLastRound then r.laps + 1 else r.laps }

theorem nextRound_of_not_last {r : Replica} (h : r.inLastRound = false) :
    r.nextRound = r.rounds + 1 := by
  rw [nextRound, h]
  rfl

theorem nextRound_le (r : Replica) : r.nextRound ≤ r.rounds + 1 := by
  unfold nextRound
  split
  · exact Nat.zero_le _
  · exact Nat.le_refl _

theorem nextRound_ne (r : Replica) : r.nextRound ≠ r.rounds := by
  unfold nextRound
  split
  · rename_i h
    intro hr
    rw [inLastRound, Bool.and_eq_true, beq_iff_eq, ← hr] at h
    exact absurd h.2 (by decide)
  · exact Nat.succ_ne_self _

theorem laps_le_advance (r : Replica) : r.laps ≤ r.advance.laps := by
  unfold advance
  dsimp only
  split
  · exact Nat.le_succ _
  · exact Nat.le_refl _

/-- The member has counted all its rounds, from zero. -/
structure Counted (r : Replica) : Prop where
  jumped : r.jumped = false
  laps : r.laps = 0

theorem Counted.not_last {r : Replica} (h : r.Counted) : r.inLastRound = false := by
  rw [inLastRound, h.jumped]
  rfl

theorem Counted.rounds_advance {r : Replica} (h : r.Counted) : r.advance.rounds = r.rounds + 1 :=
  nextRound_of_not_last h.not_last

theorem Counted.advance {r : Replica} (h : r.Counted) : r.advance.Counted where
  jumped := h.jumped
  laps := (if_neg (Bool.eq_false_iff.mp h.not_last)).trans h.laps

/-- As long as the numbers do not begin anew, the next round has the next number. -/
theorem rounds_advance {r : Replica} (h : r.advance.laps = r.laps) :
    r.advance.rounds = r.rounds + 1 := by
  refine nextRound_of_not_last (Bool.eq_false_iff.mpr fun hl => ?_)
  rw [advance, if_pos hl] at h
  exact Nat.succ_ne_self _ h

/-- Whether there are no other members. -/
def isAlone (r : Replica) : Bool :=
  r.peers.isEmpty

/-- The proofs of the pending events that the member sealed itself, in queue order. -/
def ownProofs (r : Replica) : List Proof :=
  (r.store.pendingEvents.filter (·.origin = r.localId)).map (·.proof)

/-- The number of pending events that may be voted for. -/
def pendingElections (r : Replica) : Nat :=
  r.store.queue.countP (r.announced.contains ·)

/-- Where the round in progress stands. -/
def phase (r : Replica) : Phase :=
  if r.chosen.isSome then .awaitingElectorReady
  else if r.ballot.isSome then .voting
  else if r.store.pendingEvents.any fun e =>
      e.origin = r.localId && !r.announced.contains e.proof then .awaitingQuorumAck
  else if r.store.isEmpty then .idle
  else .awaitingAck

/-- The pending events as other members should see them, without the one that is committed. -/
def queueForWire (r : Replica) : List Event :=
  (r.store.pendingEvents.filter fun e => r.chosen ≠ some e.proof).map (·.forWire)

end Replica

/-! ### Changes -/

/-- The state after a change, and what the change asks for. -/
structure Outcome where
  /-- The state afterwards. -/
  replica : Replica
  /-- What the change asks for. -/
  effects : Effects

namespace Outcome

/-- A change without effects. -/
def silent (r : Replica) : Outcome := ⟨r, ∅⟩

/-- A further change. -/
def andThen (o : Outcome) (next : Replica → Outcome) : Outcome :=
  let o' := next o.replica
  ⟨o'.replica, o.effects ++ o'.effects⟩

/-- One change for each element of a list, in order. -/
def each {α : Type} (change : Replica → α → Outcome) (o : Outcome) (as : List α) : Outcome :=
  as.foldl (fun o a => o.andThen fun r => change r a) o

/-- The same change with a packet to everyone else, if there is anyone else. -/
def tellAll (o : Outcome) (packet : Replica → Packet) : Outcome :=
  o.andThen fun r => ⟨r, if r.isAlone then ∅ else .broadcast (packet r)⟩

@[simp] theorem replica_silent (r : Replica) : (silent r).replica = r := rfl

@[simp] theorem effects_silent (r : Replica) : (silent r).effects = ∅ := rfl

@[simp] theorem replica_andThen (o : Outcome) (next : Replica → Outcome) :
    (o.andThen next).replica = (next o.replica).replica := rfl

@[simp] theorem effects_andThen (o : Outcome) (next : Replica → Outcome) :
    (o.andThen next).effects = o.effects ++ (next o.replica).effects := rfl

@[simp] theorem silent_andThen (r : Replica) (next : Replica → Outcome) :
    (silent r).andThen next = next r := rfl

theorem andThen_assoc (o : Outcome) (next next' : Replica → Outcome) :
    (o.andThen next).andThen next' = o.andThen fun r => (next r).andThen next' := by
  simp [andThen, Effects.append_assoc]

theorem committed_tellAll (o : Outcome) (packet : Replica → Packet) :
    (o.tellAll packet).effects.committed = o.effects.committed := by
  unfold tellAll
  rw [effects_andThen, Effects.committed_append]
  split <;> exact List.append_nil _

/-- A further change that changes nothing. -/
theorem andThen_eq_self {o : Outcome} {next : Replica → Outcome}
    (h : next o.replica = silent o.replica) : o.andThen next = o := by
  simp [andThen, h]

end Outcome

end ShardGossip

import ShardGossip.Replica.Basic
import ShardGossip.Tally

/-!
# ShardGossip.Replica.Round

One round: announcing, voting, counting and closing.

Counting may close a round, closing a round lets held-back ballots in, and a ballot may be the last
one a count was waiting for. This does not go round in circles: when a round has just been closed
the member has not voted in the next one, so no count can follow before its own election. Ballots
let in at that point are therefore only recorded (`recordHeld`), and the definitions stand in the
order recording, closing, counting, voting, each using those before it.
-/

namespace ShardGossip.Replica

/-! ### Announcing -/

/-- Lets a proof be voted for, and asks for an election unless one is under way. -/
def announce (r : Replica) (proof : Proof) : Outcome :=
  if r.announced.contains proof then .silent r
  else
    let r := { r with announced := r.announced.insert proof }
    if r.electing then .silent r else ⟨{ r with electing := true }, .wakeUp⟩

/-- Announces an own event once every other member has acknowledged it. -/
def checkAckQuorum (r : Replica) (proof : Proof) : Outcome :=
  match r.store.get? proof with
  | none => .silent r
  | some event =>
    if event.origin ≠ r.localId ∨ r.announced.contains proof then .silent r
    else if r.peers.toList.all (event.backedResponses.contains ·) then
      ((Outcome.silent r).tellAll fun _ => .finalize proof).andThen (·.announce proof)
    else .silent r

/-! ### Recording ballots -/

/-- What becomes of a ballot. -/
inductive Verdict where
  | ignore
  | hold
  /-- It is counted in the round in progress. -/
  | count
  deriving DecidableEq, Repr

/-- Judges a ballot. Those for committed events and for past rounds are ignored; those for later
rounds and for events that have not arrived are held back; in the round in progress, ballots count
as long as it is not decided and only if the voter takes part. -/
def judge (r : Replica) (voter : NodeId) (vote : HeldVote) : Verdict :=
  if r.finalized.contains vote.proof then .ignore
  else if vote.round < r.rounds then .ignore
  -- the proposal travels on another link and may be slower
  else if r.rounds < vote.round ∨ !r.store.contains vote.proof then .hold
  else if r.chosen.isSome then .ignore
  else if r.isElector voter then .count
  else .ignore

/-- Holds a ballot back; of two by one member the one for the later round stays, the newer one if
they are for the same round. -/
def hold (r : Replica) (voter : NodeId) (vote : HeldVote) : Replica :=
  match r.held[voter]? with
  | some earlier =>
    if vote.round < earlier.round then r else { r with held := r.held.insert voter vote }
  | none => { r with held := r.held.insert voter vote }

/-- Counts a ballot in the round in progress. -/
def countBallot (r : Replica) (voter : NodeId) (vote : HeldVote) : Replica :=
  { r with
    store := r.store.update vote.proof (·.recordBallot voter vote.signature)
    ballots := r.ballots.insert voter vote.proof }

/-- Records a ballot without looking whether it was the last one. -/
def record (r : Replica) (voter : NodeId) (vote : HeldVote) : Replica :=
  match r.judge voter vote with
  | .ignore => r
  | .hold => r.hold voter vote
  | .count => r.countBallot voter vote

/-- Forgets the held-back ballots of past rounds. -/
def dropStale (r : Replica) : Replica :=
  { r with held := r.held.filter fun _ vote => r.rounds ≤ vote.round }

/-- The members whose held-back ballot is for the round in progress and for an event that is
here. -/
def releasable (r : Replica) : List NodeId :=
  (r.held.filter fun _ vote => vote.round == r.rounds && r.store.contains vote.proof).keys

/-- Takes a member's held-back ballot out and records it. -/
def release (r : Replica) (voter : NodeId) : Replica :=
  match r.held[voter]? with
  | some vote => { r with held := r.held.erase voter }.record voter vote
  | none => r

/-- Records the held-back ballots whose time has come, in a round that the member has not voted
in. -/
def recordHeld (r : Replica) : Replica :=
  r.dropStale.releasable.foldl release r.dropStale

/-! ### Closing a round -/

/-- Whether every other member that takes part is ready. -/
def allReady (r : Replica) : Bool :=
  r.electors.all (r.ready.contains ·)

/-- Forgets the round in progress. -/
def clearRound (r : Replica) : Replica :=
  { r with ballot := none, ready := ∅, ballots := ∅, sittingOut := ∅ }

/-- Takes the committed event out and forgets the round in progress. -/
def closeRound (r : Replica) (chosen : Proof) : Replica :=
  { r.clearRound with
    store := (r.store.remove chosen).2
    announced := r.announced.erase chosen
    finalized := r.finalized.remember chosen
    chosen := none }

/-- Asks for an election if an event may be voted for and no round is in progress. -/
def scheduleElection (r : Replica) : Outcome :=
  if r.ballot.isSome ∨ r.chosen.isSome then .silent r
  else if 0 < r.pendingElections then ⟨{ r with electing := true }, .wakeUp⟩
  else .silent { r with electing := false }

/-- Closes a decided round once everyone is ready. -/
def tryClose (r : Replica) : Outcome :=
  match r.chosen with
  | none => .silent r
  | some chosen =>
    if r.allReady then
      -- others may have voted in the next round already
      (r.closeRound chosen).advance.recordHeld.scheduleElection
    else .silent r

/-! ### Counting -/

/-- Whether the ballots of everyone who takes part are in. -/
def allVoted (r : Replica) : Bool :=
  r.ballots.contains r.localId && r.electors.all (r.ballots.contains ·)

/-- Commits the elected event and tells the others. -/
def commit (r : Replica) (winner : Proof) : Outcome :=
  let committed : Effects := (r.store.get? winner).elim ∅ .commit
  (Outcome.mk { r with chosen := some winner } committed).tellAll (.electorReady ·.rounds)

/-- Counts the ballots of the round in progress once the own vote is cast and all are in. -/
def tryTally (r : Replica) : Outcome :=
  if r.chosen.isSome ∨ r.ballot.isNone ∨ !r.allVoted then .silent r
  else
    let winner? := tally (r.ballots.filter fun voter _ => r.isElector voter)
    let r := { r with ballots := ∅ }
    match winner? with
    | none => .silent r
    | some winner => (r.commit winner).andThen tryClose

/-! ### Ballots from others -/

/-- Records a ballot, and counts if it was the last one. -/
def recordVote (r : Replica) (voter : NodeId) (vote : HeldVote) : Outcome :=
  match r.judge voter vote with
  | .ignore => .silent r
  | .hold => .silent (r.hold voter vote)
  | .count => (r.countBallot voter vote).tryTally

/-- Takes a member's held-back ballot out and records it; if it was the last one, the ballots are
counted. -/
def replay (r : Replica) (voter : NodeId) : Outcome :=
  match r.held[voter]? with
  | some vote => { r with held := r.held.erase voter }.recordVote voter vote
  | none => .silent r

/-- Records the held-back ballots whose time has come. -/
def replayHeld (r : Replica) : Outcome :=
  (Outcome.silent r.dropStale).each replay r.dropStale.releasable

/-! ### The own vote -/

/-- Votes for the oldest announced event, unless a round is in progress. -/
def runElection (r : Replica) : Outcome :=
  if r.ballot.isSome ∨ r.chosen.isSome then .silent r
  else
    match r.store.queue.find? (r.announced.contains ·) with
    | none => .silent { r with electing := false }
    | some proof =>
      let r := { r with electing := true }
      match r.store.get? proof with
      | none => .silent r
      | some event =>
        let vote : HeldVote := ⟨r.rounds, event.signedUpdate, proof⟩
        let r := { r.countBallot r.localId vote with ballot := some proof }
        -- all others may have voted before
        ((Outcome.silent r).tellAll fun r => .vote r.rounds event.signedUpdate proof).andThen
          tryTally

end ShardGossip.Replica

import ShardGossip.Event.Json
import ShardGossip.Replica.Round
import ShardGossip.Signer

/-!
# ShardGossip.Replica.Sealing

Making events out of submitted transactions, and repeating what may have got lost.

The sealing clock runs strictly ahead: two events sealed by one member never carry the same time,
even if the wall clock stands still or goes back.
-/

namespace ShardGossip.Replica

/-- Queues a transaction for the next event. -/
def submit (r : Replica) (transaction : Transaction) : Replica :=
  { r with unbatched := r.unbatched ++ [transaction] }

/-- Queues transactions handed over by another chain. -/
def absorb (r : Replica) (transactions : List Transaction) : Replica :=
  { r with unbatched := r.unbatched ++ transactions }

/-- The time of the next event: the wall clock, but later than any event before. -/
def nextTime (r : Replica) (now : Nat) : Nat :=
  max now (r.clock + 1)

/-- The proposal of an event: what others should see of it, signed as a whole. -/
def proposal (signer : Signer) (event : Event) : Packet :=
  .propose (signer.sign event.forWire.encode) event.forWire

/-- Seals the unbatched transactions, if there are any, into an event and proposes it. -/
def sealEvent (r : Replica) (now : Nat) (signer : Signer) : Outcome :=
  if r.unbatched.isEmpty then .silent r
  else
    let time := r.nextTime now
    let event := Event.sealed r.localId time r.unbatched
    let held := { event with signedUpdate := signer.sign (Utf8.encode event.proof) }
    let r := { r with clock := time, unbatched := [], store := (r.store.insert held).2 }
    -- on its own, the member has its quorum at once
    ((Outcome.silent r).tellAll fun _ => proposal signer event).andThen
      (·.checkAckQuorum event.proof)

/-- The own proposals that some member has not acknowledged. -/
def unannounced (r : Replica) : List Event :=
  r.store.pendingEvents.filter fun e => e.origin = r.localId && !r.announced.contains e.proof

/-- What the round in progress is waiting for from others: a ballot like the own one, or word that
they are ready. -/
def roundReminder (r : Replica) : List Packet :=
  match r.chosen, r.ballot with
  | some _, _ => [.electorReady r.rounds]
  | none, some proof =>
    ((r.store.get? proof).map fun e => .vote r.rounds e.signedUpdate proof).toList
  | none, none => []

/-- The packets to send again when nothing has happened for a while. Each of them may be repeated
freely, and names its round, so an old copy is never taken for something newer. -/
def retransmit (r : Replica) (signer : Signer) : Outcome :=
  if r.isAlone then .silent r
  else
    let packets := r.unannounced.map (proposal signer) ++ r.roundReminder
    ⟨r, { Effects.none with outbound := packets.map .broadcast }⟩

end ShardGossip.Replica

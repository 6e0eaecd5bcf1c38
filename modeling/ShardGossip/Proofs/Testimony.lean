import ShardGossip.Proofs.Latecomer
import ShardGossip.Proofs.Quorum

/-!
# ShardGossip.Proofs.Testimony

**Ballots and elector-readies count only in the round they name** (`counted_as_said`). Whatever is
done with a member's state, every ballot of a peer in it was cast in so many words: the peer has
sent it since it became a member, for that proof and for the very round in progress. The same holds
of whoever is noted as ready. Ballots may have waited a long time for their round, may have been
replaced, and the round may have been jumped to; but whenever the round changes, what was counted in
the old one is forgotten, and a ballot that is let in names the new one. The numbers of the rounds
only go up, until a peer that names the last one makes them begin anew (`rounds_begin_anew`).

`Vouched` says this of a state, given what was heard. Held-back ballots are in it too, for those are
the ones that are counted later.
-/

namespace ShardGossip.Replica

variable {r r' : Replica} {o : Outcome} {heard heard' : NodeId → Packet → Prop}

/-! ### Vouched states -/

/-- What the state has from peers, they have said. -/
structure Vouched (heard : NodeId → Packet → Prop) (r : Replica) : Prop where
  ballots : ∀ {v p}, r.ballots[v]? = some p → v = r.localId ∨
    r.peers.contains v ∧ ∃ signature, heard v (.vote r.rounds signature p)
  held : ∀ {v vote}, r.held[v]? = some vote → r.peers.contains v ∧ heard v vote.packet
  ready : ∀ {v}, r.ready.contains v → r.peers.contains v ∧ heard v (.electorReady r.rounds)

theorem Vouched.mono (h : r.Vouched heard) (hh : ∀ v p, heard v p → heard' v p) :
    r.Vouched heard' where
  ballots hb := (h.ballots hb).imp_right fun ⟨hp, signature, hv⟩ => ⟨hp, signature, hh _ _ hv⟩
  held hv := ⟨(h.held hv).1, hh _ _ (h.held hv).2⟩
  ready hv := ⟨(h.ready hv).1, hh _ _ (h.ready hv).2⟩

/-- Only peers vouch, so the others need not be heard. -/
theorem Vouched.of_peers (h : r.Vouched heard) :
    r.Vouched fun v p => heard v p ∧ r.peers.contains v where
  ballots hb := (h.ballots hb).imp_right fun ⟨hp, signature, hv⟩ => ⟨hp, signature, hv, hp⟩
  held hv := ⟨(h.held hv).1, (h.held hv).2, (h.held hv).1⟩
  ready hv := ⟨(h.ready hv).1, (h.ready hv).2, (h.ready hv).1⟩

theorem Vouched.erase_held (h : r.Vouched heard) (v : NodeId) :
    ({ r with held := r.held.erase v } : Replica).Vouched heard :=
  { h with
    held := by
      intro u vote hu
      rw [getElem?_erase_eq] at hu
      split at hu
      · cases hu
      · exact h.held hu }

theorem Vouched.hold (h : r.Vouched heard) {v : NodeId} {vote : HeldVote}
    (hv : r.peers.contains v) (hh : heard v vote.packet) : (r.hold v vote).Vouched heard := by
  obtain ⟨held, he, hi⟩ := r.hold_eq v vote
  rw [he]
  rcases hi with rfl | rfl
  · exact h
  · refine { h with held := ?_ }
    intro u vote' hu
    rw [getElem?_insert_eq] at hu
    split at hu
    · rename_i huv
      obtain rfl := Option.some.inj hu
      exact huv ▸ ⟨hv, hh⟩
    · exact h.held hu

/-- A ballot that counts names the round in progress. -/
theorem Vouched.countBallot (h : r.Vouched heard) {v : NodeId} {vote : HeldVote}
    (hj : r.judge v vote = .count) (hv : r.peers.contains v) (hh : heard v vote.packet) :
    (r.countBallot v vote).Vouched heard := by
  refine { h with ballots := ?_ }
  intro u p hu
  rw [show (r.countBallot v vote).ballots = r.ballots.insert v vote.proof from rfl,
    getElem?_insert_eq] at hu
  split at hu
  · rename_i huv
    obtain rfl := Option.some.inj hu
    have hr : heard v (.vote r.rounds vote.signature vote.proof) := (judge_count hj).1 ▸ hh
    exact .inr (huv ▸ ⟨hv, vote.signature, hr⟩)
  · exact h.ballots hu

/-- With a new round, what was counted in the one before is gone. -/
theorem Vouched.clear (h : r.Vouched heard) (hb : r'.ballots = ∅) (hr : r'.ready = ∅)
    (hh : r'.held = r.held) (hp : r'.peers = r.peers) : r'.Vouched heard where
  ballots hv := by simp [hb] at hv
  held hv := by
    rw [hh] at hv
    rw [hp]
    exact h.held hv
  ready hv := by simp [hr] at hv

theorem Vouched.reaction (h : r.Vouched heard) (hr : Reaction heard r o) :
    o.replica.Vouched heard := by
  cases hr with
  | hold hh hv _ => exact h.hold hv hh
  | count hh hv hj => exact h.countBallot hj hv hh
  | release hv hj => exact (h.countBallot hj (h.held hv).1 (h.held hv).2).erase_held _
  | discard _ _ => exact h.erase_held _
  | dropStale => exact { h with held := fun hv => h.held (getElem?_filter_eq_some.mp hv).1 }
  | cast _ _ _ _ =>
      refine { h with ballots := ?_ }
      intro u p hu
      simp only [Replica.countBallot, getElem?_insert_eq] at hu
      split at hu
      · rename_i hl
        exact .inl hl.symm
      · exact h.ballots hu
  | commit _ _ _ _ => exact { h with ballots := fun hv => by simp at hv }
  | ready hh hv =>
      refine { h with ready := ?_ }
      intro u hu
      exact (contains_insert_iff.mp hu).elim (fun he => he ▸ ⟨hv, hh⟩) h.ready
  | close _ _ => exact h.clear rfl rfl rfl rfl
  | schedule _ _ =>
      obtain ⟨electing, quiet, hs⟩ := r.scheduleElection_eq
      rw [hs]
      exact { h with }
  | _ => exact { h with }

/-- Whoever leaves takes along what it has said. -/
theorem Vouched.forget (h : r.Vouched heard) (id : NodeId) : (r.forget id).Vouched heard where
  ballots {v p} hv := by
    rw [show (r.forget id).ballots = r.ballots.erase id from rfl, getElem?_erase_eq] at hv
    split at hv
    · cases hv
    · rename_i hi
      exact (h.ballots hv).imp_right fun ⟨hp, hs⟩ => ⟨contains_erase_iff.mpr ⟨hi, hp⟩, hs⟩
  held {v vote} hv := by
    rw [show (r.forget id).held = r.held.erase id from rfl, getElem?_erase_eq] at hv
    split at hv
    · cases hv
    · rename_i hi
      exact ⟨contains_erase_iff.mpr ⟨hi, (h.held hv).1⟩, (h.held hv).2⟩
  ready {v} hv := by
    obtain ⟨hi, hv⟩ := contains_erase_iff.mp hv
    exact ⟨contains_erase_iff.mpr ⟨hi, (h.ready hv).1⟩, (h.ready hv).2⟩

theorem Vouched.enlist (h : r.Vouched heard) (id : NodeId) :
    ({ r with peers := r.peers.insert id } : Replica).Vouched heard :=
  have more {v : NodeId} (hv : r.peers.contains v) : (r.peers.insert id).contains v :=
    contains_insert_iff.mpr (.inr hv)
  { ballots := fun hb => (h.ballots hb).imp_right fun ⟨hp, hs⟩ => ⟨more hp, hs⟩
    held := fun hv => ⟨more (h.held hv).1, (h.held hv).2⟩
    ready := fun hv => ⟨more (h.ready hv).1, (h.ready hv).2⟩ }

theorem Vouched.reconfiguration (h : r.Vouched heard) (hu : Reconfiguration r o) :
    o.replica.Vouched heard := by
  cases hu with
  | enlist _ => exact h.enlist _
  | enlistLate _ => exact { h.enlist _ with }
  | forget _ => exact h.forget _
  | jump round =>
      rw [Outcome.replica_silent]
      rcases r.fastForward_cases round with he | ⟨-, ⟨chosen, -, he⟩ | ⟨-, he⟩⟩ <;> rw [he]
      · exact h
      · exact h.clear rfl rfl rfl rfl
      · exact h.clear rfl rfl rfl rfl
  | adopt update signer _ =>
      rw [Outcome.replica_silent]
      unfold storeForeign
      cases update <;> exact { h with }
  | _ => exact { h with }

theorem Vouched.change (h : r.Vouched heard) (hc : Change heard r o) : o.replica.Vouched heard :=
  match hc with
  | .settled hr => h.reaction hr
  | .reconfiguration hu => h.reconfiguration hu

/-! ### Every operation -/

theorem Vouched.prepare (h : r.Vouched heard) (hp : Preparation r r') : r'.Vouched heard := by
  cases hp with
  | pending =>
      exact ⟨fun hb => by simp [takePendingEvents] at hb,
        fun hv => by simp [takePendingEvents] at hv, fun hv => by simp [takePendingEvents] at hv⟩
  | _ => exact { h with }

/-- What a peer says with an operation. -/
def said (r : Replica) : Operation → List (NodeId × Packet)
  | .request (.serve (.packet sender packet _)) =>
    if r.peers.contains sender then [(sender, packet)] else []
  | _ => []

theorem Vouched.perform {said : List (NodeId × Packet)}
    (h : r.Vouched fun v p => (v, p) ∈ said) (hs : r.store.WellFormed) (op : Operation) :
    (r.perform op).Vouched fun v p => (v, p) ∈ said ++ r.said op := by
  have hmore : r.Vouched fun v p => (v, p) ∈ said ++ r.said op :=
    h.mono fun _ _ hm => List.mem_append_left _ hm
  refine perform_keeps hs op ?_ hmore.prepare Vouched.change
  rintro sender packet signer rfl hp
  have hs : r.said (.request (.serve (.packet sender packet signer))) = [(sender, packet)] :=
    if_pos hp
  rw [hs]
  exact List.mem_append_right _ List.mem_cons_self

/-- The round in progress is no earlier one than before. -/
def Reaches (r r' : Replica) : Prop :=
  r.SameRound r' ∨ r.Before r'

theorem Reaches.refl (r : Replica) : r.Reaches r :=
  .inl (.refl r)

theorem Reaches.trans {r'' : Replica} (h : r.Reaches r') (h' : r'.Reaches r'') :
    r.Reaches r'' := by
  rcases h with hs | hb
  · exact h'.imp hs.trans (hs.before_iff (.refl r'')).mpr
  · refine .inr ?_
    rcases h' with hs' | hb'
    · exact (SameRound.before_iff (.refl r) hs').mp hb
    · exact hb.trans hb'

theorem Reaches.rounds_le (h : r.Reaches r') (hl : r'.laps = r.laps) : r.rounds ≤ r'.rounds :=
  h.elim (fun hs => Nat.le_of_eq hs.1.symm) fun hb => Nat.le_of_lt (hb.rounds_lt hl)

theorem Onward.reaches (h : r.Onward r') : r.Reaches r' :=
  h.imp_left And.left

theorem reaches_perform (hs : r.store.WellFormed) (op : Operation) : r.Reaches (r.perform op) := by
  refine perform_keeps (P := r.Reaches) hs op (fun _ _ _ _ _ => trivial) (fun hp => ?_)
    fun h hc => h.trans (onward_change hc).reaches
  cases hp <;> exact .refl r

/-- A member's state, and what its peers have said, each since it joined last. -/
structure Listening where
  replica : Replica
  heard : List (NodeId × Packet)

/-- One more operation. What was said by those who are no longer peers counts no more. -/
def Listening.perform (m : Listening) (op : Operation) : Listening where
  replica := m.replica.perform op
  heard := (m.heard ++ m.replica.said op).filter fun e => (m.replica.perform op).peers.contains e.1

/-- Operations, one after the other. -/
def Listening.run (m : Listening) (operations : List Operation) : Listening :=
  operations.foldl perform m

namespace Listening

variable {m : Listening}

/-- What an operation leaves to the next one. -/
structure Truthful (m : Listening) : Prop where
  grounded : m.replica.Grounded
  vouched : m.replica.Vouched fun v p => (v, p) ∈ m.heard

theorem Truthful.perform (h : m.Truthful) (op : Operation) : (m.perform op).Truthful where
  grounded := h.grounded.perform op
  vouched := (h.vouched.perform h.grounded.store op).of_peers.mono fun _ _ hm =>
    List.mem_filter.mpr hm

theorem Truthful.run (h : m.Truthful) (operations : List Operation) :
    (m.run operations).Truthful ∧ m.replica.Reaches (m.run operations).replica := by
  induction operations generalizing m with
  | nil => exact ⟨h, .refl _⟩
  | cons op rest ih =>
      obtain ⟨ht, hr⟩ := ih (h.perform op)
      exact ⟨ht, (reaches_perform h.grounded.store op).trans hr⟩

end Listening

end ShardGossip.Replica

import ShardGossip.Proofs.Reaction

/-!
# ShardGossip.Proofs.WellFormed

**The fields of a member's state agree with each other** (`Replica.WellFormed`), and with the events
that it has committed (`Replica.Records`). Both hold of a fresh state and survive every reaction, so
they hold whenever a member is looked at. The one conjunct that everything else leans on is `fresh`:
no remembered proof is pending, which is why nothing can be elected again before it is forgotten.
-/

namespace ShardGossip

/-! ### Remembered proofs -/

namespace RecentProofs

theorem contains_iff {r : RecentProofs} {p : Proof} : r.contains p ↔ p ∈ r.proofs := by
  unfold contains
  rw [List.contains_iff_mem]

theorem contains_eq_false {r : RecentProofs} {p : Proof} : r.contains p = false ↔ p ∉ r.proofs := by
  rw [← contains_iff, Bool.not_eq_true]

/-- A proof that was not remembered goes to the front, and nothing else moves. -/
theorem proofs_remember {r : RecentProofs} {p : Proof} (h : r.contains p = false) :
    (r.remember p).proofs = (p :: r.proofs).take capacity := by
  have hf : r.proofs.filter (· ≠ p) = r.proofs := by
    rw [List.filter_eq_self]
    intro q hq
    rw [decide_eq_true_eq]
    rintro rfl
    exact contains_eq_false.mp h hq
  unfold remember
  rw [hf]

theorem contains_of_remember {r : RecentProofs} {p q : Proof} (h : (r.remember p).contains q) :
    q = p ∨ r.contains q := by
  have hm : q ∈ p :: r.proofs.filter (· ≠ p) := List.mem_of_mem_take (contains_iff.mp h)
  rcases List.mem_cons.mp hm with hm | hm
  · exact Or.inl hm
  · exact Or.inr (contains_iff.mpr (List.mem_filter.mp hm).1)

end RecentProofs

namespace Replica

/-! ### What the fields say about each other -/

/-- The fields of a member's state fit together. -/
structure WellFormed (r : Replica) : Prop where
  store : r.store.WellFormed
  self : r.peers.contains r.localId = false
  announced : ∀ {p}, r.announced.contains p → r.store.contains p
  ballots : ∀ {v p}, r.ballots[v]? = some p →
    (v = r.localId ∨ r.peers.contains v) ∧ r.store.contains p
  /-- The own vote is for a pending event, keeps the election going, and is among the ballots until
  they are counted. -/
  voted : ∀ {p}, r.ballot = some p → r.store.contains p ∧ r.electing ∧
    (r.chosen = none → r.ballots[r.localId]? = some p)
  /-- The winner is pending until its round is closed, and the own vote stands until then. -/
  decided : ∀ {p}, r.chosen = some p → r.ballot.isSome ∧ r.store.contains p
  fresh : ∀ {p}, r.store.contains p → r.finalized.contains p = false
  held : ∀ {v vote}, r.held[v]? = some vote → r.peers.contains v
  ready : ∀ {v}, r.ready.contains v → r.peers.contains v
  lateJoiners : ∀ {v}, r.lateJoiners.contains v → r.peers.contains v
  sittingOut : ∀ {v}, r.sittingOut.contains v → r.peers.contains v

/-- Before anything happened, whoever the peers are. -/
theorem wellFormed_founding (localId : NodeId) (shardId : ShardId) {peers : NodeSet}
    (h : peers.contains localId = false) :
    ({ fresh localId shardId with peers := peers } : Replica).WellFormed where
  store := EventStore.wellFormed_empty
  self := h
  announced h := by simp [fresh] at h
  ballots h := by simp [fresh] at h
  voted h := by simp [fresh] at h
  decided h := by simp [fresh] at h
  fresh h := by simp [fresh] at h
  held h := by simp [fresh] at h
  ready h := by simp [fresh] at h
  lateJoiners h := by simp [fresh] at h
  sittingOut h := by simp [fresh] at h

theorem wellFormed_fresh (localId : NodeId) (shardId : ShardId) :
    (fresh localId shardId).WellFormed :=
  wellFormed_founding localId shardId Std.ExtTreeSet.contains_empty

variable {r : Replica}

/-- Nothing is decided without an own vote. -/
theorem WellFormed.chosen_eq_none (h : r.WellFormed) (hb : r.ballot = none) : r.chosen = none := by
  cases hc : r.chosen with
  | none => rfl
  | some p =>
      have hs := (h.decided hc).1
      rw [hb] at hs
      cases hs

/-- A ballot that counts is for a pending event, of an undecided round, by someone who takes
part. -/
theorem judge_count {v : NodeId} {vote : HeldVote} (h : r.judge v vote = .count) :
    vote.round = r.rounds ∧ r.store.contains vote.proof ∧ r.chosen = none ∧ r.isElector v := by
  unfold judge at h
  split at h
  · cases h
  · split at h
    · cases h
    · rename_i hge
      split at h
      · cases h
      · rename_i hle
        rw [not_or, Bool.not_eq_true', Bool.not_eq_false] at hle
        split at h
        · cases h
        · rename_i hc
          split at h
          · rename_i he
            exact ⟨Nat.le_antisymm (Nat.le_of_not_lt hle.1) (Nat.le_of_not_lt hge), hle.2,
              Option.not_isSome_iff_eq_none.mp hc, he⟩
          · cases h

/-- The store may be replaced if nothing pending gets lost and nothing remembered gets in. -/
theorem WellFormed.withStore (h : r.WellFormed) {store : EventStore} (hw : store.WellFormed)
    (hs : ∀ {p}, r.store.contains p → store.contains p)
    (hf : ∀ {p}, store.contains p → r.finalized.contains p = false) :
    ({ r with store := store } : Replica).WellFormed :=
  { h with
    store := hw
    announced := fun ha => hs (h.announced ha)
    ballots := fun hb => ⟨(h.ballots hb).1, hs (h.ballots hb).2⟩
    voted := fun hb => ⟨hs (h.voted hb).1, (h.voted hb).2⟩
    decided := fun hd => ⟨(h.decided hd).1, hs (h.decided hd).2⟩
    fresh := hf }

/-- What changes a pending event in place does not change what is pending. -/
theorem WellFormed.update (h : r.WellFormed) (proof : Proof) {change : Event → Event}
    (hc : ∀ e, (change e).proof = e.proof) :
    ({ r with store := r.store.update proof change } : Replica).WellFormed :=
  h.withStore (h.store.update proof hc) (EventStore.contains_update ..).trans
    fun hs => h.fresh ((EventStore.contains_update ..).symm.trans hs)

/-- An event that is not remembered may be stored. -/
theorem WellFormed.insert (h : r.WellFormed) (event : Event)
    (hf : r.finalized.contains event.proof = false) :
    ({ r with store := (r.store.insert event).2 } : Replica).WellFormed :=
  h.withStore (h.store.insert event) (fun hp => (EventStore.contains_insert ..).mpr (Or.inr hp))
    fun hp => ((EventStore.contains_insert ..).mp hp).elim (fun hp => hp ▸ hf) h.fresh

theorem WellFormed.announce (h : r.WellFormed) {proof : Proof} (hs : r.store.contains proof) :
    ({ r with announced := r.announced.insert proof, electing := true } : Replica).WellFormed :=
  { h with
    announced := by
      intro p hp
      exact (contains_insert_iff.mp hp).elim (fun hp => hp ▸ hs) h.announced
    voted := fun hb => ⟨(h.voted hb).1, rfl, (h.voted hb).2.2⟩ }

theorem WellFormed.erase_held (h : r.WellFormed) (v : NodeId) :
    ({ r with held := r.held.erase v } : Replica).WellFormed :=
  { h with
    held := by
      intro u vote hu
      rw [getElem?_erase_eq] at hu
      split at hu
      · cases hu
      · exact h.held hu }

theorem WellFormed.hold (h : r.WellFormed) {v : NodeId} (vote : HeldVote)
    (hv : r.peers.contains v) : (r.hold v vote).WellFormed := by
  have hi : ({ r with held := r.held.insert v vote } : Replica).WellFormed :=
    { h with
      held := by
        intro u vote' hu
        rw [getElem?_insert_eq] at hu
        split at hu
        · rename_i he
          exact he ▸ hv
        · exact h.held hu }
  unfold Replica.hold
  split
  · split
    · exact h
    · exact hi
  · exact hi

/-- Recording a ballot keeps the state well-formed: of a member other than this one, or of this one
when it casts its vote. -/
theorem WellFormed.countBallot (h : r.WellFormed) {v : NodeId} {vote : HeldVote}
    (hs : r.store.contains vote.proof) (hv : r.peers.contains v) :
    (r.countBallot v vote).WellFormed := by
  have hne : v ≠ r.localId := by
    rintro rfl
    rw [h.self] at hv
    cases hv
  have hu : ({ r with store := r.store.update vote.proof (·.recordBallot v vote.signature) } :
    Replica).WellFormed := h.update vote.proof fun _ => rfl
  -- the ballot is another member's, so the own one stays where it is
  exact { hu with
    ballots := by
      intro u p hp
      rw [show (r.countBallot v vote).ballots = r.ballots.insert v vote.proof from rfl,
        getElem?_insert_eq] at hp
      split at hp
      · rename_i he
        subst he
        exact ⟨Or.inr hv, Option.some.inj hp ▸ (EventStore.contains_update ..).trans hs⟩
      · exact hu.ballots hp
    voted := by
      intro p hp
      refine ⟨(hu.voted hp).1, (hu.voted hp).2.1, fun hc => ?_⟩
      show (r.ballots.insert v vote.proof)[r.localId]? = some p
      rw [getElem?_insert_eq, if_neg hne]
      exact (h.voted hp).2.2 hc }

theorem WellFormed.cast (h : r.WellFormed) {p : Proof} (signature : Bytes)
    (hs : r.store.contains p) :
    ({ r.countBallot r.localId ⟨r.rounds, signature, p⟩ with
      ballot := some p, electing := true } : Replica).WellFormed := by
  have hu : ({ r with store := r.store.update p (·.recordBallot r.localId signature) } :
    Replica).WellFormed := h.update p fun _ => rfl
  have hc : (r.store.update p (·.recordBallot r.localId signature)).contains p :=
    (EventStore.contains_update ..).trans hs
  exact { hu with
    ballots := by
      intro u q hq
      simp only [Replica.countBallot, getElem?_insert_eq] at hq
      split at hq
      · rename_i he
        exact ⟨Or.inl he.symm, Option.some.inj hq ▸ hc⟩
      · exact hu.ballots hq
    voted := by
      intro q hq
      obtain rfl := Option.some.inj hq
      exact ⟨hc, rfl, fun _ => Std.ExtTreeMap.getElem?_insert_self⟩
    decided := fun hd => ⟨rfl, (hu.decided hd).2⟩ }

/-- Closing a round leaves nothing of it behind. -/
theorem WellFormed.closeRound (h : r.WellFormed) (chosen : Proof) :
    (r.closeRound chosen).WellFormed where
  store := h.store.remove chosen
  self := h.self
  announced := by
    intro p hp
    rw [show (r.closeRound chosen).announced = r.announced.erase chosen from rfl,
      contains_erase_iff] at hp
    exact (EventStore.contains_remove ..).mpr ⟨hp.1, h.announced hp.2⟩
  ballots hb := by simp [Replica.closeRound, clearRound] at hb
  voted hb := by simp [Replica.closeRound, clearRound] at hb
  decided hd := by simp [Replica.closeRound, clearRound] at hd
  fresh := by
    -- the winner is remembered from now on, and it is the one event that is taken out
    intro p hp
    obtain ⟨hne, hp⟩ := (EventStore.contains_remove ..).mp hp
    rw [← Bool.not_eq_true]
    intro hf
    rcases RecentProofs.contains_of_remember hf with rfl | hf
    · exact hne rfl
    · rw [h.fresh hp] at hf
      cases hf
  held := h.held
  ready hv := by simp [Replica.closeRound, clearRound] at hv
  lateJoiners := h.lateJoiners
  sittingOut hv := by simp [Replica.closeRound, clearRound] at hv

theorem WellFormed.electing (h : r.WellFormed) (hb : r.ballot = none) (electing : Bool) :
    ({ r with electing := electing } : Replica).WellFormed :=
  { h with
    voted := fun hv => by rw [hb] at hv; cases hv }

/-- Every reaction keeps the fields in agreement. -/
theorem WellFormed.reaction {heard : NodeId → Packet → Prop} {o : Outcome} (h : r.WellFormed)
    (hr : Reaction heard r o) : o.replica.WellFormed := by
  cases hr with
  | store _ _ _ hf _ => exact h.insert _ hf
  | acknowledge _ _ _ _ => exact h
  | noteAck _ _ _ _ => exact h.update _ fun _ => rfl
  | announceOwn he _ _ _ => exact h.announce (EventStore.contains_of_get? he)
  | announceHeard _ _ hs _ => exact h.announce hs
  | hold _ hv _ => exact h.hold _ hv
  | count _ hv hj => exact h.countBallot (judge_count hj).2.1 hv
  | release hv hj => exact (h.countBallot (judge_count hj).2.1 (h.held hv)).erase_held _
  | discard _ _ => exact h.erase_held _
  | dropStale =>
      refine { h with held := ?_ }
      intro v vote hv
      exact h.held (getElem?_filter_eq_some.mp hv).1
  | cast _ _ _ he => exact h.cast _ (EventStore.contains_of_get? he)
  | commit hc hb hv hw =>
      -- somebody has voted for the winner, so it is pending
      obtain ⟨v, hp⟩ := exists_ballot_of_tally hw
      refine { h with ballots := ?_, voted := ?_, decided := ?_ }
      · intro u q hq
        simp at hq
      · intro q hq
        exact ⟨(h.voted hq).1, (h.voted hq).2.1, fun hn => by cases hn⟩
      · intro q hq
        exact ⟨hb, Option.some.inj hq ▸ (h.ballots (getElem?_filter_eq_some.mp hp).1).2⟩
  | ready _ hv =>
      refine { h with ready := ?_ }
      intro u hu
      exact (contains_insert_iff.mp hu).elim (fun hu => hu ▸ hv) h.ready
  | close _ _ => exact { h.closeRound _ with }
  | schedule hb hc =>
      obtain ⟨electing, quiet, hs⟩ := scheduleElection_eq r
      rw [hs]
      exact h.electing hb electing
  | absorb _ => exact { h with }

/-! ### What the state says about the past -/

/-- The state tells which of the committed events are closed, that is all but the winner of a round
in progress, and remembers the latest of them. -/
def Records (r : Replica) (log : List Event) : Prop :=
  ∃ closed : List Proof, log.map (·.proof) = closed ++ r.chosen.toList ∧
    r.finalized.proofs = closed.reverse.take RecentProofs.capacity

theorem records_fresh (localId : NodeId) (shardId : ShardId) :
    (fresh localId shardId).Records [] :=
  ⟨[], rfl, rfl⟩

theorem Records.congr {r' : Replica} {log : List Event} (h : r.Records log)
    (hc : r'.chosen = r.chosen) (hf : r'.finalized = r.finalized) : r'.Records log := by
  unfold Records
  rw [hc, hf]
  exact h

/-- A winner is pending, so what is committed is an event with its proof. -/
theorem exists_winner_event (hw : r.WellFormed) {winner : Proof}
    (ht : tally (r.ballots.filter fun voter _ => r.isElector voter) = some winner) :
    ∃ event, r.store.get? winner = some event ∧ event.proof = winner := by
  obtain ⟨v, hv⟩ := exists_ballot_of_tally ht
  obtain ⟨event, he⟩ := EventStore.contains_iff.mp
    (hw.ballots (getElem?_filter_eq_some.mp hv).1).2
  exact ⟨event, he, hw.store.keyed he⟩

theorem committed_commit {event : Event} (he : r.store.get? event.proof = some event) :
    ((r.store.get? event.proof).elim ∅ Effects.commit ++
      if r.isAlone then ∅ else Effects.broadcast (.electorReady r.rounds)).committed = [event] := by
  rw [he]
  split <;> rfl

/-- What a change does to the winner, the remembered proofs and the committed events. -/
inductive Bookkeeping (r : Replica) (o : Outcome) : Prop where
  | none : o.effects.committed = [] → o.replica.chosen = r.chosen →
      o.replica.finalized = r.finalized → Bookkeeping r o
  /-- A pending event wins and is committed. -/
  | commit {event : Event} : r.chosen = .none → r.store.get? event.proof = some event →
      o.effects.committed = [event] → o.replica.chosen = some event.proof →
      o.replica.finalized = r.finalized → Bookkeeping r o
  | close {chosen : Proof} : r.chosen = some chosen → o.effects.committed = [] →
      o.replica.chosen = .none → o.replica.finalized = r.finalized.remember chosen →
      Bookkeeping r o

theorem Bookkeeping.reaction {heard : NodeId → Packet → Prop} {o : Outcome} (hw : r.WellFormed)
    (hr : Reaction heard r o) : Bookkeeping r o := by
  cases hr with
  | commit hc hb hv ht =>
      obtain ⟨event, he, rfl⟩ := exists_winner_event hw ht
      exact .commit hc he (committed_commit he) rfl rfl
  | close hc _ => exact .close hc rfl rfl rfl
  | announceOwn _ _ _ _ => exact .none (by dsimp only; split <;> split <;> rfl) rfl rfl
  | announceHeard _ _ _ _ => exact .none (by dsimp only; split <;> rfl) rfl rfl
  | cast _ _ _ _ => exact .none (by dsimp only; split <;> rfl) rfl rfl
  | schedule _ _ =>
      obtain ⟨electing, quiet, hs⟩ := scheduleElection_eq r
      rw [hs]
      exact .none (by dsimp only; split <;> rfl) rfl rfl
  | @hold voter vote _ _ _ =>
      obtain ⟨held, hh, -⟩ := hold_eq r voter vote
      rw [hh]
      exact .none rfl rfl rfl
  | _ => exact .none rfl rfl rfl

/-- Whatever a change does, the records follow. -/
theorem Records.keep {log : List Event} {o : Outcome} (h : r.Records log) (hw : r.WellFormed)
    (hb : Bookkeeping r o) : o.replica.Records (log ++ o.effects.committed) := by
  obtain ⟨closed, hl, hf⟩ := h
  cases hb with
  | none he hc hn =>
      refine ⟨closed, ?_, hn ▸ hf⟩
      rw [he, List.append_nil, hc, hl]
  | commit hc _ he hw hn =>
      refine ⟨closed, ?_, hn ▸ hf⟩
      rw [he, List.map_append, hl, hc, hw]
      simp
  | @close chosen hc he hn hr =>
      -- the winner, not remembered so far, goes to the front and may push the oldest one out
      refine ⟨closed ++ [chosen], ?_, ?_⟩
      · rw [he, List.append_nil, hl, hc, hn]
        exact (List.append_nil _).symm
      · rw [hr, RecentProofs.proofs_remember (hw.fresh (hw.decided hc).2), hf, List.reverse_append,
          List.reverse_singleton, List.singleton_append]
        show (chosen :: closed.reverse.take 4096).take 4096 = (chosen :: closed.reverse).take 4096
        rw [List.take_succ_cons, List.take_succ_cons, List.take_take]
        rfl

end Replica

end ShardGossip

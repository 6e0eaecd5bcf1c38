import ShardGossip.Proofs.WellFormed

/-!
# ShardGossip.Proofs.Reconfiguration

**What changes a shard's membership or its queue.** Next to the reactions of a settled shard a
member may gain and lose peers, jump to a later round, and take over a foreign queue.
`Reconfiguration` lists these changes, `Change` has both kinds, and everything a member can be asked
for is a sequence of changes. Well-formedness and records survive them too.
-/

namespace ShardGossip

/-- A single change that a settled shard does not see. -/
inductive Reconfiguration : Replica → Outcome → Prop where
  /-- A peer takes part from now on. -/
  | enlist {r : Replica} {id : NodeId} :
      id ≠ r.localId → Reconfiguration r (.silent { r with peers := r.peers.insert id })
  /-- A peer has joined late and sits out the round in progress. -/
  | enlistLate {r : Replica} {id : NodeId} :
      id ≠ r.localId →
      Reconfiguration r (.silent { r with
        peers := r.peers.insert id
        lateJoiners := r.lateJoiners.insert id
        sittingOut := r.sittingOut.insert id })
  | forget {r : Replica} {id : NodeId} :
      r.peers.contains id → Reconfiguration r (.silent (r.forget id))
  /-- A late peer has been brought up to date. -/
  | synced {r : Replica} (id : NodeId) :
      Reconfiguration r (.silent { r with lateJoiners := r.lateJoiners.erase id })
  | jump {r : Replica} (round : Nat) : Reconfiguration r (.silent (r.fastForward round))
  | adopt {r : Replica} {events : List Event} (update : Replica.QueueUpdate) (signer : Signer) :
      (∀ e ∈ events, r.finalized.contains e.proof = false) →
      Reconfiguration r (.silent (r.storeForeign events update signer))
  | announceForeign {r : Replica} {proof : Proof} :
      r.store.contains proof → r.announced.contains proof = false →
      Reconfiguration r
        ⟨{ r with announced := r.announced.insert proof, electing := true },
          if r.electing then ∅ else .wakeUp⟩
  | tell {r : Replica} {effects : Effects} : effects.committed = [] → Reconfiguration r ⟨r, effects⟩

/-- A single change of a member's state. -/
inductive Change (heard : NodeId → Packet → Prop) (r : Replica) (o : Outcome) : Prop where
  | settled : Reaction heard r o → Change heard r o
  | reconfiguration : Reconfiguration r o → Change heard r o

namespace Replica

variable {heard : NodeId → Packet → Prop} {r : Replica}

theorem changes_of_reactions {o : Outcome} (h : Steps (Reaction heard) r o) :
    Steps (Change heard) r o :=
  h.mono .settled

/-! ### Peers -/

theorem addPeer_steps (r : Replica) (id : NodeId) :
    Steps (Change heard) r (.silent (r.addPeer id).2) := by
  unfold addPeer
  split
  · exact .done r
  · rename_i h
    exact .single (.reconfiguration (.enlist fun hi => h (Or.inl hi)))

theorem reevaluate_sequels (r : Replica) : Steps Sequel r r.reevaluate := by
  refine Steps.andThen (Steps.andThen ?_ (tryTally_sequels _)) (tryClose_sequels _)
  refine Steps.each (P := fun _ => True) ?_ (.done r) trivial
  exact fun r _ proof _ => ⟨checkAckQuorum_sequels r proof, trivial⟩

theorem reevaluate_steps (r : Replica) : Steps (Change heard) r r.reevaluate :=
  changes_of_reactions ((reevaluate_sequels r).mono Sequel.reaction)

theorem removePeer_steps (r : Replica) (id : NodeId) :
    Steps (Change heard) r (r.removePeer id) := by
  unfold removePeer
  split
  · rename_i h
    exact Steps.after (.reconfiguration (.forget h)) (reevaluate_steps _)
  · exact .done r

theorem join_steps {history : Bool} {id : NodeId} (h : id ≠ r.localId) :
    Steps (Change heard) r (.silent (join history r id)) := by
  unfold join
  split
  · exact .done r
  · split
    · exact .single (.reconfiguration (.enlistLate h))
    · exact .single (.reconfiguration (.enlist h))

@[simp] theorem localId_join (history : Bool) (id : NodeId) :
    (join history r id).localId = r.localId := by
  unfold join
  split
  · rfl
  · split <;> rfl

theorem foldl_join_steps (history : Bool) {ids : List NodeId} (h : r.localId ∉ ids) :
    Steps (Change heard) r (.silent (ids.foldl (join history) r)) := by
  induction ids generalizing r with
  | nil => exact .done r
  | cons id rest ih =>
      rw [List.mem_cons, not_or] at h
      have hr : (join history r id).localId ∉ rest := by
        rw [localId_join]
        exact h.2
      exact (join_steps (Ne.symm h.1)).trans (ih hr)

theorem setMembers_steps (r : Replica) (members : List NodeId) :
    Steps (Change heard) r (r.setMembers members) := by
  unfold setMembers
  refine Steps.each (P := fun _ => True) ?_ (foldl_join_steps _ ?_) trivial
  · exact fun r _ id _ => ⟨removePeer_steps r id, trivial⟩
  · rw [mem_toList_iff, contains_foldl_insert]
    simp

theorem takeSyncFor_steps (r : Replica) (peer : NodeId) :
    Steps (Change heard) r (.silent (r.takeSyncFor peer).2) := by
  unfold takeSyncFor
  split
  · exact .done r
  · exact .single (.reconfiguration (.synced peer))

/-! ### Foreign queues -/

@[simp] theorem store_announce (r : Replica) (proof : Proof) :
    (r.announce proof).replica.store = r.store := by
  obtain ⟨announced, electing, quiet, he⟩ := r.announce_eq proof
  rw [he]

theorem announceAll_steps {proofs : List Proof} (h : ∀ p ∈ proofs, r.store.contains p) :
    Steps (Change heard) r ((Outcome.silent r).each announce proofs) := by
  refine Steps.each (P := fun r => ∀ p ∈ proofs, r.store.contains p) ?_ (.done r) h
  intro r hr p hp
  refine ⟨?_, by rw [store_announce]; exact hr⟩
  by_cases ha : r.announced.contains p
  · rw [announce_of_contains ha]
    exact .done r
  · rw [Bool.not_eq_true] at ha
    rw [announce_of_new ha]
    exact .single (.reconfiguration (.announceForeign (hr p hp) ha))

/-- Signing the new events moves nothing. -/
theorem contains_storeForeign (r : Replica) (events : List Event) (update : QueueUpdate)
    (signer : Signer) (p : Proof) :
    (r.storeForeign events update signer).store.contains p ↔
      r.store.contains p ∨ p ∈ events.map (·.proof) := by
  unfold storeForeign
  cases update with
  | reorder =>
      rw [← EventStore.contains_replaceWith]
      exact Bool.eq_iff_iff.mp (EventStore.contains_foldl_update ..)
  | append =>
      rw [← EventStore.contains_append]
      exact Bool.eq_iff_iff.mp (EventStore.contains_foldl_update ..)

/-- Known events stay as they are; of several unknown ones with one proof the first is stored. -/
theorem get?_storeForeign (r : Replica) (events : List Event) (update : QueueUpdate)
    (signer : Signer) (p : Proof) :
    (r.storeForeign events update signer).store.get? p = (r.store.get? p).or
      ((events.find? (·.proof == p)).map (·.heldWith (signer.sign (Utf8.encode p)))) := by
  let sign (q : Proof) (e : Event) : Event := e.heldWith (signer.sign (Utf8.encode q))
  have hsign (q : Proof) (e : Event) : sign q (sign q e) = sign q e := rfl
  have signed {added : List Proof} {store : EventStore} (ha : added = r.store.unknown events)
      (hg : store.get? p = (r.store.get? p).or (events.find? (·.proof == p))) :
      (added.foldl (fun s q => s.update q (sign q)) store).get? p =
        (r.store.get? p).or ((events.find? (·.proof == p)).map (sign p)) := by
    rw [EventStore.get?_foldl_update hsign, hg, ha]
    simp only [EventStore.mem_unknown, EventStore.contains_eq_isSome]
    cases r.store.get? p with
    | some e => simp
    | none =>
        cases hf : events.find? (·.proof == p) with
        | none => simp
        | some e =>
            have hm : p ∈ events.map (·.proof) :=
              List.mem_map.mpr ⟨e, List.mem_of_find?_eq_some hf, by simpa using List.find?_some hf⟩
            rw [if_pos ⟨hm, rfl⟩]
            rfl
  unfold storeForeign
  cases update with
  | reorder => exact signed (r.store.added_replaceWith events) (EventStore.get?_replaceWith ..)
  | append => exact signed (r.store.append_unknown events).1 (EventStore.get?_append ..)

theorem store_storeForeign (hs : r.store.WellFormed) (events : List Event) (update : QueueUpdate)
    (signer : Signer) : (r.storeForeign events update signer).store.WellFormed := by
  have hc (p : Proof) (e : Event) :
      (e.heldWith (signer.sign (Utf8.encode p))).proof = e.proof := rfl
  unfold storeForeign
  cases update with
  | reorder => exact (hs.replaceWith events).foldl_update hc _
  | append => exact (hs.append events).foldl_update hc _

theorem adopt_steps (r : Replica) (events : List Event) (update : QueueUpdate) (signer : Signer) :
    Steps (Change heard) r (r.adopt events update signer) := by
  have hf : ∀ e ∈ events.filter (fun e => !r.finalized.contains e.proof),
      r.finalized.contains e.proof = false := by
    intro e he
    simpa using (List.mem_filter.mp he).2
  have hc : Change heard r (.silent (r.storeForeign _ update signer)) :=
    .reconfiguration (.adopt update signer hf)
  -- what was taken over is announced; ballots for it may have been waiting, and it may be voted for
  refine Steps.after hc ?_
  refine Steps.andThen (Steps.andThen ?_ (changes_of_reactions (replayHeld_steps _))) ?_
  · apply announceAll_steps
    intro p hp
    exact (contains_storeForeign ..).mpr (.inr hp)
  · unfold ensureElection
    split
    · exact .done _
    · exact changes_of_reactions (scheduleElection_steps _)

theorem tellAll_steps {o : Outcome} (h : Steps (Change heard) r o) (packet : Replica → Packet) :
    Steps (Change heard) r (o.tellAll packet) := by
  refine h.andThen (.single (.reconfiguration (.tell ?_)))
  split <;> rfl

theorem mergeEvents_steps (r : Replica) (events : List Event) (signer : Signer) :
    Steps (Change heard) r (r.mergeEvents events signer) :=
  tellAll_steps (r.adopt_steps _ .reorder signer) _

/-- A jump to a later round closes the round in progress if it is decided, and else drops it. -/
theorem fastForward_cases (r : Replica) (round : Nat) :
    r.fastForward round = r ∨ r.rounds < round ∧
      ((∃ chosen, r.chosen = some chosen ∧ r.fastForward round =
          { r.closeRound chosen with rounds := round, jumped := true, electing := false }) ∨
        r.chosen = none ∧ r.fastForward round =
          { r.clearRound with rounds := round, jumped := true, electing := false }) := by
  unfold fastForward
  split
  · exact .inl rfl
  · rename_i hr
    refine .inr ⟨Nat.lt_of_not_le hr, ?_⟩
    split
    · rename_i chosen hc
      exact .inl ⟨chosen, hc, rfl⟩
    · rename_i hc
      exact .inr ⟨hc, rfl⟩

theorem overwriteEvents_steps (r : Replica) (round : Nat) (events : List Event)
    (signer : Signer) : Steps (Change heard) r (r.overwriteEvents round events signer) :=
  Steps.after (.reconfiguration (.jump round))
    (adopt_steps _ events .append signer)

theorem retransmit_steps (r : Replica) (signer : Signer) :
    Steps (Change heard) r (r.retransmit signer) := by
  unfold retransmit
  split
  · exact .done r
  · exact .single (.reconfiguration (.tell rfl))

/-! ### Well-formedness and records -/

theorem WellFormed.fastForward (h : r.WellFormed) (round : Nat) :
    (r.fastForward round).WellFormed := by
  rcases r.fastForward_cases round with he | ⟨-, ⟨chosen, -, he⟩ | ⟨hc, he⟩⟩ <;> rw [he]
  · exact h
  · exact { (h.closeRound chosen).electing rfl false with }
  · exact { h with
      ballots := fun hb => by simp [clearRound] at hb
      voted := fun hv => by simp [clearRound] at hv
      decided := fun hd => by simp [clearRound, hc] at hd
      ready := fun hv => by simp [clearRound] at hv
      sittingOut := fun hv => by simp [clearRound] at hv }

theorem WellFormed.forget (h : r.WellFormed) {id : NodeId} (hp : r.peers.contains id) :
    (r.forget id).WellFormed := by
  have hne : id ≠ r.localId := by
    rintro rfl
    rw [h.self] at hp
    cases hp
  -- every set of members loses the one who leaves, so the others in it are peers still
  have keep {s : NodeSet} (hs : ∀ {v}, s.contains v → r.peers.contains v) {v : NodeId}
      (hv : (s.erase id).contains v) : (r.peers.erase id).contains v :=
    contains_erase_iff.mpr ⟨(contains_erase_iff.mp hv).1, hs (contains_erase_iff.mp hv).2⟩
  exact { h with
    self := by
      show (r.peers.erase id).contains r.localId = false
      rw [← Bool.not_eq_true, contains_erase_iff, h.self]
      exact fun hs => nomatch hs.2
    ballots := by
      intro v p hv
      rw [show (r.forget id).ballots = r.ballots.erase id from rfl, getElem?_erase_eq] at hv
      split at hv
      · cases hv
      · rename_i hi
        refine ⟨(h.ballots hv).1.imp_right fun hv => ?_, (h.ballots hv).2⟩
        exact contains_erase_iff.mpr ⟨hi, hv⟩
    voted := by
      intro p hb
      refine ⟨(h.voted hb).1, (h.voted hb).2.1, fun hc => ?_⟩
      show (r.ballots.erase id)[r.localId]? = some p
      rw [getElem?_erase_eq, if_neg hne]
      exact (h.voted hb).2.2 hc
    held := by
      intro v vote hv
      rw [show (r.forget id).held = r.held.erase id from rfl, getElem?_erase_eq] at hv
      split at hv
      · cases hv
      · rename_i hi
        exact contains_erase_iff.mpr ⟨hi, h.held hv⟩
    ready := keep h.ready
    lateJoiners := keep h.lateJoiners
    sittingOut := keep h.sittingOut }

theorem WellFormed.enlist (h : r.WellFormed) {id : NodeId} (hi : id ≠ r.localId) :
    ({ r with peers := r.peers.insert id } : Replica).WellFormed :=
  have more {v : NodeId} (hv : r.peers.contains v) : (r.peers.insert id).contains v :=
    contains_insert_iff.mpr (Or.inr hv)
  { h with
    self := by
      rw [← Bool.not_eq_true, contains_insert_iff, h.self]
      exact fun hs => hs.elim hi nofun
    ballots := fun hb => ⟨(h.ballots hb).1.imp_right more, (h.ballots hb).2⟩
    held := fun hv => more (h.held hv)
    ready := fun hv => more (h.ready hv)
    lateJoiners := fun hv => more (h.lateJoiners hv)
    sittingOut := fun hv => more (h.sittingOut hv) }

theorem WellFormed.reconfiguration {o : Outcome} (h : r.WellFormed) (hu : Reconfiguration r o) :
    o.replica.WellFormed := by
  cases hu with
  | enlist hi => exact h.enlist hi
  | enlistLate hi =>
      have he := h.enlist hi
      refine { he with lateJoiners := ?_, sittingOut := ?_ }
      · intro v hv
        exact contains_insert_iff.mpr ((contains_insert_iff.mp hv).imp_right h.lateJoiners)
      · intro v hv
        exact contains_insert_iff.mpr ((contains_insert_iff.mp hv).imp_right h.sittingOut)
  | forget hp => exact h.forget hp
  | synced id =>
      exact { h with lateJoiners := fun hv => h.lateJoiners (contains_erase_iff.mp hv).2 }
  | jump round => exact h.fastForward round
  | adopt update signer hf =>
      rename_i events
      have hc := contains_storeForeign r events update signer
      have hw := store_storeForeign h.store events update signer
      refine h.withStore hw (fun hp => (hc _).mpr (Or.inl hp)) fun hp => ?_
      rcases (hc _).mp hp with hp | hp
      · exact h.fresh hp
      · obtain ⟨e, he, rfl⟩ := List.mem_map.mp hp
        exact hf e he
  | announceForeign hs _ => exact h.announce hs
  | tell _ => exact h

theorem WellFormed.change {o : Outcome} (h : r.WellFormed) (hc : Change heard r o) :
    o.replica.WellFormed :=
  match hc with
  | .settled hr => h.reaction hr
  | .reconfiguration hu => h.reconfiguration hu

theorem WellFormed.changes {o : Outcome} (h : r.WellFormed) (hs : Steps (Change silence) r o) :
    o.replica.WellFormed :=
  hs.keep (P := WellFormed) WellFormed.change h

theorem Bookkeeping.reconfiguration {r : Replica} {o : Outcome} (hu : Reconfiguration r o) :
    Bookkeeping r o := by
  cases hu with
  | jump round =>
      rcases r.fastForward_cases round with he | ⟨-, ⟨chosen, hc, he⟩ | ⟨-, he⟩⟩ <;> rw [he]
      · exact .none rfl rfl rfl
      · exact .close hc rfl rfl rfl
      · exact .none rfl rfl rfl
  | announceForeign _ _ => exact .none (by dsimp only; split <;> rfl) rfl rfl
  | tell he => exact .none he rfl rfl
  | _ => exact .none rfl rfl rfl

theorem Bookkeeping.change {o : Outcome} (hw : r.WellFormed) (hc : Change heard r o) :
    Bookkeeping r o := by
  cases hc with
  | settled hr => exact .reaction hw hr
  | reconfiguration hu => exact .reconfiguration hu

end Replica

end ShardGossip

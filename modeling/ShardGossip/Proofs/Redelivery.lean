import ShardGossip.Proofs.BallotOrder
import ShardGossip.Proofs.OncePerVote

/-!
# ShardGossip.Proofs.Redelivery

**A packet that arrives twice is harmless** (`redelivery_harmless`). A member that has handled a
packet and gets it again is left as it was: it commits nothing, asks for no election and sends
nothing, but for the acknowledgement of a proposal, which may have got lost.

Much may have happened on account of the first one: ballots may have been counted, an event
committed, the round closed, and held-back ballots let in. So each kind of packet is caught by
something else the second time, and often by one of several things. Proposals and foreign queues
rely on two facts about all that can happen. What was known stays known, if not as pending then as
committed (`Recalls`); here it matters that no remembered proof has to give way. And no ballot is
left that could be let in (`Sifted`).
-/

namespace ShardGossip

namespace RecentProofs

variable {f : RecentProofs} {p q : Proof}

/-- With room for one more, nothing gives way. -/
theorem contains_remember (h : f.proofs.length < capacity) :
    (f.remember p).contains q ↔ q = p ∨ f.contains q := by
  have hl : (p :: f.proofs.filter (· ≠ p)).length ≤ capacity :=
    Nat.succ_le_of_lt (Nat.lt_of_le_of_lt (List.length_filter_le _ _) h)
  rw [contains_iff, contains_iff, remember, List.take_of_length_le hl, List.mem_cons,
    List.mem_filter, decide_eq_true_eq]
  by_cases hq : q = p <;> simp [hq]

theorem length_remember (f : RecentProofs) (p : Proof) :
    (f.remember p).proofs.length ≤ f.proofs.length + 1 :=
  Nat.le_trans (List.length_take_le' _ _) (Nat.succ_le_succ (List.length_filter_le _ _))

end RecentProofs

namespace Replica

variable {r r' r'' : Replica} {u v : NodeId} {vote : HeldVote} {others : List NodeId}
  {sender : NodeId} {signer : Signer} {o : Outcome}

/-! ### Nothing left to let in -/

/-- No held-back ballot is for a past round, and only those of some could be let in. -/
structure Sifted (others : List NodeId) (r : Replica) : Prop where
  current : ∀ ⦃v : NodeId⦄ ⦃vote : HeldVote⦄, r.held[v]? = some vote → r.rounds ≤ vote.round
  releasing : r.Releasing others

theorem Sifted.congr (h : r.Sifted others) (hh : r'.held = r.held) (hn : r'.rounds = r.rounds)
    (hs : ∀ p, r'.store.contains p = r.store.contains p) : r'.Sifted others where
  current v vote hv := by
    rw [hh] at hv
    rw [hn]
    exact h.current hv
  releasing v vote hv hr hp := by
    rw [hh] at hv
    rw [hn] at hr
    rw [hs] at hp
    exact h.releasing hv hr hp

theorem Sifted.mono (h : r.Sifted []) (others : List NodeId) : r.Sifted others :=
  ⟨h.current, h.releasing.mono (List.nil_subset others)⟩

theorem Sifted.erase (h : r.Sifted (v :: others)) :
    ({ r with held := r.held.erase v } : Replica).Sifted others where
  current u vote hu := by
    rw [getElem?_erase_eq] at hu
    split at hu
    · cases hu
    · exact h.current hu
  releasing := h.releasing.erase

theorem Sifted.hold (h : r.Sifted others) (hj : r.judge v vote = .hold) :
    (r.hold v vote).Sifted others := by
  have hv : r.rounds ≤ vote.round := by
    apply Nat.le_of_not_lt
    intro hlt
    rw [judge_past hlt] at hj
    cases hj
  refine ⟨fun u vote' hu => ?_, h.releasing.hold hj⟩
  obtain ⟨held, hh, hi⟩ := r.hold_eq v vote
  rw [hh] at hu ⊢
  rcases hi with rfl | rfl
  · exact h.current hu
  · rw [getElem?_insert_eq] at hu
    split at hu
    · exact Option.some.inj hu ▸ hv
    · exact h.current hu

theorem Sifted.countBallot (h : r.Sifted others) (v : NodeId) (vote : HeldVote) :
    (r.countBallot v vote).Sifted others :=
  h.congr rfl rfl fun _ => EventStore.contains_update ..

theorem Sifted.release (h : r.Sifted (v :: others)) : (r.release v).Sifted others := by
  unfold Replica.release
  split
  · unfold record
    split
    · exact h.erase
    · rename_i hj
      exact h.erase.hold hj
    · exact h.erase.countBallot v _
  · rename_i hv
    exact ⟨h.current, h.releasing.of_none hv⟩

theorem sifted_dropStale (r : Replica) : r.dropStale.Sifted r.dropStale.releasable where
  current _ _ hv := of_decide_eq_true (getElem?_filter_eq_some.mp hv).2
  releasing := releasing_dropStale r

theorem sifted_recordHeld (r : Replica) : r.recordHeld.Sifted [] := by
  have releases (voters : List NodeId) {r : Replica} (h : r.Sifted voters) :
      (voters.foldl Replica.release r).Sifted [] := by
    induction voters generalizing r with
    | nil => exact h
    | cons v rest ih => exact ih h.release
  exact releases _ (sifted_dropStale r)

theorem Sifted.scheduleElection (h : r.Sifted others) :
    r.scheduleElection.replica.Sifted others := by
  obtain ⟨electing, quiet, hs⟩ := r.scheduleElection_eq
  rw [hs]
  exact h.congr rfl rfl fun _ => rfl

theorem Sifted.ensureElection (h : r.Sifted others) : r.ensureElection.replica.Sifted others := by
  unfold Replica.ensureElection
  split
  · exact h
  · exact h.scheduleElection

/-- With a new round, whatever is for it is let in. -/
theorem Sifted.tryClose (h : r.Sifted others) : r.tryClose.replica.Sifted others := by
  rcases r.tryClose_cases with ⟨-, he⟩ | ⟨chosen, -, -, he⟩ <;> rw [he]
  · exact h
  · exact ((sifted_recordHeld _).mono others).scheduleElection

theorem Sifted.tryTally (h : r.Sifted others) : r.tryTally.replica.Sifted others := by
  rcases r.tryTally_cases with ⟨-, he⟩ | ⟨winner, -, -, -, -, he⟩ <;> rw [he]
  · exact h
  · refine Sifted.tryClose ?_
    exact h.congr rfl rfl fun _ => rfl

theorem Sifted.recordVote (h : r.Sifted others) (v : NodeId) (vote : HeldVote) :
    (r.recordVote v vote).replica.Sifted others := by
  unfold Replica.recordVote
  split
  · exact h
  · rename_i hj
    exact h.hold hj
  · exact (h.countBallot v vote).tryTally

theorem Sifted.replay (h : r.Sifted (v :: others)) : (r.replay v).replica.Sifted others := by
  unfold Replica.replay
  split
  · exact h.erase.recordVote v _
  · rename_i hv
    exact ⟨h.current, h.releasing.of_none hv⟩

/-- Letting ballots in leaves none that could be let in. -/
theorem sifted_replayHeld (r : Replica) : r.replayHeld.replica.Sifted [] := by
  have replays (voters : List NodeId) {o : Outcome} (h : o.replica.Sifted voters) :
      (o.each Replica.replay voters).replica.Sifted [] := by
    induction voters generalizing o with
    | nil => exact h
    | cons v rest ih => exact ih (o := o.andThen (·.replay v)) h.replay
  exact replays _ (o := .silent _) (sifted_dropStale r)

theorem replayHeld_of_sifted (h : r.Sifted []) : r.replayHeld = .silent r := by
  have hd : r.dropStale = r := by
    have hf : r.held.filter (fun _ vote => r.rounds ≤ vote.round) = r.held := by
      apply Std.ExtTreeMap.ext_getElem?
      intro v
      apply Option.ext
      intro vote
      rw [getElem?_filter_eq_some]
      exact ⟨And.left, fun hv => ⟨hv, decide_eq_true (h.current hv)⟩⟩
    unfold dropStale
    rw [hf]
  have hn : r.releasable = [] := by
    rw [List.eq_nil_iff_forall_not_mem]
    intro v hv
    obtain ⟨vote, hv, hr, hs⟩ := mem_releasable.mp hv
    exact List.not_mem_nil (h.releasing hv hr hs)
  unfold replayHeld
  rw [hd, hn]
  rfl

/-! ### Nothing known is lost -/

/-- A round can be closed without forgetting a proof, or there is none that could be closed. -/
def Roomy (r : Replica) : Prop :=
  r.finalized.proofs.length < RecentProofs.capacity ∨ r.ballot = none ∧ r.chosen = none

/-- What was pending is pending, and announced if it was, or it is remembered as committed. -/
structure Recalls (r r' : Replica) : Prop where
  finalized : ∀ ⦃p⦄, r.finalized.contains p → r'.finalized.contains p
  store : ∀ ⦃p⦄, r.store.contains p → r'.finalized.contains p ∨
    r'.store.contains p ∧ (r.announced.contains p → r'.announced.contains p)
  roomy : r'.Roomy

theorem Recalls.trans (h : r.Recalls r') (h' : r'.Recalls r'') : r.Recalls r'' where
  finalized _ hp := h'.finalized (h.finalized hp)
  store _ hp := by
    rcases h.store hp with hf | ⟨hs, ha⟩
    · exact .inl (h'.finalized hf)
    · exact (h'.store hs).imp_right fun ⟨hs', ha'⟩ => ⟨hs', fun hp => ha' (ha hp)⟩
  roomy := h'.roomy

/-- Pending events may come in, and may be announced. -/
theorem recalls_of_grow (hr : r'.Roomy) (hf : r'.finalized = r.finalized)
    (hs : ∀ p, r.store.contains p → r'.store.contains p)
    (ha : ∀ p, r.announced.contains p → r'.announced.contains p) : r.Recalls r' where
  finalized _ hp := hf ▸ hp
  store p hp := .inr ⟨hs p hp, ha p⟩
  roomy := hr

theorem Recalls.refl (h : r.Roomy) : r.Recalls r :=
  recalls_of_grow h rfl (fun _ => id) fun _ => id

theorem recalls_onlyBallots (h : r.Roomy) (hb : r.OnlyBallots r') : r.Recalls r' := by
  have hs := hb.contains
  obtain ⟨store, ballots, held, rfl, -⟩ := hb
  exact recalls_of_grow h rfl (fun p hp => (hs p).trans hp) fun _ => id

theorem recalls_closeRound (hk : r.finalized.proofs.length < RecentProofs.capacity)
    (chosen : Proof) : r.Recalls (r.closeRound chosen) where
  finalized _ hp := (RecentProofs.contains_remember hk).mpr (.inr hp)
  store p hp := by
    by_cases hc : p = chosen
    · exact .inl ((RecentProofs.contains_remember hk).mpr (.inl hc))
    · exact .inr ⟨(EventStore.contains_remove ..).mpr ⟨Ne.symm hc, hp⟩,
        fun ha => contains_erase_iff.mpr ⟨Ne.symm hc, ha⟩⟩
  roomy := .inr ⟨rfl, rfl⟩

theorem recalls_advance (h : r.Roomy) : r.Recalls r.advance :=
  recalls_of_grow h rfl (fun _ => id) fun _ => id

theorem recalls_scheduleElection (h : r.Roomy) : r.Recalls r.scheduleElection.replica := by
  obtain ⟨electing, quiet, hs⟩ := r.scheduleElection_eq
  rw [hs]
  exact recalls_of_grow h rfl (fun _ => id) fun _ => id

theorem recalls_tryClose (hk : r.finalized.proofs.length < RecentProofs.capacity) :
    r.Recalls r.tryClose.replica := by
  rcases r.tryClose_cases with ⟨-, he⟩ | ⟨chosen, -, -, he⟩ <;> rw [he]
  · exact .refl (.inl hk)
  · have hc := recalls_closeRound hk chosen
    have hn := hc.trans (recalls_advance hc.roomy)
    have hh := recalls_onlyBallots hn.roomy (recordHeld_rest _).1
    exact (hn.trans hh).trans (recalls_scheduleElection hh.roomy)

/-- A count is the only thing that may end a round, and there is none without the own vote. -/
theorem recalls_tryTally (h : r.Roomy) : r.Recalls r.tryTally.replica := by
  rcases r.tryTally_cases with ⟨-, he⟩ | ⟨winner, -, hb, -, -, he⟩ <;> rw [he]
  · exact .refl h
  · have hk := h.resolve_right fun hn => Option.isSome_iff_ne_none.mp hb hn.1
    have hc : r.Recalls { r with ballots := ∅, chosen := some winner } :=
      recalls_of_grow (.inl hk) rfl (fun _ => id) fun _ => id
    exact hc.trans (recalls_tryClose hk)

theorem recalls_recordVote (h : r.Roomy) (v : NodeId) (vote : HeldVote) :
    r.Recalls (r.recordVote v vote).replica := by
  unfold recordVote
  split
  · exact .refl h
  · obtain ⟨held, hh, -⟩ := r.hold_eq v vote
    rw [hh]
    exact recalls_onlyBallots h (onlyBallots_held held)
  · have hc := recalls_onlyBallots h (onlyBallots_countBallot r v vote)
    exact hc.trans (recalls_tryTally hc.roomy)

theorem recalls_replayHeld (h : r.Roomy) : r.Recalls r.replayHeld.replica := by
  refine keep_each (P := r.Recalls) (fun {r'} hr v => hr.trans ?_) _
    (recalls_onlyBallots h (onlyBallots_held _))
  unfold replay
  split
  · have he : r'.Recalls { r' with held := r'.held.erase v } :=
      recalls_onlyBallots hr.roomy (onlyBallots_held _)
    exact he.trans (recalls_recordVote he.roomy v _)
  · exact .refl hr.roomy

theorem recalls_fastForward (hk : r.finalized.proofs.length < RecentProofs.capacity)
    (round : Nat) : r.Recalls (r.fastForward round) := by
  rcases r.fastForward_cases round with he | ⟨-, ⟨chosen, -, he⟩ | ⟨hc, he⟩⟩ <;> rw [he]
  · exact .refl (.inl hk)
  · have hc := recalls_closeRound hk chosen
    exact hc.trans (recalls_of_grow hc.roomy rfl (fun _ => id) fun _ => id)
  · exact recalls_of_grow (.inl hk) rfl (fun _ => id) fun _ => id

theorem recalls_announce (h : r.Roomy) (proof : Proof) :
    r.Recalls (r.announce proof).replica := by
  by_cases ha : r.announced.contains proof
  · rw [announce_of_contains ha]
    exact .refl h
  · rw [Bool.not_eq_true] at ha
    rw [announce_of_new ha]
    exact recalls_of_grow h rfl (fun _ => id) fun p hp => contains_insert_iff.mpr (.inr hp)

/-! ### Each kind of packet once more -/

theorem hold_again (r : Replica) (v : NodeId) (vote : HeldVote) :
    (r.hold v vote).hold v vote = r.hold v vote := by
  obtain ⟨held, hh, rfl | rfl⟩ := r.hold_eq v vote
  · rw [hh]
    exact hh
  · have hv : (r.held.insert v vote)[v]? = some vote := Std.ExtTreeMap.getElem?_insert_self
    rw [hh, hold_eq_insert, hv, Option.elim_some, if_neg (Nat.lt_irrefl _), insert_of_getElem? hv]

theorem countBallot_again (r : Replica) (v : NodeId) (vote : HeldVote) :
    (r.countBallot v vote).countBallot v vote = r.countBallot v vote := by
  have hr (e : Event) : (e.recordBallot v vote.signature).recordBallot v vote.signature =
      e.recordBallot v vote.signature := by
    unfold Event.recordBallot
    rw [insert_of_getElem? Std.ExtTreeMap.getElem?_insert_self]
  unfold countBallot
  rw [EventStore.update_update _ _ hr, insert_of_getElem? Std.ExtTreeMap.getElem?_insert_self]

/-- A ballot that was counted counts no more than once; after it has led to a winner it is late, and
after it has ended the round it is for a past one. -/
theorem recordVote_again (hl : r.inLastRound = false) (v : NodeId) (vote : HeldVote) :
    (r.recordVote v vote).replica.recordVote v vote = .silent (r.recordVote v vote).replica := by
  cases hj : r.judge v vote with
  | ignore =>
      rw [recordVote_of_ignore hj]
      exact recordVote_of_ignore hj
  | hold =>
      have hh := hold_again r v vote
      obtain ⟨held, he, -⟩ := r.hold_eq v vote
      rw [recordVote_of_hold hj, Outcome.replica_silent]
      rw [recordVote_of_hold, hh]
      rw [he]
      exact hj
  | count =>
      obtain ⟨hn, hs, -, -⟩ := judge_count hj
      rw [recordVote_of_count hj]
      rcases (r.countBallot v vote).tryTally_cases with ⟨-, he⟩ | ⟨winner, -, -, -, -, he⟩
      · rw [he, Outcome.replica_silent, recordVote_of_count, countBallot_again, he]
        exact (judge_countBallot r v v vote vote).trans hj
      · rw [he, Outcome.replica_andThen]
        rcases (Outcome.replica _).tryClose_cases with ⟨-, he⟩ | ⟨chosen, hc, hq, -⟩
        · rw [he]
          refine recordVote_of_ignore ((judge_eq_ignore_iff _ v ?_).mpr (.inr ⟨?_, .inl rfl⟩))
          · exact hn
          · exact (EventStore.contains_update ..).trans hs
        · refine recordVote_past ?_
          rw [rounds_tryClose hc hq, nextRound_of_not_last]
          · exact Nat.lt_succ_of_le (Nat.le_of_eq hn)
          · exact hl

theorem checkAckQuorum_again (r : Replica) (proof : Proof) :
    ∃ announced electing, (r.checkAckQuorum proof).replica =
        { r with announced := announced, electing := electing } ∧
      (r.checkAckQuorum proof).replica.checkAckQuorum proof =
        .silent (r.checkAckQuorum proof).replica := by
  rcases r.checkAckQuorum_cases proof with ⟨he, -⟩ | ⟨event, hs, ho, -, -, he⟩
  · rw [he]
    exact ⟨_, _, rfl, he⟩
  · rw [he]
    refine ⟨_, _, rfl, ?_⟩
    -- now it is announced
    rcases checkAckQuorum_cases _ proof with ⟨he, -⟩ | ⟨_, -, -, hn, -⟩
    · exact he
    · exact absurd hn (by simp)

/-- An acknowledgement that is recorded need not be recorded. -/
theorem onAck_of_recorded {proof : Proof} (event : Event)
    (hf : r.finalized.contains proof = false) (hs : r.store.get? proof = some event)
    (ho : event.origin = r.localId) (hr : event.backedResponses.contains sender) :
    r.onAck sender proof = .ok (r.checkAckQuorum proof) := by
  have hu : r.store.update proof (·.recordAck sender) = r.store := by
    refine EventStore.update_of_get? hs ?_
    unfold Event.recordAck
    rw [insert_of_contains hr]
  unfold onAck
  rw [if_neg (Bool.eq_false_iff.mp hf), hs]
  dsimp only
  rw [if_neg (not_not_intro ho), hu]

theorem onAck_again {proof : Proof} (h : r.onAck sender proof = .ok o) :
    o.replica.onAck sender proof = .ok (.silent o.replica) := by
  cases hf : r.finalized.contains proof with
  | true =>
      rw [onAck, if_pos hf] at h
      cases h
      exact if_pos hf
  | false =>
      rw [onAck, if_neg (Bool.eq_false_iff.mp hf)] at h
      split at h
      · cases h
      · rename_i event hs
        split at h
        · cases h
        · rename_i ho
          cases h
          obtain ⟨announced, electing, he, hc⟩ := checkAckQuorum_again
            { r with store := r.store.update proof (·.recordAck sender) } proof
          rw [he] at hc ⊢
          refine (onAck_of_recorded (event.recordAck sender) ?_ ?_ ?_ ?_).trans
            (congrArg Except.ok hc)
          · exact hf
          · show (r.store.update proof _).get? proof = _
            rw [EventStore.get?_update, if_pos rfl, hs, Option.map_some]
          · exact Decidable.not_not.mp ho
          · exact Std.ExtTreeSet.contains_insert_self

theorem contains_announced_announce (r : Replica) (p q : Proof) :
    (r.announce p).replica.announced.contains q ↔ p = q ∨ r.announced.contains q := by
  by_cases ha : r.announced.contains p
  · rw [announce_of_contains ha]
    exact ⟨.inr, fun h => h.elim (fun he => he ▸ ha) id⟩
  · rw [Bool.not_eq_true] at ha
    rw [announce_of_new ha]
    exact contains_insert_iff

theorem onFinalize_again {proof : Proof} (h : r.onFinalize proof = .ok o) :
    o.replica.onFinalize proof = .ok (.silent o.replica) := by
  by_cases hf : r.finalized.contains proof
  · rw [onFinalize, if_pos hf] at h
    cases h
    exact if_pos hf
  · rw [onFinalize, if_neg hf] at h
    split at h
    · rename_i hs
      cases h
      have ha := (r.contains_announced_announce proof proof).mpr (.inl rfl)
      obtain ⟨announced, electing, quiet, he⟩ := r.announce_eq proof
      rw [he] at ha ⊢
      rw [onFinalize, if_neg hf, if_pos hs]
      exact congrArg Except.ok (announce_of_contains ha)
    · cases h

/-- A member that is noted as ready need not be noted. -/
theorem onElectorReady_of_noted {round : Nat} (hr : round = r.rounds)
    (hs : r.ready.contains sender) : r.onElectorReady sender round = r.tryClose := by
  unfold onElectorReady
  rw [if_pos hr, insert_of_contains hs]

theorem onElectorReady_again (r : Replica) (sender : NodeId) (round : Nat) :
    (r.onElectorReady sender round).replica.onElectorReady sender round =
      .silent (r.onElectorReady sender round).replica := by
  by_cases hr : round = r.rounds
  · have ho : r.onElectorReady sender round =
        ({ r with ready := r.ready.insert sender } : Replica).tryClose := if_pos hr
    rw [ho]
    rcases tryClose_cases { r with ready := r.ready.insert sender } with
      ⟨-, he⟩ | ⟨chosen, hc, hq, -⟩
    · rw [he]
      refine (onElectorReady_of_noted ?_ ?_).trans he
      · exact hr
      · exact Std.ExtTreeSet.contains_insert_self
    · refine if_neg ?_
      rw [rounds_tryClose hc hq, hr]
      exact (nextRound_ne _).symm
  · have ho : r.onElectorReady sender round = .silent r := if_neg hr
    rw [ho]
    exact ho

/-- A known proposal is acknowledged. -/
theorem onPropose_of_known {event : Event} (ho : event.origin = sender)
    (hp : r.finalized.contains event.proof ∨ r.store.contains event.proof) :
    r.onPropose sender event signer =
      .ok ((Outcome.mk r (.sendTo sender (.ack event.proof))).andThen replayHeld) := by
  unfold onPropose
  rw [if_neg (not_not_intro ho)]
  dsimp only
  rw [if_pos hp]

/-- A proposal is known the second time, as pending or as committed. -/
theorem onPropose_again {event : Event} (hk : r.finalized.proofs.length < RecentProofs.capacity)
    (h : r.onPropose sender event signer = .ok o) :
    o.replica.onPropose sender event signer =
      .ok ⟨o.replica, .sendTo sender (.ack event.proof)⟩ := by
  have again {r : Replica} (hr : r.Roomy)
      (hp : r.finalized.contains event.proof ∨ r.store.contains event.proof)
      (ho : event.origin = sender) : r.replayHeld.replica.onPropose sender event signer =
        .ok ⟨r.replayHeld.replica, .sendTo sender (.ack event.proof)⟩ := by
    have hc := recalls_replayHeld hr
    rw [onPropose_of_known ho (hp.elim (.inl <| hc.finalized ·) fun hp =>
      (hc.store hp).imp_right And.left)]
    exact congrArg Except.ok
      (Outcome.andThen_eq_self (replayHeld_of_sifted (sifted_replayHeld r)))
  unfold onPropose at h
  split at h
  · cases h
  · rename_i ho
    rw [Decidable.not_not] at ho
    cases h
    dsimp only [Outcome.replica_andThen]
    split
    · rename_i hp
      exact again (.inl hk) hp ho
    · exact again (.inl hk) (.inr ((EventStore.contains_insert ..).mpr (.inl rfl))) ho

/-! ### Foreign queues once more -/

/-- An election is asked for once. -/
theorem ensureElection_again (r : Replica) :
    r.ensureElection.replica.ensureElection = .silent r.ensureElection.replica := by
  by_cases he : r.electing
  · have hr : r.ensureElection = .silent r := if_pos he
    rw [hr]
    exact hr
  · have hr : r.ensureElection = r.scheduleElection := if_neg he
    rw [hr]
    by_cases hb : r.ballot.isSome ∨ r.chosen.isSome
    · have hs : r.scheduleElection = .silent r := if_pos hb
      rw [hs]
      exact hr.trans hs
    · by_cases hp : 0 < r.pendingElections
      · rw [scheduleElection, if_neg hb, if_pos hp]
        exact if_pos rfl
      · rw [scheduleElection, if_neg hb, if_neg hp]
        exact (if_neg Bool.false_ne_true).trans ((if_neg hb).trans (if_neg hp))

/-- What comes in stays in. -/
theorem recalls_storeForeign (h : r.Roomy) (events : List Event) (signer : Signer) :
    r.Recalls (r.storeForeign events .append signer) :=
  recalls_of_grow h rfl (fun _ hp => (contains_storeForeign ..).mpr (.inl hp)) fun _ => id

theorem recalls_ensureElection (h : r.Roomy) : r.Recalls r.ensureElection.replica := by
  unfold ensureElection
  split
  · exact .refl h
  · exact recalls_scheduleElection h

/-- Either it is remembered that a proof was committed, or its event is pending and may be voted
for. -/
def Adopted (r : Replica) (p : Proof) : Prop :=
  r.finalized.contains p ∨ r.store.contains p ∧ r.announced.contains p

theorem Recalls.adopted (h : r.Recalls r') {p : Proof} (hp : r.Adopted p) : r'.Adopted p :=
  hp.elim (fun hf => .inl (h.finalized hf)) fun ⟨hs, ha⟩ => (h.store hs).imp_right fun ⟨hs', ha'⟩ =>
    ⟨hs', ha' ha⟩

/-- Announcing pending events adopts them. -/
theorem announceAll_adopts (proofs : List Proof) {o : Outcome} (h : o.replica.Roomy)
    (hs : ∀ p ∈ proofs, o.replica.store.contains p) :
    o.replica.Recalls (o.each announce proofs).replica ∧
      ∀ p ∈ proofs, (o.each announce proofs).replica.Adopted p := by
  induction proofs generalizing o with
  | nil => exact ⟨.refl h, nofun⟩
  | cons q rest ih =>
      have hr := recalls_announce h q
      obtain ⟨hr', ha⟩ := ih (o := o.andThen (·.announce q)) hr.roomy fun p hp => by
        rw [Outcome.replica_andThen, store_announce]
        exact hs p (List.mem_cons_of_mem _ hp)
      refine ⟨hr.trans hr', List.forall_mem_cons.mpr ⟨hr'.adopted (.inr ⟨?_, ?_⟩), ha⟩⟩
      · rw [Outcome.replica_andThen, store_announce]
        exact hs q List.mem_cons_self
      · exact (contains_announced_announce ..).mpr (.inl rfl)

/-- After a queue was adopted, all of it is, nothing is forgotten, and there is nothing left to let
in or to ask for. -/
theorem adopt_adopts (h : r.Roomy) (events : List Event) (signer : Signer) :
    let r' := (r.adopt events .append signer).replica
    r.Recalls r' ∧ (∀ e ∈ events, r'.Adopted e.proof) ∧ r'.Sifted [] ∧
      r'.ensureElection = .silent r' := by
  intro r'
  let missing := events.filter fun e => !r.finalized.contains e.proof
  have hstored := recalls_storeForeign h missing signer
  obtain ⟨hannounced, hadopted⟩ := announceAll_adopts (missing.map (·.proof))
    (o := .silent (r.storeForeign missing .append signer)) hstored.roomy
    fun p hp => (contains_storeForeign ..).mpr (.inr hp)
  have hreplayed := recalls_replayHeld hannounced.roomy
  have hlast := hreplayed.trans (recalls_ensureElection hreplayed.roomy)
  have hall := (hstored.trans hannounced).trans hlast
  refine ⟨hall, fun e he => ?_, (sifted_replayHeld _).ensureElection, ensureElection_again _⟩
  by_cases hf : r.finalized.contains e.proof
  · exact .inl (hall.finalized hf)
  · refine hlast.adopted (hadopted _ (List.mem_map_of_mem (List.mem_filter.mpr ⟨he, ?_⟩)))
    rw [Bool.eq_false_iff.mpr hf]
    rfl

theorem storeForeign_of_contains {events : List Event}
    (h : ∀ e ∈ events, r.store.contains e.proof) : r.storeForeign events .append signer = r := by
  unfold storeForeign
  dsimp only
  rw [EventStore.append_of_contains h]
  rfl

theorem announceAll_of_announced {proofs : List Proof}
    (h : ∀ p ∈ proofs, r.announced.contains p) :
    (Outcome.silent r).each announce proofs = .silent r := by
  induction proofs with
  | nil => rfl
  | cons q rest ih =>
      have hq := announce_of_contains (h q List.mem_cons_self)
      show ((Outcome.silent r).andThen (·.announce q)).each announce rest = _
      rw [Outcome.silent_andThen, hq]
      exact ih fun p hp => h p (List.mem_cons_of_mem _ hp)

/-- A queue that is adopted already changes nothing. -/
theorem adopt_of_adopted {events : List Event} (he : ∀ e ∈ events, r.Adopted e.proof)
    (hs : r.Sifted []) (hw : r.ensureElection = .silent r) (signer : Signer) :
    r.adopt events .append signer = .silent r := by
  have hmissing : ∀ e ∈ events.filter (fun e => !r.finalized.contains e.proof),
      r.store.contains e.proof ∧ r.announced.contains e.proof := by
    intro e hm
    obtain ⟨hm, hf⟩ := List.mem_filter.mp hm
    rw [Bool.not_eq_true'] at hf
    exact (he e hm).resolve_left (Bool.eq_false_iff.mp hf)
  unfold adopt
  dsimp only
  rw [storeForeign_of_contains fun e hm => (hmissing e hm).1,
    announceAll_of_announced fun p hp => ?_, Outcome.silent_andThen, replayHeld_of_sifted hs,
    Outcome.silent_andThen, hw]
  obtain ⟨e, hm, rfl⟩ := List.mem_map.mp hp
  exact (hmissing e hm).2

theorem overwriteEvents_again (hk : r.finalized.proofs.length < RecentProofs.capacity)
    (hl : r.inLastRound = false) (round : Nat) (events : List Event) (signer : Signer) :
    (r.overwriteEvents round events signer).replica.overwriteEvents round events signer =
      .silent (r.overwriteEvents round events signer).replica := by
  obtain ⟨-, he, hs, hw⟩ := adopt_adopts (recalls_fastForward hk round).roomy events signer
  have hr := round_le_overwriteEvents hl round events signer
  unfold overwriteEvents at hr ⊢
  rw [fastForward_of_le hr]
  exact adopt_of_adopted he hs hw signer

/-! ### Whatever the packet -/

theorem remembered_le_change {heard : NodeId → Packet → Prop} (hc : Change heard r o)
    (h : r.laps = 0 → r.finalized.proofs.length ≤ r.rounds) :
    o.replica.laps = 0 → o.replica.finalized.proofs.length ≤ o.replica.rounds := by
  cases hc with
  | settled hr =>
      cases hr with
      | @close chosen _ _ =>
          intro hn
          have hl : r.laps = 0 :=
            Nat.le_zero.mp (Nat.le_trans (before_close r chosen).laps_le (Nat.le_of_eq hn))
          rw [Outcome.replica_silent, rounds_advance (r := r.closeRound chosen) (hn.trans hl.symm)]
          exact Nat.le_trans (r.finalized.length_remember _) (Nat.succ_le_succ (h hl))
      | @hold voter vote _ _ _ =>
          obtain ⟨held, hh, -⟩ := r.hold_eq voter vote
          rw [hh]
          exact h
      | schedule _ _ =>
          obtain ⟨electing, quiet, hs⟩ := r.scheduleElection_eq
          rw [hs]
          exact h
      | _ => exact h
  | reconfiguration hu =>
      cases hu with
      | jump round =>
          rw [Outcome.replica_silent]
          rcases r.fastForward_cases round with he | ⟨hr, ⟨chosen, -, he⟩ | ⟨-, he⟩⟩ <;> rw [he]
          · exact h
          · exact fun hn =>
              Nat.le_trans (r.finalized.length_remember _) (Nat.lt_of_le_of_lt (h hn) hr)
          · exact fun hn => Nat.le_of_lt (Nat.lt_of_le_of_lt (h hn) hr)
      | adopt update signer _ =>
          rw [Outcome.replica_silent]
          unfold storeForeign
          cases update <;> exact h
      | _ => exact h

/-- A proof is remembered only for a round that was closed. -/
theorem remembered_le_rounds (l : NodeId) (s : ShardId) (operations : List Operation)
    (h : (after l s operations).laps = 0) :
    (after l s operations).finalized.proofs.length ≤ (after l s operations).rounds := by
  refine (after_keeps (P := fun r => r.laps = 0 → r.finalized.proofs.length ≤ r.rounds)
    (fun _ => Nat.le_refl 0) ?_ operations).2 h
  intro r op hg h
  refine perform_keeps hg.store op (fun _ _ _ _ _ => trivial)
    (fun hp => ?_) fun h hc => remembered_le_change hc h
  cases hp <;> exact h

theorem not_last_of_lt (h : r.rounds < 4096) : r.inLastRound = false := by
  have hn : r.rounds + 1 ≠ roundNumbers :=
    Nat.ne_of_lt (Nat.lt_of_le_of_lt h (by decide))
  rw [inLastRound, beq_false_of_ne hn, Bool.and_false]

/-- What is sent when a packet arrives once more. -/
def echo (sender : NodeId) : Packet → Effects
  | .propose _ event => .sendTo sender (.ack event.proof)
  | _ => ∅

/-- **A packet that arrives twice is harmless.** If a member accepts a packet, and if it remembers
fewer than 4096 committed proofs, as it does until it has closed as many rounds
(`remembered_le_rounds`), then it accepts the same packet again right afterwards, its state stays as
it is, and all that it asks for is to acknowledge a proposal again. Only transactions that are
handed over are taken in twice. The one round that this is not said of is the one with the last of
all numbers, which is far behind those of the first 4096 (`not_last_of_lt`): a ballot that ends it
is for a later round afterwards. -/
theorem redelivery_harmless {packet : Packet} (hk : r.finalized.proofs.length < 4096)
    (hlast : r.inLastRound = false)
    (hp : ∀ transactions, packet ≠ .appendTransactions transactions)
    (h : r.onPacket sender packet signer = .ok o) :
    o.replica.onPacket sender packet signer = .ok ⟨o.replica, echo sender packet⟩ := by
  have hs := contains_of_onPacket h
  have hs' : o.replica.peers.contains sender := (goesOn_onPacket h).peers ▸ hs
  unfold onPacket at h ⊢
  rw [hs] at h
  rw [hs']
  cases packet with
  | propose signature event => exact onPropose_again hk h
  | ack proof => exact onAck_again h
  | finalize proof => exact onFinalize_again h
  | vote round signature proof =>
      cases h
      exact congrArg Except.ok (recordVote_again hlast sender ⟨round, signature, proof⟩)
  | electorReady round =>
      cases h
      exact congrArg Except.ok (onElectorReady_again r sender round)
  | overwriteEvents round events =>
      cases h
      exact congrArg Except.ok (overwriteEvents_again hk hlast round events signer)
  | appendTransactions transactions => exact absurd rfl (hp transactions)
  | hello node shard => cases h
  | received => cases h

/-- A proposal lets in the ballot for it, which is the last one; so it is committed, and as everyone
else is ready, the round is over. The second time it is known as committed. -/
theorem redelivery_harmless_of_winner :
    let r := after ⟨"a"⟩ ⟨0⟩ <| List.map (fun input => .request (.serve input)) [
      .setMembers [⟨"a"⟩, ⟨"b"⟩],
      .submit ⟨"x", [1], none⟩,
      .sealEvent 5 (.labelled ⟨"a"⟩),
      .packet ⟨"b"⟩ (.ack "5-a") (.labelled ⟨"a"⟩),
      .elect,
      .packet ⟨"b"⟩ (.electorReady 0) (.labelled ⟨"a"⟩),
      .packet ⟨"b"⟩ (.vote 0 [] "4-b") (.labelled ⟨"a"⟩)]
    let packet := Packet.propose [] (.sealed ⟨"b"⟩ 4 [])
    ∃ o, r.onPacket ⟨"b"⟩ packet (.labelled ⟨"a"⟩) = .ok o ∧
      o.effects.committed.map (·.proof) = ["4-b"] ∧ o.replica.rounds = 1 ∧
      o.replica.onPacket ⟨"b"⟩ packet (.labelled ⟨"a"⟩) =
        .ok ⟨o.replica, .sendTo ⟨"b"⟩ (.ack "4-b")⟩ := by
  intro r packet
  have hfirst : (r.onPacket ⟨"b"⟩ packet (.labelled ⟨"a"⟩)).toOption.map (fun o =>
      (o.effects.committed.map (·.proof), o.replica.rounds)) = some (["4-b"], 1) := by
    decide +kernel
  have hecho : echo ⟨"b"⟩ packet = .sendTo ⟨"b"⟩ (.ack "4-b") := by decide +kernel
  have hr : r.rounds < 4096 := by decide +kernel
  have hremembered : r.finalized.proofs.length < 4096 :=
    Nat.lt_of_le_of_lt (remembered_le_rounds _ _ _ (by decide +kernel)) hr
  cases h : r.onPacket ⟨"b"⟩ packet (.labelled ⟨"a"⟩) with
  | error _ =>
      rw [h] at hfirst
      cases hfirst
  | ok o =>
      rw [h] at hfirst
      obtain ⟨hc, hn⟩ := Prod.mk.inj (Option.some.inj hfirst)
      exact ⟨o, rfl, hc, hn, hecho ▸ redelivery_harmless hremembered (not_last_of_lt hr) nofun h⟩

end Replica

end ShardGossip

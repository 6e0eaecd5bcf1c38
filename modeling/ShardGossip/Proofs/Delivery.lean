import ShardGossip.Proofs.FaithfulReaction

/-!
# ShardGossip.Proofs.Delivery

**What a packet does when it is delivered is never undone, and what a member does it tells.** A
packet that a member has taken in (`Taken`) is in its state or its diary: a proposal is
acknowledged, an acknowledgement is recorded, a ballot is counted or held back. Reactions may move
this trace on, when a ballot is released or a round is closed, but never lose it
(`Taken.reaction`). And whatever a member has sealed, announced, voted for or committed it has sent
to all others (`Told`). Between them, nothing is left unsaid and nothing said is lost.
-/

namespace ShardGossip

/-! ### Done with a packet -/

/-- The trace of a ballot: its round is over or decided, or it is counted or held back. -/
def Replica.Heeds (r : Replica) (v : NodeId) (k : Nat) : Prop :=
  k < r.rounds ∨ k = r.rounds ∧ (r.chosen.isSome ∨ r.ballots.contains v) ∨
    ∃ vote, r.held[v]? = some vote ∧ k ≤ vote.round

/-- The member has recorded another's acknowledgement of a pending event. -/
def Replica.HasAck (r : Replica) (p : Proof) (q : NodeId) : Prop :=
  ∃ e, r.store.get? p = some e ∧ e.backedResponses.contains q

/-- The member is done with a packet from another: what the packet said has left its trace. -/
def Taken (d : Diary) (r : Replica) (src : NodeId) : Packet → Prop
  | .propose _ event => (src, .ack event.proof) ∈ d.sent
  | .ack p => p ∈ d.closed r.rounds ∨ r.HasAck p src
  | .finalize p => p ∈ d.closed r.rounds ∨ r.announced.contains p
  | .vote k _ _ => r.Heeds src k
  | .electorReady k => k < r.rounds ∨ k = r.rounds ∧ r.ready.contains src
  | _ => False

/-- Whether the packet is a ballot. Of all packets only ballots may be refused for being about an
event that is long over and forgotten, so only they need that nothing is forgotten. -/
def Packet.isBallot : Packet → Bool
  | .vote .. => true
  | _ => false

/-- No vote is so late that its member may have forgotten a committed proof. -/
def Diaries.Bounded (H : Diaries) : Prop :=
  ∀ q, (H q).votes.length ≤ RecentProofs.capacity + 1

theorem Diaries.Bounded.of_extend {H H' : Diaries} (h : H'.Bounded) (hH : H.Extend H') :
    H.Bounded :=
  fun q => Nat.le_trans (hH q).votes.length_le (h q)

theorem Diaries.Bounded.round_le {H : Diaries} (h : H.Bounded) {v : NodeId} {k : Nat} {p : Proof}
    (hv : (H v).votes[k]? = some p) : k ≤ RecentProofs.capacity := by
  have hk := (List.getElem?_eq_some_iff.mp hv).1
  have hb := h v
  omega

namespace Replica

variable {members : List NodeId} {H : Diaries} {m : NodeId} {r r' : Replica} {o : Outcome}
  {heard : NodeId → Packet → Prop}

/-! ### What a reaction leaves in place -/

/-- Nothing of the round in progress is lost. -/
structure Stays (r r' : Replica) : Prop where
  rounds : r'.rounds = r.rounds
  acks : ∀ {p q}, r.HasAck p q → r'.HasAck p q
  announced : ∀ {p}, r.announced.contains p → r'.announced.contains p
  counted : ∀ {v}, r.chosen.isSome ∨ r.ballots.contains v → r'.chosen.isSome ∨ r'.ballots.contains v
  ready : ∀ {q}, r.ready.contains q → r'.ready.contains q

theorem Stays.refl (r : Replica) : r.Stays r :=
  ⟨rfl, id, id, id, id⟩

/-- A change of a pending event that keeps its acknowledgements. -/
theorem stays_update {p : Proof} {change : Event → Event}
    (hc : ∀ {e : Event} {q : NodeId}, e.backedResponses.contains q →
      (change e).backedResponses.contains q) :
    r.Stays { r with store := r.store.update p change } :=
  { Stays.refl r with
    acks := by
      rintro p' q ⟨e, he, hq⟩
      show ∃ e', (r.store.update p change).get? p' = some e' ∧ e'.backedResponses.contains q
      rw [EventStore.get?_update, he]
      split
      · exact ⟨_, rfl, hc hq⟩
      · exact ⟨e, rfl, hq⟩ }

theorem stays_countBallot {v : NodeId} {vote : HeldVote} : r.Stays (r.countBallot v vote) :=
  have hs : r.Stays { r with
      store := r.store.update vote.proof (·.recordBallot v vote.signature) } := stays_update id
  { hs with
    counted := by
      intro u hu
      refine hu.imp_right fun hu => ?_
      show (r.ballots.insert v vote.proof).contains u
      rw [Std.ExtTreeMap.contains_insert, hu, Bool.or_true] }

theorem stays_insert {event : Event} :
    r.Stays { r with store := (r.store.insert event).2 } :=
  { Stays.refl r with
    acks := by
      rintro p q ⟨e, he, hq⟩
      refine ⟨e, ?_, hq⟩
      show (r.store.insert event).2.get? p = some e
      rw [EventStore.get?_insert, if_neg]
      · exact he
      · rintro ⟨hn, hp⟩
        rw [hp, EventStore.contains_of_get? he] at hn
        cases hn }

/-- Only closing a round forgets anything. -/
theorem stays_or_close (hr : Reaction heard r o) :
    r.Stays o.replica ∨ ∃ p, r.chosen = some p ∧ r.allReady ∧
      o = .silent (r.closeRound p).advance := by
  cases hr with
  | close hc hr => exact Or.inr ⟨_, hc, hr, rfl⟩
  | store _ _ _ _ _ => exact Or.inl stays_insert
  | noteAck _ _ _ _ =>
      exact Or.inl (stays_update fun hq => contains_insert_iff.mpr (Or.inr hq))
  | announceOwn _ _ _ _ =>
      exact Or.inl { Stays.refl r with announced := fun hp => contains_insert_iff.mpr (Or.inr hp) }
  | announceHeard _ _ _ _ =>
      exact Or.inl { Stays.refl r with announced := fun hp => contains_insert_iff.mpr (Or.inr hp) }
  | @hold voter vote _ _ _ =>
      obtain ⟨held, hh, -⟩ := hold_eq r voter vote
      rw [hh]
      exact Or.inl { Stays.refl r with }
  | count _ _ _ => exact Or.inl stays_countBallot
  | @release v vote _ _ =>
      have hs : r.Stays (r.countBallot v vote) := stays_countBallot
      exact Or.inl { hs with }
  | @cast p e _ _ _ _ =>
      have hs : r.Stays (r.countBallot r.localId ⟨r.rounds, e.signedUpdate, p⟩) := stays_countBallot
      exact Or.inl { hs with }
  | commit _ _ _ _ => exact Or.inl { Stays.refl r with counted := fun _ => Or.inl rfl }
  | ready _ _ =>
      exact Or.inl { Stays.refl r with ready := fun hp => contains_insert_iff.mpr (Or.inr hp) }
  | schedule _ _ =>
      obtain ⟨electing, quiet, hs⟩ := scheduleElection_eq r
      rw [hs]
      exact Or.inl { Stays.refl r with }
  | _ => exact Or.inl { Stays.refl r with }

theorem Counted.rounds_le (h : r.Counted) (hr : Reaction heard r o) :
    r.rounds ≤ o.replica.rounds := by
  rcases stays_or_close hr with hs | ⟨p, -, -, rfl⟩
  · exact Nat.le_of_eq hs.rounds.symm
  · exact Nat.le_trans (Nat.le_succ _) (Nat.le_of_eq (h.rounds_close p).symm)

/-! ### Traces move on, and are not lost -/

theorem held_hold (r : Replica) (voter : NodeId) (vote : HeldVote) :
    ∃ later, (r.hold voter vote).held[voter]? = some later ∧ vote.round ≤ later.round ∧
      ∀ earlier, r.held[voter]? = some earlier → earlier.round ≤ later.round := by
  unfold hold
  split
  · rename_i earlier he
    split
    · rename_i hlt
      refine ⟨earlier, he, Nat.le_of_lt hlt, fun other ho => ?_⟩
      rw [he] at ho
      exact Option.some.inj ho ▸ Nat.le_refl _
    · rename_i hge
      refine ⟨vote, Std.ExtTreeMap.getElem?_insert_self, Nat.le_refl _, fun other ho => ?_⟩
      rw [he] at ho
      exact Option.some.inj ho ▸ Nat.le_of_not_lt hge
  · rename_i he
    refine ⟨vote, Std.ExtTreeMap.getElem?_insert_self, Nat.le_refl _, fun other ho => ?_⟩
    rw [he] at ho
    cases ho

theorem held_hold_of_ne (r : Replica) {voter u : NodeId} (vote : HeldVote) (h : voter ≠ u) :
    (r.hold voter vote).held[u]? = r.held[u]? := by
  obtain ⟨held, hh, hi⟩ := hold_eq r voter vote
  rw [hh]
  rcases hi with rfl | rfl
  · rfl
  · show (r.held.insert voter vote)[u]? = _
    rw [getElem?_insert_eq, if_neg h]

/-- A ballot is ignored if its event is committed, its round is over, or its voter does not take
part. -/
theorem judge_ignore {v : NodeId} {vote : HeldVote} (h : r.judge v vote = .ignore) :
    r.finalized.contains vote.proof ∨ vote.round < r.rounds ∨
      (vote.round ≤ r.rounds ∧ r.chosen.isSome) ∨ r.isElector v = false := by
  unfold judge at h
  split at h
  · rename_i hf
    exact Or.inl hf
  · split at h
    · rename_i hlt
      exact Or.inr (Or.inl hlt)
    · split at h
      · cases h
      · rename_i hle
        rw [not_or, Nat.not_lt] at hle
        split at h
        · rename_i hc
          exact Or.inr (Or.inr (Or.inl ⟨hle.1, hc⟩))
        · split at h
          · cases h
          · rename_i he
            exact Or.inr (Or.inr (Or.inr (Bool.eq_false_iff.mpr he)))

/-- A vote for a committed event belongs to a round that is over. -/
theorem Faithful.past_of_finalized (hC : Consistent members H) (h : r.Faithful members H m)
    {v : NodeId} {k : Nat} {p : Proof} (hv : (H v).votes[k]? = some p)
    (hk : k ≤ RecentProofs.capacity) (hf : p ∈ (H m).closed r.rounds) : k < r.rounds := by
  apply Nat.lt_of_not_le
  intro hn
  refine hC.not_mem_closed hv hk hn ?_ hf
  rw [h.tracks.committed_length]
  exact Nat.le_add_right _ _

/-- A ballot that may be ignored has left its trace. -/
theorem Faithful.over_of_ignore (hC : Consistent members H) (h : r.Faithful members H m)
    {v : NodeId} {vote : HeldVote} (hv : (H v).votes[vote.round]? = some vote.proof)
    (hk : vote.round ≤ RecentProofs.capacity) (hj : r.judge v vote = .ignore) :
    vote.round < r.rounds ∨ vote.round = r.rounds ∧ r.chosen.isSome := by
  rcases judge_ignore hj with hf | hlt | ⟨hle, hc⟩ | he
  · exact Or.inl (h.past_of_finalized hC hv hk (h.tracks.closed_of_finalized hf))
  · exact Or.inl hlt
  · exact (Nat.lt_or_eq_of_le hle).imp_right fun heq => ⟨heq, hc⟩
  · rw [h.seat.isElector_iff.mpr (hC.voter hv)] at he
    cases he

/-- A held-back ballot is let go only when it counts or is over. -/
theorem Faithful.heeds_of_held (hC : Consistent members H) (hB : H.Bounded)
    (h : r.Faithful members H m) (hr : Reaction heard r o) {v : NodeId} {k : Nat} {vote : HeldVote}
    (hv : r.held[v]? = some vote) (hk : k ≤ vote.round) : o.replica.Heeds v k := by
  cases hr with
  | @hold voter vote' _ _ _ =>
      by_cases hu : voter = v
      · subst hu
        obtain ⟨later, hl, -, he⟩ := held_hold r voter vote'
        exact Or.inr (Or.inr ⟨later, hl, Nat.le_trans hk (he vote hv)⟩)
      · exact Or.inr (Or.inr ⟨vote, (held_hold_of_ne r vote' hu).trans hv, hk⟩)
  | @release voter vote' hv' hj =>
      by_cases hu : voter = v
      · subst hu
        rw [hv'] at hv
        obtain rfl := Option.some.inj hv
        rw [(judge_count hj).1] at hk
        rcases Nat.lt_or_eq_of_le hk with hlt | heq
        · exact Or.inl hlt
        · exact Or.inr (Or.inl ⟨heq, Or.inr Std.ExtTreeMap.contains_insert_self⟩)
      · refine Or.inr (Or.inr ⟨vote, ?_, hk⟩)
        show (r.held.erase voter)[v]? = some vote
        rw [getElem?_erase_eq, if_neg hu]
        exact hv
  | @discard voter vote' hv' hj =>
      by_cases hu : voter = v
      · subst hu
        rw [hv'] at hv
        obtain rfl := Option.some.inj hv
        have ht := h.trusts.held hv'
        rcases h.over_of_ignore hC ht (hB.round_le ht) hj with hlt | ⟨heq, hc⟩
        · exact Or.inl (Nat.lt_of_le_of_lt hk hlt)
        · rcases Nat.lt_or_eq_of_le hk with hlt | hkv
          · exact Or.inl (heq ▸ hlt)
          · exact Or.inr (Or.inl ⟨hkv.trans heq, Or.inl hc⟩)
      · refine Or.inr (Or.inr ⟨vote, ?_, hk⟩)
        show (r.held.erase voter)[v]? = some vote
        rw [getElem?_erase_eq, if_neg hu]
        exact hv
  | dropStale =>
      by_cases hlt : vote.round < r.rounds
      · exact Or.inl (Nat.lt_of_le_of_lt hk hlt)
      · refine Or.inr (Or.inr ⟨vote, ?_, hk⟩)
        exact getElem?_filter_eq_some.mpr ⟨hv, decide_eq_true (Nat.le_of_not_lt hlt)⟩
  | schedule _ _ =>
      obtain ⟨electing, quiet, hs⟩ := scheduleElection_eq r
      rw [hs]
      exact Or.inr (Or.inr ⟨vote, hv, hk⟩)
  | _ => exact Or.inr (Or.inr ⟨vote, hv, hk⟩)

theorem Faithful.heeds_reaction (hC : Consistent members H) (hB : H.Bounded)
    (h : r.Faithful members H m) (hr : Reaction heard r o) {v : NodeId} {k : Nat}
    (hk : r.Heeds v k) : o.replica.Heeds v k := by
  rcases hk with hlt | ⟨heq, hc⟩ | ⟨vote, hv, hk⟩
  · exact Or.inl (Nat.lt_of_lt_of_le hlt (h.seat.counted.rounds_le hr))
  · -- what was counted is dropped with its round, which is over then
    rcases stays_or_close hr with hs | ⟨p, -, -, rfl⟩
    · exact Or.inr (Or.inl ⟨heq.trans hs.rounds.symm, hs.counted hc⟩)
    · exact Or.inl (Nat.lt_of_le_of_lt (Nat.le_of_eq heq) (h.seat.counted.rounds_lt_close p))
  · exact h.heeds_of_held hC hB hr hv hk

/-- What has been taken in leaves a trace for good. -/
theorem Faithful.taken_reaction (hC : Consistent members H) (h : r.Faithful members H m)
    (hh : ∀ {src packet}, heard src packet → H.Sent members src m packet)
    (hr : Reaction heard r o) {src : NodeId} {packet : Packet}
    (hB : packet.isBallot → H.Bounded) (ht : Taken (H m) r src packet) :
    Taken ((H m).note r o) o.replica src packet := by
  have hH := (h.continues hC hh hr).extend
  have past {p : Proof} (hp : p ∈ (H m).closed r.rounds) :
      p ∈ ((H m).note r o).closed o.replica.rounds :=
    hH.mem_closed (h.seat.counted.rounds_le hr) hp
  cases packet with
  | propose signature event => exact hH.sent.subset ht
  | ack p =>
      rcases ht with hp | ⟨e, he, hq⟩
      · exact Or.inl (past hp)
      · rcases stays_or_close hr with hs | ⟨w, hc, -, rfl⟩
        · exact Or.inr (hs.acks ⟨e, he, hq⟩)
        · -- of the pending events only the winner goes, and it is closed now
          by_cases hw : w = p
          · exact Or.inl (hw ▸ hH.mem_closed (h.seat.counted.rounds_lt_close w)
              (h.tracks.chosen_mem hc))
          · refine Or.inr ⟨e, ?_, hq⟩
            exact (EventStore.get?_remove ..).trans ((if_neg hw).trans he)
  | finalize p =>
      rcases ht with hp | ha
      · exact Or.inl (past hp)
      · rcases stays_or_close hr with hs | ⟨w, hc, -, rfl⟩
        · exact Or.inr (hs.announced ha)
        · by_cases hw : w = p
          · exact Or.inl (hw ▸ hH.mem_closed (h.seat.counted.rounds_lt_close w)
              (h.tracks.chosen_mem hc))
          · exact Or.inr (contains_erase_iff.mpr ⟨hw, ha⟩)
  | vote k signature p => exact h.heeds_reaction hC (hB rfl) hr ht
  | electorReady k =>
      rcases ht with hlt | ⟨heq, hq⟩
      · exact Or.inl (Nat.lt_of_lt_of_le hlt (h.seat.counted.rounds_le hr))
      · rcases stays_or_close hr with hs | ⟨p, -, -, rfl⟩
        · exact Or.inr ⟨heq.trans hs.rounds.symm, hs.ready hq⟩
        · exact Or.inl (Nat.lt_of_le_of_lt (Nat.le_of_eq heq)
            (h.seat.counted.rounds_lt_close p))
  | _ => exact ht

/-! ### Everything is told -/

/-- What the member did it has told all others. -/
structure Told (members : List NodeId) (m : NodeId) (d : Diary) (r : Replica) : Prop where
  proposed : ∀ e ∈ d.sealed, ∀ q ∈ members, q ≠ m →
    ∃ signature, (q, Packet.propose signature e) ∈ d.sent
  announced : ∀ {p}, r.announced.contains p → (∃ e ∈ d.sealed, e.proof = p) →
    ∀ q ∈ members, q ≠ m → (q, Packet.finalize p) ∈ d.sent
  voted : ∀ {k : Nat} {p : Proof}, d.votes[k]? = some p → ∀ q ∈ members, q ≠ m →
    ∃ signature, (q, Packet.vote k signature p) ∈ d.sent
  committed : ∀ k < d.committed.length, ∀ q ∈ members, q ≠ m →
    (q, Packet.electorReady k) ∈ d.sent

/-- More may be said at any time. -/
theorem Told.say {d : Diary} (h : Told members m d r) (new : List (NodeId × Packet))
    (ha : ∀ {p}, r'.announced.contains p → (∃ e ∈ d.sealed, e.proof = p) →
      r.announced.contains p ∨ ∀ q ∈ members, q ≠ m → (q, Packet.finalize p) ∈ new) :
    Told members m { d with sent := d.sent ++ new } r' where
  proposed e he q hq hne :=
    (h.proposed e he q hq hne).imp fun _ hs => List.mem_append_left _ hs
  announced hp hs q hq hne := by
    rcases ha hp hs with hp | hn
    · exact List.mem_append_left _ (h.announced hp hs q hq hne)
    · exact List.mem_append_right _ (hn q hq hne)
  voted hv q hq hne := (h.voted hv q hq hne).imp fun _ hs => List.mem_append_left _ hs
  committed k hk q hq hne := List.mem_append_left _ (h.committed k hk q hq hne)

theorem Told.more {d : Diary} (h : Told members m d r) (new : List (NodeId × Packet)) :
    Told members m { d with sent := d.sent ++ new } r :=
  h.say new fun hp _ => Or.inl hp

theorem Seat.mem_peers (h : r.Seat members m) {q : NodeId} (hq : q ∈ members) (hne : q ≠ m) :
    q ∈ r.peers.toList :=
  mem_toList_iff.mpr (h.peers.mpr ⟨hq, hne⟩)

/-- Whatever a reaction does, it tells. -/
theorem Faithful.told_reaction (hC : Consistent members H) (h : r.Faithful members H m)
    (hh : ∀ {src packet}, heard src packet → H.Sent members src m packet)
    (hr : Reaction heard r o) (ht : Told members m (H m) r) :
    Told members m ((H m).note r o) o.replica := by
  have quiet (hb : o.replica.ballot = r.ballot ∨ o.replica.ballot = none)
      (hc : o.effects.committed = [])
      (ha : ∀ {p}, o.replica.announced.contains p → (∃ e ∈ (H m).sealed, e.proof = p) →
        r.announced.contains p ∨
          ∀ q ∈ members, q ≠ m → (q, Packet.finalize p) ∈ o.effects.copies r.peers.toList) :
      Told members m ((H m).note r o) o.replica := by
    rw [note_quiet hb hc]
    exact ht.say _ ha
  have told {packet : Packet} {q : NodeId} (hq : q ∈ members) (hne : q ≠ m) :
      (q, packet) ∈ r.peers.toList.map fun peer => (peer, packet) :=
    List.mem_map.mpr ⟨q, h.seat.mem_peers hq hne, rfl⟩
  cases hr with
  | announceOwn _ _ _ _ =>
      refine quiet (Or.inl rfl) (by simp) fun hp _ => ?_
      rcases contains_insert_iff.mp hp with rfl | hp
      · refine Or.inr fun q hq hne => ?_
        rw [Effects.copies_append, Effects.copies_tell]
        exact List.mem_append_left _ (told hq hne)
      · exact Or.inl hp
  | announceHeard hf _ _ _ =>
      refine quiet (Or.inl rfl) (by simp) fun hp ⟨e, he, hep⟩ => ?_
      rcases contains_insert_iff.mp hp with rfl | hp
      · -- it is the sender's event, not an own one
        obtain ⟨⟨e', he', hep'⟩, -⟩ := hC.honest (hh hf).recorded
        exact absurd (hC.eq_of_proof he' he (hep'.trans hep.symm)).1 (hh hf).distinct
      · exact Or.inl hp
  | @cast p event hb hc _ _ =>
      have hlen := h.tracks.length_of_unvoted hb
      have hs := ht.more (r.peers.toList.map fun peer =>
        (peer, Packet.vote r.rounds event.signedUpdate p))
      rw [note_cast hb]
      refine { hs with voted := fun hv q hq hne => ?_ }
      rcases getElem?_concat_cases hv with hv | ⟨rfl, rfl⟩
      · exact hs.voted hv q hq hne
      · exact ⟨event.signedUpdate, List.mem_append_right _ (hlen ▸ told hq hne)⟩
  | commit hc hb _ hw =>
      obtain ⟨event, he, rfl⟩ := exists_winner_event h.wellFormed hw
      have hlen := h.tracks.length_of_undecided hc
      have hs := ht.more (r.peers.toList.map fun peer => (peer, Packet.electorReady r.rounds))
      rw [note_commit hb he]
      refine { hs with committed := fun k hk q hq hne => ?_ }
      rw [List.length_append, hlen] at hk
      rcases Nat.lt_succ_iff_lt_or_eq.mp hk with hk | rfl
      · exact hs.committed k (hlen ▸ hk) q hq hne
      · exact List.mem_append_right _ (told hq hne)
  | close _ _ =>
      exact quiet (Or.inr rfl) rfl fun hp _ => Or.inl (contains_erase_iff.mp hp).2
  | @hold voter vote _ _ _ =>
      obtain ⟨held, hh, -⟩ := hold_eq r voter vote
      rw [hh] at quiet ⊢
      exact quiet (Or.inl rfl) rfl fun hp _ => Or.inl hp
  | schedule _ _ =>
      obtain ⟨electing, silent, hs⟩ := scheduleElection_eq r
      rw [hs] at quiet ⊢
      exact quiet (Or.inl rfl) (by simp) fun hp _ => Or.inl hp
  | _ => exact quiet (Or.inl rfl) rfl fun hp _ => Or.inl hp

end Replica

end ShardGossip

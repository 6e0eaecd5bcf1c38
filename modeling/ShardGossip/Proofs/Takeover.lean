import ShardGossip.Proofs.Cascade
import ShardGossip.Proofs.Handover
import ShardGossip.Proofs.Interleaving

/-!
# ShardGossip.Proofs.Takeover

**A merge reaches everyone who is told of it** (`merge_reaches`). A member that takes over a foreign
queue interleaves it with its own by time, announces all of it, and tells its peers the order that
came out (`Interleaves`). A peer that gets this queue has each of its events afterwards, announced,
or knows that it was committed; what the peer had is in front, in its own order and as it was
(`TakesOver`).

Both may let ballots in that have waited for one of the events, and that may end a round. All that
this does to a store is said by `Sheds`: closed events go, and the others get no more than the
ballots that were let in (`Endorsed`).
-/

namespace ShardGossip

namespace Replica

variable {r r' r'' : Replica} {o : Outcome} {closed closed' : List Proof}

/-! ### Letting ballots in -/

/-- No ballot is held back that was not before. -/
def HeldBefore (r r' : Replica) : Prop :=
  ∀ ⦃v : NodeId⦄ ⦃vote : HeldVote⦄, r'.held[v]? = some vote → r.held[v]? = some vote

/-- An event before and after, if all that has happened to it is that held-back ballots for it were
let in. -/
structure Endorsed (r r' : Replica) (p : Proof) (e e' : Event) : Prop where
  rest : e' = { e with backedProofs := e'.backedProofs }
  ballots : ∀ v : NodeId, e'.backedProofs[v]? = e.backedProofs[v]? ∨
    ∃ vote : HeldVote, r.held[v]? = some vote ∧ vote.proof = p ∧
      e'.backedProofs[v]? = some (Hex.encode vote.signature) ∧ r'.held[v]? = none

/-- The closed events are gone; the other ones are where they were and what they were, but for
ballots. -/
structure Sheds (closed : List Proof) (r r' : Replica) : Prop where
  queue : r'.store.queue = r.store.queue.filter (· ∉ closed)
  announced : ∀ ⦃p⦄, r.announced.contains p → p ∉ closed → r'.announced.contains p
  held : HeldBefore r r'
  events : ∀ ⦃p e'⦄, r'.store.get? p = some e' →
    ∃ e, r.store.get? p = some e ∧ Endorsed r r' p e e'

/-- The closed events are remembered as committed, each as the winner of one more round; they are
all that was decided, but for the winner of the round in progress. -/
structure Closes (closed : List Proof) (r : Replica) (o : Outcome) : Prop where
  count : o.replica.count = (closed.foldl (fun r _ => r.advance) r).count
  finalized : o.replica.finalized = closed.foldl RecentProofs.remember r.finalized
  won : r.chosen.toList ++ o.effects.committed.map (·.proof) = closed ++ o.replica.chosen.toList

theorem Endorsed.refl (r r' : Replica) (p : Proof) (e : Event) : Endorsed r r' p e e :=
  ⟨rfl, fun _ => .inl rfl⟩

theorem Endorsed.trans {p : Proof} {e e' e'' : Event} (h : Endorsed r r' p e e')
    (h' : Endorsed r' r'' p e' e'') (hr : HeldBefore r r')
    (hr' : HeldBefore r' r'') : Endorsed r r'' p e e'' where
  rest := by rw [h'.rest, h.rest]
  ballots v := by
    rcases h'.ballots v with hb | ⟨vote, hv, hp, hs, hn⟩
    · rw [hb]
      refine (h.ballots v).imp_right fun ⟨vote, hv, hp, hs, hn⟩ => ⟨vote, hv, hp, hs, ?_⟩
      -- a ballot that was let in is not held back again
      cases hh : r''.held[v]? with
      | none => rfl
      | some _ => cases hn.symm.trans (hr' hh)
    · exact .inr ⟨vote, hr hv, hp, hs, hn⟩

theorem Sheds.trans (h : Sheds closed r r') (h' : Sheds closed' r' r'') :
    Sheds (closed ++ closed') r r'' where
  queue := by
    rw [h'.queue, h.queue, List.filter_filter]
    refine List.filter_congr fun p _ => ?_
    rw [Bool.eq_iff_iff, Bool.and_eq_true, decide_eq_true_eq, decide_eq_true_eq,
      decide_eq_true_eq, List.mem_append, not_or]
    exact and_comm
  announced p ha hp := by
    rw [List.mem_append, not_or] at hp
    exact h'.announced (h.announced ha hp.1) hp.2
  held _ _ hv := h.held (h'.held hv)
  events p e'' he'' := by
    obtain ⟨e', he', hb'⟩ := h'.events he''
    obtain ⟨e, he, hb⟩ := h.events he'
    exact ⟨e, he, hb.trans hb' h.held h'.held⟩

theorem count_advances (h : r'.count = r.count) (closed : List Proof) :
    (closed.foldl (fun r _ => r.advance) r').count =
      (closed.foldl (fun r _ => r.advance) r).count := by
  induction closed generalizing r r' with
  | nil => exact h
  | cons _ rest ih => exact ih (count_advance h)

theorem Closes.trans {o' : Outcome} (h : Closes closed r o) (h' : Closes closed' o.replica o') :
    Closes (closed ++ closed') r ⟨o'.replica, o.effects ++ o'.effects⟩ where
  count := by
    rw [h'.count, List.foldl_append]
    exact count_advances h.count closed'
  finalized := by rw [h'.finalized, h.finalized, List.foldl_append]
  won := by
    rw [Effects.committed_append, List.map_append, ← List.append_assoc, h.won, List.append_assoc,
      h'.won, List.append_assoc]

/-- Who closes a round has decided it before or has the one vote for it. -/
theorem Closes.once (h : Closes closed r o) (hf : OncePerVote r o) : closed.length ≤ 1 := by
  have hwon := congrArg List.length h.won
  have hpaid := hf.commits
  rw [List.length_append, List.length_append, List.length_map] at hwon
  cases hc : r.chosen with
  | none =>
      have hleft := commitsLeft_le_one r
      rw [hc, Option.toList_none, List.length_nil] at hwon
      omega
  | some _ =>
      have hleft : r.commitsLeft = 0 := if_neg (by simp [hc])
      rw [hc, Option.toList_some, List.length_singleton] at hwon
      omega

/-- Nothing is done to the store. -/
theorem sheds_of_store (hs : r'.store = r.store)
    (ha : ∀ ⦃p⦄, r.announced.contains p → r'.announced.contains p)
    (hh : HeldBefore r r') : Sheds [] r r' where
  queue := by
    rw [hs]
    exact (List.filter_eq_self.mpr fun _ _ => decide_eq_true List.not_mem_nil).symm
  announced _ hp _ := ha hp
  held := hh
  events p e he := ⟨e, hs ▸ he, .refl ..⟩

theorem closes_of_eq (hc : o.replica.chosen = r.chosen) (hf : o.replica.finalized = r.finalized)
    (hn : o.replica.count = r.count) (he : o.effects.committed = []) : Closes [] r o :=
  ⟨hn, hf, by rw [he, hc]; exact List.append_nil _⟩

theorem held_erase {v u : NodeId} {vote : HeldVote} (h : (r.held.erase v)[u]? = some vote) :
    r.held[u]? = some vote := by
  rw [getElem?_erase_eq] at h
  split at h
  · cases h
  · exact h

/-- A ballot that is let in is recorded with its event. -/
theorem sheds_release {v : NodeId} {vote : HeldVote} (hv : r.held[v]? = some vote) :
    Sheds [] r { r.countBallot v vote with held := r.held.erase v } where
  queue := by
    refine (EventStore.queue_update ..).trans ?_
    exact (List.filter_eq_self.mpr fun _ _ => decide_eq_true List.not_mem_nil).symm
  announced _ hp _ := hp
  held _ _ := held_erase
  events p e' he' := by
    have he' := (EventStore.get?_update ..).symm.trans he'
    split at he'
    · rename_i hp
      obtain ⟨e, he, rfl⟩ := Option.map_eq_some_iff.mp he'
      refine ⟨e, he, rfl, fun u => ?_⟩
      show (e.backedProofs.insert v (Hex.encode vote.signature))[u]? = _ ∨ _
      rw [getElem?_insert_eq]
      split
      · rename_i hu
        subst hu
        exact .inr ⟨vote, hv, hp, Std.ExtTreeMap.getElem?_insert_self,
          Std.ExtTreeMap.getElem?_erase_self⟩
      · exact .inl rfl
    · exact ⟨e', he', .refl ..⟩

/-- A winner is taken out of the store when its round is closed. -/
theorem sheds_closeRound (hw : r.WellFormed) {chosen : Proof} (hc : r.chosen = some chosen) :
    Sheds [chosen] r (r.closeRound chosen) where
  queue := by
    obtain ⟨e, he⟩ := EventStore.contains_iff.mp (hw.decided hc).2
    show (r.store.remove chosen).2.queue = _
    rw [EventStore.remove, he]
    exact List.filter_congr fun p _ => by simp
  announced p ha hp := contains_erase_iff.mpr ⟨fun he => hp (he ▸ List.mem_singleton_self _), ha⟩
  held _ _ hv := hv
  events p e he := by
    have he := (EventStore.get?_remove ..).symm.trans he
    split at he
    · cases he
    · exact ⟨e, he, .refl ..⟩

theorem sheds_sequel (hw : r.WellFormed) (h : Sequel r o) :
    ∃ closed, Sheds closed r o.replica ∧ Closes closed r o := by
  cases h with
  | announceOwn _ _ _ _ =>
      refine ⟨[], sheds_of_store rfl (fun p hp => ?_) fun _ _ => id, closes_of_eq rfl rfl rfl ?_⟩
      · exact contains_insert_iff.mpr (.inr hp)
      · dsimp only
        split <;> split <;> rfl
  | release hv _ => exact ⟨[], sheds_release hv, closes_of_eq rfl rfl rfl rfl⟩
  | discard _ _ =>
      exact ⟨[], sheds_of_store rfl (fun _ => id) fun _ _ => held_erase,
        closes_of_eq rfl rfl rfl rfl⟩
  | dropStale =>
      exact ⟨[], sheds_of_store rfl (fun _ => id) fun _ _ hv => (getElem?_filter_eq_some.mp hv).1,
        closes_of_eq rfl rfl rfl rfl⟩
  | commit hc _ _ ht =>
      refine ⟨[], sheds_of_store rfl (fun _ => id) fun _ _ => id, rfl, rfl, ?_⟩
      obtain ⟨event, he, rfl⟩ := exists_winner_event hw ht
      rw [hc, committed_commit he]
      rfl
  | @close chosen hc _ =>
      have hn : Sheds [] (r.closeRound chosen) (r.closeRound chosen).advance :=
        sheds_of_store rfl (fun _ => id) fun _ _ => id
      refine ⟨[chosen], (sheds_closeRound hw hc).trans hn, count_advance rfl, rfl, ?_⟩
      rw [hc]
      rfl
  | schedule _ _ =>
      obtain ⟨electing, quiet, hs⟩ := scheduleElection_eq r
      rw [hs]
      refine ⟨[], sheds_of_store rfl (fun _ => id) fun _ _ => id, closes_of_eq rfl rfl rfl ?_⟩
      dsimp only
      split <;> rfl

theorem sheds_sequels (h : Steps Sequel r o) (hw : r.WellFormed) :
    ∃ closed, Sheds closed r o.replica ∧ Closes closed r o := by
  induction h with
  | done r =>
      exact ⟨[], sheds_of_store rfl (fun _ => id) fun _ _ => id, closes_of_eq rfl rfl rfl rfl⟩
  | step hr _ ih =>
      obtain ⟨closed, hs, hc⟩ := sheds_sequel hw hr
      obtain ⟨closed', hs', hc'⟩ := ih (hw.reaction (hr.reaction : Reaction silence _ _))
      exact ⟨closed ++ closed', hs.trans hs', hc.trans hc'⟩

/-! ### Adopting a queue -/

/-- Announcing touches no store, and ends no round. -/
theorem announceAll_sheds (proofs : List Proof) (hs : Sheds [] r o.replica) (hc : Closes [] r o) :
    Sheds [] r (o.each announce proofs).replica ∧ Closes [] r (o.each announce proofs) ∧
      ∀ p, p ∈ proofs ∨ o.replica.announced.contains p →
        (o.each announce proofs).replica.announced.contains p := by
  induction proofs generalizing o with
  | nil => exact ⟨hs, hc, fun p hp => hp.resolve_left List.not_mem_nil⟩
  | cons q rest ih =>
      have hann := contains_announced_announce o.replica q
      have hq : Sheds [] o.replica (o.replica.announce q).replica ∧
          Closes [] o.replica (o.replica.announce q) := by
        obtain ⟨announced, electing, quiet, he⟩ := o.replica.announce_eq q
        rw [he] at hann ⊢
        refine ⟨sheds_of_store rfl (fun p hp => (hann p).mpr (.inr hp)) fun _ _ => id,
          closes_of_eq rfl rfl rfl ?_⟩
        dsimp only
        split <;> rfl
      obtain ⟨hs', hc', ha⟩ := ih (o := o.andThen (·.announce q)) (hs.trans hq.1) (hc.trans hq.2)
      refine ⟨hs', hc', fun p hp => ha p ?_⟩
      rcases hp with hp | hp
      · exact (List.mem_cons.mp hp).symm.imp_right fun he => (hann p).mpr (.inl he.symm)
      · exact .inr ((hann p).mpr (.inr hp))

theorem ensureElection_sequels (r : Replica) : Steps Sequel r r.ensureElection := by
  unfold ensureElection
  split
  · exact .done r
  · exact scheduleElection_sequels r

/-- The events of a queue that are not committed yet. -/
def missing (r : Replica) (events : List Event) : List Event :=
  events.filter fun e => !r.finalized.contains e.proof

theorem finalized_of_missing {events : List Event} {p : Proof}
    (hp : p ∈ (r.missing events).map (·.proof)) : r.finalized.contains p = false := by
  obtain ⟨e, he, rfl⟩ := List.mem_map.mp hp
  simpa using (List.mem_filter.mp he).2

/-- After the missing events have been stored, all of them are announced, and no more is done than
to let ballots in. -/
theorem adopt_sheds (hw : r.WellFormed) (events : List Event) (update : QueueUpdate)
    (signer : Signer) :
    ∃ closed, Sheds closed (r.storeForeign (r.missing events) update signer)
        (r.adopt events update signer).replica ∧
      Closes closed r (r.adopt events update signer) ∧
      ∀ p ∈ (r.missing events).map (·.proof), p ∉ closed →
        (r.adopt events update signer).replica.announced.contains p := by
  let r₁ := r.storeForeign (r.missing events) update signer
  let o := (Outcome.silent r₁).each announce ((r.missing events).map (·.proof))
  have hw₁ : r₁.WellFormed := hw.reconfiguration (.adopt update signer fun e he =>
    finalized_of_missing (List.mem_map_of_mem he))
  obtain ⟨hs, hc, ha⟩ := announceAll_sheds (o := .silent r₁) ((r.missing events).map (·.proof))
    (sheds_of_store rfl (fun _ => id) fun _ _ => id) (closes_of_eq rfl rfl rfl rfl)
  have hw₂ : o.replica.WellFormed :=
    hw₁.changes (announceAll_steps fun p hp => (contains_storeForeign ..).mpr (.inr hp))
  obtain ⟨closed, hs', hc'⟩ := sheds_sequels
    ((replayHeld_sequels o.replica).andThen (ensureElection_sequels _)) hw₂
  refine ⟨closed, hs.trans hs', ?_, fun p hp hn => hs'.announced (ha p (.inl hp)) hn⟩
  have hlast : Closes closed r₁ (o.andThen fun r => r.replayHeld.andThen ensureElection) :=
    hc.trans hc'
  have heq : r.adopt events update signer =
      o.andThen fun r => r.replayHeld.andThen ensureElection := by
    unfold adopt
    exact Outcome.andThen_assoc o replayHeld ensureElection
  rw [heq]
  have hfields : r₁.count = r.count ∧ r₁.finalized = r.finalized ∧ r₁.chosen = r.chosen := by
    cases update <;> exact ⟨rfl, rfl, rfl⟩
  exact ⟨hlast.count.trans (count_advances hfields.1 _), hfields.2.1 ▸ hlast.finalized,
    hfields.2.2 ▸ hlast.won⟩

/-! ### Who takes a queue over -/

/-- A foreign queue is interleaved with the own one, and what comes out is announced. Of an event
that is in both, the own version stays. -/
structure Interleaves (r : Replica) (events : List Event) (closed : List Proof) (o : Outcome) :
    Prop where
  queue : o.replica.store.pendingEvents.map (·.proof) =
    ((mergeByTimestamp r.store.pendingEvents events).filter fun e =>
      !r.finalized.contains e.proof && decide (e.proof ∉ closed)).map (·.proof)
  events : ∀ e ∈ o.replica.store.pendingEvents, ∃ e₀,
    (r.store.get? e.proof).or (events.find? (·.proof == e.proof)) = some e₀ ∧
      e.forWire = e₀.forWire
  announced : ∀ e ∈ o.replica.store.pendingEvents, o.replica.announced.contains e.proof
  closes : Closes closed r o
  once : closed.length ≤ 1

theorem find?_missing {events : List Event} {p : Proof} {e : Event}
    (h : (r.missing events).find? (·.proof == p) = some e) :
    events.find? (·.proof == p) = some e := by
  have hf := finalized_of_missing (List.mem_map_of_mem (List.mem_of_find?_eq_some h))
  obtain rfl : e.proof = p := by simpa using List.find?_some h
  rw [missing, List.find?_filter] at h
  rw [← h]
  congr 1
  funext e'
  by_cases he : e'.proof = e.proof <;> simp [he, hf]

/-- All that is pending is in the interleaved queue, so it is in the order of that queue. -/
theorem queue_storeForeign_merge (hw : r.WellFormed) (events : List Event) (signer : Signer) :
    (r.storeForeign (r.missing (mergeByTimestamp r.store.pendingEvents events)) .reorder
      signer).store.queue =
        (r.missing (mergeByTimestamp r.store.pendingEvents events)).map (·.proof) := by
  let merged := mergeByTimestamp r.store.pendingEvents events
  have hn : (merged.map (·.proof)).Nodup := nodup_map_mergeByTimestamp _ events
  have hs : ∀ p ∈ r.store.queue, p ∈ (r.missing merged).map (·.proof) := by
    intro p hp
    have hm : p ∈ merged.map (·.proof) :=
      mem_map_mergeByTimestamp.mpr (.inl (hw.store.map_pendingEvents.symm ▸ hp))
    obtain ⟨e, he, rfl⟩ := List.mem_map.mp hm
    refine List.mem_map_of_mem (List.mem_filter.mpr ⟨he, ?_⟩)
    rw [hw.fresh (hw.store.queued.mp hp)]
    rfl
  refine (EventStore.queue_foldl_update ..).trans ?_
  exact (EventStore.queue_replaceWith ..).trans
    (eraseDups_append_of_subset (hn.sublist (List.filter_sublist.map _)) hs)

theorem WellFormed.mergeEvents (hw : r.WellFormed) (events : List Event) (signer : Signer) :
    (r.mergeEvents events signer).replica.WellFormed :=
  hw.changes (r.mergeEvents_steps ..)

theorem mergeEvents_interleaves (hw : r.WellFormed) (events : List Event) (signer : Signer) :
    ∃ closed, Interleaves r events closed (r.mergeEvents events signer) := by
  let merged := mergeByTimestamp r.store.pendingEvents events
  obtain ⟨closed, hs, hc, hann⟩ := adopt_sheds hw merged .reorder signer
  have hstore := (hw.mergeEvents events signer).store
  have hp : (r.mergeEvents events signer).replica.store.pendingEvents.map (·.proof) =
      ((r.missing merged).map (·.proof)).filter (· ∉ closed) := by
    rw [hstore.map_pendingEvents, ← queue_storeForeign_merge hw events signer]
    exact hs.queue
  refine ⟨closed, ?_, fun e he => ?_, fun e he => ?_, ⟨hc.count, hc.finalized, ?_⟩, ?_⟩
  · rw [hp, List.filter_map, missing, List.filter_filter]
    exact congrArg _ (List.filter_congr fun e _ => Bool.and_comm ..)
  · obtain ⟨e₁, he₁, hb⟩ := hs.events (hstore.mem_pendingEvents.mp he)
    have hwire : e.forWire = e₁.forWire := by rw [hb.rest]; rfl
    rw [get?_storeForeign] at he₁
    rw [hwire]
    cases hg : r.store.get? e.proof with
    | some e₀ =>
        rw [hg, Option.some_or] at he₁
        exact ⟨e₀, rfl, congrArg _ (Option.some.inj he₁).symm⟩
    | none =>
        rw [hg, Option.none_or] at he₁
        obtain ⟨e₀, he₀, rfl⟩ := Option.map_eq_some_iff.mp he₁
        have hn : e.proof ∉ r.store.pendingEvents.map (·.proof) := by
          rw [hw.store.map_pendingEvents, hw.store.queued, EventStore.contains_eq_isSome, hg]
          exact Bool.false_ne_true
        exact ⟨e₀, (find?_mergeByTimestamp hn).symm.trans (find?_missing he₀), rfl⟩
  · have hm := List.mem_filter.mp (hp ▸ List.mem_map_of_mem he)
    exact hann _ hm.1 (of_decide_eq_true hm.2)
  · rw [mergeEvents, Outcome.committed_tellAll]
    exact hc.won
  · exact hc.once (oncePerVote_adopt r merged .reorder signer)

theorem mergeEvents_tells (h : r.isAlone = false) (events : List Event) (signer : Signer) :
    let o := r.mergeEvents events signer
    .broadcast (.overwriteEvents o.replica.rounds o.replica.queueForWire) ∈ o.effects.outbound := by
  intro o
  have hpeers : o.replica.isAlone = false := by
    rw [isAlone, show o.replica.peers = r.peers from (goesOn_adopt ..).peers]
    exact h
  have hlast : o.effects = _ ++ .broadcast (.overwriteEvents o.replica.rounds
      o.replica.queueForWire) :=
    congrArg (_ ++ ·) (if_neg (Bool.eq_false_iff.mp hpeers))
  rw [hlast]
  exact List.mem_append_right _ (List.mem_singleton_self _)

/-! ### Who is told -/

/-- All of a queue has arrived. What was pending is at the front, in its order and as it was, but
for ballots that were let in, or it is remembered as committed. -/
structure TakesOver (r : Replica) (events : List Event) (r' : Replica) : Prop where
  adopted : ∀ e ∈ events, r'.Adopted e.proof
  order : ∃ new, r'.store.queue = r.store.queue.filter (r'.store.contains ·) ++ new ∧
    ∀ p ∈ new, r.store.contains p = false
  kept : ∀ p, r.store.contains p → r'.store.contains p ∨ r'.finalized.contains p
  endorsed : ∀ p e e', r.store.get? p = some e → r'.store.get? p = some e' → Endorsed r r' p e e'

/-- A jump closes a decided round. -/
theorem fastForward_sheds (hw : r.WellFormed)
    (hk : r.finalized.proofs.length < RecentProofs.capacity) (round : Nat) :
    ∃ closed, Sheds closed r (r.fastForward round) ∧
      ∀ p ∈ closed, (r.fastForward round).finalized.contains p := by
  rcases r.fastForward_cases round with he | ⟨-, ⟨chosen, hc, he⟩ | ⟨-, he⟩⟩ <;> rw [he]
  · exact ⟨[], sheds_of_store rfl (fun _ => id) fun _ _ => id, nofun⟩
  · have hn : Sheds [] (r.closeRound chosen)
        { r.closeRound chosen with rounds := round, jumped := true, electing := false } :=
      sheds_of_store rfl (fun _ => id) fun _ _ => id
    refine ⟨[chosen], (sheds_closeRound hw hc).trans hn, fun p hp => ?_⟩
    exact (RecentProofs.contains_remember hk).mpr (.inl (List.mem_singleton.mp hp))
  · exact ⟨[], sheds_of_store rfl (fun _ => id) fun _ _ => id, nofun⟩

/-- An event that was pending before a jump is still, or it was committed, and then no foreign queue
brings it back. -/
theorem Sheds.get?_storeForeign {p : Proof} {e e' : Event} (h : Sheds closed r r')
    (hr : r.store.WellFormed) (hr' : r'.store.WellFormed)
    (hf : ∀ p ∈ closed, r'.finalized.contains p) {events : List Event} {update : QueueUpdate}
    {signer : Signer} (he : r.store.get? p = some e)
    (he' : (r'.storeForeign (r'.missing events) update signer).store.get? p = some e') :
    Endorsed r r' p e e' := by
  rw [Replica.get?_storeForeign] at he'
  cases hg : r'.store.get? p with
  | some e₁ =>
      rw [hg, Option.some_or] at he'
      obtain rfl := Option.some.inj he'
      obtain ⟨e₀, he₀, hb⟩ := h.events hg
      obtain rfl := Option.some.inj (he.symm.trans he₀)
      exact hb
  | none =>
      rw [hg, Option.none_or] at he'
      obtain ⟨e₀, he₀, -⟩ := Option.map_eq_some_iff.mp he'
      have hn : r'.finalized.contains p = false := by
        refine finalized_of_missing (List.mem_map.mpr ⟨e₀, List.mem_of_find?_eq_some he₀, ?_⟩)
        simpa using List.find?_some he₀
      have hq : p ∈ r'.store.queue := by
        rw [h.queue, List.mem_filter, decide_eq_true_eq]
        refine ⟨hr.queued.mpr (EventStore.contains_of_get? he), fun hp => ?_⟩
        exact Bool.eq_false_iff.mp hn (hf p hp)
      rw [hr'.queued, EventStore.contains_eq_isSome, hg] at hq
      cases hq

/-- Events that were not there stand behind those that were. -/
theorem filter_append_of_new {κ : Type} [DecidableEq κ] {l new : List κ} {f g : κ → Bool}
    (hg : ∀ a ∈ l, g a ↔ a ∈ l.filter f ++ new) (hn : ∀ a ∈ new, a ∉ l) :
    l.filter f ++ new = l.filter g ++ new := by
  refine congrArg (· ++ new) (List.filter_congr fun a ha => ?_)
  rw [Bool.eq_iff_iff, hg a ha, List.mem_append, List.mem_filter]
  exact ⟨fun h => .inl ⟨ha, h⟩, fun h => h.elim And.right fun h => absurd ha (hn a h)⟩

theorem overwriteEvents_takesOver (hw : r.WellFormed)
    (hk : r.finalized.proofs.length < RecentProofs.capacity) (round : Nat) (events : List Event)
    (signer : Signer) :
    TakesOver r events (r.overwriteEvents round events signer).replica := by
  let r₁ := r.fastForward round
  have hw₁ : r₁.WellFormed := hw.fastForward round
  have hjump := recalls_fastForward hk round
  obtain ⟨hkept, hadopted, -, -⟩ := adopt_adopts hjump.roomy events signer
  have hall := hjump.trans hkept
  obtain ⟨gone, hgone, hfinal⟩ := fastForward_sheds hw hk round
  obtain ⟨closed, hs, -, -⟩ := adopt_sheds hw₁ events .append signer
  have hw' : (r₁.adopt events .append signer).replica.WellFormed :=
    hw₁.changes (r₁.adopt_steps ..)
  have hqueue : (r₁.adopt events .append signer).replica.store.queue =
      r.store.queue.filter (fun p => decide (p ∉ gone) && decide (p ∉ closed)) ++
        (r₁.store.unknown (r₁.missing events)).filter (· ∉ closed) := by
    have hq : (r₁.storeForeign (r₁.missing events) .append signer).store.queue =
        r₁.store.queue ++ r₁.store.unknown (r₁.missing events) :=
      (EventStore.queue_foldl_update ..).trans (r₁.store.append_unknown _).2
    rw [hs.queue, hq, hgone.queue, List.filter_append, List.filter_filter]
    exact congrArg (· ++ _) (List.filter_congr fun _ _ => Bool.and_comm ..)
  have hnew : ∀ p ∈ (r₁.store.unknown (r₁.missing events)).filter (· ∉ closed),
      r.store.contains p = false := by
    intro p hp
    obtain ⟨hm, hn⟩ := EventStore.mem_unknown.mp (List.mem_filter.mp hp).1
    rw [← Bool.not_eq_true]
    intro hr
    rcases hjump.store hr with hf | ⟨hc, -⟩
    · exact Bool.eq_false_iff.mp (finalized_of_missing hm) hf
    · exact Bool.eq_false_iff.mp hn hc
  refine ⟨hadopted, ⟨_, ?_, hnew⟩, fun p hp => ?_, fun p e e' he he' => ?_⟩
  · refine hqueue.trans (filter_append_of_new (fun p _ => ?_) fun p hp hm => ?_)
    · rw [← hqueue]
      exact hw'.store.queued.symm
    · exact Bool.eq_false_iff.mp (hnew p hp) (hw.store.queued.mp hm)
  · exact (hall.store hp).symm.imp_left And.left
  · obtain ⟨e₁, he₁, hb⟩ := hs.events he'
    have hb₁ := hgone.get?_storeForeign hw.store hw₁.store hfinal he he₁
    have hb' : Endorsed r₁ (r₁.adopt events .append signer).replica p e₁ e' := ⟨hb.rest, hb.ballots⟩
    exact hb₁.trans hb' hgone.held hs.held

/-! ### From one to the other -/

/-- Whether an operation leaves the member its own pending events, and makes no proof that is
remembered as committed. -/
def tends (r : Replica) : Operation → Bool
  | .request q => r.sealsFresh q
  | .absorb _ => true
  | .takeLeftovers => true
  | .takeOwn => false

/-- Whether all operations do so, one after the other. -/
def tendsAll (r : Replica) : List Operation → Bool
  | [] => true
  | q :: rest => r.tends q && (r.perform q).tendsAll rest

/-- The states that a member can get into unless its own transactions are taken away. What it seals
is not remembered as committed, which a proof that it has never seen before cannot be. -/
def Tended (l : NodeId) (s : ShardId) (r : Replica) : Prop :=
  ∃ operations, (fresh l s).tendsAll operations ∧ after l s operations = r

variable {a b : Replica} {l l' : NodeId} {s s' : ShardId}

theorem WellFormed.perform (h : r.WellFormed) {q : Operation} (hq : r.tends q) :
    (r.perform q).WellFormed := by
  cases q with
  | request q => exact h.answer hq
  | absorb transactions => exact { h with }
  | takeLeftovers => exact { h with }
  | takeOwn => cases hq

theorem wellFormed_of_tended (h : Tended l s r) : r.WellFormed := by
  obtain ⟨operations, ht, rfl⟩ := h
  have hw := wellFormed_fresh l s
  unfold after
  generalize fresh l s = r at ht hw
  induction operations generalizing r with
  | nil => exact hw
  | cons q rest ih =>
      rw [tendsAll, Bool.and_eq_true] at ht
      exact ih (r.perform q) ht.2 (hw.perform ht.1)

/-- **A merge reaches everyone who is told of it.** Let a member that has peers take over a foreign
queue, whatever has happened to it before, except that its own transactions were taken away. What is
pending then is its old queue and the foreign one interleaved by time, without what was committed
before and without the event of the one round that this may have closed; all of it is announced,
and the queue is told. And let a peer get it that remembers fewer than 4096 committed proofs, as it
does until it has closed as many rounds (`remembered_le_rounds`). All that is pending at the first
member, but for its winner, is then announced and pending at the peer, or remembered as committed
there. What was pending there stands in its old order before all that is new, and nothing about it
has changed, its acknowledgements and signatures included, but for held-back ballots that were let
in. -/
theorem merge_reaches (ha : Tended l s a) (hp : a.isAlone = false) (hb : Tended l' s' b)
    (hm : b.peers.contains a.localId) (hk : b.finalized.proofs.length < 4096)
    (events : List Event) (signer signer' : Signer) :
    let o := a.mergeEvents events signer
    let told := Packet.overwriteEvents o.replica.rounds o.replica.queueForWire
    (∃ closed, Interleaves a events closed o) ∧ .broadcast told ∈ o.effects.outbound ∧
      ∃ o', b.onPacket a.localId told signer' = .ok o' ∧
        TakesOver b o.replica.queueForWire o'.replica ∧
        ∀ e ∈ o.replica.store.pendingEvents, o.replica.chosen ≠ some e.proof →
          o'.replica.Adopted e.proof := by
  intro o told
  have hover := overwriteEvents_takesOver (wellFormed_of_tended hb) hk o.replica.rounds
    o.replica.queueForWire signer'
  refine ⟨mergeEvents_interleaves (wellFormed_of_tended ha) events signer,
    mergeEvents_tells hp events signer, _, ?_, hover, fun e he hc => ?_⟩
  · unfold onPacket
    rw [hm]
    rfl
  · refine hover.adopted e.forWire (List.mem_map_of_mem (List.mem_filter.mpr ⟨he, ?_⟩))
    exact decide_eq_true hc

/-- The ballot of a peer has waited for an event of the foreign queue; so it is let in, and as the
peer is ready too, the event is committed and the round closed while the queue is taken over. The
peer keeps its own event in front, and jumps to the next round. -/
theorem merge_reaches_of_last_ballot :
    let a := after ⟨"a"⟩ ⟨0⟩ <| List.map (fun input => .request (.serve input)) [
      .setMembers [⟨"a"⟩, ⟨"b"⟩],
      .submit ⟨"x", [1], none⟩,
      .sealEvent 5 (.labelled ⟨"a"⟩),
      .packet ⟨"b"⟩ (.ack "5-a") (.labelled ⟨"a"⟩),
      .elect,
      .packet ⟨"b"⟩ (.electorReady 0) (.labelled ⟨"a"⟩),
      .packet ⟨"b"⟩ (.vote 0 [] "3-c") (.labelled ⟨"a"⟩)]
    let b := after ⟨"b"⟩ ⟨0⟩ <| List.map (fun input => .request (.serve input)) [
      .setMembers [⟨"a"⟩, ⟨"b"⟩],
      .submit ⟨"x", [2], none⟩,
      .sealEvent 6 (.labelled ⟨"b"⟩),
      .packet ⟨"a"⟩ (.propose [] (.sealed ⟨"a"⟩ 5 [])) (.labelled ⟨"b"⟩)]
    let foreign : List Event := [.sealed ⟨"c"⟩ 3 [], .sealed ⟨"c"⟩ 7 []]
    let o := a.mergeEvents foreign (.labelled ⟨"a"⟩)
    let told := Packet.overwriteEvents o.replica.rounds o.replica.queueForWire
    o.effects.committed.map (·.proof) = ["3-c"] ∧ o.replica.rounds = 1 ∧
      o.replica.store.queue = ["5-a", "7-c"] ∧ b.store.queue = ["6-b", "5-a"] ∧
      (∃ closed, Interleaves a foreign closed o) ∧ .broadcast told ∈ o.effects.outbound ∧
      ∃ o', b.onPacket a.localId told (.labelled ⟨"b"⟩) = .ok o' ∧
        TakesOver b o.replica.queueForWire o'.replica ∧
        ∀ e ∈ o.replica.store.pendingEvents, o.replica.chosen ≠ some e.proof →
          o'.replica.Adopted e.proof := by
  intro a b foreign o told
  have hm : mergeByTimestamp a.store.pendingEvents foreign =
      [.sealed ⟨"c"⟩ 3 []] ++ a.store.pendingEvents ++ [.sealed ⟨"c"⟩ 7 []] := by
    have ht : a.store.pendingEvents.map (fun e => (e.timestamp, e.proof)) = [(5, "5-a")] := by
      decide +kernel
    obtain ⟨e, he, hk⟩ := List.map_eq_singleton_iff.mp ht
    obtain ⟨ht, hp⟩ := Prod.mk.inj hk
    have h₃ : Event.proofFor 3 ⟨"c"⟩ = "3-c" := by decide +kernel
    have h₇ : Event.proofFor 7 ⟨"c"⟩ = "7-c" := by decide +kernel
    rw [he, mergeByTimestamp_eq]
    simp [foreign, firstPerKey, Event.notAfter, Event.sealed, ht, hp, h₃, h₇]
  have ho : o = (a.adopt ([.sealed ⟨"c"⟩ 3 []] ++ a.store.pendingEvents ++ [.sealed ⟨"c"⟩ 7 []])
      .reorder (.labelled ⟨"a"⟩)).tellAll fun r => .overwriteEvents r.rounds r.queueForWire :=
    congrArg (fun events => (a.adopt events .reorder (.labelled ⟨"a"⟩)).tellAll _) hm
  have ha : Tended ⟨"a"⟩ ⟨0⟩ a := ⟨_, by decide +kernel, rfl⟩
  have hb : Tended ⟨"b"⟩ ⟨0⟩ b := ⟨_, by decide +kernel, rfl⟩
  refine ⟨?_, ?_, ?_, by decide +kernel, merge_reaches ha (by decide +kernel) hb
    (by decide +kernel) (by decide +kernel) foreign (.labelled ⟨"a"⟩) (.labelled ⟨"b"⟩)⟩
  all_goals
    rw [ho]
    decide +kernel

end Replica

end ShardGossip

import ShardGossip.Proofs.AtRest
import ShardGossip.Proofs.Integrity

/-!
# ShardGossip.Proofs.Quorum

**No quorum is met and left at that** (`quorums_served`). Whatever is done with a member's state, by
its peers, by those who restructure its shard, or by changing the members, in any order: an own
event that is not announced lacks an acknowledgement, a round in which the member has voted lacks a
ballot, and a decided round lacks a member that is ready.

Each of the three is asked about after every change that could have met it. What is met by the
arrival of something is looked at where that is recorded; what is met because somebody leaves, by
`reevaluate`, which looks at all three again whatever they were before. That a member joins or that
work is taken away meets none of them.

Nothing is asked of what is sealed here, so a proof may be pending and remembered as committed at
the same time. The fields then need not all fit together, but as much of it as the quorums stand on
does (`Grounded`).
-/

namespace ShardGossip.Replica

variable {r r' : Replica} {heard : NodeId → Packet → Prop}

/-! ### What the quorums stand on -/

/-- The store is in order, and the member is not its own peer and has its own ballot. -/
structure Grounded (r : Replica) : Prop where
  store : r.store.WellFormed
  self : r.peers.contains r.localId = false
  own : r.ballot.isSome → r.chosen = none → r.ballots.contains r.localId

theorem grounded_fresh (l : NodeId) (s : ShardId) : (fresh l s).Grounded where
  store := EventStore.wellFormed_empty
  self := Std.ExtTreeSet.contains_empty
  own := nofun

theorem Grounded.ne_of_peer (h : r.Grounded) {id : NodeId} (hp : r.peers.contains id) :
    id ≠ r.localId := by
  rintro rfl
  rw [h.self] at hp
  cases hp

theorem contains_insert_of_contains {m : NodeMap Proof} {u v : NodeId} {p : Proof}
    (h : m.contains u) : (m.insert v p).contains u := by
  rw [Std.ExtTreeMap.contains_insert, h, Bool.or_true]

theorem Grounded.reaction {o : Outcome} (h : r.Grounded) (hr : Reaction heard r o) :
    o.replica.Grounded := by
  cases hr with
  | store _ _ _ _ _ => exact { h with store := h.store.insert _ }
  | noteAck _ _ _ _ => exact { h with store := h.store.update _ fun _ => rfl }
  | @hold voter vote _ _ _ =>
      obtain ⟨held, hh, -⟩ := hold_eq r voter vote
      rw [hh]
      exact { h with }
  | count _ _ _ | release _ _ =>
      exact { h with
        store := h.store.update _ fun _ => rfl
        own := fun hb hc => contains_insert_of_contains (h.own hb hc) }
  | cast _ _ _ _ =>
      exact { h with
        store := h.store.update _ fun _ => rfl
        own := fun _ _ => Std.ExtTreeMap.contains_insert_self }
  | commit _ _ _ _ => exact { h with own := nofun }
  | close _ _ => exact { h with store := h.store.remove _, own := nofun }
  | schedule _ _ =>
      obtain ⟨electing, quiet, hs⟩ := scheduleElection_eq r
      rw [hs]
      exact { h with }
  | _ => exact { h with }

theorem Grounded.fastForward (h : r.Grounded) (round : Nat) : (r.fastForward round).Grounded := by
  rcases r.fastForward_cases round with he | ⟨-, ⟨chosen, -, he⟩ | ⟨-, he⟩⟩ <;> rw [he]
  · exact h
  · exact ⟨h.store.remove chosen, h.self, nofun⟩
  · exact ⟨h.store, h.self, nofun⟩

theorem Grounded.reconfiguration {o : Outcome} (h : r.Grounded) (hu : Reconfiguration r o) :
    o.replica.Grounded := by
  have enlist {id : NodeId} (hi : id ≠ r.localId) :
      (r.peers.insert id).contains r.localId = false := by
    rw [← Bool.not_eq_true, contains_insert_iff, h.self]
    exact fun hs => hs.elim hi nofun
  cases hu with
  | enlist hi | enlistLate hi => exact { h with self := enlist hi }
  | @forget id hp =>
      have hne := h.ne_of_peer hp
      refine { h with self := ?_, own := fun hb hc => ?_ }
      · show (r.peers.erase id).contains r.localId = false
        rw [← Bool.not_eq_true, contains_erase_iff, h.self]
        exact fun hs => nomatch hs.2
      · show (r.ballots.erase id).contains r.localId
        rw [contains_iff_getElem?, getElem?_erase_eq, if_neg hne]
        exact contains_iff_getElem?.mp (h.own hb hc)
  | jump round => exact h.fastForward round
  | adopt update signer _ =>
      exact { h with store := store_storeForeign h.store _ update signer }
  | _ => exact { h with }

theorem Grounded.change {o : Outcome} (h : r.Grounded) (hc : Change heard r o) :
    o.replica.Grounded :=
  match hc with
  | .settled hr => h.reaction hr
  | .reconfiguration hu => h.reconfiguration hu

theorem Grounded.changes {o : Outcome} (h : r.Grounded)
    (hs : Steps (Change fun _ _ => True) r o) : o.replica.Grounded :=
  hs.keep (P := Grounded) Grounded.change h

/-! ### What is waited for -/

/-- Every quorum is still short of something. -/
structure Waiting (r : Replica) : Prop where
  closing : r.Closing
  counting : r.Counting
  announcing : r.Announcing

/-- What the quorums of the round in progress are about. -/
def roundView (r : Replica) :
    NodeId × NodeSet × NodeSet × Option Proof × Option Proof × NodeSet × NodeMap Proof :=
  (r.localId, r.peers, r.sittingOut, r.chosen, r.ballot, r.ready, r.ballots)

/-- Waiting for a round does not depend on anything else. -/
theorem closing_counting_congr (h : r'.roundView = r.roundView) :
    (r.Closing → r'.Closing) ∧ (r.Counting → r'.Counting) := by
  cases r'
  simp only [roundView, Prod.mk.injEq] at h
  obtain ⟨rfl, rfl, rfl, rfl, rfl, rfl, rfl⟩ := h
  exact ⟨id, id⟩

/-! ### Announcing -/

@[simp] theorem roundView_announce (r : Replica) (p : Proof) :
    (r.announce p).replica.roundView = r.roundView := by
  obtain ⟨announced, electing, quiet, he⟩ := r.announce_eq p
  rw [he]
  rfl

@[simp] theorem roundView_checkAckQuorum (r : Replica) (p : Proof) :
    (r.checkAckQuorum p).replica.roundView = r.roundView := by
  rcases r.checkAckQuorum_cases p with ⟨he, -⟩ | ⟨event, -, -, -, -, he⟩ <;> rw [he] <;> rfl

theorem AnnouncingBut.announce {p : Proof} {rest : List Proof} (h : r.AnnouncingBut (p :: rest)) :
    (r.announce p).replica.AnnouncingBut rest := by
  by_cases hp : r.announced.contains p
  · rw [announce_of_contains hp]
    intro q e hq he ho ha
    refine h (fun hm => ?_) he ho ha
    rcases List.mem_cons.mp hm with rfl | hm
    · exact Bool.eq_false_iff.mp ha hp
    · exact hq hm
  · rw [announce_of_new (Bool.eq_false_iff.mpr hp)]
    exact h.insert true

/-- One proof after the other is seen to. -/
theorem announcing_each {change : Replica → Proof → Outcome}
    (hv : ∀ r p, (change r p).replica.roundView = r.roundView)
    (hc : ∀ {r : Replica} {p rest}, r.AnnouncingBut (p :: rest) →
      (change r p).replica.AnnouncingBut rest) (proofs : List Proof) {o : Outcome}
    (h : o.replica.AnnouncingBut proofs) :
    (o.each change proofs).replica.roundView = o.replica.roundView ∧
      (o.each change proofs).replica.Announcing := by
  induction proofs generalizing o with
  | nil => exact ⟨rfl, h.announcing⟩
  | cons p rest ih =>
      obtain ⟨he, ha⟩ := ih (o := o.andThen fun r => change r p) (hc h)
      exact ⟨he.trans (hv o.replica p), ha⟩

/-! ### Closing and counting -/

theorem Waiting.scheduleElection (h : r.Waiting) : r.scheduleElection.replica.Waiting := by
  obtain ⟨electing, quiet, hs⟩ := scheduleElection_eq r
  rw [hs]
  exact ⟨h.closing, h.counting, h.announcing⟩

theorem tryClose_waiting (hco : r.Counting) (han : r.Announcing) : r.tryClose.replica.Waiting := by
  rcases r.tryClose_cases with ⟨hwait, he⟩ | ⟨p, -, -, he⟩ <;> rw [he]
  · exact ⟨closing_of_waiting hwait, hco, han⟩
  · -- the next round has just begun, so there is nothing in it to wait for
    obtain ⟨hb, -⟩ := recordHeld_rest (r.closeRound p).advance
    obtain ⟨hballot, hchosen⟩ := hb.undecided rfl rfl
    exact Waiting.scheduleElection ⟨closing_of_undecided hchosen, counting_of_unvoted hballot,
      hb.announcing (han.closeRound p)⟩

theorem tryTally_waiting (hcl : r.Closing) (han : r.Announcing) : r.tryTally.replica.Waiting := by
  rcases r.tryTally_cases with ⟨hn, he⟩ | ⟨winner, -, -, -, -, he⟩ <;> rw [he]
  · exact ⟨hcl, counting_of_waiting hn, han⟩
  · exact tryClose_waiting (counting_of_decided rfl) han

/-! ### Ballots from others -/

theorem OnlyBallots.tally (h : r.OnlyBallots r') (hw : r.Waiting) : r'.tryTally.replica.Waiting :=
  tryTally_waiting (h.closing hw.closing) (h.announcing hw.announcing)

theorem Waiting.recordVote (h : r.Waiting) (v : NodeId) (vote : HeldVote) :
    (r.recordVote v vote).replica.Waiting := by
  unfold Replica.recordVote
  split
  · exact h
  · obtain ⟨held, hh, -⟩ := hold_eq r v vote
    rw [hh]
    exact ⟨h.closing, h.counting, h.announcing⟩
  · exact (onlyBallots_countBallot r v vote).tally h

theorem Waiting.replay (h : r.Waiting) (v : NodeId) : (r.replay v).replica.Waiting := by
  have he : ({ r with held := r.held.erase v } : Replica).Waiting :=
    ⟨h.closing, h.counting, h.announcing⟩
  unfold Replica.replay
  split
  · exact he.recordVote v _
  · exact h

theorem Waiting.replayHeld (h : r.Waiting) : r.replayHeld.replica.Waiting :=
  have hd : (Outcome.silent r.dropStale).replica.Waiting := ⟨h.closing, h.counting, h.announcing⟩
  keep_each Waiting.replay _ hd

/-! ### Members that leave and join -/

theorem mem_ownProofs (hs : r.store.WellFormed) {p : Proof} {e : Event}
    (he : r.store.get? p = some e) (ho : e.origin = r.localId) : p ∈ r.ownProofs := by
  obtain rfl := hs.keyed he
  exact List.mem_map.mpr
    ⟨e, List.mem_filter.mpr ⟨hs.mem_pendingEvents.mpr he, decide_eq_true ho⟩, rfl⟩

/-- After a look at every quorum none is met, whatever was met before. -/
theorem reevaluate_waiting (hs : r.store.WellFormed) : r.reevaluate.replica.Waiting := by
  have hown : r.AnnouncingBut r.ownProofs :=
    fun _ _ hp he ho => absurd (mem_ownProofs hs he ho) hp
  obtain ⟨-, han⟩ := announcing_each roundView_checkAckQuorum AnnouncingBut.checkAckQuorum
    r.ownProofs (o := .silent r) hown
  show (tryClose (tryTally _).replica).replica.Waiting
  generalize ((Outcome.silent r).each checkAckQuorum r.ownProofs).replica = r₁ at han
  rcases r₁.tryTally_cases with ⟨hn, he⟩ | ⟨winner, -, -, -, -, he⟩ <;> rw [he]
  · exact tryClose_waiting (counting_of_waiting hn) han
  · let r₂ : Replica := { r₁ with ballots := ∅, chosen := some winner }
    have hw : r₂.tryClose.replica.Waiting := tryClose_waiting (counting_of_decided rfl) han
    exact tryClose_waiting hw.counting hw.announcing

theorem Waiting.removePeer (h : r.Waiting) (hs : r.store.WellFormed) (id : NodeId) :
    (r.removePeer id).replica.Waiting := by
  unfold Replica.removePeer
  split
  · exact reevaluate_waiting hs
  · exact h

/-- More peers meet no quorum, if those there were take part as before. -/
theorem Waiting.grow (h : r.Waiting) {peers late sitting : NodeSet}
    (hp : ∀ v, r.peers.contains v → peers.contains v)
    (hs : ∀ v, r.peers.contains v → sitting.contains v = r.sittingOut.contains v) :
    ({ r with peers := peers, lateJoiners := late, sittingOut := sitting } : Replica).Waiting := by
  have keep {p : NodeId → Bool} (hn : r.electors.all p = false) :
      ({ r with peers := peers, lateJoiners := late, sittingOut := sitting } :
        Replica).electors.all p = false := by
    rw [List.all_eq_false] at hn ⊢
    obtain ⟨v, hv, hpv⟩ := hn
    obtain ⟨hm, ho⟩ := mem_electors.mp hv
    exact ⟨v, mem_electors.mpr ⟨hp v hm, (hs v hm).trans ho⟩, hpv⟩
  refine ⟨fun hc => keep (h.closing hc), fun hb hc => ?_, fun p e he ho ha => ?_⟩
  · rcases Bool.and_eq_false_iff.mp (h.counting hb hc) with hv | hv
    · exact Bool.and_eq_false_iff.mpr (.inl hv)
    · exact Bool.and_eq_false_iff.mpr (.inr (keep hv))
  · obtain ⟨peer, hm, hn⟩ := h.announcing he ho ha
    exact ⟨peer, hp peer hm, hn⟩

theorem Waiting.join (h : r.Waiting) (history : Bool) (id : NodeId) :
    (join history r id).Waiting := by
  unfold Replica.join
  split
  · exact h
  · rename_i hid
    have hp (v : NodeId) (hv : r.peers.contains v) : (r.peers.insert id).contains v :=
      contains_insert_iff.mpr (.inr hv)
    split
    · refine h.grow hp fun v hv => ?_
      have hne : id ≠ v := fun he => hid (he ▸ hv)
      rw [Bool.eq_iff_iff, contains_insert_iff, or_iff_right hne]
    · exact h.grow hp fun _ _ => rfl

theorem Waiting.addPeer (h : r.Waiting) (id : NodeId) : (r.addPeer id).2.Waiting := by
  unfold Replica.addPeer
  split
  · exact h
  · exact h.grow (fun _ hv => contains_insert_iff.mpr (.inr hv)) fun _ _ => rfl

theorem Waiting.setMembers (h : r.Waiting) (hg : r.Grounded) (members : List NodeId) :
    (r.setMembers members).replica.Waiting := by
  have joined {ids : List NodeId} (hl : r.localId ∉ ids) :
      (ids.foldl (Replica.join r.hasHistory) r).Waiting ∧
        (ids.foldl (Replica.join r.hasHistory) r).Grounded := by
    refine ⟨?_, hg.changes (foldl_join_steps r.hasHistory hl)⟩
    generalize r.hasHistory = history
    clear hg hl
    induction ids generalizing r with
    | nil => exact h
    | cons id rest ih => exact ih (h.join history id)
  refine (keep_each (P := fun r => r.Waiting ∧ r.Grounded) (fun hr id => ?_) _ (joined ?_)).1
  · exact ⟨hr.1.removePeer hr.2.store id, hr.2.changes (removePeer_steps _ id)⟩
  · rw [mem_toList_iff, contains_foldl_insert]
    simp

/-! ### Foreign queues -/

/-- Events that a foreign queue does not mention stay as they are. -/
theorem get?_storeForeign_of_not_mem {events : List Event} {p : Proof}
    (hp : p ∉ events.map (·.proof)) (update : QueueUpdate) (signer : Signer) :
    (r.storeForeign events update signer).store.get? p = r.store.get? p := by
  rw [get?_storeForeign, List.find?_eq_none.mpr, Option.map_none, Option.or_none]
  exact fun e he hk => hp (List.mem_map.mpr ⟨e, he, beq_iff_eq.mp hk⟩)

/-- All that comes in with a foreign queue is announced. -/
theorem Waiting.adopt (h : r.Waiting) (events : List Event) (update : QueueUpdate)
    (signer : Signer) : (r.adopt events update signer).replica.Waiting := by
  unfold Replica.adopt
  generalize events.filter (fun e => !r.finalized.contains e.proof) = events
  have hbut : (r.storeForeign events update signer).AnnouncingBut (events.map (·.proof)) := by
    intro p e hp he
    rw [get?_storeForeign_of_not_mem hp] at he
    exact h.announcing he
  obtain ⟨hv, han⟩ := announcing_each roundView_announce AnnouncingBut.announce _
    (o := .silent (r.storeForeign events update signer)) hbut
  have hr := closing_counting_congr (r := r) hv
  have hw := (Waiting.mk (hr.1 h.closing) (hr.2 h.counting) han).replayHeld
  show (ensureElection _).replica.Waiting
  unfold ensureElection
  split
  · exact hw
  · exact hw.scheduleElection

theorem Waiting.fastForward (h : r.Waiting) (round : Nat) : (r.fastForward round).Waiting := by
  rcases r.fastForward_cases round with he | ⟨-, ⟨chosen, -, he⟩ | ⟨hc, he⟩⟩ <;> rw [he]
  · exact h
  · exact ⟨closing_of_undecided rfl, counting_of_unvoted rfl, h.announcing.closeRound chosen⟩
  · exact ⟨closing_of_undecided hc, counting_of_unvoted rfl, h.announcing⟩

/-! ### Packets -/

theorem Waiting.onPropose (h : r.Waiting) (hg : r.Grounded) {sender : NodeId} {event : Event}
    {signer : Signer} {o : Outcome} (hp : r.peers.contains sender)
    (ho : r.onPropose sender event signer = .ok o) : o.replica.Waiting := by
  unfold Replica.onPropose at ho
  split at ho
  · cases ho
  · rename_i horigin
    cases ho
    refine Waiting.replayHeld ?_
    split
    · exact h
    · -- the sender is a peer, so the event is not an own one
      have hne : (event.heldWith (signer.sign (Utf8.encode event.proof))).origin ≠ r.localId :=
        fun hl => hg.ne_of_peer hp ((Decidable.not_not.mp horigin).symm.trans hl)
      exact ⟨h.closing, h.counting, h.announcing.insert hne⟩

theorem Waiting.onAck (h : r.Waiting) {sender : NodeId} {p : Proof} {o : Outcome}
    (ho : r.onAck sender p = .ok o) : o.replica.Waiting := by
  unfold Replica.onAck at ho
  split at ho
  · cases ho
    exact h
  · split at ho
    · cases ho
    · split at ho
      · cases ho
      · cases ho
        obtain ⟨hcl, hco⟩ := closing_counting_congr (r := r) (roundView_checkAckQuorum
          { r with store := r.store.update p (·.recordAck sender) } p)
        exact ⟨hcl h.closing, hco h.counting, (h.announcing.update p _).checkAckQuorum.announcing⟩

theorem Waiting.announce (h : r.Waiting) (p : Proof) : (r.announce p).replica.Waiting := by
  obtain ⟨hcl, hco⟩ := closing_counting_congr (r.roundView_announce p)
  exact ⟨hcl h.closing, hco h.counting, (h.announcing.but [p]).announce.announcing⟩

theorem Waiting.onFinalize (h : r.Waiting) {p : Proof} {o : Outcome}
    (ho : r.onFinalize p = .ok o) : o.replica.Waiting := by
  unfold Replica.onFinalize at ho
  split at ho
  · cases ho
    exact h
  · split at ho
    · cases ho
      exact h.announce p
    · cases ho

theorem Waiting.onElectorReady (h : r.Waiting) (sender : NodeId) (round : Nat) :
    (r.onElectorReady sender round).replica.Waiting := by
  unfold Replica.onElectorReady
  split
  · exact tryClose_waiting (r := { r with ready := r.ready.insert sender }) h.counting h.announcing
  · exact h

theorem Waiting.overwriteEvents (h : r.Waiting) (round : Nat) (events : List Event)
    (signer : Signer) : (r.overwriteEvents round events signer).replica.Waiting :=
  (h.fastForward round).adopt events .append signer

theorem Waiting.onPacket (h : r.Waiting) (hg : r.Grounded) {sender : NodeId} {packet : Packet}
    {signer : Signer} {o : Outcome} (ho : r.onPacket sender packet signer = .ok o) :
    o.replica.Waiting := by
  unfold Replica.onPacket at ho
  split at ho
  · cases ho
  · rename_i hp
    rw [Bool.not_eq_true', Bool.not_eq_false] at hp
    cases packet with
    | propose signature event => exact h.onPropose hg hp ho
    | ack p => exact h.onAck ho
    | finalize p => exact h.onFinalize ho
    | vote round signature p =>
        cases ho
        exact h.recordVote sender _
    | electorReady round =>
        cases ho
        exact h.onElectorReady sender round
    | overwriteEvents round events =>
        cases ho
        exact h.overwriteEvents round events signer
    | appendTransactions transactions =>
        cases ho
        exact ⟨h.closing, h.counting, h.announcing⟩
    | hello node shard => cases ho
    | received => cases ho

/-! ### What else a member is asked for -/

theorem Waiting.runElection (h : r.Waiting) : r.runElection.replica.Waiting := by
  unfold Replica.runElection
  split
  · exact h
  · rename_i hn
    rw [not_or, Option.not_isSome_iff_eq_none, Option.not_isSome_iff_eq_none] at hn
    split
    · exact ⟨h.closing, h.counting, h.announcing⟩
    · rename_i p _
      dsimp only
      split
      · exact ⟨h.closing, h.counting, h.announcing⟩
      · rename_i event _
        have hb := onlyBallots_countBallot r r.localId ⟨r.rounds, event.signedUpdate, p⟩
        exact tryTally_waiting (closing_of_undecided hn.2) (hb.announcing h.announcing)

theorem Waiting.sealEvent (h : r.Waiting) (now : Nat) (signer : Signer) :
    (r.sealEvent now signer).replica.Waiting := by
  rw [sealEvent_eq]
  split
  · exact h
  · rename_i event _
    obtain ⟨hcl, hco⟩ := closing_counting_congr (r := r)
      (roundView_checkAckQuorum (r.enqueue event signer) event.proof)
    exact ⟨hcl h.closing, hco h.counting,
      (h.announcing.enqueue event signer).checkAckQuorum.announcing⟩

theorem Waiting.serve (h : r.Waiting) (hg : r.Grounded) (input : Input) :
    (r.serve input).replica.Waiting := by
  cases input with
  | addPeer id => exact h.addPeer id
  | removePeer id => exact h.removePeer hg.store id
  | setMembers members => exact h.setMembers hg members
  | submit transaction => exact ⟨h.closing, h.counting, h.announcing⟩
  | sealEvent now signer => exact h.sealEvent now signer
  | elect => exact h.runElection
  | retransmit signer =>
      unfold Replica.serve Replica.retransmit
      dsimp only
      split <;> exact h
  | merge events signer => exact h.adopt _ .reorder signer
  | sync peer =>
      unfold Replica.serve Replica.takeSyncFor
      dsimp only
      split
      · exact h
      · exact ⟨h.closing, h.counting, h.announcing⟩
  | packet sender packet signer =>
      unfold Replica.serve
      dsimp only
      split
      · rename_i ho
        exact h.onPacket hg ho
      · exact h

/-! ### Taking work away -/

/-- Something that is done with a member's state, by whomever. -/
inductive Operation where
  | request (request : Request)
  /-- To take in what another chain hands over. -/
  | absorb (transactions : List Transaction)
  /-- To hand over the transactions that no event holds. -/
  | takeLeftovers
  /-- To hand over all own transactions. -/
  | takeOwn

/-- The state afterwards. -/
def perform (r : Replica) : Operation → Replica
  | .request request => (r.answer request).replica
  | .absorb transactions => r.absorb transactions
  | .takeLeftovers => r.takeLeftovers.2
  | .takeOwn => r.takeOwnTransactions.2

/-- What an operation does before it changes anything: nothing, or it stores a new own event, or it
takes work away. -/
inductive Preparation (r : Replica) : Replica → Prop where
  | none : Preparation r r
  | enqueue (event : Event) (signer : Signer) : Preparation r (r.enqueue event signer)
  | responses : Preparation r r.takeResponses.2
  | pending : Preparation r r.takePendingEvents.2
  | leftovers : Preparation r r.takeLeftovers.2
  | own : Preparation r r.takeOwnTransactions.2

theorem perform_steps (hs : r.store.WellFormed) (op : Operation)
    (hh : ∀ sender packet signer, op = .request (.serve (.packet sender packet signer)) →
      r.peers.contains sender → heard sender packet) :
    ∃ r₀ effects, Preparation r r₀ ∧ Steps (Change heard) r₀ ⟨r.perform op, effects⟩ := by
  cases op with
  | request request =>
      cases request with
      | serve input =>
          have hi : ∀ sender packet signer, input = .packet sender packet signer →
              r.peers.contains sender → heard sender packet :=
            fun sender packet signer he => hh sender packet signer (he ▸ rfl)
          rcases serve_cases hs input hi with h | ⟨now, signer, event, -, -, h⟩
          · exact ⟨r, _, .none, h⟩
          · exact ⟨_, _, .enqueue event signer, h⟩
      | overwrite round events signer =>
          exact ⟨r, _, .none, r.overwriteEvents_steps round events signer⟩
      | takeResponses => exact ⟨_, _, .responses, .done _⟩
      | takePending => exact ⟨_, _, .pending, .done _⟩
  | absorb transactions => exact ⟨r, _, .none, .single (.settled (.absorb transactions))⟩
  | takeLeftovers => exact ⟨_, _, .leftovers, .done _⟩
  | takeOwn => exact ⟨_, _, .own, .done _⟩

/-- What the preparation and every change keep, an operation keeps. -/
theorem perform_keeps {P : Replica → Prop} (hs : r.store.WellFormed) (op : Operation)
    (hh : ∀ sender packet signer, op = .request (.serve (.packet sender packet signer)) →
      r.peers.contains sender → heard sender packet)
    (hp : ∀ {r₀}, Preparation r r₀ → P r₀)
    (hc : ∀ {r o}, P r → Change heard r o → P o.replica) : P (r.perform op) := by
  obtain ⟨r₀, effects, h₀, h⟩ := perform_steps hs op hh
  exact h.keep (P := P) hc (hp h₀)

/-- No own event is left, so none lacks an acknowledgement. -/
theorem announcing_takeOwn (hs : r.store.WellFormed) : r.takeOwnTransactions.2.Announcing := by
  intro p e he ho
  have hp := (EventStore.get?_foldl_remove r.store r.ownProofs p).symm.trans he
  split at hp
  · cases hp
  · rename_i hn
    exact absurd (mem_ownProofs hs hp ho) hn

theorem Waiting.takeResponses (h : r.Waiting) : r.takeResponses.2.Waiting := by
  refine ⟨h.closing, h.counting, h.announcing.withStore fun p => ?_⟩
  have hw (_ : Proof) (e : Event) : e.withoutResponses.withoutResponses = e.withoutResponses := by
    simp [Event.withoutResponses]
  have hp := EventStore.get?_foldl_update hw r.store r.store.queue p
  rw [hp]
  split
  · rw [Option.map_map]
    rfl
  · rfl

/-! ### Every operation -/

theorem Grounded.prepare (h : r.Grounded) (hp : Preparation r r') : r'.Grounded := by
  cases hp with
  | none => exact h
  | enqueue event signer => exact { h with store := h.store.insert _ }
  | responses => exact { h with store := store_takeResponses h.store }
  | pending => exact ⟨EventStore.wellFormed_empty, h.self, nofun⟩
  | leftovers => exact { h with }
  | own => exact { h with store := h.store.foldl_remove _ }

theorem Grounded.perform (h : r.Grounded) (op : Operation) : (r.perform op).Grounded :=
  perform_keeps h.store op (fun _ _ _ _ _ => trivial) h.prepare Grounded.change

theorem Waiting.answer (h : r.Waiting) (hg : r.Grounded) (request : Request) :
    (r.answer request).replica.Waiting := by
  cases request with
  | serve input => exact h.serve hg input
  | overwrite round events signer => exact h.overwriteEvents round events signer
  | takeResponses => exact h.takeResponses
  | takePending =>
      refine ⟨closing_of_undecided rfl, counting_of_unvoted rfl, fun p e he => ?_⟩
      exact nomatch (EventStore.get?_empty p).symm.trans he

/-- An operation leaves no quorum met. -/
theorem Waiting.perform (h : r.Waiting) (hg : r.Grounded) (op : Operation) :
    (r.perform op).Waiting := by
  cases op with
  | request request => exact h.answer hg request
  | absorb transactions => exact ⟨h.closing, h.counting, h.announcing⟩
  | takeLeftovers => exact ⟨h.closing, h.counting, h.announcing⟩
  | takeOwn => exact ⟨h.closing, h.counting, announcing_takeOwn hg.store⟩

/-- The state after operations on a fresh one. -/
def after (l : NodeId) (s : ShardId) (operations : List Operation) : Replica :=
  operations.foldl perform (fresh l s)

/-- What every operation keeps holds after any of them. -/
theorem after_keeps {P : Replica → Prop} {l : NodeId} {s : ShardId} (h : P (fresh l s))
    (hp : ∀ {r : Replica} (op : Operation), r.Grounded → P r → P (r.perform op))
    (operations : List Operation) :
    (after l s operations).Grounded ∧ P (after l s operations) := by
  have hf : (fresh l s).Grounded ∧ P (fresh l s) := ⟨grounded_fresh l s, h⟩
  unfold after
  generalize fresh l s = r at hf
  clear h
  induction operations generalizing r with
  | nil => exact hf
  | cons op rest ih => exact ih (r.perform op) ⟨hf.1.perform op, hp op hf.1 hf.2⟩

theorem after_waiting (l : NodeId) (s : ShardId) (operations : List Operation) :
    (after l s operations).Grounded ∧ (after l s operations).Waiting :=
  after_keeps ⟨closing_of_undecided rfl, counting_of_unvoted rfl, fun p _ he =>
    nomatch (EventStore.get?_empty p).symm.trans he⟩ (fun op hg h => h.perform hg op) operations

/-- No quorum is met and left at that. -/
structure Served (r : Replica) : Prop where
  /-- An own event is announced, or some peer has not acknowledged it. -/
  announcing : ∀ e ∈ r.store.pendingEvents, e.origin = r.localId →
    r.announced.contains e.proof ∨
      ∃ peer, r.peers.contains peer ∧ e.backedResponses.contains peer = false
  /-- After the own vote, the round is decided, or the ballot of some peer that takes part is
  missing. -/
  counting : r.ballot.isSome → r.chosen = none →
    ∃ peer ∈ r.electors, r.ballots.contains peer = false
  /-- A round that is decided and not closed waits for some peer that takes part. -/
  closing : r.chosen.isSome → ∃ peer ∈ r.electors, r.ready.contains peer = false

theorem Waiting.served (h : r.Waiting) (hg : r.Grounded) : r.Served where
  announcing e he ho := by
    by_cases ha : r.announced.contains e.proof
    · exact .inl ha
    · have hs := hg.store.mem_pendingEvents.mp he
      exact .inr (h.announcing hs ho (Bool.eq_false_iff.mpr ha))
  counting hb hc := by
    -- the own ballot is there, so the missing one is somebody else's
    have hv := h.counting hb hc
    rw [allVoted, hg.own hb hc, Bool.true_and, List.all_eq_false] at hv
    obtain ⟨peer, hm, hn⟩ := hv
    exact ⟨peer, hm, Bool.eq_false_iff.mpr hn⟩
  closing hc := by
    have hr := h.closing hc
    rw [allReady, List.all_eq_false] at hr
    obtain ⟨peer, hm, hn⟩ := hr
    exact ⟨peer, hm, Bool.eq_false_iff.mpr hn⟩

/-- **No quorum is left met but unserved.** After whatever operations on a member's state, in
whatever order, with whatever packets and changes of the members: every own event is announced or
lacks an acknowledgement, a round in which the member has voted is decided or lacks a ballot, and a
decided round lacks a member that is ready. -/
theorem quorums_served (l : NodeId) (s : ShardId) (operations : List Operation) :
    (after l s operations).Served :=
  (after_waiting l s operations).2.served (after_waiting l s operations).1

/-- The one whose ballot is missing leaves, and the round is decided and waits for the other. -/
example :
    let s := after ⟨"a"⟩ ⟨0⟩ <| List.map (fun input => .request (.serve input)) [
      .setMembers [⟨"a"⟩, ⟨"b"⟩, ⟨"c"⟩],
      .submit ⟨"x", [1], none⟩,
      .sealEvent 5 (.labelled ⟨"a"⟩),
      .packet ⟨"b"⟩ (.ack "5-a") (.labelled ⟨"a"⟩),
      .packet ⟨"c"⟩ (.ack "5-a") (.labelled ⟨"a"⟩),
      .elect,
      .packet ⟨"b"⟩ (.vote 0 [] "5-a") (.labelled ⟨"a"⟩),
      .removePeer ⟨"c"⟩]
    s.chosen = some "5-a" ∧ s.electors = [⟨"b"⟩] ∧ s.ready.isEmpty := by
  decide +kernel

end ShardGossip.Replica

import ShardGossip.Proofs.Delivery

/-!
# ShardGossip.Proofs.Turn

**What a member does at a time, in terms of the diaries.** Each thing that a member of a settled
shard is asked for is a `Turn`: it leaves the diaries consistent and the member true to its own,
which grows by what was sealed, committed and sent, and it keeps what had been taken in and told.
An election, a submission, a retransmission, a seal and an honest packet are turns, and after the
packet's turn the packet is taken in.
-/

namespace ShardGossip

/-- The diary with a new event, proposed to everyone. -/
def Diary.propose (d : Diary) (event : Event) (signature : Bytes) (peers : List NodeId) : Diary :=
  { d with
    sealed := d.sealed ++ [event]
    sent := d.sent ++ peers.map fun peer => (peer, .propose signature event) }

/-- A property of the diaries and a member's state that survives everything the member can do, as
long as it hears of nothing but `heard` and seals nothing but `new`. -/
structure Kept (members : List NodeId) (m : NodeId) (heard : NodeId → Packet → Prop)
    (new : List Event) (Q : Diaries → Replica → Prop) : Prop where
  reaction : ∀ {H : Diaries} {r : Replica} {o : Outcome}, Consistent members H →
    r.Faithful members H m → (∀ {src packet}, heard src packet → H.Sent members src m packet) →
    Reaction heard r o → Q H r → Q (H.write m ((H m).note r o)) o.replica
  enqueue : ∀ {H : Diaries} {r : Replica} {event : Event} {signature : Bytes} {signer : Signer},
    Consistent members H → r.Faithful members H m → event ∈ new →
    event = Event.sealed m event.timestamp event.transactions → r.clock < event.timestamp →
    Q H r → Q (H.write m ((H m).propose event signature r.peers.toList)) (r.enqueue event signer)
  /-- Nothing but proposals and words on the round in progress is said out of turn. -/
  say : ∀ {H : Diaries} {r : Replica} {packets : List (NodeId × Packet)}, Consistent members H →
    r.Faithful members H m →
    (∀ {dst packet}, (dst, packet) ∈ packets → H.Honest members m dst packet ∧
      dst ∈ r.peers.toList ∧ ∀ p, packet ≠ .ack p ∧ packet ≠ .finalize p) →
    Q H r → Q (H.write m { H m with sent := (H m).sent ++ packets }) r

/-- What a member does at a time, from its state and the diaries before to those after, when it
hears of `heard` and seals `new`. -/
structure Turn (members : List NodeId) (m : NodeId) (heard : NodeId → Packet → Prop) (H : Diaries)
    (r : Replica) (H' : Diaries) (o : Outcome) (new : List Event) : Prop where
  consistent : Consistent members H'
  faithful : o.replica.Faithful members H' m
  extend : H.Extend H'
  others : ∀ {q}, q ≠ m → H' q = H q
  sealed : (H' m).sealed = (H m).sealed ++ new
  committed : (H' m).committed = (H m).committed ++ o.effects.committed
  sent : (H' m).sent = (H m).sent ++ o.effects.copies r.peers.toList
  peers : o.replica.peers = r.peers
  rounds : r.rounds ≤ o.replica.rounds
  taken : ∀ {src packet}, (packet.isBallot → H'.Bounded) → Taken (H m) r src packet →
    Taken (H' m) o.replica src packet
  told : r.Told members m (H m) → o.replica.Told members m (H' m)
  kept : ∀ {Q}, Kept members m heard new Q → Q H r → Q H' o.replica

theorem Kept.mono {members : List NodeId} {m : NodeId} {heard : NodeId → Packet → Prop}
    {new new' : List Event} {Q : Diaries → Replica → Prop} (h : Kept members m heard new Q)
    (hn : new' ⊆ new) : Kept members m heard new' Q :=
  { h with enqueue := fun hC hF he => h.enqueue hC hF (hn he) }

namespace Turn

variable {members : List NodeId} {m : NodeId} {heard : NodeId → Packet → Prop}
  {H H' H'' : Diaries} {r r' : Replica} {o o' : Outcome} {new new' : List Event}

theorem refl (hC : Consistent members H) (hF : r.Faithful members H m) :
    Turn members m heard H r H (.silent r) [] where
  consistent := hC
  faithful := hF
  extend _ := .refl _
  others _ := rfl
  sealed := (List.append_nil _).symm
  committed := (List.append_nil _).symm
  sent := (List.append_nil _).symm
  peers := rfl
  rounds := Nat.le_refl _
  taken _ ht := ht
  told ht := ht
  kept _ hq := hq

theorem trans (h : Turn members m heard H r H' o new)
    (h' : Turn members m heard H' o.replica H'' o' new') :
    Turn members m heard H r H'' ⟨o'.replica, o.effects ++ o'.effects⟩ (new ++ new') where
  consistent := h'.consistent
  faithful := h'.faithful
  extend := h.extend.trans h'.extend
  others hq := (h'.others hq).trans (h.others hq)
  sealed := by rw [h'.sealed, h.sealed, List.append_assoc]
  committed := by rw [h'.committed, h.committed, List.append_assoc]; rfl
  sent := by rw [h'.sent, h.sent, h.peers, Effects.copies_append, List.append_assoc]
  peers := h'.peers.trans h.peers
  rounds := Nat.le_trans h.rounds h'.rounds
  taken hB ht := h'.taken hB (h.taken (fun hb => (hB hb).of_extend h'.extend) ht)
  told ht := h'.told (h.told ht)
  kept hQ hq := h'.kept (hQ.mono (List.subset_append_right _ _))
    (h.kept (hQ.mono (List.subset_append_left _ _)) hq)

/-- A first part without effects. -/
theorem after (h : Turn members m heard H r H' (.silent r') [])
    (h' : Turn members m heard H' r' H'' o new) : Turn members m heard H r H'' o new :=
  h.trans h'

/-- A turn that is written into the member's diary. -/
theorem write {d : Diary} (hC : Consistent members H) (hm : m ∈ members)
    (hd : Continues members H m d) (hF : o.replica.Faithful members (H.write m d) m)
    (hsealed : d.sealed = (H m).sealed ++ new)
    (hcommitted : d.committed = (H m).committed ++ o.effects.committed)
    (hsent : d.sent = (H m).sent ++ o.effects.copies r.peers.toList)
    (hpeers : o.replica.peers = r.peers) (hrounds : r.rounds ≤ o.replica.rounds)
    (htaken : ∀ {src packet}, (packet.isBallot → (H.write m d).Bounded) →
      Taken (H m) r src packet → Taken d o.replica src packet)
    (htold : r.Told members m (H m) → o.replica.Told members m d)
    (hkept : ∀ {Q}, Kept members m heard new Q → Q H r → Q (H.write m d) o.replica) :
    Turn members m heard H r (H.write m d) o new := by
  have hself := Diaries.write_self H m d
  refine ⟨hC.write hm hd, hF, Diaries.extend_write hd.extend, Diaries.write_of_ne _ _, ?_, ?_, ?_,
    hpeers, hrounds, fun hB ht => ?_, fun ht => ?_, hkept⟩ <;> rw [hself]
  · exact hsealed
  · exact hcommitted
  · exact hsent
  · exact htaken hB ht
  · exact htold ht

end Turn

/-- Handling a packet that is on record, nothing else is heard. -/
theorem Diaries.Sent.of_hearing {members : List NodeId} {H : Diaries} {src m : NodeId}
    {packet : Packet} (h : H.Sent members src m packet) {s : NodeId} {p : Packet}
    (hp : hearing src packet s p) : H.Sent members s m p := by
  obtain ⟨rfl, rfl⟩ := hp
  exact h

namespace Replica

variable {members : List NodeId} {m : NodeId} {H : Diaries} {r : Replica} {o : Outcome}
  {heard : NodeId → Packet → Prop}

theorem Faithful.turn_reaction (hC : Consistent members H) (h : r.Faithful members H m)
    (hh : ∀ {src packet}, heard src packet → H.Sent members src m packet)
    (hr : Reaction heard r o) :
    Turn members m heard H r (H.write m ((H m).note r o)) o [] := by
  have hcon := h.continues hC hh hr
  refine .write hC h.seat.member hcon (h.reaction hC hh hr).2 (List.append_nil _).symm rfl rfl
    hr.peers (h.seat.counted.rounds_le hr) (fun hB ht => ?_) (fun ht => h.told_reaction hC hh hr ht)
    fun hQ hq => hQ.reaction hC h hh hr hq
  have hB' (hb : _) := (hB hb).of_extend (Diaries.extend_write hcon.extend)
  exact h.taken_reaction hC hh hr hB' ht

/-- Reactions one after the other make a turn. -/
theorem Faithful.turn_steps (hC : Consistent members H) (h : r.Faithful members H m)
    (hh : ∀ {src packet}, heard src packet → H.Sent members src m packet)
    (hs : Steps (Reaction heard) r o) : ∃ H', Turn members m heard H r H' o [] := by
  induction hs generalizing H with
  | done r => exact ⟨H, .refl hC h⟩
  | step hr _ ih =>
      have h₁ := h.turn_reaction hC hh hr
      -- what was heard stays on record while the diaries grow
      obtain ⟨H', h₂⟩ := ih h₁.consistent h₁.faithful fun hp => (hh hp).mono h₁.extend
      exact ⟨H', h₁.trans h₂⟩

/-- So do those that need nothing from others. -/
theorem Faithful.turn_silent (hC : Consistent members H) (h : r.Faithful members H m)
    (hs : Steps (Reaction silence) r o) : ∃ H', Turn members m silence H r H' o [] :=
  h.turn_steps hC False.elim hs

/-- An election is a turn. -/
theorem Faithful.turn_elect (hC : Consistent members H) (h : r.Faithful members H m) :
    ∃ H', Turn members m silence H r H' r.runElection [] :=
  h.turn_silent hC (r.runElection_steps h.wellFormed.store)

/-- A submission is a turn. -/
theorem Faithful.turn_submit (hC : Consistent members H) (h : r.Faithful members H m)
    (transaction : Transaction) :
    ∃ H', Turn members m silence H r H' (.silent (r.submit transaction)) [] :=
  h.turn_silent hC (.single (.absorb [transaction]))

/-! ### Sending again -/

theorem mem_copies_broadcast {packets : List Packet} {peers : List NodeId} {dst : NodeId}
    {packet : Packet} :
    (dst, packet) ∈ ({ Effects.none with outbound := packets.map .broadcast } : Effects).copies
      peers ↔ packet ∈ packets ∧ dst ∈ peers := by
  simp only [Effects.copies, List.mem_flatMap, List.mem_map]
  constructor
  · rintro ⟨_, ⟨p, hp, rfl⟩, hd⟩
    obtain ⟨q, hq, he⟩ := List.mem_map.mp hd
    cases he
    exact ⟨hp, hq⟩
  · rintro ⟨hp, hd⟩
    exact ⟨_, ⟨packet, hp, rfl⟩, List.mem_map.mpr ⟨dst, hd, rfl⟩⟩

/-- Saying something true, but no acknowledgement and no announcement, is a turn. -/
theorem Faithful.turn_say (hC : Consistent members H) (h : r.Faithful members H m)
    {effects : Effects} (hc : effects.committed = [])
    (hn : ∀ {dst packet}, (dst, packet) ∈ effects.copies r.peers.toList →
      H.Honest members m dst packet ∧ dst ∈ r.peers.toList ∧
        ∀ p, packet ≠ .ack p ∧ packet ≠ .finalize p) :
    ∃ H', Turn members m heard H r H' ⟨r, effects⟩ [] := by
  have hcon : Continues members H m
      { H m with sent := (H m).sent ++ effects.copies r.peers.toList } :=
    .say hC fun hs => ⟨h.seat.target _ (hn hs).2.1, (hn hs).1⟩
  have hH := Diaries.extend_write hcon.extend
  have hF : r.Faithful members
      (H.write m { H m with sent := (H m).sent ++ effects.copies r.peers.toList }) m := by
    refine ⟨h.seat, h.wellFormed, ?_, h.trusts.mono hH⟩
    rw [Diaries.write_self]
    exact h.tracks.keep rfl rfl rfl rfl rfl id fun ha => absurd rfl ((hn ha).2.2 _).1
  refine ⟨_, .write hC h.seat.member hcon hF (List.append_nil _).symm ?_ rfl rfl (Nat.le_refl _)
    (fun {_ packet} _ ht => ?_) (fun ht => ht.more _) fun hQ hq => hQ.say hC h hn hq⟩
  · rw [hc]
    exact (List.append_nil _).symm
  · cases packet with
    | propose signature event => exact List.mem_append_left _ ht
    | _ => exact ht

/-- A retransmission is a turn. -/
theorem Faithful.turn_retransmit (hC : Consistent members H) (h : r.Faithful members H m)
    (signer : Signer) : ∃ H', Turn members m silence H r H' (r.retransmit signer) [] := by
  unfold retransmit
  split
  · exact ⟨H, .refl hC h⟩
  · refine h.turn_say hC rfl fun hs => ?_
    obtain ⟨hp, hd⟩ := mem_copies_broadcast.mp hs
    rcases List.mem_append.mp hp with hp | hp
    · obtain ⟨e, he, rfl⟩ := List.mem_map.mp hp
      refine ⟨?_, hd, fun p => ⟨nofun, nofun⟩⟩
      obtain ⟨he, ho⟩ := List.mem_filter.mp he
      obtain ⟨p, -, hg⟩ := List.mem_filterMap.mp he
      rw [Bool.and_eq_true, decide_eq_true_eq, h.seat.localId] at ho
      exact ho.1 ▸ h.trusts.content hg
    · unfold roundReminder at hp
      split at hp
      · rename_i w _ hc
        obtain rfl := List.mem_singleton.mp hp
        refine ⟨?_, hd, fun p => ⟨nofun, nofun⟩⟩
        show r.rounds < (H m).committed.length
        rw [h.tracks.length_of_decided hc]
        exact Nat.lt_succ_self _
      · rename_i p _ hb
        rw [Option.mem_toList, Option.map_eq_some_iff] at hp
        obtain ⟨e, -, rfl⟩ := hp
        exact ⟨h.tracks.voted hb, hd, fun p => ⟨nofun, nofun⟩⟩
      · cases hp

/-! ### Sealing -/

variable {event : Event} {signer : Signer} {signature : Bytes} {peers : List NodeId}

/-- A new own event, and telling everyone, is in order. -/
theorem continues_propose (hC : Consistent members H)
    (hs : event = Event.sealed m event.timestamp event.transactions)
    (ht : ∀ e ∈ (H m).sealed, e.timestamp < event.timestamp)
    (hd : ∀ q ∈ peers, q ∈ members ∧ m ≠ q) :
    Continues members H m ((H m).propose event signature peers) where
  extend := ⟨List.prefix_append _ _, List.prefix_refl _, List.prefix_refl _, List.prefix_append _ _⟩
  own e he := (List.mem_append.mp he).imp_right fun he => by
    obtain rfl := List.mem_singleton.mp he
    exact hs
  times := by
    refine List.pairwise_append.mpr ⟨hC.times m, List.pairwise_singleton _ _, fun e he e' he' => ?_⟩
    obtain rfl := List.mem_singleton.mp he'
    exact ht e he
  votes hv := Or.inl hv
  committed hc := Or.inl hc
  sent hp := by
    refine (List.mem_append.mp hp).imp_right fun hp => ?_
    obtain ⟨q, hq, he⟩ := List.mem_map.mp hp
    cases he
    refine ⟨hd _ hq, ?_⟩
    show event ∈ (H.write m _ m).sealed
    rw [Diaries.write_self]
    exact List.mem_append_right _ List.mem_cons_self

/-- Nothing on record has the proof of an event that is later than all before. -/
theorem ne_of_later (hC : Consistent members H)
    (hs : event = Event.sealed m event.timestamp event.transactions)
    (ht : ∀ e ∈ (H m).sealed, e.timestamp < event.timestamp) {q : NodeId} {e : Event}
    (he : e ∈ (H q).sealed) : e.proof ≠ event.proof := by
  intro hp
  rw [hC.own he, hs] at hp
  obtain ⟨htime, rfl⟩ := proofFor_inj.mp hp
  exact Nat.ne_of_lt (ht e he) htime

theorem Tracks.later {d : Diary} (h : r.Tracks d) (ht : r.clock < event.timestamp) :
    ∀ e ∈ d.sealed, e.timestamp < event.timestamp :=
  fun e he => Nat.lt_of_le_of_lt (h.clock e he) ht

/-- A new event has not been committed. -/
theorem Faithful.not_closed_of_later (hC : Consistent members H) (h : r.Faithful members H m)
    (hs : event = Event.sealed m event.timestamp event.transactions)
    (ht : r.clock < event.timestamp) {q : NodeId} {k : Nat} : event.proof ∉ (H q).closed k := by
  intro hk
  obtain ⟨j, -, e, he, hp⟩ := Diary.mem_closed.mp hk
  exact ne_of_later hC hs (h.tracks.later ht) (hC.genuine (List.mem_of_getElem? he)) hp

theorem Faithful.fresh_of_later (hC : Consistent members H) (h : r.Faithful members H m)
    (hs : event = Event.sealed m event.timestamp event.transactions)
    (ht : r.clock < event.timestamp) : r.finalized.contains event.proof = false := by
  rw [← Bool.not_eq_true]
  exact fun hf => h.not_closed_of_later hC hs ht (h.tracks.closed_of_finalized hf)

/-- A new event is not pending. -/
theorem Faithful.ne_of_pending (hC : Consistent members H) (h : r.Faithful members H m)
    (hs : event = Event.sealed m event.timestamp event.transactions)
    (ht : r.clock < event.timestamp) {p : Proof} (hp : r.store.contains p) : p ≠ event.proof := by
  obtain ⟨e, he⟩ := EventStore.contains_iff.mp hp
  rintro rfl
  have hk : e.proof = event.proof := h.wellFormed.store.keyed he
  exact ne_of_later hC hs (h.tracks.later ht) (h.trusts.content he) hk

theorem Faithful.continues_propose (hC : Consistent members H) (h : r.Faithful members H m)
    (hs : event = Event.sealed m event.timestamp event.transactions)
    (ht : r.clock < event.timestamp) {signature : Bytes} :
    Continues members H m ((H m).propose event signature r.peers.toList) :=
  Replica.continues_propose hC hs (h.tracks.later ht) h.seat.target

theorem Tracks.enqueue {d : Diary} (h : r.Tracks d) (ht : r.clock < event.timestamp) :
    (r.enqueue event signer).Tracks (d.propose event signature peers) where
  votes_length := h.votes_length
  voted := h.voted
  committed_length := h.committed_length
  records := h.records
  known := by
    intro p hp
    rcases hp with ⟨e, he, hep⟩ | ⟨target, hp⟩
    · rcases List.mem_append.mp he with he | he
      · exact (h.known (Or.inl ⟨e, he, hep⟩)).imp_left fun hp => contains_enqueue.mpr (Or.inr hp)
      · obtain rfl := List.mem_singleton.mp he
        exact Or.inl (contains_enqueue.mpr (Or.inl hep))
    · rcases List.mem_append.mp hp with hp | hp
      · exact (h.known (Or.inr ⟨target, hp⟩)).imp_left fun hp => contains_enqueue.mpr (Or.inr hp)
      · simp at hp
  clock := by
    intro e he
    rcases List.mem_append.mp he with he | he
    · exact Nat.le_of_lt (h.later ht e he)
    · obtain rfl := List.mem_singleton.mp he
      exact Nat.le_refl _

theorem Told.enqueue {d : Diary} (h : r.Told members m d) (hS : r.Seat members m)
    (hn : ∀ {p}, r.announced.contains p → p ≠ event.proof) :
    (r.enqueue event signer).Told members m (d.propose event signature r.peers.toList) := by
  have hsay := h.more (r.peers.toList.map fun peer => (peer, Packet.propose signature event))
  refine { hsay with proposed := ?_, announced := ?_ }
  · intro e he q hq hne
    rcases List.mem_append.mp he with he | he
    · exact hsay.proposed e he q hq hne
    · obtain rfl := List.mem_singleton.mp he
      exact ⟨_, List.mem_append_right _ (List.mem_map.mpr ⟨q, hS.mem_peers hq hne, rfl⟩)⟩
  · intro p hp ⟨e, he, hep⟩
    rcases List.mem_append.mp he with he | he
    · exact hsay.announced hp ⟨e, he, hep⟩
    · obtain rfl := List.mem_singleton.mp he
      exact absurd hep.symm (hn hp)

theorem stays_enqueue : r.Stays (r.enqueue event signer) :=
  have hs : r.Stays { r with
    store := (r.store.insert (event.heldWith (signer.sign (Utf8.encode event.proof)))).2 } :=
    stays_insert
  { hs with }

theorem Taken.enqueue {d : Diary} {src : NodeId} {packet : Packet} (h : Taken d r src packet) :
    Taken (d.propose event signature peers) (r.enqueue event signer) src packet := by
  cases packet with
  | propose signature e => exact List.mem_append_left _ h
  | ack p => exact h.imp_right stays_enqueue.acks
  | _ => exact h

/-- Storing and proposing a new own event is a turn. -/
theorem Faithful.turn_enqueue (hC : Consistent members H) (h : r.Faithful members H m)
    (hs : event = Event.sealed r.localId event.timestamp event.transactions)
    (ht : r.clock < event.timestamp) (signer : Signer) :
    ∃ H', Turn members m heard H r H'
      ((Outcome.silent (r.enqueue event signer)).tellAll fun _ => proposal signer event)
      [event] := by
  rw [h.seat.localId] at hs
  have hw : event.forWire = event := by
    rw [hs]
    rfl
  have ho : event.origin = m := by
    rw [hs]
    rfl
  obtain ⟨signature, hp⟩ : ∃ signature, proposal signer event = .propose signature event :=
    ⟨signer.sign event.forWire.encode, by rw [proposal, hw]⟩
  have hcon : Continues members H m ((H m).propose event signature r.peers.toList) :=
    h.continues_propose hC hs ht
  have hH := Diaries.extend_write hcon.extend
  have hself := Diaries.write_self H m ((H m).propose event signature r.peers.toList)
  have hF : (r.enqueue event signer).Faithful members
      (H.write m ((H m).propose event signature r.peers.toList)) m := by
    refine ⟨{ h.seat with counted := ⟨h.seat.counted.jumped, h.seat.counted.laps⟩ },
      h.wellFormed.enqueue signer (h.fresh_of_later hC hs ht), ?_, ?_⟩
    · rw [hself]
      exact h.tracks.enqueue ht
    · refine { Trusts.insert (h.trusts.mono hH) (e := event.heldWith _) ?_ ?_ with }
      · show event.forWire ∈ (H.write m _ event.origin).sealed
        rw [hw, ho, hself]
        exact List.mem_append_right _ List.mem_cons_self
      · exact fun q => Std.ExtTreeSet.contains_empty
  have hnew {p : Proof} (hp : r.announced.contains p) : p ≠ event.proof :=
    h.ne_of_pending hC hs ht (h.wellFormed.announced hp)
  refine ⟨_, .write hC h.seat.member hcon hF rfl ?_ ?_ rfl (Nat.le_refl _)
    (fun _ htk => Taken.enqueue htk) (fun htd => htd.enqueue h.seat hnew)
    fun hQ hq => hQ.enqueue hC h List.mem_cons_self hs ht hq⟩
  · show (H m).committed = (H m).committed ++ (∅ ++ if r.isAlone then ∅ else
      Effects.broadcast (proposal signer event) : Effects).committed
    rw [Effects.committed_append, Effects.committed_tell]
    exact (List.append_nil _).symm
  · show _ = (H m).sent ++ (if r.isAlone then ∅ else
      Effects.broadcast (proposal signer event) : Effects).copies r.peers.toList
    rw [Effects.copies_tell, hp]
    rfl

/-- Sealing is a turn. -/
theorem Faithful.turn_seal (hC : Consistent members H) (h : r.Faithful members H m) (now : Nat)
    (signer : Signer) :
    ∃ H', Turn members m silence H r H' (r.sealEvent now signer) (r.nextEvent? now).toList := by
  rw [sealEvent_eq]
  split
  · rename_i hn
    rw [hn]
    exact ⟨H, .refl hC h⟩
  · rename_i event hn
    rw [hn]
    obtain ⟨hs, ht, -⟩ := nextEvent?_eq_some hn
    obtain ⟨H₁, h₁⟩ := h.turn_enqueue hC hs ht signer
    obtain ⟨H₂, h₂⟩ := h₁.faithful.turn_silent h₁.consistent (checkAckQuorum_steps _ event.proof)
    exact ⟨H₂, h₁.trans h₂⟩

/-! ### Honest packets -/

variable {src : NodeId} {packet : Packet}

theorem Seat.peer_of_sent (h : r.Seat members m) (hs : H.Sent members src m packet) :
    r.peers.contains src :=
  h.peers.mpr ⟨hs.source, hs.distinct⟩

/-- A pending event is the member's own if the member sealed something with its proof. -/
theorem Faithful.own_of_sealed (hC : Consistent members H) (h : r.Faithful members H m)
    {p : Proof} {e e' : Event} (he : r.store.get? p = some e) (he' : e' ∈ (H m).sealed)
    (hp : e'.proof = p) : e.origin = r.localId := by
  have hk : e.proof = p := h.wellFormed.store.keyed he
  rw [h.seat.localId]
  exact (hC.eq_of_proof (h.trusts.content he) he' (hk.trans hp.symm)).1

/-- An honest packet is refused only if it is about an event that is closed and forgotten. -/
theorem Faithful.forgotten_of_refused (hC : Consistent members H) (h : r.Faithful members H m)
    (hs : H.Sent members src m packet) {signer : Signer} {refusal : Refusal}
    (ho : r.onPacket src packet signer = .error refusal) :
    ∃ p, (packet = .ack p ∨ packet = .finalize p) ∧ p ∈ (H m).closed r.rounds ∧
      r.finalized.contains p = false := by
  have honest := hC.honest hs.recorded
  unfold onPacket at ho
  rw [if_neg (by rw [h.seat.peer_of_sent hs]; exact Bool.false_ne_true)] at ho
  cases packet with
  | propose signature event =>
      dsimp only at ho
      unfold onPropose at ho
      rw [if_neg (fun hn => hn (hC.origin_eq honest))] at ho
      cases ho
  | ack p =>
      obtain ⟨e', he', hp⟩ := honest
      dsimp only at ho
      unfold onAck at ho
      split at ho
      · cases ho
      · rename_i hf
        refine ⟨p, Or.inl rfl, ?_, Bool.eq_false_iff.mpr hf⟩
        rcases h.tracks.known (Or.inl ⟨e', he', hp⟩) with hst | hc
        · obtain ⟨e, he⟩ := EventStore.contains_iff.mp hst
          rw [he] at ho
          dsimp only at ho
          rw [if_neg (fun hn => hn (h.own_of_sealed hC he he' hp))] at ho
          cases ho
        · exact hc
  | finalize p =>
      dsimp only at ho
      unfold onFinalize at ho
      split at ho
      · cases ho
      · rename_i hf
        refine ⟨p, Or.inr rfl, ?_, Bool.eq_false_iff.mpr hf⟩
        rcases h.tracks.known (honest.2 m h.seat.member) with hst | hc
        · rw [if_pos hst] at ho
          cases ho
        · exact hc
  | vote k signature p => cases ho
  | electorReady k => cases ho
  | _ => exact honest.elim

/-- As long as nothing had to be forgotten, no honest packet is refused. -/
theorem Faithful.onPacket_ok (hC : Consistent members H) (h : r.Faithful members H m)
    (hr : r.rounds ≤ RecentProofs.capacity) (hs : H.Sent members src m packet) (signer : Signer) :
    ∃ o, r.onPacket src packet signer = .ok o := by
  cases ho : r.onPacket src packet signer with
  | ok o => exact ⟨o, rfl⟩
  | error refusal =>
      obtain ⟨p, -, hc, hf⟩ := h.forgotten_of_refused hC hs ho
      rw [h.tracks.finalized_of_closed hr hc] at hf
      cases hf

/-- A packet that is refused is one that the member was done with. -/
theorem Faithful.taken_of_refused (hC : Consistent members H) (h : r.Faithful members H m)
    (hs : H.Sent members src m packet) {signer : Signer} {refusal : Refusal}
    (ho : r.onPacket src packet signer = .error refusal) : Taken (H m) r src packet := by
  obtain ⟨p, rfl | rfl, hc, -⟩ := h.forgotten_of_refused hC hs ho
  · exact Or.inl hc
  · exact Or.inl hc

/-- A proposal is answered by an acknowledgement. -/
theorem mem_copies_of_onPropose {event : Event} {signer : Signer} {peers : List NodeId}
    (h : r.onPropose src event signer = .ok o) :
    (src, Packet.ack event.proof) ∈ o.effects.copies peers := by
  unfold onPropose at h
  split at h
  · cases h
  · cases h
    rw [Outcome.effects_andThen, Effects.copies_append]
    exact List.mem_append_left _ List.mem_cons_self

theorem Faithful.turn_propose (hC : Consistent members H) (h : r.Faithful members H m)
    {signature : Bytes} {event : Event} (hs : H.Sent members src m (.propose signature event))
    {signer : Signer} (ho : r.onPropose src event signer = .ok o) :
    ∃ H', Turn members m (hearing src (.propose signature event)) H r H' o [] ∧
      Taken (H' m) o.replica src (.propose signature event) := by
  obtain ⟨H', ht⟩ := h.turn_steps hC hs.of_hearing
    (onPropose_reacts (hearing_self ..) (h.seat.peer_of_sent hs) ho).steps
  refine ⟨H', ht, ?_⟩
  show (src, Packet.ack event.proof) ∈ (H' m).sent
  rw [ht.sent]
  exact List.mem_append_right _ (mem_copies_of_onPropose ho)

theorem Faithful.turn_ack (hC : Consistent members H) (h : r.Faithful members H m) {p : Proof}
    (hs : H.Sent members src m (.ack p)) (ho : r.onAck src p = .ok o) :
    ∃ H', Turn members m (hearing src (.ack p)) H r H' o [] ∧
      Taken (H' m) o.replica src (.ack p) := by
  unfold onAck at ho
  split at ho
  · rename_i hf
    cases ho
    exact ⟨H, .refl hC h, Or.inl (h.tracks.closed_of_finalized hf)⟩
  · split at ho
    · cases ho
    · rename_i event he
      split at ho
      · cases ho
      · rename_i hl
        cases ho
        have h₁ := h.turn_reaction hC hs.of_hearing
          (.noteAck (hearing_self ..) (h.seat.peer_of_sent hs) he (Decidable.not_not.mp hl))
        obtain ⟨H', h₂⟩ := h₁.faithful.turn_steps h₁.consistent
          (fun hp => (hs.of_hearing hp).mono h₁.extend) (checkAckQuorum_steps _ p)
        refine ⟨H', h₁.after h₂, h₂.taken nofun (Or.inr ⟨event.recordAck src, ?_, ?_⟩)⟩
        · show (r.store.update p (·.recordAck src)).get? p = _
          rw [EventStore.get?_update, if_pos rfl, he]
          rfl
        · exact contains_insert_iff.mpr (Or.inl rfl)

theorem Faithful.turn_finalize (hC : Consistent members H) (h : r.Faithful members H m) {p : Proof}
    (hs : H.Sent members src m (.finalize p)) (ho : r.onFinalize p = .ok o) :
    ∃ H', Turn members m (hearing src (.finalize p)) H r H' o [] ∧
      Taken (H' m) o.replica src (.finalize p) := by
  unfold onFinalize at ho
  split at ho
  · rename_i hf
    cases ho
    exact ⟨H, .refl hC h, Or.inl (h.tracks.closed_of_finalized hf)⟩
  · split at ho
    · rename_i hst
      cases ho
      by_cases ha : r.announced.contains p
      · rw [announce_of_contains ha]
        exact ⟨H, .refl hC h, Or.inr ha⟩
      · rw [Bool.not_eq_true] at ha
        rw [announce_of_new ha]
        have ht := h.turn_reaction hC hs.of_hearing
          (.announceHeard (hearing_self ..) (h.seat.peer_of_sent hs) hst ha)
        exact ⟨_, ht, Or.inr (contains_insert_iff.mpr (Or.inl rfl))⟩
    · cases ho

theorem Faithful.turn_vote (hC : Consistent members H) (h : r.Faithful members H m)
    {vote : HeldVote} (hs : H.Sent members src m vote.packet) :
    ∃ H', Turn members m (hearing src vote.packet) H r H' (r.recordVote src vote) [] ∧
      (H'.Bounded → (r.recordVote src vote).replica.Heeds src vote.round) := by
  have hv : (H src).votes[vote.round]? = some vote.proof := hC.honest hs.recorded
  have hp := h.seat.peer_of_sent hs
  unfold recordVote
  split
  · -- ignored, which a true vote is only once its round is over or decided
    rename_i hj
    refine ⟨H, .refl hC h, fun hB => ?_⟩
    rcases h.over_of_ignore hC hv (hB.round_le hv) hj with hlt | ⟨heq, hc⟩
    · exact Or.inl hlt
    · exact Or.inr (Or.inl ⟨heq, Or.inl hc⟩)
  · rename_i hj
    have ht := h.turn_reaction hC hs.of_hearing (.hold (hearing_self ..) hp hj)
    obtain ⟨later, hl, hle, -⟩ := held_hold r src vote
    exact ⟨_, ht, fun _ => Or.inr (Or.inr ⟨later, hl, hle⟩)⟩
  · -- counted, and if it was the last one, it decides the round
    rename_i hj
    have h₁ := h.turn_reaction hC hs.of_hearing (.count (hearing_self ..) hp hj)
    obtain ⟨H', h₂⟩ := h₁.faithful.turn_steps h₁.consistent
      (fun hp => (hs.of_hearing hp).mono h₁.extend) (tryTally_steps _)
    have hc : (r.countBallot src vote).Heeds src vote.round :=
      Or.inr (Or.inl ⟨(judge_count hj).1, Or.inr Std.ExtTreeMap.contains_insert_self⟩)
    exact ⟨H', h₁.after h₂, fun hB =>
      h₂.taken (fun _ => hB) (show Taken _ _ src vote.packet from hc)⟩

/-- Nobody is ready for a round that this member has not reached. -/
theorem Faithful.le_rounds_of_ready (hC : Consistent members H) (h : r.Faithful members H m)
    {k : Nat} (hk : k < (H src).committed.length) : k ≤ r.rounds := by
  have hv := (hC.elected (List.getElem?_eq_getElem hk)).1 m h.seat.member
  exact Nat.le_of_lt_succ (Nat.lt_of_lt_of_le hv h.tracks.votes_length_le)

theorem Faithful.turn_electorReady (hC : Consistent members H) (h : r.Faithful members H m)
    {k : Nat} (hs : H.Sent members src m (.electorReady k)) :
    ∃ H', Turn members m (hearing src (.electorReady k)) H r H' (r.onElectorReady src k) [] ∧
      Taken (H' m) (r.onElectorReady src k).replica src (.electorReady k) := by
  unfold onElectorReady
  split
  · rename_i hk
    subst hk
    have h₁ := h.turn_reaction hC hs.of_hearing
      (.ready (hearing_self ..) (h.seat.peer_of_sent hs))
    obtain ⟨H', h₂⟩ := h₁.faithful.turn_steps h₁.consistent
      (fun hp => (hs.of_hearing hp).mono h₁.extend) (tryClose_steps _)
    exact ⟨H', h₁.after h₂, h₂.taken nofun (Or.inr ⟨rfl, contains_insert_iff.mpr (Or.inl rfl)⟩)⟩
  · -- a true packet for another round is late
    rename_i hk
    have hle := h.le_rounds_of_ready hC (hC.honest hs.recorded)
    exact ⟨H, .refl hC h, Or.inl (Nat.lt_of_le_of_ne hle hk)⟩

/-- Handling an honest packet is a turn, and afterwards the packet is taken in. -/
theorem Faithful.turn_packet (hC : Consistent members H) (h : r.Faithful members H m)
    (hs : H.Sent members src m packet) {signer : Signer}
    (ho : r.onPacket src packet signer = .ok o) :
    ∃ H', Turn members m (hearing src packet) H r H' o [] ∧
      ((packet.isBallot → H'.Bounded) → Taken (H' m) o.replica src packet) := by
  unfold onPacket at ho
  rw [if_neg (by rw [h.seat.peer_of_sent hs]; exact Bool.false_ne_true)] at ho
  cases packet with
  | propose signature event => exact (h.turn_propose hC hs ho).imp fun _ ht => ⟨ht.1, fun _ => ht.2⟩
  | ack p => exact (h.turn_ack hC hs ho).imp fun _ ht => ⟨ht.1, fun _ => ht.2⟩
  | finalize p => exact (h.turn_finalize hC hs ho).imp fun _ ht => ⟨ht.1, fun _ => ht.2⟩
  | vote k signature p =>
      cases ho
      have hs' : H.Sent members src m (HeldVote.packet ⟨k, signature, p⟩) := hs
      exact (h.turn_vote hC hs').imp fun _ ht => ⟨ht.1, fun hB => ht.2 (hB rfl)⟩
  | electorReady k =>
      cases ho
      exact (h.turn_electorReady hC hs).imp fun _ ht => ⟨ht.1, fun _ => ht.2⟩
  | _ => exact (hC.honest hs.recorded).elim

end Replica

end ShardGossip

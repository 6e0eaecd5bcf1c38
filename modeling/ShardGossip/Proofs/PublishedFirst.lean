import ShardGossip.Proofs.Accord
import ShardGossip.Proofs.Precedence

/-!
# ShardGossip.Proofs.PublishedFirst

**Whatever a member lets be voted for, or votes for, its origin has announced to everyone**
(`Moved.publishedFirst`), no matter what becomes of the announcements; and an origin that has
announced an event stands by it until the event is closed.

This and the order of events rest on what a single reaction can have changed: a new vote, a new
acknowledgement, a new announcement, a new pending event, and word of being ready each have one
kind of cause.
-/

namespace ShardGossip

open Network

/-- What is voted for or said to be announced, its origin has announced to everyone. -/
structure Diaries.Open (members : List NodeId) (H : Diaries) : Prop where
  elected : ∀ {v : NodeId} {k : Nat} {p : Proof}, (H v).votes[k]? = some p → H.Published members p
  announced : ∀ {src dst p}, (dst, Packet.finalize p) ∈ (H src).sent → H.Published members p

theorem Diaries.Open.empty (members : List NodeId) : Diaries.Open members fun _ => .empty where
  elected h := by cases h
  announced h := by cases h

namespace Replica

variable {members : List NodeId} {H H' : Diaries} {m : NodeId} {r : Replica} {o : Outcome}
  {heard : NodeId → Packet → Prop}

/-! ### What a reaction can have changed -/

/-- The own vote goes to the first announced event of the queue. -/
theorem new_vote (hr : Reaction heard r o) {d : Diary} {k : Nat} {p : Proof}
    (hv : (d.note r o).votes[k]? = some p) : d.votes[k]? = some p ∨
      k = d.votes.length ∧ r.ballot = none ∧
        r.store.queue.find? (r.announced.contains ·) = some p := by
  have old (hb : o.replica.ballot = r.ballot ∨ o.replica.ballot = none) : d.votes[k]? = some p := by
    rwa [votes_note hb] at hv
  cases hr with
  | cast hb _ hq _ =>
      rw [note_cast hb] at hv
      exact (getElem?_concat_cases hv).imp_right fun ⟨hk, hp⟩ => ⟨hk, hb, hp ▸ hq⟩
  | close _ _ => exact Or.inl (old (Or.inr rfl))
  | @hold voter vote _ _ _ =>
      obtain ⟨held, hh, -⟩ := hold_eq r voter vote
      rw [hh] at old
      exact Or.inl (old (Or.inl rfl))
  | schedule _ _ =>
      obtain ⟨electing, quiet, hs⟩ := scheduleElection_eq r
      rw [hs] at old
      exact Or.inl (old (Or.inl rfl))
  | _ => exact Or.inl (old (Or.inl rfl))

/-- Nobody has acknowledged a new event. -/
theorem HasAck.of_insert {r r' : Replica} {event : Event} {own : Bytes} {p : Proof} {q : NodeId}
    (hs : r'.store = (r.store.insert (event.heldWith own)).2) (h : r'.HasAck p q) :
    r.HasAck p q := by
  obtain ⟨e, he, hq⟩ := h
  rw [hs, EventStore.get?_insert] at he
  split at he
  · rw [← Option.some.inj he] at hq
    cases Std.ExtTreeSet.contains_empty.symm.trans hq
  · exact ⟨e, he, hq⟩

/-- An acknowledgement that is recorded was heard. -/
theorem new_ack (hr : Reaction heard r o) {p : Proof} {q : NodeId} (h : o.replica.HasAck p q) :
    r.HasAck p q ∨ heard q (.ack p) := by
  have counted (v : NodeId) (vote : HeldVote) (h : (r.countBallot v vote).HasAck p q) :
      r.HasAck p q := by
    obtain ⟨e, he, hq⟩ := h
    have he' := (EventStore.get?_update ..).symm.trans he
    split at he'
    · obtain ⟨e₀, he₀, rfl⟩ := Option.map_eq_some_iff.mp he'
      exact ⟨e₀, he₀, hq⟩
    · exact ⟨e, he', hq⟩
  cases hr with
  | store _ _ _ _ _ => exact Or.inl (h.of_insert rfl)
  | @noteAck sender p' event hp _ _ _ =>
      obtain ⟨e, he, hq⟩ := h
      rw [Outcome.replica_silent, EventStore.get?_update] at he
      split at he
      · rename_i hpp
        subst hpp
        obtain ⟨e', he', rfl⟩ := Option.map_eq_some_iff.mp he
        rcases contains_insert_iff.mp hq with rfl | hq
        · exact Or.inr hp
        · exact Or.inl ⟨e', he', hq⟩
      · exact Or.inl ⟨e, he, hq⟩
  | count _ _ _ => exact Or.inl (counted _ _ h)
  | release _ _ => exact Or.inl (counted _ _ h)
  | cast _ _ _ _ => exact Or.inl (counted _ _ h)
  | close _ _ =>
      obtain ⟨e, he, hq⟩ := h
      refine Or.inl ⟨e, ?_, hq⟩
      have he' := (EventStore.get?_remove ..).symm.trans he
      split at he'
      · cases he'
      · exact he'
  | @hold voter vote _ _ _ =>
      obtain ⟨held, hh, -⟩ := hold_eq r voter vote
      rw [hh] at h
      exact Or.inl h
  | schedule _ _ =>
      obtain ⟨electing, quiet, hs⟩ := scheduleElection_eq r
      rw [hs] at h
      exact Or.inl h
  | _ => exact Or.inl h

/-- What may be voted for was announced by the origin, or is an own event that everyone has
acknowledged. -/
theorem new_announcement (hr : Reaction heard r o) {p : Proof}
    (h : o.replica.announced.contains p) : r.announced.contains p ∨
      (∃ src, heard src (.finalize p)) ∨
        r.announced.contains p = false ∧
            (∀ q ∈ r.peers.toList, (q, Packet.finalize p) ∈ o.effects.copies r.peers.toList) ∧
            ∃ e, r.store.get? p = some e ∧ e.origin = r.localId ∧
              ∀ q, r.peers.contains q → e.backedResponses.contains q := by
  cases hr with
  | announceOwn he ho hn hq =>
      rcases contains_insert_iff.mp h with rfl | h
      · refine Or.inr (Or.inr ⟨hn, fun q hm => ?_, _, he, ho, hq⟩)
        rw [Effects.copies_append, Effects.copies_tell]
        exact List.mem_append_left _ (List.mem_map.mpr ⟨q, hm, rfl⟩)
      · exact Or.inl h
  | announceHeard hp _ _ _ =>
      rcases contains_insert_iff.mp h with rfl | h
      · exact Or.inr (Or.inl ⟨_, hp⟩)
      · exact Or.inl h
  | close _ _ => exact Or.inl (contains_erase_iff.mp h).2
  | @hold voter vote _ _ _ =>
      obtain ⟨held, hh, -⟩ := hold_eq r voter vote
      rw [hh] at h
      exact Or.inl h
  | schedule _ _ =>
      obtain ⟨electing, quiet, hs⟩ := scheduleElection_eq r
      rw [hs] at h
      exact Or.inl h
  | _ => exact Or.inl h

/-- A packet with a topic acknowledges what was heard, or announces an own event that everyone has
acknowledged. -/
theorem new_topic (hr : Reaction heard r o) {dst : NodeId} {packet : Packet} {t : Topic}
    (h : (dst, packet) ∈ o.effects.copies r.peers.toList) (ht : packet.topic? = some t) :
    (∃ signature event, heard dst (.propose signature event) ∧ packet = .ack event.proof) ∨
      ∃ p, packet = .finalize p ∧ dst ∈ r.peers.toList ∧ r.announced.contains p = false ∧
        o.replica.announced.contains p ∧
        (∀ q ∈ r.peers.toList, (q, packet) ∈ o.effects.copies r.peers.toList) ∧
        ∃ e, r.store.get? p = some e ∧ e.origin = r.localId ∧
          ∀ q, r.peers.contains q → e.backedResponses.contains q := by
  cases hr with
  | store hp _ _ _ _ =>
      cases List.mem_singleton.mp h
      exact Or.inl ⟨_, _, hp, rfl⟩
  | acknowledge hp _ _ _ =>
      cases List.mem_singleton.mp h
      exact Or.inl ⟨_, _, hp, rfl⟩
  | announceOwn he ho hn hq =>
      simp only [Effects.copies_append, Effects.copies_tell, Effects.copies_ite_wakeUp,
        List.append_nil, List.mem_map] at h ⊢
      obtain ⟨q, hqm, hqe⟩ := h
      cases hqe
      exact Or.inr ⟨_, rfl, hqm, hn, contains_insert_iff.mpr (Or.inl rfl),
        fun q hq => ⟨q, hq, rfl⟩, _, he, ho, hq⟩
  | announceHeard _ _ _ _ => simp at h
  | cast _ _ _ _ =>
      simp only [Effects.copies_tell, List.mem_map] at h
      obtain ⟨q, -, hqe⟩ := h
      cases hqe
      cases ht
  | @commit winner _ _ _ _ =>
      have hc : ((r.store.get? winner).elim ∅ Effects.commit).copies r.peers.toList = [] := by
        cases r.store.get? winner <;> rfl
      simp only [Effects.copies_append, hc, Effects.copies_tell, List.nil_append,
        List.mem_map] at h
      obtain ⟨q, -, hqe⟩ := h
      cases hqe
      cases ht
  | schedule _ _ =>
      obtain ⟨electing, quiet, hs⟩ := scheduleElection_eq r
      rw [hs] at h
      simp at h
  | _ => cases h

/-- What is pending was pending, or its proposal was heard. -/
theorem new_pending (hr : Reaction heard r o) {p : Proof} (h : o.replica.store.contains p) :
    r.store.contains p ∨
      ∃ src signature event, heard src (.propose signature event) ∧ event.proof = p := by
  have updated {p' : Proof} {change : Event → Event}
      (h : (r.store.update p' change).contains p) : r.store.contains p := by
    rwa [EventStore.contains_update] at h
  cases hr with
  | store hp _ _ _ _ =>
      rcases (EventStore.contains_insert ..).mp h with he | h
      · exact Or.inr ⟨_, _, _, hp, he⟩
      · exact Or.inl h
  | noteAck _ _ _ _ => exact Or.inl (updated h)
  | count _ _ _ => exact Or.inl (updated h)
  | release _ _ => exact Or.inl (updated h)
  | cast _ _ _ _ => exact Or.inl (updated h)
  | close _ _ => exact Or.inl ((EventStore.contains_remove ..).mp h).2
  | @hold voter vote _ _ _ =>
      obtain ⟨held, hh, -⟩ := hold_eq r voter vote
      rw [hh] at h
      exact Or.inl h
  | schedule _ _ =>
      obtain ⟨electing, quiet, hs⟩ := scheduleElection_eq r
      rw [hs] at h
      exact Or.inl h
  | _ => exact Or.inl h

/-- Whoever counts as ready did so before, or has said so. -/
theorem new_ready (hr : Reaction heard r o) {q : NodeId} (h : o.replica.ready.contains q) :
    r.ready.contains q ∨ heard q (.electorReady r.rounds) := by
  cases hr with
  | ready hp _ =>
      rcases contains_insert_iff.mp h with rfl | h
      · exact Or.inr hp
      · exact Or.inl h
  | close _ _ => simp [advance, Replica.closeRound, clearRound] at h
  | @hold voter vote _ _ _ =>
      obtain ⟨held, hh, -⟩ := hold_eq r voter vote
      rw [hh] at h
      exact Or.inl h
  | schedule _ _ =>
      obtain ⟨electing, quiet, hs⟩ := scheduleElection_eq r
      rw [hs] at h
      exact Or.inl h
  | _ => exact Or.inl h

/-! ### Announcing to everyone -/

/-- What a member may vote for was announced to everyone, and what it has announced itself may be
voted for until it is closed. -/
structure PublishedFirst (members : List NodeId) (m : NodeId) (H : Diaries) (r : Replica) :
    Prop where
  isOpen : H.Open members
  announced : ∀ {p}, r.announced.contains p → H.Published members p
  said : ∀ {dst p}, (dst, Packet.finalize p) ∈ (H m).sent →
    r.announced.contains p ∨ p ∈ (H m).closed r.rounds

/-- An own event is published once everyone has been told. -/
theorem published_of_told (hF : r.Faithful members H m) (hs : ∃ e ∈ (H m).sealed, e.proof = p)
    (hall : ∀ q ∈ r.peers.toList, (q, Packet.finalize p) ∈ o.effects.copies r.peers.toList) :
    (H.write m ((H m).note r o)).Published members p := by
  obtain ⟨e, he, hp⟩ := hs
  refine ⟨m, ⟨e, ?_, hp⟩, fun q hq hne => ?_⟩ <;> rw [Diaries.write_self]
  · exact he
  · exact List.mem_append_right _ (hall q (hF.seat.mem_peers hq hne))

namespace PublishedFirst

/-- What others do publishes nothing less. -/
theorem mono (h : r.PublishedFirst members m H) (ho : H'.Open members) (hH : H.Extend H')
    (hm : H' m = H m) : r.PublishedFirst members m H' where
  isOpen := ho
  announced hp := (h.announced hp).mono hH
  said := hm ▸ h.said

/-- What is closed was announced to everyone. -/
theorem of_closed (h : r.PublishedFirst members m H) (hC : Consistent members H) {q : NodeId}
    {k : Nat} {p : Proof} (hp : p ∈ (H q).closed k) : H.Published members p := by
  obtain ⟨j, -, e, he, rfl⟩ := Diary.mem_closed.mp hp
  obtain ⟨v, hv⟩ := (hC.elected he).exists_vote
  exact h.isOpen.elected hv

/-- Votes and announcements in a member's diary are new or were there before. -/
theorem isOpen_write (h : r.PublishedFirst members m H) {d : Diary} (hx : (H m).Extends d)
    (hv : ∀ {k : Nat} {p : Proof}, d.votes[k]? = some p →
      (H m).votes[k]? = some p ∨ H.Published members p)
    (hs : ∀ {dst p}, (dst, Packet.finalize p) ∈ d.sent → (dst, Packet.finalize p) ∈ (H m).sent ∨
      (H.write m d).Published members p) : (H.write m d).Open members := by
  have hH := Diaries.extend_write hx
  constructor
  · intro v k p hvk
    rcases H.write_cases m d v with ⟨rfl, hd⟩ | hd <;> rw [hd] at hvk
    · exact ((hv hvk).elim h.isOpen.elected id).mono hH
    · exact (h.isOpen.elected hvk).mono hH
  · intro src dst p hp
    rcases H.write_cases m d src with ⟨rfl, hd⟩ | hd <;> rw [hd] at hp
    · exact (hs hp).elim (fun hp => (h.isOpen.announced hp).mono hH) id
    · exact (h.isOpen.announced hp).mono hH

theorem reaction (h : r.PublishedFirst members m H) (hC : Consistent members H)
    (hF : r.Faithful members H m)
    (hh : ∀ {src packet}, heard src packet → H.Sent members src m packet)
    (hr : Reaction heard r o) :
    o.replica.PublishedFirst members m (H.write m ((H m).note r o)) := by
  have hx := (hF.continues hC hh hr).extend
  have hH := Diaries.extend_write hx
  -- whoever announces an own event tells everyone
  have told {p : Proof} (hall : ∀ q ∈ r.peers.toList,
      (q, Packet.finalize p) ∈ o.effects.copies r.peers.toList)
      (hown : ∃ e, r.store.get? p = some e ∧ e.origin = r.localId ∧
        ∀ q, r.peers.contains q → e.backedResponses.contains q) :
      (H.write m ((H m).note r o)).Published members p := by
    obtain ⟨e, he, ho, hq⟩ := hown
    exact published_of_told hF (hF.everywhere he ho hq).1 hall
  refine ⟨h.isOpen_write hx (fun hv => ?_) (fun hp => ?_), fun hp => ?_, fun {dst p} hp => ?_⟩
  · exact (new_vote hr hv).imp_right fun ⟨_, _, hq⟩ => h.announced (List.find?_some hq)
  · refine (List.mem_append.mp hp).imp_right fun hp => ?_
    rcases new_topic hr hp rfl with ⟨_, _, _, hn⟩ | ⟨p', he, -, -, -, hall, hown⟩
    · cases hn
    · cases he
      exact told hall hown
  · rcases new_announcement hr hp with ha | ⟨src, hh'⟩ | ⟨-, hall, hown⟩
    · exact (h.announced ha).mono hH
    · exact (h.isOpen.announced (hh hh').recorded).mono hH
    · exact told hall hown
  · rw [Diaries.write_self] at hp ⊢
    rcases List.mem_append.mp hp with hp | hp
    · -- what is announced stays so until its round is closed
      rcases h.said hp with ha | hc
      · rcases stays_or_close hr with hs | ⟨w, hc, -, rfl⟩
        · exact Or.inl (hs.announced ha)
        · by_cases hw : w = p
          · have hn := hF.seat.counted.rounds_lt_close w
            exact Or.inr (hx.mem_closed hn (hw ▸ hF.tracks.chosen_mem hc))
          · exact Or.inl (contains_erase_iff.mpr ⟨hw, ha⟩)
      · exact Or.inr (hx.mem_closed (hF.seat.counted.rounds_le hr) hc)
    · rcases new_topic hr hp rfl with ⟨_, _, _, hn⟩ | ⟨p', he, -, -, ha, -, -⟩
      · cases hn
      · cases he
        exact Or.inl ha

/-- So it stays when a member says something true, but announces nothing. -/
theorem say (h : r.PublishedFirst members m H) (hC : Consistent members H)
    (hF : r.Faithful members H m) {packets : List (NodeId × Packet)}
    (hn : ∀ {dst packet}, (dst, packet) ∈ packets → H.Honest members m dst packet ∧
      dst ∈ r.peers.toList ∧ ∀ p, packet ≠ .ack p ∧ packet ≠ .finalize p) :
    r.PublishedFirst members m (H.write m { H m with sent := (H m).sent ++ packets }) := by
  have hcon : Continues members H m { H m with sent := (H m).sent ++ packets } :=
    .say hC fun hs => ⟨hF.seat.target _ (hn hs).2.1, (hn hs).1⟩
  have old {dst : NodeId} {p : Proof} (hp : (dst, Packet.finalize p) ∈ (H m).sent ++ packets) :
      (dst, Packet.finalize p) ∈ (H m).sent :=
    (List.mem_append.mp hp).resolve_right fun hp => absurd rfl ((hn hp).2.2 _).2
  refine ⟨h.isOpen_write hcon.extend Or.inl fun hp => Or.inl (old hp),
    fun hp => (h.announced hp).mono (Diaries.extend_write hcon.extend), fun hp => ?_⟩
  rw [Diaries.write_self] at hp ⊢
  exact h.said (old hp)

/-- So does sealing. -/
theorem enqueue (h : r.PublishedFirst members m H) (hC : Consistent members H)
    (hF : r.Faithful members H m) {event : Event} {signature : Bytes} (signer : Signer)
    (hs : event = Event.sealed m event.timestamp event.transactions)
    (ht : r.clock < event.timestamp) : (r.enqueue event signer).PublishedFirst members m
      (H.write m ((H m).propose event signature r.peers.toList)) := by
  have hcon : Continues members H m ((H m).propose event signature r.peers.toList) :=
    hF.continues_propose hC hs ht
  have old {dst : NodeId} {p : Proof}
      (hp : (dst, Packet.finalize p) ∈ ((H m).propose event signature r.peers.toList).sent) :
      (dst, Packet.finalize p) ∈ (H m).sent := by
    refine (List.mem_append.mp hp).resolve_right fun hp => ?_
    obtain ⟨q, -, heq⟩ := List.mem_map.mp hp
    cases heq
  refine ⟨h.isOpen_write hcon.extend Or.inl fun hp => Or.inl (old hp),
    fun hp => (h.announced hp).mono (Diaries.extend_write hcon.extend), fun hp => ?_⟩
  rw [Diaries.write_self] at hp ⊢
  exact h.said (old hp)

/-- **What members announce and vote for is always published first.** -/
theorem kept {new : List Event} : Kept members m heard new (PublishedFirst members m) where
  reaction hC hF hh hr h := h.reaction hC hF hh hr
  enqueue hC hF _ hs ht h := h.enqueue hC hF _ hs ht
  say hC hF hn h := h.say hC hF hn

end PublishedFirst

end Replica

namespace Chronicle

variable {members : List NodeId} {H H' : Diaries} {c c' : Chronicle} {move : Move}

/-- All members announce and vote for published events only. -/
def PublishedFirst (members : List NodeId) (H : Diaries) (c : Chronicle) : Prop :=
  ∀ ⦃id : NodeId⦄ ⦃s : Station⦄, c.network.stations[id]? = some s →
    s.replica.PublishedFirst members id H

/-- Whatever happens, they stay so. -/
theorem Moved.publishedFirst (hm : Moved members H c move H' c') (h : c.PublishedFirst members H) :
    c'.PublishedFirst members H' := by
  have turn {id : NodeId} {s t : Station} {o : Outcome} {new : List Event} {n : Network}
      {heard : NodeId → Packet → Prop} (hst : n.stations = c.network.stations)
      (hs : c.network.stations[id]? = some s) (ht : Turn members id heard H s.replica H' o new) :
      (c.settle n id t o new).PublishedFirst members H' := by
    have ho := ht.kept Replica.PublishedFirst.kept (h hs)
    intro q u hq
    rcases station_of_settleOutcome hst hq with ⟨rfl, rfl⟩ | ⟨hne, hq⟩
    · exact ho
    · exact (h hq).mono ho.isOpen ht.extend (ht.others hne)
  cases hm with
  | asked hs _ ht => exact turn rfl hs ht
  | delivered _ hs _ ht _ => exact turn (n := c.network.withdraw _ _ _) rfl hs ht
  | _ => exact h

theorem publishedFirst_founded (shard : ShardId) (members : List NodeId)
    (signers : NodeId → Signer) :
    (founded shard members signers).PublishedFirst members fun _ => .empty := by
  intro id s hs
  refine ⟨.empty members, fun hp => ?_, nofun⟩
  -- nobody can have announced what nobody has sealed
  have hF := (accords_founded shard members signers).faithful hs
  obtain ⟨e, he⟩ := EventStore.contains_iff.mp (hF.wellFormed.announced hp)
  cases hF.trusts.content he

end Chronicle

end ShardGossip

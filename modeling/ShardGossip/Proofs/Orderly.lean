import ShardGossip.Proofs.PublishedFirst

/-!
# ShardGossip.Proofs.Orderly

**A member of an ordered shard queues, acknowledges, announces and votes for events in the order in
which their origin sealed them**, as long as it hears of them in that order (`Proceeds.kept`). The
earlier event may also be closed by then, so the order is one up to what the member has closed
(`Orderly`).

The step that is not local is the vote. The event voted for is the first announced one of the queue;
an earlier one would be announced as well and stand before it, so it is closed.
-/

namespace ShardGossip

/-- Nothing that passes the test stands before the first element found by it. -/
theorem not_of_find?_eq_some {α : Type} {l : List α} {f : α → Bool} {a b : α}
    (h : l.find? f = some b) (hn : l.Nodup) (hs : [a, b].Sublist l) : f a = false := by
  obtain ⟨-, before, after, rfl, hf⟩ := List.find?_eq_some_iff_append.mp h
  rw [List.nodup_append, List.nodup_cons] at hn
  obtain ⟨l₁, l₂, he, h₁, h₂⟩ := List.sublist_append_iff.mp hs
  cases l₁ with
  | nil =>
      -- then the second one stands twice in the list
      rw [List.nil_append] at he
      subst he
      have hb : b ∈ after := by
        cases h₂ with
        | cons _ h => exact h.subset (by simp)
        | cons_cons _ h => exact h.subset (by simp)
      exact absurd hb hn.2.1.1
  | cons x rest =>
      obtain ⟨rfl, -⟩ := List.cons.inj he
      simpa using hf _ (h₁.subset List.mem_cons_self)

namespace Replica

variable {members : List NodeId} {H H' : Diaries} {m : NodeId} {r : Replica} {o : Outcome}
  {heard : NodeId → Packet → Prop}

/-! ### Members in order -/

/-- A member's state keeps the order of sealing, up to what the member has closed. -/
structure Orderly (H : Diaries) (m : NodeId) (r : Replica) : Prop where
  queued : ∀ {p p'}, H.Earlier p p' → r.store.contains p' →
    p ∈ (H m).closed r.rounds ∨ [p, p'].Sublist r.store.queue
  acked : ∀ {p p' q}, H.Earlier p p' → r.HasAck p' q → p ∈ (H m).closed r.rounds ∨ r.HasAck p q
  announced : ∀ {p p'}, H.Earlier p p' → r.announced.contains p' →
    p ∈ (H m).closed r.rounds ∨ r.announced.contains p

/-- Of the own events that everyone has acknowledged at most one is still to be announced. -/
def Quorate (d : Diary) (focus : Proof) (r : Replica) : Prop :=
  ∀ ⦃p⦄, (∃ e ∈ d.sealed, e.proof = p) → r.store.contains p → r.announced.contains p = false →
    (∀ q, r.peers.contains q → r.HasAck p q) → p = focus

/-- A member of an ordered shard is about to do something: what it hears of is on record, and it is
done with all that was to be said before. -/
structure Proceeds (members : List NodeId) (m : NodeId) (heard : NodeId → Packet → Prop)
    (focus : Proof) (H : Diaries) (r : Replica) : Prop where
  ordered : Ordered members H
  orderly : r.Orderly H m
  publishedFirst : r.PublishedFirst members m H
  told : r.Told members m (H m)
  quorate : r.Quorate (H m) focus
  sent : ∀ {src packet}, heard src packet → H.Sent members src m packet
  due : ∀ {src packet t t'}, heard src packet → packet.topic? = some t → H.Before t' t →
    t'.Done (H m) r src

theorem HasAck.contains {p : Proof} {q : NodeId} (h : r.HasAck p q) : r.store.contains p := by
  obtain ⟨e, he, -⟩ := h
  exact EventStore.contains_of_get? he

/-- What is pending was sealed by somebody. -/
theorem Faithful.recorded (h : r.Faithful members H m) {p : Proof} (hp : r.store.contains p) :
    H.Recorded p := by
  obtain ⟨e, he⟩ := EventStore.contains_iff.mp hp
  have hk : e.proof = p := h.wellFormed.store.keyed he
  exact ⟨_, e.forWire, h.trusts.content he, hk⟩

/-- A member's state stays orderly while the diaries grow. -/
theorem Orderly.mono (h : r.Orderly H m) (hF : r.Faithful members H m)
    (hC' : Consistent members H') (hH : H.Extend H') : r.Orderly H' m := by
  have past {p : Proof} (hp : p ∈ (H m).closed r.rounds) : p ∈ (H' m).closed r.rounds :=
    (hH m).mem_closed (Nat.le_refl _) hp
  constructor
  · intro p p' he hp
    exact (h.queued (he.of_extend hC' hH (hF.recorded hp)) hp).imp_left past
  · intro p p' q he hp
    exact (h.acked (he.of_extend hC' hH (hF.recorded hp.contains)) hp).imp_left past
  · intro p p' he hp
    have hrec := hF.recorded (hF.wellFormed.announced hp)
    exact (h.announced (he.of_extend hC' hH hrec) hp).imp_left past

/-! ### Staying in order -/

namespace Proceeds

variable {focus : Proof} {p p' : Proof}

/-- Whatever is earlier than an own event that everyone has acknowledged is announced or closed: all
have acknowledged it too. -/
theorem announced_of_acked (h : Proceeds members m heard focus H r) (hC : Consistent members H)
    (hF : r.Faithful members H m) (he : H.Earlier p p') (hs : ∃ e ∈ (H m).sealed, e.proof = p')
    (hp : r.store.contains p') (hn : r.announced.contains p' = false)
    (hq : ∀ q, r.peers.contains q → r.HasAck p' q) :
    p ∈ (H m).closed r.rounds ∨ r.announced.contains p := by
  obtain ⟨e', he', hp'⟩ := hs
  have hown := he.sealed hC he' hp'
  rcases hF.tracks.known (Or.inl hown) with hst | hc
  · apply Classical.byContradiction
    intro hnot
    rw [not_or, Bool.not_eq_true] at hnot
    -- two own events would be acknowledged by all and not announced
    have hfocus := h.quorate hown hst hnot.2 fun q hqp =>
      (h.orderly.acked he (hq q hqp)).resolve_left hnot.1
    exact he.ne hC (hfocus.trans (h.quorate ⟨e', he', hp'⟩ hp hn hq).symm)
  · exact Or.inl hc

/-- Whatever is earlier than the first announced event of the queue is closed. -/
theorem closed_of_find (h : Proceeds members m heard focus H r) (hF : r.Faithful members H m)
    (he : H.Earlier p p') (hq : r.store.queue.find? (r.announced.contains ·) = some p') :
    p ∈ (H m).closed r.rounds := by
  have hst := hF.wellFormed.store.queued.mp (List.mem_of_find?_eq_some hq)
  have ha : r.announced.contains p' := List.find?_some hq
  rcases h.orderly.queued he hst with hc | hs
  · exact hc
  · refine (h.orderly.announced he ha).resolve_right fun hp => ?_
    rw [not_of_find?_eq_some hq hF.wellFormed.store.nodup hs] at hp
    cases hp

theorem published (h : Proceeds members m heard focus H r) (hC : Consistent members H)
    (hp : p ∈ (H m).closed r.rounds ∨ r.announced.contains p) : H.Published members p :=
  hp.elim (h.publishedFirst.of_closed hC) h.publishedFirst.announced

/-- Done is done. -/
theorem done_reaction (h : Proceeds members m heard focus H r) (hC : Consistent members H)
    (hF : r.Faithful members H m) (hr : Reaction heard r o) {t : Topic} {q : NodeId}
    (ht : t.Done (H m) r q) : t.Done ((H m).note r o) o.replica q := by
  have taken (packet : Packet) (hn : packet.isBallot = false) (ht : Taken (H m) r q packet) :
      Taken ((H m).note r o) o.replica q packet :=
    hF.taken_reaction hC h.sent hr (fun hb => by rw [hn] at hb; cases hb) ht
  obtain ⟨saying, p⟩ := t
  cases saying with
  | proposal => exact (hF.continues hC h.sent hr).extend.sent.subset ht
  | ack => exact taken (.ack p) rfl ht
  | announcement => exact taken (.finalize p) rfl ht

theorem ordered_reaction (h : Proceeds members m heard focus H r) (hC : Consistent members H)
    (hF : r.Faithful members H m) (hr : Reaction heard r o) :
    Ordered members (H.write m ((H m).note r o)) := by
  have hcon := hF.continues hC h.sent hr
  have hC' := hC.write hF.seat.member hcon
  have hsame {p p' : Proof} (hp : H.Recorded p') (he : (H.write m ((H m).note r o)).Earlier p p') :
      H.Earlier p p' := he.of_extend hC' (Diaries.extend_write hcon.extend) hp
  -- an announced event is the member's own, and everyone has acknowledged it
  have own {p : Proof} (hp : ∃ e, r.store.get? p = some e ∧ e.origin = r.localId ∧
      ∀ q, r.peers.contains q → e.backedResponses.contains q) :
      (∃ e ∈ (H m).sealed, e.proof = p) ∧ r.store.contains p ∧
        ∀ q, r.peers.contains q → r.HasAck p q := by
    obtain ⟨e, he, ho, hq⟩ := hp
    exact ⟨(hF.everywhere he ho hq).1, EventStore.contains_of_get? he,
      fun q hqp => ⟨e, he, hq q hqp⟩⟩
  refine h.ordered.write hC hC' hcon.extend ?_ rfl ?_
  · intro k p' hv
    refine (new_vote hr hv).imp_right fun ⟨hk, hb, hq⟩ => ?_
    rw [hF.tracks.length_of_unvoted hb] at hk
    have hst := hF.wellFormed.store.queued.mp (List.mem_of_find?_eq_some hq)
    exact ⟨hF.recorded hst, fun p he => hk ▸ h.closed_of_find hF he hq⟩
  · intro dst packet t hp ht t' hb
    rcases new_topic hr hp ht with ⟨signature, event, hh, rfl⟩ | ⟨p', rfl, hdst, hn, -, -, hown⟩
    · obtain rfl := Option.some.inj ht
      obtain ⟨saying, p⟩ := t'
      obtain ⟨rfl, he⟩ := hb
      have hrec := Diaries.recorded_of_topic hC (h.sent hh).recorded rfl
      -- the earlier event was proposed before, so it has been acknowledged
      have hd : Topic.Done (H m) r dst ⟨.proposal, p⟩ := h.due hh rfl ⟨rfl, hsame hrec he⟩
      exact ⟨.ack p, hd, rfl⟩
    · obtain rfl := Option.some.inj ht
      obtain ⟨saying, p⟩ := t'
      obtain ⟨rfl, he⟩ := hb
      obtain ⟨hs, hst, hq⟩ := own hown
      have he := hsame (hF.recorded hst) he
      obtain ⟨e', he', hp'⟩ := hs
      obtain ⟨hm, hne⟩ := hF.seat.target _ hdst
      have hpub := h.published hC (h.announced_of_acked hC hF he ⟨e', he', hp'⟩ hst hn hq)
      exact ⟨.finalize p, hpub.sent hC (he.sealed hC he' hp') hm (Ne.symm hne), rfl⟩

/-- The queue keeps its order, whether it grows at the back or loses the winner of a round. -/
theorem queued_reaction (h : Proceeds members m heard focus H r) (hC : Consistent members H)
    (hF : r.Faithful members H m) (hr : Reaction heard r o) (he : H.Earlier p p')
    (hp : o.replica.store.contains p') :
    p ∈ ((H m).note r o).closed o.replica.rounds ∨ [p, p'].Sublist o.replica.store.queue := by
  have hx := (hF.continues hC h.sent hr).extend
  have past (hp : p ∈ (H m).closed r.rounds) : p ∈ ((H m).note r o).closed o.replica.rounds :=
    hx.mem_closed (hF.seat.counted.rounds_le hr) hp
  have same (hq : o.replica.store.queue = r.store.queue) (hc : r.store.contains p') :
      p ∈ ((H m).note r o).closed o.replica.rounds ∨ [p, p'].Sublist o.replica.store.queue := by
    rw [hq]
    exact (h.orderly.queued he hc).imp_left past
  have updated {q : Proof} {change : Event → Event}
      (h : (r.store.update q change).contains p') : r.store.contains p' := by
    rwa [EventStore.contains_update] at h
  cases hr with
  | @store sender signature own event hh _ _ _ hn =>
      have hq : (r.store.insert (event.heldWith own)).2.queue = r.store.queue ++ [event.proof] :=
        EventStore.queue_insert (show r.store.contains (event.heldWith own).proof = false from hn)
      show _ ∨ [p, p'].Sublist (r.store.insert (event.heldWith own)).2.queue
      rw [hq]
      rcases (EventStore.contains_insert ..).mp hp with rfl | hp
      · -- the earlier event has been proposed before, so it is here, or closed
        have hd : Topic.Done (H m) r sender ⟨.proposal, p⟩ := h.due hh rfl ⟨rfl, he⟩
        refine (hF.tracks.known (Or.inr ⟨_, hd⟩)).symm.imp past fun hst => ?_
        have hs := List.singleton_sublist.mpr (hF.wellFormed.store.queued.mpr hst)
        exact hs.append (.refl _)
      · exact (h.orderly.queued he hp).imp past fun hs => hs.trans (List.sublist_append_left _ _)
  | noteAck _ _ _ _ => exact same (EventStore.queue_update ..) (updated hp)
  | count _ _ _ => exact same (EventStore.queue_update ..) (updated hp)
  | release _ _ => exact same (EventStore.queue_update ..) (updated hp)
  | cast _ _ _ _ => exact same (EventStore.queue_update ..) (updated hp)
  | @close w hc _ =>
      obtain ⟨hne, hp⟩ := (EventStore.contains_remove ..).mp hp
      by_cases hw : w = p
      · have hn := hF.seat.counted.rounds_lt_close w
        exact Or.inl (hw ▸ hx.mem_closed hn (hF.tracks.chosen_mem hc))
      · refine (h.orderly.queued he hp).imp past fun hs => ?_
        exact EventStore.sublist_queue_remove hs (by simp [hw, hne])
  | @hold voter vote _ _ _ =>
      obtain ⟨held, hh, -⟩ := hold_eq r voter vote
      rw [hh] at hp same ⊢
      exact same rfl hp
  | schedule _ _ =>
      obtain ⟨electing, quiet, hs⟩ := scheduleElection_eq r
      rw [hs] at hp same ⊢
      exact same rfl hp
  | _ => exact same rfl hp

theorem orderly_reaction (h : Proceeds members m heard focus H r) (hC : Consistent members H)
    (hF : r.Faithful members H m) (hr : Reaction heard r o) :
    o.replica.Orderly (H.write m ((H m).note r o)) m := by
  have hO := h.ordered_reaction hC hF hr
  have hcon := hF.continues hC h.sent hr
  have hC' := hC.write hF.seat.member hcon
  have hH := Diaries.extend_write hcon.extend
  have hF' := (hF.reaction hC h.sent hr).2
  -- a reaction seals nothing
  have hsame {p p' : Proof} (he : (H.write m ((H m).note r o)).Earlier p p') : H.Earlier p p' := by
    obtain ⟨q, e, he, e', he', hlt⟩ := he
    have hs : (H.write m ((H m).note r o) q).sealed = (H q).sealed := by
      rcases H.write_cases m ((H m).note r o) q with ⟨rfl, hd⟩ | hd <;> rw [hd]
      rfl
    rw [hs] at he he'
    exact ⟨q, e, he, e', he', hlt⟩
  constructor
  · intro p p' he hp
    rw [Diaries.write_self]
    exact h.queued_reaction hC hF hr (hsame he) hp
  · intro p p' q he hp
    rw [Diaries.write_self]
    have hd : Topic.Done (H m) r q ⟨.ack, p⟩ := by
      rcases new_ack hr hp with ha | hh
      · exact h.orderly.acked (hsame he) ha
      · exact h.due hh rfl ⟨rfl, hsame he⟩
    exact h.done_reaction hC hF hr hd
  · intro p p' he hp
    rw [Diaries.write_self]
    obtain ⟨src, hd⟩ : ∃ src, Topic.Done (H m) r src ⟨.announcement, p⟩ := by
      rcases new_announcement hr hp with ha | ⟨src, hh⟩ | ⟨hn, -, e, hst, ho, hq⟩
      · exact ⟨m, h.orderly.announced (hsame he) ha⟩
      · exact ⟨src, h.due hh rfl ⟨rfl, hsame he⟩⟩
      · exact ⟨m, h.announced_of_acked hC hF (hsame he) (hF.everywhere hst ho hq).1
          (EventStore.contains_of_get? hst) hn fun q hqp => ⟨e, hst, hq q hqp⟩⟩
    exact h.done_reaction (q := src) hC hF hr hd

/-- It is still true that at most one own event waits to be announced, unless an acknowledgement of
another one was heard. -/
theorem quorate_reaction (h : Proceeds members m heard focus H r) (hC : Consistent members H)
    (hfocus : ∀ {src p}, heard src (.ack p) → p = focus)
    (hr : Reaction heard r o) : o.replica.Quorate ((H m).note r o) focus := by
  intro p hs hp hn hq
  rw [hr.peers] at hq
  by_cases hh : ∃ q, heard q (.ack p)
  · obtain ⟨q, hh⟩ := hh
    exact hfocus hh
  · refine h.quorate hs ?_ ?_ fun q hqp =>
      (new_ack hr (hq q hqp)).resolve_right fun ha => hh ⟨q, ha⟩
    · refine (new_pending hr hp).resolve_right ?_
      rintro ⟨src, signature, event, hprop, hep⟩
      -- the member has sealed the event itself, so nobody else proposes it
      obtain ⟨e, he, hep'⟩ := hs
      have hsent := h.sent hprop
      exact hsent.distinct (hC.eq_of_proof (hC.honest hsent.recorded) he (hep.trans hep'.symm)).1
    · rw [← Bool.not_eq_true] at hn ⊢
      refine fun ha => hn ?_
      rcases stays_or_close hr with hstay | ⟨w, -, -, rfl⟩
      · exact hstay.announced ha
      · exact contains_erase_iff.mpr ⟨((EventStore.contains_remove ..).mp hp).1, ha⟩

/-- What has been heard was due, and stays so while the diaries grow. -/
theorem extend {r' : Replica} (h : Proceeds members m heard focus H r) (hC : Consistent members H)
    (hC' : Consistent members H') (hH : H.Extend H') (ordered : Ordered members H')
    (orderly : r'.Orderly H' m) (publishedFirst : r'.PublishedFirst members m H')
    (told : r'.Told members m (H' m))
    (quorate : r'.Quorate (H' m) focus)
    (done : ∀ {t : Topic} {src : NodeId}, t.Done (H m) r src → t.Done (H' m) r' src) :
    Proceeds members m heard focus H' r' where
  ordered := ordered
  orderly := orderly
  publishedFirst := publishedFirst
  told := told
  quorate := quorate
  sent hh := (h.sent hh).mono hH
  due hh ht hb :=
    have hrec := Diaries.recorded_of_topic hC (h.sent hh).recorded ht
    done (h.due hh ht (hb.of_extend hC' hH hrec))

theorem reaction (h : Proceeds members m heard focus H r) (hC : Consistent members H)
    (hF : r.Faithful members H m) (hfocus : ∀ {src p}, heard src (.ack p) → p = focus)
    (hr : Reaction heard r o) :
    Proceeds members m heard focus (H.write m ((H m).note r o)) o.replica := by
  have hcon := hF.continues hC h.sent hr
  have hself := Diaries.write_self H m ((H m).note r o)
  refine h.extend hC (hC.write hF.seat.member hcon) (Diaries.extend_write hcon.extend)
    (h.ordered_reaction hC hF hr) (h.orderly_reaction hC hF hr)
    (h.publishedFirst.reaction hC hF h.sent hr) ?_ ?_ fun hd => ?_ <;> rw [hself]
  · exact hF.told_reaction hC h.sent hr h.told
  · exact h.quorate_reaction hC hfocus hr
  · exact h.done_reaction hC hF hr hd

/-- Saying something true, but no acknowledgement and no announcement, keeps the order: what was
sealed before has been proposed before. -/
theorem say (h : Proceeds members m heard focus H r) (hC : Consistent members H)
    (hF : r.Faithful members H m) {packets : List (NodeId × Packet)}
    (hn : ∀ {dst packet}, (dst, packet) ∈ packets → H.Honest members m dst packet ∧
      dst ∈ r.peers.toList ∧ ∀ p, packet ≠ .ack p ∧ packet ≠ .finalize p) :
    Proceeds members m heard focus
      (H.write m { H m with sent := (H m).sent ++ packets }) r := by
  have hcon : Continues members H m { H m with sent := (H m).sent ++ packets } :=
    .say hC fun hs => ⟨hF.seat.target _ (hn hs).2.1, (hn hs).1⟩
  have hC' := hC.write hF.seat.member hcon
  have hH := Diaries.extend_write hcon.extend
  have hself := Diaries.write_self H m { H m with sent := (H m).sent ++ packets }
  refine h.extend hC hC' hH ?_ (h.orderly.mono hF hC' hH) (h.publishedFirst.say hC hF hn) ?_ ?_
    fun {t src} hd => ?_
  · refine h.ordered.write hC hC' hcon.extend Or.inl rfl fun {dst packet t} hs ht t' hb => ?_
    obtain ⟨honest, hdst, hno⟩ := hn hs
    cases packet with
    | propose signature e =>
        obtain rfl := Option.some.inj ht
        obtain ⟨saying, p⟩ := t'
        obtain ⟨rfl, he⟩ := hb
        obtain ⟨e', he', rfl⟩ := (he.of_extend hC' hH ⟨m, e, honest, rfl⟩).sealed hC honest rfl
        obtain ⟨hm, hne⟩ := hF.seat.target _ hdst
        obtain ⟨signature', hs'⟩ := h.told.proposed e' he' dst hm (Ne.symm hne)
        exact ⟨_, hs', rfl⟩
    | ack p => exact absurd rfl (hno p).1
    | finalize p => exact absurd rfl (hno p).2
    | _ => cases ht
  · rw [hself]
    exact h.told.more _
  · rw [hself]
    exact h.quorate
  · rw [hself]
    obtain ⟨saying, p⟩ := t
    cases saying with
    | proposal => exact List.mem_append_left _ hd
    | _ => exact hd

section Sealing

variable {event : Event} {signature : Bytes} {signer : Signer}

/-- Whatever was sealed before a new own event has been proposed before. -/
theorem told_of_earlier {peers : List NodeId} (h : Proceeds members m heard focus H r)
    (hC' : Consistent members (H.write m ((H m).propose event signature peers)))
    (he : (H.write m ((H m).propose event signature peers)).Earlier p event.proof) :
    ∃ e ∈ (H m).sealed, e.proof = p ∧ ∀ q ∈ members, q ≠ m →
      ∃ signature, (q, Packet.propose signature e) ∈ (H m).sent := by
  have hself := Diaries.write_self H m ((H m).propose event signature peers)
  obtain ⟨q, e, he, e', he', hlt, rfl, hp⟩ := he
  have hnew : event ∈ (H.write m ((H m).propose event signature peers) m).sealed := by
    rw [hself]
    exact List.mem_append_right _ List.mem_cons_self
  obtain ⟨rfl, rfl⟩ := hC'.eq_of_proof he' hnew hp
  rw [hself] at he
  rcases List.mem_append.mp he with he | he
  · exact ⟨e, he, rfl, fun q hq hne => h.told.proposed e he q hq hne⟩
  · obtain rfl := List.mem_singleton.mp he
    exact absurd hlt (Nat.lt_irrefl _)

theorem ordered_enqueue (h : Proceeds members m heard focus H r) (hC : Consistent members H)
    (hF : r.Faithful members H m)
    (hcon : Continues members H m ((H m).propose event signature r.peers.toList)) :
    Ordered members (H.write m ((H m).propose event signature r.peers.toList)) := by
  have hC' := hC.write hF.seat.member hcon
  refine h.ordered.write hC hC' hcon.extend Or.inl rfl fun {dst packet t} hsent htopic t' hb => ?_
  obtain ⟨q, hq, heq⟩ := List.mem_map.mp hsent
  cases heq
  obtain rfl := Option.some.inj htopic
  obtain ⟨saying, p⟩ := t'
  obtain ⟨rfl, he⟩ := hb
  obtain ⟨e, -, rfl, hall⟩ := h.told_of_earlier hC' he
  obtain ⟨hm, hne⟩ := hF.seat.target _ hq
  obtain ⟨signature', hs'⟩ := hall _ hm (Ne.symm hne)
  exact ⟨_, hs', rfl⟩

/-- A new own event goes to the back of the queue, and nobody has acknowledged it. -/
theorem orderly_enqueue (h : Proceeds members m heard focus H r) (hC : Consistent members H)
    (hF : r.Faithful members H m)
    (hcon : Continues members H m ((H m).propose event signature r.peers.toList))
    (hnew : r.store.contains event.proof = false) :
    (r.enqueue event signer).Orderly
      (H.write m ((H m).propose event signature r.peers.toList)) m := by
  have hC' := hC.write hF.seat.member hcon
  have hH := Diaries.extend_write hcon.extend
  have hmono := h.orderly.mono hF hC' hH
  have hqueue : (r.enqueue event signer).store.queue = r.store.queue ++ [event.proof] :=
    EventStore.queue_insert (show r.store.contains (event.heldWith _).proof = false from hnew)
  constructor
  · intro p p' he hp
    rw [hqueue]
    rcases contains_enqueue.mp hp with rfl | hp
    · obtain ⟨e, hes, hep, -⟩ := h.told_of_earlier hC' he
      rcases hF.tracks.known (Or.inl ⟨e, hes, hep⟩) with hst | hc
      · have hs := List.singleton_sublist.mpr (hF.wellFormed.store.queued.mpr hst)
        exact Or.inr (hs.append (.refl _))
      · exact Or.inl ((hH m).mem_closed (Nat.le_refl _) hc)
    · exact (hmono.queued he hp).imp_right fun hs => hs.trans (List.sublist_append_left _ _)
  · exact fun he hp => (hmono.acked he (hp.of_insert rfl)).imp_right stays_enqueue.acks
  · exact fun he hp => hmono.announced he hp

theorem quorate_enqueue (h : Proceeds members m heard focus H r) (hfocus : event.proof = focus)
    {peers : List NodeId} :
    (r.enqueue event signer).Quorate ((H m).propose event signature peers) focus := by
  intro p hp hst hn hq
  by_cases hpe : event.proof = p
  · exact hpe ▸ hfocus
  · obtain ⟨e, he, hep⟩ := hp
    refine h.quorate ⟨e, ?_, hep⟩ ?_ hn fun q hqp => (hq q hqp).of_insert rfl
    · refine (List.mem_append.mp he).resolve_right fun he => hpe ?_
      exact List.mem_singleton.mp he ▸ hep
    · exact (contains_enqueue.mp hst).resolve_left hpe

theorem done_enqueue {peers : List NodeId} {t : Topic} {src : NodeId} (ht : t.Done (H m) r src) :
    t.Done ((H m).propose event signature peers) (r.enqueue event signer) src := by
  obtain ⟨saying, p⟩ := t
  cases saying with
  | proposal => exact List.mem_append_left _ ht
  | ack => exact ht.imp_right stays_enqueue.acks
  | announcement => exact ht

/-- Storing and proposing a new own event keeps the order. -/
theorem enqueue (h : Proceeds members m heard focus H r) (hC : Consistent members H)
    (hF : r.Faithful members H m) (signer : Signer) (hfocus : event.proof = focus)
    (hs : event = Event.sealed m event.timestamp event.transactions)
    (ht : r.clock < event.timestamp) :
    Proceeds members m heard focus
      (H.write m ((H m).propose event signature r.peers.toList)) (r.enqueue event signer) := by
  have hcon : Continues members H m ((H m).propose event signature r.peers.toList) :=
    hF.continues_propose hC hs ht
  have hself := Diaries.write_self H m ((H m).propose event signature r.peers.toList)
  have hnew : r.store.contains event.proof = false := by
    rw [← Bool.not_eq_true]
    exact fun hp => hF.ne_of_pending hC hs ht hp rfl
  refine h.extend hC (hC.write hF.seat.member hcon) (Diaries.extend_write hcon.extend)
    (h.ordered_enqueue hC hF hcon) (h.orderly_enqueue hC hF hcon hnew)
    (h.publishedFirst.enqueue hC hF signer hs ht) ?_ ?_ fun {t src} hd => ?_ <;> rw [hself]
  · exact h.told.enqueue hF.seat fun hp => hF.ne_of_pending hC hs ht (hF.wellFormed.announced hp)
  · exact h.quorate_enqueue hfocus
  · exact done_enqueue hd

end Sealing

/-- **Order is kept.** Whatever a member does, it stays in order, as long as it only hears of
acknowledgements of the event that it may announce next, and seals no other. -/
theorem kept {new : List Event} (hfocus : ∀ {src p}, heard src (.ack p) → p = focus)
    (hnew : ∀ e ∈ new, e.proof = focus) :
    Kept members m heard new (Proceeds members m heard focus) where
  reaction hC hF _ hr h := h.reaction hC hF hfocus hr
  enqueue hC hF he hs ht h := h.enqueue hC hF _ (hnew _ he) hs ht
  say hC hF hn h := h.say hC hF hn

end Proceeds

end Replica

end ShardGossip

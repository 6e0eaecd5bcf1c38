import ShardGossip.Proofs.PublishedFirst

/-!
# ShardGossip.Proofs.NoClosedPending

**No member holds an event that it has closed**, if the links deliver what they hold in order and at
most once, whatever they lose (`noClosedPending_of_inSequence`).

A member that has forgotten an event could only get it back by a late proposal. But a member
proposes what it has not announced, hence what nobody has committed, and it says that it is ready
after it has committed; so behind its word of being ready for a round there is no proposal of
anything that was committed up to then (`NoClosedPending.behind`). And nobody closes a round before
that word has come from everyone.
-/

namespace ShardGossip

open Network

/-- Whether a move takes packets off the links in order, and repeats none. -/
def Network.Move.inSequence : Network.Move → Bool
  | deliver _ _ position => position = 0
  | duplicate .. => false
  | _ => true

namespace Replica

variable {members : List NodeId} {H H' : Diaries} {m : NodeId} {r : Replica} {o : Outcome}
  {heard : NodeId → Packet → Prop} {offers offers' : NodeId → Event → Prop}

/-! ### What is proposed -/

/-- Handling packets and running elections proposes nothing. -/
theorem not_mem_copies_of_steps (hs : Steps (Reaction heard) r o) {q : NodeId} {signature : Bytes}
    {e : Event} : (q, Packet.propose signature e) ∉ o.effects.copies r.peers.toList := by
  induction hs with
  | done r => exact nofun
  | step hr _ ih =>
      rw [Effects.copies_append, List.mem_append]
      rintro (h | h)
      · rcases new_topic hr h rfl with ⟨_, _, _, h⟩ | ⟨_, h, _⟩ <;> cases h
      · exact ih (hr.peers.symm ▸ h)

/-- Looking at a quorum commits nothing. -/
theorem committed_checkAckQuorum (r : Replica) (p : Proof) :
    (r.checkAckQuorum p).effects.committed = [] := by
  rcases r.checkAckQuorum_cases p with ⟨he, -⟩ | ⟨event, -, -, -, -, he⟩ <;> rw [he]
  · rfl
  · rw [Effects.committed_append]
    exact List.append_eq_nil_iff.mpr ⟨Effects.committed_tell .., Effects.committed_ite_wakeUp _⟩

/-- Sealing commits nothing, and proposes what it seals. -/
theorem committed_sealEvent (r : Replica) (now : Nat) (signer : Signer) :
    (r.sealEvent now signer).effects.committed = [] := by
  rw [sealEvent_eq]
  split
  · rfl
  · rw [Outcome.effects_andThen, Effects.committed_append, Outcome.committed_tellAll,
      committed_checkAckQuorum, List.append_nil]
    rfl

theorem proposed_of_sealEvent {now : Nat} {signer : Signer} {q : NodeId} {signature : Bytes}
    {e : Event} (hp : (q, Packet.propose signature e) ∈
      (r.sealEvent now signer).effects.copies r.peers.toList) :
    ∃ event, r.nextEvent? now = some event ∧ e.proof = event.proof := by
  rw [sealEvent_eq] at hp
  split at hp
  · cases hp
  · rename_i event hn
    rw [Outcome.effects_andThen, Effects.copies_append, List.mem_append] at hp
    rcases hp with hp | hp
    · have hp' : (q, Packet.propose signature e) ∈ (if r.isAlone then ∅ else
          Effects.broadcast (proposal signer event) : Effects).copies r.peers.toList := hp
      rw [Effects.copies_tell] at hp'
      obtain ⟨_, -, heq⟩ := List.mem_map.mp hp'
      cases heq
      exact ⟨event, hn, rfl⟩
    · have hs : Steps (Reaction silence) (r.enqueue event signer) _ :=
        checkAckQuorum_steps _ event.proof
      exact absurd hp (not_mem_copies_of_steps hs)

/-- Sending again commits nothing, and proposes again what is not announced. -/
theorem committed_retransmit (r : Replica) (signer : Signer) :
    (r.retransmit signer).effects.committed = [] := by
  unfold retransmit
  split <;> rfl

theorem proposed_of_retransmit {signer : Signer} {q : NodeId} {signature : Bytes} {e : Event}
    (hp : (q, Packet.propose signature e) ∈
      (r.retransmit signer).effects.copies r.peers.toList) :
    q ∈ r.peers.toList ∧ ∃ e' ∈ r.unannounced, e'.forWire = e := by
  unfold retransmit at hp
  split at hp
  · cases hp
  · obtain ⟨hp, hq⟩ := mem_copies_broadcast.mp hp
    have hno : Packet.propose signature e ∉ r.roundReminder := by
      unfold roundReminder
      split <;> simp
    obtain ⟨e', he', heq⟩ := List.mem_map.mp ((List.mem_append.mp hp).resolve_right hno)
    cases heq
    exact ⟨hq, e', he', rfl⟩

/-- An own event that is pending and not announced is committed by nobody: whoever votes for it has
been told of its announcement. -/
theorem PublishedFirst.uncommitted (h : r.PublishedFirst members m H) (hC : Consistent members H)
    (hF : r.Faithful members H m) {p : Proof} {e : Event} (he : r.store.get? p = some e)
    (ho : e.origin = m) (hp : p ∉ (H m).closed r.rounds) (ha : r.announced.contains p = false)
    {q : NodeId} (hq : q ∈ members) (hne : q ≠ m) (k : Nat) : p ∉ (H m).closed k := by
  intro hk
  have hk' : e.proof = p := hF.wellFormed.store.keyed he
  have hs : ∃ e ∈ (H m).sealed, e.proof = p := ⟨e.forWire, ho ▸ hF.trusts.content he, hk'⟩
  rcases h.said ((h.of_closed hC hk).sent hC hs hq hne) with ha' | hc
  · rw [ha] at ha'
    cases ha'
  · exact hp hc

/-! ### Holding nothing that is closed -/

/-- A member neither holds nor is offered what it has closed, or would close with a round that the
one who offers it is ready for. -/
structure NoClosedPending (m : NodeId) (heard : NodeId → Packet → Prop)
    (offers : NodeId → Event → Prop) (H : Diaries) (r : Replica) : Prop where
  pending : ∀ {p}, r.store.contains p → p ∉ (H m).closed r.rounds
  offered : ∀ {src e}, offers src e → e.proof ∉ (H m).closed r.rounds
  ready : ∀ {src e}, offers src e → r.ready.contains src → e.proof ∉ (H src).closed (r.rounds + 1)
  saying : ∀ {src k e}, heard src (.electorReady k) → offers src e →
    e.proof ∉ (H src).closed (k + 1)

namespace NoClosedPending

theorem reaction (h : r.NoClosedPending m heard offers H)
    (hoffers : ∀ {src e}, offers src e → src ∈ members ∧ src ≠ m)
    (hprop : ∀ {src signature e}, heard src (.propose signature e) → offers src e)
    (hC : Consistent members H) (hF : r.Faithful members H m)
    (hh : ∀ {src packet}, heard src packet → H.Sent members src m packet)
    (hr : Reaction heard r o) :
    o.replica.NoClosedPending m heard offers (H.write m ((H m).note r o)) := by
  have hx := (hF.continues hC hh hr).extend
  have hself := Diaries.write_self H m ((H m).note r o)
  have hother {src : NodeId} {e : Event} (he : offers src e) :
      H.write m ((H m).note r o) src = H src := Diaries.write_of_ne _ _ (hoffers he).2
  have hsaying {src : NodeId} {k : Nat} {e : Event} (hs : heard src (.electorReady k))
      (he : offers src e) : e.proof ∉ (H.write m ((H m).note r o) src).closed (k + 1) :=
    hother he ▸ h.saying hs he
  rcases stays_or_close hr with hs | ⟨w, hc, hall, rfl⟩
  · have hclosed : ((H m).note r o).closed o.replica.rounds = (H m).closed r.rounds := by
      rw [hs.rounds]
      exact hx.closed hF.tracks.rounds_le
    refine ⟨fun hp => ?_, fun he => ?_, fun he hq => ?_, hsaying⟩
    · rw [hself, hclosed]
      rcases new_pending hr hp with hp | ⟨src, signature, e, he, rfl⟩
      · exact h.pending hp
      · exact h.offered (hprop he)
    · rw [hself, hclosed]
      exact h.offered he
    · rw [hother he, hs.rounds]
      rcases new_ready hr hq with hq | hq
      · exact h.ready he hq
      · exact h.saying hq he
  · have hlen := hF.tracks.length_of_decided hc
    have hclosed := hx.closed (Nat.le_of_eq hlen.symm)
    have hround : (Outcome.silent (r.closeRound w).advance).replica.rounds = r.rounds + 1 :=
      hF.seat.counted.rounds_close w
    refine ⟨fun {p} hp => ?_, fun {src e} he => ?_, fun _ hq => ?_, hsaying⟩
    · rw [hself, hround, hclosed, hF.tracks.closed_succ hc, List.mem_append, List.mem_singleton]
      obtain ⟨hne, hp⟩ := (EventStore.contains_remove ..).mp hp
      exact fun hcl => hcl.elim (h.pending hp) (Ne.symm hne)
    · -- everyone is ready, the one who offers it as well
      obtain ⟨hm, hne⟩ := hoffers he
      have hready := hF.seat.all_ready hall hm hne
      rw [hself, hround, hclosed, hC.closed_eq (Nat.le_of_eq hlen.symm) (hF.trusts.ready hready)]
      exact h.ready he hready
    · simp [advance, Replica.closeRound, clearRound] at hq

/-- Nothing is closed where only the packets sent change. -/
theorem write (h : r.NoClosedPending m heard offers H) {d : Diary} {r' : Replica}
    (hd : d.committed = (H m).committed) (hk : r'.rounds = r.rounds) (hr : r'.ready = r.ready)
    (hp : ∀ {p}, r'.store.contains p → r.store.contains p ∨ p ∉ (H m).closed r.rounds) :
    r'.NoClosedPending m heard offers (H.write m d) := by
  have hclosed (q : NodeId) (k : Nat) : (H.write m d q).closed k = (H q).closed k := by
    rcases H.write_cases m d q with ⟨rfl, he⟩ | he <;> rw [he]
    unfold Diary.closed
    rw [hd]
  constructor
  · intro p hpp
    rw [hclosed, hk]
    exact (hp hpp).elim h.pending id
  · intro src e he
    rw [hclosed, hk]
    exact h.offered he
  · intro src e he hq
    rw [hclosed, hk]
    exact h.ready he (hr ▸ hq)
  · intro src k e hs he
    rw [hclosed]
    exact h.saying hs he

/-- Whatever a member does, it comes to hold nothing that is closed. -/
theorem kept {new : List Event} (hoffers : ∀ {src e}, offers src e → src ∈ members ∧ src ≠ m)
    (hprop : ∀ {src signature e}, heard src (.propose signature e) → offers src e) :
    Kept members m heard new (NoClosedPending m heard offers) where
  reaction hC hF hh hr h := h.reaction hoffers hprop hC hF hh hr
  enqueue {H r event _ _} hC hF _ hs ht h := by
    refine h.write rfl rfl rfl fun hp => ?_
    rcases contains_enqueue.mp hp with rfl | hp
    · exact Or.inr (hF.not_closed_of_later hC hs ht)
    · exact Or.inl hp
  say _ _ _ h := h.write rfl rfl rfl Or.inl

/-- What others do leaves it so, and so do offers of what the one who offers it has not
committed. -/
theorem mono (h : r.NoClosedPending m heard offers H) (hC' : Consistent members H')
    (hF' : r.Faithful members H' m) (hH : H.Extend H') (hm : H' m = H m)
    (hF : r.Faithful members H m)
    (hoffers : ∀ {src e}, offers' src e → offers src e ∨
      src ∈ members ∧ ∀ k, e.proof ∉ (H' src).closed k) :
    r.NoClosedPending m silence offers' H' := by
  refine ⟨fun hp => hm ▸ h.pending hp, fun {src e} he => ?_, fun {src e} he hq => ?_, nofun⟩
  · rcases hoffers he with he | ⟨hsrc, hn⟩
    · exact hm ▸ h.offered he
    · rw [hC'.closed_eq hF'.tracks.rounds_le (hF'.trusts.rounds_le hsrc)]
      exact hn _
  · rcases hoffers he with he | ⟨-, hn⟩
    · rw [(hH src).closed (hF.trusts.ready hq)]
      exact h.ready he hq
    · exact hn _

end NoClosedPending

end Replica

namespace Network

/-- A proposal of an event is under way. -/
def Offers (n : Network) (dst src : NodeId) (e : Event) : Prop :=
  ∃ signature, Packet.propose signature e ∈ n.link src dst

end Network

/-- If the one packet says that a member is ready for a round and the other proposes an event, the
event was not committed up to that round. -/
def Packet.Clears (d : Diary) (first second : Packet) : Prop :=
  ∀ ⦃k signature e⦄, first = .electorReady k → second = .propose signature e →
    e.proof ∉ d.closed (k + 1)

namespace Chronicle

variable {members : List NodeId} {H H' : Diaries} {c : Chronicle} {move : Move} {id : NodeId}
  {s t : Station} {o : Outcome} {n : Network}

/-- Nothing that is closed is pending, or will be. -/
structure NoClosedPending (members : List NodeId) (H : Diaries) (c : Chronicle) : Prop where
  accords : c.Accords members H
  publishedFirst : c.PublishedFirst members H
  noClosedPending : ∀ {id : NodeId} {s : Station}, c.network.stations[id]? = some s →
    s.replica.NoClosedPending id silence (c.network.Offers id) H
  behind : ∀ src dst, (c.network.link src dst).Pairwise (Packet.Clears (H src))

namespace NoClosedPending

/-- Whoever offers an event is another member. -/
theorem offerer (h : c.NoClosedPending members H) {src : NodeId} {e : Event}
    (he : c.network.Offers id src e) : src ∈ members ∧ src ≠ id := by
  obtain ⟨signature, hp⟩ := he
  have hsent := h.accords.consistent.sent (h.accords.recorded hp)
  exact ⟨hsent.source, hsent.distinct⟩

/-- Whatever a member is asked for, it commits no event that it then proposes. -/
theorem uncommitted_of_asked (h : c.NoClosedPending members H) {new : List Event}
    (hs : c.network.stations[id]? = some s) (ha : move.answer s = some (id, t, o))
    (ht : Turn members id silence H s.replica H' o new) {q : NodeId} {signature : Bytes} {e : Event}
    (hp : (q, Packet.propose signature e) ∈ o.effects.copies s.replica.peers.toList) (k : Nat) :
    e.proof ∉ (H' id).closed k := by
  have hC := h.accords.consistent
  have hF := h.accords.faithful hs
  have hclosed (hc : o.effects.committed = []) : (H' id).closed k = (H id).closed k := by
    unfold Diary.closed
    rw [ht.committed, hc, List.append_nil]
  cases move with
  | submit id' transaction =>
      cases ha
      cases hp
  | sealEvent id' now =>
      cases ha
      obtain ⟨event, hn, he⟩ := Replica.proposed_of_sealEvent hp
      obtain ⟨hs', hlt, -⟩ := Replica.nextEvent?_eq_some hn
      rw [hF.seat.localId] at hs'
      rw [hclosed (Replica.committed_sealEvent ..), he]
      exact hF.not_closed_of_later hC hs' hlt
  | elect id' =>
      cases ha
      have hsteps : Steps (Reaction silence) s.replica _ :=
        s.replica.runElection_steps hF.wellFormed.store
      exact absurd hp (Replica.not_mem_copies_of_steps hsteps)
  | retransmit id' =>
      cases ha
      obtain ⟨hq, e', he', rfl⟩ := Replica.proposed_of_retransmit hp
      obtain ⟨he', hown⟩ := List.mem_filter.mp he'
      rw [Bool.and_eq_true, decide_eq_true_eq, Bool.not_eq_true', hF.seat.localId] at hown
      have hget := hF.wellFormed.store.mem_pendingEvents.mp he'
      obtain ⟨hm, hne⟩ := hF.seat.target _ hq
      rw [hclosed (Replica.committed_retransmit ..)]
      exact (h.publishedFirst hs).uncommitted hC hF hget hown.1
        ((h.noClosedPending hs).pending (EventStore.contains_of_get? hget)) hown.2 hm
        (Ne.symm hne) k
  | deliver | duplicate | lose => cases ha

/-- A member's turn, after packets may have been taken off the links. -/
theorem settle (h : c.NoClosedPending members H) {heard : NodeId → Packet → Prop} {new : List Event}
    (hs : c.network.stations[id]? = some s) (ht : Turn members id heard H s.replica H' o new)
    (hst : n.stations = c.network.stations)
    (hl : ∀ a b, (n.link a b).Sublist (c.network.link a b))
    (hnew : ∀ {q signature e},
      (q, Packet.propose signature e) ∈ o.effects.copies s.replica.peers.toList →
        ∀ k, e.proof ∉ (H' id).closed k)
    (hprop : ∀ {src signature e}, heard src (.propose signature e) → c.network.Offers id src e)
    (hready : ∀ {src k e}, heard src (.electorReady k) → c.network.Offers id src e →
      e.proof ∉ (H src).closed (k + 1))
    (h' : (c.settle n id t o new).Accords members H')
    (hO' : (c.settle n id t o new).PublishedFirst members H') :
    (c.settle n id t o new).NoClosedPending members H' where
  accords := h'
  publishedFirst := hO'
  noClosedPending {q u} hq := by
    have hoffers {src : NodeId} {e : Event} (he : (n.settleOutcome id t o).Offers q src e) :
        c.network.Offers q src e ∨ src ∈ members ∧ ∀ k, e.proof ∉ (H' src).closed k := by
      obtain ⟨signature, hp⟩ := he
      rcases mem_link_settleOutcome.mp hp with hp | ⟨rfl, hsaid⟩
      · exact Or.inl ⟨signature, (hl src q).subset hp⟩
      · exact Or.inr ⟨ht.faithful.seat.member, hnew (ht.peers ▸ hsaid)⟩
    rcases station_of_settleOutcome hst hq with ⟨rfl, rfl⟩ | ⟨hne, hq⟩
    · have hk := ht.kept (Replica.NoClosedPending.kept (fun he => h.offerer he) hprop)
        { h.noClosedPending hs with saying := hready }
      exact hk.mono ht.consistent ht.faithful (fun _ => .refl _) rfl ht.faithful hoffers
    · have hF := h.accords.faithful hq
      have hm := ht.others hne
      exact (h.noClosedPending hq).mono ht.consistent (hF.mono ht.extend hm) ht.extend hm hF hoffers
  behind a b := by
    show ((n.settleOutcome id t o).link a b).Pairwise _
    rw [link_settleOutcome, ht.peers]
    have hclear (x y : Packet) (hy : y ∈ if id = a then
        packetsFor b (o.effects.copies s.replica.peers.toList) else []) :
        Packet.Clears (H' a) x y := by
      rintro k signature e - rfl
      split at hy
      · rename_i hid
        subst hid
        exact hnew (mem_packetsFor.mp hy) (k + 1)
      · cases hy
    refine List.pairwise_append.mpr ⟨?_, ?_, fun x _ y hy => hclear x y hy⟩
    · refine ((h.behind a b).sublist (hl a b)).imp_of_mem fun hx _ hxy k signature e hk he => ?_
      subst hk
      have hlen := h.accords.consistent.honest (h.accords.recorded ((hl a b).subset hx))
      rw [(ht.extend a).closed hlen]
      exact hxy rfl he
    · exact List.pairwise_of_forall_mem_list fun x _ y hy => hclear x y hy

/-- Only packets have been taken off the links. -/
theorem relink (h : c.NoClosedPending members H) (hst : n.stations = c.network.stations)
    (hl : ∀ a b, (n.link a b).Sublist (c.network.link a b)) :
    ({ c with network := n } : Chronicle).NoClosedPending members H where
  accords := h.accords.relink hst fun hp => (hl _ _).subset hp
  publishedFirst {q u} hq := h.publishedFirst (hst ▸ hq)
  noClosedPending {q u} hq := by
    have hq : c.network.stations[q]? = some u := hst ▸ hq
    have hF := h.accords.faithful hq
    exact (h.noClosedPending hq).mono h.accords.consistent hF (fun _ => .refl _) rfl hF
      fun ⟨signature, hp⟩ => Or.inl ⟨signature, (hl _ _).subset hp⟩
  behind a b := (h.behind a b).sublist (hl a b)

theorem sublist_withdraw {src dst : NodeId} {position : Nat} (a b : NodeId) :
    ((n.withdraw src dst position).link a b).Sublist (n.link a b) := by
  unfold withdraw
  rw [link_setLink]
  split
  · rename_i hab
    rw [← hab.1, ← hab.2]
    exact List.eraseIdx_sublist ..
  · exact List.Sublist.refl _

/-- Everything else on a link is behind its head. -/
theorem behind_head (h : c.NoClosedPending members H) {src dst : NodeId} {head packet : Packet}
    (hhead : (c.network.link src dst)[0]? = some head) (hp : packet ∈ c.network.link src dst) :
    packet = head ∨ Packet.Clears (H src) head packet := by
  have hbehind := h.behind src dst
  cases hl : c.network.link src dst with
  | nil =>
      rw [hl] at hp
      cases hp
  | cons first rest =>
      rw [hl] at hhead hp hbehind
      obtain rfl := Option.some.inj hhead
      exact (List.mem_cons.mp hp).imp_right ((List.pairwise_cons.mp hbehind).1 packet)

/-- Whatever happens in sequence, nothing that is closed comes to be pending. -/
theorem next (h : c.NoClosedPending members H) (hi : move.inSequence)
    (hm : Moved members H c move H' (c.next move)) : (c.next move).NoClosedPending members H' := by
  have h' := hm.accords h.accords
  have hO' := hm.publishedFirst h.publishedFirst
  generalize c.next move = c' at hm h' hO' ⊢
  cases hm with
  | asked hs ha ht =>
      exact h.settle hs ht rfl (fun _ _ => .refl _) (h.uncommitted_of_asked hs ha ht) False.elim
        False.elim h' hO'
  | @delivered src dst position packet s _ o hhead hs ho ht _ =>
      obtain rfl : position = 0 := of_decide_eq_true hi
      refine h.settle hs ht rfl sublist_withdraw (fun hp k => ?_) (fun hh => ?_) (fun hh he => ?_)
        h' hO'
      · have hq : ∀ round events, packet ≠ .overwriteEvents round events := by
          rintro round events rfl
          exact h.accords.consistent.honest (h.accords.recorded (List.mem_of_getElem? hhead))
        have hsteps := (Replica.onPacket_reacts (hearing_self src packet) hq ho).steps
        exact absurd hp (Replica.not_mem_copies_of_steps hsteps)
      · obtain ⟨rfl, rfl⟩ := hh
        exact ⟨_, List.mem_of_getElem? hhead⟩
      · obtain ⟨rfl, rfl⟩ := hh
        obtain ⟨signature, hprop⟩ := he
        exact (h.behind_head hhead hprop).resolve_left nofun rfl rfl
  | refused hp hs _ _ => exact h.relink rfl sublist_withdraw
  | repeated => cases hi
  | lost => exact h.relink rfl sublist_withdraw
  | nothing _ => exact h

end NoClosedPending

theorem noClosedPending_founded (shard : ShardId) (members : List NodeId)
    (signers : NodeId → Signer) :
    (founded shard members signers).NoClosedPending members fun _ => .empty where
  accords := accords_founded shard members signers
  publishedFirst := publishedFirst_founded shard members signers
  noClosedPending _ := by
    have hn {p : Proof} {k : Nat} : p ∉ Diary.empty.closed k := by simp [Diary.closed, Diary.empty]
    exact ⟨fun _ => hn, fun _ => hn, fun _ _ => hn, False.elim⟩
  behind a b := by
    rw [show (founded shard members signers).network = .founded shard members signers from rfl,
      link_founded]
    exact .nil

/-- **Nothing that a member holds is closed**, after any run in which the links deliver what they
hold in order and at most once. -/
theorem noClosedPending_of_inSequence (shard : ShardId) (members : List NodeId)
    (signers : NodeId → Signer) (moves : List Move) (hi : ∀ move ∈ moves, move.inSequence) :
    ∃ H, ((founded shard members signers).run moves).NoClosedPending members H := by
  obtain ⟨H, -, h⟩ := (accords_founded shard members signers).keep
    (P := fun H c => c.NoClosedPending members H) (A := fun move => move.inSequence)
    (fun hi _ hm h => h.next hi hm) (noClosedPending_founded shard members signers) moves hi
  exact ⟨H, h⟩

end Chronicle

end ShardGossip

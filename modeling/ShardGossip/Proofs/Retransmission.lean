import ShardGossip.Proofs.Quiescence

/-!
# ShardGossip.Proofs.Retransmission

**What is sent again arrives, as far as it is still needed.** Once no more packets are lost, a
proposal that is sent again gets its acknowledgement recorded, a vote that is sent again is counted,
and word that a member is ready is noted, whether or not these had arrived before (`Resuming`). Each
of them is on its link, or has been handed to its receiver, whose state has only moved on since
(`Replica.Follows`).
-/

namespace ShardGossip

open Network

/-! ### Moving on -/

namespace Replica

variable {members : List NodeId} {m : NodeId} {H : Diaries} {r r' r'' : Replica} {o : Outcome}
  {heard : NodeId → Packet → Prop}

theorem Stays.trans (h : r.Stays r') (h' : r'.Stays r'') : r.Stays r'' where
  rounds := h'.rounds.trans h.rounds
  acks hp := h'.acks (h.acks hp)
  announced hp := h'.announced (h.announced hp)
  counted hv := h'.counted (h.counted hv)
  ready hq := h'.ready (h.ready hq)

/-- A later state of a member: in a later round, or in the same one with nothing lost. -/
def Follows (r r' : Replica) : Prop :=
  r.rounds < r'.rounds ∨ r.Stays r'

theorem Follows.refl (r : Replica) : r.Follows r :=
  Or.inr (.refl r)

theorem Follows.rounds_le (h : r.Follows r') : r.rounds ≤ r'.rounds :=
  h.elim Nat.le_of_lt fun hs => Nat.le_of_eq hs.rounds.symm

theorem Follows.trans (h : r.Follows r') (h' : r'.Follows r'') : r.Follows r'' := by
  rcases h' with hlt | hs
  · exact Or.inl (Nat.lt_of_le_of_lt h.rounds_le hlt)
  · exact h.imp (fun hlt => hs.rounds ▸ hlt) fun hst => hst.trans hs

theorem Follows.stay (h : r.Follows r') (hs : r'.Stays r'') : r.Follows r'' :=
  h.trans (Or.inr hs)

theorem Follows.reaction (h : r.Follows r') (hc : r'.Counted) (hr : Reaction heard r' o) :
    r.Follows o.replica := by
  rcases stays_or_close hr with hs | ⟨p, -, -, rfl⟩
  · exact h.stay hs
  · exact Or.inl (Nat.lt_of_le_of_lt h.rounds_le (hc.rounds_lt_close p))

theorem Follows.steps (hc : r.Counted) (hs : Steps (Reaction heard) r o) : r.Follows o.replica :=
  (hs.keep (P := fun r' => r.Follows r' ∧ r'.Counted)
    (fun h hr => ⟨h.1.reaction h.2 hr, hr.counted h.2⟩) ⟨.refl r, hc⟩).1

/-- Members only move on. -/
theorem Follows.kept {new : List Event} {P : Replica → Prop} :
    Kept members m heard new fun _ r' => ∀ r, P r → r.Follows r' where
  reaction _ hF _ hr h r hp := (h r hp).reaction hF.seat.counted hr
  enqueue _ _ _ _ _ h r hp := (h r hp).stay stays_enqueue
  say _ _ _ h := h

/-- A ballot for this round is not needed any more, or it has been counted. -/
def Through (r : Replica) (v : NodeId) (k : Nat) : Prop :=
  k < r.rounds ∨ k = r.rounds ∧ (r.chosen.isSome ∨ r.ballots.contains v)

theorem Through.follow {v : NodeId} {k : Nat} (h : r.Through v k) (hf : r.Follows r') :
    r'.Through v k := by
  rcases h with hlt | ⟨heq, hc⟩
  · exact Or.inl (Nat.lt_of_lt_of_le hlt hf.rounds_le)
  · rcases hf with hlt | hs
    · exact Or.inl (heq ▸ hlt)
    · exact Or.inr ⟨heq.trans hs.rounds.symm, hs.counted hc⟩

/-- A true ballot is counted when it arrives, unless its round or its event is over. -/
theorem Faithful.through_of_vote (hC : Consistent members H) (h : r.Faithful members H m)
    {v : NodeId} (vote : HeldVote) (hv : (H v).votes[vote.round]? = some vote.proof)
    (hk : vote.round ≤ r.rounds) (hn : vote.proof ∉ (H m).closed vote.round) :
    (r.recordVote v vote).replica.Through v vote.round := by
  -- the event is closed only if the round is over
  have past (hp : vote.proof ∈ (H m).closed r.rounds) : vote.round < r.rounds :=
    Nat.lt_of_le_of_ne hk fun heq => hn (heq ▸ hp)
  unfold recordVote
  split
  · rename_i hj
    rcases judge_ignore hj with hf | hlt | ⟨hle, hc⟩ | he
    · exact Or.inl (past (h.tracks.closed_of_finalized hf))
    · exact Or.inl hlt
    · exact (Nat.lt_or_eq_of_le hk).imp_right fun heq => ⟨heq, Or.inl hc⟩
    · rw [h.seat.isElector_iff.mpr (hC.voter hv)] at he
      cases he
  · rename_i hj
    have hlt : vote.round < r.rounds := by
      refine Nat.lt_of_le_of_ne hk fun heq => ?_
      rcases h.tracks.known (hC.votable hv m h.seat.member) with hs | hc
      · rw [judge_hold hj heq] at hs
        cases hs
      · exact Nat.ne_of_lt (past hc) heq
    obtain ⟨held, hh, -⟩ := hold_eq r v vote
    rw [hh]
    exact Or.inl hlt
  · rename_i hj
    have ht : (r.countBallot v vote).Through v vote.round :=
      Or.inr ⟨(judge_count hj).1, Or.inr Std.ExtTreeMap.contains_insert_self⟩
    have hs : Steps (Reaction silence) (r.countBallot v vote) _ := tryTally_steps _
    exact ht.follow (.steps ⟨h.seat.counted.jumped, h.seat.counted.laps⟩ hs)

end Replica

namespace Network

/-- A proposal is under way, or its acknowledgement is, or that is recorded. -/
def AckTraced (H : Diaries) (n : Network) (origin q : NodeId) (p : Proof) : Prop :=
  (∃ signature event, event.proof = p ∧ Packet.propose signature event ∈ n.link origin q) ∨
    Traced H n q origin (.ack p)

/-- A vote is under way, or its receiver has counted it or needs it no more. -/
def BallotTraced (n : Network) (v b : NodeId) (k : Nat) (p : Proof) : Prop :=
  (∃ signature, Packet.vote k signature p ∈ n.link v b) ∨
    ∃ t, n.stations[b]? = some t ∧ t.replica.Through v k

end Network

namespace Chronicle

variable {members : List NodeId} {H H' : Diaries} {c c' : Chronicle} {move : Move}
  {src dst : NodeId} {packet : Packet}

/-- A packet leaves its link, unless it is lost, by being handed to its receiver, who may answer. -/
theorem Moved.handed (hm : Moved members H c move H' c') (hl : move.isLoss = false)
    (hp : packet ∈ c.network.link src dst) : packet ∈ c'.network.link src dst ∨
      ∃ s, c.network.stations[dst]? = some s ∧
        ((∃ o, s.replica.onPacket src packet s.signer = .ok o ∧
            c'.network.stations[dst]? = some (s.settled o) ∧
            ∀ {q answer}, (q, answer) ∈ o.effects.copies s.replica.peers.toList →
              answer ∈ c'.network.link dst q) ∨
          ∃ refusal, s.replica.onPacket src packet s.signer = .error refusal) := by
  cases hm with
  | asked _ _ _ => exact Or.inl (mem_link_settleOutcome.mpr (Or.inl hp))
  | @delivered a b position head s _ o hhead hs ho ht _ =>
      rcases mem_link_withdraw hhead hp with hp | ⟨rfl, rfl, rfl⟩
      · exact Or.inl (mem_link_settleOutcome.mpr (Or.inl hp))
      · refine Or.inr ⟨s, hs, Or.inl ⟨o, ho, getElem?_settleOutcome_self .., fun ha => ?_⟩⟩
        exact mem_link_settleOutcome.mpr (Or.inr ⟨rfl, ht.peers ▸ ha⟩)
  | refused hhead hs ho _ =>
      rcases mem_link_withdraw hhead hp with hp | ⟨rfl, rfl, rfl⟩
      · exact Or.inl hp
      · exact Or.inr ⟨_, hs, Or.inr ⟨_, ho⟩⟩
  | repeated =>
      refine Or.inl ?_
      rw [link_send]
      exact List.mem_append_left _ hp
  | lost => cases hl
  | nothing _ => exact Or.inl hp

/-- What everything that a member can do keeps, a move keeps, of all members. -/
theorem Moved.keep (hm : Moved members H c move H' c') {Q : NodeId → Diaries → Replica → Prop}
    (hQ : ∀ {id heard new}, Kept members id heard new (Q id))
    (hmono : ∀ {id r}, H.Extend H' → H' id = H id → Q id H r → Q id H' r)
    (hq : ∀ {id : NodeId} {s : Station}, c.network.stations[id]? = some s → Q id H s.replica)
    {id : NodeId} {s : Station} (hs : c'.network.stations[id]? = some s) : Q id H' s.replica := by
  have turn {m : NodeId} {u t : Station} {o : Outcome} {new : List Event} {n : Network}
      {heard : NodeId → Packet → Prop} (hst : n.stations = c.network.stations)
      (hu : c.network.stations[m]? = some u) (ht : Turn members m heard H u.replica H' o new)
      (hg : (n.settleOutcome m t o).stations[id]? = some s) : Q id H' s.replica := by
    rcases station_of_settleOutcome hst hg with ⟨rfl, rfl⟩ | ⟨hne, hg⟩
    · exact ht.kept hQ (hq hu)
    · exact hmono ht.extend (ht.others hne) (hq hg)
  cases hm with
  | asked hu _ ht => exact turn rfl hu ht hs
  | delivered _ hu _ ht _ => exact turn (n := c.network.withdraw _ _ _) rfl hu ht hs
  | _ => exact hq hs

theorem Moved.extend (hm : Moved members H c move H' c') : H.Extend H' := by
  cases hm with
  | asked _ _ ht => exact ht.extend
  | delivered _ _ _ ht _ => exact ht.extend
  | _ => exact fun _ => .refl _

theorem Moved.follows (hm : Moved members H c move H' c') {id : NodeId} {s t : Station}
    (hs : c.network.stations[id]? = some s) (ht : c'.network.stations[id]? = some t) :
    s.replica.Follows t.replica := by
  refine hm.keep (Q := fun id _ r' => ∀ r, (∃ s, c.network.stations[id]? = some s ∧
    s.replica = r) → r.Follows r') Replica.Follows.kept (fun _ _ hq => hq) ?_ ht _ ⟨s, hs, rfl⟩
  rintro id u hu r ⟨s, hs, rfl⟩
  rw [hs] at hu
  exact Option.some.inj hu ▸ .refl _

/-- Along a run the diaries grow, and each member goes on from where it was. -/
theorem Accords.follows (h : c.Accords members H) (moves : List Move) :
    ∃ H', (c.run moves).Accords members H' ∧ H.Extend H' ∧ ∀ {id : NodeId} {s t : Station},
      c.network.stations[id]? = some s → (c.run moves).network.stations[id]? = some t →
        s.replica.Follows t.replica := by
  refine h.keep (A := fun _ => True) (P := fun H' c' => H.Extend H' ∧
    ∀ {id : NodeId} {s t : Station}, c.network.stations[id]? = some s →
      c'.network.stations[id]? = some t → s.replica.Follows t.replica)
    (fun _ h' hm hp => ⟨hp.1.trans hm.extend, fun {id s t} hs ht => ?_⟩)
    ⟨fun _ => .refl _, fun {id s t} hs ht => ?_⟩ moves fun _ _ => trivial
  · obtain ⟨u, hu⟩ := h'.present (h.faithful hs).seat.member
    exact (hp.2 hs hu).trans (hm.follows hu ht)
  · rw [hs] at ht
    exact Option.some.inj ht ▸ .refl _

/-! ### Traces of what is sent again -/

theorem Moved.ackTraced (hm : Moved members H c move H' c') (h : c.Accords members H)
    (hl : move.isLoss = false) {origin q : NodeId} {p : Proof}
    (hx : c.network.AckTraced H origin q p) : c'.network.AckTraced H' origin q p := by
  rcases hx with ⟨signature, event, rfl, hp⟩ | ht
  · rcases hm.handed hl hp with hp | ⟨s, hs, ⟨o, ho, -, hanswer⟩ | ⟨refusal, ho⟩⟩
    · exact Or.inl ⟨signature, event, rfl, hp⟩
    · unfold Replica.onPacket at ho
      split at ho
      · cases ho
      · exact Or.inr (Or.inl (hanswer (Replica.mem_copies_of_onPropose ho)))
    · obtain ⟨p, hno | hno, -⟩ := (h.faithful hs).forgotten_of_refused h.consistent
        (h.consistent.sent (h.recorded hp)) ho
      · cases hno
      · cases hno
  · exact Or.inr (hm.traced h hl nofun ht)

theorem Moved.ballotTraced (hm : Moved members H c move H' c') (h : c.Accords members H)
    (hl : move.isLoss = false) {v b : NodeId} {k : Nat} {p : Proof}
    (hv : (H v).votes[k]? = some p) (hn : p ∉ (H b).closed k)
    (hk : ∀ {t : Station}, c.network.stations[b]? = some t → k ≤ t.replica.rounds)
    (hx : c.network.BallotTraced v b k p) : c'.network.BallotTraced v b k p := by
  rcases hx with ⟨signature, hp⟩ | ⟨t, ht, hx⟩
  · rcases hm.handed hl hp with hp | ⟨s, hs, ⟨o, ho, hs', -⟩ | ⟨refusal, ho⟩⟩
    · exact Or.inl ⟨signature, hp⟩
    · unfold Replica.onPacket at ho
      split at ho
      · cases ho
      · cases ho
        exact Or.inr ⟨_, hs', (h.faithful hs).through_of_vote h.consistent ⟨k, signature, p⟩ hv
          (hk hs) hn⟩
    · obtain ⟨p, hno | hno, -⟩ := (h.faithful hs).forgotten_of_refused h.consistent
        (h.consistent.sent (h.recorded hp)) ho
      · cases hno
      · cases hno
  · obtain ⟨t', ht'⟩ := (hm.accords h).present (h.faithful ht).seat.member
    exact Or.inr ⟨t', ht', hx.follow (hm.follows ht ht')⟩

/-- Since the shard stood as in `c₀`, everyone has sent again what it was waiting for, and nothing
of that was lost. -/
structure Resuming (members : List NodeId) (H₀ : Diaries) (c₀ : Chronicle) (H : Diaries)
    (c : Chronicle) : Prop where
  extend : H₀.Extend H
  follows : ∀ {id : NodeId} {s t : Station}, c₀.network.stations[id]? = some s →
    c.network.stations[id]? = some t → s.replica.Follows t.replica
  answered : ∀ {origin q : NodeId} {s : Station} {p : Proof} {e : Event},
    c₀.network.stations[origin]? = some s → s.replica.store.get? p = some e → e.origin = origin →
    s.replica.announced.contains p = false → q ∈ members → q ≠ origin →
      c.network.AckTraced H origin q p
  counted : ∀ {v b : NodeId} {s t : Station} {p : Proof}, c₀.network.stations[v]? = some s →
    c₀.network.stations[b]? = some t → v ≠ b → s.replica.ballot = some p →
    s.replica.chosen = none → t.replica.chosen = none →
      c.network.BallotTraced v b s.replica.rounds p
  ready : ∀ {a b : NodeId} {s : Station}, c₀.network.stations[a]? = some s →
    s.replica.chosen.isSome → b ∈ members → b ≠ a →
      c.network.Traced H a b (.electorReady s.replica.rounds)

/-- Whatever happens then, short of a loss, it stays so. -/
theorem Resuming.next {H₀ : Diaries} {c₀ : Chronicle} (h : Resuming members H₀ c₀ H c)
    (h₀ : c₀.Accords members H₀)
    (hfresh : ∀ {id : NodeId} {s : Station} {p : Proof}, c₀.network.stations[id]? = some s →
      s.replica.store.contains p → p ∉ (H₀ id).closed s.replica.rounds)
    (hc : c.Accords members H) (hm : Moved members H c move H' c') (hl : move.isLoss = false) :
    Resuming members H₀ c₀ H' c' where
  extend := h.extend.trans hm.extend
  follows {id s t} hs ht := by
    obtain ⟨u, hu⟩ := hc.present (h₀.faithful hs).seat.member
    exact (h.follows hs hu).trans (hm.follows hu ht)
  answered hs he ho hn hq hne := hm.ackTraced hc hl (h.answered hs he ho hn hq hne)
  counted {v b s t p} hs ht hne hb hcs hct := by
    have hr := h₀.rounds_eq hs ht hcs hct
    have hF := h₀.faithful hs
    refine hm.ballotTraced hc hl ?_ ?_ (fun hu => ?_) (h.counted hs ht hne hb hcs hct)
    · exact (h.extend v).getElem?_votes (hF.tracks.voted hb)
    · -- the event is pending with its voter, and all have closed the same events
      have hlen : s.replica.rounds ≤ (H₀ b).committed.length :=
        hr ▸ (h₀.faithful ht).tracks.rounds_le
      rw [(h.extend b).closed hlen, hr, ← h₀.closed_eq hs ht hr]
      exact hfresh hs (hF.wellFormed.voted hb).1
    · exact hr ▸ (h.follows ht hu).rounds_le
  ready hs hcs hb hne := hm.traced hc hl nofun (h.ready hs hcs hb hne)

/-! ### Sending again -/

section

variable {n : Network} {a b id : NodeId} {s : Station}

theorem retransmit_replica (r : Replica) (signer : Signer) :
    (r.retransmit signer).replica = r := by
  unfold Replica.retransmit
  split <;> rfl

/-- What a member sends again. -/
theorem mem_copies_retransmit {r : Replica} {signer : Signer} {q : NodeId}
    (hq : q ∈ r.peers.toList) (hp : packet ∈ r.unannounced.map (Replica.proposal signer) ∨
      packet ∈ r.roundReminder) :
    (q, packet) ∈ (r.retransmit signer).effects.copies r.peers.toList := by
  unfold Replica.retransmit
  split
  · rename_i halone
    rw [Std.ExtTreeSet.isEmpty_iff.mp halone] at hq
    cases hq
  · exact Replica.mem_copies_broadcast.mpr ⟨List.mem_append.mpr hp, hq⟩

/-- Sending again only puts packets on the links. -/
theorem mem_link_retransmit (h : packet ∈ n.link a b) :
    packet ∈ (n.retransmit id).2.link a b := by
  unfold Network.retransmit change
  split
  · exact h
  · exact mem_link_settleOutcome.mpr (Or.inl h)

theorem station_retransmit (id : NodeId) (hs : n.stations[a]? = some s) :
    ∃ t, (n.retransmit id).2.stations[a]? = some t ∧ t.replica = s.replica ∧
      t.signer = s.signer := by
  unfold Network.retransmit change
  split
  · exact ⟨s, hs, rfl, rfl⟩
  · rename_i u hu
    rw [getElem?_settleOutcome]
    split
    · rename_i hid
      subst hid
      rw [hs] at hu
      obtain rfl := Option.some.inj hu
      exact ⟨_, rfl, retransmit_replica .., rfl⟩
    · exact ⟨s, hs, rfl, rfl⟩

theorem mem_link_retransmits (ids : List NodeId) (h : packet ∈ c.network.link a b) :
    packet ∈ (c.run (ids.map .retransmit)).network.link a b := by
  induction ids generalizing c with
  | nil => exact h
  | cons id rest ih => exact ih (mem_link_retransmit h)

/-- When all members have sent again, what each of them sends again is under way. -/
theorem mem_link_of_resent {ids : List NodeId} (ha : a ∈ ids)
    (hs : c.network.stations[a]? = some s)
    (hp : (b, packet) ∈
      (s.replica.retransmit s.signer).effects.copies s.replica.peers.toList) :
    packet ∈ (c.run (ids.map .retransmit)).network.link a b := by
  induction ids generalizing c s with
  | nil => cases ha
  | cons id rest ih =>
      by_cases hid : id = a
      · subst hid
        refine mem_link_retransmits rest ?_
        show packet ∈ (c.network.retransmit id).2.link id b
        unfold Network.retransmit change
        rw [hs]
        dsimp only
        rw [mem_link_settleOutcome, retransmit_replica]
        exact Or.inr ⟨rfl, hp⟩
      · obtain ⟨t, ht, hr, hsig⟩ := station_retransmit id hs
        have ha' := (List.mem_cons.mp ha).resolve_left (Ne.symm hid)
        exact ih ha' (s := t) ht (by rw [hr, hsig]; exact hp)

/-- When all members have sent again, everything they still wait for is under way. -/
theorem resuming_of_resent {H₀ : Diaries} {c₀ : Chronicle} {ids : List NodeId}
    (h₀ : c₀.Accords members H₀) (hids : ∀ id ∈ members, id ∈ ids) (hx : H₀.Extend H)
    (hf : ∀ {id : NodeId} {s t : Station}, c₀.network.stations[id]? = some s →
      (c₀.run (ids.map .retransmit)).network.stations[id]? = some t →
        s.replica.Follows t.replica) :
    Resuming members H₀ c₀ H (c₀.run (ids.map .retransmit)) := by
  have resent {a b : NodeId} {s : Station} {packet : Packet}
      (hs : c₀.network.stations[a]? = some s) (hb : b ∈ members) (hne : b ≠ a)
      (hp : packet ∈ s.replica.unannounced.map (Replica.proposal s.signer) ∨
        packet ∈ s.replica.roundReminder) :
      packet ∈ (c₀.run (ids.map .retransmit)).network.link a b :=
    have hseat := (h₀.faithful hs).seat
    mem_link_of_resent (hids a hseat.member) hs
      (mem_copies_retransmit (hseat.mem_peers hb hne) hp)
  refine ⟨hx, hf, ?_, ?_, ?_⟩
  · intro origin q s p e hs he ho hn hq hne
    have hF := h₀.faithful hs
    have hk : e.proof = p := hF.wellFormed.store.keyed he
    refine Or.inl ⟨_, e.forWire, hk, resent hs hq hne (Or.inl (List.mem_map.mpr ⟨e, ?_, rfl⟩))⟩
    refine List.mem_filter.mpr ⟨hF.wellFormed.store.mem_pendingEvents.mpr (hk ▸ he), ?_⟩
    simp [ho, hF.seat.localId, hk, hn]
  · intro v b s t p hs ht hne hb hcs _
    have hF := h₀.faithful hs
    obtain ⟨e, he⟩ := EventStore.contains_iff.mp (hF.wellFormed.voted hb).1
    refine Or.inl ⟨e.signedUpdate, resent hs (h₀.faithful ht).seat.member (Ne.symm hne) (Or.inr ?_)⟩
    simp [Replica.roundReminder, hcs, hb, he]
  · intro a b s hs hcs hb hne
    obtain ⟨p, hp⟩ := Option.isSome_iff_exists.mp hcs
    refine Or.inl (resent hs hb hne (Or.inr ?_))
    simp [Replica.roundReminder, hp]

end

end Chronicle

end ShardGossip

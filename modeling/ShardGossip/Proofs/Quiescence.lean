import ShardGossip.Proofs.Accord
import ShardGossip.Proofs.AtRest

/-!
# ShardGossip.Proofs.Quiescence

**A shard that has come to a halt has committed everything** (`quiescence`). Suppose that nothing is
under way and no election is to be run, after a run in which no packet was lost. Every member is at
rest, so whatever is half done waits for something from another member; but that member has told
everyone what it did, and all that was told has been taken in. Going through what can be half done,
latest first, this leaves nothing: no round is decided (`Halted.undecided`), so all members are in
the same round (`Halted.rounds_eq`); what is pending anywhere is announced everywhere
(`Halted.announced_everywhere`); so a member that had voted would not be alone in it
(`Halted.unvoted`), and nothing is pending (`Halted.pending_empty`).
-/

namespace ShardGossip

open Network

namespace Network

/-- All members are at rest. -/
def AtRest (n : Network) : Prop :=
  ∀ ⦃id : NodeId⦄ ⦃s : Station⦄, n.stations[id]? = some s → s.replica.AtRest [] s.woken

theorem AtRest.settle {n : Network} (h : n.AtRest) {id : NodeId} {t : Station} {o : Outcome}
    (ho : o.replica.AtRest [] (t.woken || o.effects.wake)) :
    (n.settleOutcome id t o).AtRest := by
  intro q u hq
  rcases station_of_settleOutcome rfl hq with ⟨-, rfl⟩ | ⟨-, hq⟩
  · exact ho
  · exact h hq

end Network

/-- A member at rest that has voted in an undecided round lacks another's ballot. -/
theorem Replica.Faithful.exists_uncounted {members : List NodeId} {H : Diaries} {m : NodeId}
    {r : Replica} (h : r.Faithful members H m) (hr : r.Counting) (hb : r.ballot.isSome)
    (hc : r.chosen = none) : ∃ v ∈ members, v ≠ m ∧ r.ballots.contains v = false := by
  have hn := hr hb hc
  unfold allVoted at hn
  rw [Bool.and_eq_false_iff] at hn
  rcases hn with hn | hn
  · obtain ⟨p, hp⟩ := Option.isSome_iff_exists.mp hb
    have hown := (h.wellFormed.voted hp).2.2 hc
    rw [contains_iff_getElem?.mpr ⟨p, hown⟩] at hn
    cases hn
  · rw [List.all_eq_false] at hn
    obtain ⟨v, hv, hn⟩ := hn
    obtain ⟨hm, hne⟩ := h.seat.mem_electors.mp hv
    exact ⟨v, hm, hne, Bool.eq_false_iff.mpr hn⟩

/-- A member at rest in a decided round lacks word that another is ready. -/
theorem Replica.Faithful.exists_unready {members : List NodeId} {H : Diaries} {m : NodeId}
    {r : Replica} (h : r.Faithful members H m) (hr : r.Closing) (hc : r.chosen.isSome) :
    ∃ q ∈ members, q ≠ m ∧ r.ready.contains q = false := by
  have hn := hr hc
  unfold allReady at hn
  rw [List.all_eq_false] at hn
  obtain ⟨q, hq, hn⟩ := hn
  obtain ⟨hm, hne⟩ := h.seat.mem_electors.mp hq
  exact ⟨q, hm, hne, Bool.eq_false_iff.mpr hn⟩

namespace Chronicle

variable {members : List NodeId} {H : Diaries} {c : Chronicle}

/-! ### All members are always at rest -/

theorem atRest_founded (shard : ShardId) (members : List NodeId) (signers : NodeId → Signer) :
    (Network.founded shard members signers).AtRest := by
  intro id s hs
  rw [getElem?_founded] at hs
  split at hs
  · obtain rfl := Option.some.inj hs
    obtain ⟨peers, he, -⟩ := Replica.setMembers_fresh id shard members
    show ((Replica.fresh id shard).setMembers members).replica.AtRest [] false
    rw [he]
    refine ⟨Replica.closing_of_undecided rfl, Replica.counting_of_unvoted rfl, ?_, ?_, fun _ => ?_⟩
    · intro v vote hv
      simp [Replica.fresh] at hv
    · intro p e hp
      simp [Replica.fresh] at hp
    · simp [Replica.fresh]
  · cases hs

/-- No ballot names an event that is still to be sealed. -/
theorem ne_of_vote (h : c.Accords members H) {id : NodeId} {s : Station}
    (hs : c.network.stations[id]? = some s) {now : Nat} {event : Event}
    (he : s.replica.nextEvent? now = some event) {v : NodeId} {vote : HeldVote}
    (hv : s.replica.held[v]? = some vote) : vote.proof ≠ event.proof := by
  have hF := h.faithful hs
  obtain ⟨hsealed, hlt, -⟩ := Replica.nextEvent?_eq_some he
  rw [hF.seat.localId] at hsealed
  have hlater := hF.tracks.later hlt
  rcases h.consistent.votable (hF.trusts.held hv) id hF.seat.member with ⟨e, he, hp⟩ | ⟨dst, ha⟩
  · exact hp ▸ Replica.ne_of_later h.consistent hsealed hlater he
  · obtain ⟨e, he, hp⟩ := h.consistent.honest ha
    exact hp ▸ Replica.ne_of_later h.consistent hsealed hlater he

/-- Whatever happens, the members are at rest afterwards. -/
theorem atRest_next (h : c.Accords members H) (hr : c.network.AtRest) (move : Move) :
    (c.next move).network.AtRest := by
  show (c.network.play move).2.AtRest
  have change {id : NodeId} {f : Station → Outcome}
      (hf : ∀ {s}, c.network.stations[id]? = some s →
        (f s).replica.AtRest [] (s.woken || (f s).effects.wake)) :
      (c.network.change id f).2.AtRest := by
    unfold Network.change
    split
    · exact hr
    · rename_i s hs
      exact hr.settle (hf hs)
  have same {id : NodeId} {s : Station} (hs : c.network.stations[id]? = some s) :
      s.replica.AtRest [] (s.woken || false) :=
    (hr hs).mono fun h => Bool.or_eq_true_iff.mpr (.inl h)
  cases move with
  | submit id transaction =>
      refine change (f := fun s => .silent (s.replica.submit transaction)) fun hs => ?_
      exact ⟨(same hs).closing, (same hs).counting, (same hs).releasing, (same hs).announcing,
        (same hs).awake⟩
  | sealEvent id now =>
      exact change (f := fun s => s.replica.sealEvent now s.signer) fun hs =>
        Replica.sealEvent_rest (hr hs) _ fun _ he _ _ hv => ne_of_vote h hs he hv
  | elect id =>
      show (c.network.elect id).2.AtRest
      unfold elect
      split
      · exact hr
      · rename_i s hs
        exact hr.settle (t := { s with woken := false })
          (Replica.runElection_rest (h.faithful hs).wellFormed (hr hs))
  | retransmit id =>
      refine change (f := fun s => s.replica.retransmit s.signer) fun hs => ?_
      unfold Replica.retransmit
      split <;> exact same hs
  | deliver src dst position =>
      show (c.network.deliver src dst position).2.AtRest
      unfold deliver
      dsimp only
      split
      · exact hr
      · rename_i packet hp
        unfold hand
        split
        · exact hr
        · rename_i s hs
          split
          · rename_i o ho
            have hr' : (c.network.setLink src dst
              ((c.network.link src dst).eraseIdx position)).AtRest := hr
            refine hr'.settle (Replica.onPacket_rest (h.faithful hs).wellFormed (hr hs) ?_ ho)
            rintro round events rfl
            exact h.consistent.honest (h.recorded (List.mem_of_getElem? hp))
          · exact hr
  | duplicate src dst position => exact hr
  | lose src dst position => exact hr

theorem atRest_run (h : c.Accords members H) (hr : c.network.AtRest) (moves : List Move) :
    (c.run moves).network.AtRest := by
  obtain ⟨-, -, hr'⟩ := h.keep (P := fun _ c => c.network.AtRest) (A := fun _ => True)
    (fun {_ _ move _} _ h _ hr => atRest_next h hr move) hr moves fun _ _ => trivial
  exact hr'

/-! ### A halted shard -/

/-- Nothing more happens by itself, and nothing has been lost. -/
structure Halted (members : List NodeId) (H : Diaries) (c : Chronicle) : Prop where
  accords : c.Accords members H
  lossless : c.network.Lossless H
  remembers : c.network.Remembers
  atRest : c.network.AtRest
  still : ∀ src dst, c.network.link src dst = []
  served : ∀ {id : NodeId} {s : Station}, c.network.stations[id]? = some s → s.woken = false

namespace Halted

variable {a b id : NodeId} {s t : Station}

/-- All that was told has been taken in. -/
theorem taken (h : c.Halted members H) {src dst : NodeId} {packet : Packet}
    (hs : c.network.stations[dst]? = some s) (hp : (dst, packet) ∈ (H src).sent) :
    Taken (H dst) s.replica src packet := by
  rcases h.lossless (fun _ => h.remembers) hp with hl | ⟨t, ht, htk⟩
  · rw [h.still] at hl
    cases hl
  · rw [hs] at ht
    obtain rfl := Option.some.inj ht
    exact htk

/-- What is closed is not pending. -/
theorem not_closed (h : c.Halted members H) (hs : c.network.stations[id]? = some s) {p : Proof}
    (hp : s.replica.store.contains p) : p ∉ (H id).closed s.replica.rounds :=
  h.accords.not_closed h.remembers hs hp

/-- The vote of another member in an undecided round has been counted. -/
theorem counted (h : c.Halted members H) (ht : c.network.stations[b]? = some t)
    (hc : t.replica.chosen = none) {v : NodeId} (hne : v ≠ b) {p : Proof}
    (hv : (H v).votes[t.replica.rounds]? = some p) : t.replica.ballots.contains v := by
  have hF := h.accords.faithful ht
  have hC := h.accords.consistent
  obtain ⟨s, hs⟩ := h.accords.present (hC.voter hv)
  obtain ⟨signature, hsent⟩ :=
    (h.accords.told hs).voted hv b hF.seat.member (Ne.symm hne)
  have hlen := hF.tracks.length_of_undecided hc
  rcases h.taken ht hsent with hlt | ⟨-, hch | hb⟩ | ⟨vote, hheld, hle⟩
  · exact absurd hlt (Nat.lt_irrefl _)
  · rw [hc] at hch
    cases hch
  · exact hb
  · exfalso
    have hvote := hF.trusts.held hheld
    rcases Nat.lt_or_eq_of_le hle with hlt | heq
    · -- whoever votes in a later round knows that this one is committed
      exact absurd (hC.after hvote _ hlt b hF.seat.member) (by omega)
    · -- the ballot could be let in, since its event is here
      have hn : vote.proof ∉ (H b).closed t.replica.rounds :=
        hC.not_mem_closed hvote ((h.accords.bounded h.remembers).round_le hvote)
          (Nat.le_of_eq heq) (Nat.le_of_eq hlen.symm)
      have hst := h.accords.contains_of_knows ht (hC.votable hvote b hF.seat.member) hn
      cases (h.atRest ht).releasing hheld heq.symm hst

/-- Some other member has not voted, if a round with an own vote is undecided. -/
theorem exists_unvoted (h : c.Halted members H) (ht : c.network.stations[b]? = some t)
    (hb : t.replica.ballot.isSome) (hc : t.replica.chosen = none) :
    ∃ v ∈ members, v ≠ b ∧ (H v).votes.length ≤ t.replica.rounds := by
  obtain ⟨v, hm, hne, hn⟩ :=
    (h.accords.faithful ht).exists_uncounted (h.atRest ht).counting hb hc
  refine ⟨v, hm, hne, Nat.le_of_not_lt fun hlt => ?_⟩
  rw [h.counted ht hc hne (List.getElem?_eq_getElem hlt)] at hn
  cases hn

/-- No round is decided: whoever is not ready could be, or is waiting for a vote that was cast. -/
theorem undecided (h : c.Halted members H) (hs : c.network.stations[a]? = some s) :
    s.replica.chosen = none := by
  apply Classical.byContradiction
  intro hc
  have hF := h.accords.faithful hs
  obtain ⟨p, hp⟩ := Option.ne_none_iff_exists'.mp hc
  obtain ⟨b, hm, hne, hn⟩ := hF.exists_unready (h.atRest hs).closing (by rw [hp]; rfl)
  obtain ⟨t, ht⟩ := h.accords.present hm
  by_cases hcommitted : s.replica.rounds < (H b).committed.length
  · -- then it has said that it is ready
    have hsent := (h.accords.told ht).committed _ hcommitted a hF.seat.member (Ne.symm hne)
    rcases h.taken hs hsent with hlt | ⟨-, hr⟩
    · exact absurd hlt (Nat.lt_irrefl _)
    · rw [hr] at hn
      cases hn
  · -- then it is in this round, and so everyone has voted in it but it is still waiting for a vote
    have hlen : s.replica.rounds < (H a).committed.length := by
      rw [hF.tracks.length_of_decided hp]
      exact Nat.lt_succ_self _
    obtain ⟨hall, -⟩ := h.accords.consistent.elected (List.getElem?_eq_getElem hlen)
    obtain ⟨hrounds, hvoted, hundecided⟩ :=
      h.accords.behind hs ht (hall b hm) (Nat.le_of_not_lt hcommitted)
    obtain ⟨v, hv, -, hle⟩ := h.exists_unvoted ht hvoted hundecided
    exact absurd (hall v hv) (Nat.not_lt.mpr (hrounds ▸ hle))

/-- All members are in the same round. -/
theorem rounds_eq (h : c.Halted members H) (hs : c.network.stations[a]? = some s)
    (ht : c.network.stations[b]? = some t) : s.replica.rounds = t.replica.rounds :=
  h.accords.rounds_eq hs ht (h.undecided hs) (h.undecided ht)

/-- So they have closed the same events. -/
theorem closed_eq (h : c.Halted members H) (hs : c.network.stations[a]? = some s)
    (ht : c.network.stations[b]? = some t) :
    (H a).closed s.replica.rounds = (H b).closed t.replica.rounds :=
  h.accords.closed_eq hs ht (h.rounds_eq hs ht)

/-- An own pending event is announced: everyone was sent it and has acknowledged it. -/
theorem announced_own (h : c.Halted members H) (hs : c.network.stations[a]? = some s) {p : Proof}
    {e : Event} (he : s.replica.store.get? p = some e) (ho : e.origin = a) :
    s.replica.announced.contains p := by
  have hF := h.accords.faithful hs
  rw [← Bool.not_eq_false]
  intro hn
  obtain ⟨q, hq, hnot⟩ := (h.atRest hs).announcing he (ho.trans hF.seat.localId.symm) hn
  obtain ⟨hm, hne⟩ := hF.seat.peers.mp hq
  obtain ⟨t, ht⟩ := h.accords.present hm
  have hk : e.proof = p := hF.wellFormed.store.keyed he
  obtain ⟨signature, hprop⟩ :=
    (h.accords.told hs).proposed e.forWire (ho ▸ hF.trusts.content he) q hm hne
  -- the proposal was taken in by `q`, and its acknowledgement by the member
  have hack : (a, Packet.ack p) ∈ (H q).sent := hk ▸ h.taken ht hprop
  rcases h.taken hs hack with hc | ⟨e', he', hb⟩
  · exact h.not_closed hs (EventStore.contains_of_get? he) hc
  · rw [he] at he'
    obtain rfl := Option.some.inj he'
    rw [hnot] at hb
    cases hb

/-- The origin of a pending event is a member that still holds it, and has announced it. -/
theorem announced_origin (h : c.Halted members H) (hs : c.network.stations[a]? = some s) {p : Proof}
    {e : Event} (he : s.replica.store.get? p = some e) :
    ∃ t, c.network.stations[e.origin]? = some t ∧ t.replica.announced.contains p := by
  obtain ⟨t, e', ht, he', ho⟩ := h.accords.held_by_origin hs he fun ht =>
    h.closed_eq hs ht ▸ h.not_closed hs (EventStore.contains_of_get? he)
  exact ⟨t, ht, h.announced_own ht he' ho⟩

/-- Every pending event is announced everywhere. -/
theorem announced_everywhere (h : c.Halted members H) (hs : c.network.stations[a]? = some s)
    {p : Proof} (hp : s.replica.store.contains p) (ht : c.network.stations[b]? = some t) :
    t.replica.announced.contains p := by
  obtain ⟨e, he⟩ := EventStore.contains_iff.mp hp
  have hF := h.accords.faithful hs
  have hk : e.proof = p := hF.wellFormed.store.keyed he
  obtain ⟨u, hu, ha⟩ := h.announced_origin hs he
  by_cases hb : b = e.origin
  · subst hb
    rw [ht] at hu
    exact Option.some.inj hu ▸ ha
  · have hsent := (h.accords.told hu).announced ha ⟨e.forWire, hF.trusts.content he, hk⟩ b
      (h.accords.faithful ht).seat.member hb
    rcases h.taken ht hsent with hc | ha
    · rw [← h.closed_eq hs ht] at hc
      exact absurd hc (h.not_closed hs hp)
    · exact ha

/-- Nobody has voted: the event that was voted for is announced everywhere, so everyone would have
voted, and the round would be decided. -/
theorem unvoted (h : c.Halted members H) (ht : c.network.stations[b]? = some t) :
    t.replica.ballot = none := by
  apply Classical.byContradiction
  intro hb
  obtain ⟨p, hp⟩ := Option.ne_none_iff_exists'.mp hb
  -- somebody has not voted, although there is something to vote for
  obtain ⟨v, hm, -, hle⟩ := h.exists_unvoted ht (by rw [hp]; rfl) (h.undecided ht)
  obtain ⟨u, hu⟩ := h.accords.present hm
  have hst := ((h.accords.faithful ht).wellFormed.voted hp).1
  obtain ⟨w, hw⟩ := Option.ne_none_iff_exists'.mp
    ((h.atRest hu).voted (h.served hu) (h.announced_everywhere ht hst hu))
  rw [(h.accords.faithful hu).tracks.length_of_voted hw, h.rounds_eq hu ht] at hle
  exact absurd hle (Nat.not_succ_le_self _)

/-- Nothing is pending. -/
theorem pending_empty (h : c.Halted members H) (hs : c.network.stations[a]? = some s) (p : Proof) :
    s.replica.store.contains p = false := by
  rw [← Bool.not_eq_true]
  intro hp
  exact (h.atRest hs).voted (h.served hs) (h.announced_everywhere hs hp hs) (h.unvoted hs)

theorem queue_eq_nil (h : c.Halted members H) (hs : c.network.stations[a]? = some s) :
    s.replica.store.queue = [] := by
  rw [List.eq_nil_iff_forall_not_mem]
  intro p hp
  have hc := (h.accords.faithful hs).wellFormed.store.queued.mp hp
  rw [h.pending_empty hs p] at hc
  cases hc

/-- Every event that was sealed is committed by every member. -/
theorem committed (h : c.Halted members H) (hs : c.network.stations[a]? = some s) {q : NodeId}
    {e : Event} (he : e ∈ (H q).sealed) :
    ∃ e' ∈ (H a).committed, e'.proof = e.proof ∧ e'.forWire = e := by
  have hC := h.accords.consistent
  obtain ⟨t, ht⟩ := h.accords.present (hC.sealer he)
  have hclosed : e.proof ∈ (H a).closed s.replica.rounds := by
    rw [h.closed_eq hs ht]
    rcases (h.accords.faithful ht).tracks.known (Or.inl ⟨e, he, rfl⟩) with hp | hp
    · rw [h.pending_empty ht] at hp
      cases hp
    · exact hp
  obtain ⟨j, -, e', hj, hp⟩ := Diary.mem_closed.mp hclosed
  have hm := List.mem_of_getElem? hj
  exact ⟨e', hm, hp, (hC.eq_of_proof (hC.genuine hm) he hp).2⟩

end Halted

/-- **Quiescence means that everything is committed.** Take any run of a newly founded shard in
which no packet is lost and no member closes more rounds than it remembers. When no packet is under
way and no election is to be run, nothing is pending anywhere, everyone is idle, and everyone has
committed every event that was ever sealed. -/
theorem quiescence (shard : ShardId) (members : List NodeId) (signers : NodeId → Signer)
    (moves : List Move) (hl : ∀ move ∈ moves, move.isLoss = false)
    (hr : ∀ (id : NodeId) (s : Station),
      ((founded shard members signers).run moves).network.stations[id]? = some s →
        s.replica.rounds ≤ 4096)
    (hstill : ∀ src dst, ((founded shard members signers).run moves).network.link src dst = [])
    (hserved : ∀ (id : NodeId) (s : Station),
      ((founded shard members signers).run moves).network.stations[id]? = some s →
        s.woken = false) :
    ∀ id ∈ members, ∃ s,
      ((founded shard members signers).run moves).network.stations[id]? = some s ∧
        s.replica.store.isEmpty ∧ s.replica.phase = .idle ∧
        ∀ q, ∀ e ∈ ((founded shard members signers).run moves).sealed q,
          ∃ e' ∈ ((founded shard members signers).run moves).committed id,
            e'.proof = e.proof ∧ e'.origin = e.origin ∧ e'.timestamp = e.timestamp ∧
              e'.transactions = e.transactions := by
  have h₀ := accords_founded shard members signers
  obtain ⟨H, h, hL⟩ := h₀.keep (P := fun H c => c.network.Lossless H)
    (A := fun move => move.isLoss = false) (fun hl h hm hL => hm.lossless h hl hL)
    (lossless_founded shard members signers) moves hl
  have hH : Halted members H ((founded shard members signers).run moves) :=
    ⟨h, hL, hr,
      atRest_run h₀ (atRest_founded shard members signers) moves, hstill,
      fun {id s} hs => hserved id s hs⟩
  intro id hm
  obtain ⟨s, hs⟩ := h.present hm
  have hqueue := hH.queue_eq_nil hs
  have hp : s.replica.store.pendingEvents = [] := by
    rw [EventStore.pendingEvents, hqueue]
    rfl
  refine ⟨s, hs, ?_, ?_, fun q e he => ?_⟩
  · rw [EventStore.isEmpty, hqueue]
    rfl
  · unfold Replica.phase
    rw [hH.undecided hs, hH.unvoted hs, hp, EventStore.isEmpty, hqueue]
    rfl
  · rw [← h.sealed] at he
    obtain ⟨e', hm', hp', hw⟩ := hH.committed hs he
    rw [h.committed] at hm'
    have hw' := Event.mk.inj hw
    exact ⟨e', hm', hp', hw'.2.2.1, hw'.2.2.2.1, hw'.1⟩

/-- Two members and an event that both commit, with a packet repeated on the way. -/
theorem quiescence_of_two :
    let moves : List Move := [.submit ⟨"a"⟩ ⟨"x", [1], none⟩, .sealEvent ⟨"a"⟩ 5,
      .duplicate ⟨"a"⟩ ⟨"b"⟩ 0, .deliver ⟨"a"⟩ ⟨"b"⟩ 0, .deliver ⟨"a"⟩ ⟨"b"⟩ 0,
      .deliver ⟨"b"⟩ ⟨"a"⟩ 0, .deliver ⟨"b"⟩ ⟨"a"⟩ 0, .deliver ⟨"a"⟩ ⟨"b"⟩ 0, .elect ⟨"a"⟩,
      .elect ⟨"b"⟩, .deliver ⟨"a"⟩ ⟨"b"⟩ 0, .deliver ⟨"b"⟩ ⟨"a"⟩ 0, .deliver ⟨"b"⟩ ⟨"a"⟩ 0,
      .deliver ⟨"a"⟩ ⟨"b"⟩ 0]
    let c := (founded ⟨0⟩ [⟨"a"⟩, ⟨"b"⟩] Signer.labelled).run moves
    (c.sealed ⟨"a"⟩).map (·.proof) = ["5-a"] ∧
      ∀ id ∈ [⟨"a"⟩, ⟨"b"⟩], ∃ s, c.network.stations[id]? = some s ∧ s.replica.phase = .idle ∧
        ∃ e' ∈ c.committed id, e'.proof = "5-a" := by
  intro moves c
  obtain ⟨hstill, hserved⟩ := Network.actions_eq_nil_iff.mp
    (List.isEmpty_iff.mp (show c.network.actions.isEmpty by decide +kernel))
  have hl : ∀ move ∈ moves, move.isLoss = false := by decide +kernel
  have hr : ∀ (id : NodeId) (s : Station), c.network.stations[id]? = some s →
      s.replica.rounds ≤ 4096 := by
    have hall : ∀ p ∈ c.network.stations.toList, p.2.replica.rounds ≤ 4096 := by decide +kernel
    intro id s hs
    exact hall (id, s) (Network.mem_stations_toList.mpr hs)
  have hp : (c.sealed ⟨"a"⟩).map (·.proof) = ["5-a"] := by decide +kernel
  obtain ⟨e, he, hep⟩ : ∃ e ∈ c.sealed ⟨"a"⟩, e.proof = "5-a" := by
    rw [← List.mem_map, hp]
    exact List.mem_cons_self
  refine ⟨hp, fun id hm => ?_⟩
  obtain ⟨s, hs, -, hidle, hall⟩ := quiescence ⟨0⟩ [⟨"a"⟩, ⟨"b"⟩] Signer.labelled moves hl
    hr hstill hserved id hm
  obtain ⟨e', hm', hp', -⟩ := hall _ e he
  exact ⟨s, hs, hidle, e', hm', hp'.trans hep⟩

end Chronicle

end ShardGossip

import ShardGossip.Proofs.Accord

/-!
# ShardGossip.Proofs.Agreement

**All members commit the same events in the same order, and nobody runs ahead or is left behind.**
This is read off the diaries that accord with a run. What anyone commits in a round is the winner of
everyone's votes in that round, so two members cannot differ in it (`agreement`). A round is closed
only by those who know that everyone has committed it, so no member is more than one round ahead
(`barrier`). An event is announced only when everyone has had it, so everyone holds it until it is
closed, and knows what a packet speaks of (`announced_held`).
-/

namespace ShardGossip

open Network

variable (shard : ShardId) (members : List NodeId) (signers : NodeId → Signer) (moves : List Move)

namespace Chronicle

/-- Every run of a founded shard accords with diaries. -/
theorem exists_accords :
    ∃ H, ((founded shard members signers).run moves).Accords members H :=
  (accords_founded shard members signers).run moves

/-- **Agreement.** Whatever happens to a newly founded shard, and however its packets are delivered,
repeated and lost: the events that two members commit in one round are the same, and the origin has
sealed just that. -/
theorem agreement {a b : NodeId} {k : Nat} {e e' : Event}
    (he : (((founded shard members signers).run moves).committed a)[k]? = some e)
    (he' : (((founded shard members signers).run moves).committed b)[k]? = some e') :
    (e.proof = e'.proof ∧ e.origin = e'.origin ∧ e.timestamp = e'.timestamp ∧
        e.transactions = e'.transactions) ∧
      Event.sealed e.origin e.timestamp e.transactions ∈
        ((founded shard members signers).run moves).sealed e.origin ∧
      e.proof = Event.proofFor e.timestamp e.origin := by
  obtain ⟨H, h⟩ := exists_accords shard members signers moves
  rw [← h.committed] at he he'
  obtain ⟨hp, hw⟩ := h.consistent.agree he he'
  have hg := h.consistent.genuine (List.mem_of_getElem? he)
  have ho := h.consistent.own hg
  refine ⟨⟨hp, ?_, ?_, ?_⟩, ?_, ?_⟩
  · exact (Event.mk.inj hw).2.2.1
  · exact (Event.mk.inj hw).2.2.2.1
  · exact (Event.mk.inj hw).1
  · rw [← h.sealed]
    rw [ho] at hg
    exact hg
  · exact (Event.mk.inj ho).2.1

/-- Two members, of which one seals an event that both commit. -/
theorem agreement_of_two :
    let c := (founded ⟨0⟩ [⟨"a"⟩, ⟨"b"⟩] Signer.labelled).run
      [.submit ⟨"a"⟩ ⟨"x", [1], none⟩, .sealEvent ⟨"a"⟩ 5, .deliver ⟨"a"⟩ ⟨"b"⟩ 0,
        .deliver ⟨"b"⟩ ⟨"a"⟩ 0, .deliver ⟨"a"⟩ ⟨"b"⟩ 0, .elect ⟨"a"⟩, .elect ⟨"b"⟩,
        .deliver ⟨"a"⟩ ⟨"b"⟩ 0, .deliver ⟨"b"⟩ ⟨"a"⟩ 0]
    ∃ e e', (c.committed ⟨"a"⟩)[0]? = some e ∧ (c.committed ⟨"b"⟩)[0]? = some e' ∧
      e.transactions = e'.transactions ∧
      Event.sealed e.origin e.timestamp e.transactions ∈ c.sealed e.origin := by
  intro c
  obtain ⟨e, he⟩ := Option.isSome_iff_exists.mp
    (show (c.committed ⟨"a"⟩)[0]?.isSome by decide +kernel)
  obtain ⟨e', he'⟩ := Option.isSome_iff_exists.mp
    (show (c.committed ⟨"b"⟩)[0]?.isSome by decide +kernel)
  have h := agreement _ _ _ _ he he'
  exact ⟨e, e', he, he', h.1.2.2.2, h.2.1⟩

/-- **Barrier.** Whatever happens to a newly founded shard: its members have committed one event in
each round that they closed, and one more if the round in progress is decided; before anyone has
closed a round everyone has committed its event; and so no member is more than one round ahead of
another. -/
theorem barrier {a b : NodeId} {s t : Station}
    (hs : ((founded shard members signers).run moves).network.stations[a]? = some s)
    (ht : ((founded shard members signers).run moves).network.stations[b]? = some t) :
    (((founded shard members signers).run moves).committed b).length =
        t.replica.rounds + t.replica.chosen.toList.length ∧
      (∀ r < s.replica.rounds,
        r < (((founded shard members signers).run moves).committed b).length) ∧
      s.replica.rounds ≤ t.replica.rounds + 1 ∧ t.replica.rounds ≤ s.replica.rounds + 1 := by
  obtain ⟨H, h⟩ := exists_accords shard members signers moves
  have hF := h.faithful hs
  have hF' := h.faithful ht
  have hpass : ∀ r < s.replica.rounds, r < (H b).committed.length :=
    fun r hr => hF.trusts.passed hr hF'.seat.member
  have hpass' : ∀ r < t.replica.rounds, r < (H a).committed.length :=
    fun r hr => hF'.trusts.passed hr hF.seat.member
  refine ⟨?_, ?_, ?_, ?_⟩
  · rw [← h.committed]
    exact hF'.tracks.committed_length
  · rw [← h.committed]
    exact hpass
  · apply Nat.le_of_not_lt
    intro hlt
    exact absurd (hpass _ hlt) (Nat.not_lt.mpr hF'.tracks.committed_length_le)
  · apply Nat.le_of_not_lt
    intro hlt
    exact absurd (hpass' _ hlt) (Nat.not_lt.mpr hF.tracks.committed_length_le)

/-- Two members, of which one has closed the first round and the other has just decided it. -/
theorem barrier_of_two :
    let c := (founded ⟨0⟩ [⟨"a"⟩, ⟨"b"⟩] Signer.labelled).run
      [.submit ⟨"a"⟩ ⟨"x", [1], none⟩, .sealEvent ⟨"a"⟩ 5, .deliver ⟨"a"⟩ ⟨"b"⟩ 0,
        .deliver ⟨"b"⟩ ⟨"a"⟩ 0, .deliver ⟨"a"⟩ ⟨"b"⟩ 0, .elect ⟨"a"⟩, .elect ⟨"b"⟩,
        .deliver ⟨"a"⟩ ⟨"b"⟩ 0, .deliver ⟨"b"⟩ ⟨"a"⟩ 0, .deliver ⟨"b"⟩ ⟨"a"⟩ 0]
    ∃ s t, c.network.stations[(⟨"a"⟩ : NodeId)]? = some s ∧
      c.network.stations[(⟨"b"⟩ : NodeId)]? = some t ∧
      s.replica.rounds = 1 ∧ t.replica.rounds = 0 ∧ (c.committed ⟨"b"⟩).length = 1 ∧
      s.replica.rounds ≤ t.replica.rounds + 1 := by
  intro c
  obtain ⟨s, hs, hr⟩ := Option.map_eq_some_iff.mp (show
    c.network.stations[(⟨"a"⟩ : NodeId)]?.map (·.replica.rounds) = some 1 by decide +kernel)
  obtain ⟨t, ht, hr'⟩ := Option.map_eq_some_iff.mp (show
    c.network.stations[(⟨"b"⟩ : NodeId)]?.map (·.replica.rounds) = some 0 by decide +kernel)
  exact ⟨s, t, hs, ht, hr, hr', by decide +kernel, (barrier _ _ _ _ hs ht).2.2.1⟩

/-- **Everyone holds what is announced, and nobody is refused.** Whatever happens to a newly founded
shard: an event that some member may vote for is pending with every member, or committed and closed
there; and as long as no member has closed more rounds than it remembers, every packet under way, at
whatever position of its link, is accepted by its receiver. -/
theorem announced_held :
    (∀ (a b : NodeId) (s t : Station) (p : Proof),
      ((founded shard members signers).run moves).network.stations[a]? = some s →
      ((founded shard members signers).run moves).network.stations[b]? = some t →
      s.replica.announced.contains p →
        t.replica.store.contains p ∨
          p ∈ ((((founded shard members signers).run moves).committed b).take
            t.replica.rounds).map (·.proof)) ∧
    ((∀ (id : NodeId) (s : Station),
        ((founded shard members signers).run moves).network.stations[id]? = some s →
          s.replica.rounds ≤ 4096) →
      ∀ (src dst : NodeId) (position : Nat) (packet : Packet),
        (((founded shard members signers).run moves).network.link src dst)[position]? =
            some packet →
          ∃ t o, ((founded shard members signers).run moves).network.stations[dst]? = some t ∧
            t.replica.onPacket src packet t.signer = .ok o) := by
  obtain ⟨H, h⟩ := exists_accords shard members signers moves
  refine ⟨fun a b s t p hs ht hp => ?_, fun hr src dst position packet hp => ?_⟩
  · have hF := h.faithful ht
    rw [← h.committed]
    exact hF.tracks.known ((h.faithful hs).trusts.announced hp b hF.seat.member)
  · have hsent := h.consistent.sent (h.recorded (List.mem_of_getElem? hp))
    obtain ⟨t, ht⟩ := h.present hsent.target
    obtain ⟨o, ho⟩ := (h.faithful ht).onPacket_ok h.consistent (hr dst t ht) hsent t.signer
    exact ⟨t, o, ht, ho⟩

/-- Two members, of which one has just announced an event; word of that is still under way. -/
theorem announced_held_by_two :
    let c := (founded ⟨0⟩ [⟨"a"⟩, ⟨"b"⟩] Signer.labelled).run
      [.submit ⟨"a"⟩ ⟨"x", [1], none⟩, .sealEvent ⟨"a"⟩ 5, .deliver ⟨"a"⟩ ⟨"b"⟩ 0,
        .deliver ⟨"b"⟩ ⟨"a"⟩ 0]
    ∃ s t o, c.network.stations[(⟨"a"⟩ : NodeId)]? = some s ∧
      c.network.stations[(⟨"b"⟩ : NodeId)]? = some t ∧ s.replica.announced.contains "5-a" ∧
      (t.replica.store.contains "5-a" ∨
        "5-a" ∈ ((c.committed ⟨"b"⟩).take t.replica.rounds).map (·.proof)) ∧
      c.network.link ⟨"a"⟩ ⟨"b"⟩ = [.finalize "5-a"] ∧
      t.replica.onPacket ⟨"a"⟩ (.finalize "5-a") t.signer = .ok o := by
  intro c
  obtain ⟨s, hs, ha⟩ := Option.map_eq_some_iff.mp (show
    c.network.stations[(⟨"a"⟩ : NodeId)]?.map (·.replica.announced.contains "5-a") = some true by
      decide +kernel)
  have hr : ∀ (id : NodeId) (s : Station), c.network.stations[id]? = some s →
      s.replica.rounds ≤ 4096 := by
    have hall : ∀ p ∈ c.network.stations.toList, p.2.replica.rounds ≤ 4096 := by decide +kernel
    intro id s hs
    exact hall (id, s) (Network.mem_stations_toList.mpr hs)
  have hl : c.network.link ⟨"a"⟩ ⟨"b"⟩ = [.finalize "5-a"] := by decide +kernel
  have h := announced_held ⟨0⟩ [⟨"a"⟩, ⟨"b"⟩] Signer.labelled
    [.submit ⟨"a"⟩ ⟨"x", [1], none⟩, .sealEvent ⟨"a"⟩ 5, .deliver ⟨"a"⟩ ⟨"b"⟩ 0,
      .deliver ⟨"b"⟩ ⟨"a"⟩ 0]
  obtain ⟨t, o, ht, ho⟩ := h.2 hr ⟨"a"⟩ ⟨"b"⟩ 0 (.finalize "5-a") (by rw [hl]; rfl)
  exact ⟨s, t, o, hs, ht, ha, h.1 _ _ _ _ _ hs ht ha, hl, ho⟩

end Chronicle

end ShardGossip

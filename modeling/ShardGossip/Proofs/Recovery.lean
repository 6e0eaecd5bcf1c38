import ShardGossip.Proofs.Retransmission
import ShardGossip.Proofs.Settling
import ShardGossip.Proofs.NoClosedPending

/-!
# ShardGossip.Proofs.Recovery

**Sending again gets a shard going that lost packets have brought to a halt** (`recovery`), unless
what is missing is something that nobody sends again: the announcement of an event, the vote of a
member that has decided the round, or word from a member that has closed it (`Recoverable`). Each of
the three brings a shard to a halt for good (`halted_for_good`).

Suppose that a halted shard halts again, with nothing gained. Then all own events are announced,
since their proposals were acknowledged at last (`Stuck.announced_own`); no round is decided, since
word that the members are ready was heard (`Stuck.undecided`); and in the round that all are in, the
votes that were sent again have been counted (`Stuck.counted`). So nobody has voted, hence nobody
has anything to vote for, and nothing is pending.
-/

namespace ShardGossip

open Network

/-! ### Progress -/

namespace Replica

/-- The acknowledgements that are recorded for pending events. -/
def acks (r : Replica) : List (Proof × NodeId) :=
  r.store.pendingEvents.flatMap fun e => e.backedResponses.toList.map fun q => (e.proof, q)

theorem mem_acks {r : Replica} (h : r.store.WellFormed) {p : Proof} {q : NodeId} :
    (p, q) ∈ r.acks ↔ r.HasAck p q := by
  simp only [acks, List.mem_flatMap, List.mem_map, h.mem_pendingEvents]
  constructor
  · rintro ⟨e, he, _, hq, heq⟩
    cases heq
    exact ⟨e, he, mem_toList_iff.mp hq⟩
  · rintro ⟨e, he, hq⟩
    have hk : e.proof = p := h.keyed he
    exact ⟨e, hk ▸ he, q, mem_toList_iff.mpr hq, by rw [hk]⟩

/-- A member is further than it was, or at least elsewhere: in its rounds, in the winner it has
chosen, the events it may vote for, the ballots it has counted, or the acknowledgements it has
recorded. -/
def Progressed (r r' : Replica) : Prop :=
  r'.rounds ≠ r.rounds ∨ r'.chosen ≠ r.chosen ∨ r'.announced.toList ≠ r.announced.toList ∨
    r'.ballots.toList ≠ r.ballots.toList ∨ r'.acks ≠ r.acks

instance (r r' : Replica) : Decidable (r.Progressed r') := by
  unfold Progressed
  infer_instance

end Replica

namespace Network

/-- Some member is further than it was. -/
def Progressed (n n' : Network) : Prop :=
  ∃ (id : NodeId) (s s' : Station), n.stations[id]? = some s ∧ n'.stations[id]? = some s' ∧
    s.replica.Progressed s'.replica

theorem progressed_iff {n n' : Network} : n.Progressed n' ↔
    n.stations.toList.any fun (id, s) =>
      n'.stations[id]?.any fun s' => decide (s.replica.Progressed s'.replica) := by
  simp only [Progressed, List.any_eq_true, Prod.exists, mem_stations_toList, Option.any_eq_true,
    decide_eq_true_eq]
  constructor
  · rintro ⟨id, s, s', hs, hs', hp⟩
    exact ⟨id, s, hs, s', hs', hp⟩
  · rintro ⟨id, s, hs, s', hs', hp⟩
    exact ⟨id, s, s', hs, hs', hp⟩

instance (n n' : Network) : Decidable (n.Progressed n') :=
  decidable_of_iff' _ progressed_iff

end Network

namespace Chronicle

/-- Nothing is missing that nobody sends again. -/
structure Recoverable (c : Chronicle) : Prop where
  /-- Whoever holds an event that its origin has announced has heard of that. -/
  announced : ∀ {origin b : NodeId} {s t : Station} {p : Proof} {e : Event},
    c.network.stations[origin]? = some s → c.network.stations[b]? = some t →
    s.replica.store.get? p = some e → e.origin = origin → s.replica.announced.contains p →
    t.replica.store.contains p → t.replica.announced.contains p
  /-- Whoever has not decided the round has counted the votes of those who have. -/
  counted : ∀ {v b : NodeId} {s t : Station}, c.network.stations[v]? = some s →
    c.network.stations[b]? = some t → s.replica.rounds = t.replica.rounds →
    s.replica.chosen.isSome → t.replica.chosen = none → t.replica.ballots.contains v
  /-- Whoever has decided the round has heard from those who have closed it. -/
  ready : ∀ {a b : NodeId} {s t : Station}, c.network.stations[a]? = some s →
    c.network.stations[b]? = some t → t.replica.rounds < s.replica.rounds →
    t.replica.chosen.isSome → t.replica.ready.contains a

/-! ### Halting again -/

/-- A shard that had come to a halt has come to a halt again, after everyone has sent again what it
was waiting for, and nobody has got any further. -/
structure Stuck (members : List NodeId) (H₀ : Diaries) (c₀ : Chronicle) (H : Diaries)
    (c : Chronicle) : Prop where
  before : c₀.Accords members H₀
  after : c.Accords members H
  recoverable : c₀.Recoverable
  fresh : ∀ {id : NodeId} {s : Station} {p : Proof}, c₀.network.stations[id]? = some s →
    s.replica.store.contains p → p ∉ (H₀ id).closed s.replica.rounds
  resumed : Resuming members H₀ c₀ H c
  atRest₀ : c₀.network.AtRest
  atRest : c.network.AtRest
  served : ∀ {id : NodeId} {s : Station}, c₀.network.stations[id]? = some s → s.woken = false
  still : ∀ src dst, c.network.link src dst = []
  same : ∀ {id : NodeId} {s t : Station}, c₀.network.stations[id]? = some s →
    c.network.stations[id]? = some t → ¬ s.replica.Progressed t.replica

namespace Stuck

variable {members : List NodeId} {H₀ H : Diaries} {c₀ c : Chronicle} {a b id : NodeId}
  {s t u w : Station} {p : Proof}

/-- Each member stands as before in the round. -/
theorem fixed (h : Stuck members H₀ c₀ H c) (hs : c₀.network.stations[id]? = some s)
    (ht : c.network.stations[id]? = some t) :
    t.replica.rounds = s.replica.rounds ∧ t.replica.chosen = s.replica.chosen ∧
      (∀ v, t.replica.ballots.contains v = s.replica.ballots.contains v) ∧
      ∀ {p q}, t.replica.HasAck p q → s.replica.HasAck p q := by
  have hno := h.same hs ht
  unfold Replica.Progressed at hno
  simp only [not_or, ne_eq, Decidable.not_not] at hno
  obtain ⟨hr, hc, -, hb, ha⟩ := hno
  refine ⟨hr, hc, fun v => ?_, fun {p q} hp => ?_⟩
  · have hb' : t.replica.ballots = s.replica.ballots := Std.ExtTreeMap.ext_toList (by rw [hb])
    rw [hb']
  · rw [← Replica.mem_acks (h.before.faithful hs).wellFormed.store, ← ha]
    exact (Replica.mem_acks (h.after.faithful ht).wellFormed.store).mpr hp

theorem closed_eq (h : Stuck members H₀ c₀ H c) (hs : c₀.network.stations[id]? = some s)
    (ht : c.network.stations[id]? = some t) :
    (H id).closed t.replica.rounds = (H₀ id).closed s.replica.rounds := by
  rw [(h.fixed hs ht).1]
  exact (h.resumed.extend id).closed (h.before.faithful hs).tracks.rounds_le

/-- Every own pending event had been announced: its proposal was sent again, and all have
acknowledged it by now. -/
theorem announced_own (h : Stuck members H₀ c₀ H c) (hs : c₀.network.stations[id]? = some s)
    {e : Event} (he : s.replica.store.get? p = some e) (ho : e.origin = id) :
    s.replica.announced.contains p := by
  have hF := h.before.faithful hs
  rw [← Bool.not_eq_false]
  intro hn
  obtain ⟨q, hq, hnot⟩ := (h.atRest₀ hs).announcing he (ho.trans hF.seat.localId.symm) hn
  obtain ⟨hm, hne⟩ := hF.seat.peers.mp hq
  rcases h.resumed.answered hs he ho hn hm hne with ⟨_, _, -, hp⟩ | hp | ⟨t, ht, htk⟩
  · rw [h.still] at hp
    cases hp
  · rw [h.still] at hp
    cases hp
  · rcases htk with hc | hack
    · rw [h.closed_eq hs ht] at hc
      exact h.fresh hs (EventStore.contains_of_get? he) hc
    · obtain ⟨e', he', hb⟩ := (h.fixed hs ht).2.2.2 hack
      rw [he] at he'
      rw [← Option.some.inj he', hnot] at hb
      cases hb

/-- Whoever has voted and not decided has been counted by all who have not decided either. -/
theorem counted (h : Stuck members H₀ c₀ H c) (hs : c₀.network.stations[a]? = some s)
    (ht : c₀.network.stations[b]? = some t) (hne : a ≠ b) (hb : s.replica.ballot = some p)
    (hc : s.replica.chosen = none) (hc' : t.replica.chosen = none) :
    t.replica.ballots.contains a := by
  have hr := h.before.rounds_eq hs ht hc hc'
  rcases h.resumed.counted hs ht hne hb hc hc' with ⟨_, hp⟩ | ⟨w, hw, hx⟩
  · rw [h.still] at hp
    cases hp
  · obtain ⟨hrounds, hchosen, hballots, -⟩ := h.fixed ht hw
    rcases hx with hlt | ⟨-, hx | hx⟩
    · rw [hrounds, hr] at hlt
      exact absurd hlt (Nat.lt_irrefl _)
    · rw [hchosen, hc'] at hx
      cases hx
    · exact hballots a ▸ hx

/-- Whoever has voted and not decided lacks another's ballot. -/
theorem exists_uncounted (h : Stuck members H₀ c₀ H c) (ht : c₀.network.stations[b]? = some t)
    (hb : t.replica.ballot.isSome) (hc : t.replica.chosen = none) :
    ∃ v ∈ members, v ≠ b ∧ t.replica.ballots.contains v = false := by
  obtain ⟨w, hw⟩ := h.after.present (h.before.faithful ht).seat.member
  have hF := h.after.faithful hw
  obtain ⟨hrounds, hchosen, hballots, -⟩ := h.fixed ht hw
  have hvoted : w.replica.ballot.isSome := by
    -- a vote that was cast in a round stands while the round lasts
    obtain ⟨p, hp⟩ := Option.isSome_iff_exists.mp hb
    have hlen := (h.before.faithful ht).tracks.length_of_voted hp
    have hle := (h.resumed.extend b).votes.length_le
    cases hbw : w.replica.ballot with
    | some q => rfl
    | none =>
        have hlen' := hF.tracks.length_of_unvoted hbw
        omega
  obtain ⟨v, hm, hne, hn⟩ :=
    hF.exists_uncounted (h.atRest hw).counting hvoted (hchosen.trans hc)
  exact ⟨v, hm, hne, hballots v ▸ hn⟩

/-- A vote that was cast in a round still undecided here has been counted here. -/
theorem counted_of_cast (h : Stuck members H₀ c₀ H c) (hs : c₀.network.stations[a]? = some s)
    (ht : c₀.network.stations[b]? = some t) (hne : a ≠ b) (hc : t.replica.chosen = none)
    (hv : t.replica.rounds < (H₀ a).votes.length) : t.replica.ballots.contains a := by
  have hF := h.before.faithful hs
  have hle := h.before.rounds_le hs ht hc
  have hballot : s.replica.ballot.isSome := by
    rw [Option.isSome_iff_ne_none]
    intro hb
    rw [hF.tracks.length_of_unvoted hb] at hv
    omega
  have hround : s.replica.rounds = t.replica.rounds := by
    have hmax := hF.tracks.votes_length_le
    omega
  obtain ⟨p, hp⟩ := Option.isSome_iff_exists.mp hballot
  cases hcs : s.replica.chosen with
  | none => exact h.counted hs ht hne hp hcs hc
  | some w => exact h.recoverable.counted hs ht hround (by rw [hcs]; rfl) hc

/-- Whoever has decided a round has heard by now from all who have decided it as well. -/
theorem ready_of_committed (h : Stuck members H₀ c₀ H c) (hs : c₀.network.stations[a]? = some s)
    (ht : c₀.network.stations[b]? = some t) (hne : b ≠ a) (hc : s.replica.chosen.isSome)
    (hcommitted : s.replica.rounds < (H₀ b).committed.length)
    (hw : c.network.stations[a]? = some w) : w.replica.ready.contains b := by
  have hF := h.before.faithful ht
  have hrounds := (h.fixed hs hw).1
  rcases Nat.lt_or_eq_of_le (Nat.le_of_lt_succ
    (Nat.lt_of_lt_of_le hcommitted hF.tracks.committed_length_le)) with hlt | heq
  · -- the other has closed the round, and was heard before
    have hstay := (h.resumed.follows hs hw).resolve_left fun hlt => Nat.ne_of_gt hlt hrounds
    exact hstay.ready (h.recoverable.ready ht hs hlt hc)
  · -- the other has decided the round, and says so again
    have hdecided : t.replica.chosen.isSome := by
      rw [Option.isSome_iff_ne_none]
      intro hct
      rw [hF.tracks.length_of_undecided hct, heq] at hcommitted
      exact Nat.lt_irrefl _ hcommitted
    rcases h.resumed.ready ht hdecided (h.before.faithful hs).seat.member hne.symm with
      hp | ⟨u, hu, htk⟩
    · rw [h.still] at hp
      cases hp
    · rw [hw] at hu
      obtain rfl := Option.some.inj hu
      rcases htk with hlt | ⟨-, hr⟩
      · rw [hrounds, heq] at hlt
        exact absurd hlt (Nat.lt_irrefl _)
      · exact hr

/-- No round is decided: whoever is not ready would have been heard to be, or is waiting for a vote
that would have been counted. -/
theorem undecided (h : Stuck members H₀ c₀ H c) (hs : c₀.network.stations[a]? = some s) :
    s.replica.chosen = none := by
  apply Classical.byContradiction
  intro hc
  have hF := h.before.faithful hs
  obtain ⟨p, hp⟩ := Option.ne_none_iff_exists'.mp hc
  have hdecided : s.replica.chosen.isSome := Option.isSome_iff_exists.mpr ⟨p, hp⟩
  obtain ⟨w, hw⟩ := h.after.present hF.seat.member
  obtain ⟨-, hchosen, -, -⟩ := h.fixed hs hw
  obtain ⟨b, hm, hne, hn⟩ := (h.after.faithful hw).exists_unready (h.atRest hw).closing
    (hchosen ▸ hdecided)
  obtain ⟨t, ht⟩ := h.before.present hm
  by_cases hcommitted : s.replica.rounds < (H₀ b).committed.length
  · rw [h.ready_of_committed hs ht hne hdecided hcommitted hw] at hn
    cases hn
  · -- it has not decided the round, in which everyone has voted, and lacks somebody's ballot
    have hlen : s.replica.rounds < (H₀ a).committed.length := by
      rw [hF.tracks.length_of_decided hp]
      exact Nat.lt_succ_self _
    obtain ⟨hall, -⟩ := h.before.consistent.elected (List.getElem?_eq_getElem hlen)
    obtain ⟨hr, hvoted, hundecided⟩ :=
      h.before.behind hs ht (hall b hm) (Nat.le_of_not_lt hcommitted)
    obtain ⟨v, hv, hvb, hcount⟩ := h.exists_uncounted ht hvoted hundecided
    obtain ⟨u, hu⟩ := h.before.present hv
    rw [h.counted_of_cast hu ht hvb hundecided (hr ▸ hall v hv)] at hcount
    cases hcount

/-- So all are in the same round, and have closed the same events. -/
theorem closed_eq_closed (h : Stuck members H₀ c₀ H c) (hs : c₀.network.stations[a]? = some s)
    (ht : c₀.network.stations[b]? = some t) :
    (H₀ a).closed s.replica.rounds = (H₀ b).closed t.replica.rounds :=
  h.before.closed_eq hs ht (h.before.rounds_eq hs ht (h.undecided hs) (h.undecided ht))

/-- Every pending event had been announced to everyone. -/
theorem announced_everywhere (h : Stuck members H₀ c₀ H c) (hs : c₀.network.stations[a]? = some s)
    (hp : s.replica.store.contains p) (ht : c₀.network.stations[b]? = some t) :
    t.replica.announced.contains p := by
  obtain ⟨e, he⟩ := EventStore.contains_iff.mp hp
  -- the origin still holds the event, and has announced it
  obtain ⟨u, e', hu, he', ho⟩ := h.before.held_by_origin hs he fun hu =>
    h.closed_eq_closed hs hu ▸ h.fresh hs hp
  have ha := h.announced_own hu he' ho
  -- so everyone holds it
  have hk := (h.before.faithful hu).trusts.announced ha b (h.before.faithful ht).seat.member
  have hst := h.before.contains_of_knows ht hk (h.closed_eq_closed hs ht ▸ h.fresh hs hp)
  exact h.recoverable.announced hu ht he' ho ha hst

/-- Nobody has voted: everyone would have, and all the votes would have been counted. -/
theorem unvoted (h : Stuck members H₀ c₀ H c) (ht : c₀.network.stations[b]? = some t) :
    t.replica.ballot = none := by
  apply Classical.byContradiction
  intro hb
  obtain ⟨p, hp⟩ := Option.ne_none_iff_exists'.mp hb
  obtain ⟨v, hm, hne, hn⟩ := h.exists_uncounted ht (by rw [hp]; rfl) (h.undecided ht)
  obtain ⟨u, hu⟩ := h.before.present hm
  have hst := ((h.before.faithful ht).wellFormed.voted hp).1
  obtain ⟨q, hq⟩ := Option.ne_none_iff_exists'.mp
    ((h.atRest₀ hu).voted (h.served hu) (h.announced_everywhere ht hst hu))
  rw [h.counted hu ht hne hq (h.undecided hu) (h.undecided ht)] at hn
  cases hn

/-- Nothing was pending. -/
theorem isEmpty (h : Stuck members H₀ c₀ H c) (hs : c₀.network.stations[a]? = some s) :
    s.replica.store.isEmpty := by
  rw [EventStore.isEmpty, List.isEmpty_iff, List.eq_nil_iff_forall_not_mem]
  intro p hp
  have hst := (h.before.faithful hs).wellFormed.store.queued.mp hp
  exact (h.atRest₀ hs).voted (h.served hs) (h.announced_everywhere hs hst hs) (h.unvoted hs)

end Stuck

/-- A shard that comes to a halt again has got further: otherwise it would be stuck, with nothing
pending. -/
theorem progressed {members : List NodeId} {H₀ : Diaries} {c₀ : Chronicle} {ids : List NodeId}
    (h₀ : c₀.Accords members H₀) (hr₀ : c₀.network.AtRest) (hids : ∀ id ∈ members, id ∈ ids)
    (hhalt₀ : c₀.network.actions = [])
    (hpending : c₀.network.isDrained = false)
    (hrec : c₀.Recoverable)
    (hfresh : ∀ {id : NodeId} {s : Station} {p : Proof}, c₀.network.stations[id]? = some s →
      s.replica.store.contains p → p ∉ (H₀ id).closed s.replica.rounds)
    {rest : List Move} (hs : (c₀.run (ids.map .retransmit)).serves rest)
    (hhalt : ((c₀.run (ids.map .retransmit)).run rest).network.actions = []) :
    c₀.network.Progressed ((c₀.run (ids.map .retransmit)).run rest).network := by
  apply Classical.byContradiction
  intro hno
  -- sending again changes no member, and nothing of it is lost afterwards
  obtain ⟨H₁, h₁, hx, hf⟩ := h₀.follows (ids.map .retransmit)
  have hres₁ : Resuming members H₀ c₀ H₁ (c₀.run (ids.map .retransmit)) :=
    resuming_of_resent h₀ hids hx hf
  obtain ⟨H, h, hres⟩ := h₁.keep (P := Resuming members H₀ c₀)
    (A := fun move => move.isLoss = false) (fun hl hc hm hp => hp.next h₀ hfresh hc hm hl) hres₁
    rest (not_isLoss_of_serves hs)
  obtain ⟨-, hserved⟩ := actions_eq_nil_iff.mp hhalt₀
  obtain ⟨hstill, -⟩ := actions_eq_nil_iff.mp hhalt
  have hr := atRest_run h₁ (atRest_run h₀ hr₀ (ids.map .retransmit)) rest
  have hstuck : Stuck members H₀ c₀ H ((c₀.run (ids.map .retransmit)).run rest) :=
    ⟨h₀, h, hrec, hfresh, hres, hr₀, hr, fun hs => hserved _ _ hs, hstill,
      fun hs ht hp => hno ⟨_, _, _, hs, ht, hp⟩⟩
  obtain ⟨⟨id, s⟩, hs, he⟩ := List.all_eq_false.mp hpending
  exact he (hstuck.isEmpty (mem_stations_toList.mp hs))

/-- **Sending again gets a shard going.** Take any run of a newly founded shard, whatever packets it
lost, and let the links deliver in order and at most once, or let no member have closed more rounds
than it remembers. Suppose that it has come to a halt with something pending, and that nothing is
missing that nobody sends again. When every member has sent again what it is waiting for, only so
much can happen by itself; it always comes to a halt; and then some member is further than it
was. -/
theorem recovery (shard : ShardId) (members : List NodeId) (signers : NodeId → Signer)
    (moves : List Move) (ids : List NodeId) (hids : ∀ id ∈ members, id ∈ ids)
    (hmoves : (∀ move ∈ moves, move.inSequence) ∨ ∀ (id : NodeId) (s : Station),
      ((founded shard members signers).run moves).network.stations[id]? = some s →
        s.replica.rounds ≤ 4096)
    (hhalt : ((founded shard members signers).run moves).network.actions = [])
    (hpending : ((founded shard members signers).run moves).network.isDrained = false)
    (hrec : ((founded shard members signers).run moves).Recoverable) :
    let c₀ := (founded shard members signers).run moves
    let c₁ := c₀.run (ids.map .retransmit)
    (∃ bound, ∀ rest, c₁.serves rest → rest.length ≤ bound) ∧
      (∀ rest, c₁.serves rest →
        ∃ more, c₁.serves (rest ++ more) ∧ (c₁.run (rest ++ more)).network.actions = []) ∧
      ∀ rest, c₁.serves rest → (c₁.run rest).network.actions = [] →
        c₀.network.Progressed (c₁.run rest).network := by
  intro c₀ c₁
  have hstart := accords_founded shard members signers
  obtain ⟨H₀, h₀, hfresh⟩ : ∃ H₀, c₀.Accords members H₀ ∧
      ∀ {id : NodeId} {s : Station} {p : Proof}, c₀.network.stations[id]? = some s →
        s.replica.store.contains p → p ∉ (H₀ id).closed s.replica.rounds := by
    rcases hmoves with hi | hr
    · obtain ⟨H₀, h⟩ := noClosedPending_of_inSequence shard members signers moves hi
      exact ⟨H₀, h.accords, fun hs hp => (h.noClosedPending hs).pending hp⟩
    · obtain ⟨H₀, h₀⟩ := hstart.run moves
      exact ⟨H₀, h₀, fun hs hp => h₀.not_closed (fun id s hs => hr id s hs) hs hp⟩
  have hr₀ := atRest_run hstart (atRest_founded shard members signers) moves
  obtain ⟨H₁, h₁⟩ := h₀.run (ids.map .retransmit)
  refine ⟨⟨_, fun rest hs => length_le_weight h₁ hs⟩, fun rest hs => ?_, fun rest hs hh => ?_⟩
  · obtain ⟨H, h⟩ := h₁.run rest
    obtain ⟨more, hm, hh⟩ := exists_halt h
    refine ⟨more, serves_append hs hm, ?_⟩
    rw [Chronicle.run, List.foldl_append]
    exact hh
  · exact progressed h₀ hr₀ hids hhalt hpending hrec hfresh hs hh

/-- Two members that have lost each other's votes. -/
theorem recovery_of_lost_votes :
    let moves : List Move := [.submit ⟨"a"⟩ ⟨"x", [1], none⟩, .sealEvent ⟨"a"⟩ 5,
      .deliver ⟨"a"⟩ ⟨"b"⟩ 0, .deliver ⟨"b"⟩ ⟨"a"⟩ 0, .deliver ⟨"a"⟩ ⟨"b"⟩ 0, .elect ⟨"a"⟩,
      .lose ⟨"a"⟩ ⟨"b"⟩ 0, .elect ⟨"b"⟩, .lose ⟨"b"⟩ ⟨"a"⟩ 0]
    let c₀ := (founded ⟨0⟩ [⟨"a"⟩, ⟨"b"⟩] Signer.labelled).run moves
    let c₁ := c₀.run ([⟨"a"⟩, ⟨"b"⟩].map .retransmit)
    c₀.network.actions = [] ∧ c₀.network.isDrained = false ∧ ∃ rest, c₁.serves rest ∧
      (c₁.run rest).network.actions = [] ∧ c₀.network.Progressed (c₁.run rest).network := by
  intro moves c₀ c₁
  have hi : ∀ move ∈ moves, move.inSequence := by decide +kernel
  have hhalt : c₀.network.actions = [] :=
    List.isEmpty_iff.mp (show c₀.network.actions.isEmpty by decide +kernel)
  have hpending : c₀.network.isDrained = false := by decide +kernel
  have hrec : c₀.Recoverable := by
    -- both have announced the event, and nobody has decided the round
    have hall : ∀ p ∈ c₀.network.stations.toList,
        p.2.replica.announced.toList = ["5-a"] ∧ p.2.replica.chosen = none := by decide +kernel
    have hannounced {id : NodeId} {s : Station} (hs : c₀.network.stations[id]? = some s)
        (p : Proof) :
        s.replica.announced.contains p ↔ p = "5-a" := by
      rw [← Std.ExtTreeSet.mem_iff_contains, ← Std.ExtTreeSet.mem_toList,
        (hall (id, s) (mem_stations_toList.mpr hs)).1, List.mem_singleton]
    have hundecided {id : NodeId} {s : Station} (hs : c₀.network.stations[id]? = some s) :
        s.replica.chosen.isSome = false := by
      rw [(hall (id, s) (mem_stations_toList.mpr hs)).2]
      rfl
    refine ⟨fun hs ht _ _ ha _ => ?_, fun hs _ _ hc _ => ?_, fun _ ht _ hc => ?_⟩
    · exact (hannounced ht _).mpr ((hannounced hs _).mp ha)
    · rw [hundecided hs] at hc
      cases hc
    · rw [hundecided ht] at hc
      cases hc
  obtain ⟨-, hexists, hprogress⟩ := recovery ⟨0⟩ [⟨"a"⟩, ⟨"b"⟩] Signer.labelled moves
    [⟨"a"⟩, ⟨"b"⟩] (fun _ hid => hid) (Or.inl hi) hhalt hpending hrec
  obtain ⟨rest, hs, hh⟩ := hexists [] rfl
  exact ⟨hhalt, hpending, rest, hs, hh, hprogress rest hs hh⟩

/-- Without what `Recoverable` asks for, sending again may not help. Two members are at a halt with
something pending, and after both have sent again, and everything has arrived, they are at the same
halt: if the announcement of an event was lost; if a vote was lost whose member has decided the
round; and if word of being ready was lost whose member has closed the round. -/
theorem halted_for_good :
    let proposed : List Move := [.submit ⟨"a"⟩ ⟨"x", [1], none⟩, .sealEvent ⟨"a"⟩ 5,
      .deliver ⟨"a"⟩ ⟨"b"⟩ 0, .deliver ⟨"b"⟩ ⟨"a"⟩ 0]
    let decided : List Move := proposed ++ [.deliver ⟨"a"⟩ ⟨"b"⟩ 0, .elect ⟨"b"⟩,
      .deliver ⟨"b"⟩ ⟨"a"⟩ 0, .elect ⟨"a"⟩]
    let closed : List Move := decided ++ [.deliver ⟨"a"⟩ ⟨"b"⟩ 0, .deliver ⟨"b"⟩ ⟨"a"⟩ 0]
    ∀ run ∈ ([
        (proposed ++ [.lose ⟨"a"⟩ ⟨"b"⟩ 0, .elect ⟨"a"⟩, .deliver ⟨"a"⟩ ⟨"b"⟩ 0],
          [.deliver ⟨"a"⟩ ⟨"b"⟩ 0]),
        (decided ++ [.lose ⟨"a"⟩ ⟨"b"⟩ 0, .deliver ⟨"a"⟩ ⟨"b"⟩ 0],
          [.deliver ⟨"a"⟩ ⟨"b"⟩ 0, .deliver ⟨"b"⟩ ⟨"a"⟩ 0]),
        (closed ++ [.lose ⟨"a"⟩ ⟨"b"⟩ 0], [.deliver ⟨"b"⟩ ⟨"a"⟩ 0])] :
          List (List Move × List Move)),
      let c₀ := (founded ⟨0⟩ [⟨"a"⟩, ⟨"b"⟩] Signer.labelled).run run.1
      let c₁ := c₀.run ([⟨"a"⟩, ⟨"b"⟩].map .retransmit)
      c₀.network.actions.isEmpty ∧ c₀.network.isDrained = false ∧ c₁.serves run.2 ∧
        (c₁.run run.2).network.actions.isEmpty ∧
        ¬ c₀.network.Progressed (c₁.run run.2).network := by
  decide +kernel

end Chronicle

end ShardGossip

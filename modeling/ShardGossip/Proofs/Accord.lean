import ShardGossip.Proofs.Chronicle
import ShardGossip.Proofs.Turn

/-!
# ShardGossip.Proofs.Accord

**Diaries can be kept along every run.** A chronicle `Accords` with diaries that fit together if
every member is true to them, every packet under way is on record, and what was sealed and committed
is what the chronicle says. The beginning accords with empty diaries, and whatever happens next, the
diaries can be continued (`Accords.moved`). As long as no packet gets lost, everything that is on
record as sent is under way or has been taken in (`Lossless`).
-/

namespace ShardGossip

namespace Network

/-- No member has closed more rounds than it remembers. -/
def Remembers (n : Network) : Prop :=
  ∀ ⦃id : NodeId⦄ ⦃s : Station⦄, n.stations[id]? = some s →
    s.replica.rounds ≤ RecentProofs.capacity

/-- A packet is under way, or its receiver is done with it. -/
def Traced (H : Diaries) (n : Network) (src dst : NodeId) (packet : Packet) : Prop :=
  packet ∈ n.link src dst ∨ ∃ s, n.stations[dst]? = some s ∧ Taken (H dst) s.replica src packet

/-- Nothing that was said is lost. -/
def Lossless (H : Diaries) (n : Network) : Prop :=
  ∀ ⦃src dst packet⦄, (packet.isBallot → n.Remembers) → (dst, packet) ∈ (H src).sent →
    Traced H n src dst packet

end Network

namespace Chronicle

open Network

/-- The diaries bear the chronicle out. -/
structure Accords (members : List NodeId) (H : Diaries) (c : Chronicle) : Prop where
  consistent : Consistent members H
  present : ∀ {id}, id ∈ members → ∃ s, c.network.stations[id]? = some s
  faithful : ∀ {id : NodeId} {s : Station}, c.network.stations[id]? = some s →
    s.replica.Faithful members H id
  /-- Whatever a member did, it has said, to everyone. -/
  told : ∀ {id : NodeId} {s : Station}, c.network.stations[id]? = some s →
    s.replica.Told members id (H id)
  recorded : ∀ {src dst packet}, packet ∈ c.network.link src dst → (dst, packet) ∈ (H src).sent
  sealed : ∀ q, (H q).sealed = c.sealed q
  committed : ∀ q, (H q).committed = c.committed q

variable {members : List NodeId} {H H' : Diaries} {c : Chronicle} {id : NodeId} {s t : Station}
  {o : Outcome} {new : List Event} {n : Network}

/-! ### The beginning -/

theorem tracks_founding (shard : ShardId) (peers : NodeSet) :
    ({ Replica.fresh id shard with peers := peers } : Replica).Tracks .empty where
  votes_length := rfl
  voted h := by cases h
  committed_length := rfl
  records := Replica.records_fresh id shard
  known h := by
    rcases h with ⟨e, he, -⟩ | ⟨target, ht⟩
    · cases he
    · cases ht
  clock e he := by cases he

theorem trusts_founding (shard : ShardId) (peers : NodeSet) :
    ({ Replica.fresh id shard with peers := peers } : Replica).Trusts members H where
  content h := by simp [Replica.fresh] at h
  acks h := by simp [Replica.fresh] at h
  ballots h := by simp [Replica.fresh] at h
  held h := by simp [Replica.fresh] at h
  ready h := by simp [Replica.fresh] at h
  announced h := by simp [Replica.fresh] at h
  passed hk := absurd hk (Nat.not_lt_zero _)

theorem faithful_founding (shard : ShardId) (signer : Signer) (hm : id ∈ members) :
    (Station.founding shard id signer members).replica.Faithful members (fun _ => .empty) id := by
  obtain ⟨peers, he, hp⟩ := Replica.setMembers_fresh id shard members
  show ((Replica.fresh id shard).setMembers members).replica.Faithful _ _ _
  rw [he]
  have hself : peers.contains id = false := by
    rw [← Bool.not_eq_true, hp]
    exact fun h => h.2 rfl
  exact ⟨⟨hm, rfl, fun {q} => hp q, fun _ => Std.ExtTreeSet.contains_empty, rfl, rfl⟩,
    Replica.wellFormed_founding id shard hself, tracks_founding shard peers,
    trusts_founding shard peers⟩

theorem told_founding (d : Diary) (hd : d = .empty) (shard : ShardId) (signer : Signer) :
    (Station.founding shard id signer members).replica.Told members id d := by
  obtain ⟨peers, he, -⟩ := Replica.setMembers_fresh id shard members
  show ((Replica.fresh id shard).setMembers members).replica.Told _ _ _
  rw [he, hd]
  constructor
  · intro e he
    cases he
  · intro p _ ⟨e, he, _⟩
    cases he
  · intro k p hv
    cases hv
  · intro k hk
    cases hk

theorem accords_founded (shard : ShardId) (members : List NodeId) (signers : NodeId → Signer) :
    (founded shard members signers).Accords members fun _ => .empty where
  consistent := .empty members
  present hm := ⟨_, (getElem?_founded ..).trans (if_pos hm)⟩
  faithful hs := by
    rw [show (founded shard members signers).network = .founded shard members signers from rfl,
      getElem?_founded] at hs
    split at hs
    · rename_i hm
      obtain rfl := Option.some.inj hs
      exact faithful_founding shard _ hm
    · cases hs
  told hs := by
    rw [show (founded shard members signers).network = .founded shard members signers from rfl,
      getElem?_founded] at hs
    split at hs
    · obtain rfl := Option.some.inj hs
      exact told_founding _ rfl shard _
    · cases hs
  recorded hp := by
    rw [show (founded shard members signers).network = .founded shard members signers from rfl,
      link_founded] at hp
    cases hp
  sealed _ := rfl
  committed _ := rfl

theorem lossless_founded (shard : ShardId) (members : List NodeId) (signers : NodeId → Signer) :
    (Network.founded shard members signers).Lossless fun _ => .empty :=
  fun _ _ _ _ hp => nomatch hp

/-! ### What happens next -/

/-- What a move comes down to, in terms of the diaries. -/
inductive Moved (members : List NodeId) (H : Diaries) (c : Chronicle) :
    Move → Diaries → Chronicle → Prop where
  /-- A member has done what it was asked for. -/
  | asked {move : Move} {id : NodeId} {s t : Station} {H' : Diaries} {o : Outcome}
      {new : Option Event} :
      c.network.stations[id]? = some s → move.answer s = some (id, t, o) →
      Turn members id silence H s.replica H' o new.toList →
      Moved members H c move H' (c.settle c.network id t o new.toList)
  /-- A member has handled a packet, and taken it in. -/
  | delivered {src dst : NodeId} {position : Nat} {packet : Packet} {s : Station} {H' : Diaries}
      {o : Outcome} :
      (c.network.link src dst)[position]? = some packet → c.network.stations[dst]? = some s →
      s.replica.onPacket src packet s.signer = .ok o →
      Turn members dst (hearing src packet) H s.replica H' o [] →
      ((packet.isBallot → H'.Bounded) → Taken (H' dst) o.replica src packet) →
      Moved members H c (.deliver src dst position) H'
        (c.settle (c.network.withdraw src dst position) dst s o [])
  /-- A member has refused a packet, which it was done with. -/
  | refused {src dst : NodeId} {position : Nat} {packet : Packet} {s : Station}
      {refusal : Refusal} :
      (c.network.link src dst)[position]? = some packet → c.network.stations[dst]? = some s →
      s.replica.onPacket src packet s.signer = .error refusal →
      Taken (H dst) s.replica src packet →
      Moved members H c (.deliver src dst position) H
        { c with network := c.network.withdraw src dst position }
  | repeated {src dst : NodeId} {position : Nat} :
      Moved members H c (.duplicate src dst position) H
        { c with
          network := c.network.send src dst (c.network.link src dst)[position]?.toList }
  | lost {src dst : NodeId} {position : Nat} :
      Moved members H c (.lose src dst position) H
        { c with network := c.network.withdraw src dst position }
  /-- There is no such member or packet. -/
  | nothing {move : Move} : c.network.isDue move = false → Moved members H c move H c

/-- When nobody seals or commits anything, only the network changes. -/
theorem next_of_idle {move : Move} {report : Option Report} (hs : c.network.play move = (report, n))
    (hq : ∀ q, c.network.seals move q = []) (hc : ∀ q, report.elim [] (·.commits q) = []) :
    c.next move = { c with network := n } := by
  unfold next
  rw [hs]
  dsimp only
  congr 1
  · funext q
    rw [hq, List.append_nil]
  · funext q
    rw [hc, List.append_nil]

theorem next_of_turn {move : Move} {delivery : Option (NodeId × Packet)}
    (hs : c.network.play move =
      (some ⟨id, delivery, .ok o.effects⟩, n.settleOutcome id t o))
    (hq : ∀ q, c.network.seals move q = if q = id then new else []) :
    c.next move = c.settle n id t o new := by
  unfold next settle
  rw [hs]
  dsimp only [Option.elim, Report.commits]
  congr 1
  funext q
  rw [hq]

/-- Whatever a member is asked for, the diaries can be continued. -/
theorem Accords.asked {move : Move} (f : Station → Station × Outcome) (new : Station → Option Event)
    (hanswer : ∀ s, move.answer s = some (id, f s))
    (hplay : c.network.play move = match c.network.stations[id]? with
      | none => (none, c.network)
      | some s => (some ⟨id, none, .ok (f s).2.effects⟩,
          c.network.settleOutcome id (f s).1 (f s).2))
    (hseals : ∀ q, c.network.seals move q =
      if q = id then (c.network.stations[id]? >>= new).toList else [])
    (hidle : c.network.stations[id]? = none → c.network.isDue move = false)
    (hturn : ∀ {s : Station}, c.network.stations[id]? = some s →
      ∃ H', Turn members id silence H s.replica H' (f s).2 (new s).toList) :
    ∃ H', Moved members H c move H' (c.next move) := by
  cases hs : c.network.stations[id]? with
  | none =>
      rw [hs] at hplay hseals
      rw [next_of_idle hplay (fun q => by rw [hseals]; exact ite_self _) fun _ => rfl]
      exact ⟨H, .nothing (hidle hs)⟩
  | some s =>
      rw [hs] at hplay hseals
      obtain ⟨H', ht⟩ := hturn hs
      rw [next_of_turn hplay hseals]
      exact ⟨H', .asked hs (hanswer s) ht⟩

/-- Delivering a packet that is on record is a turn of its receiver, unless it is refused. -/
theorem Accords.handed (h : c.Accords members H) (src dst : NodeId) (position : Nat) :
    ∃ H', Moved members H c (.deliver src dst position) H'
      (c.next (.deliver src dst position)) := by
  have hq : ∀ q, c.network.seals (.deliver src dst position) q = if q = dst then [] else [] :=
    fun q => (ite_self _).symm
  cases hp : (c.network.link src dst)[position]? with
  | none =>
      have hplay : c.network.play (.deliver src dst position) = (none, c.network) := by
        simp only [play, deliver, hp]
      rw [next_of_idle hplay (fun _ => rfl) fun _ => rfl]
      exact ⟨H, .nothing (decide_eq_false (Nat.not_lt.mpr (List.getElem?_eq_none_iff.mp hp)))⟩
  | some packet =>
      have hsent := h.consistent.sent (h.recorded (List.mem_of_getElem? hp))
      obtain ⟨s, hs⟩ := h.present hsent.target
      have hF := h.faithful hs
      cases ho : s.replica.onPacket src packet s.signer with
      | ok o =>
          have hplay : c.network.play (.deliver src dst position) =
              (some ⟨dst, some (src, packet), .ok o.effects⟩,
                (c.network.withdraw src dst position).settleOutcome dst s o) := by
            simp only [play, deliver, hp, hand, withdraw, setLink, hs, ho]
          obtain ⟨H', ht, htaken⟩ := hF.turn_packet h.consistent hsent ho
          rw [next_of_turn hplay hq]
          exact ⟨H', .delivered hp hs ho ht htaken⟩
      | error refusal =>
          have hplay : c.network.play (.deliver src dst position) =
              (some ⟨dst, some (src, packet), .error refusal⟩,
                c.network.withdraw src dst position) := by
            simp only [play, deliver, hp, hand, withdraw, setLink, hs, ho]
          rw [next_of_idle hplay (fun _ => rfl) fun _ => rfl]
          exact ⟨H, .refused hp hs ho (hF.taken_of_refused h.consistent hsent ho)⟩

/-- **Diaries can be kept.** Whatever happens, they can be continued. -/
theorem Accords.moved (h : c.Accords members H) (move : Move) :
    ∃ H', Moved members H c move H' (c.next move) := by
  cases move with
  | submit id transaction =>
      refine Accords.asked (fun s => (s, .silent (s.replica.submit transaction))) (fun _ => none)
        (fun _ => rfl) rfl (fun q => ?_) (fun _ => rfl) fun hs => ?_
      · cases c.network.stations[id]? <;> exact (ite_self _).symm
      · exact (h.faithful hs).turn_submit h.consistent transaction
  | sealEvent id now =>
      exact Accords.asked (fun s => (s, s.replica.sealEvent now s.signer))
        (fun s => s.replica.nextEvent? now) (fun _ => rfl) rfl (fun _ => rfl) (fun _ => rfl)
        fun hs => (h.faithful hs).turn_seal h.consistent now _
  | elect id =>
      refine Accords.asked (fun s => ({ s with woken := false }, s.replica.runElection))
        (fun _ => none) (fun _ => rfl) rfl (fun q => ?_) (fun hn => ?_) fun hs => ?_
      · cases c.network.stations[id]? <;> exact (ite_self _).symm
      · show c.network.stations[id]?.any (·.woken) = false
        rw [hn]
        rfl
      · exact (h.faithful hs).turn_elect h.consistent
  | retransmit id =>
      refine Accords.asked (fun s => (s, s.replica.retransmit s.signer)) (fun _ => none)
        (fun _ => rfl) rfl (fun q => ?_) (fun _ => rfl) fun hs => ?_
      · cases c.network.stations[id]? <;> exact (ite_self _).symm
      · exact (h.faithful hs).turn_retransmit h.consistent _
  | deliver src dst position => exact h.handed src dst position
  | duplicate src dst position =>
      rw [next_of_idle (n := c.network.send src dst
        (c.network.link src dst)[position]?.toList) rfl (fun _ => rfl) fun _ => rfl]
      exact ⟨H, .repeated⟩
  | lose src dst position =>
      rw [next_of_idle (n := c.network.withdraw src dst position) rfl (fun _ => rfl) fun _ => rfl]
      exact ⟨H, .lost⟩

/-! ### The diaries bear it out -/

/-- A member's turn, after packets may have been taken off the links. -/
theorem Accords.turn (h : c.Accords members H) {heard : NodeId → Packet → Prop}
    (hs : c.network.stations[id]? = some s)
    (ht : Turn members id heard H s.replica H' o new) (hst : n.stations = c.network.stations)
    (hl : ∀ {src dst packet}, packet ∈ n.link src dst → packet ∈ c.network.link src dst) :
    Accords members H' (c.settle n id t o new) where
  consistent := ht.consistent
  present := by
    intro q hq
    show ∃ s, (n.settleOutcome id t o).stations[q]? = some s
    rw [getElem?_settleOutcome, hst]
    split
    · exact ⟨_, rfl⟩
    · exact h.present hq
  faithful := by
    intro q u hq
    rcases station_of_settleOutcome hst hq with ⟨rfl, rfl⟩ | ⟨hne, hq⟩
    · exact ht.faithful
    · exact (h.faithful hq).mono ht.extend (ht.others hne)
  told := by
    intro q u hq
    rcases station_of_settleOutcome hst hq with ⟨rfl, rfl⟩ | ⟨hne, hq⟩
    · exact ht.told (h.told hs)
    · rw [ht.others hne]
      exact h.told hq
  recorded := by
    intro src dst packet hp
    rcases mem_link_settleOutcome.mp hp with hp | ⟨rfl, hsaid⟩
    · exact (ht.extend src).sent.subset (h.recorded (hl hp))
    · rw [ht.sent, ← ht.peers]
      exact List.mem_append_right _ hsaid
  sealed := by
    intro q
    show _ = c.sealed q ++ _
    split
    · rename_i hq
      rw [hq, ht.sealed, h.sealed]
    · rename_i hq
      rw [ht.others hq, h.sealed, List.append_nil]
  committed := by
    intro q
    show _ = c.committed q ++ _
    split
    · rename_i hq
      rw [hq, ht.committed, h.committed]
    · rename_i hq
      rw [ht.others hq, h.committed, List.append_nil]

/-- Nothing but the links changes, and only packets that are under way get onto them. -/
theorem Accords.relink (h : c.Accords members H) (hst : n.stations = c.network.stations)
    (hl : ∀ {src dst packet}, packet ∈ n.link src dst → packet ∈ c.network.link src dst) :
    Accords members H { c with network := n } where
  consistent := h.consistent
  present hm := by
    show ∃ s, n.stations[_]? = some s
    rw [hst]
    exact h.present hm
  faithful hs := by
    rw [show ({ c with network := n } : Chronicle).network.stations = c.network.stations from hst]
      at hs
    exact h.faithful hs
  told hs := by
    rw [show ({ c with network := n } : Chronicle).network.stations = c.network.stations from hst]
      at hs
    exact h.told hs
  recorded hp := h.recorded (hl hp)
  sealed := h.sealed
  committed := h.committed

/-- A repeated packet was under way. -/
theorem mem_link_of_duplicate {n : Network} {src dst a b : NodeId} {position : Nat}
    {packet : Packet}
    (h : packet ∈ (n.send src dst (n.link src dst)[position]?.toList).link a b) :
    packet ∈ n.link a b := by
  rw [link_send] at h
  rcases List.mem_append.mp h with h | h
  · exact h
  · split at h
    · rename_i hab
      rw [← hab.1, ← hab.2]
      exact List.mem_of_getElem? (Option.mem_toList.mp h)
    · cases h

theorem Moved.accords {move : Move} {c' : Chronicle} (hm : Moved members H c move H' c')
    (h : c.Accords members H) : c'.Accords members H' := by
  cases hm with
  | asked hs _ ht => exact h.turn hs ht rfl id
  | delivered _ hs _ ht _ => exact h.turn hs ht rfl mem_link_of_withdraw
  | refused _ _ _ _ => exact h.relink rfl mem_link_of_withdraw
  | repeated => exact h.relink rfl mem_link_of_duplicate
  | lost => exact h.relink rfl mem_link_of_withdraw
  | nothing _ => exact h

/-- While all members remember, no vote is late. -/
theorem Accords.bounded (h : c.Accords members H) (hr : c.network.Remembers) : H.Bounded := by
  intro q
  by_cases hq : q ∈ members
  · obtain ⟨s, hs⟩ := h.present hq
    exact Nat.le_trans (h.faithful hs).tracks.votes_length_le (Nat.succ_le_succ (hr hs))
  · rw [h.consistent.strangers hq]
    exact Nat.zero_le _

/-- While a member remembers what it has closed, it holds nothing of that. -/
theorem Accords.not_closed (h : c.Accords members H) (hr : c.network.Remembers)
    (hs : c.network.stations[id]? = some s) {p : Proof} (hp : s.replica.store.contains p) :
    p ∉ (H id).closed s.replica.rounds := by
  intro hc
  have hf := (h.faithful hs).wellFormed.fresh hp
  rw [(h.faithful hs).tracks.finalized_of_closed (hr hs) hc] at hf
  cases hf

/-- A member that has had an event holds it, unless the event is closed. -/
theorem Accords.contains_of_knows (h : c.Accords members H)
    (hs : c.network.stations[id]? = some s) {p : Proof} (hk : (H id).Knows p)
    (hn : p ∉ (H id).closed s.replica.rounds) : s.replica.store.contains p :=
  ((h.faithful hs).tracks.known hk).resolve_right hn

/-- The member that sealed an event that is held somewhere holds it as its own, unless the event is
closed there. -/
theorem Accords.held_by_origin (h : c.Accords members H)
    (hs : c.network.stations[id]? = some s) {p : Proof} {e : Event}
    (he : s.replica.store.get? p = some e)
    (hn : ∀ {t : Station}, c.network.stations[e.origin]? = some t →
      p ∉ (H e.origin).closed t.replica.rounds) :
    ∃ t e', c.network.stations[e.origin]? = some t ∧ t.replica.store.get? p = some e' ∧
      e'.origin = e.origin := by
  have hF := h.faithful hs
  have hg := hF.trusts.content he
  have hk : e.proof = p := hF.wellFormed.store.keyed he
  obtain ⟨t, ht⟩ := h.present (h.consistent.sealer hg)
  have hF' := h.faithful ht
  obtain ⟨e', he'⟩ := EventStore.contains_iff.mp
    (h.contains_of_knows ht (Or.inl ⟨e.forWire, hg, hk⟩) (hn ht))
  refine ⟨t, e', ht, he', ?_⟩
  rw [hF'.own_of_sealed h.consistent he' hg hk]
  exact hF'.seat.localId

/-! ### How far the members are -/

section

variable {a b : NodeId}

/-- Whoever has voted in a round that it has not committed, while another member has, is in that
round, and the round is undecided there. -/
theorem Accords.behind (h : c.Accords members H) (hs : c.network.stations[a]? = some s)
    (ht : c.network.stations[b]? = some t) (hv : s.replica.rounds < (H b).votes.length)
    (hc : (H b).committed.length ≤ s.replica.rounds) :
    t.replica.rounds = s.replica.rounds ∧ t.replica.ballot.isSome ∧ t.replica.chosen = none := by
  have hF := h.faithful hs
  have hF' := h.faithful ht
  have hpass := hF.trusts.rounds_le hF'.seat.member
  have hle := hF'.tracks.rounds_le
  have hundecided : t.replica.chosen = none := by
    cases hct : t.replica.chosen with
    | none => rfl
    | some w =>
        have hlen := hF'.tracks.length_of_decided hct
        have hmax := hF'.tracks.votes_length_le
        omega
  have hlen := hF'.tracks.length_of_undecided hundecided
  have hrounds : t.replica.rounds = s.replica.rounds := by omega
  refine ⟨hrounds, ?_, hundecided⟩
  cases hbt : t.replica.ballot with
  | some w => rfl
  | none =>
      have hvotes := hF'.tracks.length_of_unvoted hbt
      omega

/-- Nobody is ahead of a member that has not decided its round. -/
theorem Accords.rounds_le (h : c.Accords members H) (hs : c.network.stations[a]? = some s)
    (ht : c.network.stations[b]? = some t) (hc : t.replica.chosen = none) :
    s.replica.rounds ≤ t.replica.rounds := by
  rw [← (h.faithful ht).tracks.length_of_undecided hc]
  exact (h.faithful hs).trusts.rounds_le (h.faithful ht).seat.member

theorem Accords.rounds_eq (h : c.Accords members H) (hs : c.network.stations[a]? = some s)
    (ht : c.network.stations[b]? = some t) (hc : s.replica.chosen = none)
    (hc' : t.replica.chosen = none) : s.replica.rounds = t.replica.rounds :=
  Nat.le_antisymm (h.rounds_le hs ht hc') (h.rounds_le ht hs hc)

/-- In the same round, all have closed the same events. -/
theorem Accords.closed_eq (h : c.Accords members H) (hs : c.network.stations[a]? = some s)
    (ht : c.network.stations[b]? = some t) (hr : s.replica.rounds = t.replica.rounds) :
    (H a).closed s.replica.rounds = (H b).closed t.replica.rounds := by
  have hle := (h.faithful hs).tracks.rounds_le
  rw [hr] at hle ⊢
  exact h.consistent.closed_eq hle (h.faithful ht).tracks.rounds_le

end

/-! ### Nothing is lost -/

theorem remembers_of_turn {heard : NodeId → Packet → Prop}
    (hs : c.network.stations[id]? = some s) (ht : Turn members id heard H s.replica H' o new)
    (hst : n.stations = c.network.stations) (hr : (n.settleOutcome id t o).Remembers) :
    c.network.Remembers := by
  intro q u hq
  by_cases hid : id = q
  · subst hid
    rw [hs] at hq
    obtain rfl := Option.some.inj hq
    exact Nat.le_trans ht.rounds (hr (getElem?_settleOutcome_self id t o))
  · have hq' : (n.settleOutcome id t o).stations[q]? = some u := by
      rw [getElem?_settleOutcome, if_neg hid, hst]
      exact hq
    exact hr hq'

/-- If the members remember everything afterwards, they did before. -/
theorem Moved.remembers {move : Move} {c' : Chronicle} (hm : Moved members H c move H' c')
    (hr : c'.network.Remembers) : c.network.Remembers := by
  cases hm with
  | asked hs _ ht => exact remembers_of_turn hs ht rfl hr
  | delivered _ hs _ ht _ =>
      exact remembers_of_turn (n := c.network.withdraw _ _ _) hs ht rfl hr
  | _ => exact hr

/-- What is on record as sent was so before, or it is under way now. -/
theorem Moved.sent {move : Move} {c' : Chronicle} (hm : Moved members H c move H' c')
    {src dst : NodeId} {packet : Packet} (hp : (dst, packet) ∈ (H' src).sent) :
    (dst, packet) ∈ (H src).sent ∨ packet ∈ c'.network.link src dst := by
  have turn {id : NodeId} {s t : Station} {o : Outcome} {new : List Event} {n : Network}
      {heard : NodeId → Packet → Prop} (ht : Turn members id heard H s.replica H' o new) :
      (dst, packet) ∈ (H src).sent ∨ packet ∈ (n.settleOutcome id t o).link src dst := by
    by_cases hid : src = id
    · subst hid
      rw [ht.sent] at hp
      refine (List.mem_append.mp hp).imp_right fun hp => mem_link_settleOutcome.mpr (Or.inr ?_)
      exact ⟨rfl, ht.peers ▸ hp⟩
    · rw [ht.others hid] at hp
      exact Or.inl hp
  cases hm with
  | asked _ _ ht => exact turn ht
  | delivered _ _ _ ht _ => exact turn ht
  | _ => exact Or.inl hp

/-- A turn leaves a packet's trace, if the packet is not taken off the links without one. -/
theorem traced_turn {heard : NodeId → Packet → Prop} (hs : c.network.stations[id]? = some s)
    (ht : Turn members id heard H s.replica H' o new) (hst : n.stations = c.network.stations)
    {src dst : NodeId} {packet : Packet} (hB : packet.isBallot → H'.Bounded)
    (hl : packet ∈ c.network.link src dst → packet ∈ n.link src dst ∨
      dst = id ∧ Taken (H' id) o.replica src packet)
    (hx : c.network.Traced H src dst packet) :
    (n.settleOutcome id t o).Traced H' src dst packet := by
  rcases hx with hp | ⟨u, hu, htk⟩
  · rcases hl hp with hp | ⟨rfl, htk⟩
    · exact Or.inl (mem_link_settleOutcome.mpr (Or.inl hp))
    · exact Or.inr ⟨_, getElem?_settleOutcome_self .., htk⟩
  · -- its receiver had taken it in, and a turn of the receiver leaves that in place
    refine Or.inr ?_
    rw [getElem?_settleOutcome, hst]
    by_cases hid : id = dst
    · subst hid
      rw [hs] at hu
      obtain rfl := Option.some.inj hu
      rw [if_pos rfl]
      exact ⟨_, rfl, ht.taken hB htk⟩
    · rw [if_neg hid, ht.others (Ne.symm hid)]
      exact ⟨u, hu, htk⟩

/-- Unless a packet is lost it stays under way until its receiver is done with it. -/
theorem Moved.traced {move : Move} {c' : Chronicle} (hm : Moved members H c move H' c')
    (h : c.Accords members H) (hl : move.isLoss = false) {src dst : NodeId} {packet : Packet}
    (hr : packet.isBallot → c'.network.Remembers) (hx : c.network.Traced H src dst packet) :
    c'.network.Traced H' src dst packet := by
  have hB (hb : packet.isBallot) : H'.Bounded := (hm.accords h).bounded (hr hb)
  cases hm with
  | asked hs _ ht => exact traced_turn hs ht rfl hB Or.inl hx
  | delivered hp hs _ ht htaken =>
      refine traced_turn (n := c.network.withdraw _ _ _) hs ht rfl hB (fun hmem => ?_) hx
      rcases mem_link_withdraw hp hmem with hmem | ⟨rfl, rfl, rfl⟩
      · exact Or.inl hmem
      · exact Or.inr ⟨rfl, htaken hB⟩
  | refused hp hs _ htaken =>
      rcases hx with hmem | htk
      · rcases mem_link_withdraw hp hmem with hmem | ⟨rfl, rfl, rfl⟩
        · exact Or.inl hmem
        · exact Or.inr ⟨_, hs, htaken⟩
      · exact Or.inr htk
  | repeated =>
      refine hx.imp_left fun hmem => ?_
      rw [link_send]
      exact List.mem_append_left _ hmem
  | lost => cases hl
  | nothing _ => exact hx

/-- Nothing said is lost unless a packet is. -/
theorem Moved.lossless {move : Move} {c' : Chronicle} (hm : Moved members H c move H' c')
    (h : c.Accords members H) (hl : move.isLoss = false) (hL : c.network.Lossless H) :
    c'.network.Lossless H' := by
  intro src dst packet hr hp
  rcases hm.sent hp with hp | hp
  · exact hm.traced h hl hr (hL (fun hb => hm.remembers (hr hb)) hp)
  · exact Or.inl hp

/-! ### Runs -/

/-- What all moves of a kind keep, of the diaries and the chronicle, is kept along every run of
them. -/
theorem Accords.keep {P : Diaries → Chronicle → Prop} {A : Move → Prop}
    (hstep : ∀ {H : Diaries} {c : Chronicle} {move : Move} {H' : Diaries}, A move →
      c.Accords members H → Moved members H c move H' (c.next move) → P H c → P H' (c.next move))
    (h : c.Accords members H) (hp : P H c) (moves : List Move)
    (ha : ∀ move ∈ moves, A move) :
    ∃ H', (c.run moves).Accords members H' ∧ P H' (c.run moves) := by
  induction moves generalizing c H with
  | nil => exact ⟨H, h, hp⟩
  | cons move rest ih =>
      obtain ⟨H₁, hm⟩ := h.moved move
      exact ih (hm.accords h) (hstep (ha move List.mem_cons_self) h hm hp)
        fun m hm => ha m (List.mem_cons_of_mem _ hm)

/-- Along every run, diaries can be kept. -/
theorem Accords.run (h : c.Accords members H) (moves : List Move) :
    ∃ H', (c.run moves).Accords members H' :=
  (h.keep (P := fun _ _ => True) (A := fun _ => True) (fun _ _ _ _ => trivial) trivial moves
    fun _ _ => trivial).imp fun _ h => h.1

end Chronicle

end ShardGossip

import ShardGossip.Proofs.Agreement
import ShardGossip.Proofs.Continuity

/-!
# ShardGossip.Proofs.Electorate

**Whose ballots count when a member is added.** Each member judges by itself whether anything has
been exchanged yet, and lets the new one sit out the round in progress if so. So members in the same
round agree on who takes part, and go on agreeing, exactly if they agreed on that judgement
(`electors_agree`). After the first round they always do; before, a proposal under way makes the
difference. What carries this is continuity (`Replica.GoesOn`): who sits out a round is settled
until the round is left, and then everyone takes part.
-/

namespace ShardGossip

namespace Replica

variable {r r' : Replica} {members : List NodeId} {c : NodeId} {history : Bool}

/-! ### A new member -/

theorem join_of_peer (h : r.peers.contains c) : join history r c = r := by
  unfold join
  rw [if_pos h]

theorem contains_peers_join {q : NodeId} :
    (join history r c).peers.contains q ↔ q = c ∨ r.peers.contains q := by
  unfold join
  split
  · rename_i h
    exact ⟨.inr, fun hq => hq.elim (fun hq => hq ▸ h) id⟩
  · split
    · exact contains_insert_iff.trans (or_congr_left eq_comm)
    · exact contains_insert_iff.trans (or_congr_left eq_comm)

/-- Whoever is a peer already does not join again. -/
theorem foldl_join_peers {ids : List NodeId} (h : ∀ id ∈ ids, r.peers.contains id) :
    ids.foldl (join history) r = r := by
  induction ids with
  | nil => rfl
  | cons id rest ih =>
      rw [List.foldl_cons, join_of_peer (h id List.mem_cons_self)]
      exact ih fun id hi => h id (List.mem_cons_of_mem _ hi)

theorem foldl_join_new {ids : List NodeId} (hc : c ∈ ids)
    (h : ∀ id ∈ ids, id = c ∨ r.peers.contains id) :
    ids.foldl (join history) r = join history r c := by
  induction ids with
  | nil => cases hc
  | cons id rest ih =>
      rw [List.foldl_cons]
      by_cases hi : id = c
      · rw [hi]
        refine foldl_join_peers fun id hr => contains_peers_join.mpr ?_
        exact h id (List.mem_cons_of_mem _ hr)
      · rw [join_of_peer ((h id List.mem_cons_self).resolve_left hi)]
        exact ih ((List.mem_cons.mp hc).resolve_left (Ne.symm hi))
          fun id hr => h id (List.mem_cons_of_mem _ hr)

/-- The peers are the other members, and maybe a new one. -/
structure Knows (members : List NodeId) (c : NodeId) (r : Replica) : Prop where
  peers : ∀ {q}, r.peers.contains q → (q ∈ members ∨ q = c) ∧ q ≠ r.localId
  members : ∀ {q}, q ∈ members → q ≠ r.localId → r.peers.contains q
  other : c ≠ r.localId

theorem Knows.join (h : r.Knows members c) : (join history r c).Knows members c := by
  have hl : (Replica.join history r c).localId = r.localId := localId_join history c
  refine ⟨fun {q} hq => ?_, fun {q} hq hne => ?_, hl ▸ h.other⟩
  · rw [hl]
    rcases contains_peers_join.mp hq with rfl | hq
    · exact ⟨.inr rfl, h.other⟩
    · exact h.peers hq
  · rw [hl] at hne
    exact contains_peers_join.mpr (.inr (h.members hq hne))

/-- Being told of a new member adds it. -/
theorem Knows.setMembers (h : r.Knows members c) :
    r.setMembers (members ++ [c]) = .silent (Replica.join r.hasHistory r c) := by
  have hw (q : NodeId) : (((members ++ [c]).filter (· ≠ r.localId)).foldl (·.insert ·)
      (∅ : NodeSet)).contains q ↔ (q ∈ members ∨ q = c) ∧ q ≠ r.localId := by
    rw [contains_foldl_insert, List.mem_filter, List.mem_append, List.mem_singleton,
      decide_eq_true_eq, Std.ExtTreeSet.contains_empty]
    exact or_iff_left nofun
  unfold Replica.setMembers
  dsimp only
  rw [foldl_join_new (c := c), List.filter_eq_nil_iff.mpr]
  · rfl
  · intro q hq
    rw [(hw q).mpr (h.peers (mem_toList_iff.mp hq))]
    nofun
  · exact mem_toList_iff.mpr ((hw c).mpr ⟨.inr rfl, h.other⟩)
  · intro q hq
    obtain ⟨hq, hne⟩ := (hw q).mp (mem_toList_iff.mp hq)
    exact hq.symm.imp_right fun hq => h.members hq hne

theorem Seat.knows {m : NodeId} (h : r.Seat members m) (hc : c ∉ members) : r.Knows members c where
  peers hq := by
    rw [h.localId]
    exact ⟨.inl (h.peers.mp hq).1, (h.peers.mp hq).2⟩
  members hq hne := h.peers.mpr ⟨hq, h.localId ▸ hne⟩
  other := by
    rintro rfl
    exact hc (h.localId ▸ h.member)

theorem sameRound_join (history : Bool) (r : Replica) (c : NodeId) :
    r.SameRound (join history r c) := by
  unfold join
  split
  · exact ⟨rfl, rfl⟩
  · split <;> exact ⟨rfl, rfl⟩

theorem contains_sittingOut_join {q : NodeId} (hn : r.peers.contains c = false) :
    (join history r c).sittingOut.contains q ↔ history ∧ q = c ∨ r.sittingOut.contains q := by
  unfold join
  rw [if_neg (by rw [hn]; nofun)]
  split
  · rename_i hh
    rw [hh]
    exact contains_insert_iff.trans (or_congr_left (eq_comm.trans (and_iff_right rfl).symm))
  · rename_i hh
    exact (or_iff_right fun h => hh h.1).symm

/-- Whose ballots count once a member was added: everyone's, but the new one's only after the round
has been left, if that member sits it out. -/
theorem Seat.isElector_joined {m : NodeId} (h : r.Seat members m) (hc : c ∉ members)
    (hg : (join r.hasHistory r c).GoesOn r') {q : NodeId} :
    r'.isElector q ↔ q ∈ members ∨ q = c ∧ (r.hasHistory → r.Before r') := by
  have hn : r.peers.contains c = false := by
    rw [← Bool.not_eq_true, h.peers]
    exact fun hm => hc hm.1
  -- who sits out is settled until the round is left
  have hj := sameRound_join r.hasHistory r c
  have hs : r'.sittingOut.contains q ↔ q = c ∧ ¬(r.hasHistory → r.Before r') := by
    rcases hg.round with ⟨hr, hs⟩ | ⟨hr, hs⟩
    · rw [hs, contains_sittingOut_join hn, h.present]
      simp [(hj.trans hr).not_before, and_comm]
    · simp [hs, (hj.before_iff (.refl r')).mpr hr]
  unfold isElector
  rw [hg.localId, hg.peers, localId_join, h.localId, Bool.or_eq_true, beq_iff_eq, Bool.and_eq_true,
    contains_peers_join, h.peers, Bool.not_eq_true', ← Bool.not_eq_true, hs]
  by_cases hq : q = c
  · have hm : c ≠ m := fun hm => hc (hm ▸ h.member)
    simp [hq, hc, hm]
  · by_cases hm : q = m
    · simp [hm, h.member]
    · simp [hq, hm]

end Replica

namespace Network

open Replica

variable {n n' : Network} {members : List NodeId} {c a : NodeId}

/-! ### What follows -/

/-- The named members are told who the members are, one after the other. -/
def enlist (n : Network) (ids members : List NodeId) : Network :=
  ids.foldl (fun n id => (n.change id fun s => s.replica.setMembers members).2) n

/-- What may become of a network: whatever its members do and however packets are delivered,
repeated and lost. A node that is not one of them may come up at any time and in any state, and is
brought up to date by whomever it connects to. -/
inductive Aftermath (c : NodeId) (n : Network) : Network → Prop where
  | now : Aftermath c n n
  | play {n' : Network} (move : Move) : Aftermath c n n' → Aftermath c n (n'.play move).2
  | sync {n' : Network} (id peer : NodeId) : Aftermath c n n' → Aftermath c n (n'.sync id peer).2
  /-- The new node is there, and says whatever it says. -/
  | arrive {n' : Network} (station : Station) (dst : NodeId) (packets : List Packet) :
      Aftermath c n n' → Aftermath c n ((n'.addStation c station).send c dst packets)

theorem getElem?_change (id : NodeId) (f : Station → Outcome) :
    (n.change id f).2.stations[a]? =
      n.stations[a]?.map fun s => if id = a then s.settled (f s) else s := by
  unfold change
  split
  · rename_i hs
    by_cases ha : id = a
    · rw [← ha, hs]
      rfl
    · simp [ha]
  · rename_i s hs
    rw [getElem?_settleOutcome]
    by_cases ha : id = a
    · simp [← ha, hs]
    · simp [ha]

theorem goesOn_change {id : NodeId} {f : Station → Outcome} {t : Station}
    (hf : ∀ s : Station, s.replica.GoesOn (f s).replica)
    (ht : (n.change id f).2.stations[a]? = some t) :
    ∃ s, n.stations[a]? = some s ∧ s.replica.GoesOn t.replica := by
  rw [getElem?_change] at ht
  obtain ⟨s, hs, rfl⟩ := Option.map_eq_some_iff.mp ht
  refine ⟨s, hs, ?_⟩
  split
  · exact hf s
  · exact .refl _

theorem goesOn_elect {id : NodeId} {t : Station} (ht : (n.elect id).2.stations[a]? = some t) :
    ∃ s, n.stations[a]? = some s ∧ s.replica.GoesOn t.replica := by
  unfold elect at ht
  split at ht
  · exact ⟨t, ht, .refl _⟩
  · rename_i s hs
    rcases station_of_settleOutcome rfl ht with ⟨rfl, rfl⟩ | ⟨-, ht⟩
    · exact ⟨s, hs, goesOn_runElection _⟩
    · exact ⟨t, ht, .refl _⟩

theorem goesOn_hand {src dst : NodeId} {packet : Packet} {t : Station}
    (ht : (n.hand src dst packet).2.stations[a]? = some t) :
    ∃ s, n.stations[a]? = some s ∧ s.replica.GoesOn t.replica := by
  unfold hand at ht
  split at ht
  · exact ⟨t, ht, .refl _⟩
  · rename_i s hs
    split at ht
    · rename_i o ho
      rcases station_of_settleOutcome rfl ht with ⟨rfl, rfl⟩ | ⟨-, ht⟩
      · exact ⟨s, hs, goesOn_onPacket ho⟩
      · exact ⟨t, ht, .refl _⟩
    · exact ⟨t, ht, .refl _⟩

theorem goesOn_play {move : Move} {t : Station} (ht : (n.play move).2.stations[a]? = some t) :
    ∃ s, n.stations[a]? = some s ∧ s.replica.GoesOn t.replica := by
  cases move with
  | submit id transaction => exact goesOn_change (fun s => goesOn_of_eq rfl) ht
  | sealEvent id now => exact goesOn_change (fun s => s.replica.goesOn_sealEvent now s.signer) ht
  | elect id => exact goesOn_elect ht
  | retransmit id => exact goesOn_change (fun s => s.replica.goesOn_retransmit s.signer) ht
  | deliver src dst position =>
      rw [play, deliver] at ht
      split at ht
      · exact ⟨t, ht, .refl _⟩
      · exact goesOn_hand (n := n.withdraw src dst position) ht
  | duplicate src dst position => exact ⟨t, ht, .refl _⟩
  | lose src dst position => exact ⟨t, ht, .refl _⟩

theorem goesOn_sync {id peer : NodeId} {t : Station}
    (ht : (n.sync id peer).2.stations[a]? = some t) :
    ∃ s, n.stations[a]? = some s ∧ s.replica.GoesOn t.replica := by
  unfold sync at ht
  split at ht
  · exact ⟨t, ht, .refl _⟩
  · rename_i s hs
    change (n.stations.insert id _)[a]? = some t at ht
    rw [getElem?_insert_eq] at ht
    split at ht
    · rename_i hid
      obtain rfl := Option.some.inj ht
      exact ⟨s, hid ▸ hs, s.replica.goesOn_takeSyncFor peer⟩
    · exact ⟨t, ht, .refl _⟩

/-- Whatever happens, the members go on. -/
theorem Aftermath.goesOn (h : n.Aftermath c n') (ha : a ≠ c) {t : Station}
    (ht : n'.stations[a]? = some t) :
    ∃ s, n.stations[a]? = some s ∧ s.replica.GoesOn t.replica := by
  induction h generalizing t with
  | now => exact ⟨t, ht, .refl _⟩
  | play move _ ih =>
      obtain ⟨t', ht', hg⟩ := goesOn_play ht
      exact (ih ht').imp fun s hs => ⟨hs.1, hs.2.trans hg⟩
  | sync id peer _ ih =>
      obtain ⟨t', ht', hg⟩ := goesOn_sync ht
      exact (ih ht').imp fun s hs => ⟨hs.1, hs.2.trans hg⟩
  | @arrive n' station dst packets _ ih =>
      change (n'.stations.insert c station)[a]? = some t at ht
      rw [getElem?_insert_eq, if_neg (Ne.symm ha)] at ht
      exact ih ht

/-- Whoever is told adds the new member, and being told again changes nothing. -/
theorem replica_enlist
    (h : ∀ (a : NodeId) (s : Station), n.stations[a]? = some s → s.replica.Knows members c)
    (ids : List NodeId) :
    (n.enlist ids (members ++ [c])).stations[a]?.map (·.replica) =
      n.stations[a]?.map fun s =>
        if a ∈ ids then join s.replica.hasHistory s.replica c else s.replica := by
  induction ids generalizing n with
  | nil => rfl
  | cons id rest ih =>
      rw [enlist, List.foldl_cons]
      change (enlist _ rest (members ++ [c])).stations[a]?.map (·.replica) = _
      have hset (a : NodeId) (s : Station) (hs : n.stations[a]? = some s) :
          (s.replica.setMembers (members ++ [c])).replica =
            join s.replica.hasHistory s.replica c := by
        rw [(h a s hs).setMembers]
        rfl
      rw [ih, getElem?_change, Option.map_map]
      · refine Option.map_congr fun s hs => ?_
        rw [Function.comp_apply]
        by_cases hid : id = a
        · have ht : (s.settled (s.replica.setMembers (members ++ [c]))).replica =
              join s.replica.hasHistory s.replica c := hset a s hs
          rw [if_pos hid, if_pos (List.mem_cons.mpr (.inl hid.symm)), ht,
            join_of_peer (contains_peers_join.mpr (.inl rfl)), ite_self]
        · simp only [if_neg hid, List.mem_cons, Ne.symm hid, false_or]
      · intro b t ht
        rw [getElem?_change] at ht
        obtain ⟨s, hs, rfl⟩ := Option.map_eq_some_iff.mp ht
        split
        · change (s.replica.setMembers (members ++ [c])).replica.Knows members c
          rw [hset b s hs]
          exact (h b s hs).join
        · exact h b s hs

/-- Members in the same round agree on whose ballots count in it. -/
def SameElectors (members : List NodeId) (n : Network) : Prop :=
  ∀ a ∈ members, ∀ b ∈ members, ∀ s t, n.stations[a]? = some s → n.stations[b]? = some t →
    s.replica.SameRound t.replica → ∀ q, s.replica.isElector q = t.replica.isElector q

theorem rounds_of_all {k : Nat}
    (h : n.stations.toList.all fun entry => entry.2.replica.rounds == k) (id : NodeId) (s : Station)
    (hs : n.stations[id]? = some s) : s.replica.rounds = k :=
  beq_iff_eq.mp (List.all_eq_true.mp h (id, s) (mem_stations_toList.mpr hs))

end Network

namespace Chronicle

open Network Replica

variable {members : List NodeId} {H : Diaries} {c : Chronicle} {a d : NodeId} {s t : Station}
  {n : Network}

theorem Accords.enlisted (h : c.Accords members H) (hd : d ∉ members)
    (hs : c.network.stations[a]? = some s) :
    ∃ t, (c.network.enlist members (members ++ [d])).stations[a]? = some t ∧
      t.replica = join s.replica.hasHistory s.replica d := by
  have he := replica_enlist (a := a) (fun b s hs => (h.faithful hs).seat.knows hd) members
  rw [hs, Option.map_some, if_pos (h.faithful hs).seat.member] at he
  exact Option.map_eq_some_iff.mp he

/-- Everyone takes part, but the new member, in the eyes of those for whom it sits out the round in
progress, only after that round. -/
theorem Accords.isElector_after (h : c.Accords members H) (hd : d ∉ members)
    (hn : (c.network.enlist members (members ++ [d])).Aftermath d n) (ha : a ∈ members)
    (ht : n.stations[a]? = some t) :
    ∃ s, c.network.stations[a]? = some s ∧ ∀ q, t.replica.isElector q ↔
      q ∈ members ∨ q = d ∧ (s.replica.hasHistory → s.replica.Before t.replica) := by
  obtain ⟨s, hs⟩ := h.present ha
  obtain ⟨u, hu, hg⟩ := hn.goesOn (fun hda => hd (hda ▸ ha)) ht
  obtain ⟨u', hu', he⟩ := h.enlisted hd hs
  obtain rfl := Option.some.inj (hu'.symm.trans hu)
  exact ⟨s, hs, fun q => (h.faithful hs).seat.isElector_joined hd (he ▸ hg)⟩

theorem Accords.sameElectors_iff (h : c.Accords members H) (hd : d ∉ members) {k : Nat}
    (hk : ∀ (id : NodeId) (s : Station), c.network.stations[id]? = some s → s.replica.rounds = k) :
    (∀ n, (c.network.enlist members (members ++ [d])).Aftermath d n → n.SameElectors members) ↔
      ∀ (a b : NodeId) (s t : Station), c.network.stations[a]? = some s →
        c.network.stations[b]? = some t → s.replica.hasHistory = t.replica.hasHistory := by
  have hround {a b : NodeId} {s t : Station} (hs : c.network.stations[a]? = some s)
      (ht : c.network.stations[b]? = some t) : s.replica.SameRound t.replica :=
    ⟨(hk b t ht).trans (hk a s hs).symm,
      (h.faithful ht).seat.counted.laps.trans (h.faithful hs).seat.counted.laps.symm⟩
  constructor
  · -- right after it was added, the new member takes part for those without a history
    intro hsame
    have hist {a : NodeId} {s u : Station} (hs : c.network.stations[a]? = some s)
        (hu : (c.network.enlist members (members ++ [d])).stations[a]? = some u)
        (hr : s.replica.SameRound u.replica) : u.replica.isElector d = !s.replica.hasHistory := by
      obtain ⟨s', hs', he⟩ := h.isElector_after hd .now (h.faithful hs).seat.member hu
      obtain rfl := Option.some.inj (hs'.symm.trans hs)
      rw [Bool.eq_iff_iff, he]
      simp [hd, hr.not_before]
    intro a b s t hs ht
    obtain ⟨u, hu, hj⟩ := h.enlisted hd hs
    obtain ⟨v, hv, hj'⟩ := h.enlisted hd ht
    have hr : s.replica.SameRound u.replica := hj ▸ sameRound_join _ _ d
    have hr' : t.replica.SameRound v.replica := hj' ▸ sameRound_join _ _ d
    have he := hsame _ .now a (h.faithful hs).seat.member b (h.faithful ht).seat.member u v hu hv
      ((hr.symm.trans (hround hs ht)).trans hr') d
    rw [hist hs hu hr, hist ht hv hr'] at he
    exact Bool.not_inj he
  · intro hist n hn a ha b hb u v hu hv hr q
    obtain ⟨s, hs, he⟩ := h.isElector_after hd hn ha hu
    obtain ⟨t, ht, he'⟩ := h.isElector_after hd hn hb hv
    rw [Bool.eq_iff_iff, he, he', hist a b s t hs ht, (hround hs ht).before_iff hr]

/-- **Who votes.** Take a newly founded shard after whatever happened to it, with all members in one
round, and add a new member by telling everyone. Then members in the same round always agree on
whose ballots count, whatever happens afterwards, exactly if they agreed on whether anything had
been exchanged. In any round but the first they do. -/
theorem electors_agree (shard : ShardId) (members : List NodeId) (signers : NodeId → Signer)
    (moves : List Move) {d : NodeId} (hd : d ∉ members) {k : Nat}
    (hk : ∀ (id : NodeId) (s : Station),
      ((founded shard members signers).run moves).network.stations[id]? = some s →
        s.replica.rounds = k) :
    let n := ((founded shard members signers).run moves).network
    ((∀ n', (n.enlist members (members ++ [d])).Aftermath d n' → n'.SameElectors members) ↔
        ∀ (a b : NodeId) (s t : Station), n.stations[a]? = some s → n.stations[b]? = some t →
          s.replica.hasHistory = t.replica.hasHistory) ∧
      (0 < k →
        ∀ n', (n.enlist members (members ++ [d])).Aftermath d n' → n'.SameElectors members) := by
  obtain ⟨H, h⟩ := exists_accords shard members signers moves
  have hiff := h.sameElectors_iff hd hk
  refine ⟨hiff, fun hpos => hiff.mpr fun a b s t hs ht => ?_⟩
  rw [hasHistory, hasHistory, hk a s hs, hk b t ht, decide_eq_true hpos]
  rfl

/-- Two members that have closed a round, of which one has a new proposal under way when a third is
added. -/
theorem electors_agree_later :
    let c := (founded ⟨0⟩ [⟨"a"⟩, ⟨"b"⟩] Signer.labelled).run
      [.submit ⟨"a"⟩ ⟨"x", [1], none⟩, .sealEvent ⟨"a"⟩ 5, .deliver ⟨"a"⟩ ⟨"b"⟩ 0,
        .deliver ⟨"b"⟩ ⟨"a"⟩ 0, .deliver ⟨"a"⟩ ⟨"b"⟩ 0, .elect ⟨"a"⟩, .elect ⟨"b"⟩,
        .deliver ⟨"a"⟩ ⟨"b"⟩ 0, .deliver ⟨"b"⟩ ⟨"a"⟩ 0, .deliver ⟨"a"⟩ ⟨"b"⟩ 0,
        .deliver ⟨"b"⟩ ⟨"a"⟩ 0, .submit ⟨"a"⟩ ⟨"x", [2], none⟩, .sealEvent ⟨"a"⟩ 6]
    (∀ (id : NodeId) (s : Station), c.network.stations[id]? = some s → s.replica.rounds = 1) ∧
      ∀ n, (c.network.enlist [⟨"a"⟩, ⟨"b"⟩] [⟨"a"⟩, ⟨"b"⟩, ⟨"c"⟩]).Aftermath ⟨"c"⟩ n →
        n.SameElectors [⟨"a"⟩, ⟨"b"⟩] := by
  intro c
  have hr := rounds_of_all (n := c.network) (k := 1) (by decide +kernel)
  exact ⟨hr, (electors_agree ⟨0⟩ _ _ _ (by decide) hr).2 Nat.one_pos⟩

/-- Before anything is committed, one member has a proposal under way when a third is added. For
that member the third sits out the round, for the other it does not. -/
theorem electors_differ :
    let c := (founded ⟨0⟩ [⟨"a"⟩, ⟨"b"⟩] Signer.labelled).run
      [.submit ⟨"a"⟩ ⟨"x", [1], none⟩, .sealEvent ⟨"a"⟩ 5]
    (∀ (id : NodeId) (s : Station), c.network.stations[id]? = some s → s.replica.rounds = 0) ∧
      ¬(c.network.enlist [⟨"a"⟩, ⟨"b"⟩] [⟨"a"⟩, ⟨"b"⟩, ⟨"c"⟩]).SameElectors
        [⟨"a"⟩, ⟨"b"⟩] := by
  intro c
  refine ⟨rounds_of_all (by decide +kernel), fun h => ?_⟩
  let n := c.network.enlist [⟨"a"⟩, ⟨"b"⟩] [⟨"a"⟩, ⟨"b"⟩, ⟨"c"⟩]
  obtain ⟨s, hs, he⟩ := Option.map_eq_some_iff.mp (show n.stations[(⟨"a"⟩ : NodeId)]?.map
    (fun s => (s.replica.rounds, s.replica.laps, s.replica.isElector ⟨"c"⟩)) =
      some (0, 0, false) by decide +kernel)
  obtain ⟨t, ht, he'⟩ := Option.map_eq_some_iff.mp (show n.stations[(⟨"b"⟩ : NodeId)]?.map
    (fun s => (s.replica.rounds, s.replica.laps, s.replica.isElector ⟨"c"⟩)) =
      some (0, 0, true) by decide +kernel)
  simp only [Prod.mk.injEq] at he he'
  obtain ⟨hr, hl, hf⟩ := he
  obtain ⟨hr', hl', ht'⟩ := he'
  have hq := h ⟨"a"⟩ (by decide) ⟨"b"⟩ (by decide) s t hs ht
    ⟨hr'.trans hr.symm, hl'.trans hl.symm⟩ ⟨"c"⟩
  rw [hf, ht'] at hq
  cases hq

end Chronicle

end ShardGossip

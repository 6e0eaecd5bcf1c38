import ShardGossip.Proofs.Diary

/-!
# ShardGossip.Proofs.Faithful

**A member's state is true to the diaries.** In a shard whose members stay, a state is `Faithful` if
its fields fit together, agree with the member's own diary (`Tracks`), and say nothing about the
others that their diaries do not bear out (`Trusts`). So the ballots that a member counts are the
votes that everyone's diary has (`Faithful.elected`), and an own event that all peers acknowledged
is one that everyone has (`Faithful.everywhere`).
-/

namespace ShardGossip

namespace Replica

/-! ### The three parts of being faithful -/

/-- The member has a seat in the shard from its first round: its peers are the other members, and
all take part. -/
structure Seat (members : List NodeId) (m : NodeId) (r : Replica) : Prop where
  member : m ∈ members
  localId : r.localId = m
  peers : ∀ {q}, r.peers.contains q ↔ q ∈ members ∧ q ≠ m
  present : ∀ q, r.sittingOut.contains q = false
  counted : r.Counted

/-- The state agrees with the member's own diary. -/
structure Tracks (d : Diary) (r : Replica) : Prop where
  /-- It has voted once in each closed round, and maybe in the one in progress. -/
  votes_length : d.votes.length = r.rounds + r.ballot.toList.length
  voted : ∀ {p}, r.ballot = some p → d.votes[r.rounds]? = some p
  /-- It has committed once in each closed round, and maybe in the one in progress. -/
  committed_length : d.committed.length = r.rounds + r.chosen.toList.length
  records : r.Records d.committed
  known : ∀ {p}, d.Knows p → r.store.contains p ∨ p ∈ d.closed r.rounds
  clock : ∀ e ∈ d.sealed, e.timestamp ≤ r.clock

/-- What the state says about other members is on record. -/
structure Trusts (members : List NodeId) (H : Diaries) (r : Replica) : Prop where
  content : ∀ {p e}, r.store.get? p = some e → e.forWire ∈ (H e.origin).sealed
  acks : ∀ {p e q}, r.store.get? p = some e → e.backedResponses.contains q → (H q).Knows p
  ballots : ∀ {v : NodeId} {p : Proof}, r.ballots[v]? = some p → (H v).votes[r.rounds]? = some p
  held : ∀ {v : NodeId} {vote : HeldVote}, r.held[v]? = some vote →
    (H v).votes[vote.round]? = some vote.proof
  ready : ∀ {q}, r.ready.contains q → r.rounds < (H q).committed.length
  announced : ∀ {p}, r.announced.contains p → H.Everywhere members p
  passed : ∀ {k q}, k < r.rounds → q ∈ members → k < (H q).committed.length

/-- The state is true to the diaries. -/
structure Faithful (members : List NodeId) (H : Diaries) (m : NodeId) (r : Replica) : Prop where
  seat : r.Seat members m
  wellFormed : r.WellFormed
  tracks : r.Tracks (H m)
  trusts : r.Trusts members H

variable {members : List NodeId} {H H' : Diaries} {m : NodeId} {r : Replica}

theorem Trusts.mono (h : r.Trusts members H) (hH : H.Extend H') : r.Trusts members H' where
  content he := (hH _).sealed.subset (h.content he)
  acks he hq := (h.acks he hq).mono (hH _)
  ballots hb := (hH _).getElem?_votes (h.ballots hb)
  held hv := (hH _).getElem?_votes (h.held hv)
  ready hq := Nat.lt_of_lt_of_le (h.ready hq) (hH _).committed.length_le
  announced hp := (h.announced hp).mono hH
  passed hk hq := Nat.lt_of_lt_of_le (h.passed hk hq) (hH _).committed.length_le

/-- What others do keeps a state faithful. -/
theorem Faithful.mono (h : r.Faithful members H m) (hH : H.Extend H') (hm : H' m = H m) :
    r.Faithful members H' m :=
  { h with tracks := hm ▸ h.tracks, trusts := h.trusts.mono hH }

namespace Seat

theorem isElector_iff (h : r.Seat members m) {q : NodeId} : r.isElector q ↔ q ∈ members := by
  unfold isElector
  rw [h.present, h.localId]
  simp only [Bool.or_eq_true, beq_iff_eq, Bool.not_false, Bool.and_true, h.peers]
  constructor
  · rintro (rfl | hq)
    · exact h.member
    · exact hq.1
  · intro hq
    by_cases hm : q = m
    · exact Or.inl hm
    · exact Or.inr ⟨hq, hm⟩

theorem mem_electors (h : r.Seat members m) {q : NodeId} :
    q ∈ r.electors ↔ q ∈ members ∧ q ≠ m := by
  rw [Replica.mem_electors, h.peers, h.present]
  simp

end Seat

/-! ### How far a member is -/

namespace Tracks

variable {d : Diary} {p : Proof}

theorem length_of_unvoted (h : r.Tracks d) (hb : r.ballot = none) : d.votes.length = r.rounds := by
  rw [h.votes_length, hb]
  rfl

theorem length_of_voted (h : r.Tracks d) (hb : r.ballot = some p) :
    d.votes.length = r.rounds + 1 := by
  rw [h.votes_length, hb]
  rfl

theorem votes_length_le (h : r.Tracks d) : d.votes.length ≤ r.rounds + 1 := by
  cases hb : r.ballot with
  | none => exact Nat.le_succ_of_le (Nat.le_of_eq (h.length_of_unvoted hb))
  | some p => exact Nat.le_of_eq (h.length_of_voted hb)

theorem length_of_undecided (h : r.Tracks d) (hc : r.chosen = none) :
    d.committed.length = r.rounds := by
  rw [h.committed_length, hc]
  rfl

theorem length_of_decided (h : r.Tracks d) (hc : r.chosen = some p) :
    d.committed.length = r.rounds + 1 := by
  rw [h.committed_length, hc]
  rfl

theorem committed_length_le (h : r.Tracks d) : d.committed.length ≤ r.rounds + 1 := by
  cases hc : r.chosen with
  | none => exact Nat.le_succ_of_le (Nat.le_of_eq (h.length_of_undecided hc))
  | some p => exact Nat.le_of_eq (h.length_of_decided hc)

theorem rounds_le (h : r.Tracks d) : r.rounds ≤ d.committed.length :=
  h.committed_length ▸ Nat.le_add_right ..

end Tracks

/-! ### What a member remembers -/

/-- The remembered proofs are the latest closed ones. -/
theorem Tracks.finalized {d : Diary} (h : r.Tracks d) :
    r.finalized.proofs =
      (d.closed r.rounds).reverse.take RecentProofs.capacity := by
  obtain ⟨closed, hl, hf⟩ := h.records
  have hlen := congrArg List.length hl
  rw [List.length_map, List.length_append, h.committed_length] at hlen
  have hc : d.closed r.rounds = closed := by
    rw [Diary.closed, List.map_take, hl, List.take_append_of_le_length (by omega),
      List.take_of_length_le (by omega)]
  rw [hf, hc]

theorem Tracks.closed_of_finalized {d : Diary} (h : r.Tracks d) {p : Proof}
    (hp : r.finalized.contains p) : p ∈ d.closed r.rounds := by
  rw [RecentProofs.contains_iff, h.finalized] at hp
  exact List.mem_reverse.mp (List.mem_of_mem_take hp)

/-- As long as nothing had to be forgotten, what is closed is remembered. -/
theorem Tracks.finalized_of_closed {d : Diary} (h : r.Tracks d)
    (hr : r.rounds ≤ RecentProofs.capacity) {p : Proof}
    (hp : p ∈ d.closed r.rounds) : r.finalized.contains p := by
  rw [RecentProofs.contains_iff, h.finalized, List.take_of_length_le, List.mem_reverse]
  · exact hp
  · rw [List.length_reverse, Diary.closed, List.length_map, List.length_take]
    omega

/-- The winner of a round in progress is closed with it, after all others. -/
theorem Tracks.closed_succ {d : Diary} (h : r.Tracks d) {p : Proof} (hp : r.chosen = some p) :
    d.closed (r.rounds + 1) = d.closed r.rounds ++ [p] := by
  obtain ⟨closed, hl, -⟩ := h.records
  have hlen := congrArg List.length hl
  rw [List.length_map, List.length_append, h.committed_length] at hlen
  have hcl : closed.length = r.rounds := by omega
  rw [Diary.closed, Diary.closed, List.map_take, List.map_take, hl, hp, List.take_left' hcl,
    List.take_of_length_le (by simp [hcl])]
  rfl

theorem Tracks.chosen_mem {d : Diary} (h : r.Tracks d) {p : Proof} (hp : r.chosen = some p) :
    p ∈ d.closed (r.rounds + 1) := by
  rw [h.closed_succ hp]
  exact List.mem_append_right _ List.mem_cons_self

/-- All members have committed the rounds that this one has closed. -/
theorem Trusts.rounds_le (h : r.Trusts members H) {q : NodeId} (hq : q ∈ members) :
    r.rounds ≤ (H q).committed.length := by
  apply Nat.le_of_not_lt
  intro hlt
  exact absurd (h.passed hlt hq) (Nat.lt_irrefl _)

/-! ### What everyone's votes elect, and what everyone has -/

theorem Seat.target (h : r.Seat members m) : ∀ q ∈ r.peers.toList, q ∈ members ∧ m ≠ q := by
  intro q hq
  obtain ⟨hm, hne⟩ := h.peers.mp (mem_toList_iff.mp hq)
  exact ⟨hm, Ne.symm hne⟩

theorem Seat.exists_ballot (h : r.Seat members m) (hv : r.allVoted) {v : NodeId}
    (hm : v ∈ members) : ∃ p, r.ballots[v]? = some p := by
  unfold allVoted at hv
  rw [Bool.and_eq_true, List.all_eq_true, h.localId] at hv
  by_cases hvm : v = m
  · exact contains_iff_getElem?.mp (hvm ▸ hv.1)
  · exact contains_iff_getElem?.mp (hv.2 v (h.mem_electors.mpr ⟨hm, hvm⟩))

/-- A count elects: the ballots that are in are the votes of all members. -/
theorem Faithful.elected (h : r.Faithful members H m) (hv : r.allVoted) {winner : Proof}
    (hw : tally (r.ballots.filter fun voter _ => r.isElector voter) = some winner) :
    Elected members H r.rounds winner := by
  refine ⟨fun v hm => ?_, _, hw, fun v => ?_⟩
  · -- each ballot is the vote that its member has on record for this round
    obtain ⟨p, hp⟩ := h.seat.exists_ballot hv hm
    exact (List.getElem?_eq_some_iff.mp (h.trusts.ballots hp)).1
  · rw [Std.ExtTreeMap.getElem?_filter']
    split
    · rename_i hm
      obtain ⟨p, hp⟩ := h.seat.exists_ballot hv hm
      rw [hp, h.trusts.ballots hp, Option.filter_some, if_pos (h.seat.isElector_iff.mpr hm)]
    · rename_i hm
      have hf : r.isElector v = false := by
        rw [← Bool.not_eq_true, h.seat.isElector_iff]
        exact hm
      simp [hf]

/-- Everyone has had an own event that all peers acknowledged. -/
theorem Faithful.everywhere (h : r.Faithful members H m) {p : Proof} {e : Event}
    (he : r.store.get? p = some e) (ho : e.origin = r.localId)
    (hq : ∀ peer, r.peers.contains peer → e.backedResponses.contains peer) :
    (∃ e ∈ (H m).sealed, e.proof = p) ∧ H.Everywhere members p := by
  have hs : ∃ e ∈ (H m).sealed, e.proof = p := by
    have hc := h.trusts.content he
    rw [ho, h.seat.localId] at hc
    have hk : e.proof = p := h.wellFormed.store.keyed he
    exact ⟨e.forWire, hc, hk⟩
  refine ⟨hs, fun q hm => ?_⟩
  by_cases hqm : q = m
  · exact hqm ▸ Or.inl hs
  · exact h.trusts.acks he (hq q (h.seat.peers.mpr ⟨hm, hqm⟩))

end Replica

end ShardGossip

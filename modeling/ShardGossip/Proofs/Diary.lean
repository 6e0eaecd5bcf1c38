import ShardGossip.Proofs.Sealing

/-!
# ShardGossip.Proofs.Diary

**What the members of a shard have done, and what that makes certain.** The state of a member shows
only the round in progress. To relate the members to each other each is given a diary, which only
ever grows: what it sealed, its vote of every round, what it committed and what it sent. What a
member believes of another (`Trusts`) and what a packet says (`Honest`) are facts about the other's
diary, so once true they stay true, however late the packet arrives and however often.

The agreement of the members comes down to `Consistent.elected`: the event that anyone committed in
a round is the winner of the votes that all diaries have for that round.
-/

namespace ShardGossip

/-! ### Sending -/

/-- The packets that an effect puts on the links, with their receivers. -/
def Outbound.copies (peers : List NodeId) : Outbound → List (NodeId × Packet)
  | .broadcast packet => peers.map fun peer => (peer, packet)
  | .sendTo target packet => [(target, packet)]

/-- The packets that effects put on the links, in order. -/
def Effects.copies (effects : Effects) (peers : List NodeId) : List (NodeId × Packet) :=
  effects.outbound.flatMap (·.copies peers)

namespace Effects

variable (peers : List NodeId)

@[simp] theorem copies_append (a b : Effects) :
    (a ++ b).copies peers = a.copies peers ++ b.copies peers :=
  List.flatMap_append

@[simp] theorem copies_broadcast (packet : Packet) :
    (broadcast packet).copies peers = peers.map fun peer => (peer, packet) :=
  List.append_nil _

@[simp] theorem copies_sendTo (target : NodeId) (packet : Packet) :
    (sendTo target packet).copies peers = [(target, packet)] := rfl

@[simp] theorem committed_commit (event : Event) : (commit event).committed = [event] := rfl

@[simp] theorem copies_commit (event : Event) : (commit event).copies peers = [] := rfl

@[simp] theorem copies_wakeUp : wakeUp.copies peers = [] := rfl

/-- Whoever is alone has nobody to tell, so the test may be left out. -/
@[simp] theorem copies_tell (r : Replica) (packet : Packet) :
    (if r.isAlone then ∅ else broadcast packet : Effects).copies r.peers.toList =
      r.peers.toList.map fun peer => (peer, packet) := by
  split
  · rename_i h
    have he : r.peers.toList = [] := by
      apply List.eq_nil_iff_forall_not_mem.mpr
      intro id hid
      rw [Std.ExtTreeSet.mem_toList] at hid
      have hn := Std.ExtTreeSet.isEmpty_iff.mp h
      rw [hn] at hid
      exact Std.ExtTreeSet.not_mem_empty hid
    rw [he]
    rfl
  · exact copies_broadcast ..

@[simp] theorem copies_ite_wakeUp (b : Bool) :
    (if b then ∅ else wakeUp : Effects).copies peers = [] := by
  cases b <;> rfl

@[simp] theorem committed_tell (b : Bool) (packet : Packet) :
    (if b then ∅ else broadcast packet : Effects).committed = [] := by
  cases b <;> rfl

@[simp] theorem committed_ite_wakeUp (b : Bool) :
    (if b then ∅ else wakeUp : Effects).committed = [] := by
  cases b <;> rfl

end Effects

/-! ### Diaries -/

/-- What one member has done. -/
structure Diary where
  sealed : List Event
  votes : List Proof
  committed : List Event
  sent : List (NodeId × Packet)

namespace Diary

/-- The diary of a member that has done nothing. -/
def empty : Diary := ⟨[], [], [], []⟩

/-- One diary continues another. -/
structure Extends (d d' : Diary) : Prop where
  sealed : d.sealed <+: d'.sealed
  votes : d.votes <+: d'.votes
  committed : d.committed <+: d'.committed
  sent : d.sent <+: d'.sent

theorem Extends.refl (d : Diary) : d.Extends d :=
  ⟨List.prefix_refl _, List.prefix_refl _, List.prefix_refl _, List.prefix_refl _⟩

theorem Extends.trans {d d' d'' : Diary} (h : d.Extends d') (h' : d'.Extends d'') :
    d.Extends d'' :=
  ⟨h.sealed.trans h'.sealed, h.votes.trans h'.votes, h.committed.trans h'.committed,
    h.sent.trans h'.sent⟩

/-- The member has, or had, the event with this proof: it sealed it, or acknowledged it. -/
def Knows (d : Diary) (p : Proof) : Prop :=
  (∃ e ∈ d.sealed, e.proof = p) ∨ ∃ target, (target, Packet.ack p) ∈ d.sent

theorem Knows.mono {d d' : Diary} {p : Proof} (h : d.Knows p) (hd : d.Extends d') : d'.Knows p :=
  h.imp (fun ⟨e, he, hp⟩ => ⟨e, hd.sealed.subset he, hp⟩)
    fun ⟨target, ht⟩ => ⟨target, hd.sent.subset ht⟩

/-- Of what it has since done, only an acknowledgement tells that it has an event. -/
theorem Knows.of_say {d d' : Diary} {p : Proof} {new : List (NodeId × Packet)} (h : d'.Knows p)
    (hse : d'.sealed = d.sealed) (hs : d'.sent = d.sent ++ new) :
    d.Knows p ∨ ∃ target, (target, Packet.ack p) ∈ new := by
  rcases h with ⟨e, he, hp⟩ | ⟨target, ht⟩
  · rw [hse] at he
    exact Or.inl (Or.inl ⟨e, he, hp⟩)
  · rw [hs] at ht
    rcases List.mem_append.mp ht with ht | ht
    · exact Or.inl (Or.inr ⟨target, ht⟩)
    · exact Or.inr ⟨target, ht⟩

theorem Extends.getElem?_votes {d d' : Diary} (h : d.Extends d') {k : Nat} {p : Proof}
    (hk : d.votes[k]? = some p) : d'.votes[k]? = some p := by
  obtain ⟨rest, hr⟩ := h.votes
  rw [← hr, List.getElem?_append_left (List.getElem?_eq_some_iff.mp hk).1]
  exact hk

theorem Extends.getElem?_committed {d d' : Diary} (h : d.Extends d') {k : Nat} {e : Event}
    (hk : d.committed[k]? = some e) : d'.committed[k]? = some e := by
  obtain ⟨rest, hr⟩ := h.committed
  rw [← hr, List.getElem?_append_left (List.getElem?_eq_some_iff.mp hk).1]
  exact hk

/-- The proofs of what it committed in the first `k` rounds. -/
def closed (d : Diary) (k : Nat) : List Proof :=
  (d.committed.take k).map (·.proof)

theorem closed_mono {d : Diary} {k k' : Nat} (hk : k ≤ k') {p : Proof} (hp : p ∈ d.closed k) :
    p ∈ d.closed k' :=
  ((List.take_prefix_take_left hk).map _).subset hp

theorem mem_closed {d : Diary} {k : Nat} {p : Proof} :
    p ∈ d.closed k ↔ ∃ j < k, ∃ e, d.committed[j]? = some e ∧ e.proof = p := by
  unfold closed
  rw [List.mem_map]
  constructor
  · rintro ⟨e, he, hp⟩
    obtain ⟨j, hj⟩ := List.getElem?_of_mem he
    rw [List.getElem?_take] at hj
    split at hj
    · rename_i hjk
      exact ⟨j, hjk, e, hj, hp⟩
    · cases hj
  · rintro ⟨j, hjk, e, hj, hp⟩
    refine ⟨e, List.mem_of_getElem? (i := j) ?_, hp⟩
    rw [List.getElem?_take, if_pos hjk]
    exact hj

theorem Extends.mem_closed {d d' : Diary} (h : d.Extends d') {k k' : Nat} (hk : k ≤ k')
    {p : Proof} (hp : p ∈ d.closed k) : p ∈ d'.closed k' := by
  obtain ⟨j, hj, e, he, hep⟩ := Diary.mem_closed.mp hp
  exact Diary.mem_closed.mpr ⟨j, Nat.lt_of_lt_of_le hj hk, e, h.getElem?_committed he, hep⟩

theorem Extends.closed {d d' : Diary} (h : d.Extends d') {k : Nat}
    (hk : k ≤ d.committed.length) : d'.closed k = d.closed k := by
  obtain ⟨rest, hr⟩ := h.committed
  unfold Diary.closed
  rw [← hr, List.take_append_of_le_length hk]

end Diary

/-- The diaries of all nodes. -/
abbrev Diaries := NodeId → Diary

namespace Diaries

/-- One node's diary is replaced. -/
def write (H : Diaries) (m : NodeId) (d : Diary) : Diaries :=
  fun q => if q = m then d else H q

@[simp] theorem write_self (H : Diaries) (m : NodeId) (d : Diary) : H.write m d m = d :=
  if_pos rfl

theorem write_of_ne (H : Diaries) {m q : NodeId} (d : Diary) (h : q ≠ m) : H.write m d q = H q :=
  if_neg h

theorem write_cases (H : Diaries) (m : NodeId) (d : Diary) (q : NodeId) :
    (q = m ∧ H.write m d q = d) ∨ H.write m d q = H q := by
  by_cases h : q = m
  · exact Or.inl ⟨h, if_pos h⟩
  · exact Or.inr (if_neg h)

/-- All diaries continue. -/
def Extend (H H' : Diaries) : Prop := ∀ q, (H q).Extends (H' q)

theorem extend_write {H : Diaries} {m : NodeId} {d : Diary} (h : (H m).Extends d) :
    H.Extend (H.write m d) := by
  intro q
  rcases H.write_cases m d q with ⟨rfl, hd⟩ | hd <;> rw [hd]
  · exact h
  · exact .refl _

theorem Extend.trans {H H' H'' : Diaries} (h : H.Extend H') (h' : H'.Extend H'') :
    H.Extend H'' :=
  fun q => (h q).trans (h' q)

/-- Every member has, or had, the event with this proof. -/
def Everywhere (members : List NodeId) (H : Diaries) (p : Proof) : Prop :=
  ∀ q ∈ members, (H q).Knows p

theorem Everywhere.mono {members : List NodeId} {H H' : Diaries} {p : Proof}
    (h : H.Everywhere members p) (hH : H.Extend H') : H'.Everywhere members p :=
  fun q hq => (h q hq).mono (hH q)

/-- What a packet says is true. Packets of the kinds left over are never sent in a settled shard. -/
def Honest (members : List NodeId) (H : Diaries) (src dst : NodeId) : Packet → Prop
  | .propose _ event => event ∈ (H src).sealed
  | .ack proof => ∃ e ∈ (H dst).sealed, e.proof = proof
  | .finalize proof => (∃ e ∈ (H src).sealed, e.proof = proof) ∧ H.Everywhere members proof
  | .vote round _ proof => (H src).votes[round]? = some proof
  | .electorReady round => round < (H src).committed.length
  | _ => False

theorem Honest.mono {members : List NodeId} {H H' : Diaries} {src dst : NodeId} {packet : Packet}
    (h : H.Honest members src dst packet) (hH : H.Extend H') :
    H'.Honest members src dst packet := by
  cases packet with
  | propose signature event => exact (hH src).sealed.subset h
  | ack proof =>
      obtain ⟨e, he, hp⟩ := h
      exact ⟨e, (hH dst).sealed.subset he, hp⟩
  | finalize proof =>
      obtain ⟨⟨e, he, hp⟩, hk⟩ := h
      exact ⟨⟨e, (hH src).sealed.subset he, hp⟩, hk.mono hH⟩
  | vote round signature proof => exact (hH src).getElem?_votes h
  | electorReady round => exact Nat.lt_of_lt_of_le h (hH src).committed.length_le
  | _ => exact h

/-- A packet is on record: one member sent it to another. -/
structure Sent (members : List NodeId) (H : Diaries) (src dst : NodeId) (packet : Packet) :
    Prop where
  source : src ∈ members
  target : dst ∈ members
  distinct : src ≠ dst
  recorded : (dst, packet) ∈ (H src).sent

theorem Sent.mono {members : List NodeId} {H H' : Diaries} {src dst : NodeId} {packet : Packet}
    (h : H.Sent members src dst packet) (hH : H.Extend H') : H'.Sent members src dst packet :=
  { h with recorded := (hH src).sent.subset h.recorded }

end Diaries

/-! ### Consistent diaries -/

/-- All members have voted in a round, and the proof is the winner of their votes. -/
def Elected (members : List NodeId) (H : Diaries) (k : Nat) (p : Proof) : Prop :=
  (∀ v ∈ members, k < (H v).votes.length) ∧
    ∃ ballots : NodeMap Proof, tally ballots = some p ∧
      ∀ v, ballots[v]? = if v ∈ members then (H v).votes[k]? else none

theorem Elected.mono {members : List NodeId} {H H' : Diaries} {k : Nat} {p : Proof}
    (h : Elected members H k p) (hH : H.Extend H') : Elected members H' k p := by
  obtain ⟨hall, ballots, ht, hb⟩ := h
  refine ⟨fun v hv => Nat.lt_of_lt_of_le (hall v hv) (hH v).votes.length_le, ballots, ht, ?_⟩
  intro v
  rw [hb]
  split
  · rename_i hv
    rw [List.getElem?_eq_getElem (hall v hv)]
    exact ((hH v).getElem?_votes (List.getElem?_eq_getElem (hall v hv))).symm
  · rfl

/-- A round elects one proof. -/
theorem Elected.unique {members : List NodeId} {H : Diaries} {k : Nat} {p p' : Proof}
    (h : Elected members H k p) (h' : Elected members H k p') : p = p' := by
  obtain ⟨-, ballots, ht, hb⟩ := h
  obtain ⟨-, ballots', ht', hb'⟩ := h'
  obtain rfl : ballots = ballots' := by
    apply Std.ExtTreeMap.ext_getElem?
    intro v
    rw [hb, hb']
  exact Option.some.inj (ht.symm.trans ht')

/-- Somebody has voted for what is elected. -/
theorem Elected.exists_vote {members : List NodeId} {H : Diaries} {k : Nat} {p : Proof}
    (h : Elected members H k p) : ∃ v : NodeId, (H v).votes[k]? = some p := by
  obtain ⟨-, ballots, ht, hb⟩ := h
  obtain ⟨v, hv⟩ := exists_ballot_of_tally ht
  rw [hb] at hv
  split at hv
  · exact ⟨v, hv⟩
  · cases hv

/-- The diaries of a shard fit together. -/
structure Consistent (members : List NodeId) (H : Diaries) : Prop where
  /-- What a member sealed is an event of its own, without anything that only means something to its
  holder. -/
  own : ∀ {q e}, e ∈ (H q).sealed → e = Event.sealed q e.timestamp e.transactions
  times : ∀ q, (H q).sealed.Pairwise (·.timestamp < ·.timestamp)
  /-- What was committed in a round is what the votes of that round elect. -/
  elected : ∀ {q : NodeId} {k : Nat} {e : Event}, (H q).committed[k]? = some e →
    Elected members H k e.proof
  genuine : ∀ {q e}, e ∈ (H q).committed → e.forWire ∈ (H e.origin).sealed
  votable : ∀ {v : NodeId} {k : Nat} {p : Proof}, (H v).votes[k]? = some p → H.Everywhere members p
  /-- Whoever votes in a round knows that everyone has committed all rounds before. -/
  after : ∀ {v : NodeId} {k : Nat} {p : Proof}, (H v).votes[k]? = some p →
    ∀ j < k, ∀ q ∈ members, j < (H q).committed.length
  /-- Nobody votes for what it committed before, as long as it remembers. -/
  notClosed : ∀ {v : NodeId} {k : Nat} {p : Proof}, (H v).votes[k]? = some p →
    k ≤ RecentProofs.capacity → p ∉ (H v).closed k
  sent : ∀ {src dst packet}, (dst, packet) ∈ (H src).sent → H.Sent members src dst packet
  honest : ∀ {src dst packet}, (dst, packet) ∈ (H src).sent → H.Honest members src dst packet
  strangers : ∀ {q}, q ∉ members → H q = .empty

namespace Consistent

variable {members : List NodeId} {H : Diaries} {m : NodeId}

theorem empty (members : List NodeId) : Consistent members fun _ => .empty where
  own h := by cases h
  times _ := .nil
  elected h := by cases h
  genuine h := by cases h
  votable h := by cases h
  after h := by cases h
  notClosed h := by cases h
  sent h := by cases h
  honest h := by cases h
  strangers _ := rfl

theorem voter (h : Consistent members H) {v : NodeId} {k : Nat} {p : Proof}
    (hv : (H v).votes[k]? = some p) : v ∈ members := by
  apply Classical.byContradiction
  intro hm
  rw [h.strangers hm] at hv
  cases hv

theorem sealer (h : Consistent members H) {q : NodeId} {e : Event} (he : e ∈ (H q).sealed) :
    q ∈ members := by
  apply Classical.byContradiction
  intro hm
  rw [h.strangers hm] at he
  cases he

/-- A proof tells who sealed the event and when. -/
theorem eq_of_proof (h : Consistent members H) {q q' : NodeId} {e e' : Event}
    (he : e ∈ (H q).sealed) (he' : e' ∈ (H q').sealed) (hp : e.proof = e'.proof) :
    q = q' ∧ e = e' := by
  have ho := h.own he
  have ho' := h.own he'
  rw [ho, ho'] at hp
  obtain ⟨ht, rfl⟩ := proofFor_inj.mp hp
  refine ⟨rfl, ?_⟩
  -- no member seals twice at one time
  obtain ⟨i, hi, rfl⟩ := List.getElem_of_mem he
  obtain ⟨j, hj, rfl⟩ := List.getElem_of_mem he'
  have hlt := List.pairwise_iff_getElem.mp (h.times q)
  rcases Nat.lt_trichotomy i j with hij | rfl | hij
  · exact absurd ht (Nat.ne_of_lt (hlt i j hi hj hij))
  · rfl
  · exact absurd ht.symm (Nat.ne_of_lt (hlt j i hj hi hij))

theorem origin_eq (h : Consistent members H) {q : NodeId} {e : Event} (he : e ∈ (H q).sealed) :
    e.origin = q := by
  rw [h.own he]
  rfl

/-- Whoever votes in a round has committed all rounds before. -/
theorem length_of_vote (h : Consistent members H) {v : NodeId} {k : Nat} {p : Proof}
    (hk : (H v).votes[k]? = some p) : k ≤ (H v).committed.length := by
  cases k with
  | zero => exact Nat.zero_le _
  | succ k => exact h.after hk k (Nat.lt_succ_self k) v (h.voter hk)

/-- All who have committed in a round have committed the same event. -/
theorem agree (h : Consistent members H) {q q' : NodeId} {k : Nat} {e e' : Event}
    (he : (H q).committed[k]? = some e) (he' : (H q').committed[k]? = some e') :
    e.proof = e'.proof ∧ e.forWire = e'.forWire := by
  have hp := (h.elected he).unique (h.elected he')
  refine ⟨hp, ?_⟩
  have hs := h.genuine (List.mem_of_getElem? he)
  have hs' := h.genuine (List.mem_of_getElem? he')
  exact (h.eq_of_proof hs hs' hp).2

/-- So the rounds that both have behind them are the same. -/
theorem closed_eq (h : Consistent members H) {q q' : NodeId} {k : Nat}
    (hq : k ≤ (H q).committed.length) (hq' : k ≤ (H q').committed.length) :
    (H q).closed k = (H q').closed k := by
  apply List.ext_getElem
  · simp only [Diary.closed, List.length_map, List.length_take]
    omega
  · intro j hj hj'
    simp only [Diary.closed, List.length_map, List.length_take] at hj hj'
    simp only [Diary.closed, List.getElem_map, List.getElem_take]
    exact (h.agree (List.getElem?_eq_getElem (by omega)) (List.getElem?_eq_getElem (by omega))).1

/-- A vote is not for an event of an earlier round, as long as the voter remembers. -/
theorem not_mem_closed (h : Consistent members H) {q v : NodeId} {k n : Nat} {p : Proof}
    (hv : (H v).votes[k]? = some p) (hk : k ≤ RecentProofs.capacity) (hn : n ≤ k)
    (hq : n ≤ (H q).committed.length) : p ∉ (H q).closed n := by
  -- the voter has closed the same events as anyone else, so it is enough that it remembers them
  rw [h.closed_eq hq (Nat.le_trans hn (h.length_of_vote hv))]
  exact fun hp => h.notClosed hv hk (Diary.closed_mono hn hp)

end Consistent

/-! ### Continuing a diary -/

/-- A diary continues a member's, and what it adds is in order. -/
structure Continues (members : List NodeId) (H : Diaries) (m : NodeId) (d : Diary) : Prop where
  extend : (H m).Extends d
  own : ∀ e ∈ d.sealed, e ∈ (H m).sealed ∨ e = Event.sealed m e.timestamp e.transactions
  times : d.sealed.Pairwise (·.timestamp < ·.timestamp)
  /-- A new vote is for an event that everyone has and that is not committed yet, in a round that
  everyone has reached. -/
  votes : ∀ {k : Nat} {p : Proof}, d.votes[k]? = some p → (H m).votes[k]? = some p ∨
    H.Everywhere members p ∧ (∀ j < k, ∀ q ∈ members, j < (H q).committed.length) ∧
      (k ≤ RecentProofs.capacity → p ∉ (H m).closed k)
  /-- A new commit is of an elected event, and of a genuine one. -/
  committed : ∀ {k : Nat} {e : Event}, d.committed[k]? = some e → (H m).committed[k]? = some e ∨
    Elected members H k e.proof ∧ e.forWire ∈ (H e.origin).sealed
  sent : ∀ {dst packet}, (dst, packet) ∈ d.sent → (dst, packet) ∈ (H m).sent ∨
    (dst ∈ members ∧ m ≠ dst) ∧ (H.write m d).Honest members m dst packet

namespace Continues

variable {members : List NodeId} {H : Diaries} {m : NodeId} {d : Diary}

/-- What anyone sealed afterwards it had sealed before, or it is a new event of its own. -/
theorem sealed_write (hc : Continues members H m d) {q : NodeId} {e : Event}
    (he : e ∈ (H.write m d q).sealed) :
    e ∈ (H q).sealed ∨ e = Event.sealed q e.timestamp e.transactions := by
  rcases H.write_cases m d q with ⟨rfl, hd⟩ | hd <;> rw [hd] at he
  · exact hc.own e he
  · exact Or.inl he

theorem committed_write (hc : Continues members H m d) {q : NodeId} {k : Nat} {e : Event}
    (he : (H.write m d q).committed[k]? = some e) :
    (H q).committed[k]? = some e ∨
      Elected members H k e.proof ∧ e.forWire ∈ (H e.origin).sealed := by
  rcases H.write_cases m d q with ⟨rfl, hd⟩ | hd <;> rw [hd] at he
  · exact hc.committed he
  · exact Or.inl he

theorem votes_write (hc : Continues members H m d) {v : NodeId} {k : Nat} {p : Proof}
    (hv : (H.write m d v).votes[k]? = some p) :
    (H v).votes[k]? = some p ∨
      v = m ∧ H.Everywhere members p ∧
        (∀ j < k, ∀ q ∈ members, j < (H q).committed.length) ∧
        (k ≤ RecentProofs.capacity → p ∉ (H v).closed k) := by
  rcases H.write_cases m d v with ⟨rfl, hd⟩ | hd <;> rw [hd] at hv
  · exact (hc.votes hv).imp_right fun hn => ⟨rfl, hn⟩
  · exact Or.inl hv

theorem sent_write (hc : Continues members H m d) {src dst : NodeId} {packet : Packet}
    (hs : (dst, packet) ∈ (H.write m d src).sent) :
    (dst, packet) ∈ (H src).sent ∨
      src = m ∧ (dst ∈ members ∧ m ≠ dst) ∧ (H.write m d).Honest members m dst packet := by
  rcases H.write_cases m d src with ⟨rfl, hd⟩ | hd <;> rw [hd] at hs
  · exact (hc.sent hs).imp_right fun hn => ⟨rfl, hn⟩
  · exact Or.inl hs

end Continues

/-- The diaries stay consistent. -/
theorem Consistent.write {members : List NodeId} {H : Diaries} {m : NodeId} {d : Diary}
    (h : Consistent members H) (hm : m ∈ members) (hc : Continues members H m d) :
    Consistent members (H.write m d) := by
  have hH : H.Extend (H.write m d) := Diaries.extend_write hc.extend
  have grown {j : Nat} {q : NodeId} (hj : j < (H q).committed.length) :
      j < (H.write m d q).committed.length :=
    Nat.lt_of_lt_of_le hj (hH q).committed.length_le
  -- an entry is an old one, of which `h` speaks, or a new one, of which `hc` does
  constructor
  case own => exact fun he => (hc.sealed_write he).elim h.own id
  case times =>
    intro q
    rcases H.write_cases m d q with ⟨rfl, hd⟩ | hd <;> rw [hd]
    · exact hc.times
    · exact h.times q
  case elected => exact fun he => ((hc.committed_write he).elim h.elected And.left).mono hH
  case genuine =>
    intro q e he
    obtain ⟨k, hk⟩ := List.getElem?_of_mem he
    refine (hH _).sealed.subset ?_
    rcases hc.committed_write hk with ho | ⟨-, hg⟩
    · exact h.genuine (List.mem_of_getElem? ho)
    · exact hg
  case votable =>
    exact fun hv => ((hc.votes_write hv).elim h.votable fun hn => hn.2.1).mono hH
  case after =>
    intro v k p hv j hj q hq
    rcases hc.votes_write hv with ho | ⟨-, -, hafter, -⟩
    · exact grown (h.after ho j hj q hq)
    · exact grown (hafter j hj q hq)
  case notClosed =>
    intro v k p hv hk
    rcases hc.votes_write hv with ho | ⟨rfl, -, hafter, hn⟩
    · rw [(hH v).closed (h.length_of_vote ho)]
      exact h.notClosed ho hk
    · -- the member has committed all rounds before, so new commits do not show there
      have hlen : k ≤ (H v).committed.length := by
        cases k with
        | zero => exact Nat.zero_le _
        | succ k => exact hafter k (Nat.lt_succ_self k) v hm
      rw [(hH v).closed hlen]
      exact hn hk
  case sent =>
    intro src dst packet hs
    rcases hc.sent_write hs with ho | ⟨rfl, ⟨hd, hne⟩, -⟩
    · exact (h.sent ho).mono hH
    · exact ⟨hm, hd, hne, hs⟩
  case honest =>
    intro src dst packet hs
    rcases hc.sent_write hs with ho | ⟨rfl, -, hn⟩
    · exact (h.honest ho).mono hH
    · exact hn
  case strangers =>
    intro q hq
    have hne : q ≠ m := fun he => hq (he ▸ hm)
    rw [Diaries.write_of_ne H d hne]
    exact h.strangers hq

end ShardGossip

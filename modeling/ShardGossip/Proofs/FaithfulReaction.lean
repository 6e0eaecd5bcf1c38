import ShardGossip.Proofs.Faithful

/-!
# ShardGossip.Proofs.FaithfulReaction

**What a faithful member does is in order, and leaves it faithful.** A reaction to packets that are
on record adds to the diary only what continues it consistently (`Faithful.continues`): a vote is
cast for an event that everyone has, a commit is the winner of everyone's votes, and a round is
closed when everyone has committed it. Afterwards the state is true to the new diary
(`Faithful.reaction`).
-/

namespace ShardGossip

/-- What a reaction adds to the diary. -/
def Diary.note (d : Diary) (r : Replica) (o : Outcome) : Diary :=
  { d with
    votes := d.votes ++ if r.ballot.isNone then o.replica.ballot.toList else []
    committed := d.committed ++ o.effects.committed
    sent := d.sent ++ o.effects.copies r.peers.toList }

/-! ### What reactions add to the diary -/

/-- Sending packets that are true is in order. -/
theorem Continues.say {members : List NodeId} {H : Diaries} {m : NodeId}
    {new : List (NodeId × Packet)} (h : Consistent members H)
    (hn : ∀ {dst packet}, (dst, packet) ∈ new →
      (dst ∈ members ∧ m ≠ dst) ∧ H.Honest members m dst packet) :
    Continues members H m { H m with sent := (H m).sent ++ new } where
  extend := ⟨List.prefix_refl _, List.prefix_refl _, List.prefix_refl _, List.prefix_append _ _⟩
  own e he := Or.inl he
  times := h.times m
  votes hv := Or.inl hv
  committed hc := Or.inl hc
  sent hs := by
    refine (List.mem_append.mp hs).imp_right fun hs => ⟨(hn hs).1, (hn hs).2.mono ?_⟩
    exact Diaries.extend_write
      ⟨List.prefix_refl _, List.prefix_refl _, List.prefix_refl _, List.prefix_append _ _⟩

theorem getElem?_concat_cases {α : Type} {l : List α} {a b : α} {k : Nat}
    (h : (l ++ [a])[k]? = some b) : l[k]? = some b ∨ k = l.length ∧ b = a := by
  rcases Nat.lt_trichotomy k l.length with hk | hk | hk
  · rw [List.getElem?_append_left hk] at h
    exact Or.inl h
  · subst hk
    rw [List.getElem?_concat_length] at h
    exact Or.inr ⟨rfl, (Option.some.inj h).symm⟩
  · rw [List.getElem?_eq_none (by simp; omega)] at h
    cases h

/-- Voting for an event that everyone has, and telling everyone, is in order. -/
theorem Continues.vote {members : List NodeId} {H : Diaries} {m : NodeId} {k : Nat} {p : Proof}
    {s : Bytes} {peers : List NodeId} (h : Consistent members H) (hk : (H m).votes.length = k)
    (hp : H.Everywhere members p) (ha : ∀ j < k, ∀ q ∈ members, j < (H q).committed.length)
    (hu : k ≤ RecentProofs.capacity → p ∉ (H m).closed k)
    (hd : ∀ q ∈ peers, q ∈ members ∧ m ≠ q) :
    Continues members H m { H m with
      votes := (H m).votes ++ [p]
      sent := (H m).sent ++ peers.map fun peer => (peer, .vote k s p) } where
  extend := ⟨List.prefix_refl _, List.prefix_append _ _, List.prefix_refl _, List.prefix_append _ _⟩
  own e he := Or.inl he
  times := h.times m
  votes hv := by
    rcases getElem?_concat_cases hv with hv | ⟨rfl, rfl⟩
    · exact Or.inl hv
    · exact Or.inr (hk ▸ ⟨hp, ha, hu⟩)
  committed hc := Or.inl hc
  sent hs := by
    refine (List.mem_append.mp hs).imp_right fun hs => ?_
    obtain ⟨q, hq, he⟩ := List.mem_map.mp hs
    cases he
    refine ⟨hd _ hq, ?_⟩
    show (H.write m _ m).votes[k]? = some p
    rw [Diaries.write_self, ← hk]
    exact List.getElem?_concat_length

/-- Committing an elected event, and telling everyone, is in order. -/
theorem Continues.commit {members : List NodeId} {H : Diaries} {m : NodeId} {k : Nat} {e : Event}
    {peers : List NodeId} (h : Consistent members H) (hk : (H m).committed.length = k)
    (he : Elected members H k e.proof) (hg : e.forWire ∈ (H e.origin).sealed)
    (hd : ∀ q ∈ peers, q ∈ members ∧ m ≠ q) :
    Continues members H m { H m with
      committed := (H m).committed ++ [e]
      sent := (H m).sent ++ peers.map fun peer => (peer, .electorReady k) } where
  extend := ⟨List.prefix_refl _, List.prefix_refl _, List.prefix_append _ _, List.prefix_append _ _⟩
  own e he := Or.inl he
  times := h.times m
  votes hv := Or.inl hv
  committed hc := by
    rcases getElem?_concat_cases hc with hc | ⟨rfl, rfl⟩
    · exact Or.inl hc
    · exact Or.inr ⟨hk ▸ he, hg⟩
  sent hs := by
    refine (List.mem_append.mp hs).imp_right fun hs => ?_
    obtain ⟨q, hq, hqe⟩ := List.mem_map.mp hs
    cases hqe
    refine ⟨hd _ hq, ?_⟩
    show k < (H.write m _ m).committed.length
    rw [Diaries.write_self, List.length_append, hk]
    exact Nat.lt_succ_self _

namespace Replica

variable {members : List NodeId} {H : Diaries} {m : NodeId} {r : Replica} {o : Outcome}
  {heard : NodeId → Packet → Prop}

theorem votes_note {d : Diary} {o : Outcome}
    (hb : o.replica.ballot = r.ballot ∨ o.replica.ballot = none) :
    (d.note r o).votes = d.votes := by
  unfold Diary.note
  dsimp only
  split
  · rename_i hn
    rw [Option.isNone_iff_eq_none] at hn
    rcases hb with hb | hb
    · rw [hb, hn]
      exact List.append_nil _
    · rw [hb]
      exact List.append_nil _
  · exact List.append_nil _

theorem note_quiet {d : Diary} {o : Outcome}
    (hb : o.replica.ballot = r.ballot ∨ o.replica.ballot = none) (hc : o.effects.committed = []) :
    d.note r o = { d with sent := d.sent ++ o.effects.copies r.peers.toList } := by
  have hv : d.votes ++ (if r.ballot.isNone then o.replica.ballot.toList else []) = d.votes :=
    votes_note hb
  unfold Diary.note
  rw [hv, hc, List.append_nil]

theorem note_silent {d : Diary} {r' : Replica} (hb : r'.ballot = r.ballot ∨ r'.ballot = none) :
    d.note r (.silent r') = d := by
  rw [note_quiet hb rfl]
  show { d with sent := d.sent ++ [] } = d
  rw [List.append_nil]

theorem note_cast {d : Diary} {p : Proof} {signature : Bytes} (hb : r.ballot = none) :
    d.note r
      ⟨{ r.countBallot r.localId ⟨r.rounds, signature, p⟩ with ballot := some p, electing := true },
        if r.isAlone then ∅ else .broadcast (.vote r.rounds signature p)⟩ =
      { d with
        votes := d.votes ++ [p]
        sent := d.sent ++ r.peers.toList.map fun peer => (peer, .vote r.rounds signature p) } := by
  simp [Diary.note, hb]

theorem note_commit {d : Diary} {e : Event} (hb : r.ballot.isSome)
    (he : r.store.get? e.proof = some e) :
    d.note r
      ⟨{ r with ballots := ∅, chosen := some e.proof },
        (r.store.get? e.proof).elim ∅ .commit ++
          if r.isAlone then ∅ else .broadcast (.electorReady r.rounds)⟩ =
      { d with
        committed := d.committed ++ [e]
        sent := d.sent ++ r.peers.toList.map fun peer => (peer, .electorReady r.rounds) } := by
  obtain ⟨p, hp⟩ := Option.isSome_iff_exists.mp hb
  simp [Diary.note, hp, he]

/-- What a reaction adds to the diary is in order. -/
theorem Faithful.continues (hC : Consistent members H) (h : r.Faithful members H m)
    (hh : ∀ {src packet}, heard src packet → H.Sent members src m packet)
    (hr : Reaction heard r o) : Continues members H m ((H m).note r o) := by
  -- most reactions only send, if anything
  have say (hb : o.replica.ballot = r.ballot ∨ o.replica.ballot = none)
      (hc : o.effects.committed = [])
      (hn : ∀ {dst packet}, (dst, packet) ∈ o.effects.copies r.peers.toList →
        (dst ∈ members ∧ m ≠ dst) ∧ H.Honest members m dst packet) :
      Continues members H m ((H m).note r o) := by
    rw [note_quiet hb hc]
    exact .say hC hn
  have silent (hb : o.replica.ballot = r.ballot ∨ o.replica.ballot = none)
      (hc : o.effects.committed = []) (hs : o.effects.copies r.peers.toList = []) :
      Continues members H m ((H m).note r o) := by
    refine say hb hc fun hn => ?_
    rw [hs] at hn
    cases hn
  -- an acknowledgement goes to the origin of the event
  have ack {src dst : NodeId} {packet : Packet} {signature : Bytes} {event : Event}
      (hp : heard src (.propose signature event))
      (hn : (dst, packet) ∈ [(src, Packet.ack event.proof)]) :
      (dst ∈ members ∧ m ≠ dst) ∧ H.Honest members m dst packet := by
    cases List.mem_singleton.mp hn
    have hs := hh hp
    exact ⟨⟨hs.source, Ne.symm hs.distinct⟩, event, hC.honest hs.recorded, rfl⟩
  cases hr with
  | store hp _ _ _ _ => exact say (Or.inl rfl) rfl (ack hp)
  | acknowledge hp _ _ _ => exact say (Or.inl rfl) rfl (ack hp)
  | announceOwn he ho _ hq =>
      refine say (Or.inl rfl) (by simp) fun hn => ?_
      simp only [Effects.copies_append, Effects.copies_tell, Effects.copies_ite_wakeUp,
        List.append_nil, List.mem_map] at hn
      obtain ⟨q, hqm, hqe⟩ := hn
      cases hqe
      exact ⟨h.seat.target _ hqm, h.everywhere he ho hq⟩
  | cast hb hc hq he =>
      rename_i proof event
      have hlen := h.tracks.length_of_unvoted hb
      rw [note_cast hb]
      -- announced, so everyone has it; pending, so the member has not committed it
      refine .vote hC hlen (h.trusts.announced (List.find?_some hq))
        (fun j hj q hm => h.trusts.passed hj hm) (fun hk hp => ?_) h.seat.target
      have hf := h.wellFormed.fresh (EventStore.contains_of_get? he)
      rw [h.tracks.finalized_of_closed hk hp] at hf
      cases hf
  | commit hc hb hv ht =>
      have hlen := h.tracks.length_of_undecided hc
      obtain ⟨event, he, rfl⟩ := exists_winner_event h.wellFormed ht
      rw [note_commit hb he]
      exact .commit hC hlen (h.elected hv ht) (h.trusts.content he) h.seat.target
  | announceHeard _ _ _ _ => exact silent (Or.inl rfl) (by simp) (by simp)
  | @hold voter vote _ _ _ =>
      obtain ⟨held, hh, -⟩ := hold_eq r voter vote
      rw [hh] at silent ⊢
      exact silent (Or.inl rfl) rfl rfl
  | schedule _ _ =>
      obtain ⟨electing, quiet, hs⟩ := scheduleElection_eq r
      rw [hs] at silent ⊢
      exact silent (Or.inl rfl) (by simp) (by simp)
  | close _ _ => exact silent (Or.inr rfl) rfl rfl
  | _ => exact silent (Or.inl rfl) rfl rfl

/-! ### What reactions leave -/

theorem Seat.reaction (h : r.Seat members m) (hr : Reaction heard r o) :
    o.replica.Seat members m := by
  obtain ⟨hl, hp, hs⟩ := hr.seat
  refine ⟨h.member, hl.trans h.localId, hp ▸ h.peers, fun q => ?_, hr.counted h.counted⟩
  rcases hs with hs | hs
  · rw [hs]
    exact h.present q
  · rw [hs]
    exact Std.ExtTreeSet.contains_empty

/-- A state in which nothing has been decided since, and nothing has got lost. -/
theorem Tracks.keep {d : Diary} {r' : Replica} {new : List (NodeId × Packet)} (h : r.Tracks d)
    (hb : r'.ballot = r.ballot) (hc : r'.chosen = r.chosen) (hr : r'.rounds = r.rounds)
    (hf : r'.finalized = r.finalized) (hl : r'.clock = r.clock)
    (hs : ∀ {p}, r.store.contains p → r'.store.contains p)
    (hk : ∀ {target p}, (target, Packet.ack p) ∈ new →
      r'.store.contains p ∨ p ∈ d.closed r.rounds) :
    r'.Tracks { d with sent := d.sent ++ new } where
  votes_length := by rw [hb, hr]; exact h.votes_length
  voted hv := by
    rw [hb] at hv
    rw [hr]
    exact h.voted hv
  committed_length := by rw [hc, hr]; exact h.committed_length
  records := h.records.congr hc hf
  known := by
    intro p hp
    rw [hr]
    rcases hp.of_say (d := d) rfl rfl with hp | ⟨target, ht⟩
    · exact (h.known hp).imp_left hs
    · exact hk ht
  clock e he := by rw [hl]; exact h.clock e he

/-- Casting a vote puts it on record. -/
theorem Tracks.cast {d : Diary} {r' : Replica} {p : Proof} {new : List (NodeId × Packet)}
    (h : r.Tracks d) (ho : r.ballot = none) (hb : r'.ballot = some p) (hc : r'.chosen = r.chosen)
    (hr : r'.rounds = r.rounds) (hf : r'.finalized = r.finalized) (hl : r'.clock = r.clock)
    (hs : ∀ {p}, r.store.contains p → r'.store.contains p)
    (hk : ∀ {target p}, (target, Packet.ack p) ∉ new) :
    r'.Tracks { d with votes := d.votes ++ [p], sent := d.sent ++ new } := by
  have hlen := h.length_of_unvoted ho
  constructor
  · rw [List.length_append, hlen, hb, hr]
    rfl
  · intro q hq
    rw [hb] at hq
    rw [hr, ← hlen, ← Option.some.inj hq]
    exact List.getElem?_concat_length
  · rw [hc, hr]
    exact h.committed_length
  · exact h.records.congr hc hf
  · intro q hq
    rw [hr]
    rcases hq.of_say (d := d) rfl rfl with hq | ⟨target, ht⟩
    · exact (h.known hq).imp_left hs
    · exact absurd ht hk
  · rw [hl]
    exact h.clock

/-- Committing the winner puts it on record. -/
theorem Tracks.commit {d : Diary} {e : Event} {new : List (NodeId × Packet)} (h : r.Tracks d)
    (hw : r.WellFormed) (ho : r.chosen = none) (he : r.store.get? e.proof = some e)
    (hk : ∀ {target p}, (target, Packet.ack p) ∉ new) :
    ({ r with ballots := ∅, chosen := some e.proof } : Replica).Tracks
      { d with committed := d.committed ++ [e], sent := d.sent ++ new } := by
  have hlen := h.length_of_undecided ho
  refine { h with committed_length := ?_, records := ?_, known := ?_ }
  · rw [List.length_append, hlen]
    rfl
  · exact h.records.keep (o := ⟨{ r with ballots := ∅, chosen := some e.proof }, .commit e⟩) hw
      (.commit ho he rfl rfl rfl)
  · intro q hq
    have hcl : ({ d with committed := d.committed ++ [e], sent := d.sent ++ new } : Diary).closed
        r.rounds = d.closed r.rounds := by
      unfold Diary.closed
      rw [← hlen, List.take_left, List.take_length]
    show r.store.contains q ∨ q ∈ Diary.closed _ r.rounds
    rw [hcl]
    rcases hq.of_say (d := d) rfl rfl with hq | ⟨target, ht⟩
    · exact h.known hq
    · exact absurd ht hk

/-- A closed round leaves the winner among what is closed. -/
theorem Tracks.close {d : Diary} {p : Proof} (h : r.Tracks d) (hw : r.WellFormed)
    (hc : r.chosen = some p) (hn : (r.closeRound p).advance.rounds = r.rounds + 1) :
    (r.closeRound p).advance.Tracks d := by
  have hlen := h.length_of_decided hc
  have hv : d.votes.length = r.rounds + 1 := by
    obtain ⟨q, hq⟩ := Option.isSome_iff_exists.mp (hw.decided hc).1
    exact h.length_of_voted hq
  have hp : p ∈ d.closed (r.rounds + 1) := h.chosen_mem hc
  constructor
  · rw [hn]
    exact hv
  · intro q hq
    cases hq
  · rw [hn]
    exact hlen
  · have hr := h.records.keep (o := .silent (r.closeRound p).advance) hw
      (.close hc rfl rfl rfl)
    rw [Outcome.effects_silent, Effects.committed_empty, List.append_nil] at hr
    exact hr
  · intro q hq
    rw [hn]
    by_cases hqp : p = q
    · exact Or.inr (hqp ▸ hp)
    · refine (h.known hq).imp (fun hs => ?_) (Diary.closed_mono (Nat.le_succ _))
      exact (EventStore.contains_remove ..).mpr ⟨hqp, hs⟩
  · exact h.clock

theorem Faithful.tracks_reaction (h : r.Faithful members H m) (hr : Reaction heard r o) :
    o.replica.Tracks ((H m).note r o) := by
  have keep (hb : o.replica.ballot = r.ballot) (hc : o.replica.chosen = r.chosen)
      (hr : o.replica.rounds = r.rounds) (hf : o.replica.finalized = r.finalized)
      (hl : o.replica.clock = r.clock) (he : o.effects.committed = [])
      (hs : ∀ {p}, r.store.contains p → o.replica.store.contains p)
      (hk : ∀ {target p}, (target, Packet.ack p) ∈ o.effects.copies r.peers.toList →
        o.replica.store.contains p ∨ p ∈ (H m).closed r.rounds) :
      o.replica.Tracks ((H m).note r o) := by
    rw [note_quiet (Or.inl hb) he]
    exact h.tracks.keep hb hc hr hf hl hs hk
  cases hr with
  | store _ _ _ _ _ =>
      refine keep rfl rfl rfl rfl rfl rfl (fun hs => ?_) fun hk => Or.inl ?_
      · exact (EventStore.contains_insert ..).mpr (Or.inr hs)
      · cases List.mem_singleton.mp hk
        exact (EventStore.contains_insert ..).mpr (Or.inl rfl)
  | acknowledge _ _ _ hkn =>
      refine keep rfl rfl rfl rfl rfl rfl id fun hk => ?_
      cases List.mem_singleton.mp hk
      exact hkn.symm.imp_right h.tracks.closed_of_finalized
  | noteAck _ _ _ _ =>
      refine keep rfl rfl rfl rfl rfl rfl (fun hs => ?_) fun hk => nomatch hk
      exact (EventStore.contains_update ..).trans hs
  | announceOwn _ _ _ _ =>
      refine keep rfl rfl rfl rfl rfl (by simp) id fun hk => ?_
      simp at hk
  | announceHeard _ _ _ _ =>
      refine keep rfl rfl rfl rfl rfl (by simp) id fun hk => ?_
      simp at hk
  | @hold voter vote _ _ _ =>
      obtain ⟨held, hh, -⟩ := hold_eq r voter vote
      rw [hh] at keep ⊢
      exact keep rfl rfl rfl rfl rfl rfl id fun hk => nomatch hk
  | count _ _ _ =>
      refine keep rfl rfl rfl rfl rfl rfl (fun hs => ?_) fun hk => nomatch hk
      exact (EventStore.contains_update ..).trans hs
  | release _ _ =>
      refine keep rfl rfl rfl rfl rfl rfl (fun hs => ?_) fun hk => nomatch hk
      exact (EventStore.contains_update ..).trans hs
  | schedule _ _ =>
      obtain ⟨electing, quiet, hs⟩ := scheduleElection_eq r
      rw [hs] at keep ⊢
      refine keep rfl rfl rfl rfl rfl (by simp) id fun hk => ?_
      simp at hk
  | cast hb _ _ _ =>
      rw [note_cast hb]
      exact h.tracks.cast hb rfl rfl rfl rfl rfl
        (fun hs => (EventStore.contains_update ..).trans hs) (by simp)
  | commit hc hb _ hw =>
      obtain ⟨e, he, rfl⟩ := exists_winner_event h.wellFormed hw
      rw [note_commit hb he]
      exact h.tracks.commit h.wellFormed hc he (by simp)
  | close hc _ =>
      rw [note_silent (Or.inr rfl)]
      exact h.tracks.close h.wellFormed hc (h.seat.counted.rounds_close _)
  | _ => exact keep rfl rfl rfl rfl rfl rfl id fun hk => nomatch hk

/-- A new event that its origin sealed may be stored. -/
theorem Trusts.insert (h : r.Trusts members H) {e : Event} (he : e.forWire ∈ (H e.origin).sealed)
    (hb : ∀ q, e.backedResponses.contains q = false) :
    ({ r with store := (r.store.insert e).2 } : Replica).Trusts members H :=
  { h with
    content := by
      intro p e' hp
      rw [EventStore.get?_insert] at hp
      split at hp
      · exact Option.some.inj hp ▸ he
      · exact h.content hp
    acks := by
      intro p e' q hp hq
      rw [EventStore.get?_insert] at hp
      split at hp
      · rw [← Option.some.inj hp, hb] at hq
        cases hq
      · exact h.acks hp hq }

/-- Noting something at a pending event leaves alone what its origin sealed. -/
theorem Trusts.content_update (h : r.Trusts members H) {p : Proof} (note : Event → Event)
    (hw : ∀ e, (note e).forWire = e.forWire) (ho : ∀ e, (note e).origin = e.origin) {q : Proof}
    {e' : Event} (he' : (r.store.update p note).get? q = some e') :
    e'.forWire ∈ (H e'.origin).sealed := by
  rw [EventStore.get?_update] at he'
  split at he'
  · obtain ⟨e, he, rfl⟩ := Option.map_eq_some_iff.mp he'
    rw [hw, ho]
    exact h.content he
  · exact h.content he'

/-- An acknowledgement may be recorded if it is on record. -/
theorem Trusts.noteAck (h : r.Trusts members H) {p : Proof} {q : NodeId} (hq : (H q).Knows p) :
    ({ r with store := r.store.update p (·.recordAck q) } : Replica).Trusts members H :=
  { h with
    content := h.content_update (·.recordAck q) (fun _ => rfl) fun _ => rfl
    acks := by
      intro p' e' q' hp hq'
      rw [EventStore.get?_update] at hp
      split at hp
      · rename_i hpp
        obtain ⟨e, he, rfl⟩ := Option.map_eq_some_iff.mp hp
        rcases contains_insert_iff.mp hq' with rfl | hq'
        · exact hpp ▸ hq
        · exact h.acks he hq'
      · exact h.acks hp hq' }

theorem Trusts.announce (h : r.Trusts members H) {p : Proof} (hp : H.Everywhere members p) :
    ({ r with announced := r.announced.insert p, electing := true } : Replica).Trusts members H :=
  { h with
    announced := by
      intro p' hp'
      exact (contains_insert_iff.mp hp').elim (fun hpp => hpp ▸ hp) h.announced }

/-- Ballots may be held back if they are on record. -/
theorem Trusts.withHeld (h : r.Trusts members H) {held : NodeMap HeldVote}
    (hh : ∀ {v : NodeId} {vote : HeldVote}, held[v]? = some vote →
      r.held[v]? = some vote ∨ (H v).votes[vote.round]? = some vote.proof) :
    ({ r with held := held } : Replica).Trusts members H :=
  { h with held := fun hv => (hh hv).elim h.held id }

theorem Trusts.erase_held (h : r.Trusts members H) (v : NodeId) :
    ({ r with held := r.held.erase v } : Replica).Trusts members H := by
  refine h.withHeld fun hu => Or.inl ?_
  rw [getElem?_erase_eq] at hu
  split at hu
  · cases hu
  · exact hu

/-- A ballot of the round in progress may be counted if it is on record. -/
theorem Trusts.countBallot (h : r.Trusts members H) {v : NodeId} {vote : HeldVote}
    (hv : (H v).votes[r.rounds]? = some vote.proof) :
    (r.countBallot v vote).Trusts members H :=
  { h with
    content := h.content_update (·.recordBallot v vote.signature) (fun _ => rfl) fun _ => rfl
    acks := by
      intro p e' q hp hq
      rw [show (r.countBallot v vote).store =
        r.store.update vote.proof (·.recordBallot v vote.signature) from rfl,
        EventStore.get?_update] at hp
      split at hp
      · obtain ⟨e, he, rfl⟩ := Option.map_eq_some_iff.mp hp
        exact h.acks he hq
      · exact h.acks hp hq
    ballots := by
      intro u p hp
      rw [show (r.countBallot v vote).ballots = r.ballots.insert v vote.proof from rfl,
        getElem?_insert_eq] at hp
      split at hp
      · rename_i hu
        subst hu
        rw [← Option.some.inj hp]
        exact hv
      · exact h.ballots hp }

theorem Trusts.cast (h : r.Trusts members H) {p : Proof} {s : Bytes}
    (hv : (H r.localId).votes[r.rounds]? = some p) :
    ({ r.countBallot r.localId ⟨r.rounds, s, p⟩ with
      ballot := some p, electing := true } : Replica).Trusts members H :=
  have hc : (r.countBallot r.localId ⟨r.rounds, s, p⟩).Trusts members H := h.countBallot hv
  { hc with }

/-- A round may be closed that everyone has committed. -/
theorem Trusts.close (h : r.Trusts members H) {p : Proof}
    (hn : (r.closeRound p).advance.rounds = r.rounds + 1)
    (hp : ∀ q ∈ members, r.rounds < (H q).committed.length) :
    (r.closeRound p).advance.Trusts members H where
  content := by
    intro p' e he
    rw [show (r.closeRound p).advance.store =
      (r.store.remove p).2 from rfl, EventStore.get?_remove] at he
    split at he
    · cases he
    · exact h.content he
  acks := by
    intro p' e q he hq
    rw [show (r.closeRound p).advance.store =
      (r.store.remove p).2 from rfl, EventStore.get?_remove] at he
    split at he
    · cases he
    · exact h.acks he hq
  ballots hb := by simp [Replica.closeRound, clearRound, advance] at hb
  held := h.held
  ready hq := by simp [Replica.closeRound, clearRound, advance] at hq
  announced := fun ha => h.announced (contains_erase_iff.mp ha).2
  passed := by
    intro k q hk hq
    rw [hn] at hk
    rcases Nat.lt_succ_iff_lt_or_eq.mp hk with hk | rfl
    · exact h.passed hk hq
    · exact hp q hq

theorem Seat.all_ready (h : r.Seat members m) (hr : r.allReady) {q : NodeId} (hq : q ∈ members)
    (hne : q ≠ m) : r.ready.contains q := by
  unfold allReady at hr
  rw [List.all_eq_true] at hr
  exact hr q (h.mem_electors.mpr ⟨hq, hne⟩)

theorem Faithful.trusts_reaction (hC : Consistent members H) (h : r.Faithful members H m)
    (hh : ∀ {src packet}, heard src packet → H.Sent members src m packet)
    (hr : Reaction heard r o) :
    o.replica.Trusts members (H.write m ((H m).note r o)) := by
  have hH := Diaries.extend_write (h.continues hC hh hr).extend
  have vote {v : NodeId} {vote : HeldVote} (hv : heard v vote.packet) :
      (H v).votes[vote.round]? = some vote.proof := hC.honest (hh hv).recorded
  have own {p : Proof} (hp : o.replica.ballot = some p) :
      (H.write m ((H m).note r o) r.localId).votes[o.replica.rounds]? = some p := by
    rw [h.seat.localId, Diaries.write_self]
    exact (h.tracks_reaction hr).voted hp
  cases hr with
  | store hp _ ho hf hs =>
      refine Trusts.insert (h.trusts.mono hH) ((hH _).sealed.subset ?_) fun q => ?_
      · have he := hC.honest (hh hp).recorded
        rw [← ho] at he
        have hw := hC.own he
        rw [hw] at he
        rw [hw]
        exact he
      · exact Std.ExtTreeSet.contains_empty
  | noteAck hp _ _ _ =>
      refine Trusts.noteAck (h.trusts.mono hH) (Diary.Knows.mono (Or.inr ⟨m, ?_⟩) (hH _))
      exact (hh hp).recorded
  | announceOwn he ho _ hq =>
      exact Trusts.announce (h.trusts.mono hH) ((h.everywhere he ho hq).2.mono hH)
  | announceHeard hp _ _ _ =>
      have ha := hC.honest (hh hp).recorded
      exact Trusts.announce (h.trusts.mono hH) (ha.2.mono hH)
  | @hold voter v hv _ _ =>
      obtain ⟨held, hq, hi⟩ := hold_eq r voter v
      rw [hq] at hH ⊢
      refine Trusts.withHeld (h.trusts.mono hH) fun hu => ?_
      rcases hi with rfl | rfl
      · exact Or.inl hu
      · rw [getElem?_insert_eq] at hu
        split at hu
        · rename_i he
          subst he
          rw [← Option.some.inj hu]
          exact Or.inr ((hH _).getElem?_votes (vote hv))
        · exact Or.inl hu
  | count hv _ hj =>
      refine Trusts.countBallot (h.trusts.mono hH) ((hH _).getElem?_votes ?_)
      rw [← (judge_count hj).1]
      exact vote hv
  | release hv hj =>
      refine (Trusts.countBallot (h.trusts.mono hH) ((hH _).getElem?_votes ?_)).erase_held _
      rw [← (judge_count hj).1]
      exact h.trusts.held hv
  | discard _ _ => exact (h.trusts.mono hH).erase_held _
  | dropStale =>
      exact (h.trusts.mono hH).withHeld fun hu => Or.inl (getElem?_filter_eq_some.mp hu).1
  | cast _ _ _ _ => exact Trusts.cast (h.trusts.mono hH) (own rfl)
  | commit _ _ _ _ =>
      refine { h.trusts.mono hH with ballots := fun hb => ?_ }
      simp at hb
  | ready hq _ =>
      refine { h.trusts.mono hH with ready := fun hu => ?_ }
      rcases contains_insert_iff.mp hu with rfl | hu
      · exact Nat.lt_of_lt_of_le (hC.honest (hh hq).recorded) (hH _).committed.length_le
      · exact (h.trusts.mono hH).ready hu
  | @close p hc hr =>
      -- the member has committed in this round itself, and the others said that they are ready
      refine Trusts.close (h.trusts.mono hH) (h.seat.counted.rounds_close p) fun q hq => ?_
      by_cases hqm : q = m
      · subst hqm
        rw [Diaries.write_self, note_silent (Or.inr rfl), h.tracks.length_of_decided hc]
        exact Nat.lt_succ_self _
      · exact (h.trusts.mono hH).ready (h.seat.all_ready hr hq hqm)
  | schedule _ _ =>
      obtain ⟨electing, quiet, hs⟩ := scheduleElection_eq r
      rw [hs] at hH ⊢
      exact { h.trusts.mono hH with }
  | absorb _ => exact { h.trusts.mono hH with }
  | acknowledge _ _ _ _ => exact h.trusts.mono hH

/-- A reaction leaves the diaries consistent and the state true to them. -/
theorem Faithful.reaction (hC : Consistent members H) (h : r.Faithful members H m)
    (hh : ∀ {src packet}, heard src packet → H.Sent members src m packet)
    (hr : Reaction heard r o) :
    Consistent members (H.write m ((H m).note r o)) ∧
      o.replica.Faithful members (H.write m ((H m).note r o)) m := by
  refine ⟨hC.write h.seat.member (h.continues hC hh hr), ?_⟩
  refine ⟨h.seat.reaction hr, h.wellFormed.reaction hr, ?_, h.trusts_reaction hC hh hr⟩
  rw [Diaries.write_self]
  exact h.tracks_reaction hr

end Replica

end ShardGossip

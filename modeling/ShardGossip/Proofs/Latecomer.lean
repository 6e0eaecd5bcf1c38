import ShardGossip.Proofs.Integrity

/-!
# ShardGossip.Proofs.Latecomer

**What a peer that joins late is told, and in which rounds that can still win.** It gets the
announced events with the first round in which it takes part. From then on the member commits
nothing in an earlier round, with one exception: while a round that the peer sits out is undecided,
the winner of that round may be among the events that the peer was given (`committed_after_sync`).
The invariant is the first undecided round (`openRound`): it never goes down, and every commit moves
it up. All this is about numbers of rounds, so it ends where they begin anew.
-/

namespace ShardGossip

namespace Replica

variable {r r' : Replica} {l : NodeId} {s : ShardId} {heard : NodeId → Packet → Prop}

/-! ### The first undecided round -/

/-- The first round that the member has not decided: the one in progress, or the one after it. What
the member commits next, it commits in this round or a later one. -/
def openRound (r : Replica) : Nat :=
  if r.chosen.isSome then r.rounds + 1 else r.rounds

theorem openRound_of_undecided (h : r.chosen = none) : r.openRound = r.rounds := by
  rw [openRound, h]
  rfl

theorem openRound_of_decided (h : r.chosen.isSome) : r.openRound = r.rounds + 1 := by
  rw [openRound, if_pos h]

theorem rounds_le_openRound (r : Replica) : r.rounds ≤ r.openRound := by
  unfold openRound
  split <;> omega

/-- Rounds are left only for later ones, and a decided round stays decided until it is left. -/
def Onward (r r' : Replica) : Prop :=
  r.SameRound r' ∧ (r.chosen.isSome → r'.chosen.isSome) ∨ r.Before r'

theorem onward_of_eq
    (h : (r'.rounds, r'.laps, r'.chosen) = (r.rounds, r.laps, r.chosen)) : r.Onward r' := by
  simp only [Prod.mk.injEq] at h
  obtain ⟨hr, hl, hc⟩ := h
  exact .inl ⟨⟨hr, hl⟩, fun hs => hc ▸ hs⟩

theorem Onward.laps_le (h : r.Onward r') : r.laps ≤ r'.laps :=
  h.elim (fun h => Nat.le_of_eq h.1.2.symm) Before.laps_le

theorem onward_fastForward (r : Replica) (round : Nat) : r.Onward (r.fastForward round) := by
  rcases r.fastForward_cases round with he | ⟨hr, ⟨chosen, -, he⟩ | ⟨-, he⟩⟩ <;> rw [he]
  · exact onward_of_eq rfl
  · exact .inr (.inr ⟨rfl, hr⟩)
  · exact .inr (.inr ⟨rfl, hr⟩)

theorem onward_reaction {o : Outcome} (h : Reaction heard r o) : r.Onward o.replica := by
  cases h with
  | @hold voter vote _ _ _ =>
      obtain ⟨held, hh, -⟩ := r.hold_eq voter vote
      rw [hh]
      exact onward_of_eq rfl
  | commit _ _ _ _ => exact .inl ⟨⟨rfl, rfl⟩, fun _ => rfl⟩
  | close _ _ => exact .inr (r.before_close _)
  | schedule _ _ =>
      obtain ⟨electing, quiet, hs⟩ := r.scheduleElection_eq
      rw [hs]
      exact onward_of_eq rfl
  | _ => exact onward_of_eq rfl

theorem onward_reconfiguration {o : Outcome} (h : Reconfiguration r o) : r.Onward o.replica := by
  cases h with
  | jump round => exact r.onward_fastForward round
  | _ => exact onward_of_eq rfl

theorem onward_change {o : Outcome} (h : Change heard r o) : r.Onward o.replica := by
  cases h with
  | settled hr => exact onward_reaction hr
  | reconfiguration hu => exact onward_reconfiguration hu

theorem Onward.rounds_le (h : r.Onward r') (hl : r'.laps = r.laps) : r.rounds ≤ r'.rounds :=
  h.elim (fun h => Nat.le_of_eq h.1.1.symm) fun h => Nat.le_of_lt (h.rounds_lt hl)

theorem Onward.rounds_lt (h : r.Onward r') (hl : r'.laps = r.laps) (hs : r.chosen.isSome)
    (hn : r'.chosen = none) : r.rounds < r'.rounds := by
  rcases h with ⟨-, h⟩ | h
  · exact absurd (h hs) (by simp [hn])
  · exact h.rounds_lt hl

theorem laps_le_changes {o : Outcome} (h : Steps (Change heard) r o) : r.laps ≤ o.replica.laps :=
  h.keep (P := fun r' => r.laps ≤ r'.laps)
    (fun hr hc => Nat.le_trans hr (onward_change hc).laps_le) (Nat.le_refl _)

/-- The first undecided round never goes down while the numbers do not begin anew. A commit is for
that round, and moves it up. -/
theorem openRound_change {o : Outcome} (hw : r.WellFormed) (h : Change heard r o)
    (hl : o.replica.laps = r.laps) :
    r.openRound + o.effects.committed.length ≤ o.replica.openRound := by
  have ho := onward_change h
  have hle := ho.rounds_le hl
  cases Bookkeeping.change hw h with
  | none he hc _ =>
      unfold openRound
      rw [he, hc]
      split
      · exact Nat.succ_le_succ hle
      · exact hle
  | commit hc _ he hn _ =>
      rw [openRound_of_undecided hc, openRound_of_decided (by rw [hn]; rfl), he]
      exact Nat.succ_le_succ hle
  | close hc he hn _ =>
      have hs : r.chosen.isSome := by rw [hc]; rfl
      rw [openRound_of_decided hs, openRound_of_undecided hn, he]
      exact ho.rounds_lt hl hs hn

theorem openRound_changes {o : Outcome} (hw : r.WellFormed) (h : Steps (Change heard) r o)
    (hl : o.replica.laps = r.laps) :
    r.openRound + o.effects.committed.length ≤ o.replica.openRound := by
  induction h with
  | done r => exact Nat.le_refl _
  | @step _ o _ hc hs ih =>
      have hle := (onward_change hc).laps_le
      have hle' := laps_le_changes hs
      change _ = _ at hl
      have hl₁ : o.replica.laps = _ := Nat.le_antisymm (Nat.le_trans hle' (Nat.le_of_eq hl)) hle
      rw [Effects.committed_append, List.length_append, ← Nat.add_assoc]
      exact Nat.le_trans (Nat.add_le_add_right (openRound_change hw hc hl₁) _)
        (ih (hw.change hc) (hl.trans hl₁.symm))

theorem laps_le_serve (hw : r.WellFormed) {input : Input} (hq : r.sealsFresh (.serve input)) :
    r.laps ≤ (r.serve input).replica.laps := by
  rcases hw.answer_cases hq nofun nofun with hs | ⟨event, signer, -, hs⟩
  · exact laps_le_changes hs
  · show (r.enqueue event signer).laps ≤ _
    exact laps_le_changes hs

theorem openRound_serve (hw : r.WellFormed) {input : Input} (hq : r.sealsFresh (.serve input))
    (hl : (r.serve input).replica.laps = r.laps) :
    r.openRound + (r.serve input).effects.committed.length ≤
      (r.serve input).replica.openRound := by
  rcases hw.answer_cases hq nofun nofun with hs | ⟨event, signer, hf, hs⟩
  · exact openRound_changes hw hs hl
  · show (r.enqueue event signer).openRound + _ ≤ _
    exact openRound_changes (hw.enqueue signer hf) hs hl

/-! ### What follows -/

/-- What may become of a member that goes on: each event that it commits, with the round it commits
it in. What is asked for is arbitrary, and so are the packets; sealing, as before, makes no proof
that is remembered as committed. -/
inductive Later (r : Replica) : List (Event × Nat) → Replica → Prop where
  | now : Later r [] r
  /-- One more thing was asked for. Each commit takes the first round that is undecided by then. -/
  | serve {log : List (Event × Nat)} {r' : Replica} {i : Input} :
      Later r log r' → r'.sealsFresh (.serve i) →
      Later r (log ++ (r'.serve i).effects.committed.zipIdx r'.openRound) (r'.serve i).replica

/-- The log so far: rounds go up, from the first that was undecided to the one before the first that
is undecided now. -/
structure Rounds (start : Nat) (log : List (Event × Nat)) (r : Replica) : Prop where
  wellFormed : r.WellFormed
  le : start ≤ r.openRound
  sorted : (log.map (·.2)).Pairwise (· < ·)
  within : ∀ entry ∈ log, start ≤ entry.2 ∧ entry.2 < r.openRound

theorem Rounds.serve {start : Nat} {log : List (Event × Nat)} (h : Rounds start log r)
    {input : Input} (hq : r.sealsFresh (.serve input))
    (hl : (r.serve input).replica.laps = r.laps) :
    Rounds start (log ++ (r.serve input).effects.committed.zipIdx r.openRound)
      (r.serve input).replica := by
  have hle := openRound_serve h.wellFormed hq hl
  have hnew : ∀ entry ∈ (r.serve input).effects.committed.zipIdx r.openRound,
      r.openRound ≤ entry.2 ∧ entry.2 < (r.serve input).replica.openRound := by
    rintro ⟨event, round⟩ he
    have hr := List.mem_zipIdx he
    exact ⟨hr.1, Nat.lt_of_lt_of_le hr.2.1 hle⟩
  refine ⟨h.wellFormed.answer hq, ?_, ?_, ?_⟩
  · exact Nat.le_trans h.le (Nat.le_trans (Nat.le_add_right _ _) hle)
  · rw [List.map_append, List.pairwise_append, List.zipIdx_map_snd]
    refine ⟨h.sorted, List.pairwise_lt_range', fun round hr next hn => ?_⟩
    obtain ⟨entry, he, rfl⟩ := List.mem_map.mp hr
    exact Nat.lt_of_lt_of_le (h.within entry he).2 (List.mem_range'_1.mp hn).1
  · intro entry he
    rcases List.mem_append.mp he with he | he
    · have hw := h.within entry he
      exact ⟨hw.1, by omega⟩
    · exact ⟨Nat.le_trans h.le (hnew entry he).1, (hnew entry he).2⟩

theorem wellFormed_of_later {log : List (Event × Nat)} (hw : r.WellFormed) (h : Later r log r') :
    r'.WellFormed ∧ r.laps ≤ r'.laps := by
  induction h with
  | now => exact ⟨hw, Nat.le_refl _⟩
  | serve _ hq ih => exact ⟨ih.1.answer hq, Nat.le_trans ih.2 (laps_le_serve ih.1 hq)⟩

theorem rounds_of_later {log : List (Event × Nat)} (hw : r.WellFormed) (h : Later r log r')
    (hl : r'.laps = r.laps) : Rounds r.openRound log r' := by
  induction h with
  | now => exact ⟨hw, Nat.le_refl _, List.Pairwise.nil, nofun⟩
  | serve hs hq ih =>
      obtain ⟨hw', hle⟩ := wellFormed_of_later hw hs
      have hmid := Nat.le_antisymm (Nat.le_trans (laps_le_serve hw' hq) (Nat.le_of_eq hl)) hle
      exact (ih hmid).serve hq (hl.trans hmid.symm)

/-! ### Bringing a late peer up to date -/

/-- The first round that a peer takes part in. -/
def firstRoundOf (r : Replica) (peer : NodeId) : Nat :=
  if r.sittingOut.contains peer then r.nextRound else r.rounds

/-- The pending events that may still be voted for. -/
def Votable (r : Replica) (p : Proof) : Prop :=
  r.store.contains p ∧ r.announced.contains p ∧ r.finalized.contains p = false ∧ r.chosen ≠ some p

theorem WellFormed.votable (h : r.WellFormed) {e : Event}
    (he : e ∈ r.queueForWire.filter fun e => r.announced.contains e.proof) :
    r.Votable e.proof := by
  obtain ⟨hq, ha⟩ := List.mem_filter.mp he
  obtain ⟨e', hp, rfl⟩ := List.mem_map.mp hq
  obtain ⟨hp, hc⟩ := List.mem_filter.mp hp
  have hs : r.store.contains e'.proof :=
    EventStore.contains_of_get? (h.store.mem_pendingEvents.mp hp)
  exact ⟨hs, ha, h.fresh hs, of_decide_eq_true hc⟩

theorem takeSyncFor_eq {peer : NodeId} (h : (r.takeSyncFor peer).1 ≠ []) :
    (r.takeSyncFor peer).2 = { r with lateJoiners := r.lateJoiners.erase peer } ∧
      ∃ vote, (r.takeSyncFor peer).1 = .overwriteEvents (r.firstRoundOf peer)
        (r.queueForWire.filter fun e => r.announced.contains e.proof) :: vote := by
  unfold takeSyncFor at h ⊢
  split
  · rename_i hl
    rw [if_pos hl] at h
    exact absurd rfl h
  · exact ⟨rfl, _, rfl⟩

theorem firstRoundOf_le (r : Replica) (peer : NodeId) : r.firstRoundOf peer ≤ r.openRound + 1 := by
  have hle := r.rounds_le_openRound
  unfold firstRoundOf
  split
  · exact Nat.le_trans r.nextRound_le (Nat.succ_le_succ hle)
  · exact Nat.le_succ_of_le hle

/-- Whoever sits out a decided round takes part in the next, and that is the first undecided. -/
theorem firstRoundOf_le_openRound {peer : NodeId}
    (h : r.sittingOut.contains peer = false ∨ r.chosen.isSome) :
    r.firstRoundOf peer ≤ r.openRound := by
  unfold firstRoundOf
  split
  · rename_i hs
    rw [openRound_of_decided (h.resolve_left (by simp [hs]))]
    exact r.nextRound_le
  · exact r.rounds_le_openRound

/-- All commits but the first are after the first undecided round. -/
theorem Rounds.lt_of_mem_tail {start : Nat} {log : List (Event × Nat)} (h : Rounds start log r)
    {entry : Event × Nat} (he : entry ∈ log.tail) : start < entry.2 := by
  cases log with
  | nil => cases he
  | cons first later =>
      have hs := h.sorted
      rw [List.map_cons, List.pairwise_cons] at hs
      have hf := (h.within first List.mem_cons_self).1
      exact Nat.lt_of_le_of_lt hf (hs.1 entry.2 (List.mem_map.mpr ⟨entry, he, rfl⟩))

/-- **What a late peer is given can still win in its rounds.** Take a member in any state that it
can get into, and suppose it tells a peer to take part from a round on, with the given events. All
of them are pending, announced and not committed. Whatever the member is asked for from then on, and
whatever packets it gets, as long as the numbers of the rounds do not begin anew: it commits in ever
later rounds, and, unless the peer sits out a round that is not decided yet, in none before the
peer's first. With such a peer, that holds of all commits but the next. -/
theorem committed_after_sync (h : Reached l s r) {peer : NodeId} {round : Nat}
    {events : List Event} {rest : List Packet}
    (hs : (r.takeSyncFor peer).1 = .overwriteEvents round events :: rest) :
    (∀ e ∈ events, r.Votable e.proof) ∧
      ∀ log x, Later (r.takeSyncFor peer).2 log x → x.laps = r.laps →
        (log.map (·.2)).Pairwise (· < ·) ∧
        (r.sittingOut.contains peer = false ∨ r.chosen.isSome →
          ∀ entry ∈ log, round ≤ entry.2) ∧
        ∀ entry ∈ log.tail, round ≤ entry.2 := by
  have hw := wellFormed_of_reached h
  obtain ⟨hr, vote, hv⟩ := takeSyncFor_eq (by rw [hs]; nofun)
  obtain ⟨⟨rfl, rfl⟩, -⟩ := List.cons.inj (hs.symm.trans hv)
  rw [hr]
  refine ⟨fun e he => hw.votable he, fun log x hl hlaps => ?_⟩
  -- that the peer has been told changes nothing about the rounds
  have hr := rounds_of_later (hw.reconfiguration (.synced peer)) hl hlaps
  change Rounds r.openRound log x at hr
  refine ⟨hr.sorted, fun hp entry he => ?_, fun entry he => ?_⟩
  · exact Nat.le_trans (firstRoundOf_le_openRound hp) (hr.within entry he).1
  · exact Nat.le_trans (r.firstRoundOf_le peer) (hr.lt_of_mem_tail he)

/-- A member with two events, one of which it has committed with its peer when another one joins.
The joiner is given the other event, and that is committed in the joiner's first round. -/
theorem committed_after_sync_decided :
    ∃ r events rest log x, Reached ⟨"a"⟩ ⟨0⟩ r ∧ r.chosen = some "5-a" ∧
      (r.takeSyncFor ⟨"c"⟩).1 = .overwriteEvents 1 events :: rest ∧
      events.map (·.proof) = ["6-a"] ∧ Later (r.takeSyncFor ⟨"c"⟩).2 log x ∧
      x.laps = r.laps ∧ log.map (fun entry => (entry.1.proof, entry.2)) = [("6-a", 1)] ∧
      (∀ e ∈ events, r.Votable e.proof) ∧ ∀ entry ∈ log, 1 ≤ entry.2 := by
  have h₁ := Reached.fresh (l := ⟨"a"⟩) (s := ⟨0⟩)
  have h₂ := h₁.answer (q := .serve (.setMembers [⟨"a"⟩, ⟨"b"⟩])) rfl
  have h₃ := h₂.answer (q := .serve (.submit ⟨"x", [1], none⟩)) rfl
  have h₄ := h₃.answer (q := .serve (.sealEvent 5 (.labelled ⟨"a"⟩))) (by decide +kernel)
  have h₅ := h₄.answer (q := .serve (.packet ⟨"b"⟩ (.ack "5-a") (.labelled ⟨"a"⟩))) rfl
  have h₆ := h₅.answer (q := .serve (.submit ⟨"x", [2], none⟩)) rfl
  have h₇ := h₆.answer (q := .serve (.sealEvent 6 (.labelled ⟨"a"⟩))) (by decide +kernel)
  have h₈ := h₇.answer (q := .serve (.packet ⟨"b"⟩ (.ack "6-a") (.labelled ⟨"a"⟩))) rfl
  have h₉ := h₈.answer (q := .serve .elect) rfl
  have hv := h₉.answer (q := .serve (.packet ⟨"b"⟩ (.vote 0 [] "5-a") (.labelled ⟨"a"⟩))) rfl
  have hj := hv.answer (q := .serve (.setMembers [⟨"a"⟩, ⟨"b"⟩, ⟨"c"⟩])) rfl
  obtain ⟨he, hl⟩ := committed_after_sync hj (show (Replica.takeSyncFor _ ⟨"c"⟩).1 =
    .overwriteEvents 1 [.sealed ⟨"a"⟩ 6 [⟨"x", [2], none⟩]] :: [] by decide +kernel)
  -- the round is closed, and all three members vote in the next
  have synced {r : Replica} (_ : Reached ⟨"a"⟩ ⟨0⟩ r) :
      Later (r.takeSyncFor ⟨"c"⟩).2 [] (r.takeSyncFor ⟨"c"⟩).2 := .now
  have l₁ := (synced hj).serve (i := .packet ⟨"b"⟩ (.electorReady 0) (.labelled ⟨"a"⟩)) rfl
  have l₂ := l₁.serve (i := .elect) rfl
  have l₃ := l₂.serve (i := .packet ⟨"b"⟩ (.vote 1 [] "6-a") (.labelled ⟨"a"⟩)) rfl
  have l₄ := l₃.serve (i := .packet ⟨"c"⟩ (.vote 1 [] "6-a") (.labelled ⟨"a"⟩)) rfl
  exact ⟨_, _, [], _, _, hj, by decide +kernel, by decide +kernel, rfl, l₄, by decide +kernel,
    by decide +kernel, he,
    (hl _ _ l₄ (by decide +kernel)).2.1 (.inr (by decide +kernel))⟩

/-- A peer joins while the others have an event announced but have not voted yet. It is given that
event as one to vote for in round 1, and the others commit it in round 0. -/
theorem committed_before_first_round :
    ∃ r events rest log x, Reached ⟨"a"⟩ ⟨0⟩ r ∧
      (r.takeSyncFor ⟨"c"⟩).1 = .overwriteEvents 1 events :: rest ∧
      Later (r.takeSyncFor ⟨"c"⟩).2 log x ∧
      ∃ e ∈ events, ∃ entry ∈ log, entry.1.proof = e.proof ∧ entry.2 < 1 := by
  have h₁ := Reached.fresh (l := ⟨"a"⟩) (s := ⟨0⟩)
  have h₂ := h₁.answer (q := .serve (.setMembers [⟨"a"⟩, ⟨"b"⟩])) rfl
  have h₃ := h₂.answer (q := .serve (.submit ⟨"x", [1], none⟩)) rfl
  have h₄ := h₃.answer (q := .serve (.sealEvent 5 (.labelled ⟨"a"⟩))) (by decide +kernel)
  have h₅ := h₄.answer (q := .serve (.packet ⟨"b"⟩ (.ack "5-a") (.labelled ⟨"a"⟩))) rfl
  have hj := h₅.answer (q := .serve (.setMembers [⟨"a"⟩, ⟨"b"⟩, ⟨"c"⟩])) rfl
  have synced {r : Replica} (_ : Reached ⟨"a"⟩ ⟨0⟩ r) :
      Later (r.takeSyncFor ⟨"c"⟩).2 [] (r.takeSyncFor ⟨"c"⟩).2 := .now
  have l₁ := (synced hj).serve (i := .elect) rfl
  have l₂ := l₁.serve (i := .packet ⟨"b"⟩ (.vote 0 [] "5-a") (.labelled ⟨"a"⟩)) rfl
  exact ⟨_, [.sealed ⟨"a"⟩ 5 [⟨"x", [1], none⟩]], [], _, _, hj, by decide +kernel, l₂,
    by decide +kernel⟩

end Replica

end ShardGossip

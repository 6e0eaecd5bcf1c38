import ShardGossip.Proofs.Quorum
import ShardGossip.Proofs.Continuity

/-!
# ShardGossip.Proofs.OncePerVote

**One vote, one commit and one round** (`OncePerVote`). Of the own vote come one commit and the end
of one round at most, and only an election casts another. So nothing that a member is asked for ends
two rounds, and unless it was in the last one, its numbers do not begin anew (`OncePerVote.laps`).
-/

namespace ShardGossip.Replica

variable {r r' : Replica} {o : Outcome}

/-! ### The count of the rounds -/

/-- The member's place in the count of the rounds. The place of the next round depends on nothing
else. -/
def count (r : Replica) : Nat × Nat × Bool :=
  (r.rounds, r.laps, r.jumped)

theorem rounds_of_count (h : r'.count = r.count) : r'.rounds = r.rounds :=
  congrArg Prod.fst h

theorem laps_of_count (h : r'.count = r.count) : r'.laps = r.laps :=
  congrArg (·.2.1) h

theorem count_advance (h : r'.count = r.count) : r'.advance.count = r.advance.count := by
  simp only [count, Prod.mk.injEq] at h
  obtain ⟨hr, hl, hj⟩ := h
  unfold count advance nextRound inLastRound
  dsimp only
  rw [hr, hl, hj]

theorem laps_advance (h : r.inLastRound = false) : r.advance.laps = r.laps :=
  if_neg (Bool.eq_false_iff.mp h)

/-! ### What may come of a vote -/

/-- How many events the member can commit before it votes again. -/
def commitsLeft (r : Replica) : Nat :=
  if r.ballot.isSome ∧ r.chosen = none then 1 else 0

/-- How many rounds the member can close before it votes again. -/
def closesLeft (r : Replica) : Nat :=
  if r.ballot.isSome ∨ r.chosen.isSome then 1 else 0

/-- No more is committed and closed than may come of the vote that was cast, and what has come of it
is not left to come. -/
structure OncePerVote (r : Replica) (o : Outcome) : Prop where
  commits : o.effects.committed.length + o.replica.commitsLeft ≤ r.commitsLeft
  closes : o.replica.count = r.count ∧ o.replica.closesLeft ≤ r.closesLeft ∨
    o.replica.count = r.advance.count ∧ o.replica.closesLeft < r.closesLeft

theorem commitsLeft_le_one (r : Replica) : r.commitsLeft ≤ 1 := by
  unfold commitsLeft
  split <;> decide

theorem closesLeft_le_one (r : Replica) : r.closesLeft ≤ 1 := by
  unfold closesLeft
  split <;> decide

theorem commitsLeft_eq_zero (hc : r.chosen = none) : r.commitsLeft = 0 ↔ r.ballot = none := by
  unfold commitsLeft
  cases r.ballot <;> simp [hc]

/-- How far the member has come. -/
def progress (r : Replica) : Option Proof × Option Proof × Nat × Nat × Bool :=
  (r.ballot, r.chosen, r.count)

namespace OncePerVote

theorem after (r' : Replica) (h : r'.progress = r.progress) (h' : OncePerVote r' o) :
    OncePerVote r o := by
  have hb : r'.ballot = r.ballot := congrArg Prod.fst h
  have hc : r'.chosen = r.chosen := congrArg (·.2.1) h
  have hn : r'.count = r.count := congrArg (·.2.2) h
  have hcommits : r'.commitsLeft = r.commitsLeft := by rw [commitsLeft, commitsLeft, hb, hc]
  have hcloses : r'.closesLeft = r.closesLeft := by rw [closesLeft, closesLeft, hb, hc]
  refine ⟨hcommits ▸ h'.commits, ?_⟩
  rw [← hcloses, ← hn, ← count_advance hn]
  exact h'.closes

theorem silent (h : r'.progress = r.progress) : OncePerVote r (.silent r') :=
  after _ h ⟨Nat.le_of_eq (Nat.zero_add _), .inl ⟨rfl, Nat.le_refl _⟩⟩

/-- Nothing is committed, and the member gets no further. -/
theorem idle (h : o.replica.progress = r.progress) (he : o.effects.committed = []) :
    OncePerVote r o :=
  after _ h ⟨by rw [he]; exact Nat.le_of_eq (Nat.zero_add _), .inl ⟨rfl, Nat.le_refl _⟩⟩

theorem trans {o' : Outcome} (h : OncePerVote r o) (h' : OncePerVote o.replica o') :
    OncePerVote r ⟨o'.replica, o.effects ++ o'.effects⟩ where
  commits := by
    have hs := Nat.add_le_add_left h'.commits o.effects.committed.length
    rw [Effects.committed_append, List.length_append, Nat.add_assoc]
    exact Nat.le_trans hs h.commits
  closes := by
    rcases h.closes with ⟨hn, hl⟩ | ⟨hn, hl⟩
    · rw [← hn, ← count_advance hn]
      exact h'.closes.imp (And.imp_right (Nat.le_trans · hl))
        (And.imp_right (Nat.lt_of_lt_of_le · hl))
    · -- there was one round to close, and it is closed
      have hone := closesLeft_le_one r
      have hsame := h'.closes.resolve_right fun hc => by omega
      exact .inr ⟨hsame.1.trans hn, Nat.lt_of_le_of_lt hsame.2 hl⟩

theorem andThen {next : Replica → Outcome} (h : OncePerVote r o)
    (h' : OncePerVote o.replica (next o.replica)) : OncePerVote r (o.andThen next) :=
  h.trans h'

theorem each {α : Type} {change : Replica → α → Outcome} (hc : ∀ r a, OncePerVote r (change r a))
    (h : OncePerVote r o) (as : List α) : OncePerVote r (o.each change as) := by
  induction as generalizing o with
  | nil => exact h
  | cons a rest ih => exact ih (h.andThen (hc _ a))

theorem sequel (h : Sequel r o) : OncePerVote r o := by
  cases h with
  | announceOwn _ _ _ _ => exact idle rfl (by dsimp only; split <;> split <;> rfl)
  | release _ _ => exact silent rfl
  | discard _ _ => exact silent rfl
  | dropStale => exact silent rfl
  | @commit winner hc hb _ _ =>
      refine ⟨?_, ?_⟩
      · -- the winner is committed if it is stored, and no other event can be
        have hone : ((r.store.get? winner).elim ∅ Effects.commit ++
            if r.isAlone then ∅ else Effects.broadcast (.electorReady r.rounds)).committed.length
              ≤ 1 := by
          cases r.store.get? winner with
          | none => split <;> exact Nat.zero_le 1
          | some event => split <;> exact Nat.le_refl 1
        simpa [commitsLeft, hc, hb] using hone
      · exact .inl ⟨rfl, by simp [closesLeft, hb]⟩
  | @close chosen hc _ =>
      refine ⟨Nat.zero_le _, .inr ⟨count_advance rfl, ?_⟩⟩
      simp [closesLeft, hc, advance, closeRound, clearRound]
  | schedule _ _ =>
      obtain ⟨electing, quiet, hs⟩ := scheduleElection_eq r
      rw [hs]
      exact idle rfl (by dsimp only; split <;> rfl)

theorem sequels (h : Steps Sequel r o) : OncePerVote r o := by
  induction h with
  | done r => exact silent rfl
  | step hr _ ih => exact (sequel hr).trans ih

/-- Whoever has not voted has nothing to commit, and does not vote by itself. -/
theorem unvoted (h : OncePerVote r o) (hc : r.chosen = none) (hb : r.ballot = none) :
    o.effects.committed = [] ∧ (o.replica.chosen = none → o.replica.ballot = none) := by
  have hle := h.commits
  rw [(commitsLeft_eq_zero hc).mpr hb] at hle
  refine ⟨List.eq_nil_of_length_eq_zero (by omega), fun hc' => ?_⟩
  exact (commitsLeft_eq_zero hc').mp (by omega)

/-- The numbers begin anew only after the last round. -/
theorem laps (h : OncePerVote r o) (hl : r.inLastRound = false) : o.replica.laps = r.laps := by
  rcases h.closes with ⟨hn, -⟩ | ⟨hn, -⟩
  · exact laps_of_count hn
  · exact (laps_of_count hn).trans (laps_advance hl)

end OncePerVote

/-! ### Adopting a queue -/

theorem oncePerVote_announce (r : Replica) (p : Proof) : OncePerVote r (r.announce p) := by
  obtain ⟨announced, electing, quiet, he⟩ := r.announce_eq p
  rw [he]
  exact .idle rfl (by dsimp only; split <;> rfl)

theorem oncePerVote_adopt (r : Replica) (events : List Event) (update : QueueUpdate)
    (signer : Signer) : OncePerVote r (r.adopt events update signer) := by
  refine OncePerVote.andThen (OncePerVote.andThen ?_ (.sequels (replayHeld_sequels _))) ?_
  · refine .each oncePerVote_announce (.silent ?_) _
    unfold storeForeign
    cases update <;> rfl
  · unfold ensureElection
    split
    · exact .silent rfl
    · exact .sequels (scheduleElection_sequels _)

theorem round_le_fastForward (r : Replica) (round : Nat) :
    round ≤ (r.fastForward round).rounds := by
  unfold fastForward
  split
  · assumption
  · exact Nat.le_refl round

theorem fastForward_of_le {round : Nat} (h : round ≤ r.rounds) : r.fastForward round = r :=
  if_pos h

/-- A jump leaves neither a vote nor a winner behind. -/
theorem fastForward_of_lt {round : Nat} (h : r.rounds < round) :
    (r.fastForward round).rounds = round ∧ (r.fastForward round).closesLeft = 0 := by
  rcases r.fastForward_cases round with he | ⟨-, ⟨chosen, -, he⟩ | ⟨hc, he⟩⟩
  · exact absurd (he ▸ r.round_le_fastForward round) (Nat.not_le_of_lt h)
  · rw [he]
    exact ⟨rfl, rfl⟩
  · rw [he]
    exact ⟨rfl, if_neg (by simp [clearRound, hc])⟩

/-- After a queue was adopted, the member is no earlier than the round that it is from. -/
theorem round_le_overwriteEvents (h : r.inLastRound = false) (round : Nat) (events : List Event)
    (signer : Signer) : round ≤ (r.overwriteEvents round events signer).replica.rounds := by
  have hf := oncePerVote_adopt (r.fastForward round) events .append signer
  rcases Nat.lt_or_ge r.rounds round with hr | hr
  · -- after a jump, there is no round to close
    obtain ⟨hn, hc⟩ := fastForward_of_lt hr
    have hsame := hf.closes.resolve_right fun hc' => by omega
    exact Nat.le_of_eq (hn.symm.trans (rounds_of_count hsame.1).symm)
  · unfold overwriteEvents
    rw [fastForward_of_le hr] at hf ⊢
    have hl := hf.laps h
    rcases (goesOn_adopt r events .append signer).round with ⟨hs, -⟩ | ⟨hb, -⟩
    · exact Nat.le_trans hr (Nat.le_of_eq hs.1.symm)
    · exact Nat.le_trans hr (Nat.le_of_lt (hb.rounds_lt hl))

end ShardGossip.Replica

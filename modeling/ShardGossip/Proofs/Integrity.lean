import ShardGossip.Proofs.CommitOnce

/-!
# ShardGossip.Proofs.Integrity

**The fields of a member's state always fit together**, whatever it is asked for, whatever packets
it gets, and whatever of its pending work is taken away when shards are restructured (`integrity`).
The invariant is `Replica.WellFormed`; every request keeps it, since it is a sequence of changes or
takes pending work out of the state. What it is good for is the count: ballots are for pending
events only, so the winner is always at hand, and no round is decided without its event being
committed (`Honours`).
-/

namespace ShardGossip

namespace Replica

/-! ### What a member can be asked for, restructuring included -/

/-- Something that a member is asked for, or that is taken from it when its shard is
restructured. -/
inductive Request where
  | serve (input : Input)
  /-- To adopt the queue of another member. -/
  | overwrite (round : Nat) (events : List Event) (signer : Signer)
  /-- To hand over the responses among the pending transactions. -/
  | takeResponses
  /-- To hand over all pending events. -/
  | takePending

/-- What the member does. -/
def answer (r : Replica) : Request → Outcome
  | .serve input => r.serve input
  | .overwrite round events signer => r.overwriteEvents round events signer
  | .takeResponses => .silent r.takeResponses.2
  | .takePending => .silent r.takePendingEvents.2

/-- Whether sealing makes no proof that is remembered as committed. -/
def sealsFresh (r : Replica) : Request → Bool
  | .serve (.sealEvent now _) =>
    (r.nextEvent? now).all fun event => !r.finalized.contains event.proof
  | _ => true

/-- The states that a member can get into. The only condition is on sealing: what is sealed is not
remembered as committed, which a proof that was never seen before cannot be. -/
inductive Reached (l : NodeId) (s : ShardId) : Replica → Prop where
  | fresh : Reached l s (fresh l s)
  /-- One more thing was asked for. -/
  | answer {r : Replica} {q : Request} :
      Reached l s r → r.sealsFresh q → Reached l s (r.answer q).replica

variable {r : Replica} {l : NodeId} {s : ShardId}

/-! ### Winners are committed -/

/-- The winners that a change decides are the events that it commits: all that was decided is either
closed, and then remembered, or the winner of the round in progress. -/
def Honours (r : Replica) (o : Outcome) : Prop :=
  ∃ closed : List Proof,
    r.chosen.toList ++ o.effects.committed.map (·.proof) = closed ++ o.replica.chosen.toList ∧
      o.replica.finalized = closed.foldl RecentProofs.remember r.finalized

theorem honours_silent {r' : Replica} (hc : r'.chosen = r.chosen)
    (hf : r'.finalized = r.finalized) : r.Honours (.silent r') :=
  ⟨[], by simp [hc], hf⟩

theorem Honours.trans {o o' : Outcome} (h : r.Honours o) (h' : o.replica.Honours o') :
    r.Honours ⟨o'.replica, o.effects ++ o'.effects⟩ := by
  obtain ⟨closed, hl, hf⟩ := h
  obtain ⟨closed', hl', hf'⟩ := h'
  refine ⟨closed ++ closed', ?_, ?_⟩
  · rw [Effects.committed_append, List.map_append, ← List.append_assoc, hl, List.append_assoc, hl',
      List.append_assoc]
  · rw [hf', hf, List.foldl_append]

theorem Bookkeeping.honours {o : Outcome} (h : Bookkeeping r o) : r.Honours o := by
  cases h with
  | none he hc hf => exact ⟨[], by simp [he, hc], hf⟩
  | commit hc _ he hw hf => exact ⟨[], by simp [he, hc, hw], hf⟩
  | close hc he hn hf => exact ⟨[_], by simp [he, hc, hn], hf⟩

theorem WellFormed.honours {heard : NodeId → Packet → Prop} {o : Outcome} (hw : r.WellFormed)
    (hs : Steps (Change heard) r o) : r.Honours o := by
  induction hs with
  | done r => exact honours_silent rfl rfl
  | step hc _ ih => exact (Bookkeeping.change hw hc).honours.trans (ih (hw.change hc))

/-! ### Taking work away -/

theorem contains_takeResponses (r : Replica) (p : Proof) :
    r.takeResponses.2.store.contains p = r.store.contains p :=
  EventStore.contains_foldl_update ..

theorem store_takeResponses (hs : r.store.WellFormed) : r.takeResponses.2.store.WellFormed := by
  have hp (_ : Proof) (e : Event) : e.withoutResponses.proof = e.proof := rfl
  exact hs.foldl_update hp _

theorem WellFormed.takeResponses (h : r.WellFormed) : r.takeResponses.2.WellFormed := by
  have hc := r.contains_takeResponses
  exact h.withStore (store_takeResponses h.store) (fun hp => (hc _).trans hp)
    fun hp => h.fresh ((hc _).symm.trans hp)

theorem WellFormed.takePendingEvents (h : r.WellFormed) : r.takePendingEvents.2.WellFormed where
  store := EventStore.wellFormed_empty
  self := h.self
  announced ha := by simp [Replica.takePendingEvents] at ha
  ballots hb := by simp [Replica.takePendingEvents] at hb
  voted hv := by simp [Replica.takePendingEvents] at hv
  decided hd := by simp [Replica.takePendingEvents] at hd
  fresh hp := absurd hp (by simp [Replica.takePendingEvents, EventStore.drain,
    show EventStore.empty = ∅ from rfl])
  held hv := by simp [Replica.takePendingEvents] at hv
  ready hv := by simp [Replica.takePendingEvents] at hv
  lateJoiners := h.lateJoiners
  sittingOut hv := by simp [Replica.takePendingEvents] at hv

/-! ### Every request -/

/-- Apart from taking work away, what a member is asked for is a sequence of changes, after a new
event was stored if it is to seal. -/
theorem WellFormed.answer_cases (hw : r.WellFormed) {q : Request} (hq : r.sealsFresh q)
    (hr : q ≠ .takeResponses) (hp : q ≠ .takePending) :
    Steps (Change fun _ _ => True) r (r.answer q) ∨
      ∃ event signer, r.finalized.contains event.proof = false ∧
        Steps (Change fun _ _ => True) (r.enqueue event signer) (r.answer q) := by
  cases q with
  | serve input =>
      refine hw.serve_cases ?_
      rintro now signer event rfl he
      simpa [sealsFresh, he] using hq
  | overwrite round events signer =>
      exact .inl (r.overwriteEvents_steps round events signer)
  | takeResponses => exact absurd rfl hr
  | takePending => exact absurd rfl hp

theorem WellFormed.answer (hw : r.WellFormed) {q : Request} (hq : r.sealsFresh q) :
    (r.answer q).replica.WellFormed := by
  by_cases hr : q = .takeResponses
  · exact hr ▸ hw.takeResponses
  by_cases hp : q = .takePending
  · exact hp ▸ hw.takePendingEvents
  rcases hw.answer_cases hq hr hp with hs | ⟨event, signer, hf, hs⟩
  · exact hs.keep (P := WellFormed) WellFormed.change hw
  · exact hs.keep (P := WellFormed) WellFormed.change (hw.enqueue signer hf)

theorem wellFormed_of_reached (h : Reached l s r) : r.WellFormed := by
  induction h with
  | fresh => exact wellFormed_fresh l s
  | answer _ hq ih => exact ih.answer hq

theorem WellFormed.honours_answer (hw : r.WellFormed) {q : Request} (hq : r.sealsFresh q)
    (hp : q ≠ .takePending) : r.Honours (r.answer q) := by
  by_cases hr : q = .takeResponses
  · subst hr
    exact honours_silent rfl rfl
  rcases hw.answer_cases hq hr hp with hs | ⟨event, signer, hf, hs⟩
  · exact hw.honours hs
  · exact (hw.enqueue signer hf).honours hs

/-- **The fields fit together, and winners are at hand.** Whatever a member was asked for, and
whatever of its pending work was taken away: its state is well-formed. So whoever wins the ballots
that it has is pending, and whatever it is asked for next, it decides no round without committing
the event that has won. -/
theorem integrity (h : Reached l s r) :
    r.WellFormed ∧ r.store.isConsistent ∧
      (∀ winner, tally (r.ballots.filter fun voter _ => r.isElector voter) = some winner →
        r.store.contains winner) ∧
      ∀ q, r.sealsFresh q → q ≠ .takePending → r.Honours (r.answer q) := by
  have hw := wellFormed_of_reached h
  refine ⟨hw, hw.store.isConsistent, fun winner ht => ?_, fun q hq hp => hw.honours_answer hq hp⟩
  obtain ⟨event, he, -⟩ := exists_winner_event hw ht
  exact EventStore.contains_of_get? he

/-- A member that has decided a round with its peer, has adopted another event from its queue since,
and has handed over the response in its own. -/
theorem integrity_of_decided :
    ∃ r, Reached ⟨"a"⟩ ⟨0⟩ r ∧ r.chosen = some "5-a" ∧ r.store.queue = ["5-a", "4-b"] ∧
      r.WellFormed ∧ r.store.isConsistent ∧
      r.Honours (r.answer (.serve (.packet ⟨"b"⟩ (.electorReady 0) (.labelled ⟨"a"⟩)))) := by
  have h₁ := Reached.fresh (l := ⟨"a"⟩) (s := ⟨0⟩)
  have h₂ := h₁.answer (q := .serve (.setMembers [⟨"a"⟩, ⟨"b"⟩])) rfl
  have h₃ := h₂.answer (q := .serve (.submit ⟨"response", [1], none⟩)) rfl
  have h₄ := h₃.answer (q := .serve (.sealEvent 5 (.labelled ⟨"a"⟩))) (by decide +kernel)
  have h₅ := h₄.answer (q := .serve (.packet ⟨"b"⟩ (.ack "5-a") (.labelled ⟨"a"⟩))) rfl
  have h₆ := h₅.answer (q := .serve .elect) rfl
  have h₇ := h₆.answer (q := .serve (.packet ⟨"b"⟩ (.vote 0 [] "5-a") (.labelled ⟨"a"⟩))) rfl
  have h₈ := h₇.answer (q := .overwrite 0 [.sealed ⟨"b"⟩ 4 []] (.labelled ⟨"a"⟩)) rfl
  have h₉ := h₈.answer (q := .takeResponses) rfl
  obtain ⟨hw, hc, -, hq⟩ := integrity h₉
  exact ⟨_, h₉, by decide +kernel, by decide +kernel, hw, hc, hq _ rfl nofun⟩

end Replica

end ShardGossip

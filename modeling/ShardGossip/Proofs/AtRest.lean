import ShardGossip.Proofs.Sealing

/-!
# ShardGossip.Proofs.AtRest

**A member never stops half-way.** Whenever a member has done what it was asked for, it is at rest:
a decided round waits for somebody to be ready, an undecided one for somebody's ballot, an own event
for somebody's acknowledgement, no held-back ballot could be let in, and whatever may be voted for
has an election coming (`AtRest`). Each of these is a test that the handlers make at a certain
point; here it is shown that no handler forgets one (`onPacket_rest`, `runElection_rest`,
`sealEvent_rest`).
-/

namespace ShardGossip.Replica

/-! ### Being at rest -/

/-- A decided round waits for somebody. -/
def Closing (r : Replica) : Prop :=
  r.chosen.isSome → r.allReady = false

/-- After the own vote, an undecided round waits for somebody. -/
def Counting (r : Replica) : Prop :=
  r.ballot.isSome → r.chosen = none → r.allVoted = false

/-- Nobody else's held-back ballot could be let in. -/
def Releasing (others : List NodeId) (r : Replica) : Prop :=
  ∀ ⦃v : NodeId⦄ ⦃vote : HeldVote⦄, r.held[v]? = some vote → vote.round = r.rounds →
    r.store.contains vote.proof → v ∈ others

/-- An own event that is not announced lacks an acknowledgement. -/
def Announcing (r : Replica) : Prop :=
  ∀ ⦃p e⦄, r.store.get? p = some e → e.origin = r.localId → r.announced.contains p = false →
    ∃ peer, r.peers.contains peer ∧ e.backedResponses.contains peer = false

/-- The same, apart from the events with these proofs. -/
def AnnouncingBut (proofs : List Proof) (r : Replica) : Prop :=
  ∀ ⦃p e⦄, p ∉ proofs → r.store.get? p = some e → e.origin = r.localId →
    r.announced.contains p = false →
    ∃ peer, r.peers.contains peer ∧ e.backedResponses.contains peer = false

/-- Between rounds, an election is coming if there is anything to vote for. -/
def Awake (woken : Bool) (r : Replica) : Prop :=
  r.ballot = none → (r.electing → woken) ∧ ∀ ⦃p⦄, r.announced.contains p → r.electing

/-- There is nothing that the member could do by itself, other than with the ballots of some. -/
structure AtRest (others : List NodeId) (woken : Bool) (r : Replica) : Prop where
  /-- It is not for the member to close the round. -/
  closing : r.Closing
  /-- It is not for the member to count the ballots. -/
  counting : r.Counting
  releasing : r.Releasing others
  announcing : r.Announcing
  awake : r.Awake woken

theorem Awake.mono {w w' : Bool} {r : Replica} (h : r.Awake w) (hw : w → w') : r.Awake w' :=
  fun hb => ⟨fun he => hw ((h hb).1 he), (h hb).2⟩

theorem AtRest.mono {others : List NodeId} {w w' : Bool} {r : Replica} (h : r.AtRest others w)
    (hw : w → w') : r.AtRest others w' :=
  { h with awake := h.awake.mono hw }

theorem Awake.or {w : Bool} {r : Replica} (h : r.Awake w) (w' : Bool) : r.Awake (w || w') :=
  h.mono fun hw => Bool.or_eq_true_iff.mpr (.inl hw)

theorem AtRest.or {others : List NodeId} {w : Bool} {r : Replica} (h : r.AtRest others w)
    (w' : Bool) : r.AtRest others (w || w') :=
  { h with awake := h.awake.or w' }

/-- Whoever has something to vote for, and is not to be woken, has voted. -/
theorem AtRest.voted {others : List NodeId} {w : Bool} {r : Replica} (h : r.AtRest others w)
    (hw : w = false) {p : Proof} (hp : r.announced.contains p) : r.ballot ≠ none := by
  intro hb
  obtain ⟨hwake, hbusy⟩ := h.awake hb
  rw [hwake (hbusy hp)] at hw
  cases hw

theorem Releasing.mono {l l' : List NodeId} {r : Replica} (h : r.Releasing l) (hl : l ⊆ l') :
    r.Releasing l' :=
  fun _ _ hv hr hs => hl (h hv hr hs)

/-- Only the origins and the acknowledgements of the pending events count. -/
theorem Announcing.withStore {r : Replica} (h : r.Announcing) {store : EventStore}
    (hs : ∀ p, (store.get? p).map (fun e => (e.origin, e.backedResponses)) =
      (r.store.get? p).map fun e => (e.origin, e.backedResponses)) :
    ({ r with store := store } : Replica).Announcing := by
  intro p e he hl hn
  have hp := hs p
  rw [show store.get? p = some e from he, Option.map_some] at hp
  obtain ⟨e', he', heq⟩ := Option.map_eq_some_iff.mp hp.symm
  obtain ⟨horigin, hback⟩ := Prod.mk.inj heq
  rw [← hback]
  exact h he' (horigin.trans hl) hn

/-! ### Recording ballots -/

/-- Only ballots were recorded: the pending events are the same up to signatures. -/
def OnlyBallots (r r' : Replica) : Prop :=
  ∃ store ballots held, r' = { r with store := store, ballots := ballots, held := held } ∧
    ∀ p, (store.get? p).map (fun e => (e.origin, e.backedResponses)) =
      (r.store.get? p).map fun e => (e.origin, e.backedResponses)

namespace OnlyBallots

variable {r r' r'' : Replica}

theorem refl (r : Replica) : r.OnlyBallots r :=
  ⟨r.store, r.ballots, r.held, rfl, fun _ => rfl⟩

theorem trans (h : r.OnlyBallots r') (h' : r'.OnlyBallots r'') : r.OnlyBallots r'' := by
  obtain ⟨s, b, e, rfl, ho⟩ := h
  obtain ⟨s', b', e', rfl, ho'⟩ := h'
  exact ⟨s', b', e', rfl, fun p => (ho' p).trans (ho p)⟩

theorem contains (h : r.OnlyBallots r') (p : Proof) :
    r'.store.contains p = r.store.contains p := by
  obtain ⟨s, b, e, rfl, ho⟩ := h
  have hp := congrArg Option.isSome (ho p)
  rw [Option.isSome_map, Option.isSome_map] at hp
  rw [EventStore.contains_eq_isSome, EventStore.contains_eq_isSome]
  exact hp

theorem rounds (h : r.OnlyBallots r') : r'.rounds = r.rounds := by
  obtain ⟨s, b, e, rfl, -⟩ := h
  rfl

theorem closing (h : r.OnlyBallots r') (hc : r.Closing) : r'.Closing := by
  obtain ⟨s, b, e, rfl, -⟩ := h
  exact hc

theorem announcing (h : r.OnlyBallots r') (ha : r.Announcing) : r'.Announcing := by
  obtain ⟨s, b, h', rfl, ho⟩ := h
  exact ha.withStore ho

theorem undecided (h : r.OnlyBallots r') (hb : r.ballot = none) (hc : r.chosen = none) :
    r'.ballot = none ∧ r'.chosen = none := by
  obtain ⟨s, b, e, rfl, -⟩ := h
  exact ⟨hb, hc⟩

theorem awake {w : Bool} (h : r.OnlyBallots r') (ha : r.Awake w) : r'.Awake w := by
  obtain ⟨s, b, e, rfl, -⟩ := h
  exact ha

end OnlyBallots

variable {r : Replica} {v : NodeId} {vote : HeldVote} {w : Bool} {others : List NodeId}

theorem onlyBallots_held (held : NodeMap HeldVote) :
    r.OnlyBallots { r with held := held } :=
  ⟨r.store, r.ballots, held, rfl, fun _ => rfl⟩

theorem onlyBallots_countBallot (r : Replica) (v : NodeId) (vote : HeldVote) :
    r.OnlyBallots (r.countBallot v vote) := by
  refine ⟨_, _, r.held, rfl, fun p => ?_⟩
  rw [EventStore.get?_update]
  split
  · rw [Option.map_map]
    rfl
  · rfl

theorem onlyBallots_record (r : Replica) (v : NodeId) (vote : HeldVote) :
    r.OnlyBallots (r.record v vote) := by
  unfold record
  split
  · exact .refl r
  · obtain ⟨held, hh, -⟩ := hold_eq r v vote
    rw [hh]
    exact onlyBallots_held held
  · exact onlyBallots_countBallot r v vote

/-- A ballot that is held back could not be let in. -/
theorem judge_hold (h : r.judge v vote = .hold) :
    vote.round = r.rounds → r.store.contains vote.proof = false := by
  unfold judge at h
  intro hr
  split at h
  · cases h
  · split at h
    · cases h
    · split at h
      · rename_i hh
        rcases hh with hlt | hs
        · exact absurd hr (Nat.ne_of_gt hlt)
        · rwa [Bool.not_eq_true'] at hs
      · split at h
        · cases h
        · split at h <;> cases h

theorem Releasing.hold (h : r.Releasing others) (hj : r.judge v vote = .hold) :
    (r.hold v vote).Releasing others := by
  obtain ⟨held, hh, hi⟩ := hold_eq r v vote
  rw [hh]
  rcases hi with rfl | rfl
  · exact h
  · intro u vote' hu hr hs
    rw [show (r.held.insert v vote)[u]? = _ from getElem?_insert_eq] at hu
    split at hu
    · obtain rfl := Option.some.inj hu
      have hn := judge_hold hj hr
      rw [show r.store.contains vote.proof = true from hs] at hn
      cases hn
    · exact h hu hr hs

/-- Taking a ballot out leaves those of the others. -/
theorem Releasing.erase (h : r.Releasing (v :: others)) :
    ({ r with held := r.held.erase v } : Replica).Releasing others := by
  intro u vote hu hr hs
  rw [show (r.held.erase v)[u]? = _ from getElem?_erase_eq] at hu
  split at hu
  · cases hu
  · rename_i hne
    exact (List.mem_cons.mp (h hu hr hs)).resolve_left (Ne.symm hne)

/-- Whoever has no ballot held back has none that could be let in. -/
theorem Releasing.of_none (h : r.Releasing (v :: others)) (hv : r.held[v]? = none) :
    r.Releasing others := by
  intro u vote hu hr hs
  rcases List.mem_cons.mp (h hu hr hs) with rfl | hm
  · rw [hv] at hu
    cases hu
  · exact hm

theorem Releasing.onlyBallots {r' : Replica} (h : r.Releasing others) (hb : r.OnlyBallots r')
    (hh : r'.held = r.held) : r'.Releasing others := by
  intro u vote hu hr hs
  rw [hh] at hu
  rw [hb.rounds] at hr
  rw [hb.contains] at hs
  exact h hu hr hs

theorem Releasing.record (h : r.Releasing others) (v : NodeId) (vote : HeldVote) :
    (r.record v vote).Releasing others := by
  unfold Replica.record
  split
  · exact h
  · rename_i hj
    exact h.hold hj
  · exact h.onlyBallots (onlyBallots_countBallot r v vote) rfl

theorem mem_releasable : v ∈ r.releasable ↔
    ∃ vote, r.held[v]? = some vote ∧ vote.round = r.rounds ∧ r.store.contains vote.proof := by
  unfold releasable
  rw [Std.ExtTreeMap.mem_keys, Std.ExtTreeMap.mem_iff_contains, contains_iff_getElem?]
  simp only [getElem?_filter_eq_some, Bool.and_eq_true, beq_iff_eq]

theorem releasing_dropStale (r : Replica) : r.dropStale.Releasing r.dropStale.releasable :=
  fun _ _ hv hr hs => mem_releasable.mpr ⟨_, hv, hr, hs⟩

theorem onlyBallots_release (r : Replica) (v : NodeId) : r.OnlyBallots (r.release v) := by
  unfold release
  split
  · exact (onlyBallots_held _).trans (onlyBallots_record _ v _)
  · exact .refl r

theorem Releasing.release (h : r.Releasing (v :: others)) : (r.release v).Releasing others := by
  unfold Replica.release
  split
  · exact h.erase.record v _
  · rename_i hv
    exact h.of_none hv

theorem releases_rest (voters : List NodeId) (h : r.Releasing voters) :
    r.OnlyBallots (voters.foldl Replica.release r) ∧
      (voters.foldl Replica.release r).Releasing [] := by
  induction voters generalizing r with
  | nil => exact ⟨.refl r, h⟩
  | cons v rest ih =>
      obtain ⟨hb, hr⟩ := ih h.release
      exact ⟨(onlyBallots_release r v).trans hb, hr⟩

/-- Afterwards no ballot could be let in. -/
theorem recordHeld_rest (r : Replica) :
    r.OnlyBallots r.recordHeld ∧ r.recordHeld.Releasing [] := by
  obtain ⟨hb, hr⟩ := releases_rest _ (releasing_dropStale r)
  exact ⟨(onlyBallots_held _).trans hb, hr⟩

/-! ### Closing, counting, letting in -/

theorem closing_of_waiting (h : r.chosen = none ∨ r.allReady = false) : r.Closing :=
  fun hc => h.resolve_left (Option.isSome_iff_ne_none.mp hc)

theorem closing_of_undecided (h : r.chosen = none) : r.Closing :=
  closing_of_waiting (.inl h)

theorem counting_of_decided (h : r.chosen.isSome) : r.Counting := by
  intro _ hc
  rw [hc] at h
  cases h

theorem counting_of_unvoted (h : r.ballot = none) : r.Counting := by
  intro hb
  rw [h] at hb
  cases hb

theorem counting_of_waiting (h : r.chosen.isSome ∨ r.ballot = none ∨ r.allVoted = false) :
    r.Counting := by
  rcases h with h | h | h
  · exact counting_of_decided h
  · exact counting_of_unvoted h
  · exact fun _ _ => h

theorem awake_of_voted (h : r.ballot.isSome) : r.Awake w := by
  intro hb
  rw [hb] at h
  cases h

theorem WellFormed.steps {o : Outcome} (h : r.WellFormed) (hs : Steps (Reaction silence) r o) :
    o.replica.WellFormed :=
  hs.keep (fun h hr => h.reaction hr) h

/-- Asking for an election leaves one coming if there is anything to vote for. -/
theorem scheduleElection_rest (hw : r.WellFormed) (hb : r.ballot = none) (hc : r.chosen = none)
    (hre : r.Releasing others) (han : r.Announcing) :
    r.scheduleElection.replica.AtRest others r.scheduleElection.effects.wake := by
  unfold scheduleElection
  rw [if_neg (by simp [hb, hc])]
  split
  · exact ⟨closing_of_undecided hc, counting_of_unvoted hb, hre, han,
      fun _ => ⟨fun _ => rfl, fun _ _ => rfl⟩⟩
  · rename_i hn
    refine ⟨closing_of_undecided hc, counting_of_unvoted hb, hre, han,
      fun _ => ⟨(nomatch ·), fun p hp => absurd ?_ hn⟩⟩
    unfold pendingElections
    exact List.countP_pos_iff.mpr ⟨p, hw.store.queued.mpr (hw.announced hp), hp⟩

theorem Announcing.closeRound (h : r.Announcing) (p : Proof) :
    (r.closeRound p).advance.Announcing := by
  intro q e he ho ha
  rw [show (r.closeRound p).advance.store.get? q = _ from
    EventStore.get?_remove ..] at he
  split at he
  · cases he
  · rename_i hne
    refine h he ho ?_
    rw [← Bool.not_eq_true]
    intro hq
    have hq' : (r.announced.erase p).contains q := contains_erase_iff.mpr ⟨hne, hq⟩
    rw [show (r.announced.erase p).contains q = false from ha] at hq'
    cases hq'

theorem tryClose_rest (hw : r.WellFormed) (hco : r.Counting) (hre : r.Releasing others)
    (han : r.Announcing) (haw : r.Awake w) :
    r.tryClose.replica.AtRest others (w || r.tryClose.effects.wake) := by
  rcases r.tryClose_cases with ⟨hwait, he⟩ | ⟨p, -, -, he⟩ <;> rw [he]
  · exact ⟨closing_of_waiting hwait, hco, hre, han, haw.or _⟩
  · -- the ballots that are let in here are not counted: the member has yet to vote
    obtain ⟨hb, hr⟩ := recordHeld_rest (r.closeRound p).advance
    have hw' : (r.closeRound p).advance.WellFormed :=
      { hw.closeRound p with }
    have hwr := hw'.steps (recordHeld_steps _)
    obtain ⟨hballot, hchosen⟩ := hb.undecided rfl rfl
    have hs := scheduleElection_rest hwr hballot hchosen (hr.mono (List.nil_subset others))
      (hb.announcing (han.closeRound p))
    exact hs.mono fun h => Bool.or_eq_true_iff.mpr (.inr h)

theorem tryTally_rest (hw : r.WellFormed) (hcl : r.Closing) (hre : r.Releasing others)
    (han : r.Announcing) (haw : r.Awake w) :
    r.tryTally.replica.AtRest others (w || r.tryTally.effects.wake) := by
  rcases r.tryTally_cases with ⟨hn, he⟩ | ⟨winner, hc, hb, hv, ht, he⟩
  · rw [he]
    exact ⟨hcl, counting_of_waiting hn, hre, han, haw.or _⟩
  · rw [he]
    -- with all ballots there is a winner, and the round may be closed at once
    have hw' := hw.steps (.single (.commit hc hb hv ht))
    refine (tryClose_rest (w := w) hw' (counting_of_decided rfl) hre han (awake_of_voted hb)).mono
      fun h => ?_
    rw [Outcome.effects_andThen, Effects.wake_append]
    rcases Bool.or_eq_true_iff.mp h with h | h
    · rw [h, Bool.true_or]
    · exact Bool.or_eq_true_iff.mpr (.inr (Bool.or_eq_true_iff.mpr (.inr h)))

/-! ### Ballots from others -/

theorem recordVote_rest (hw : r.WellFormed) (hv : r.peers.contains v) (h : r.AtRest others w) :
    (r.recordVote v vote).replica.AtRest others (w || (r.recordVote v vote).effects.wake) := by
  unfold recordVote
  split
  · exact h.or _
  · rename_i hj
    have hr := h.releasing.hold hj
    obtain ⟨held, hh, -⟩ := hold_eq r v vote
    rw [hh] at hr ⊢
    exact ⟨h.closing, h.counting, hr, h.announcing, h.awake.or _⟩
  · rename_i hj
    have hb := onlyBallots_countBallot r v vote
    exact tryTally_rest (hw.countBallot (judge_count hj).2.1 hv) (hb.closing h.closing)
      (h.releasing.onlyBallots hb rfl) (hb.announcing h.announcing) (hb.awake h.awake)

theorem replay_rest (hw : r.WellFormed) (h : r.AtRest (v :: others) w) :
    (r.replay v).replica.AtRest others (w || (r.replay v).effects.wake) := by
  unfold replay
  split
  · rename_i vote hv
    exact recordVote_rest (hw.erase_held v) (hw.held hv)
      ⟨h.closing, h.counting, h.releasing.erase, h.announcing, h.awake⟩
  · rename_i hv
    exact ⟨h.closing, h.counting, h.releasing.of_none hv, h.announcing, h.awake.or _⟩

/-- Letting ballots in one after the other leaves none of them. -/
theorem replays_rest (voters : List NodeId) {o : Outcome} (hw : o.replica.WellFormed)
    (h : o.replica.AtRest voters (w || o.effects.wake)) :
    (o.each replay voters).replica.AtRest [] (w || (o.each replay voters).effects.wake) := by
  induction voters generalizing o with
  | nil => exact h
  | cons voter rest ih =>
      have hr := replay_rest hw h
      have hw' := hw.steps (replay_steps o.replica voter)
      rw [Bool.or_assoc, ← Effects.wake_append] at hr
      exact ih (o := o.andThen (·.replay voter)) hw' hr

theorem replayHeld_rest (hw : r.WellFormed) (hcl : r.Closing) (hco : r.Counting)
    (han : r.Announcing) (haw : r.Awake w) :
    r.replayHeld.replica.AtRest [] (w || r.replayHeld.effects.wake) := by
  have hd : r.dropStale.WellFormed := hw.steps (.single .dropStale)
  exact replays_rest r.dropStale.releasable (o := .silent r.dropStale) hd
    ⟨hcl, hco, releasing_dropStale r, han, haw.or _⟩

/-! ### Own events -/

theorem Announcing.but (h : r.Announcing) (proofs : List Proof) : r.AnnouncingBut proofs :=
  fun _ _ _ => @h _ _

theorem AnnouncingBut.announcing (h : r.AnnouncingBut []) : r.Announcing :=
  fun _ _ => h List.not_mem_nil

theorem AnnouncingBut.insert {p : Proof} {rest : List Proof} (h : r.AnnouncingBut (p :: rest))
    (electing : Bool) : ({ r with announced := r.announced.insert p, electing := electing } :
      Replica).AnnouncingBut rest := by
  intro q e hq he ho ha
  rw [← Bool.not_eq_true, contains_insert_iff, not_or, Bool.not_eq_true] at ha
  exact h (fun hm => (List.mem_cons.mp hm).elim (fun he => ha.1 he.symm) hq) he ho ha.2

/-- Looking at an own event's quorum leaves it announced, or short of an acknowledgement. -/
theorem AnnouncingBut.checkAckQuorum {p : Proof} {rest : List Proof}
    (h : r.AnnouncingBut (p :: rest)) : (r.checkAckQuorum p).replica.AnnouncingBut rest := by
  rcases r.checkAckQuorum_cases p with ⟨he, hp⟩ | ⟨event, -, -, -, -, he⟩
  · rw [he]
    intro q e hq hg ho ha
    by_cases hqp : q = p
    · subst hqp
      exact hp e hg ho ha
    · exact h (fun hm => (List.mem_cons.mp hm).elim hqp hq) hg ho ha
  · rw [he]
    exact h.insert true

theorem Announcing.update (h : r.Announcing) (p : Proof) (change : Event → Event) :
    ({ r with store := r.store.update p change } : Replica).AnnouncingBut [p] := by
  intro q e hq he
  rw [List.mem_singleton] at hq
  rw [show EventStore.get? _ q = _ from EventStore.get?_update .., if_neg (Ne.symm hq)] at he
  exact h he

theorem Announcing.enqueue (h : r.Announcing) (event : Event) (signer : Signer) :
    (r.enqueue event signer).AnnouncingBut [event.proof] := by
  intro q e hq he
  rw [List.mem_singleton] at hq
  rw [show (r.enqueue event signer).store.get? q = _ from EventStore.get?_insert ..,
    if_neg fun hp => hq hp.2.symm] at he
  exact h he

theorem checkAckQuorum_rest {p : Proof} (hcl : r.Closing) (hco : r.Counting) (hre : r.Releasing [])
    (han : r.AnnouncingBut [p]) (haw : r.Awake w) :
    (r.checkAckQuorum p).replica.AtRest [] (w || (r.checkAckQuorum p).effects.wake) := by
  have hann := han.checkAckQuorum.announcing
  rcases r.checkAckQuorum_cases p with ⟨he, -⟩ | ⟨event, -, -, -, -, he⟩
  · rw [he] at hann ⊢
    exact ⟨hcl, hco, hre, hann, haw.or _⟩
  · rw [he] at hann ⊢
    refine ⟨hcl, hco, hre, hann, fun hb => ⟨fun _ => ?_, fun _ _ => rfl⟩⟩
    cases hel : r.electing with
    | true => exact Bool.or_eq_true_iff.mpr (.inl ((haw hb).1 hel))
    | false => simp [Effects.wakeUp]

/-! ### What a member is asked for -/

/-- Storing the event of another member leaves nothing of its own to announce. -/
theorem Announcing.insert (h : r.Announcing) {event : Event} (ho : event.origin ≠ r.localId) :
    ({ r with store := (r.store.insert event).2 } : Replica).Announcing := by
  intro p e he hl ha
  rw [show ({ r with store := (r.store.insert event).2 } : Replica).store.get? p = _ from
    EventStore.get?_insert ..] at he
  split at he
  · obtain rfl := Option.some.inj he
    exact absurd hl ho
  · exact h he hl ha

theorem onPropose_rest {sender : NodeId} {event : Event} {signer : Signer} {o : Outcome}
    (hw : r.WellFormed) (h : r.AtRest [] w) (hp : r.peers.contains sender)
    (ho : r.onPropose sender event signer = .ok o) :
    o.replica.AtRest [] (w || o.effects.wake) := by
  unfold onPropose at ho
  split at ho
  · cases ho
  · rename_i horigin
    cases ho
    split
    · exact replayHeld_rest hw h.closing h.counting h.announcing h.awake
    · rename_i hk
      rw [not_or, Bool.not_eq_true] at hk
      refine replayHeld_rest (hw.insert _ hk.1) h.closing h.counting (h.announcing.insert ?_)
        h.awake
      -- the sender is a peer, hence not the member itself
      intro hl
      rw [show (event.heldWith (signer.sign (Utf8.encode event.proof))).origin = sender from
        Decidable.not_not.mp horigin] at hl
      have hs := hw.self
      rw [← hl, hp] at hs
      cases hs

theorem onAck_rest {sender : NodeId} {p : Proof} {o : Outcome} (h : r.AtRest [] w)
    (ho : r.onAck sender p = .ok o) : o.replica.AtRest [] (w || o.effects.wake) := by
  have same : r.AtRest [] (w || (Outcome.silent r).effects.wake) :=
    h.or _
  unfold onAck at ho
  split at ho
  · cases ho
    exact same
  · split at ho
    · cases ho
    · split at ho
      · cases ho
      · cases ho
        refine checkAckQuorum_rest h.closing h.counting ?_ (h.announcing.update p _) h.awake
        intro u vote hu hr hs
        exact h.releasing hu hr ((EventStore.contains_update ..).symm.trans hs)

theorem onFinalize_rest {p : Proof} {o : Outcome} (h : r.AtRest [] w)
    (ho : r.onFinalize p = .ok o) : o.replica.AtRest [] (w || o.effects.wake) := by
  have same : r.AtRest [] (w || (Outcome.silent r).effects.wake) :=
    h.or _
  unfold onFinalize at ho
  split at ho
  · cases ho
    exact same
  · split at ho
    · cases ho
      by_cases ha : r.announced.contains p
      · rw [announce_of_contains ha]
        exact same
      · rw [Bool.not_eq_true] at ha
        rw [announce_of_new ha]
        refine ⟨h.closing, h.counting, h.releasing, ((h.announcing.but [p]).insert true).announcing,
          fun hb => ⟨fun _ => ?_, fun _ _ => rfl⟩⟩
        cases hel : r.electing with
        | true => exact Bool.or_eq_true_iff.mpr (.inl ((h.awake hb).1 hel))
        | false => simp [Effects.wakeUp]
    · cases ho

/-- Handling a packet leaves the member at rest. -/
theorem onPacket_rest {sender : NodeId} {packet : Packet} {signer : Signer} {o : Outcome}
    (hw : r.WellFormed) (h : r.AtRest [] w)
    (hq : ∀ round events, packet ≠ .overwriteEvents round events)
    (ho : r.onPacket sender packet signer = .ok o) :
    o.replica.AtRest [] (w || o.effects.wake) := by
  unfold onPacket at ho
  split at ho
  · cases ho
  · rename_i hp
    rw [Bool.not_eq_true', Bool.not_eq_false] at hp
    cases packet with
    | propose signature event => exact onPropose_rest hw h hp ho
    | ack p => exact onAck_rest h ho
    | finalize p => exact onFinalize_rest h ho
    | vote k signature p =>
        cases ho
        exact recordVote_rest hw hp h
    | electorReady k =>
        cases ho
        unfold onElectorReady
        split
        · have hw' := hw.reaction (.ready (hearing_self sender (.electorReady r.rounds)) hp)
          exact tryClose_rest hw' h.counting h.releasing h.announcing h.awake
        · exact h.or _
    | overwriteEvents round events => exact absurd rfl (hq round events)
    | appendTransactions transactions =>
        cases ho
        exact ⟨h.closing, h.counting, h.releasing, h.announcing, h.awake.or _⟩
    | hello node shard => cases ho
    | received => cases ho

/-- Running an election leaves the member at rest, with the request for it served. -/
theorem runElection_rest (hw : r.WellFormed) (h : r.AtRest [] w) :
    r.runElection.replica.AtRest [] r.runElection.effects.wake := by
  unfold runElection
  split
  · rename_i hn
    have hb : r.ballot.isSome := by
      rcases hn with hb | hc
      · exact hb
      · obtain ⟨p, hp⟩ := Option.isSome_iff_exists.mp hc
        exact (hw.decided hp).1
    exact { h with awake := awake_of_voted hb }
  · rename_i hn
    rw [not_or, Option.not_isSome_iff_eq_none, Option.not_isSome_iff_eq_none] at hn
    obtain ⟨hb, hc⟩ := hn
    split
    · rename_i hq
      refine ⟨h.closing, h.counting, h.releasing, h.announcing,
        fun _ => ⟨(nomatch ·), fun p hp => ?_⟩⟩
      exact absurd hp (List.find?_eq_none.mp hq p (hw.store.queued.mpr (hw.announced hp)))
    · rename_i p hq
      obtain ⟨event, he⟩ := EventStore.contains_iff.mp
        (hw.store.queued.mp (List.mem_of_find?_eq_some hq))
      simp only [he]
      have hob := onlyBallots_countBallot r r.localId ⟨r.rounds, event.signedUpdate, p⟩
      refine (tryTally_rest (w := false)
        (hw.cast event.signedUpdate (EventStore.contains_of_get? he)) (closing_of_undecided hc)
        (fun u vote hu hr hs => h.releasing hu hr ((hob.contains _).symm.trans hs))
        (hob.announcing h.announcing) (awake_of_voted rfl)).mono fun hwake => ?_
      rw [Outcome.effects_andThen, Effects.wake_append]
      exact Bool.or_eq_true_iff.mpr (.inr hwake)

/-- Sealing leaves the member at rest, if no ballot for the new event is held back. -/
theorem sealEvent_rest (h : r.AtRest [] w) {now : Nat} (signer : Signer)
    (hn : ∀ event, r.nextEvent? now = some event → ∀ {v : NodeId} {vote : HeldVote},
      r.held[v]? = some vote → vote.proof ≠ event.proof) :
    (r.sealEvent now signer).replica.AtRest [] (w || (r.sealEvent now signer).effects.wake) := by
  rw [sealEvent_eq]
  split
  · exact h.or _
  · rename_i event he
    have hs := checkAckQuorum_rest (r := r.enqueue event signer) (p := event.proof) (w := w)
      h.closing h.counting ?_ (h.announcing.enqueue event signer) h.awake
    · refine hs.mono fun hwake => ?_
      rw [Outcome.effects_andThen, Effects.wake_append]
      rcases Bool.or_eq_true_iff.mp hwake with hwake | hwake
      · rw [hwake, Bool.true_or]
      · exact Bool.or_eq_true_iff.mpr (.inr (Bool.or_eq_true_iff.mpr (.inr hwake)))
    · intro u vote hu hr hs
      rcases (EventStore.contains_insert ..).mp hs with hp | hs
      · exact absurd hp.symm (hn event he hu)
      · exact h.releasing hu hr hs

end ShardGossip.Replica

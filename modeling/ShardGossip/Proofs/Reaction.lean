import ShardGossip.Proofs.Store
import ShardGossip.Proofs.Tally
import ShardGossip.Replica.Receive

/-!
# ShardGossip.Proofs.Reaction

**What a member of a settled shard can do, step by step.** Handling a packet or running an election
may go through recording, counting, closing and letting held-back ballots in, one nested in the
other. `Reaction` lists the single changes these are made of, each with the condition under which it
is made and with its effects; `Steps` puts them one after the other. Everything that is handled in a
shard whose members do not change is such a sequence (`onPacket_reacts`, `runElection_steps`, …), so
a property of all of it is proved once for each constructor.

The relation carries `heard`, the packets that the member may be handling, with their senders: what
a reaction knows about other members it knows from there or from what is held back. Of all that one
packet leads to, only the first change looks at the packet itself (`ReactsOnce`). Recording,
counting and closing lead to nothing but changes that need no packet and cast no vote (`Sequel`).
-/

namespace ShardGossip

/-! ### Sequences of changes -/

/-- Changes of the kind `R`, one after the other, with their effects in order. -/
inductive Steps (R : Replica → Outcome → Prop) : Replica → Outcome → Prop where
  | done (r : Replica) : Steps R r (.silent r)
  | step {r : Replica} {o o' : Outcome} :
      R r o → Steps R o.replica o' → Steps R r ⟨o'.replica, o.effects ++ o'.effects⟩

namespace Steps

variable {R : Replica → Outcome → Prop} {r : Replica} {o o' : Outcome}

theorem single (h : R r o) : Steps R r o := by
  have hs := step h (done o.replica)
  rw [Outcome.effects_silent, Effects.append_empty] at hs
  exact hs

/-- A first change without effects. -/
theorem after {r' : Replica} (h : R r (.silent r')) (h' : Steps R r' o) : Steps R r o := by
  have hs := step h h'
  rw [Outcome.effects_silent, Effects.empty_append] at hs
  exact hs

theorem trans (h : Steps R r o) (h' : Steps R o.replica o') :
    Steps R r ⟨o'.replica, o.effects ++ o'.effects⟩ := by
  induction h with
  | done r => exact h'
  | step hr _ ih =>
      rw [Effects.append_assoc]
      exact step hr (ih h')

theorem andThen {next : Replica → Outcome} (h : Steps R r o)
    (h' : Steps R o.replica (next o.replica)) : Steps R r (o.andThen next) :=
  h.trans h'

/-- A change for each element, where `P` is what one change leaves to the next. -/
theorem each {α : Type} {change : Replica → α → Outcome} {P : Replica → Prop} {as : List α}
    (h : ∀ r, P r → ∀ a ∈ as, Steps R r (change r a) ∧ P (change r a).replica)
    (hs : Steps R r o) (hp : P o.replica) : Steps R r (o.each change as) := by
  induction as generalizing o with
  | nil => exact hs
  | cons a rest ih =>
      obtain ⟨ha, hp'⟩ := h o.replica hp a List.mem_cons_self
      exact ih (fun r hr b hb => h r hr b (List.mem_cons_of_mem _ hb)) (hs.andThen ha) hp'

theorem mono {R' : Replica → Outcome → Prop} (hsub : ∀ {r o}, R r o → R' r o)
    (h : Steps R r o) : Steps R' r o := by
  induction h with
  | done r => exact done r
  | step hr _ ih => exact step (hsub hr) ih

/-- What every change keeps, a sequence keeps. -/
theorem keep {P : Replica → Prop} (hstep : ∀ {r o}, P r → R r o → P o.replica)
    (h : Steps R r o) (hp : P r) : P o.replica := by
  induction h with
  | done r => exact hp
  | step hr _ ih => exact ih (hstep hp hr)

/-- The property may also speak of the events committed so far. -/
theorem keeps {P : List Event → Replica → Prop}
    (hstep : ∀ {log r o}, P log r → R r o → P (log ++ o.effects.committed) o.replica)
    (h : Steps R r o) {log : List Event} (hp : P log r) :
    P (log ++ o.effects.committed) o.replica := by
  induction h generalizing log with
  | done r =>
      rw [Outcome.effects_silent, Effects.committed_empty, List.append_nil]
      exact hp
  | step hr _ ih =>
      have hp' := ih (hstep hp hr)
      rwa [List.append_assoc] at hp'

end Steps

/-! ### Single changes -/

/-- The packet that a ballot came in. -/
def HeldVote.packet (vote : HeldVote) : Packet :=
  .vote vote.round vote.signature vote.proof

/-- A single change of a member's state in a shard whose members stay. -/
inductive Reaction (heard : NodeId → Packet → Prop) : Replica → Outcome → Prop where
  /-- A new proposal is stored and acknowledged. -/
  | store {r : Replica} {sender : NodeId} {signature own : Bytes} {event : Event} :
      heard sender (.propose signature event) → r.peers.contains sender →
      event.origin = sender → r.finalized.contains event.proof = false →
      r.store.contains event.proof = false →
      Reaction heard r
        ⟨{ r with store := (r.store.insert (event.heldWith own)).2 },
          .sendTo sender (.ack event.proof)⟩
  /-- A known proposal is acknowledged again. -/
  | acknowledge {r : Replica} {sender : NodeId} {signature : Bytes} {event : Event} :
      heard sender (.propose signature event) → r.peers.contains sender →
      event.origin = sender → r.finalized.contains event.proof ∨ r.store.contains event.proof →
      Reaction heard r ⟨r, .sendTo sender (.ack event.proof)⟩
  /-- An acknowledgement of an own event is recorded. -/
  | noteAck {r : Replica} {sender : NodeId} {proof : Proof} {event : Event} :
      heard sender (.ack proof) → r.peers.contains sender →
      r.store.get? proof = some event → event.origin = r.localId →
      Reaction heard r (.silent { r with store := r.store.update proof (·.recordAck sender) })
  /-- An own event that everyone acknowledged is announced. -/
  | announceOwn {r : Replica} {proof : Proof} {event : Event} :
      r.store.get? proof = some event → event.origin = r.localId →
      r.announced.contains proof = false →
      (∀ peer, r.peers.contains peer → event.backedResponses.contains peer) →
      Reaction heard r
        ⟨{ r with announced := r.announced.insert proof, electing := true },
          (if r.isAlone then ∅ else .broadcast (.finalize proof)) ++
            if r.electing then ∅ else .wakeUp⟩
  /-- The announcement of another member's event is taken over. -/
  | announceHeard {r : Replica} {sender : NodeId} {proof : Proof} :
      heard sender (.finalize proof) → r.peers.contains sender → r.store.contains proof →
      r.announced.contains proof = false →
      Reaction heard r
        ⟨{ r with announced := r.announced.insert proof, electing := true },
          if r.electing then ∅ else .wakeUp⟩
  | hold {r : Replica} {voter : NodeId} {vote : HeldVote} :
      heard voter vote.packet → r.peers.contains voter → r.judge voter vote = .hold →
      Reaction heard r (.silent (r.hold voter vote))
  | count {r : Replica} {voter : NodeId} {vote : HeldVote} :
      heard voter vote.packet → r.peers.contains voter → r.judge voter vote = .count →
      Reaction heard r (.silent (r.countBallot voter vote))
  /-- A ballot that was held back is counted. -/
  | release {r : Replica} {voter : NodeId} {vote : HeldVote} :
      r.held[voter]? = some vote → r.judge voter vote = .count →
      Reaction heard r (.silent { r.countBallot voter vote with held := r.held.erase voter })
  /-- A ballot that was held back has become pointless. -/
  | discard {r : Replica} {voter : NodeId} {vote : HeldVote} :
      r.held[voter]? = some vote → r.judge voter vote = .ignore →
      Reaction heard r (.silent { r with held := r.held.erase voter })
  /-- The ballots of past rounds are forgotten. -/
  | dropStale {r : Replica} : Reaction heard r (.silent r.dropStale)
  | cast {r : Replica} {proof : Proof} {event : Event} :
      r.ballot = none → r.chosen = none →
      r.store.queue.find? (r.announced.contains ·) = some proof →
      r.store.get? proof = some event →
      Reaction heard r
        ⟨{ r.countBallot r.localId ⟨r.rounds, event.signedUpdate, proof⟩ with
            ballot := some proof, electing := true },
          if r.isAlone then ∅ else .broadcast (.vote r.rounds event.signedUpdate proof)⟩
  /-- The ballots are counted, and the winner is committed. -/
  | commit {r : Replica} {winner : Proof} :
      r.chosen = none → r.ballot.isSome → r.allVoted →
      tally (r.ballots.filter fun voter _ => r.isElector voter) = some winner →
      Reaction heard r
        ⟨{ r with ballots := ∅, chosen := some winner },
          (r.store.get? winner).elim ∅ .commit ++
            if r.isAlone then ∅ else .broadcast (.electorReady r.rounds)⟩
  /-- A member is ready for the next round. -/
  | ready {r : Replica} {sender : NodeId} :
      heard sender (.electorReady r.rounds) → r.peers.contains sender →
      Reaction heard r (.silent { r with ready := r.ready.insert sender })
  | close {r : Replica} {chosen : Proof} :
      r.chosen = some chosen → r.allReady →
      Reaction heard r (.silent (r.closeRound chosen).advance)
  /-- An election is asked for, or called off. -/
  | schedule {r : Replica} :
      r.ballot = none → r.chosen = none → Reaction heard r r.scheduleElection
  | absorb {r : Replica} (transactions : List Transaction) :
      Reaction heard r (.silent (r.absorb transactions))

/-- A single change that needs no packet and casts no vote, so it may follow from any other. -/
inductive Sequel : Replica → Outcome → Prop where
  | announceOwn {r : Replica} {proof : Proof} {event : Event} :
      r.store.get? proof = some event → event.origin = r.localId →
      r.announced.contains proof = false →
      (∀ peer, r.peers.contains peer → event.backedResponses.contains peer) →
      Sequel r
        ⟨{ r with announced := r.announced.insert proof, electing := true },
          (if r.isAlone then ∅ else .broadcast (.finalize proof)) ++
            if r.electing then ∅ else .wakeUp⟩
  | release {r : Replica} {voter : NodeId} {vote : HeldVote} :
      r.held[voter]? = some vote → r.judge voter vote = .count →
      Sequel r (.silent { r.countBallot voter vote with held := r.held.erase voter })
  | discard {r : Replica} {voter : NodeId} {vote : HeldVote} :
      r.held[voter]? = some vote → r.judge voter vote = .ignore →
      Sequel r (.silent { r with held := r.held.erase voter })
  | dropStale {r : Replica} : Sequel r (.silent r.dropStale)
  | commit {r : Replica} {winner : Proof} :
      r.chosen = none → r.ballot.isSome → r.allVoted →
      tally (r.ballots.filter fun voter _ => r.isElector voter) = some winner →
      Sequel r
        ⟨{ r with ballots := ∅, chosen := some winner },
          (r.store.get? winner).elim ∅ .commit ++
            if r.isAlone then ∅ else .broadcast (.electorReady r.rounds)⟩
  | close {r : Replica} {chosen : Proof} :
      r.chosen = some chosen → r.allReady →
      Sequel r (.silent (r.closeRound chosen).advance)
  | schedule {r : Replica} :
      r.ballot = none → r.chosen = none → Sequel r r.scheduleElection

theorem Sequel.reaction {heard : NodeId → Packet → Prop} {r : Replica} {o : Outcome}
    (h : Sequel r o) : Reaction heard r o := by
  cases h with
  | announceOwn hs ho ha hq => exact .announceOwn hs ho ha hq
  | release hv hj => exact .release hv hj
  | discard hv hj => exact .discard hv hj
  | dropStale => exact .dropStale
  | commit hc hb hv hw => exact .commit hc hb hv hw
  | close hc hr => exact .close hc hr
  | schedule hb hc => exact .schedule hb hc

/-- Nothing is heard. -/
def silence : NodeId → Packet → Prop :=
  fun _ _ => False

/-- Only one packet is heard. -/
def hearing (src : NodeId) (packet : Packet) : NodeId → Packet → Prop :=
  fun s p => s = src ∧ p = packet

theorem hearing_self (src : NodeId) (packet : Packet) : hearing src packet src packet :=
  ⟨rfl, rfl⟩

/-- At most the first change is made on account of what is heard; all others would be made in
silence as well. -/
def ReactsOnce (heard : NodeId → Packet → Prop) (r : Replica) (o : Outcome) : Prop :=
  ∃ o₁ o₂, (o₁ = .silent r ∨ Reaction heard r o₁) ∧
    (∀ heard', Steps (Reaction heard') o₁.replica o₂) ∧ o = ⟨o₂.replica, o₁.effects ++ o₂.effects⟩

namespace ReactsOnce

variable {heard : NodeId → Packet → Prop} {r r' : Replica} {o o' : Outcome}

theorem of_steps (h : ∀ heard', Steps (Reaction heard') r o) : ReactsOnce heard r o :=
  ⟨.silent r, o, Or.inl rfl, h, rfl⟩

theorem none (r : Replica) : ReactsOnce heard r (.silent r) :=
  of_steps fun _ => .done r

theorem andThen {next : Replica → Outcome} (h : Reaction heard r o)
    (h' : ∀ heard', Steps (Reaction heard') o.replica (next o.replica)) :
    ReactsOnce heard r (o.andThen next) :=
  ⟨o, _, Or.inr h, h', rfl⟩

/-- A first change without effects. -/
theorem after (h : Reaction heard r (.silent r')) (h' : ∀ heard', Steps (Reaction heard') r' o) :
    ReactsOnce heard r o :=
  ⟨_, o, Or.inr h, h', rfl⟩

theorem single (h : Reaction heard r o) : ReactsOnce heard r o :=
  ⟨o, .silent o.replica, Or.inr h, fun _ => .done _, by
    rw [Outcome.effects_silent, Effects.append_empty]
    rfl⟩

theorem steps (h : ReactsOnce heard r o) : Steps (Reaction heard) r o := by
  obtain ⟨o₁, o₂, rfl | h, h', rfl⟩ := h
  · exact h' heard
  · exact .step h (h' heard)

end ReactsOnce

namespace Replica

variable {heard : NodeId → Packet → Prop}

/-- What each change keeps, all of them keep. -/
theorem keep_each {α : Type} {P : Replica → Prop} {change : Replica → α → Outcome}
    (hc : ∀ {r : Replica}, P r → ∀ a, P (change r a).replica) (as : List α) {o : Outcome}
    (h : P o.replica) : P (o.each change as).replica := by
  induction as generalizing o with
  | nil => exact h
  | cons a rest ih => exact ih (o := o.andThen fun r => change r a) (hc h a)

theorem mem_toList_iff {s : NodeSet} {id : NodeId} : id ∈ s.toList ↔ s.contains id := by
  rw [Std.ExtTreeSet.mem_toList, Std.ExtTreeSet.mem_iff_contains]

theorem mem_electors {r : Replica} {id : NodeId} :
    id ∈ r.electors ↔ r.peers.contains id ∧ r.sittingOut.contains id = false := by
  rw [electors, List.mem_filter, mem_toList_iff, Bool.not_eq_true']

/-! ### Announcing -/

theorem announce_of_contains {r : Replica} {proof : Proof} (h : r.announced.contains proof) :
    r.announce proof = .silent r := by
  unfold announce
  rw [if_pos h]

theorem announce_of_new {r : Replica} {proof : Proof} (h : r.announced.contains proof = false) :
    r.announce proof =
      ⟨{ r with announced := r.announced.insert proof, electing := true },
        if r.electing then ∅ else .wakeUp⟩ := by
  unfold announce
  rw [if_neg (by simp [h])]
  dsimp only
  split
  · rename_i he
    rw [he]
    rfl
  · rfl

/-- Announcing leaves everything else as it is. -/
theorem announce_eq (r : Replica) (proof : Proof) :
    ∃ (announced : Std.ExtTreeSet Proof) (electing quiet : Bool), r.announce proof =
      ⟨{ r with announced := announced, electing := electing }, if quiet then ∅ else .wakeUp⟩ := by
  by_cases ha : r.announced.contains proof
  · exact ⟨r.announced, r.electing, true, announce_of_contains ha⟩
  · exact ⟨_, true, r.electing, announce_of_new (Bool.eq_false_iff.mpr ha)⟩

/-- A look at the quorum of an own event announces it, or finds it short of an acknowledgement. -/
theorem checkAckQuorum_cases (r : Replica) (proof : Proof) :
    r.checkAckQuorum proof = .silent r ∧
      (∀ event, r.store.get? proof = some event → event.origin = r.localId →
        r.announced.contains proof = false →
        ∃ peer, r.peers.contains peer ∧ event.backedResponses.contains peer = false) ∨
    ∃ event, r.store.get? proof = some event ∧ event.origin = r.localId ∧
      r.announced.contains proof = false ∧
      (∀ peer, r.peers.contains peer → event.backedResponses.contains peer) ∧
      r.checkAckQuorum proof =
        ⟨{ r with announced := r.announced.insert proof, electing := true },
          (if r.isAlone then ∅ else .broadcast (.finalize proof)) ++
            if r.electing then ∅ else .wakeUp⟩ := by
  unfold checkAckQuorum
  split
  · rename_i hn
    exact .inl ⟨rfl, fun event he => nomatch hn.symm.trans he⟩
  · rename_i event he
    split
    · rename_i hn
      refine .inl ⟨rfl, fun event' he' ho ha => ?_⟩
      obtain rfl := Option.some.inj (he.symm.trans he')
      exact (hn.elim (· ho) fun hn => Bool.eq_false_iff.mp ha hn).elim
    · rename_i hn
      rw [not_or, Decidable.not_not, Bool.not_eq_true] at hn
      split
      · rename_i hq
        rw [List.all_eq_true] at hq
        refine .inr ⟨event, he, hn.1, hn.2, fun peer hp => hq peer (mem_toList_iff.mpr hp), ?_⟩
        simp only [Outcome.tellAll, Outcome.andThen, Outcome.silent, announce_of_new hn.2,
          Effects.empty_append]
        rfl
      · rename_i hq
        refine .inl ⟨rfl, fun event' he' _ _ => ?_⟩
        obtain rfl := Option.some.inj (he.symm.trans he')
        rw [Bool.not_eq_true, List.all_eq_false] at hq
        obtain ⟨peer, hp, hn⟩ := hq
        exact ⟨peer, mem_toList_iff.mp hp, Bool.eq_false_iff.mpr hn⟩

theorem checkAckQuorum_sequels (r : Replica) (proof : Proof) :
    Steps Sequel r (r.checkAckQuorum proof) := by
  rcases r.checkAckQuorum_cases proof with ⟨he, -⟩ | ⟨event, hs, ho, ha, hq, he⟩
  · rw [he]
    exact .done r
  · rw [he]
    exact .single (.announceOwn hs ho ha hq)

/-! ### Recording, counting and closing -/

/-- Asking for an election leaves everything else as it is. -/
theorem scheduleElection_eq (r : Replica) :
    ∃ electing quiet : Bool, r.scheduleElection =
      ⟨{ r with electing := electing }, if quiet then ∅ else .wakeUp⟩ := by
  unfold scheduleElection
  split
  · exact ⟨r.electing, true, rfl⟩
  · split
    · exact ⟨true, false, rfl⟩
    · exact ⟨false, true, rfl⟩

/-- Holding a ballot back leaves everything else as it is. -/
theorem hold_eq (r : Replica) (voter : NodeId) (vote : HeldVote) :
    ∃ held : NodeMap HeldVote, r.hold voter vote = { r with held := held } ∧
      (held = r.held ∨ held = r.held.insert voter vote) := by
  unfold hold
  split
  · split
    · exact ⟨r.held, rfl, Or.inl rfl⟩
    · exact ⟨_, rfl, Or.inr rfl⟩
  · exact ⟨_, rfl, Or.inr rfl⟩

theorem scheduleElection_sequels (r : Replica) : Steps Sequel r r.scheduleElection := by
  by_cases h : r.ballot.isSome ∨ r.chosen.isSome
  · unfold scheduleElection
    rw [if_pos h]
    exact .done r
  · rw [not_or, Option.not_isSome_iff_eq_none, Option.not_isSome_iff_eq_none] at h
    exact .single (.schedule h.1 h.2)

/-- Taking a ballot out and holding it back again changes nothing. -/
theorem hold_erase {r : Replica} {voter : NodeId} {vote : HeldVote}
    (h : r.held[voter]? = some vote) :
    ({ r with held := r.held.erase voter } : Replica).hold voter vote = r := by
  have hi : (r.held.erase voter).insert voter vote = r.held := by
    apply Std.ExtTreeMap.ext_getElem?
    intro v
    rw [getElem?_insert_eq, getElem?_erase_eq]
    split
    · rename_i hv
      exact hv ▸ h.symm
    · rfl
  unfold hold
  rw [Std.ExtTreeMap.getElem?_erase_self]
  dsimp only
  rw [hi]

theorem record_held_sequels {r : Replica} {voter : NodeId} {vote : HeldVote}
    (h : r.held[voter]? = some vote) :
    Steps Sequel r
      (.silent ({ r with held := r.held.erase voter }.record voter vote)) := by
  have hj : ({ r with held := r.held.erase voter } : Replica).judge voter vote =
    r.judge voter vote := rfl
  unfold record
  rw [hj]
  cases hv : r.judge voter vote with
  | ignore => exact .single (.discard h hv)
  | hold =>
      -- it goes back to where it was
      dsimp only
      rw [hold_erase h]
      exact .done r
  | count => exact .single (.release h hv)

theorem release_sequels (r : Replica) (voter : NodeId) :
    Steps Sequel r (.silent (r.release voter)) := by
  unfold release
  split
  · rename_i vote hv
    exact record_held_sequels hv
  · exact .done r

theorem releases_sequels (voters : List NodeId) (r : Replica) :
    Steps Sequel r (.silent (voters.foldl release r)) := by
  induction voters generalizing r with
  | nil => exact .done r
  | cons voter rest ih => exact (release_sequels r voter).trans (ih _)

theorem recordHeld_sequels (r : Replica) : Steps Sequel r (.silent r.recordHeld) :=
  Steps.after .dropStale (releases_sequels _ _)

theorem tryClose_of_waiting {r : Replica} (h : r.chosen = none ∨ r.allReady = false) :
    r.tryClose = .silent r := by
  unfold tryClose
  split
  · rfl
  · rename_i chosen hc
    rw [if_neg]
    rw [hc] at h
    exact Bool.eq_false_iff.mp (h.resolve_left (Option.some_ne_none chosen))

theorem tryClose_of_ready {r : Replica} {chosen : Proof} (hc : r.chosen = some chosen)
    (hr : r.allReady) :
    r.tryClose =
      (r.closeRound chosen).advance.recordHeld.scheduleElection := by
  unfold tryClose
  rw [hc]
  exact if_pos hr

/-- A round waits for its decision or for somebody to be ready, or it is over. -/
theorem tryClose_cases (r : Replica) :
    (r.chosen = none ∨ r.allReady = false) ∧ r.tryClose = .silent r ∨
    ∃ chosen, r.chosen = some chosen ∧ r.allReady ∧ r.tryClose =
      (r.closeRound chosen).advance.recordHeld.scheduleElection := by
  by_cases h : r.chosen = none ∨ r.allReady = false
  · exact .inl ⟨h, tryClose_of_waiting h⟩
  · rw [not_or, Bool.not_eq_false] at h
    obtain ⟨chosen, hc⟩ := Option.ne_none_iff_exists'.mp h.1
    exact .inr ⟨chosen, hc, h.2, tryClose_of_ready hc h.2⟩

theorem tryClose_sequels (r : Replica) : Steps Sequel r r.tryClose := by
  rcases r.tryClose_cases with ⟨-, he⟩ | ⟨chosen, hc, hr, he⟩
  · rw [he]
    exact .done r
  · rw [he]
    exact Steps.after (.close hc hr) ((recordHeld_sequels _).trans (scheduleElection_sequels _))

/-- When everyone has voted there is a winner, for the own ballot is among those that count. -/
theorem exists_winner {r : Replica} (h : r.allVoted) :
    ∃ winner, tally (r.ballots.filter fun voter _ => r.isElector voter) = some winner := by
  unfold allVoted at h
  rw [Bool.and_eq_true, contains_iff_getElem?] at h
  obtain ⟨⟨p, hp⟩, -⟩ := h
  exact exists_tally_of_ballot (v := r.localId) (p := p)
    (getElem?_filter_eq_some.mpr ⟨hp, by simp [isElector]⟩)

theorem tryTally_of_waiting {r : Replica}
    (h : r.chosen.isSome ∨ r.ballot = none ∨ r.allVoted = false) : r.tryTally = .silent r := by
  rw [← Option.isNone_iff_eq_none, ← Bool.not_eq_true'] at h
  exact if_pos h

theorem tryTally_of_winner {r : Replica} {winner : Proof} (hc : r.chosen = none)
    (hb : r.ballot.isSome) (hv : r.allVoted)
    (hw : tally (r.ballots.filter fun voter _ => r.isElector voter) = some winner) :
    r.tryTally = (({ r with ballots := ∅ } : Replica).commit winner).andThen tryClose := by
  unfold tryTally
  rw [if_neg (by simp [hc, Option.isSome_iff_ne_none.mp hb, hv]), hw]

/-- A count waits for something, or it has a winner and goes on to the end of the round. -/
theorem tryTally_cases (r : Replica) :
    (r.chosen.isSome ∨ r.ballot = none ∨ r.allVoted = false) ∧ r.tryTally = .silent r ∨
    ∃ winner, r.chosen = none ∧ r.ballot.isSome ∧ r.allVoted ∧
      tally (r.ballots.filter fun voter _ => r.isElector voter) = some winner ∧
      r.tryTally = (({ r with ballots := ∅ } : Replica).commit winner).andThen tryClose := by
  by_cases h : r.chosen.isSome ∨ r.ballot = none ∨ r.allVoted = false
  · exact .inl ⟨h, tryTally_of_waiting h⟩
  · simp only [not_or, Bool.not_eq_false, Option.not_isSome_iff_eq_none, ← ne_eq,
      Option.ne_none_iff_isSome] at h
    obtain ⟨hc, hb, hv⟩ := h
    obtain ⟨winner, hw⟩ := exists_winner hv
    exact .inr ⟨winner, hc, hb, hv, hw, tryTally_of_winner hc hb hv hw⟩

theorem tryTally_sequels (r : Replica) : Steps Sequel r r.tryTally := by
  rcases r.tryTally_cases with ⟨-, he⟩ | ⟨winner, hc, hb, hv, hw, he⟩
  · rw [he]
    exact .done r
  · rw [he]
    exact Steps.andThen (.single (.commit hc hb hv hw)) (tryClose_sequels _)

theorem recordVote_held_sequels {r : Replica} {voter : NodeId} {vote : HeldVote}
    (h : r.held[voter]? = some vote) :
    Steps Sequel r
      (({ r with held := r.held.erase voter } : Replica).recordVote voter vote) := by
  have hj : ({ r with held := r.held.erase voter } : Replica).judge voter vote =
    r.judge voter vote := rfl
  unfold recordVote
  rw [hj]
  cases hv : r.judge voter vote with
  | ignore => exact .single (.discard h hv)
  | hold =>
      dsimp only
      rw [hold_erase h]
      exact .done r
  | count => exact Steps.after (.release h hv) (tryTally_sequels _)

theorem replay_sequels (r : Replica) (voter : NodeId) :
    Steps Sequel r (r.replay voter) := by
  unfold replay
  split
  · rename_i vote hv
    exact recordVote_held_sequels hv
  · exact .done r

theorem replayHeld_sequels (r : Replica) : Steps Sequel r r.replayHeld :=
  Steps.after .dropStale (Steps.each (P := fun _ => True)
    (fun r _ voter _ => ⟨replay_sequels r voter, trivial⟩) (.done _) trivial)

/-! ### Sequels as reactions -/

theorem checkAckQuorum_steps (r : Replica) (proof : Proof) :
    Steps (Reaction heard) r (r.checkAckQuorum proof) :=
  (checkAckQuorum_sequels r proof).mono Sequel.reaction

theorem scheduleElection_steps (r : Replica) : Steps (Reaction heard) r r.scheduleElection :=
  (scheduleElection_sequels r).mono Sequel.reaction

theorem recordHeld_steps (r : Replica) : Steps (Reaction heard) r (.silent r.recordHeld) :=
  (recordHeld_sequels r).mono Sequel.reaction

theorem tryClose_steps (r : Replica) : Steps (Reaction heard) r r.tryClose :=
  (tryClose_sequels r).mono Sequel.reaction

theorem tryTally_steps (r : Replica) : Steps (Reaction heard) r r.tryTally :=
  (tryTally_sequels r).mono Sequel.reaction

theorem replay_steps (r : Replica) (voter : NodeId) :
    Steps (Reaction heard) r (r.replay voter) :=
  (replay_sequels r voter).mono Sequel.reaction

theorem replayHeld_steps (r : Replica) : Steps (Reaction heard) r r.replayHeld :=
  (replayHeld_sequels r).mono Sequel.reaction

/-! ### Ballots and elections -/

theorem recordVote_reacts {r : Replica} {voter : NodeId} {vote : HeldVote}
    (hh : heard voter vote.packet) (hp : r.peers.contains voter) :
    ReactsOnce heard r (r.recordVote voter vote) := by
  unfold recordVote
  split
  · exact .none r
  · rename_i hj
    exact .single (.hold hh hp hj)
  · rename_i hj
    exact .after (.count hh hp hj) fun _ => tryTally_steps _

/-- An election casts the own vote, or finds nothing to vote for. -/
theorem runElection_steps (r : Replica) (hs : r.store.WellFormed) :
    Steps (Reaction heard) r r.runElection := by
  unfold runElection
  split
  · exact .done r
  · rename_i h
    rw [not_or, Option.not_isSome_iff_eq_none, Option.not_isSome_iff_eq_none] at h
    obtain ⟨hb, hc⟩ := h
    split
    · rename_i hq
      have hn : r.pendingElections = 0 := by
        rw [pendingElections, List.countP_eq_zero]
        exact List.find?_eq_none.mp hq
      have hst : Steps (Reaction heard) r _ := scheduleElection_steps r
      rw [scheduleElection, if_neg (by simp [hb, hc]), hn, if_neg (Nat.lt_irrefl 0)] at hst
      exact hst
    · rename_i proof hq
      obtain ⟨event, he⟩ := EventStore.contains_iff.mp
        (hs.queued.mp (List.mem_of_find?_eq_some hq))
      simp only [he]
      refine Steps.andThen ?_ (tryTally_steps _)
      exact .single (.cast hb hc hq he)

/-! ### Handling packets -/

theorem onPropose_reacts {r : Replica} {sender : NodeId} {signature : Bytes} {event : Event}
    {signer : Signer} {o : Outcome} (hh : heard sender (.propose signature event))
    (hp : r.peers.contains sender) (h : r.onPropose sender event signer = .ok o) :
    ReactsOnce heard r o := by
  unfold onPropose at h
  split at h
  · cases h
  · rename_i ho
    rw [Decidable.not_not] at ho
    simp only [Except.ok.injEq] at h
    subst h
    refine ReactsOnce.andThen ?_ fun _ => replayHeld_steps _
    split
    · rename_i hk
      exact .acknowledge hh hp ho hk
    · rename_i hk
      rw [not_or, Bool.not_eq_true, Bool.not_eq_true] at hk
      exact .store hh hp ho hk.1 hk.2

theorem onAck_reacts {r : Replica} {sender : NodeId} {proof : Proof} {o : Outcome}
    (hh : heard sender (.ack proof)) (hp : r.peers.contains sender)
    (h : r.onAck sender proof = .ok o) : ReactsOnce heard r o := by
  unfold onAck at h
  split at h
  · cases h
    exact .none r
  · split at h
    · cases h
    · rename_i event he
      split at h
      · cases h
      · rename_i ho
        cases h
        exact .after (.noteAck hh hp he (Decidable.not_not.mp ho)) fun _ => checkAckQuorum_steps _ _

theorem onFinalize_reacts {r : Replica} {sender : NodeId} {proof : Proof} {o : Outcome}
    (hh : heard sender (.finalize proof)) (hp : r.peers.contains sender)
    (h : r.onFinalize proof = .ok o) : ReactsOnce heard r o := by
  unfold onFinalize at h
  split at h
  · cases h
    exact .none r
  · split at h
    · rename_i hs
      cases h
      by_cases ha : r.announced.contains proof
      · rw [announce_of_contains ha]
        exact .none r
      · rw [Bool.not_eq_true] at ha
        rw [announce_of_new ha]
        exact .single (.announceHeard hh hp hs ha)
    · cases h

theorem onElectorReady_reacts {r : Replica} {sender : NodeId} {round : Nat}
    (hh : heard sender (.electorReady round)) (hp : r.peers.contains sender) :
    ReactsOnce heard r (r.onElectorReady sender round) := by
  unfold onElectorReady
  split
  · rename_i hr
    subst hr
    exact .after (.ready hh hp) fun _ => tryClose_steps _
  · exact .none r

/-- Handling a packet is a reaction to it and what follows from that, as long as the packet does not
bring another queue along. -/
theorem onPacket_reacts {r : Replica} {sender : NodeId} {packet : Packet} {signer : Signer}
    {o : Outcome} (hh : heard sender packet)
    (hq : ∀ round events, packet ≠ .overwriteEvents round events)
    (h : r.onPacket sender packet signer = .ok o) : ReactsOnce heard r o := by
  unfold onPacket at h
  split at h
  · cases h
  · rename_i hp
    rw [Bool.not_eq_true', Bool.not_eq_false] at hp
    cases packet with
    | hello node shard => cases h
    | propose signature event => exact onPropose_reacts hh hp h
    | ack proof => exact onAck_reacts hh hp h
    | finalize proof => exact onFinalize_reacts hh hp h
    | vote round signature proof =>
        cases h
        exact recordVote_reacts hh hp
    | electorReady round =>
        cases h
        exact onElectorReady_reacts hh hp
    | overwriteEvents round events => exact absurd rfl (hq round events)
    | appendTransactions transactions =>
        cases h
        exact .of_steps fun _ => .single (.absorb transactions)
    | received => cases h

end Replica

/-! ### The order of the rounds -/

namespace Replica

variable {r r' r'' : Replica}

/-- Two states are in the same round: it has one number in one run of the numbers. -/
def SameRound (r r' : Replica) : Prop :=
  r'.rounds = r.rounds ∧ r'.laps = r.laps

/-- One state is in an earlier round than another. -/
def Before (r r' : Replica) : Prop :=
  r.laps < r'.laps ∨ r.laps = r'.laps ∧ r.rounds < r'.rounds

theorem SameRound.refl (r : Replica) : r.SameRound r :=
  ⟨rfl, rfl⟩

theorem SameRound.symm (h : r.SameRound r') : r'.SameRound r :=
  ⟨h.1.symm, h.2.symm⟩

theorem SameRound.trans (h : r.SameRound r') (h' : r'.SameRound r'') : r.SameRound r'' :=
  ⟨h'.1.trans h.1, h'.2.trans h.2⟩

theorem SameRound.not_before (h : r.SameRound r') : ¬r.Before r' := by
  rw [Before, h.1, h.2]
  exact fun hb => hb.elim (Nat.lt_irrefl _) fun hb => Nat.lt_irrefl _ hb.2

/-- Which of two rounds is earlier can be told in any states that are in them. -/
theorem SameRound.before_iff {s s' : Replica} (h : r.SameRound s) (h' : r'.SameRound s') :
    r.Before r' ↔ s.Before s' := by
  rw [Before, Before, h.1, h.2, h'.1, h'.2]

theorem Before.laps_le (h : r.Before r') : r.laps ≤ r'.laps :=
  h.elim Nat.le_of_lt fun h => Nat.le_of_eq h.1

theorem Before.rounds_lt (h : r.Before r') (hl : r'.laps = r.laps) : r.rounds < r'.rounds := by
  rcases h with h | ⟨-, h⟩
  · exact absurd h (Nat.not_lt_of_le (Nat.le_of_eq hl))
  · exact h

theorem Before.trans (h : r.Before r') (h' : r'.Before r'') : r.Before r'' := by
  unfold Before at *
  omega

theorem before_advance (r : Replica) : r.Before r.advance := by
  rcases Nat.lt_or_eq_of_le r.laps_le_advance with h | h
  · exact .inl h
  · exact .inr ⟨h, Nat.lt_of_lt_of_eq (Nat.lt_succ_self _) (rounds_advance h.symm).symm⟩

theorem before_close (r : Replica) (p : Proof) : r.Before (r.closeRound p).advance :=
  before_advance (r.closeRound p)

theorem Counted.closeRound (h : r.Counted) (p : Proof) : (r.closeRound p).Counted :=
  ⟨h.jumped, h.laps⟩

theorem Counted.rounds_close (h : r.Counted) (p : Proof) :
    (r.closeRound p).advance.rounds = r.rounds + 1 :=
  (h.closeRound p).rounds_advance

theorem Counted.rounds_lt_close (h : r.Counted) (p : Proof) :
    r.rounds < (r.closeRound p).advance.rounds :=
  Nat.lt_of_lt_of_eq (Nat.lt_succ_self _) (h.rounds_close p).symm

end Replica

/-! ### What stays -/

/-- Who the member is and who its peers are stays; rounds end in nobody sitting out. -/
theorem Reaction.seat {heard : NodeId → Packet → Prop} {r : Replica} {o : Outcome}
    (h : Reaction heard r o) : o.replica.localId = r.localId ∧ o.replica.peers = r.peers ∧
      (o.replica.sittingOut = r.sittingOut ∨ o.replica.sittingOut = ∅) := by
  cases h with
  | close _ _ => exact ⟨rfl, rfl, Or.inr rfl⟩
  | @hold voter vote _ _ _ =>
      obtain ⟨held, hh, -⟩ := r.hold_eq voter vote
      rw [hh]
      exact ⟨rfl, rfl, Or.inl rfl⟩
  | schedule _ _ =>
      obtain ⟨electing, quiet, hs⟩ := r.scheduleElection_eq
      rw [hs]
      exact ⟨rfl, rfl, Or.inl rfl⟩
  | _ => exact ⟨rfl, rfl, Or.inl rfl⟩

/-- A member that has counted its rounds goes on to count them. -/
theorem Reaction.counted {heard : NodeId → Packet → Prop} {r : Replica} {o : Outcome}
    (h : Reaction heard r o) (hr : r.Counted) : o.replica.Counted := by
  cases h with
  | close _ _ => exact (hr.closeRound _).advance
  | @hold voter vote _ _ _ =>
      obtain ⟨held, hh, -⟩ := r.hold_eq voter vote
      rw [hh]
      exact ⟨hr.jumped, hr.laps⟩
  | schedule _ _ =>
      obtain ⟨electing, quiet, hs⟩ := r.scheduleElection_eq
      rw [hs]
      exact ⟨hr.jumped, hr.laps⟩
  | _ => exact ⟨hr.jumped, hr.laps⟩

/-- What no event holds yet waits for the next seal. -/
theorem Sequel.unbatched {r : Replica} {o : Outcome} (h : Sequel r o) :
    o.replica.unbatched = r.unbatched := by
  cases h with
  | schedule _ _ =>
      obtain ⟨electing, quiet, hs⟩ := r.scheduleElection_eq
      rw [hs]
  | _ => rfl

theorem Steps.unbatched {r : Replica} {o : Outcome} (h : Steps Sequel r o) :
    o.replica.unbatched = r.unbatched :=
  h.keep (P := fun r' => r'.unbatched = r.unbatched) (fun hr hs => hs.unbatched.trans hr) rfl

theorem Reaction.peers {heard : NodeId → Packet → Prop} {r : Replica} {o : Outcome}
    (h : Reaction heard r o) : o.replica.peers = r.peers :=
  h.seat.2.1

end ShardGossip

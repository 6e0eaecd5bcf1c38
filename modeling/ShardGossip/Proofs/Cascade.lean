import ShardGossip.Proofs.Redelivery

/-!
# ShardGossip.Proofs.Cascade

**A ballot may set off a commit, the end of a round and further ballots, but no second commit**
(`one_commit_a_call`). Recording a ballot may be followed by a count, a count by the end of the
round, the end of a round by letting held-back ballots in, and each of those is recorded like any
other. `evaluate` spells the four calls out as they call each other, and says how deep they may be
nested. Seven levels are enough in any state, and give what the definitions in layers give
(`evaluate_eq`).

The circle is cut where a round has been closed: the member has no vote of its own then, and nobody
counts without having voted. So one commit and the end of one round may come of a vote that was cast
(`OncePerVote`).
-/

namespace ShardGossip.Replica

/-! ### Four calls that call each other -/

/-- One of the calls that lead to each other. -/
inductive Call where
  | recordVote (voter : NodeId) (vote : HeldVote)
  | tryTally
  | tryClose
  | replayHeld

/-- What a call comes to. -/
def Call.outcome (r : Replica) : Call → Outcome
  | recordVote voter vote => r.recordVote voter vote
  | tryTally => r.tryTally
  | tryClose => r.tryClose
  | replayHeld => r.replayHeld

/-- A further change that may not come to an end. -/
def andThen? (o : Outcome) (next : Replica → Option Outcome) : Option Outcome :=
  (next o.replica).map fun o' => ⟨o'.replica, o.effects ++ o'.effects⟩

/-- The calls one inside the other, down to a depth; nothing if they are nested deeper. Whose
ballots are let in is settled before the first one is recorded, and each is taken out when its turn
comes. -/
def evaluate : (depth : Nat) → Call → Replica → Option Outcome
  | 0, _, _ => none
  | depth + 1, .recordVote voter vote, r =>
    match r.judge voter vote with
    | .ignore => some (.silent r)
    | .hold => some (.silent (r.hold voter vote))
    | .count => evaluate depth .tryTally (r.countBallot voter vote)
  | depth + 1, .tryTally, r =>
    if r.chosen.isSome ∨ r.ballot.isNone ∨ !r.allVoted then some (.silent r)
    else
      match tally (r.ballots.filter fun voter _ => r.isElector voter) with
      | none => some (.silent { r with ballots := ∅ })
      | some winner =>
        andThen? (({ r with ballots := ∅ } : Replica).commit winner) (evaluate depth .tryClose)
  | depth + 1, .tryClose, r =>
    match r.chosen with
    | none => some (.silent r)
    | some chosen =>
      if r.allReady then
        (evaluate depth .replayHeld (r.closeRound chosen).advance).map
          (·.andThen scheduleElection)
      else some (.silent r)
  | depth + 1, .replayHeld, r =>
    r.dropStale.releasable.foldlM
      (fun o voter => andThen? o fun r =>
        match r.held[voter]? with
        | some vote => evaluate depth (.recordVote voter vote) { r with held := r.held.erase voter }
        | none => some (.silent r))
      (.silent r.dropStale)

variable {r r' : Replica} {o : Outcome}

/-! ### They return -/

theorem andThen?_some {next : Replica → Option Outcome} (next' : Replica → Outcome)
    (h : next o.replica = some (next' o.replica)) : andThen? o next = some (o.andThen next') := by
  rw [andThen?, h]
  rfl

/-- Letting ballots in returns if recording each of them does, in the states that come up. -/
theorem evaluate_replayHeld {depth : Nat} {P : Replica → Prop}
    {change : Replica → NodeId → Outcome}
    (hd : P r.dropStale) (hc : ∀ {r}, P r → ∀ v, P (change r v).replica)
    (hn : ∀ {r : Replica} {v}, P r → r.held[v]? = none → change r v = .silent r)
    (hs : ∀ {r : Replica} {v vote}, P r → r.held[v]? = some vote →
      evaluate depth (.recordVote v vote) { r with held := r.held.erase v } = some (change r v)) :
    evaluate (depth + 1) .replayHeld r =
      some ((Outcome.silent r.dropStale).each change r.dropStale.releasable) := by
  rw [evaluate]
  have hd : P (Outcome.silent r.dropStale).replica := hd
  generalize Outcome.silent r.dropStale = o at hd
  generalize r.dropStale.releasable = voters
  induction voters generalizing o with
  | nil => rfl
  | cons v rest ih =>
      rw [List.foldlM_cons, andThen?_some (change · v)]
      · exact ih (o := o.andThen (change · v)) (hc hd v)
      · split
        · rename_i vote hv
          exact hs hd hv
        · rename_i hv
          rw [hn hd hv]

/-- Without an own vote there is no count. -/
theorem evaluate_tryTally_unvoted (depth : Nat) (hb : r.ballot = none) :
    evaluate (depth + 1) .tryTally r = some (.silent r) := by
  rw [evaluate, if_pos (.inr (.inl (by rw [hb]; rfl)))]

theorem evaluate_recordVote_unvoted (depth : Nat) (hb : r.ballot = none) (v : NodeId)
    (vote : HeldVote) :
    evaluate (depth + 2) (.recordVote v vote) r = some (.silent (r.record v vote)) := by
  rw [evaluate, record]
  cases r.judge v vote with
  | ignore => rfl
  | hold => rfl
  | count => exact evaluate_tryTally_unvoted depth hb

theorem ballot_release (r : Replica) (v : NodeId) : (r.release v).ballot = r.ballot := by
  obtain ⟨_, _, _, he, -⟩ := onlyBallots_release r v
  rw [he]

/-- Changes without effects, one for each element. -/
theorem each_silent {α : Type} (change : Replica → α → Replica) (r : Replica) (as : List α) :
    (Outcome.silent r).each (fun r a => .silent (change r a)) as = .silent (as.foldl change r) := by
  induction as generalizing r with
  | nil => rfl
  | cons a rest ih => exact ih (change r a)

/-- Before the own vote, the ballots that are let in are recorded and no more. -/
theorem evaluate_replayHeld_unvoted (depth : Nat) (hb : r.ballot = none) :
    evaluate (depth + 3) .replayHeld r = some (.silent r.recordHeld) := by
  rw [recordHeld, ← each_silent]
  refine evaluate_replayHeld (P := fun r => r.ballot = none) hb (fun hb v => ?_) (fun _ hv => ?_)
    fun {r v vote} hb hv => ?_
  · exact (ballot_release _ v).trans hb
  · rw [release, hv]
  · rw [release, hv]
    exact evaluate_recordVote_unvoted (r := { r with held := r.held.erase v }) depth hb v vote

/-- The next round begins without an own vote. -/
theorem evaluate_tryClose (depth : Nat) (r : Replica) :
    evaluate (depth + 4) .tryClose r = some r.tryClose := by
  rw [evaluate, tryClose]
  cases r.chosen with
  | none => rfl
  | some chosen =>
      dsimp only
      split
      · rw [evaluate_replayHeld_unvoted depth rfl]
        rfl
      · rfl

theorem evaluate_tryTally (depth : Nat) (r : Replica) :
    evaluate (depth + 5) .tryTally r = some r.tryTally := by
  rw [evaluate, tryTally]
  split
  · rfl
  · cases tally (r.ballots.filter fun voter _ => r.isElector voter) with
    | none => rfl
    | some winner => exact andThen?_some tryClose (evaluate_tryClose depth _)

theorem evaluate_recordVote (depth : Nat) (r : Replica) (v : NodeId) (vote : HeldVote) :
    evaluate (depth + 6) (.recordVote v vote) r = some (r.recordVote v vote) := by
  rw [evaluate, recordVote]
  cases r.judge v vote with
  | ignore => rfl
  | hold => rfl
  | count => exact evaluate_tryTally depth _

/-- **The calls return**, in any state and at a depth of seven calls at most. -/
theorem evaluate_eq {depth : Nat} (h : 7 ≤ depth) (call : Call) (r : Replica) :
    evaluate depth call r = some (call.outcome r) := by
  obtain ⟨depth, rfl⟩ := Nat.exists_eq_add_of_le' h
  cases call with
  | recordVote v vote => exact evaluate_recordVote (depth + 1) r v vote
  | tryTally => exact evaluate_tryTally (depth + 2) r
  | tryClose => exact evaluate_tryClose (depth + 3) r
  | replayHeld =>
      refine evaluate_replayHeld (P := fun _ => True) trivial (fun _ _ => trivial) (fun _ hv => ?_)
        fun {r v vote} _ hv => ?_
      · rw [replay, hv]
      · rw [evaluate_recordVote depth, replay, hv]

/-! ### Every call -/

theorem oncePerVote_removePeer (r : Replica) (id : NodeId) : OncePerVote r (r.removePeer id) := by
  unfold removePeer
  split
  · exact .after (r.forget id) rfl (.sequels (reevaluate_sequels _))
  · exact .silent rfl

theorem progress_foldl_join (history : Bool) (r : Replica) (ids : List NodeId) :
    (ids.foldl (join history) r).progress = r.progress := by
  induction ids generalizing r with
  | nil => rfl
  | cons id rest ih =>
      refine (ih _).trans ?_
      unfold join
      split
      · rfl
      · split <;> rfl

theorem oncePerVote_setMembers (r : Replica) (members : List NodeId) :
    OncePerVote r (r.setMembers members) :=
  .each oncePerVote_removePeer (.silent (progress_foldl_join _ r _)) _

theorem OncePerVote.tellAll (h : OncePerVote r o) (packet : Replica → Packet) :
    OncePerVote r (o.tellAll packet) := by
  refine h.andThen (.idle rfl ?_)
  split <;> rfl

theorem oncePerVote_recordVote (r : Replica) (v : NodeId) (vote : HeldVote) :
    OncePerVote r (r.recordVote v vote) := by
  unfold recordVote
  split
  · exact .silent rfl
  · obtain ⟨held, hh, -⟩ := r.hold_eq v vote
    rw [hh]
    exact .silent rfl
  · exact .after (r.countBallot v vote) rfl (.sequels (tryTally_sequels _))

theorem oncePerVote_onPropose {sender : NodeId} {event : Event} {signer : Signer}
    (h : r.onPropose sender event signer = .ok o) : OncePerVote r o := by
  unfold onPropose at h
  split at h
  · cases h
  · cases h
    refine OncePerVote.andThen (.idle ?_ rfl) (.sequels (replayHeld_sequels _))
    dsimp only
    split <;> rfl

theorem oncePerVote_onAck {sender : NodeId} {p : Proof} (h : r.onAck sender p = .ok o) :
    OncePerVote r o := by
  unfold onAck at h
  split at h
  · cases h
    exact .silent rfl
  · split at h
    · cases h
    · split at h
      · cases h
      · cases h
        exact .after { r with store := r.store.update p (·.recordAck sender) } rfl
          (.sequels (checkAckQuorum_sequels _ p))

theorem oncePerVote_onFinalize {p : Proof} (h : r.onFinalize p = .ok o) : OncePerVote r o := by
  unfold onFinalize at h
  split at h
  · cases h
    exact .silent rfl
  · split at h
    · cases h
      exact oncePerVote_announce r p
    · cases h

theorem oncePerVote_onElectorReady (r : Replica) (sender : NodeId) (round : Nat) :
    OncePerVote r (r.onElectorReady sender round) := by
  unfold onElectorReady
  split
  · exact .after { r with ready := r.ready.insert sender } rfl
      (.sequels (tryClose_sequels _))
  · exact .silent rfl

/-- What a call that commits at most one event and closes at most one round does. -/
structure OnceAtMost (r : Replica) (o : Outcome) : Prop where
  committed : o.effects.committed.length ≤ 1
  rounds : o.replica.rounds ≤ r.rounds + 1

theorem OncePerVote.onceAtMost (h : OncePerVote r o) : OnceAtMost r o where
  committed := by
    have hc := h.commits
    have hl := commitsLeft_le_one r
    omega
  rounds := by
    rcases h.closes with ⟨hn, -⟩ | ⟨hn, -⟩
    · exact Nat.le_succ_of_le (Nat.le_of_eq (rounds_of_count hn))
    · rw [rounds_of_count hn]
      exact r.nextRound_le

/-- An election casts a vote only if there is none, so what is committed comes of that vote. -/
theorem onceAtMost_runElection (r : Replica) : OnceAtMost r r.runElection := by
  have idle (r' : Replica) (h : r'.progress = r.progress) : OnceAtMost r (.silent r') :=
    (OncePerVote.silent h).onceAtMost
  unfold runElection
  split
  · exact idle r rfl
  · split
    · exact idle _ rfl
    · dsimp only
      split
      · exact idle _ rfl
      · rename_i p _ _ event _
        let cast : Replica :=
          { ({ r with electing := true } : Replica).countBallot r.localId
              ⟨r.rounds, event.signedUpdate, p⟩ with ballot := some p }
        have hf : OncePerVote cast (((Outcome.silent cast).tellAll fun r =>
            .vote r.rounds event.signedUpdate p).andThen tryTally) :=
          ((OncePerVote.silent rfl).tellAll _).andThen (.sequels (tryTally_sequels _))
        exact ⟨hf.onceAtMost.committed, hf.onceAtMost.rounds⟩

theorem oncePerVote_sealEvent (r : Replica) (now : Nat) (signer : Signer) :
    OncePerVote r (r.sealEvent now signer) := by
  rw [sealEvent_eq]
  split
  · exact .silent rfl
  · rename_i event _
    exact .after (r.enqueue event signer) rfl
      (((OncePerVote.silent rfl).tellAll _).andThen (.sequels (checkAckQuorum_sequels _ _)))

/-- The round that another member's queue would lead to. -/
def Input.target : Input → Option Nat
  | packet _ (.overwriteEvents round _) _ => some round
  | _ => none

/-- At most one event is committed, and at most one round closed, unless the member is led to a
later one. -/
def OnceOrLed (r : Replica) (input : Input) (o : Outcome) : Prop :=
  o.effects.committed.length ≤ 1 ∧
    (o.replica.rounds ≤ r.rounds + 1 ∨
      input.target = some o.replica.rounds ∧ r.rounds < o.replica.rounds)

theorem OnceAtMost.orLed (h : OnceAtMost r o) (input : Input) : OnceOrLed r input o :=
  ⟨h.committed, .inl h.rounds⟩

theorem OncePerVote.orLed (h : OncePerVote r o) (input : Input) : OnceOrLed r input o :=
  h.onceAtMost.orLed input

/-- A queue of another member ends a round, or it leads to a later one, but not both. -/
theorem overwriteEvents_once (r : Replica) (sender : NodeId) (round : Nat) (events : List Event)
    (signer : Signer) :
    OnceOrLed r (.packet sender (.overwriteEvents round events) signer)
      (r.overwriteEvents round events signer) := by
  have hf := oncePerVote_adopt (r.fastForward round) events .append signer
  by_cases hr : r.rounds < round
  · obtain ⟨hn, hc⟩ := fastForward_of_lt hr
    have hsame := hf.closes.resolve_right fun hc' => by omega
    have hround : (r.overwriteEvents round events signer).replica.rounds = round :=
      (rounds_of_count hsame.1).trans hn
    exact ⟨hf.onceAtMost.committed, .inr ⟨by rw [hround]; rfl, by rwa [hround]⟩⟩
  · have hs := fastForward_of_le (Nat.le_of_not_lt hr)
    rw [overwriteEvents, hs]
    exact (hs ▸ hf).orLed _

theorem onPacket_once {sender : NodeId} {packet : Packet} {signer : Signer}
    (h : r.onPacket sender packet signer = .ok o) :
    OnceOrLed r (.packet sender packet signer) o := by
  unfold onPacket at h
  split at h
  · cases h
  · cases packet with
    | propose signature event => exact (oncePerVote_onPropose h).orLed _
    | ack p => exact (oncePerVote_onAck h).orLed _
    | finalize p => exact (oncePerVote_onFinalize h).orLed _
    | vote round signature p =>
        cases h
        exact (oncePerVote_recordVote r sender _).orLed _
    | electorReady round =>
        cases h
        exact (oncePerVote_onElectorReady r sender round).orLed _
    | overwriteEvents round events =>
        cases h
        exact overwriteEvents_once r sender round events signer
    | appendTransactions transactions =>
        cases h
        exact (OncePerVote.silent rfl).orLed _
    | hello node shard => cases h
    | received => cases h

theorem serve_once (r : Replica) (input : Input) : OnceOrLed r input (r.serve input) := by
  cases input with
  | addPeer id =>
      refine (OncePerVote.silent ?_).orLed _
      unfold addPeer
      split <;> rfl
  | removePeer id => exact (oncePerVote_removePeer r id).orLed _
  | setMembers members => exact (oncePerVote_setMembers r members).orLed _
  | submit transaction => exact (OncePerVote.silent rfl).orLed _
  | sealEvent now signer => exact (oncePerVote_sealEvent r now signer).orLed _
  | elect => exact (onceAtMost_runElection r).orLed _
  | retransmit signer =>
      refine OncePerVote.orLed ?_ _
      unfold serve retransmit
      dsimp only
      split
      · exact .silent rfl
      · exact .idle rfl rfl
  | merge events signer => exact ((oncePerVote_adopt r _ .reorder signer).tellAll _).orLed _
  | sync peer =>
      refine (OncePerVote.silent ?_).orLed _
      unfold takeSyncFor
      split <;> rfl
  | packet sender packet signer =>
      unfold serve
      dsimp only
      split
      · rename_i ho
        exact onPacket_once ho
      · exact (OncePerVote.silent rfl).orLed _

/-- **One commit and one round a call, and the calls return.** In any state: recording a ballot,
counting, closing a round and letting ballots in call each other no deeper than seven times, and
what they return is what the definitions say; of the ballots held back, none is left for a past
round, nor for the round in progress and a pending event; and whatever the member is asked for, it
commits one event at most and gets one round further at most, unless another member's queue takes it
to a later round. -/
theorem one_commit_a_call (r : Replica) :
    (∀ depth call, evaluate (depth + 7) call r = some (call.outcome r)) ∧
      (∀ (v : NodeId) (vote : HeldVote), r.replayHeld.replica.held[v]? = some vote →
        r.replayHeld.replica.rounds < vote.round ∨
          vote.round = r.replayHeld.replica.rounds ∧
            r.replayHeld.replica.store.contains vote.proof = false) ∧
      ∀ input, (r.serve input).effects.committed.length ≤ 1 ∧
        ((r.serve input).replica.rounds ≤ r.rounds + 1 ∨
          input.target = some (r.serve input).replica.rounds ∧
            r.rounds < (r.serve input).replica.rounds) := by
  refine ⟨fun depth call => evaluate_eq (Nat.le_add_left 7 depth) call r, fun v vote hv => ?_,
    serve_once r⟩
  have hs := sifted_replayHeld r
  rcases Nat.lt_or_eq_of_le (hs.current hv) with hlt | heq
  · exact .inl hlt
  · refine .inr ⟨heq.symm, Bool.eq_false_iff.mpr fun hp => ?_⟩
    exact List.not_mem_nil (hs.releasing hv heq.symm hp)

/-- The last ballot comes after the word that its voter is ready, and after a ballot for the round
that follows. So the event is committed, the round is closed, and the ballot for the next one stays
held back, as its event has not arrived. -/
theorem one_commit_a_call_of_last_ballot :
    let r := after ⟨"a"⟩ ⟨0⟩ <| List.map (fun input => .request (.serve input)) [
      .setMembers [⟨"a"⟩, ⟨"b"⟩],
      .submit ⟨"x", [1], none⟩,
      .sealEvent 5 (.labelled ⟨"a"⟩),
      .packet ⟨"b"⟩ (.ack "5-a") (.labelled ⟨"a"⟩),
      .elect,
      .packet ⟨"b"⟩ (.electorReady 0) (.labelled ⟨"a"⟩),
      .packet ⟨"b"⟩ (.vote 1 [] "7-b") (.labelled ⟨"a"⟩)]
    let call := Call.recordVote ⟨"b"⟩ ⟨0, [], "5-a"⟩
    let r' := (call.outcome r).replica.replayHeld.replica
    evaluate 7 call r = some (call.outcome r) ∧
      (call.outcome r).effects.committed.map (·.proof) = ["5-a"] ∧ r'.rounds = 1 ∧
      r'.held[(⟨"b"⟩ : NodeId)]? = some ⟨1, [], "7-b"⟩ ∧
      (1 < 1 ∨ 1 = 1 ∧ r'.store.contains "7-b" = false) := by
  intro r call r'
  have hn : r'.rounds = 1 := by decide +kernel
  have hv : r'.held[(⟨"b"⟩ : NodeId)]? = some ⟨1, [], "7-b"⟩ := by decide +kernel
  have hleft := (one_commit_a_call (call.outcome r).replica).2.1 _ _ hv
  exact ⟨(one_commit_a_call r).1 0 call, by decide +kernel, hn, hv, hn ▸ hleft⟩

end ShardGossip.Replica

import ShardGossip.Proofs.Quorum

/-!
# ShardGossip.Proofs.WakeUp

**No election is forgotten** (`woken_of_pending`). A member says when an election is to be run, and
says it once: while it is `electing` it does not ask again. So whoever runs elections can only go by
having been asked since the last one. Whatever is done with the state, that is enough: between
rounds, if an event may be voted for, an election has been asked for since the last one was run.

What carries this is `Alert`. Between rounds, a member is electing only if it has asked for an
election, and it is electing as soon as an event may be voted for. The second half is given up
where a member jumps to a later round or takes over a foreign queue, and made good by
`ensureElection` in the end; so it is switched off in between.
-/

namespace ShardGossip.Replica

variable {r r' : Replica} {o : Outcome} {due due' : Prop} {w w' : Bool}

/-! ### Being alert -/

/-- Between rounds, a member that is electing has asked for an election; and, where that is `due`,
it is electing if an event may be voted for. -/
def Alert (due : Prop) (woken : Bool) (r : Replica) : Prop :=
  r.ballot = none → r.chosen = none ∧ (r.electing → woken) ∧
    (due → 0 < r.pendingElections → r.electing)

theorem Alert.mono (h : r.Alert due w) (hd : due' → due) (hw : w → w') : r.Alert due' w' :=
  fun hb => ⟨(h hb).1, fun he => hw ((h hb).2.1 he), fun hd' => (h hb).2.2 (hd hd')⟩

theorem alert_of_voted (h : r.ballot.isSome) : r.Alert due w := by
  intro hb
  rw [hb] at h
  cases h

/-- What being alert depends on. -/
def electionView (r : Replica) :
    Option Proof × Option Proof × Bool × Std.ExtTreeSet Proof × List Proof :=
  (r.ballot, r.chosen, r.electing, r.announced, r.store.queue)

theorem Alert.congr (h : r.Alert due w) (hv : r'.electionView = r.electionView) :
    r'.Alert due w := by
  simp only [electionView, Prod.mk.injEq] at hv
  obtain ⟨hb, hc, he, ha, hq⟩ := hv
  unfold Alert pendingElections
  rw [hb, hc, he, ha, hq]
  exact h

theorem pendingElections_pos_iff :
    0 < r.pendingElections ↔ ∃ p ∈ r.store.queue, r.announced.contains p :=
  List.countP_pos_iff

/-- The member stays alert, when what it asks for is heard. -/
def KeepsAlert (due : Prop) (r : Replica) (o : Outcome) : Prop :=
  ∀ ⦃w⦄, r.Alert due w → o.replica.Alert due (w || o.effects.wake)

namespace KeepsAlert

theorem of_view {effects : Effects} (hv : r'.electionView = r.electionView) :
    KeepsAlert due r ⟨r', effects⟩ :=
  fun _ h => (h.congr hv).mono id fun hw => Bool.or_eq_true_iff.mpr (.inl hw)

theorem silent (r : Replica) : KeepsAlert due r (.silent r) :=
  of_view rfl

/-- A change that the election does not depend on comes first. -/
theorem after (r' : Replica) (hv : r'.electionView = r.electionView) (h : KeepsAlert due r' o) :
    KeepsAlert due r o :=
  fun _ ha => h (ha.congr hv)

theorem andThen {next : Replica → Outcome} (h : KeepsAlert due r o)
    (h' : KeepsAlert due o.replica (next o.replica)) : KeepsAlert due r (o.andThen next) := by
  intro w ha
  rw [Outcome.effects_andThen, Effects.wake_append, ← Bool.or_assoc]
  exact h' (h ha)

theorem each {α : Type} {change : Replica → α → Outcome}
    (hc : ∀ r a, KeepsAlert due r (change r a)) (as : List α) (h : KeepsAlert due r o) :
    KeepsAlert due r (o.each change as) := by
  induction as generalizing o with
  | nil => exact h
  | cons a rest ih => exact ih (h.andThen (hc o.replica a))

theorem tellAll (h : KeepsAlert due r o) (packet : Replica → Packet) :
    KeepsAlert due r (o.tellAll packet) :=
  h.andThen (of_view rfl)

end KeepsAlert

/-! ### Announcing -/

theorem keepsAlert_announce (r : Replica) (p : Proof) : KeepsAlert due r (r.announce p) := by
  by_cases hp : r.announced.contains p
  · rw [announce_of_contains hp]
    exact .silent r
  · rw [announce_of_new (Bool.eq_false_iff.mpr hp)]
    refine fun w h hb => ⟨(h hb).1, fun _ => ?_, fun _ _ => rfl⟩
    cases he : r.electing with
    | true => exact Bool.or_eq_true_iff.mpr (.inl ((h hb).2.1 he))
    | false => exact Bool.or_eq_true_iff.mpr (.inr rfl)

theorem keepsAlert_checkAckQuorum (r : Replica) (p : Proof) :
    KeepsAlert due r (r.checkAckQuorum p) := by
  unfold checkAckQuorum
  split
  · exact .silent r
  · split
    · exact .silent r
    · split
      · exact ((KeepsAlert.silent r).tellAll _).andThen (keepsAlert_announce _ p)
      · exact .silent r

/-! ### Closing and counting -/

/-- Asking for an election makes a member alert, whatever it was before. -/
theorem scheduleElection_alert (hc : r.ballot = none → r.chosen = none) :
    r.scheduleElection.replica.Alert due (w || r.scheduleElection.effects.wake) := by
  unfold scheduleElection
  by_cases hb : r.ballot.isSome
  · rw [if_pos (.inl hb)]
    exact alert_of_voted hb
  · rw [Option.not_isSome_iff_eq_none] at hb
    rw [if_neg (by simp [hb, hc hb])]
    split
    · exact fun _ => ⟨hc hb, fun _ => Bool.or_eq_true_iff.mpr (.inr rfl), fun _ _ => rfl⟩
    · rename_i hp
      exact fun _ => ⟨hc hb, nofun, fun _ h => absurd h hp⟩

theorem keepsAlert_tryClose (r : Replica) : KeepsAlert due r r.tryClose := by
  rcases r.tryClose_cases with ⟨-, he⟩ | ⟨p, -, -, he⟩ <;> rw [he]
  · exact .silent r
  · -- whatever was asked for in the round that ends, the next one asks anew
    intro w _
    obtain ⟨hb, -⟩ := recordHeld_rest (r.closeRound p).advance
    exact scheduleElection_alert fun _ => (hb.undecided rfl rfl).2

theorem keepsAlert_tryTally (r : Replica) : KeepsAlert due r r.tryTally := by
  rcases r.tryTally_cases with ⟨-, he⟩ | ⟨winner, -, hb, -, -, he⟩ <;> rw [he]
  · exact .silent r
  · have hcommit : KeepsAlert due r (({ r with ballots := ∅ } : Replica).commit winner) :=
      fun _ _ => alert_of_voted hb
    exact hcommit.andThen (keepsAlert_tryClose _)

/-! ### Ballots from others -/

theorem electionView_countBallot (r : Replica) (v : NodeId) (vote : HeldVote) :
    (r.countBallot v vote).electionView = r.electionView := by
  unfold electionView countBallot
  rw [EventStore.queue_update]

theorem keepsAlert_recordVote (r : Replica) (v : NodeId) (vote : HeldVote) :
    KeepsAlert due r (r.recordVote v vote) := by
  unfold recordVote
  split
  · exact .silent r
  · obtain ⟨held, hh, -⟩ := hold_eq r v vote
    rw [hh]
    exact .of_view rfl
  · exact .after _ (electionView_countBallot r v vote) (keepsAlert_tryTally _)

theorem keepsAlert_replayHeld (r : Replica) : KeepsAlert due r r.replayHeld := by
  have hd : KeepsAlert due r (.silent r.dropStale) := .of_view rfl
  refine hd.each (fun r v => ?_) _
  unfold replay
  split
  · exact .after { r with held := r.held.erase v } rfl (keepsAlert_recordVote _ v _)
  · exact .silent r

/-! ### Members that leave and join -/

theorem keepsAlert_removePeer (r : Replica) (id : NodeId) : KeepsAlert due r (r.removePeer id) := by
  unfold removePeer
  split
  · refine .after (r.forget id) rfl ?_
    exact (((KeepsAlert.silent _).each keepsAlert_checkAckQuorum _).andThen
      (keepsAlert_tryTally _)).andThen (keepsAlert_tryClose _)
  · exact .silent r

theorem electionView_foldl_join (history : Bool) (ids : List NodeId) (r : Replica) :
    (ids.foldl (join history) r).electionView = r.electionView := by
  induction ids generalizing r with
  | nil => rfl
  | cons id rest ih =>
      refine (ih _).trans ?_
      unfold join
      split
      · rfl
      · split <;> rfl

theorem keepsAlert_setMembers (r : Replica) (members : List NodeId) :
    KeepsAlert due r (r.setMembers members) := by
  unfold setMembers
  exact (KeepsAlert.of_view (electionView_foldl_join _ _ r)).each keepsAlert_removePeer _

/-! ### Foreign queues -/

/-- Making sure that an election is coming makes good what was missing. -/
theorem ensureElection_alert (h : r.Alert False w) :
    r.ensureElection.replica.Alert due (w || r.ensureElection.effects.wake) := by
  unfold ensureElection
  split
  · rename_i he
    refine fun hb => ⟨(h hb).1, fun he => ?_, fun _ _ => he⟩
    exact Bool.or_eq_true_iff.mpr (.inl ((h hb).2.1 he))
  · exact scheduleElection_alert fun hb => (h hb).1

theorem adopt_alert (h : r.Alert False w) (events : List Event) (update : QueueUpdate)
    (signer : Signer) :
    (r.adopt events update signer).replica.Alert due
      (w || (r.adopt events update signer).effects.wake) := by
  unfold adopt
  generalize events.filter (fun e => !r.finalized.contains e.proof) = events
  have hstore : (r.storeForeign events update signer).Alert False w := by
    unfold storeForeign
    cases update <;> exact fun hb => ⟨(h hb).1, (h hb).2.1, nofun⟩
  have hreplay : KeepsAlert False (r.storeForeign events update signer)
      (((Outcome.silent _).each announce (events.map (·.proof))).andThen replayHeld) :=
    ((KeepsAlert.silent _).each keepsAlert_announce _).andThen (keepsAlert_replayHeld _)
  have hensure : (ensureElection _).replica.Alert due _ := ensureElection_alert (hreplay hstore)
  rwa [Bool.or_assoc, ← Effects.wake_append] at hensure

theorem keepsAlert_mergeEvents (r : Replica) (events : List Event) (signer : Signer) :
    KeepsAlert due r (r.mergeEvents events signer) :=
  KeepsAlert.tellAll (fun _ h => adopt_alert (h.mono nofun id) _ .reorder signer) _

/-- A jump calls the election off, whether or not there is an event to vote for. -/
theorem Alert.fastForward (h : r.Alert due w) (round : Nat) :
    (r.fastForward round).Alert False w := by
  rcases r.fastForward_cases round with he | ⟨-, ⟨chosen, -, he⟩ | ⟨hc, he⟩⟩ <;> rw [he]
  · exact h.mono nofun id
  · exact fun _ => ⟨rfl, nofun, nofun⟩
  · exact fun _ => ⟨hc, nofun, nofun⟩

theorem keepsAlert_overwriteEvents (r : Replica) (round : Nat) (events : List Event)
    (signer : Signer) : KeepsAlert due r (r.overwriteEvents round events signer) :=
  fun _ h => adopt_alert (h.fastForward round) events .append signer

/-! ### New events -/

/-- What may be voted for is pending. -/
def Backed (r : Replica) : Prop :=
  ∀ ⦃p⦄, r.announced.contains p → r.store.contains p

theorem Backed.withStore (h : r.Backed) {store : EventStore}
    (hs : ∀ p, r.store.contains p → store.contains p) :
    ({ r with store := store } : Replica).Backed :=
  fun p hp => hs p (h hp)

theorem Backed.announce (h : r.Backed) {proof : Proof} (hs : r.store.contains proof) :
    ({ r with announced := r.announced.insert proof, electing := true } : Replica).Backed :=
  fun _ hp => (contains_insert_iff.mp hp).elim (fun he => he ▸ hs) fun hp => h hp

theorem Backed.closeRound (h : r.Backed) (chosen : Proof) : (r.closeRound chosen).Backed := by
  intro p hp
  obtain ⟨hne, hp⟩ := contains_erase_iff.mp hp
  exact (EventStore.contains_remove ..).mpr ⟨hne, h hp⟩

theorem Backed.reaction {heard : NodeId → Packet → Prop} (h : r.Backed)
    (hr : Reaction heard r o) : o.replica.Backed := by
  have update (p : Proof) (change : Event → Event) (q : Proof) (hq : r.store.contains q) :
      (r.store.update p change).contains q := (EventStore.contains_update ..).trans hq
  cases hr with
  | store _ _ _ _ _ => exact h.withStore fun p hp => (EventStore.contains_insert ..).mpr (.inr hp)
  | noteAck _ _ _ _ | count _ _ _ | release _ _ | cast _ _ _ _ => exact h.withStore (update _ _)
  | announceOwn he _ _ _ => exact h.announce (EventStore.contains_of_get? he)
  | announceHeard _ _ hs _ => exact h.announce hs
  | close _ _ => exact h.closeRound _
  | @hold voter vote _ _ _ =>
      obtain ⟨held, hh, -⟩ := hold_eq r voter vote
      rw [hh]
      exact h
  | schedule _ _ =>
      obtain ⟨electing, quiet, hs⟩ := scheduleElection_eq r
      rw [hs]
      exact h
  | _ => exact h

theorem Backed.reconfiguration (h : r.Backed) (hu : Reconfiguration r o) : o.replica.Backed := by
  cases hu with
  | jump round =>
      rw [Outcome.replica_silent]
      rcases r.fastForward_cases round with he | ⟨-, ⟨chosen, -, he⟩ | ⟨-, he⟩⟩ <;> rw [he]
      · exact h
      · exact h.closeRound chosen
      · exact h
  | @adopt events update signer _ =>
      have hw := h.withStore fun p hp =>
        (r.contains_storeForeign events update signer p).mpr (.inl hp)
      unfold storeForeign at hw ⊢
      cases update <;> exact hw
  | announceForeign hp _ => exact h.announce hp
  | _ => exact h

/-- A new event may not be voted for. -/
theorem Alert.insert (h : r.Alert due w) (hb : r.Backed) (event : Event) :
    ({ r with store := (r.store.insert event).2 } : Replica).Alert due w := by
  by_cases hs : r.store.contains event.proof
  · have hsame : (r.store.insert event).2 = r.store := by
      unfold EventStore.insert
      rw [if_pos hs]
    rw [hsame]
    exact h
  · refine fun hn => ⟨(h hn).1, (h hn).2.1, fun hd hp => (h hn).2.2 hd ?_⟩
    obtain ⟨p, hm, ha⟩ := pendingElections_pos_iff.mp hp
    rw [EventStore.queue_insert (Bool.eq_false_iff.mpr hs), List.mem_append,
      List.mem_singleton] at hm
    rcases hm with hm | rfl
    · exact pendingElections_pos_iff.mpr ⟨p, hm, ha⟩
    · exact absurd (hb ha) hs

theorem keepsAlert_sealEvent (hb : r.Backed) (now : Nat) (signer : Signer) :
    KeepsAlert due r (r.sealEvent now signer) := by
  rw [sealEvent_eq]
  split
  · exact .silent r
  · rename_i event _
    intro w h
    have he : (r.enqueue event signer).Alert due w := (h.insert hb _).congr rfl
    exact ((KeepsAlert.silent _).tellAll _).andThen (keepsAlert_checkAckQuorum _ _) he

/-! ### Packets -/

theorem keepsAlert_onPropose (hb : r.Backed) {sender : NodeId} {event : Event} {signer : Signer}
    (ho : r.onPropose sender event signer = .ok o) : KeepsAlert due r o := by
  unfold onPropose at ho
  split at ho
  · cases ho
  · cases ho
    refine KeepsAlert.andThen (fun w h => ?_) (keepsAlert_replayHeld _)
    split
    · exact KeepsAlert.of_view rfl h
    · exact KeepsAlert.of_view rfl (h.insert hb _)

theorem keepsAlert_onAck {sender : NodeId} {p : Proof} (ho : r.onAck sender p = .ok o) :
    KeepsAlert due r o := by
  unfold onAck at ho
  split at ho
  · cases ho
    exact .silent r
  · split at ho
    · cases ho
    · split at ho
      · cases ho
      · cases ho
        refine .after _ ?_ (keepsAlert_checkAckQuorum _ p)
        simp only [electionView, EventStore.queue_update]

theorem keepsAlert_onFinalize {p : Proof} (ho : r.onFinalize p = .ok o) : KeepsAlert due r o := by
  unfold onFinalize at ho
  split at ho
  · cases ho
    exact .silent r
  · split at ho
    · cases ho
      exact keepsAlert_announce r p
    · cases ho

theorem keepsAlert_onPacket (hb : r.Backed) {sender : NodeId} {packet : Packet} {signer : Signer}
    (ho : r.onPacket sender packet signer = .ok o) : KeepsAlert due r o := by
  unfold onPacket at ho
  split at ho
  · cases ho
  · cases packet with
    | propose signature event => exact keepsAlert_onPropose hb ho
    | ack p => exact keepsAlert_onAck ho
    | finalize p => exact keepsAlert_onFinalize ho
    | vote round signature p =>
        cases ho
        exact keepsAlert_recordVote r sender _
    | electorReady round =>
        cases ho
        unfold onElectorReady
        split
        · exact .after { r with ready := r.ready.insert sender } rfl (keepsAlert_tryClose _)
        · exact .silent r
    | overwriteEvents round events =>
        cases ho
        exact keepsAlert_overwriteEvents r round events signer
    | appendTransactions transactions =>
        cases ho
        exact .of_view rfl
    | hello node shard => cases ho
    | received => cases ho

/-! ### Running an election -/

/-- An election is run once it was asked for, so nothing is left of that; it votes, or finds nothing
to vote for. -/
theorem runElection_alert (hs : r.store.WellFormed) (h : r.Alert due w) :
    r.runElection.replica.Alert due r.runElection.effects.wake := by
  unfold runElection
  split
  · rename_i hn
    cases hb : r.ballot with
    | some p => exact alert_of_voted (by rw [Outcome.replica_silent, hb]; rfl)
    | none =>
        rw [hb, (h hb).1] at hn
        exact absurd hn (by simp)
  · rename_i hn
    rw [not_or, Option.not_isSome_iff_eq_none, Option.not_isSome_iff_eq_none] at hn
    split
    · rename_i hq
      refine fun _ => ⟨hn.2, nofun, fun _ hp => ?_⟩
      obtain ⟨p, hm, ha⟩ := pendingElections_pos_iff.mp hp
      exact absurd ha (List.find?_eq_none.mp hq p hm)
    · rename_i p hq
      obtain ⟨event, he⟩ := EventStore.contains_iff.mp
        (hs.queued.mp (List.mem_of_find?_eq_some hq))
      simp only [he]
      have htally : KeepsAlert due { r.countBallot r.localId ⟨r.rounds, event.signedUpdate, p⟩ with
          ballot := some p, electing := true } _ :=
        ((KeepsAlert.silent _).tellAll fun r => .vote r.rounds event.signedUpdate p).andThen
          (keepsAlert_tryTally _)
      have hvoted := htally (w := false) (alert_of_voted rfl)
      rwa [Bool.false_or] at hvoted

/-! ### Every operation -/

theorem Backed.prepare (h : r.Backed) (hp : Preparation r r') : r'.Backed := by
  cases hp with
  | none => exact h
  | enqueue event signer =>
      exact h.withStore fun p hp => (EventStore.contains_insert ..).mpr (.inr hp)
  | responses => exact h.withStore fun p hp => (r.contains_takeResponses p).trans hp
  | pending =>
      intro p hp
      exact absurd hp (by simp [takePendingEvents])
  | leftovers => exact h
  | own =>
      intro p hp
      obtain ⟨hn, hp⟩ := contains_foldl_erase.mp hp
      exact (EventStore.contains_foldl_remove ..).mpr ⟨hn, h hp⟩

theorem Backed.perform (h : r.Backed) (hg : r.Grounded) (op : Operation) :
    (r.perform op).Backed := by
  refine (perform_keeps (P := fun r => r.Grounded ∧ r.Backed) hg.store op
    (fun _ _ _ _ _ => trivial) (fun hp => ⟨hg.prepare hp, h.prepare hp⟩) ?_).2
  intro r o h hc
  refine ⟨h.1.change hc, ?_⟩
  cases hc with
  | settled hr => exact h.2.reaction hr
  | reconfiguration hu => exact h.2.reconfiguration hu

theorem keepsAlert_serve (hb : r.Backed) {input : Input} (hn : input ≠ .elect) :
    KeepsAlert due r (r.serve input) := by
  cases input with
  | addPeer id =>
      refine .of_view ?_
      unfold addPeer
      split <;> rfl
  | removePeer id => exact keepsAlert_removePeer r id
  | setMembers members => exact keepsAlert_setMembers r members
  | submit transaction => exact .of_view rfl
  | sealEvent now signer => exact keepsAlert_sealEvent hb now signer
  | elect => exact absurd rfl hn
  | retransmit signer =>
      unfold serve retransmit
      dsimp only
      split <;> exact .of_view rfl
  | merge events signer => exact keepsAlert_mergeEvents r events signer
  | sync peer =>
      refine .of_view ?_
      unfold takeSyncFor
      split <;> rfl
  | packet sender packet signer =>
      unfold serve
      dsimp only
      split
      · rename_i ho
        exact keepsAlert_onPacket hb ho
      · exact .silent r

theorem keepsAlert_answer (hb : r.Backed) {request : Request} (hn : request ≠ .serve .elect) :
    KeepsAlert due r (r.answer request) := by
  cases request with
  | serve input => exact keepsAlert_serve hb fun he => hn (he ▸ rfl)
  | overwrite round events signer => exact keepsAlert_overwriteEvents r round events signer
  | takeResponses =>
      refine .of_view ?_
      have hq : r.takeResponses.2.store.queue = r.store.queue :=
        EventStore.queue_foldl_update r.store r.store.queue
      unfold electionView
      rw [hq]
      rfl
  | takePending => exact fun _ _ _ => ⟨rfl, nofun, fun _ hp => absurd hp (Nat.lt_irrefl 0)⟩

/-- What is taken away leaves less to vote for. -/
theorem Alert.takeOwn (h : r.Alert due w) (hs : r.store.WellFormed) :
    r.takeOwnTransactions.2.Alert due w := by
  refine fun hn => ⟨(h hn).1, (h hn).2.1, fun hd hp => (h hn).2.2 hd ?_⟩
  obtain ⟨p, hm, ha⟩ := pendingElections_pos_iff.mp hp
  have hc := (hs.foldl_remove r.ownProofs).queued.mp hm
  exact pendingElections_pos_iff.mpr
    ⟨p, hs.queued.mpr ((EventStore.contains_foldl_remove ..).mp hc).2,
      (contains_foldl_erase.mp ha).2⟩

/-- What an operation asks for. -/
def asked (r : Replica) : Operation → Effects
  | .request request => (r.answer request).effects
  | .absorb _ | .takeLeftovers | .takeOwn => ∅

/-- Whether an operation runs an election. -/
def Operation.isElection : Operation → Bool
  | .request (.serve .elect) => true
  | _ => false

/-- A member's state, and whether it has asked for an election since the last one was run. -/
structure Watched where
  replica : Replica
  woken : Bool

/-- One more operation. An election that is run settles what was asked for before, and may itself
ask for another one. -/
def Watched.perform (m : Watched) (op : Operation) : Watched where
  replica := m.replica.perform op
  woken := (m.woken && !op.isElection) || (m.replica.asked op).wake

/-- The member after operations on a fresh state. -/
def watched (l : NodeId) (s : ShardId) (operations : List Operation) : Watched :=
  operations.foldl Watched.perform ⟨fresh l s, false⟩

theorem keepsAlert_perform (hs : r.store.WellFormed) (hb : r.Backed) {op : Operation}
    (hn : op.isElection = false) : KeepsAlert due r ⟨r.perform op, r.asked op⟩ := by
  cases op with
  | request request =>
      refine keepsAlert_answer hb ?_
      rintro rfl
      cases hn
  | absorb transactions => exact .of_view rfl
  | takeLeftovers => exact .of_view rfl
  | takeOwn => exact fun w h => (h.takeOwn hs).mono id fun hw => Bool.or_eq_true_iff.mpr (.inl hw)

/-- What an operation leaves to the next one. -/
structure Watched.Attended (m : Watched) : Prop where
  grounded : m.replica.Grounded
  backed : m.replica.Backed
  alert : m.replica.Alert True m.woken

theorem attended_fresh (l : NodeId) (s : ShardId) : Watched.Attended ⟨fresh l s, false⟩ where
  grounded := grounded_fresh l s
  backed p hp := by simp [fresh] at hp
  alert _ := ⟨rfl, nofun, fun _ hp => absurd hp (Nat.lt_irrefl 0)⟩

theorem Watched.Attended.perform {m : Watched} (h : m.Attended) (op : Operation) :
    (m.perform op).Attended where
  grounded := h.grounded.perform op
  backed := h.backed.perform h.grounded op
  alert := by
    cases he : op.isElection with
    | true =>
        have hr : (m.replica.perform op).Alert True (m.replica.asked op).wake := by
          unfold Operation.isElection at he
          split at he
          · exact runElection_alert h.grounded.store h.alert
          · cases he
        exact hr.mono id fun hw => Bool.or_eq_true_iff.mpr (.inr hw)
    | false =>
        have hk := keepsAlert_perform h.grounded.store h.backed he h.alert
        unfold Watched.perform
        rwa [he, Bool.not_false, Bool.and_true]

theorem attended_watched (l : NodeId) (s : ShardId) (operations : List Operation) :
    (watched l s operations).Attended := by
  have hf := attended_fresh l s
  unfold watched
  generalize (⟨fresh l s, false⟩ : Watched) = m at hf
  induction operations generalizing m with
  | nil => exact hf
  | cons op rest ih => exact ih (m.perform op) (hf.perform op)

/-- **No wake-up is lost.** After whatever operations on a member's state, in whatever order, with
whatever packets, changes of the members and foreign queues: if a pending event may be voted for,
and the member neither has voted in the round in progress nor has decided it, then an election has
been asked for since the last one was run. -/
theorem woken_of_pending (l : NodeId) (s : ShardId) (operations : List Operation) :
    let m := watched l s operations
    ∀ e ∈ m.replica.store.pendingEvents, m.replica.announced.contains e.proof →
      m.replica.ballot = none → m.replica.chosen = none → m.woken := by
  intro m e he ha hb _
  have h : m.Attended := attended_watched l s operations
  have hs := h.grounded.store
  have hq := hs.queued.mpr (EventStore.contains_of_get? (hs.mem_pendingEvents.mp he))
  obtain ⟨-, hw, hp⟩ := h.alert hb
  exact hw (hp trivial (pendingElections_pos_iff.mpr ⟨e.proof, hq, ha⟩))

/-- While a round is in progress a second event is announced, for which no election is asked: the
end of the round asks for it. -/
theorem woken_after_round :
    let m := watched ⟨"a"⟩ ⟨0⟩ <| List.map (fun input => .request (.serve input)) [
      .setMembers [⟨"a"⟩, ⟨"b"⟩],
      .submit ⟨"x", [1], none⟩,
      .sealEvent 5 (.labelled ⟨"a"⟩),
      .packet ⟨"b"⟩ (.ack "5-a") (.labelled ⟨"a"⟩),
      .elect,
      .submit ⟨"x", [2], none⟩,
      .sealEvent 6 (.labelled ⟨"a"⟩),
      .packet ⟨"b"⟩ (.ack "6-a") (.labelled ⟨"a"⟩),
      .packet ⟨"b"⟩ (.vote 0 [] "5-a") (.labelled ⟨"a"⟩),
      .packet ⟨"b"⟩ (.electorReady 0) (.labelled ⟨"a"⟩)]
    m.replica.rounds = 1 ∧ m.replica.store.queue = ["6-a"] ∧ m.woken := by
  intro m
  obtain ⟨e, he, ha⟩ : ∃ e ∈ m.replica.store.pendingEvents,
      m.replica.announced.contains e.proof := by decide +kernel
  exact ⟨by decide +kernel, by decide +kernel,
    woken_of_pending _ _ _ e he ha (by decide +kernel) (by decide +kernel)⟩

end ShardGossip.Replica

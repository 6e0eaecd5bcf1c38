import ShardGossip.Replica.Receive

/-!
# ShardGossip.Proofs.Refusals

**What is refused, and that it leaves no trace** (`refused_iff`). `onPacket` gives a state only if a
packet is accepted, so it cannot tell what a late refusal would leave behind. `handle` can: it
changes the state in place, check by check and change by change, and a refusal keeps what has been
changed so far. Both come to the same (`handle_eq`), so every refusal comes before the first change.

Which packets are refused is told by `Refuses`, with the refusal that each of them gets.
-/

namespace ShardGossip.Replica

/-! ### Handling in place -/

/-- What works on a state in place and collects effects. A refusal does not take anything back. -/
abbrev Handler := EStateM Refusal Outcome

namespace Handler

/-- Reads the state. -/
def read {α : Type} (field : Replica → α) : Handler α :=
  return field (← get).replica

/-- Makes a change, and collects its effects. -/
def change (next : Replica → Outcome) : Handler Unit :=
  modify (·.andThen next)

/-- Makes a change without effects. -/
def assign (next : Replica → Replica) : Handler Unit :=
  change fun r => .silent (next r)

/-- Asks for effects. -/
def emit (effects : Effects) : Handler Unit :=
  change fun r => ⟨r, effects⟩

end Handler

open Handler

/-- Stores a proposal unless it is committed or known, acknowledges it, and lets ballots in. -/
def handlePropose (sender : NodeId) (event : Event) (signer : Signer) : Handler Unit := do
  if event.origin ≠ sender then
    throw (.originMismatch event.proof event.origin sender)
  let proof := event.proof
  if !(← read (·.finalized.contains proof)) then
    if !(← read (·.store.contains proof)) then
      assign fun r =>
        { r with store := (r.store.insert (event.heldWith (signer.sign (Utf8.encode proof)))).2 }
  emit (.sendTo sender (.ack proof))
  change replayHeld

/-- Looks the event up, checks its origin and only then records the acknowledgement. -/
def handleAck (sender : NodeId) (proof : Proof) : Handler Unit := do
  if ← read (·.finalized.contains proof) then
    return
  match ← read (·.store.get? proof) with
  | none => throw (.unknownProof proof)
  | some event =>
    if event.origin ≠ (← read (·.localId)) then
      throw (.unexpectedPacket (Packet.ack proof).name)
    assign fun r => { r with store := r.store.update proof (·.recordAck sender) }
    change (·.checkAckQuorum proof)

/-- Announces an event that is stored and not committed. -/
def handleFinalize (proof : Proof) : Handler Unit := do
  if ← read (·.finalized.contains proof) then
    return
  if !(← read (·.store.contains proof)) then
    throw (.unknownProof proof)
  change (·.announce proof)

/-- Notes that a member is ready if it speaks of the round in progress, and closes the round if it
was the last one. -/
def handleElectorReady (sender : NodeId) (round : Nat) : Handler Unit := do
  if round = (← read (·.rounds)) then
    assign fun r => { r with ready := r.ready.insert sender }
    change tryClose

/-- Jumps to the round of the queue, and then adopts its events. -/
def handleOverwrite (round : Nat) (events : List Event) (signer : Signer) : Handler Unit := do
  assign (·.fastForward round)
  change (·.adopt events .append signer)

/-- Handles a packet from another member in place. -/
def handle (sender : NodeId) (packet : Packet) (signer : Signer) : Handler Unit := do
  if !(← read (·.peers.contains sender)) then
    throw (.unknownPeer sender)
  match packet with
  | .propose _ event => handlePropose sender event signer
  | .ack proof => handleAck sender proof
  | .finalize proof => handleFinalize proof
  | .vote round signature proof => change (·.recordVote sender ⟨round, signature, proof⟩)
  | .electorReady round => handleElectorReady sender round
  | .overwriteEvents round events => handleOverwrite round events signer
  | .appendTransactions transactions => assign (·.absorb transactions)
  | .hello .. => throw (.unexpectedPacket packet.name)
  | .received => throw (.unexpectedPacket packet.name)

/-! ### It comes to the same -/

namespace Handler

@[simp] theorem run_read {α : Type} (field : Replica → α) (o : Outcome) :
    (read field).run o = .ok (field o.replica) o := rfl

@[simp] theorem run_change (next : Replica → Outcome) (o : Outcome) :
    (change next).run o = .ok () (o.andThen next) := rfl

@[simp] theorem run_assign (next : Replica → Replica) (r : Replica) :
    (assign next).run (.silent r) = .ok () (.silent (next r)) := rfl

@[simp] theorem run_emit (effects : Effects) (r : Replica) :
    (emit effects).run (.silent r) = .ok () ⟨r, effects⟩ := rfl

end Handler

/-- What an answer leaves in place: the outcome, or the state as it was. -/
def leaves (r : Replica) : Except Refusal Outcome → EStateM.Result Refusal Outcome Unit
  | .ok o => .ok () o
  | .error e => .error e (.silent r)

variable {r : Replica} {sender : NodeId} {packet : Packet} {signer : Signer}

@[simp] theorem leaves_ok (o : Outcome) : r.leaves (.ok o) = .ok () o := rfl

@[simp] theorem leaves_error (e : Refusal) : r.leaves (.error e) = .error e (.silent r) := rfl

theorem handlePropose_eq (event : Event) :
    (handlePropose sender event signer).run (.silent r) =
      r.leaves (r.onPropose sender event signer) := by
  unfold handlePropose onPropose
  by_cases ho : event.origin = sender
  · by_cases hf : r.finalized.contains event.proof
    · simp [ho, hf]
    · by_cases hs : r.store.contains event.proof <;> simp [ho, hf, hs]
  · simp [ho]

theorem handleAck_eq (proof : Proof) :
    (handleAck sender proof).run (.silent r) = r.leaves (r.onAck sender proof) := by
  unfold handleAck onAck
  by_cases hf : r.finalized.contains proof
  · simp [hf]
  · cases he : r.store.get? proof with
    | none => simp [hf, he]
    | some event => by_cases ho : event.origin = r.localId <;> simp [hf, he, ho]

theorem handleFinalize_eq (proof : Proof) :
    (handleFinalize proof).run (.silent r) = r.leaves (r.onFinalize proof) := by
  unfold handleFinalize onFinalize
  by_cases hf : r.finalized.contains proof
  · simp [hf]
  · by_cases hs : r.store.contains proof <;> simp [hf, hs]

theorem handleElectorReady_eq (round : Nat) :
    (handleElectorReady sender round).run (.silent r) =
      .ok () (r.onElectorReady sender round) := by
  unfold handleElectorReady onElectorReady
  by_cases hr : round = r.rounds <;> simp [hr]

/-- **A refusal comes before the first change.** -/
theorem handle_eq (r : Replica) (sender : NodeId) (packet : Packet) (signer : Signer) :
    (handle sender packet signer).run (.silent r) =
      r.leaves (r.onPacket sender packet signer) := by
  unfold handle onPacket
  by_cases hs : r.peers.contains sender
  · cases packet with
    | propose signature event => simpa [hs] using handlePropose_eq event
    | ack proof => simpa [hs] using handleAck_eq proof
    | finalize proof => simpa [hs] using handleFinalize_eq proof
    | electorReady round => simpa [hs] using handleElectorReady_eq round
    | vote round signature proof => simp [hs]
    | overwriteEvents round events => simp [hs, handleOverwrite, overwriteEvents]
    | appendTransactions transactions => simp [hs]
    | hello node shard => simp [hs]
    | received => simp [hs]
  · simp [hs]

/-! ### Which packets are refused -/

/-- The refusals, each with the one reason for it. -/
inductive Refuses (r : Replica) (sender : NodeId) : Packet → Refusal → Prop where
  | stranger {packet : Packet} :
      r.peers.contains sender = false → Refuses r sender packet (.unknownPeer sender)
  | foreign {signature : Bytes} {event : Event} :
      r.peers.contains sender → event.origin ≠ sender →
      Refuses r sender (.propose signature event)
        (.originMismatch event.proof event.origin sender)
  | unknownAck {proof : Proof} :
      r.peers.contains sender → r.finalized.contains proof = false → r.store.get? proof = none →
      Refuses r sender (.ack proof) (.unknownProof proof)
  /-- Only the own events are acknowledged to this member. -/
  | misguidedAck {proof : Proof} {event : Event} :
      r.peers.contains sender → r.finalized.contains proof = false →
      r.store.get? proof = some event → event.origin ≠ r.localId →
      Refuses r sender (.ack proof) (.unexpectedPacket "ack")
  | unknownFinalize {proof : Proof} :
      r.peers.contains sender → r.finalized.contains proof = false →
      r.store.contains proof = false → Refuses r sender (.finalize proof) (.unknownProof proof)
  | hello {node : NodeId} {shard : ShardId} :
      r.peers.contains sender → Refuses r sender (.hello node shard) (.unexpectedPacket "hello")
  | received :
      r.peers.contains sender → Refuses r sender .received (.unexpectedPacket "received")

/-- Whether a packet is refused, whatever the refusal. -/
def Refused (r : Replica) (sender : NodeId) (packet : Packet) : Prop :=
  r.peers.contains sender = false ∨
    match packet with
    | .propose _ event => event.origin ≠ sender
    | .ack proof => r.finalized.contains proof = false ∧
        ∀ event, r.store.get? proof = some event → event.origin ≠ r.localId
    | .finalize proof => r.finalized.contains proof = false ∧ r.store.contains proof = false
    | .hello .. | .received => True
    | _ => False

theorem Refuses.onPacket {e : Refusal} (h : Refuses r sender packet e) (signer : Signer) :
    r.onPacket sender packet signer = .error e := by
  unfold Replica.onPacket
  cases h with
  | stranger hs => simp [hs]
  | foreign hs ho => simp [hs, onPropose, ho]
  | unknownAck hs hf he => simp [hs, onAck, hf, he]
  | misguidedAck hs hf he ho => simp [hs, onAck, hf, he, ho, Packet.name]
  | unknownFinalize hs hf he => simp [hs, onFinalize, hf, he]
  | hello hs => simp [hs, Packet.name]
  | received hs => simp [hs, Packet.name]

/-- A packet is refused for a listed reason, or none of them applies and it is accepted. -/
theorem refuses_or_accepts (r : Replica) (sender : NodeId) (packet : Packet) (signer : Signer) :
    (Refused r sender packet ∧ ∃ e, Refuses r sender packet e) ∨
      ¬ Refused r sender packet ∧ ∃ o, r.onPacket sender packet signer = .ok o := by
  unfold Refused Replica.onPacket
  by_cases hs : r.peers.contains sender
  · cases packet with
    | propose signature event =>
        by_cases ho : event.origin = sender
        · exact .inr (by simp [hs, ho, onPropose])
        · exact .inl ⟨.inr ho, _, .foreign hs ho⟩
    | ack proof =>
        by_cases hf : r.finalized.contains proof
        · exact .inr (by simp [hs, hf, onAck])
        · rw [Bool.not_eq_true] at hf
          cases he : r.store.get? proof with
          | none =>
              refine .inl ⟨.inr ⟨hf, fun event hm => ?_⟩, _, .unknownAck hs hf he⟩
              cases he.symm.trans hm
          | some event =>
              by_cases ho : event.origin = r.localId
              · exact .inr (by simp [hs, hf, he, ho, onAck])
              · refine .inl ⟨.inr ⟨hf, fun _ hm => ?_⟩, _, .misguidedAck hs hf he ho⟩
                obtain rfl := Option.some.inj (he.symm.trans hm)
                exact ho
    | finalize proof =>
        by_cases hf : r.finalized.contains proof
        · exact .inr (by simp [hs, hf, onFinalize])
        · rw [Bool.not_eq_true] at hf
          by_cases he : r.store.contains proof
          · exact .inr (by simp [hs, hf, he, onFinalize])
          · rw [Bool.not_eq_true] at he
            exact .inl ⟨.inr ⟨hf, he⟩, _, .unknownFinalize hs hf he⟩
    | hello node shard => exact .inl ⟨.inr trivial, _, .hello hs⟩
    | received => exact .inl ⟨.inr trivial, _, .received hs⟩
    | vote round signature proof => exact .inr (by simp [hs])
    | electorReady round => exact .inr (by simp [hs])
    | overwriteEvents round events => exact .inr (by simp [hs])
    | appendTransactions transactions => exact .inr (by simp [hs])
  · rw [Bool.not_eq_true] at hs
    exact .inl ⟨.inl hs, _, .stranger hs⟩

theorem onPacket_error_iff (signer : Signer) {e : Refusal} :
    r.onPacket sender packet signer = .error e ↔ Refuses r sender packet e := by
  refine ⟨fun h => ?_, fun h => h.onPacket signer⟩
  rcases refuses_or_accepts r sender packet signer with ⟨-, e', he⟩ | ⟨-, o, ho⟩
  · obtain rfl := Except.error.inj ((he.onPacket signer).symm.trans h)
    exact he
  · cases ho.symm.trans h

/-- **Refused packets change nothing, and exactly these are refused.** In any state: handled in
place, a packet is refused if and only if its sender is not a peer, it proposes an event of another
origin, it acknowledges or announces what is neither committed nor stored (or acknowledges what is
another's), or it is a greeting or a receipt; each refusal says which of these it is; the state is
then as it was in every field, and nothing has been asked for; and a packet that is not refused
comes to what `onPacket` says. -/
theorem refused_iff (r : Replica) (sender : NodeId) (packet : Packet) (signer : Signer) :
    ((∃ e o, (handle sender packet signer).run (.silent r) = .error e o) ↔
        Refused r sender packet) ∧
      (∀ e o, (handle sender packet signer).run (.silent r) = .error e o ↔
        Refuses r sender packet e ∧ o.replica = r ∧ o.effects = ∅) ∧
      ∀ o, (handle sender packet signer).run (.silent r) = .ok () o ↔
        r.onPacket sender packet signer = .ok o := by
  rw [handle_eq]
  have hexact (e : Refusal) (o : Outcome) :
      r.leaves (r.onPacket sender packet signer) = .error e o ↔
        Refuses r sender packet e ∧ o.replica = r ∧ o.effects = ∅ := by
    rw [← onPacket_error_iff signer]
    cases r.onPacket sender packet signer with
    | ok o' => exact ⟨nofun, fun h => nomatch h.1⟩
    | error e' =>
        rw [leaves_error, EStateM.Result.error.injEq, Except.error.injEq]
        constructor
        · rintro ⟨rfl, rfl⟩
          exact ⟨rfl, rfl, rfl⟩
        · obtain ⟨replica, effects⟩ := o
          rintro ⟨rfl, rfl, rfl⟩
          exact ⟨rfl, rfl⟩
  refine ⟨?_, hexact, fun o => ?_⟩
  · simp only [hexact]
    rcases refuses_or_accepts r sender packet signer with ⟨hr, e, he⟩ | ⟨hn, o, ho⟩
    · exact ⟨fun _ => hr, fun _ => ⟨e, .silent r, he, rfl, rfl⟩⟩
    · refine ⟨fun ⟨e, _, he, _⟩ => ?_, fun hr => absurd hr hn⟩
      cases ho.symm.trans (he.onPacket signer)
  · cases r.onPacket sender packet signer with
    | ok o' => simp
    | error e' => simp

end ShardGossip.Replica

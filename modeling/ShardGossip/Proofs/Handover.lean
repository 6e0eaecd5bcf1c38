import Mathlib.Data.List.Nodup
import ShardGossip.Proofs.CommitOnce

/-!
# ShardGossip.Proofs.Handover

**What a member hands over when its shard is restructured, and what of it was committed before.**
Whoever dissolves a chain takes the pending events, the own transactions or the responses out of it.
A committed event is pending until its round is closed, and the three do not leave it out: so in a
decided round the winner is handed over once more, with the very transactions that were committed,
while all the rest that is handed over is new (`handover`).
-/

namespace ShardGossip

namespace Replica

/-! ### Pending events stay what they are -/

/-- An event that is pending before and after is the same, up to what is recorded for it. -/
def Retains (s s' : EventStore) : Prop :=
  ∀ ⦃p e e'⦄, s.get? p = some e → s'.get? p = some e' → e'.forWire = e.forWire

variable {r : Replica} {o : Outcome} {s s' : EventStore} {log : List Event}
  {heard : NodeId → Packet → Prop}

theorem Retains.refl (s : EventStore) : Retains s s := by
  intro p e e' he he'
  rw [he] at he'
  rw [Option.some.inj he']

theorem retains_insert (s : EventStore) (event : Event) : Retains s (s.insert event).2 := by
  intro p e e' he he'
  rw [EventStore.get?_insert, if_neg] at he'
  · exact Retains.refl s he he'
  · rintro ⟨hn, rfl⟩
    rw [EventStore.contains_of_get? he] at hn
    cases hn

theorem retains_update (s : EventStore) (proof : Proof) {change : Event → Event}
    (hc : ∀ e, (change e).forWire = e.forWire) : Retains s (s.update proof change) := by
  intro p e e' he he'
  rw [EventStore.get?_update, he] at he'
  split at he'
  · rw [← Option.some.inj he']
    exact hc e
  · rw [Option.some.inj he']

theorem retains_remove (s : EventStore) (proof : Proof) : Retains s (s.remove proof).2 := by
  intro p e e' he he'
  rw [EventStore.get?_remove] at he'
  split at he'
  · cases he'
  · exact Retains.refl s he he'

/-- A foreign queue brings no other version of an event that is pending. -/
theorem retains_storeForeign (r : Replica) (events : List Event) (update : QueueUpdate)
    (signer : Signer) : Retains r.store (r.storeForeign events update signer).store := by
  intro p e e' he he'
  rw [get?_storeForeign, he, Option.some_or] at he'
  rw [Option.some.inj he']

theorem retains_reaction (h : Reaction heard r o) : Retains r.store o.replica.store := by
  cases h with
  | store _ _ _ _ _ => exact retains_insert _ _
  | noteAck _ _ _ _ => exact retains_update _ _ fun _ => rfl
  | count _ _ _ => exact retains_update _ _ fun _ => rfl
  | release _ _ => exact retains_update _ _ fun _ => rfl
  | cast _ _ _ _ => exact retains_update _ _ fun _ => rfl
  | close _ _ => exact retains_remove _ _
  | @hold voter vote _ _ _ =>
      obtain ⟨held, hh, -⟩ := hold_eq r voter vote
      rw [hh]
      exact .refl _
  | schedule _ _ =>
      obtain ⟨electing, quiet, hs⟩ := scheduleElection_eq r
      rw [hs]
      exact .refl _
  | _ => exact .refl _

theorem retains_change (h : Change heard r o) : Retains r.store o.replica.store := by
  cases h with
  | settled hr => exact retains_reaction hr
  | reconfiguration hu =>
      cases hu with
      | adopt update signer _ => exact retains_storeForeign r _ update signer
      | jump round =>
          rw [Outcome.replica_silent]
          rcases r.fastForward_cases round with he | ⟨-, ⟨chosen, -, he⟩ | ⟨-, he⟩⟩ <;> rw [he]
          · exact .refl _
          · exact retains_remove _ _
          · exact .refl _
      | _ => exact .refl _

/-! ### The winner of a decided round -/

/-- The winner of a decided round, which is still pending, was committed last. -/
def Pledged (log : List Event) (r : Replica) : Prop :=
  ∀ ⦃p e⦄, r.chosen = some p → r.store.get? p = some e →
    ∃ committed, log.getLast? = some committed ∧ committed.forWire = e.forWire

theorem Pledged.change (h : Pledged log r) (hw : r.WellFormed) (hc : Change heard r o) :
    Pledged (log ++ o.effects.committed) o.replica := by
  intro p e hp he
  have hr := retains_change hc
  cases Bookkeeping.change hw hc with
  | none hn hch _ =>
      rw [hch] at hp
      obtain ⟨e₀, he₀⟩ := EventStore.contains_iff.mp (hw.decided hp).2
      rw [hn, List.append_nil, hr he₀ he]
      exact h hp he₀
  | @commit event _ hs hn hch _ =>
      rw [hch] at hp
      obtain rfl := Option.some.inj hp
      exact ⟨event, by simp [hn], (hr hs he).symm⟩
  | close _ _ hch _ =>
      rw [hch] at hp
      cases hp

theorem Pledged.enqueue (h : Pledged log r) (hw : r.WellFormed) (event : Event) (signer : Signer) :
    Pledged log (r.enqueue event signer) := by
  intro p e hp he
  obtain ⟨e₀, he₀⟩ := EventStore.contains_iff.mp (hw.decided hp).2
  rw [retains_insert _ _ he₀ he]
  exact h hp he₀

theorem pledged_of_past {l : NodeId} {s : ShardId} (h : Past l s r log) : Pledged log r := by
  induction h with
  | fresh => exact fun p e hp _ => nomatch hp
  | @serve r log input hp hn ih =>
      have hA := accounted_of_past hp
      have keep {r' : Replica} (hs : Steps (Change fun _ _ => True) r' (r.serve input))
          (hr : Accounted log r' ∧ Pledged log r') :
          Pledged (log ++ (r.serve input).effects.committed) (r.serve input).replica :=
        (hs.keeps (P := fun log r => Accounted log r ∧ Pledged log r)
          (fun h hc => ⟨h.1.change hc, h.2.change h.1.wellFormed hc⟩) hr).2
      rcases hA.serve_cases hn with hs | ⟨event, signer, hf, hs⟩
      · exact keep hs ⟨hA, ih⟩
      · exact keep hs ⟨hA.enqueue signer hf, ih.enqueue hA.wellFormed event signer⟩

/-! ### Handing over -/

/-- What is remembered of the commits is the winner of a decided round, and what is no longer
pending. -/
theorem Accounted.chosen_of_recent (h : Accounted log r) {e : Event}
    (he : e ∈ r.store.pendingEvents)
    (hp : e.proof ∈ (log.map (·.proof)).reverse.take RecentProofs.capacity) :
    r.chosen = some e.proof := by
  obtain ⟨closed, hl, hf⟩ := h.records
  have hst := EventStore.contains_of_get? (h.wellFormed.store.mem_pendingEvents.mp he)
  have hn := h.wellFormed.fresh hst
  rw [RecentProofs.contains_eq_false, hf] at hn
  rw [hl] at hp
  cases hc : r.chosen with
  | none =>
      rw [hc, Option.toList_none, List.append_nil] at hp
      exact absurd hp hn
  | some winner =>
      rw [hc, Option.toList_some, List.reverse_append, List.reverse_singleton,
        List.singleton_append, RecentProofs.capacity, List.take_succ_cons, List.mem_cons] at hp
      rcases hp with hp | hp
      · rw [hp]
      · exact absurd ((List.take_subset_take_left _ (Nat.le_succ _)) hp) hn

/-- The winner of a decided round stands somewhere in the queue, and only there. -/
theorem WellFormed.exists_winner (h : r.WellFormed) :
    ∃ (before after : List Event) (winner : Option Event),
      r.store.pendingEvents = before ++ winner.toList ++ after ∧
        winner.map (·.proof) = r.chosen ∧ ∀ e ∈ before ++ after, r.chosen ≠ some e.proof := by
  cases hc : r.chosen with
  | none => exact ⟨r.store.pendingEvents, [], none, by simp, rfl, fun _ _ => nofun⟩
  | some p =>
      obtain ⟨w, hw⟩ := EventStore.contains_iff.mp (h.decided hc).2
      have hk : w.proof = p := h.store.keyed hw
      obtain ⟨before, after, hs⟩ :=
        List.append_of_mem (h.store.mem_pendingEvents.mpr (hk.symm ▸ hw))
      have hn : (r.store.pendingEvents.map (·.proof)).Nodup :=
        h.store.map_pendingEvents.symm ▸ h.store.nodup
      rw [hs, List.map_append, List.map_cons, List.nodup_middle, List.nodup_cons] at hn
      refine ⟨before, after, some w, by simp [hs], by simp [hk], fun e he heq => hn.1 ?_⟩
      rw [hk, Option.some.inj heq, ← List.map_append]
      exact List.mem_map_of_mem he

/-- **What is handed over of the past.** Whatever a member was asked for and whatever packets it
got: what it hands over when its shard is restructured is new, as far as it remembers its commits,
but for the winner of a decided round. That was the last event it committed; it is handed over once
more, with the transactions that were committed, until its round is closed. -/
theorem handover {l : NodeId} {s : ShardId} (h : Past l s r log) :
    ∃ (before after : List Event) (winner : Option Event),
      let handed := before ++ winner.toList ++ after
      r.takePendingEvents.1 = handed.map (·.forWire) ∧
      r.takeOwnTransactions.1 =
        (handed.filter (·.origin = r.localId)).flatMap (·.transactions) ++ r.unbatched ∧
      r.takeResponses.1 = handed.flatMap (·.responses) ∧
      (∀ e ∈ before ++ after, e.proof ∉ (log.map (·.proof)).reverse.take 4096) ∧
      winner.map (·.proof) = r.chosen ∧
      ∀ w ∈ winner, ∃ committed, log.getLast? = some committed ∧
        committed.forWire = w.forWire := by
  have hA := accounted_of_past h
  obtain ⟨before, after, winner, hs, hw, hn⟩ := hA.wellFormed.exists_winner
  have mem {e : Event} (he : e ∈ before ++ winner.toList ++ after) : e ∈ r.store.pendingEvents :=
    hs ▸ he
  refine ⟨before, after, winner, ?_, ?_, ?_, fun e he hp => ?_, hw, fun w hw' => ?_⟩
  · rw [takePendingEvents, hs]
  · rw [takeOwnTransactions, hs]
    rfl
  · rw [takeResponses, hs]
  · have hm : e ∈ before ++ winner.toList ++ after := by
      rw [List.append_assoc]
      rcases List.mem_append.mp he with he | he
      · exact List.mem_append_left _ he
      · exact List.mem_append_right _ (List.mem_append_right _ he)
    exact hn e he (hA.chosen_of_recent (mem hm) hp)
  · obtain rfl : winner = some w := hw'
    have hm : w ∈ before ++ (some w).toList ++ after := by simp
    exact pledged_of_past h hw.symm (hA.wellFormed.store.mem_pendingEvents.mp (mem hm))

/-- A member on its own between two rounds, which hands over what it sealed after the first. -/
theorem handover_between_rounds :
    ∃ r log, Past ⟨"a"⟩ ⟨0⟩ r log ∧ log.map (·.proof) = ["5-a"] ∧
      r.takePendingEvents.1.map (·.proof) = ["6-a"] ∧
      ∀ e ∈ r.takePendingEvents.1, e.proof ∉ (log.map (·.proof)).reverse.take 4096 := by
  have h₁ := Past.serve (i := .submit ⟨"x", [1], none⟩) (Past.fresh (l := ⟨"a"⟩) (s := ⟨0⟩)) rfl
  have h₂ := h₁.serve (i := .sealEvent 5 (.labelled ⟨"a"⟩)) (by decide +kernel)
  have h₃ := h₂.serve (i := .elect) rfl
  have h₄ := h₃.serve (i := .submit ⟨"x", [2], none⟩) rfl
  have h₅ := h₄.serve (i := .sealEvent 5 (.labelled ⟨"a"⟩)) (by decide +kernel)
  obtain ⟨before, after, winner, hp, -, -, hn, hw, -⟩ := handover h₅
  refine ⟨_, _, h₅, by decide +kernel, by decide +kernel, ?_⟩
  rw [show Replica.chosen _ = none by decide +kernel, Option.map_eq_none_iff] at hw
  subst hw
  rw [hp, Option.toList_none, List.append_nil]
  rintro e he
  obtain ⟨e', he', rfl⟩ := List.mem_map.mp he
  exact hn e' he'

/-- A member that has just decided a round with its peer, which is not ready yet. It hands over what
it has committed: the transactions that it proposed, and the response among them. -/
theorem handed_over_again :
    ∃ r log, Past ⟨"a"⟩ ⟨0⟩ r log ∧ log.map (·.proof) = ["5-a"] ∧
      log.flatMap (·.transactions) = [⟨"x", [1], none⟩, ⟨"response", [2], none⟩] ∧
      r.takeOwnTransactions.1 = [⟨"x", [1], none⟩, ⟨"response", [2], none⟩] ∧
      r.takePendingEvents.1.map (·.proof) = ["5-a"] ∧
      r.takeResponses.1 = [⟨"response", [2], none⟩] := by
  have h₁ := Past.serve (i := .addPeer ⟨"b"⟩) (Past.fresh (l := ⟨"a"⟩) (s := ⟨0⟩)) rfl
  have h₂ := h₁.serve (i := .submit ⟨"x", [1], none⟩) rfl
  have h₃ := h₂.serve (i := .submit ⟨"response", [2], none⟩) rfl
  have h₄ := h₃.serve (i := .sealEvent 5 (.labelled ⟨"a"⟩)) (by decide +kernel)
  have h₅ := h₄.serve (i := .packet ⟨"b"⟩ (.ack "5-a") (.labelled ⟨"a"⟩)) rfl
  have h₆ := h₅.serve (i := .elect) rfl
  have h₇ := h₆.serve (i := .packet ⟨"b"⟩ (.vote 0 [] "5-a") (.labelled ⟨"a"⟩)) rfl
  exact ⟨_, _, h₇, by decide +kernel, by decide +kernel, by decide +kernel, by decide +kernel,
    by decide +kernel⟩

end Replica

end ShardGossip

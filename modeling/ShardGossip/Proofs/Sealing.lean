import ShardGossip.Proofs.WellFormed

/-!
# ShardGossip.Proofs.Sealing

**What a member seals, and that its proof is its own.** The event of a seal is determined by the
state and the wall clock (`Replica.nextEvent?`); sealing stores it, proposes it, and looks at its
quorum. Its proof spells its time and its origin, and can be read back: the time has no dash.
-/

namespace ShardGossip

/-! ### Proofs spell time and origin -/

theorem toList_proofFor (timestamp : Nat) (origin : NodeId) :
    (Event.proofFor timestamp origin).toList =
      Nat.toDigits 10 timestamp ++ '-' :: origin.name.toList := by
  show (toString timestamp ++ "-" ++ toString origin).toList = _
  rw [String.toList_append, String.toList_append, Nat.toString_eq_repr, Nat.toList_repr,
    List.append_assoc]
  rfl

/-- The digits of a time end where the dash is. -/
theorem ne_dash_of_mem_toDigits {n : Nat} {c : Char} (h : c ∈ Nat.toDigits 10 n) :
    decide (c ≠ '-') := by
  rw [decide_eq_true_eq]
  rintro rfl
  have hd := Nat.isDigit_of_mem_toDigits (by decide) (by decide) h
  exact absurd hd (by decide)

/-- No two pairs of time and origin share a proof. -/
theorem proofFor_inj {t t' : Nat} {o o' : NodeId} :
    Event.proofFor t o = Event.proofFor t' o' ↔ t = t' ∧ o = o' := by
  constructor
  · intro h
    have hl := congrArg String.toList h
    rw [toList_proofFor, toList_proofFor] at hl
    -- the time stands before the first dash, whatever dashes the origin has
    have ht := congrArg (List.takeWhile (· ≠ '-')) hl
    have ho := congrArg (List.dropWhile (· ≠ '-')) hl
    rw [List.takeWhile_append_of_pos fun _ => ne_dash_of_mem_toDigits,
      List.takeWhile_append_of_pos fun _ => ne_dash_of_mem_toDigits,
      List.takeWhile_cons_of_neg (by decide), List.takeWhile_cons_of_neg (by decide),
      List.append_nil, List.append_nil] at ht
    rw [List.dropWhile_append_of_pos fun _ => ne_dash_of_mem_toDigits,
      List.dropWhile_append_of_pos fun _ => ne_dash_of_mem_toDigits,
      List.dropWhile_cons_of_neg (by decide), List.dropWhile_cons_of_neg (by decide)] at ho
    have hd := congrArg (Nat.ofDigitChars 10 · 0) ht
    rw [Nat.ofDigitChars_ten_toDigits, Nat.ofDigitChars_ten_toDigits] at hd
    refine ⟨hd, ?_⟩
    cases o
    cases o'
    rw [NodeId.mk.injEq]
    exact String.toList_inj.mp (List.cons.inj ho).2
  · rintro ⟨rfl, rfl⟩
    rfl

namespace Replica

/-! ### Sealing -/

/-- The event that sealing at a time makes, if there is anything to seal. -/
def nextEvent? (r : Replica) (now : Nat) : Option Event :=
  if r.unbatched.isEmpty then none
  else some (Event.sealed r.localId (r.nextTime now) r.unbatched)

/-- The state with a new own event, which holds all that was unbatched. -/
def enqueue (r : Replica) (event : Event) (signer : Signer) : Replica :=
  { r with
    clock := event.timestamp
    unbatched := []
    store := (r.store.insert (event.heldWith (signer.sign (Utf8.encode event.proof)))).2 }

/-- Sealing stores and proposes the next event, and looks whether it has its quorum already. -/
theorem sealEvent_eq (r : Replica) (now : Nat) (signer : Signer) :
    r.sealEvent now signer =
      match r.nextEvent? now with
      | none => .silent r
      | some event =>
        ((Outcome.silent (r.enqueue event signer)).tellAll fun _ => proposal signer event).andThen
          (·.checkAckQuorum event.proof) := by
  unfold sealEvent nextEvent?
  split <;> rfl

theorem nextEvent?_eq_some {r : Replica} {now : Nat} {event : Event}
    (h : r.nextEvent? now = some event) :
    event = Event.sealed r.localId event.timestamp event.transactions ∧
      r.clock < event.timestamp ∧ event.transactions = r.unbatched := by
  unfold nextEvent? at h
  split at h
  · cases h
  · obtain rfl := Option.some.inj h
    exact ⟨rfl, Nat.lt_of_lt_of_le (Nat.lt_succ_self _) (Nat.le_max_right ..), rfl⟩

theorem contains_enqueue {r : Replica} {event : Event} {signer : Signer} {p : Proof} :
    (r.enqueue event signer).store.contains p ↔ event.proof = p ∨ r.store.contains p :=
  EventStore.contains_insert ..

theorem WellFormed.enqueue {r : Replica} (h : r.WellFormed) {event : Event} (signer : Signer)
    (hf : r.finalized.contains event.proof = false) : (r.enqueue event signer).WellFormed :=
  { h.insert (event.heldWith (signer.sign (Utf8.encode event.proof))) hf with }

end Replica

end ShardGossip

import ShardGossip.Tally

/-!
# ShardGossip.Proofs.Tally

**The smallest of the proofs with the most ballots wins** (`tally_elects`). The winner is found in
one pass: of the best proof so far and the next one, the one that is not beaten is kept. Not to be
beaten is a total order, so the proof that is kept at the end is beaten by none, and there is only
one such proof. Members agree because they count equal maps, and two maps with as many ballots for
each proof would do as well.
-/

namespace ShardGossip

namespace Tally

variable {ballots : List Proof} {best : Option Proof} {p q r : Proof}

/-- A proof is not beaten by one with fewer ballots, nor by a greater one with as many. -/
theorem not_beats_iff : ¬beats ballots q p ↔
    ballots.count q ≤ ballots.count p ∧ (ballots.count q = ballots.count p → p ≤ q) := by
  simp only [beats, Bool.or_eq_true, Bool.and_eq_true, decide_eq_true_eq, beq_iff_eq, not_or,
    Nat.not_lt, not_and, String.not_lt]

theorem not_beats_self (ballots : List Proof) (p : Proof) : ¬beats ballots p p := by
  rw [not_beats_iff]
  exact ⟨Nat.le_refl _, fun _ => String.le_refl p⟩

theorem not_beats_trans (hrq : ¬beats ballots r q) (hqp : ¬beats ballots q p) :
    ¬beats ballots r p := by
  rw [not_beats_iff] at *
  refine ⟨Nat.le_trans hrq.1 hqp.1, fun heq => ?_⟩
  exact String.le_trans (hqp.2 (by omega)) (hrq.2 (by omega))

theorem not_beats_of_beats (h : beats ballots q p) : ¬beats ballots p q := by
  rw [not_beats_iff]
  simp only [beats, Bool.or_eq_true, Bool.and_eq_true, decide_eq_true_eq, beq_iff_eq] at h
  rcases h with hfewer | ⟨heq, hlt⟩
  · exact ⟨Nat.le_of_lt hfewer, fun heq => absurd hfewer (by omega)⟩
  · exact ⟨Nat.le_of_eq heq.symm, fun _ => String.not_lt.mp (String.lt_asymm hlt)⟩

/-- One more ballot leaves a winner: the one before or the new one, whichever is not beaten. -/
theorem better_eq_some (ballots : List Proof) (best : Option Proof) (next : Proof) :
    ∃ p, better ballots best next = some p ∧ p ∈ best.toList ++ [next] ∧
      ∀ q ∈ best.toList ++ [next], ¬beats ballots q p := by
  cases best with
  | none => exact ⟨next, rfl, by simp, by simp [not_beats_self]⟩
  | some p =>
      simp only [better]
      split
      case isTrue hnext =>
        exact ⟨next, rfl, by simp, by simp [not_beats_self, not_beats_of_beats hnext]⟩
      case isFalse hnext => exact ⟨p, rfl, by simp, by simp [not_beats_self, hnext]⟩

/-- What is kept of the best proof so far and the proofs to come is beaten by none of them. -/
theorem foldl_better_eq_some (ballots : List Proof) {l : List Proof} {best : Option Proof}
    (h : best.toList ++ l ≠ []) :
    ∃ p, l.foldl (better ballots) best = some p ∧ p ∈ best.toList ++ l ∧
      ∀ q ∈ best.toList ++ l, ¬beats ballots q p := by
  induction l generalizing best with
  | nil =>
      cases best with
      | none => exact absurd rfl h
      | some p => exact ⟨p, rfl, by simp, by simp [not_beats_self]⟩
  | cons next rest ih =>
      obtain ⟨p, hp, hmem, hbest⟩ := better_eq_some ballots best next
      have hne : (some p).toList ++ rest ≠ [] := by simp
      obtain ⟨q, hq, hqmem, hqbest⟩ := ih hne
      refine ⟨q, by rw [List.foldl_cons, hp, hq], ?_, fun r hr => ?_⟩
      · rcases List.mem_cons.mp hqmem with rfl | hrest
        · exact List.append_cons .. ▸ List.mem_append_left rest hmem
        · exact List.mem_append_right _ (List.mem_cons_of_mem next hrest)
      · rw [List.append_cons] at hr
        rcases List.mem_append.mp hr with hearly | hlate
        · exact not_beats_trans (hbest r hearly) (hqbest p (by simp))
        · exact hqbest r (List.mem_append_right _ hlate)

/-- Ballots have a winner, it is one of them, and none of them beats it. -/
theorem winner?_eq_some (h : ballots ≠ []) :
    ∃ p, winner? ballots = some p ∧ p ∈ ballots ∧ ∀ q ∈ ballots, ¬beats ballots q p := by
  have hne : (none : Option Proof).toList ++ ballots ≠ [] := h
  exact foldl_better_eq_some ballots hne

end Tally

theorem values_eq_map_toList {α β : Type} {cmp : α → α → Ordering} [Std.TransCmp cmp]
    (m : Std.ExtTreeMap α β cmp) : m.values = m.toList.map Prod.snd := by
  obtain ⟨⟨q⟩⟩ := m
  induction q using Quotient.ind with
  | _ t =>
      show t.inner.values = (Std.DTreeMap.Internal.Impl.Const.toList t.inner).map Prod.snd
      rw [Std.DTreeMap.Internal.Impl.values_eq_map_snd,
        Std.DTreeMap.Internal.Impl.Const.toList_eq_toListModel_map, List.map_map]
      rfl

theorem mem_values {α : Type} {m : NodeMap α} {a : α} :
    a ∈ m.values ↔ ∃ v : NodeId, m[v]? = some a := by
  rw [values_eq_map_toList, List.mem_map]
  constructor
  · rintro ⟨⟨v, a⟩, h, rfl⟩
    exact ⟨v, Std.ExtTreeMap.mem_toList_iff_getElem?_eq_some.mp h⟩
  · rintro ⟨v, h⟩
    exact ⟨(v, a), Std.ExtTreeMap.mem_toList_iff_getElem?_eq_some.mpr h, rfl⟩

/-- Whoever wins was voted for. -/
theorem exists_ballot_of_tally {votes : NodeMap Proof} {p : Proof} (h : tally votes = some p) :
    ∃ v : NodeId, votes[v]? = some p := by
  have hn : votes.values ≠ [] := by
    intro he
    rw [tally, he] at h
    cases h
  obtain ⟨q, hq, hm, -⟩ := Tally.winner?_eq_some hn
  obtain rfl := Option.some.inj (h.symm.trans hq)
  exact mem_values.mp hm

theorem exists_tally_of_ballot {votes : NodeMap Proof} {v : NodeId} {p : Proof}
    (h : votes[v]? = some p) : ∃ winner, tally votes = some winner := by
  obtain ⟨winner, hw, -⟩ := Tally.winner?_eq_some
    (List.ne_nil_of_mem (mem_values.mpr ⟨v, h⟩))
  exact ⟨winner, hw⟩

/-! ### The winner -/

variable {votes others : NodeMap Proof} {p q : Proof}

/-- The number of ballots for a proof. -/
def ballotsFor (votes : NodeMap Proof) (p : Proof) : Nat :=
  votes.toList.countP fun ballot => ballot.2 = p

/-- The proof is the smallest of those with the most ballots. -/
structure Leads (votes : NodeMap Proof) (p : Proof) : Prop where
  cast : ∃ voter : NodeId, votes[voter]? = some p
  most : ∀ q, ballotsFor votes q ≤ ballotsFor votes p
  smallest : ∀ q, ballotsFor votes q = ballotsFor votes p → p ≤ q

theorem count_values (votes : NodeMap Proof) (p : Proof) :
    votes.values.count p = ballotsFor votes p := by
  rw [values_eq_map_toList, List.count, List.countP_map]
  rfl

theorem ballotsFor_pos : 0 < ballotsFor votes p ↔ ∃ voter : NodeId, votes[voter]? = some p := by
  rw [← count_values, List.count_pos_iff, mem_values]

theorem Leads.eq (hp : Leads votes p) (hq : Leads votes q) : p = q := by
  have heq : ballotsFor votes p = ballotsFor votes q := Nat.le_antisymm (hq.most p) (hp.most q)
  exact String.le_antisymm (hp.smallest q heq.symm) (hq.smallest p heq)

theorem values_eq_nil : votes.values = [] ↔ votes = ∅ := by
  rw [values_eq_map_toList, List.map_eq_nil_iff, Std.ExtTreeMap.toList_eq_nil_iff]

/-- Among the proofs that were voted for, the winner is the one that leads. -/
theorem exists_leads (h : votes ≠ ∅) : ∃ p, tally votes = some p ∧ Leads votes p := by
  obtain ⟨p, hp, hmem, hbest⟩ := Tally.winner?_eq_some (mt values_eq_nil.mp h)
  have hcast := mem_values.mp hmem
  have hpos := ballotsFor_pos.mpr hcast
  have hled (q : Proof) : ballotsFor votes q ≤ ballotsFor votes p ∧
      (ballotsFor votes q = ballotsFor votes p → p ≤ q) := by
    by_cases hq : q ∈ votes.values
    · simpa only [Tally.not_beats_iff, count_values] using hbest q hq
    · -- Nobody voted for this proof, so it is behind.
      have hzero := List.count_eq_zero.mpr hq
      rw [count_values] at hzero
      exact ⟨by omega, fun heq => absurd heq (by omega)⟩
  exact ⟨p, hp, hcast, fun q => (hled q).1, fun q => (hled q).2⟩

theorem tally_eq_none : tally votes = none ↔ votes = ∅ := by
  constructor
  · intro hnone
    refine Classical.byContradiction fun h => ?_
    obtain ⟨p, hp, -⟩ := exists_leads h
    rw [hnone] at hp
    cases hp
  · rintro rfl
    rfl

theorem tally_eq_some : tally votes = some p ↔ Leads votes p := by
  constructor
  · intro hp
    have hne : votes ≠ ∅ := fun h => by rw [tally_eq_none.mpr h] at hp; cases hp
    obtain ⟨q, hq, hleads⟩ := exists_leads hne
    exact Option.some.inj (hq.symm.trans hp) ▸ hleads
  · intro hleads
    obtain ⟨voter, hcast⟩ := hleads.cast
    have hne : votes ≠ ∅ := fun h => by simp [h] at hcast
    obtain ⟨q, hq, hq'⟩ := exists_leads hne
    rw [hq, hleads.eq hq']

/-- Who cast a ballot does not matter. -/
theorem Leads.congr (h : ∀ p, ballotsFor others p = ballotsFor votes p) (hp : Leads votes p) :
    Leads others p where
  cast := by rw [← ballotsFor_pos, h, ballotsFor_pos]; exact hp.cast
  most q := by rw [h, h]; exact hp.most q
  smallest q heq := hp.smallest q (by rw [← h, ← h, heq])

/-- **The winner is the smallest of the proofs with the most ballots.** There is one unless nobody
has voted, it was voted for, and it depends on how many ballots each proof has and not on whose. -/
theorem tally_elects (votes : NodeMap Proof) :
    (tally votes = none ↔ votes = ∅) ∧ (∀ p, tally votes = some p ↔ Leads votes p) ∧
      ∀ others : NodeMap Proof, (∀ p, ballotsFor others p = ballotsFor votes p) →
        tally others = tally votes := by
  refine ⟨tally_eq_none, fun p => tally_eq_some, fun others h => Option.ext fun p => ?_⟩
  rw [tally_eq_some, tally_eq_some]
  exact ⟨Leads.congr fun p => (h p).symm, Leads.congr h⟩

/-- The greater number is written with the smaller text. -/
example : tally (((∅ : NodeMap Proof).insert ⟨"a"⟩ "9-a").insert ⟨"b"⟩ "10-b") = some "10-b" := by
  decide

end ShardGossip

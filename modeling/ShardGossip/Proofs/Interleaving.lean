import ShardGossip.EventStore.Merge
import ShardGossip.Proofs.Store

/-!
# ShardGossip.Proofs.Interleaving

**Two queues are interleaved by time.** The steps of the stable merge are written down as rules
(`Merges`); they have exactly one result, and that is the one which is computed (`merges_iff`).
`mergeByTimestamp` leaves an event out of it if an earlier one has its proof. What this means for
queues that may be in any order and may share or repeat proofs is said by `mergeByTimestamp_spec`.
-/

namespace ShardGossip

/-! ### Shuffling two lists -/

/-- Both lists together, each of them in its order. -/
inductive Shuffle {α : Type} : List α → List α → List α → Prop
  | nil : Shuffle [] [] []
  | left {a : α} {left right shuffled : List α} (rest : Shuffle left right shuffled) :
      Shuffle (a :: left) right (a :: shuffled)
  | right {a : α} {left right shuffled : List α} (rest : Shuffle left right shuffled) :
      Shuffle left (a :: right) (a :: shuffled)

namespace Shuffle

variable {α : Type} {left right shuffled kept : List α}

theorem nil_right (left : List α) : Shuffle left [] left := by
  induction left with
  | nil => exact .nil
  | cons a _ ih => exact .left ih

theorem nil_left (right : List α) : Shuffle [] right right := by
  induction right with
  | nil => exact .nil
  | cons a _ ih => exact .right ih

/-- What is kept of a shuffle is a shuffle of what is kept of the lists. -/
theorem sublist (h : Shuffle left right shuffled) (hk : kept.Sublist shuffled) :
    ∃ keptLeft keptRight, keptLeft.Sublist left ∧ keptRight.Sublist right ∧
      Shuffle keptLeft keptRight kept := by
  induction h generalizing kept with
  | nil =>
      obtain rfl := List.sublist_nil.mp hk
      exact ⟨[], [], .slnil, .slnil, .nil⟩
  | @left a _ _ _ _ ih =>
      cases hk with
      | cons _ hk =>
          obtain ⟨l, r, hl, hr, hs⟩ := ih hk
          exact ⟨l, r, hl.cons a, hr, hs⟩
      | cons_cons _ hk =>
          obtain ⟨l, r, hl, hr, hs⟩ := ih hk
          exact ⟨a :: l, r, hl.cons_cons a, hr, hs.left⟩
  | @right a _ _ _ _ ih =>
      cases hk with
      | cons _ hk =>
          obtain ⟨l, r, hl, hr, hs⟩ := ih hk
          exact ⟨l, r, hl, hr.cons a, hs⟩
      | cons_cons _ hk =>
          obtain ⟨l, r, hl, hr, hs⟩ := ih hk
          exact ⟨l, a :: r, hl, hr.cons_cons a, hs.right⟩

end Shuffle

/-! ### The stable merge -/

/-- At every step the earlier one of the two heads goes first, the left one on equal times. -/
inductive Merges : List Event → List Event → List Event → Prop
  | nil_left (right : List Event) : Merges [] right right
  | nil_right (left : List Event) : Merges left [] left
  | left {l r : Event} {left right merged : List Event} (le : l.timestamp ≤ r.timestamp)
      (rest : Merges left (r :: right) merged) : Merges (l :: left) (r :: right) (l :: merged)
  | right {l r : Event} {left right merged : List Event} (lt : r.timestamp < l.timestamp)
      (rest : Merges (l :: left) right merged) : Merges (l :: left) (r :: right) (r :: merged)

/-- The comparison that decides which head goes first. -/
def Event.notAfter (l r : Event) : Bool :=
  decide (l.timestamp ≤ r.timestamp)

theorem Event.notAfter_iff {l r : Event} : l.notAfter r ↔ l.timestamp ≤ r.timestamp :=
  decide_eq_true_iff

theorem Event.notAfter_trans (a b c : Event) (hab : a.notAfter b) (hbc : b.notAfter c) :
    a.notAfter c :=
  notAfter_iff.mpr (Nat.le_trans (notAfter_iff.mp hab) (notAfter_iff.mp hbc))

theorem Event.notAfter_total (a b : Event) : a.notAfter b || b.notAfter a := by
  rw [Bool.or_eq_true, notAfter_iff, notAfter_iff]
  exact Nat.le_total ..

variable {left right merged : List Event} {p : Proof}

theorem Merges.shuffle (h : Merges left right merged) : Shuffle left right merged := by
  induction h with
  | nil_left right => exact .nil_left right
  | nil_right left => exact .nil_right left
  | left _ _ ih => exact .left ih
  | right _ _ ih => exact .right ih

theorem Merges.eq_merge (h : Merges left right merged) :
    merged = left.merge right Event.notAfter := by
  induction h with
  | nil_left right => rw [List.nil_merge]
  | nil_right left => rw [List.merge_right]
  | left le _ ih =>
      rw [List.cons_merge_cons, if_pos (Event.notAfter_iff.mpr le), ih]
  | right lt _ ih =>
      rw [List.cons_merge_cons, if_neg (mt Event.notAfter_iff.mp (Nat.not_le.mpr lt)), ih]

theorem merges_merge (left right : List Event) :
    Merges left right (left.merge right Event.notAfter) := by
  induction left generalizing right with
  | nil =>
      rw [List.nil_merge]
      exact .nil_left right
  | cons l left ihl =>
      induction right with
      | nil =>
          rw [List.merge_right]
          exact .nil_right (l :: left)
      | cons r right ihr =>
          rw [List.cons_merge_cons]
          split
          · rename_i le
            exact .left (Event.notAfter_iff.mp le) (ihl _)
          · rename_i nle
            exact .right (Nat.not_le.mp (mt Event.notAfter_iff.mpr nle)) ihr

/-- The rules lead to one result only. -/
theorem merges_iff : Merges left right merged ↔ merged = left.merge right Event.notAfter :=
  ⟨Merges.eq_merge, fun h => h ▸ merges_merge left right⟩

/-- Queues that are in order stay in order. -/
theorem Merges.sorted (h : Merges left right merged)
    (hl : left.Pairwise (·.timestamp ≤ ·.timestamp))
    (hr : right.Pairwise (·.timestamp ≤ ·.timestamp)) :
    merged.Pairwise (·.timestamp ≤ ·.timestamp) := by
  rw [h.eq_merge]
  exact (List.pairwise_merge Event.notAfter_trans Event.notAfter_total left right
    (hl.imp Event.notAfter_iff.mpr) (hr.imp Event.notAfter_iff.mpr)).imp Event.notAfter_iff.mp

/-! ### No proof twice -/

theorem firstPerKey_sublist {α κ : Type} [DecidableEq κ] (key : α → κ) (seen : List κ)
    (l : List α) : (firstPerKey key seen l).Sublist l := by
  induction l generalizing seen with
  | nil => exact .slnil
  | cons a rest ih =>
      unfold firstPerKey
      split
      · exact (ih _).cons a
      · exact (ih _).cons_cons a

/-- The event that stands for a proof is the first one that has it. -/
theorem find?_firstPerKey {seen : List Proof} {p : Proof} (hp : p ∉ seen) (events : List Event) :
    (firstPerKey (·.proof) seen events).find? (·.proof == p) = events.find? (·.proof == p) := by
  induction events generalizing seen with
  | nil => rfl
  | cons e rest ih =>
      by_cases he : e.proof = p
      · rw [firstPerKey, if_neg (he ▸ hp), List.find?_cons, List.find?_cons, beq_iff_eq.mpr he]
      · have hrest : (e :: rest).find? (·.proof == p) = rest.find? (·.proof == p) := by
          rw [List.find?_cons, beq_eq_false_iff_ne.mpr he]
        rw [hrest, firstPerKey]
        split
        · exact ih hp
        · rw [List.find?_cons, beq_eq_false_iff_ne.mpr he]
          exact ih fun hm => (List.mem_cons.mp hm).elim (fun h => he h.symm) hp

/-- What is not found on the left is found on the right. -/
theorem find?_merge {α : Type} {le : α → α → Bool} {f : α → Bool} {left : List α}
    (h : ∀ a ∈ left, f a = false) (right : List α) :
    (left.merge right le).find? f = right.find? f := by
  induction left generalizing right with
  | nil => rw [List.nil_merge]
  | cons a left ih =>
      have ha : ¬ f a = true := Bool.eq_false_iff.mp (h a List.mem_cons_self)
      have hl := fun b hb => h b (List.mem_cons_of_mem _ hb)
      induction right with
      | nil =>
          rw [List.merge_right, List.find?_cons_of_neg ha]
          exact List.find?_eq_none.mpr fun b hb => Bool.eq_false_iff.mp (hl b hb)
      | cons b right ihr =>
          rw [List.cons_merge_cons]
          split
          · rw [List.find?_cons_of_neg ha]
            exact ih hl _
          · rw [List.find?_cons, List.find?_cons, ihr]

theorem mergeUnseen_of_next {e : Event} {left' right' : List Event}
    (h : nextByTime? left right = some (e, left', right')) (seen : List Proof) :
    mergeUnseen seen left right = if e.proof ∈ seen then mergeUnseen seen left' right'
      else e :: mergeUnseen (e.proof :: seen) left' right' := by
  rw [mergeUnseen]
  split
  · rename_i hn
    cases hn.symm.trans h
  · rename_i hs
    cases hs.symm.trans h
    rfl

/-- Taking the heads one by one is merging and then leaving out what was seen. -/
theorem Merges.mergeUnseen_eq (h : Merges left right merged) (seen : List Proof) :
    mergeUnseen seen left right = firstPerKey (·.proof) seen merged := by
  induction h generalizing seen with
  | nil_left right =>
      induction right generalizing seen with
      | nil =>
          rw [mergeUnseen]
          rfl
      | cons r rest ih =>
          have hn : nextByTime? [] (r :: rest) = some (r, [], rest) := rfl
          rw [mergeUnseen_of_next hn, firstPerKey, ih, ih]
  | nil_right left =>
      induction left generalizing seen with
      | nil =>
          rw [mergeUnseen]
          rfl
      | cons l rest ih =>
          have hn : nextByTime? (l :: rest) [] = some (l, rest, []) := rfl
          rw [mergeUnseen_of_next hn, firstPerKey, ih, ih]
  | @left l r left right _ le _ ih =>
      have hn : nextByTime? (l :: left) (r :: right) = some (l, left, r :: right) := if_pos le
      rw [mergeUnseen_of_next hn, firstPerKey, ih, ih]
  | @right l r left right _ lt _ ih =>
      have hn : nextByTime? (l :: left) (r :: right) = some (r, l :: left, right) :=
        if_neg (Nat.not_le.mpr lt)
      rw [mergeUnseen_of_next hn, firstPerKey, ih, ih]

theorem mergeByTimestamp_eq (left right : List Event) :
    mergeByTimestamp left right =
      firstPerKey (·.proof) [] (left.merge right Event.notAfter) :=
  (merges_merge left right).mergeUnseen_eq []

theorem nodup_map_mergeByTimestamp (left right : List Event) :
    ((mergeByTimestamp left right).map (·.proof)).Nodup := by
  rw [mergeByTimestamp_eq]
  exact nodup_map_firstPerKey _ _

theorem mem_map_mergeByTimestamp :
    p ∈ (mergeByTimestamp left right).map (·.proof) ↔
      p ∈ left.map (·.proof) ∨ p ∈ right.map (·.proof) := by
  rw [mergeByTimestamp_eq, mem_map_firstPerKey, and_iff_left List.not_mem_nil]
  simp only [List.mem_map, List.mem_merge, or_and_right, exists_or]

theorem find?_mergeByTimestamp (h : p ∉ left.map (·.proof)) :
    (mergeByTimestamp left right).find? (·.proof == p) = right.find? (·.proof == p) := by
  rw [mergeByTimestamp_eq, find?_firstPerKey List.not_mem_nil]
  refine find?_merge (fun e he => ?_) right
  exact beq_eq_false_iff_ne.mpr fun hp => h (List.mem_map.mpr ⟨e, he, hp⟩)

/-- **The merge of two queues by time**, whatever is in them. It is the stable merge, in which the
left queue goes first on equal times, with the first event of each proof only. So it has the proofs
of both queues, each of them once; what is kept of either queue is in the order of that queue; and
two queues in the order of time make one. -/
theorem mergeByTimestamp_spec (left right : List Event) :
    let result := mergeByTimestamp left right
    (∃ merged, (∀ m, Merges left right m ↔ m = merged) ∧ Shuffle left right merged ∧
        result = merged.eraseDupsBy fun e first => e.proof == first.proof) ∧
      (result.map (·.proof)).Nodup ∧
      (∀ p, p ∈ result.map (·.proof) ↔ p ∈ left.map (·.proof) ∨ p ∈ right.map (·.proof)) ∧
      (∃ keptLeft keptRight, keptLeft.Sublist left ∧ keptRight.Sublist right ∧
        Shuffle keptLeft keptRight result) ∧
      (left.Pairwise (·.timestamp ≤ ·.timestamp) → right.Pairwise (·.timestamp ≤ ·.timestamp) →
        result.Pairwise (·.timestamp ≤ ·.timestamp)) := by
  have hm := merges_merge left right
  have hs : (mergeByTimestamp left right).Sublist (left.merge right Event.notAfter) :=
    mergeByTimestamp_eq left right ▸ firstPerKey_sublist ..
  refine ⟨⟨_, fun m => merges_iff, hm.shuffle, ?_⟩, nodup_map_mergeByTimestamp left right,
    fun p => mem_map_mergeByTimestamp, hm.shuffle.sublist hs,
    fun hl hr => (hm.sorted hl hr).sublist hs⟩
  rw [mergeByTimestamp_eq, firstPerKey_eq,
    List.filter_eq_self.mpr fun _ _ => decide_eq_true List.not_mem_nil]

/-- A queue that is not in order stays as it is, and the repeated proof goes. -/
example :
    let event (origin : NodeId) (timestamp : Nat) := Event.sealed origin timestamp []
    (mergeByTimestamp [event ⟨"a"⟩ 1, event ⟨"a"⟩ 4, event ⟨"a"⟩ 4]
      [event ⟨"b"⟩ 2, event ⟨"b"⟩ 4, event ⟨"b"⟩ 3]).map (·.proof) =
        ["1-a", "2-b", "4-a", "4-b", "3-b"] := by
  cbv

end ShardGossip

import Mathlib.Algebra.Order.Group.Abs
import Mathlib.Algebra.Order.Ring.Int
import Mathlib.Data.List.MinMax
import ShardGossip.Proofs.Rebalancing

/-!
# ShardGossip.Proofs.EvenSplit

**A shard is split into even halves** (`ShardTable.splitShard_even`). Contracts are dealt out one by
one, each to the half that is lighter then. So the loads never get further apart than one contract
can move them (`Apart.dealContract`), and as long as all contracts weigh the same, the two halves
take turns (`TakeTurns.dealContract`). Nodes always take turns (`length_dealNode`).
-/

namespace ShardGossip

namespace Shard

variable {s : Shard} {halves : Shard × Shard} {c : Contract}

/-- Two shards are even halves of a third one, whose contracts and nodes they share. -/
structure EvenHalves (s a b : Shard) : Prop where
  shares : Shares (a, b) a.id b.id s.ledger s.roster
  occupied : a.contracts ≠ [] ∧ b.contracts ≠ []
  /-- The heaviest contract weighs as much as the loads differ, or more. -/
  loads : ∃ c ∈ s.contracts, (∀ d ∈ s.contracts, d.transactionCount ≤ c.transactionCount) ∧
    |a.load - b.load| ≤ c.transactionCount
  contracts : (∀ c ∈ s.contracts, ∀ d ∈ s.contracts, c.transactionCount = d.transactionCount) →
    a.contracts.length ≤ b.contracts.length + 1 ∧ b.contracts.length ≤ a.contracts.length + 1
  nodes : a.nodes.length ≤ b.nodes.length + 1 ∧ b.nodes.length ≤ a.nodes.length + 1

/-! ### Loads -/

/-- The loads of two halves are no further apart than a bound. -/
def Apart (bound : Int) (halves : Shard × Shard) : Prop :=
  |halves.1.load - halves.2.load| ≤ bound

theorem load_le_of_isLighter {first second : Shard} (h : second.isLighter first) :
    second.load ≤ first.load := by
  simp only [isLighter, Bool.or_eq_true, Bool.and_eq_true, decide_eq_true_eq] at h
  omega

theorem load_le_of_not_isLighter {first second : Shard} (h : ¬second.isLighter first) :
    first.load ≤ second.load := by
  simp only [isLighter, Bool.or_eq_true, Bool.and_eq_true, decide_eq_true_eq] at h
  omega

/-- A contract goes where it brings the loads together, or turns the difference round. -/
theorem Apart.dealContract {bound : Int} (h : Apart bound halves) (hc : 0 ≤ c.transactionCount)
    (hb : c.transactionCount ≤ bound) : Apart bound (Shard.dealContract halves c) := by
  simp only [Apart, abs_le] at h ⊢
  simp only [Shard.dealContract]
  split
  case isTrue hlighter =>
    have hle := load_le_of_isLighter hlighter
    simp only [pushContract]
    omega
  case isFalse hlighter =>
    have hle := load_le_of_not_isLighter hlighter
    simp only [pushContract]
    omega

/-! ### Contracts of one weight -/

/-- Two halves hold contracts of one weight, and the first half is ahead by one contract at most. -/
structure TakeTurns (weight : Int) (halves : Shard × Shard) : Prop where
  first : halves.1.load = weight * halves.1.contracts.length
  second : halves.2.load = weight * halves.2.contracts.length
  ahead : halves.2.contracts.length ≤ halves.1.contracts.length ∧
    halves.1.contracts.length ≤ halves.2.contracts.length + 1

/-- Among contracts of one weight, the lighter half is the one that holds fewer. -/
theorem TakeTurns.isLighter_iff {weight : Int} (h : TakeTurns weight halves) (hw : 0 ≤ weight) :
    halves.2.isLighter halves.1 ↔ halves.2.contracts.length < halves.1.contracts.length := by
  simp only [isLighter, Bool.or_eq_true, Bool.and_eq_true, decide_eq_true_eq, h.first, h.second]
  constructor
  · rintro (hlt | ⟨-, hlt⟩)
    · by_contra hle
      have hle : (halves.1.contracts.length : Int) ≤ halves.2.contracts.length := by omega
      exact absurd (mul_le_mul_of_nonneg_left hle hw) (by omega)
    · exact hlt
  · intro hlt
    have hle : (halves.2.contracts.length : Int) ≤ halves.1.contracts.length := by omega
    have hloads := mul_le_mul_of_nonneg_left hle hw
    omega

theorem TakeTurns.dealContract {weight : Int} (h : TakeTurns weight halves) (hw : 0 ≤ weight)
    (hc : c.transactionCount = weight) : TakeTurns weight (Shard.dealContract halves c) := by
  have hlighter := h.isLighter_iff hw
  obtain ⟨hf, hs, hle, hge⟩ := h
  simp only [Shard.dealContract]
  split
  case isTrue hyes =>
    have hlt := hlighter.mp hyes
    refine ⟨hf, ?_, ?_⟩
    · simp [pushContract, hs, hc, mul_add]
    · simp only [pushContract, List.length_append, List.length_singleton]
      omega
  case isFalse hno =>
    have hlt := mt hlighter.mpr hno
    refine ⟨?_, hs, ?_⟩
    · simp [pushContract, hf, hc, mul_add]
    · simp only [pushContract, List.length_append, List.length_singleton]
      omega

/-! ### Nodes -/

/-- The first half is ahead by one node at most. -/
def NodesTakeTurns (halves : Shard × Shard) : Prop :=
  halves.2.nodes.length ≤ halves.1.nodes.length ∧ halves.1.nodes.length ≤ halves.2.nodes.length + 1

theorem NodesTakeTurns.dealNode (h : NodesTakeTurns halves) (n : Placement) :
    NodesTakeTurns (Shard.dealNode halves n) := by
  simp only [NodesTakeTurns] at h ⊢
  simp only [Shard.dealNode]
  split
  case isTrue hlt =>
    simp only [pushNode, List.length_append, List.length_singleton]
    omega
  case isFalse hle =>
    simp only [pushNode, List.length_append, List.length_singleton]
    omega

/-- Nodes do not change the loads. -/
theorem load_dealNodes (nodes : List Placement) (halves : Shard × Shard) :
    (nodes.foldl Shard.dealNode halves).1.load = halves.1.load ∧
      (nodes.foldl Shard.dealNode halves).2.load = halves.2.load := by
  induction nodes generalizing halves with
  | nil => exact ⟨rfl, rfl⟩
  | cons n rest ih =>
      obtain ⟨hf, hs⟩ := ih (Shard.dealNode halves n)
      rw [List.foldl_cons, hf, hs]
      simp only [Shard.dealNode]
      split <;> exact ⟨rfl, rfl⟩

/-- Contracts do not change the nodes. -/
theorem nodes_dealContracts (contracts : List Contract) (halves : Shard × Shard) :
    (contracts.foldl Shard.dealContract halves).1.nodes = halves.1.nodes ∧
      (contracts.foldl Shard.dealContract halves).2.nodes = halves.2.nodes := by
  induction contracts generalizing halves with
  | nil => exact ⟨rfl, rfl⟩
  | cons c rest ih =>
      obtain ⟨hf, hs⟩ := ih (Shard.dealContract halves c)
      rw [List.foldl_cons, hf, hs]
      simp only [Shard.dealContract]
      split <;> exact ⟨rfl, rfl⟩

/-! ### Everything -/

section Split

variable (capacity : Nat) (first second : ShardId)

theorem mem_byWeight {contracts : List Contract} : c ∈ byWeight contracts ↔ c ∈ contracts :=
  List.mem_mergeSort

/-- The loads of the halves differ by one contract at most, and by the heaviest at the very most. -/
theorem apart_split {bound : Int} (hb : 0 ≤ bound)
    (hc : ∀ c ∈ s.contracts, 0 ≤ c.transactionCount ∧ c.transactionCount ≤ bound) :
    Apart bound (s.split capacity first second) := by
  have hdealt : Apart bound ((byWeight s.contracts).foldl Shard.dealContract
      (empty first capacity, empty second capacity)) := by
    refine List.foldlRecOn _ _ (by simpa [Apart, empty] using hb) ?_
    intro dealt hdealt c hmem
    obtain ⟨hpos, hle⟩ := hc c (mem_byWeight.mp hmem)
    exact hdealt.dealContract hpos hle
  obtain ⟨hf, hs⟩ := load_dealNodes s.nodes
    ((byWeight s.contracts).foldl Shard.dealContract (empty first capacity, empty second capacity))
  simp only [Apart, split, hf, hs]
  exact hdealt

theorem takeTurns_split {weight : Int} (hw : 0 ≤ weight)
    (hc : ∀ c ∈ s.contracts, c.transactionCount = weight) :
    (s.split capacity first second).2.contracts.length ≤
        (s.split capacity first second).1.contracts.length ∧
      (s.split capacity first second).1.contracts.length ≤
        (s.split capacity first second).2.contracts.length + 1 := by
  have hdealt : TakeTurns weight ((byWeight s.contracts).foldl Shard.dealContract
      (empty first capacity, empty second capacity)) := by
    refine List.foldlRecOn _ _ ⟨by simp [empty], by simp [empty], by simp [empty]⟩ ?_
    intro dealt hdealt c hmem
    exact hdealt.dealContract hw (hc c (mem_byWeight.mp hmem))
  obtain ⟨hf, hs⟩ := contracts_dealNodes s.nodes
    ((byWeight s.contracts).foldl Shard.dealContract (empty first capacity, empty second capacity))
  simp only [split, hf, hs]
  exact hdealt.ahead

theorem nodesTakeTurns_split (s : Shard) : NodesTakeTurns (s.split capacity first second) := by
  obtain ⟨hf, hs⟩ := nodes_dealContracts (byWeight s.contracts)
    (empty first capacity, empty second capacity)
  refine List.foldlRecOn _ _ ?_ fun dealt hdealt n _ => hdealt.dealNode n
  simp only [NodesTakeTurns, hf, hs]
  simp [empty]

theorem exists_heaviest (h : s.contracts ≠ []) :
    ∃ c ∈ s.contracts, ∀ d ∈ s.contracts, d.transactionCount ≤ c.transactionCount := by
  cases hm : s.contracts.argmax (·.transactionCount) with
  | none => exact absurd (List.argmax_eq_none.mp hm) h
  | some c => exact ⟨c, List.argmax_mem hm, fun d hd => List.le_of_mem_argmax hd hm⟩

/-- A shard with two contracts and no negative count is split into even halves. -/
theorem split_even (hl : 2 ≤ s.contracts.length)
    (hn : ∀ c ∈ s.contracts, 0 ≤ c.transactionCount) :
    s.EvenHalves (s.split capacity first second).1 (s.split capacity first second).2 := by
  have hshares := s.split_shares capacity first second
  obtain ⟨hfirst, hsecond⟩ := split_pos capacity first second hn hl
  obtain ⟨heaviest, hmem, hmax⟩ := exists_heaviest (s := s) (List.ne_nil_of_length_pos (by omega))
  constructor
  case shares => rw [hshares.first, hshares.second]; exact hshares
  case occupied => exact ⟨List.ne_nil_of_length_pos hfirst, List.ne_nil_of_length_pos hsecond⟩
  case loads =>
    refine ⟨heaviest, hmem, hmax, ?_⟩
    exact apart_split capacity first second (hn heaviest hmem) fun c hc => ⟨hn c hc, hmax c hc⟩
  case contracts =>
    intro hequal
    obtain ⟨hle, hge⟩ := takeTurns_split capacity first second (hn heaviest hmem)
      fun c hc => hequal c hc heaviest hmem
    omega
  case nodes =>
    have hturns := s.nodesTakeTurns_split capacity first second
    simp only [NodesTakeTurns] at hturns
    omega

end Split

end Shard

namespace ShardTable

variable {t : ShardTable} {s : Shard}

/-- **A split is balanced.** A shard with two contracts or more, none of them with a negative count,
gives two new shards that stand at the end of the table and share what it held. Both hold a
contract; their loads differ by the count of the heaviest contract at most, their contracts by one
if all counts are equal, and their nodes by one. The other shards stay, as the new ids are not
theirs. -/
theorem splitShard_even (hl : 2 ≤ s.contracts.length)
    (hn : ∀ c ∈ s.contracts, 0 ≤ c.transactionCount) (t : ShardTable) (config : ShardingConfig) :
    ∃ others a b, (t.splitShard config s).2.shards = others ++ [a, b] ∧
      (t.splitShard config s).1 = ⟨s.id, s.nodeIds, (a.id, a.nodeIds), (b.id, b.nodeIds)⟩ ∧
      s.EvenHalves a b ∧
      ((∀ s' ∈ t.shards, s'.id.number < t.nextId) → others = (t.erase s.id).shards) := by
  have hshares := t.halvesOf_shares config s
  -- the places of the halves are found by their ids
  let replace (id : ShardId) (half : Shard) (shards : List Shard) : List Shard :=
    shards.map fun other => if other.id = id then half else other
  refine ⟨replace ⟨t.nextId + 1⟩ (t.halvesOf config s).2
      (replace ⟨t.nextId⟩ (t.halvesOf config s).1 (t.erase s.id).shards),
    (t.halvesOf config s).1, (t.halvesOf config s).2, ?_, ?_, Shard.split_even _ _ _ hl hn, ?_⟩
  · have hfirst : (s.split config.shardCapacity ⟨t.nextId⟩ ⟨t.nextId + 1⟩).1.id = ⟨t.nextId⟩ :=
      hshares.first
    simp [splitShard, openShard, update, erase, halvesOf, replace, hfirst]
  · rw [hshares.first, hshares.second]
    rfl
  · intro hissued
    have hne {id : ShardId} (hid : t.nextId ≤ id.number) :
        ∀ other ∈ (t.erase s.id).shards, other.id ≠ id := by
      rintro other hother rfl
      have hlt := hissued other (List.mem_of_mem_filter hother)
      omega
    have hsame {id : ShardId} (hid : t.nextId ≤ id.number) (half : Shard) :
        replace id half (t.erase s.id).shards = (t.erase s.id).shards :=
      map_update_of_ne (hne hid) fun _ => half
    rw [hsame (Nat.le_refl _), hsame (Nat.le_succ _)]

/-- A shard with counts 5, 3 and 2 and three nodes, next to another shard. The heaviest contract is
alone in one half, and the loads are equal. -/
theorem splitShard_even_of_three :
    let s : Shard := ⟨⟨0⟩, [⟨"c", some ⟨0⟩, 2⟩, ⟨"d", some ⟨0⟩, 5⟩, ⟨"e", some ⟨0⟩, 3⟩],
      ["p", "q", "r"].map (⟨⟨·⟩, some ⟨0⟩, 1⟩), 8, 10⟩
    let t : ShardTable := ⟨[s, .empty ⟨1⟩ 8], 2⟩
    let halves := (t.splitShard .default s).2.shards
    halves.map (fun s => (s.id.number, s.ledger, s.load)) =
        [(1, [], 0), (2, [("d", 5)], 5), (3, [("e", 3), ("c", 2)], 5)] ∧
      halves.map (·.nodeIds) = [[], [⟨"p"⟩, ⟨"r"⟩], [⟨"q"⟩]] ∧
      ∃ a b, halves = [.empty ⟨1⟩ 8, a, b] ∧ s.EvenHalves a b := by
  intro s t halves
  obtain ⟨others, a, b, hab, -, heven, hothers⟩ :=
    splitShard_even (s := s) (by decide) (by decide) t .default
  rw [hothers (by decide)] at hab
  exact ⟨by cbv, by cbv, a, b, hab, heven⟩

end ShardTable

end ShardGossip

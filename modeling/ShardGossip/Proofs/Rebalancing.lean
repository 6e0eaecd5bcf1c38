import Mathlib.Algebra.GroupWithZero.Nat
import Mathlib.Logic.Function.Iterate
import ShardGossip.Proofs.CommittedTable

/-!
# ShardGossip.Proofs.Rebalancing

**Rebalancing comes to an end and does not undo itself** (`ShardManager.rebalance_settles`). What it
does to a manager's table depends on the table only (`ShardTable.rebalance`), and every time it
either changes nothing or brings down the `imbalance` of the table (`ShardTable.rebalance_cases`). A
split leaves one shard more, but no half is empty (`Shard.split_pos`), so there are fewer contracts
too many; a merge of small shards leaves one shard less.

The halves of a split shard hold too many contracts together to be merged, and a merge makes a shard
that is too small to be split.
-/

namespace ShardGossip

namespace Shard

variable {s : Shard}

/-! ### No half is empty -/

/-- Dealing out takes nothing back. -/
theorem le_dealContracts (contracts : List Contract) (halves : Shard × Shard) :
    halves.1.contracts.length ≤ (contracts.foldl dealContract halves).1.contracts.length ∧
      halves.2.contracts.length ≤ (contracts.foldl dealContract halves).2.contracts.length := by
  induction contracts generalizing halves with
  | nil => exact ⟨Nat.le_refl _, Nat.le_refl _⟩
  | cons c rest ih =>
      obtain ⟨hf, hs⟩ := ih (dealContract halves c)
      have hpush (s : Shard) : s.contracts.length ≤ (s.pushContract c).contracts.length := by
        simp [pushContract]
      rw [List.foldl_cons]
      refine ⟨Nat.le_trans ?_ hf, Nat.le_trans ?_ hs⟩ <;> unfold dealContract <;> split
      · exact Nat.le_refl _
      · exact hpush _
      · exact hpush _
      · exact Nat.le_refl _

theorem contracts_dealNodes (nodes : List Placement) (halves : Shard × Shard) :
    (nodes.foldl dealNode halves).1.contracts = halves.1.contracts ∧
      (nodes.foldl dealNode halves).2.contracts = halves.2.contracts := by
  induction nodes generalizing halves with
  | nil => exact ⟨rfl, rfl⟩
  | cons n rest ih =>
      obtain ⟨hf, hs⟩ := ih (dealNode halves n)
      rw [List.foldl_cons, hf, hs]
      unfold dealNode
      split <;> exact ⟨rfl, rfl⟩

/-- The first two contracts go to different halves. -/
theorem dealContract_two {first second : ShardId} {capacity : Nat} {c d : Contract}
    (hc : 0 ≤ c.transactionCount) :
    dealContract (dealContract (empty first capacity, empty second capacity) c) d =
      ((empty first capacity).pushContract c, (empty second capacity).pushContract d) := by
  have hfirst : dealContract (empty first capacity, empty second capacity) c =
      ((empty first capacity).pushContract c, empty second capacity) := rfl
  -- the first half has more load, or as much and more contracts
  have hlighter : (empty second capacity).isLighter ((empty first capacity).pushContract c) := by
    simp only [isLighter, empty, pushContract, List.nil_append, List.length_nil, List.length_cons,
      Int.zero_add, Bool.or_eq_true, Bool.and_eq_true, decide_eq_true_eq]
    omega
  rw [hfirst, dealContract, if_pos hlighter]

/-- **No half is empty** when a shard with two contracts is split, as long as no contract has a
negative count. -/
theorem split_pos (capacity : Nat) (first second : ShardId)
    (hn : ∀ c ∈ s.contracts, 0 ≤ c.transactionCount) (hl : 2 ≤ s.contracts.length) :
    0 < (s.split capacity first second).1.contracts.length ∧
      0 < (s.split capacity first second).2.contracts.length := by
  have hp : (byWeight s.contracts).Perm s.contracts := List.mergeSort_perm ..
  unfold split
  rw [(contracts_dealNodes ..).1, (contracts_dealNodes ..).2]
  match hb : byWeight s.contracts with
  | [] | [_] =>
      rw [← hp.length_eq, hb] at hl
      simp at hl
  | c :: d :: rest =>
      have hc : 0 ≤ c.transactionCount := hn c (hp.subset (hb ▸ List.mem_cons_self))
      rw [List.foldl_cons, List.foldl_cons, dealContract_two hc]
      have hle := le_dealContracts rest
        ((empty first capacity).pushContract c, (empty second capacity).pushContract d)
      exact ⟨Nat.lt_of_lt_of_le Nat.zero_lt_one hle.1, Nat.lt_of_lt_of_le Nat.zero_lt_one hle.2⟩

theorem length_split (s : Shard) (capacity : Nat) (first second : ShardId) :
    (s.split capacity first second).1.contracts.length +
      (s.split capacity first second).2.contracts.length = s.contracts.length := by
  have hl := (s.split_shares capacity first second).ledger.length_eq
  rwa [List.length_append, length_ledger, length_ledger, length_ledger] at hl

/-! ### How far a shard is from being small enough -/

/-- Each contract too many counts more than a shard does. -/
def weight (limit : Nat) (s : Shard) : Nat := 2 * (s.contracts.length - limit) + 1

/-- Both halves of a large shard together have less weight. -/
theorem weight_halves {limit capacity : Nat} {first second : ShardId} (hlimit : 0 < limit)
    (hl : limit < s.contracts.length) (hn : ∀ c ∈ s.contracts, 0 ≤ c.transactionCount) :
    (s.split capacity first second).1.weight limit +
      (s.split capacity first second).2.weight limit < s.weight limit := by
  obtain ⟨hf, hs⟩ := split_pos capacity first second hn (by omega)
  have ht := s.length_split capacity first second
  unfold weight
  omega

end Shard

namespace ShardTable

variable {t t' : ShardTable} {s : Shard} {old new shards : List Shard} {plans : List SplitPlan}
  {plan : MergePlan} {config : ShardingConfig} {before : List Shard} {survivor dissolved : Shard}

/-- How far the table is from being balanced. -/
def imbalance (t : ShardTable) (config : ShardingConfig) : Nat :=
  (t.shards.map (·.weight config.splitThreshold)).sum

/-- No count is negative. -/
def NonNegative (t : ShardTable) : Prop :=
  ∀ e ∈ t.ledger, 0 ≤ e.2

theorem NonNegative.of_perm (h : t.NonNegative) (hp : t'.ledger.Perm t.ledger) : t'.NonNegative :=
  fun e he => h e (hp.subset he)

theorem NonNegative.contracts (h : t.NonNegative) (hs : s ∈ t.shards) :
    ∀ c ∈ s.contracts, 0 ≤ c.transactionCount := fun c hc =>
  h c.entry (List.mem_flatMap.mpr ⟨s, hs, List.mem_map_of_mem hc⟩)

/-- The imbalance changes by the weights of the shards that give way to others. -/
theorem Redistributes.imbalance (h : t.Redistributes t' old new) (config : ShardingConfig) :
    t'.imbalance config + (old.map (·.weight config.splitThreshold)).sum =
      t.imbalance config + (new.map (·.weight config.splitThreshold)).sum := by
  obtain ⟨rest, ho, hn⟩ := h.shards
  have ho := (ho.map (·.weight config.splitThreshold)).sum_nat
  have hn := (hn.map (·.weight config.splitThreshold)).sum_nat
  rw [List.map_append, List.sum_append] at ho hn
  unfold ShardTable.imbalance
  omega

/-! ### Splitting -/

theorem imbalance_splitShard (h : t.WellFormed) (hn : t.NonNegative)
    (hlimit : 0 < config.splitThreshold) (hs : s ∈ t.shards)
    (hl : config.splitThreshold < s.contracts.length) :
    (t.splitShard config s).2.imbalance config < t.imbalance config := by
  have hi := (redistributes_split h config hs).imbalance config
  have hw : (t.halvesOf config s).1.weight config.splitThreshold +
      (t.halvesOf config s).2.weight config.splitThreshold < s.weight config.splitThreshold :=
    Shard.weight_halves hlimit hl (hn.contracts hs)
  simp only [List.map_cons, List.map_nil, List.sum_cons, List.sum_nil] at hi
  omega

/-- Each shard that is split brings the imbalance down. -/
theorem Splits.imbalance (hp : Splits config t shards plans t') (h : t.WellFormed)
    (hs : t.Splittable shards) (hn : t.NonNegative) (hlimit : 0 < config.splitThreshold)
    (hl : ∀ s ∈ shards, config.splitThreshold < s.contracts.length) :
    t'.imbalance config + shards.length ≤ t.imbalance config := by
  induction hp with
  | done t => exact Nat.le_refl _
  | @step t t' s rest plans _ ih =>
      have hm := hs.1 s List.mem_cons_self
      have hi := imbalance_splitShard h hn hlimit hm (hl s List.mem_cons_self)
      have hr := ih (h.splitShard config hm) (hs.tail h config)
        (hn.of_perm (ledger_splitShard h config hm))
        fun s' hs' => hl s' (List.mem_cons_of_mem _ hs')
      rw [List.length_cons]
      omega

/-- The two newest shards are the halves of the last one that was split. -/
theorem Splits.newest (hp : Splits config t shards plans t') (h : t.WellFormed)
    (hs : t.Splittable shards) (hne : shards ≠ []) :
    ∃ s ∈ shards, ∃ before a b, t'.shards = before ++ [a, b] ∧
      a.contracts.length + b.contracts.length = s.contracts.length := by
  induction hp with
  | done t => exact absurd rfl hne
  | @step t t' s rest plans hrest ih =>
      have hm := hs.1 s List.mem_cons_self
      by_cases hr : rest = []
      · subst hr
        cases hrest
        obtain ⟨before, after, ht, ho⟩ := h.exists_append hm
        rw [splitShard_eq h config ht ho]
        exact ⟨s, List.mem_cons_self, _, _, _, rfl, s.length_split ..⟩
      · obtain ⟨s', hs', hd⟩ := ih (h.splitShard config hm) (hs.tail h config) hr
        exact ⟨s', List.mem_cons_of_mem _ hs', hd⟩

theorem mem_overloaded :
    s ∈ t.overloaded config ↔ s ∈ t.shards ∧ config.splitThreshold < s.contracts.length := by
  rw [overloaded, List.mem_filter, decide_eq_true_eq]

/-- Each shard that is too large is split. -/
theorem parents_split (t : ShardTable) (config : ShardingConfig) :
    (t.split config).1.map (·.parent) = (t.overloaded config).map (·.id) :=
  (splits_split t config).parents

theorem split_eq_self (h : t.overloaded config = []) : t.split config = ([], t) := by
  rw [ShardTable.split, h]
  rfl

theorem imbalance_split (h : t.WellFormed) (hn : t.NonNegative)
    (hlimit : 0 < config.splitThreshold) :
    (t.split config).2.imbalance config + (t.overloaded config).length ≤ t.imbalance config :=
  (splits_split t config).imbalance h (splittable_overloaded h config) hn hlimit
    fun _ hs => (mem_overloaded.mp hs).2

/-! ### Merging -/

theorem isUnderloaded_iff :
    t.isUnderloaded config ↔ ∃ before survivor dissolved,
      t.shards = before ++ [survivor, dissolved] ∧
        survivor.contracts.length + dissolved.contracts.length ≤ config.mergeThreshold := by
  unfold isUnderloaded
  constructor
  · split
    · simp
    · next survivor dissolved hn =>
        obtain ⟨before, ht⟩ := newestTwo_eq_some.mp hn
        exact fun hle => ⟨before, survivor, dissolved, ht, of_decide_eq_true hle⟩
  · rintro ⟨before, survivor, dissolved, ht, hle⟩
    rw [ht, newestTwo_append]
    exact decide_eq_true hle

/-- What was just split is not merged. -/
theorem not_isUnderloaded_split (h : t.WellFormed)
    (hc : config.mergeThreshold < config.splitThreshold) (hne : t.overloaded config ≠ []) :
    (t.split config).2.isUnderloaded config = false := by
  obtain ⟨s, hs, before, a, b, ht, hl⟩ :=
    (splits_split t config).newest h (splittable_overloaded h config) hne
  have hlarge := (mem_overloaded.mp hs).2
  rw [Bool.eq_false_iff]
  intro hu
  obtain ⟨before', a', b', ht', hle⟩ := isUnderloaded_iff.mp hu
  obtain ⟨-, hab⟩ := List.append_inj' (ht.symm.trans ht') rfl
  cases hab
  omega

/-- Makes a merge if it is due. -/
def mergeDue (t : ShardTable) (config : ShardingConfig) : Option MergePlan × ShardTable :=
  if t.isUnderloaded config then
    match t.merge with
    | .ok (plan, t) => (some plan, t)
    | .error _ => (none, t)
  else (none, t)

theorem mergeDue_eq_self (h : t.isUnderloaded config = false) : t.mergeDue config = (none, t) := by
  rw [mergeDue, h, if_neg Bool.false_ne_true]

/-- A merge that is due can be made, of two shards that hold little enough together. -/
theorem mergeDue_of_isUnderloaded (h : t.WellFormed) (hu : t.isUnderloaded config) :
    ∃ plan t' before survivor dissolved, t.mergeDue config = (some plan, t') ∧
      t.Merges plan t' before survivor dissolved ∧
      survivor.contracts.length + dissolved.contracts.length ≤ config.mergeThreshold := by
  obtain ⟨before, survivor, dissolved, ht, hle⟩ := isUnderloaded_iff.mp hu
  cases hm : t.merge with
  | error e =>
      have hshort := t.merge_refused.mp ⟨e, hm⟩
      rw [ht, List.length_append] at hshort
      exact absurd hshort (Nat.not_lt.mpr (Nat.le_add_left _ _))
  | ok merged =>
      obtain ⟨before', survivor', dissolved', hmt⟩ := h.merges hm
      obtain ⟨-, heq⟩ := List.append_inj' (ht.symm.trans hmt.shards) rfl
      cases heq
      refine ⟨_, _, _, _, _, ?_, hmt, hle⟩
      rw [mergeDue, if_pos hu, hm]

theorem Merges.length_contracts (hm : t.Merges plan t' before survivor dissolved) :
    (survivor.absorb dissolved).contracts.length =
      survivor.contracts.length + dissolved.contracts.length := by
  have hl := congrArg List.length (Shard.absorb_eq hm.apart).2.1
  rwa [List.length_append, Shard.length_ledger, Shard.length_ledger, Shard.length_ledger] at hl

/-- A merge of small shards leaves one shard less. -/
theorem Merges.imbalance (hm : t.Merges plan t' before survivor dissolved)
    (hle : survivor.contracts.length + dissolved.contracts.length ≤ config.splitThreshold) :
    t'.imbalance config + 1 = t.imbalance config := by
  have hi := (redistributes_merge hm).imbalance config
  simp only [List.map_cons, List.map_nil, List.sum_cons, List.sum_nil, Shard.weight,
    hm.length_contracts] at hi
  omega

/-- The survivor of a merge of small shards is not split. -/
theorem Merges.survivor_not_mem (hm : t.Merges plan t' before survivor dissolved)
    (h : t'.WellFormed)
    (hle : survivor.contracts.length + dissolved.contracts.length ≤ config.splitThreshold) :
    plan.survivor ∉ (t'.overloaded config).map (·.id) := by
  intro hsplit
  obtain ⟨s, hs, hid⟩ := List.mem_map.mp hsplit
  obtain ⟨hs, hlarge⟩ := mem_overloaded.mp hs
  have hmem : survivor.absorb dissolved ∈ t'.shards := by simp [hm.table]
  have hid' : s.id = (survivor.absorb dissolved).id := by
    rw [hid, hm.plan, (Shard.absorb_eq hm.apart).1]
  obtain rfl := List.inj_on_of_nodup_map h.distinct hs hmem hid'
  rw [hm.length_contracts] at hlarge
  exact Nat.not_lt.mpr hle hlarge

/-! ### Both together -/

/-- Splits what is too large, and then makes a merge if it is due. -/
def rebalance (config : ShardingConfig) (t : ShardTable) : ShardTable :=
  ((t.split config).2.mergeDue config).2

theorem WellFormed.rebalance (h : t.WellFormed) (hn : t.NonNegative) (config : ShardingConfig) :
    (t.rebalance config).WellFormed ∧ (t.rebalance config).NonNegative := by
  obtain ⟨hw, hl, -⟩ := h.split config
  have hn := hn.of_perm hl
  unfold ShardTable.rebalance
  cases hu : (t.split config).2.isUnderloaded config with
  | false =>
      rw [mergeDue_eq_self hu]
      exact ⟨hw, hn⟩
  | true =>
      obtain ⟨_, _, _, _, _, he, hm, -⟩ := mergeDue_of_isUnderloaded hw hu
      rw [he]
      exact ⟨hw.merge hm, hn.of_perm hm.ledger⟩

/-- Rebalancing changes nothing, or brings the imbalance down. -/
theorem rebalance_cases (h : t.WellFormed) (hn : t.NonNegative)
    (hc : config.mergeThreshold < config.splitThreshold) :
    (t.overloaded config = [] ∧ t.rebalance config = t) ∨
      (t.rebalance config).imbalance config < t.imbalance config := by
  by_cases ho : t.overloaded config = []
  · unfold rebalance
    rw [split_eq_self ho]
    cases hu : t.isUnderloaded config with
    | false => exact .inl ⟨ho, congrArg Prod.snd (mergeDue_eq_self hu)⟩
    | true =>
        obtain ⟨_, _, _, _, _, he, hm, hle⟩ := mergeDue_of_isUnderloaded h hu
        right
        rw [he, ← hm.imbalance (Nat.le_trans hle (Nat.le_of_lt hc))]
        exact Nat.lt_succ_self _
  · right
    have hi := imbalance_split h hn (Nat.zero_lt_of_lt hc)
    have hpos := List.length_pos_iff.mpr ho
    rw [rebalance, mergeDue_eq_self (not_isUnderloaded_split h hc ho)]
    show (t.split config).2.imbalance config < _
    omega

/-- A table is balanced after as many times as its imbalance says, at the latest. -/
theorem WellFormed.settles (h : t.WellFormed) (hn : t.NonNegative)
    (hc : config.mergeThreshold < config.splitThreshold) :
    ∃ n ≤ t.imbalance config, ((ShardTable.rebalance config)^[n] t).overloaded config = [] ∧
      ((ShardTable.rebalance config)^[n] t).rebalance config =
        (ShardTable.rebalance config)^[n] t := by
  induction hi : t.imbalance config using Nat.strongRecOn generalizing t with
  | ind i ih =>
      subst hi
      rcases rebalance_cases h hn hc with hfixed | hlt
      · exact ⟨0, Nat.zero_le _, hfixed⟩
      · obtain ⟨hw, hn⟩ := h.rebalance hn config
        obtain ⟨n, hle, hsettled⟩ := ih _ hlt hw hn rfl
        exact ⟨n + 1, Nat.lt_of_le_of_lt hle hlt, hsettled⟩

end ShardTable

namespace ShardManager

open ShardTable

/-! ### What is left of a merge besides the chains -/

theorem takeFrom_takeResponses (r : ChainRegistry) (serial : Nat) :
    ∀ t ∈ (r.takeFrom serial (·.takeResponses)).1, t.isResponse := by
  unfold ChainRegistry.takeFrom
  split
  · exact List.forall_mem_nil _
  · exact fun t ht => Replica.isResponse_of_mem ht

/-- Carrying work over changes the chains and what was delivered. -/
theorem carryOver_rest (m : ShardManager) (plan : MergePlan) (dissolved : Nat) :
    ∃ chains delivered,
      m.carryOver plan dissolved = { m with chains := chains, delivered := delivered } := by
  have hr := takeFrom_takeResponses m.chains dissolved
  unfold carryOver
  generalize m.chains.takeFrom dissolved (·.takeResponses) = taken at hr ⊢
  obtain ⟨responses, chains⟩ := taken
  dsimp only at hr ⊢
  obtain ⟨delivered, hf⟩ : ∃ delivered,
      { m with chains := chains }.forward plan.dissolved responses =
        { m with chains := chains, delivered := delivered } := ⟨_, forward_responses _ _ _ hr⟩
  rw [hf]
  split
  · exact ⟨_, _, rfl⟩
  · generalize chains.takeFrom dissolved
      (if plan.isBridged then (·.takeLeftovers) else (·.takeOwnTransactions)) = carried
    dsimp only
    split <;> exact ⟨_, _, rfl⟩

theorem followMerge_rest (m : ShardManager) (plan : MergePlan) :
    ∃ chains delivered,
      m.followMerge plan = { m with chains := chains, delivered := delivered } := by
  unfold followMerge
  dsimp only
  split
  · split
    · obtain ⟨chains, delivered, he⟩ := carryOver_rest _ plan _
      exact ⟨chains, delivered, he⟩
    · exact ⟨_, _, rfl⟩
  · exact ⟨_, _, rfl⟩

/-- A merge that is due is made in the table, whatever state the chains are in. -/
theorem checkMerge_mergeDue (m : ShardManager) :
    ∃ chains delivered, m.checkMerge = ((m.table.mergeDue m.config).1,
      { m with
        table := (m.table.mergeDue m.config).2
        chains := chains
        delivered := delivered }) := by
  unfold checkMerge mergeDue mergeLatest
  split
  · cases m.table.merge with
    | error e => exact ⟨_, _, rfl⟩
    | ok merged =>
        obtain ⟨chains, delivered, he⟩ :=
          followMerge_rest { m with table := merged.2 } merged.1
        exact ⟨chains, delivered, congrArg (some merged.1, ·) he⟩
  · exact ⟨_, _, rfl⟩

theorem rebalance_rest (m : ShardManager) :
    ∃ chains delivered, m.rebalance =
      { m with table := m.table.rebalance m.config, chains := chains, delivered := delivered } := by
  obtain ⟨chains, he⟩ := m.checkSplit_rest
  obtain ⟨chains', delivered, he'⟩ := m.checkSplit.2.checkMerge_mergeDue
  refine ⟨chains', delivered, ?_⟩
  rw [ShardManager.rebalance, he', he]
  rfl

theorem table_iterate_rebalance (m : ShardManager) (n : Nat) :
    (ShardManager.rebalance^[n] m).table = (ShardTable.rebalance m.config)^[n] m.table := by
  induction n generalizing m with
  | zero => rfl
  | succ n ih =>
      obtain ⟨chains, delivered, he⟩ := m.rebalance_rest
      rw [Function.iterate_succ_apply, Function.iterate_succ_apply, ih, he]

/-- **Rebalancing comes to an end and does not undo itself.** Take a table that some manager gets
into, whatever the chains are like, without negative counts, and let shards merge only if they hold
less together than what is split. After a while, and at the latest after as many times as the
imbalance of the table says, rebalancing changes nothing more, and no shard is too large. When
anything is split, nothing is merged right after it; and what a merge makes is not split next. -/
theorem rebalance_settles {m m₀ : ShardManager} (h : m₀.Reached) (ht : m.table = m₀.table)
    (hn : ∀ e ∈ m.table.ledger, 0 ≤ e.2)
    (hc : m.config.mergeThreshold < m.config.splitThreshold) :
    (∃ n ≤ m.table.imbalance m.config,
        (∀ k, (ShardManager.rebalance^[n + k] m).table = (ShardManager.rebalance^[n] m).table) ∧
        ∀ s ∈ (ShardManager.rebalance^[n] m).table.shards,
          s.contracts.length ≤ m.config.splitThreshold) ∧
      (m.checkSplit.1 ≠ [] → m.checkSplit.2.checkMerge = (none, m.checkSplit.2)) ∧
      ∀ plan, m.checkMerge.1 = some plan →
        ∀ split ∈ m.checkMerge.2.checkSplit.1, split.parent ≠ plan.survivor := by
  have hw : m.table.WellFormed := ht ▸ h.inStep.table
  refine ⟨?_, fun hsplit => ?_, fun plan hplan split hsplit => ?_⟩
  · obtain ⟨n, hle, ho, hfixed⟩ := hw.settles hn hc
    refine ⟨n, hle, fun k => ?_, fun s hs => ?_⟩
    · rw [table_iterate_rebalance, table_iterate_rebalance, Nat.add_comm,
        Function.iterate_add_apply]
      exact Function.iterate_fixed hfixed k
    · rw [table_iterate_rebalance] at hs
      refine Nat.not_lt.mp fun hlarge => ?_
      exact absurd (ho ▸ mem_overloaded.mpr ⟨hs, hlarge⟩) List.not_mem_nil
  · have ho : m.table.overloaded m.config ≠ [] := fun ho =>
      hsplit (congrArg Prod.fst (split_eq_self ho))
    obtain ⟨chains, he⟩ := m.checkSplit_rest
    have hu : m.checkSplit.2.table.isUnderloaded m.checkSplit.2.config = false := by
      rw [he]
      exact not_isUnderloaded_split hw hc ho
    rw [checkMerge, hu, if_neg Bool.false_ne_true]
  · obtain ⟨chains, delivered, he⟩ := m.checkMerge_mergeDue
    cases hu : m.table.isUnderloaded m.config with
    | false =>
        rw [he, mergeDue_eq_self hu] at hplan
        cases hplan
    | true =>
        obtain ⟨plan', t', _, _, _, hd, hm, hle⟩ := mergeDue_of_isUnderloaded hw hu
        rw [he, hd] at hplan hsplit
        cases hplan
        intro hparent
        refine hm.survivor_not_mem (hw.merge hm) (Nat.le_trans hle (Nat.le_of_lt hc)) ?_
        rw [← parents_split, ← hparent]
        exact List.mem_map_of_mem hsplit

/-- A shard with five contracts, of which one has all the load. The others go to one half, which is
split once more. -/
theorem rebalance_settles_after_two :
    let m := [Deed.placeNode ⟨⟨"a"⟩, none, 1⟩, .assign (.unplaced "c" 3), .assign (.unplaced "d" 0),
        .assign (.unplaced "e" 0), .assign (.unplaced "f" 0), .assign (.unplaced "g" 0)].foldl act
      (.fresh ⟨8, 2, 1, 5⟩ (.fresh ⟨"a"⟩ .default (.labelled ⟨"a"⟩)))
    let contents (n : Nat) := (ShardManager.rebalance^[n] m).table.shards.map fun s =>
      (s.id.number, s.ledger)
    m.table.imbalance m.config = 7 ∧
      contents 1 = [(1, [("c", 3)]), (2, [("d", 0), ("e", 0), ("f", 0), ("g", 0)])] ∧
      contents 2 = [(1, [("c", 3)]), (3, [("d", 0), ("f", 0)]), (4, [("e", 0), ("g", 0)])] ∧
      (∃ n ≤ 7, ∀ k,
        (ShardManager.rebalance^[n + k] m).table = (ShardManager.rebalance^[n] m).table) ∧
      m.checkSplit.2.checkMerge = (none, m.checkSplit.2) := by
  intro m contents
  have hr : m.Reached := (Reached.fresh ..).run (by simp)
  have hi : m.table.imbalance m.config = 7 := by decide +kernel
  have hn : ∀ e ∈ m.table.ledger, 0 ≤ e.2 := by decide +kernel
  have hc : m.config.mergeThreshold < m.config.splitThreshold := by decide +kernel
  obtain ⟨⟨n, hle, hfixed, -⟩, hsplit, -⟩ := rebalance_settles hr rfl hn hc
  have ht : (m.config, m.table) = (⟨8, 2, 1, 5⟩, ⟨[⟨⟨0⟩, ["c", "d", "e", "f", "g"].map fun id =>
      ⟨id, some ⟨0⟩, if id = "c" then 3 else 0⟩, [⟨⟨"a"⟩, some ⟨0⟩, 1⟩], 8, 3⟩], 1⟩) := by
    decide +kernel
  have hcontents (n : Nat) : contents n = ((ShardTable.rebalance m.config)^[n] m.table).shards.map
      fun s => (s.id.number, s.ledger) :=
    congrArg (fun t : ShardTable => t.shards.map fun s => (s.id.number, s.ledger))
      (m.table_iterate_rebalance n)
  obtain ⟨hconfig, htable⟩ := Prod.mk.inj ht
  rw [hconfig, htable] at hcontents
  refine ⟨hi, ?_, ?_, ⟨n, hi ▸ hle, hfixed⟩, hsplit fun hnone => ?_⟩
  · rw [hcontents]
    cbv
  · rw [hcontents]
    cbv
  · have hparents := (congrArg (List.map (·.parent)) hnone).symm.trans
      (parents_split m.table m.config)
    rw [hconfig, htable] at hparents
    exact absurd hparents (by decide +kernel)

end ShardManager

end ShardGossip

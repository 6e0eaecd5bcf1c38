import Mathlib.Algebra.BigOperators.Group.Finset.Basic
import ShardGossip.Proofs.CommittedTable

/-!
# ShardGossip.Proofs.Accounts

**The table's books can be redone from the committed transactions.** However the table was split and
merged on the way, and whatever was delivered in one batch: the contracts in it are those that were
assigned, each with the number of transactions that were for it since (`usage`), and the loads of
the shards add up to them. The application got every batch, without what only was about the table
(`ShardManager.accounts_upkeep`).

What a table has on record (`ShardTable.Records`) is kept by each transaction as the history grows
by it, and by splits and merges as they are.
-/

namespace ShardGossip

open scoped List

namespace Transaction

variable {t : Transaction} {ts : List Transaction} {id : ContractId}

/-- Whether the transaction assigns a contract. -/
def assigns (t : Transaction) (id : ContractId) : Bool :=
  t.isAssignment && t.contract == some id

/-- Whether the transaction counts against a contract that is in the table. -/
def countsFor (t : Transaction) (id : ContractId) : Bool :=
  t.contract == some id && !t.isAssignment && !t.isResponse

/-- The contracts that are assigned somewhere in a history. -/
def assigned (ts : List Transaction) : Finset ContractId :=
  ((ts.filter (·.isAssignment)).filterMap (·.contract)).toFinset

/-- How often a contract is used in a history: the transactions addressed to it after its first
assignment, but for assignments and responses. -/
def usage (ts : List Transaction) (id : ContractId) : Nat :=
  (ts.dropWhile (!·.assigns id)).countP (·.countsFor id)

theorem mem_assigned : id ∈ assigned ts ↔ ∃ t ∈ ts, t.assigns id := by
  simp [assigned, assigns, and_assoc]

theorem mem_assigned_concat : id ∈ assigned (ts ++ [t]) ↔ id ∈ assigned ts ∨ t.assigns id := by
  simp only [mem_assigned, List.mem_append, List.mem_singleton, or_and_right, exists_or,
    exists_eq_left]

/-- An assignment is counted for nobody. -/
theorem countsFor_of_assigns {id' : ContractId} (h : t.assigns id) : t.countsFor id' = false := by
  have ha : t.isAssignment := by simp_all [assigns]
  simp [countsFor, ha]

theorem usage_of_not_mem (h : id ∉ assigned ts) : usage ts id = 0 := by
  have hall : ∀ t ∈ ts, (!t.assigns id) = true := by simpa [mem_assigned] using h
  rw [usage, List.dropWhile_eq_nil_iff.mpr hall, List.countP_nil]

/-- One more transaction is counted for a contract that was assigned before. -/
theorem usage_concat (ts : List Transaction) (t : Transaction) (id : ContractId) :
    usage (ts ++ [t]) id =
      usage ts id + if id ∈ assigned ts ∧ t.countsFor id then 1 else 0 := by
  by_cases h : id ∈ assigned ts
  · have hne : ts.dropWhile (!·.assigns id) ≠ [] := by
      rw [ne_eq, List.dropWhile_eq_nil_iff]
      obtain ⟨t', ht', ha⟩ := mem_assigned.mp h
      exact fun hall => absurd (hall t' ht') (by simp [ha])
    have hd : (ts ++ [t]).dropWhile (!·.assigns id) = ts.dropWhile (!·.assigns id) ++ [t] := by
      rw [List.dropWhile_append, if_neg (by simpa using hne)]
    rw [usage, hd, List.countP_append, List.countP_singleton, usage]
    simp [h]
  · rw [usage_of_not_mem h, if_neg fun hc => h hc.1]
    have hd : ts.dropWhile (!·.assigns id) = [] := by
      simpa [List.dropWhile_eq_nil_iff, mem_assigned] using h
    rw [usage, List.dropWhile_append, hd]
    by_cases ha : t.assigns id
    · simp [ha, countsFor_of_assigns ha]
    · simp [ha]

end Transaction

namespace ShardTable

open Transaction

variable {t t' : ShardTable} {config : ShardingConfig} {ts : List Transaction}
  {transaction : Transaction} {contract : ContractId}

/-- What a table without nodes has on record of a history: the assigned contracts, and how often
each of them was used. -/
structure Records (t : ShardTable) (ts : List Transaction) : Prop where
  table : t.WellFormed
  nodes : t.roster = []
  ledger : ∀ id n, (id, n) ∈ t.ledger ↔ id ∈ assigned ts ∧ n = usage ts id

theorem records_empty : Records ∅ [] := by
  refine ⟨wellFormed_empty, rfl, fun id n => ?_⟩
  rw [show (∅ : ShardTable).ledger = [] from rfl]
  simp [assigned]

theorem Records.mem_keys (h : t.Records ts) {id : ContractId} :
    id ∈ t.ledger.map Prod.fst ↔ id ∈ assigned ts := by
  simp [h.ledger]

/-- Redistributing what a table holds changes nothing on record. -/
theorem Records.perm (h : t.Records ts) (hw : t'.WellFormed) (hl : t'.ledger ~ t.ledger)
    (hn : t'.roster ~ t.roster) : t'.Records ts :=
  ⟨hw, (h.nodes ▸ hn).eq_nil, fun id n => hl.mem_iff.trans (h.ledger id n)⟩

theorem Records.split (h : t.Records ts) (config : ShardingConfig) :
    (t.split config).2.Records ts :=
  have hs := h.table.split config
  h.perm hs.1 hs.2.1 hs.2.2

theorem Records.merge (h : t.Records ts) {plan : MergePlan} (hm : t.merge = .ok (plan, t')) :
    t'.Records ts := by
  obtain ⟨before, survivor, dissolved, hm⟩ := h.table.merges hm
  exact h.perm (h.table.merge hm) hm.ledger hm.roster

/-- A transaction that places nothing and counts for none of the contracts leaves the record as it
is. -/
theorem Records.ignore (h : t.Records ts)
    (ha : ∀ id, transaction.assigns id → id ∈ assigned ts)
    (hc : ∀ id ∈ assigned ts, transaction.countsFor id = false) :
    t.Records (ts ++ [transaction]) := by
  refine ⟨h.table, h.nodes, fun id n => ?_⟩
  rw [h.ledger, mem_assigned_concat, usage_concat, or_iff_left_of_imp (ha id)]
  exact and_congr_right fun hm => by simp [hm, hc id hm]

/-- The first assignment of a contract puts it on record. -/
theorem Records.assign (h : t.Records ts) (ha : transaction.isAssignment)
    (hc : transaction.contract = some contract) {placed : Placed}
    (hp : t.assign config (.unplaced contract 0) = .ok (placed, t')) :
    t'.Records (ts ++ [transaction]) := by
  obtain ⟨hw, hl, hn⟩ := h.table.assign hp
  have hnew : contract ∉ assigned ts := h.mem_keys.not.mp (h.table.assign_eq_ok hp).1
  have has (id : ContractId) : transaction.assigns id ↔ id = contract := by
    simp only [assigns, ha, hc, Bool.true_and, beq_iff_eq, Option.some.injEq]
    exact eq_comm
  refine ⟨hw, (h.nodes ▸ hn).eq_nil, fun id n => ?_⟩
  rw [hl.mem_iff, List.mem_cons, h.ledger, mem_assigned_concat, usage_concat, has,
    countsFor_of_assigns ((has contract).mpr rfl)]
  simp only [Contract.entry, Contract.unplaced, Prod.mk.injEq, Bool.false_eq_true, and_false,
    if_false, Nat.add_zero]
  constructor
  · rintro (⟨rfl, rfl⟩ | ⟨hm, rfl⟩)
    · exact ⟨.inr rfl, by rw [usage_of_not_mem hnew]; rfl⟩
    · exact ⟨.inl hm, rfl⟩
  · rintro ⟨hm | rfl, rfl⟩
    · exact .inr ⟨hm, rfl⟩
    · exact .inl ⟨rfl, by rw [usage_of_not_mem hnew]; rfl⟩

/-- A contract on record is found, and the count is not refused. -/
theorem WellFormed.exists_count (h : t.WellFormed) {shard : ShardId}
    (hs : t.shardOfContract contract = some shard) :
    ∃ t', t.count shard contract = .ok t' := by
  obtain ⟨s, hf, rfl⟩ := Option.map_eq_some_iff.mp hs
  cases hc : t.count s.id contract with
  | ok t' => exact ⟨t', rfl⟩
  | error e =>
      have hno := (h.count_refused s.id contract).mp ⟨e, hc⟩ s (List.mem_of_find?_eq_some hf) rfl
      exact absurd (List.find?_some hf) (by simp [hno])

/-- A transaction for a contract on record is counted for it and for no other. -/
theorem Records.count (h : t.Records ts) (hc : ∀ id, transaction.countsFor id ↔ id = contract)
    (ha : ∀ id, transaction.assigns id = false) {shard : ShardId}
    (ht : t.count shard contract = .ok t') : t'.Records (ts ++ [transaction]) := by
  obtain ⟨hw, hn, n, rest, hl, hl'⟩ := h.table.count ht
  have hon : contract ∈ assigned ts ∧ n = usage ts contract :=
    (h.ledger _ _).mp (hl.symm.subset List.mem_cons_self)
  have hother (id : ContractId) (k : Int) (hne : id ≠ contract) :
      (id, k) ∈ t'.ledger ↔ (id, k) ∈ t.ledger := by
    rw [hl.mem_iff, hl'.mem_iff]
    simp [hne]
  have hkeys : contract ∉ rest.map Prod.fst :=
    (List.nodup_cons.mp ((hl.map Prod.fst).nodup_iff.mp h.table.contracts)).1
  refine ⟨hw, (h.nodes ▸ hn).eq_nil, fun id k => ?_⟩
  rw [mem_assigned_concat, usage_concat, ha]
  simp only [hc]
  by_cases hid : id = contract
  · subst hid
    have hrest : (id, k) ∉ rest := fun hm => hkeys (List.mem_map_of_mem hm)
    simp [hl'.mem_iff, hon, hrest]
  · simp [hother id k hid, h.ledger, hid]

/-- **Every committed transaction goes on record**, and only as what it is. -/
theorem Records.commit (h : t.Records ts) (config : ShardingConfig) (transaction : Transaction) :
    (t.commit config transaction).Records (ts ++ [transaction]) := by
  unfold ShardTable.commit
  cases hc : transaction.contract with
  | none =>
      refine h.ignore (fun id ha => ?_) fun id _ => ?_
      · simp [assigns, hc] at ha
      · simp [countsFor, hc]
  | some contract =>
      dsimp only
      by_cases ha : transaction.isAssignment
      · rw [if_pos ha]
        cases hp : t.assign config (.unplaced contract 0) with
        | ok placed => exact h.assign ha hc hp
        | error e =>
            have hm : contract ∈ assigned ts :=
              h.mem_keys.mp ((assign_refused t config (.unplaced contract 0)).mp ⟨e, hp⟩)
            refine h.ignore (fun id hid => ?_) fun id _ => ?_
            · simp only [assigns, ha, hc, Bool.true_and, beq_iff_eq, Option.some.injEq] at hid
              exact hid ▸ hm
            · simp [countsFor, ha]
      · rw [if_neg ha]
        have hna (id : ContractId) : transaction.assigns id = false := by simp [assigns, ha]
        by_cases hr : transaction.isResponse
        · rw [if_pos hr]
          exact h.ignore (fun id hid => by simp [hna] at hid) fun id _ => by simp [countsFor, hr]
        · rw [if_neg hr]
          have hcf (id : ContractId) : transaction.countsFor id ↔ id = contract := by
            simp only [countsFor, hc, ha, hr, Bool.not_false, Bool.and_true, beq_iff_eq,
              Option.some.injEq]
            exact eq_comm
          cases hs : t.shardOfContract contract with
          | none =>
              have hm : contract ∉ assigned ts := h.mem_keys.not.mp (shardOfContract_eq_none.mp hs)
              refine h.ignore (fun id hid => by simp [hna] at hid) fun id hid => ?_
              exact Bool.eq_false_iff.mpr fun hid' => hm ((hcf id).mp hid' ▸ hid)
          | some shard =>
              obtain ⟨t', ht⟩ := h.table.exists_count hs
              dsimp only
              rw [ht]
              exact (h.count hcf hna ht).split config

theorem Records.foldl_commit (h : t.Records ts) (config : ShardingConfig)
    (more : List Transaction) : (more.foldl (ShardTable.commit config) t).Records (ts ++ more) := by
  induction more generalizing t ts with
  | nil => rwa [List.append_nil]
  | cons transaction rest ih =>
      rw [List.append_cons]
      exact ih (h.commit config transaction)

/-- What can be read off a table about a history. -/
structure Accounts (t : ShardTable) (ts : List Transaction) : Prop where
  /-- Every assigned contract is in the table once, with its usage, and no other contract is. -/
  contracts : ∀ id, t.ledger.filter (·.1 = id) =
    if id ∈ assigned ts then [(id, (usage ts id : Int))] else []
  /-- The loads of all shards add up to the usages of all contracts. -/
  load : (t.shards.map (·.load)).sum = ∑ id ∈ assigned ts, (usage ts id : Int)

theorem WellFormed.sum_load (h : t.WellFormed) :
    (t.shards.map (·.load)).sum = (t.ledger.map Prod.snd).sum := by
  have hs : t.shards.map (·.load) = t.shards.map fun s => (s.ledger.map Prod.snd).sum :=
    List.map_congr_left fun s hs => by
      rw [(h.tidy s hs).load, Shard.ledger, List.map_map]
      rfl
  rw [hs, ledger, List.map_flatMap, List.flatMap_def, List.sum_flatten, List.map_map]
  rfl

theorem Records.accounts (h : t.Records ts) : t.Accounts ts := by
  have hn : t.ledger.Nodup := List.Nodup.of_map _ h.table.contracts
  refine ⟨fun id => ?_, ?_⟩
  · split
    · next hid =>
        refine List.perm_singleton.mp ((List.perm_ext_iff_of_nodup (hn.filter _)
          (List.nodup_singleton _)).mpr ?_)
        rintro ⟨id', n⟩
        simp only [List.mem_filter, h.ledger, decide_eq_true_eq, List.mem_singleton, Prod.mk.injEq]
        constructor
        · rintro ⟨⟨-, rfl⟩, rfl⟩
          exact ⟨rfl, rfl⟩
        · rintro ⟨rfl, rfl⟩
          exact ⟨⟨hid, rfl⟩, rfl⟩
    · next hid =>
        rw [List.filter_eq_nil_iff]
        rintro ⟨id', n⟩ hm he
        exact hid (of_decide_eq_true he ▸ ((h.ledger _ _).mp hm).1)
  · have hsnd : t.ledger.map Prod.snd =
        (t.ledger.map Prod.fst).map fun id => (usage ts id : Int) := by
      rw [List.map_map]
      exact List.map_congr_left fun e he => ((h.ledger e.1 e.2).mp he).2
    have hids : (t.ledger.map Prod.fst).toFinset = assigned ts :=
      Finset.ext fun id => List.mem_toFinset.trans h.mem_keys
    rw [h.table.sum_load, hsnd, ← hids, List.sum_toFinset _ h.table.contracts]

end ShardTable

namespace ShardManager

open Transaction ShardTable

variable {m m' : ShardManager}

/-! ### Merging shards without nodes -/

theorem followMerge_of_foreign {plan : MergePlan}
    (h : plan.dissolvedMembers.contains m.localId = false) :
    ∃ chains, m.followMerge plan = { m with chains := chains } := by
  have hl : (m.chains.remove plan.dissolved).2.localId = m.localId := by
    unfold ChainRegistry.remove
    split <;> rfl
  unfold followMerge
  generalize m.chains.remove plan.dissolved = removed at hl ⊢
  obtain ⟨chain, chains⟩ := removed
  cases chain with
  | none => exact ⟨_, rfl⟩
  | some c =>
      refine ⟨_, if_neg ?_⟩
      rw [localId_syncChain, show ShardManager.localId { m with chains := chains } = _ from hl, h]
      exact Bool.false_ne_true

/-- A merge of shards without nodes changes the table and the chains, if it is due. -/
theorem checkMerge_rest {ts : List Transaction} (h : m.table.Records ts) :
    ∃ table chains, m.checkMerge.2 = { m with table := table, chains := chains } ∧
      table.Records ts := by
  have hsame : ∃ table chains, m = { m with table := table, chains := chains } ∧
      table.Records ts := ⟨m.table, m.chains, rfl, h⟩
  unfold checkMerge
  split
  · split
    · next plan m' hm =>
        obtain ⟨table, ht, rfl⟩ := mergeLatest_eq_ok hm
        obtain ⟨before, survivor, dissolved, hmt⟩ := h.table.merges ht
        have hnone : plan.dissolvedMembers = [] := by
          have hr := (nodeIds_eq_roster m.table).trans (by rw [h.nodes, List.map_nil])
          rw [hmt.plan]
          exact List.flatMap_eq_nil_iff.mp hr dissolved (by simp [hmt.shards])
        have hforeign : plan.dissolvedMembers.contains m.localId = false := by
          rw [hnone]
          rfl
        obtain ⟨chains, he⟩ := followMerge_of_foreign (m := { m with table := table }) hforeign
        exact ⟨table, chains, he, h.merge ht⟩
    · exact hsame
  · exact hsame

/-! ### A history of batches, splits and merges -/

/-- Something that happens to a table that follows committed transactions. -/
inductive Upkeep where
  /-- A batch is shown to the table. -/
  | batch (shard : ShardId) (transactions : List Transaction)
  | checkSplit
  | checkMerge

/-- The batches of a history. -/
def Upkeep.batches : List Upkeep → List Batch
  | [] => []
  | .batch shard transactions :: rest => (shard, transactions) :: batches rest
  | .checkSplit :: rest => batches rest
  | .checkMerge :: rest => batches rest

/-- Does it. -/
def upkeep (m : ShardManager) : Upkeep → ShardManager
  | .batch shard transactions => m.deliver .tracker shard transactions
  | .checkSplit => m.checkSplit.2
  | .checkMerge => m.checkMerge.2

/-- What is to reach the application: the batches without contract assignments, but for those that
are empty then. -/
def passedOn (batches : List Batch) : List Batch :=
  (batches.map fun batch => (batch.1, batch.2.filter (!·.isAssignment))).filter (!·.2.isEmpty)

theorem passedOn_append (batches batches' : List Batch) :
    passedOn (batches ++ batches') = passedOn batches ++ passedOn batches' := by
  simp [passedOn]

/-- The table has the transactions of some batches on record, and the application got the rest. -/
structure Tracks (m : ShardManager) (forwards : Bool) (batches : List Batch) : Prop where
  records : m.table.Records (batches.flatMap (·.2))
  forwarding : m.forwards = forwards
  delivered : m.delivered = if forwards then passedOn batches else []

variable {forwards : Bool} {batches : List Batch}

theorem tracks_fresh (config : ShardingConfig) (chains : ChainRegistry) (forwards : Bool) :
    Tracks { fresh config chains with forwards := forwards } forwards [] :=
  ⟨records_empty, rfl, by cases forwards <;> rfl⟩

theorem Tracks.batch (h : m.Tracks forwards batches) (shard : ShardId) (ts : List Transaction) :
    (m.deliver .tracker shard ts).Tracks forwards (batches ++ [(shard, ts)]) := by
  obtain ⟨chains, he⟩ := m.deliver_tracker shard ts
  rw [he]
  refine ⟨?_, h.forwarding, ?_⟩
  · rw [List.flatMap_append, List.flatMap_singleton]
    exact h.records.foldl_commit m.config ts
  · rw [h.delivered, h.forwarding, passedOn_append]
    cases forwards
    · rfl
    · by_cases hr : (ts.filter (!·.isAssignment)).isEmpty <;> simp [passedOn, hr]

theorem Tracks.checkSplit (h : m.Tracks forwards batches) :
    m.checkSplit.2.Tracks forwards batches := by
  obtain ⟨chains, he⟩ := m.checkSplit_rest
  rw [he]
  exact ⟨h.records.split m.config, h.forwarding, h.delivered⟩

theorem Tracks.checkMerge (h : m.Tracks forwards batches) :
    m.checkMerge.2.Tracks forwards batches := by
  obtain ⟨table, chains, he, hr⟩ := checkMerge_rest h.records
  rw [he]
  exact ⟨hr, h.forwarding, h.delivered⟩

theorem Tracks.run (h : m.Tracks forwards batches) (steps : List Upkeep) :
    (steps.foldl upkeep m).Tracks forwards (batches ++ Upkeep.batches steps) := by
  induction steps generalizing m batches with
  | nil => exact (List.append_nil batches).symm ▸ h
  | cons step rest ih =>
      cases step with
      | batch shard ts =>
          rw [Upkeep.batches, List.append_cons]
          exact ih (h.batch shard ts)
      | checkSplit => exact ih h.checkSplit
      | checkMerge => exact ih h.checkMerge

/-- **The books can be redone from the committed transactions.** A manager starts without shards;
batches are delivered, and shards are split and merged in between. Then every contract that was
assigned is in the table once, with the number of transactions that were for it since, the loads add
up to these, and the application got every batch in order, without contract assignments. -/
theorem accounts_upkeep (config : ShardingConfig) (chains : ChainRegistry) (forwards : Bool)
    (steps : List Upkeep) :
    let m := steps.foldl upkeep { fresh config chains with forwards := forwards }
    m.table.Accounts ((Upkeep.batches steps).flatMap (·.2)) ∧
      m.delivered = if forwards then passedOn (Upkeep.batches steps) else [] := by
  have h := (tracks_fresh config chains forwards).run steps
  rw [List.nil_append] at h
  exact ⟨h.records.accounts, h.delivered⟩

/-- The first of two contracts is used before it is assigned, and the second is assigned twice. The
shard that holds both is split by the first use that counts, and merged again. -/
example :
    let steps : List Upkeep := [.batch ⟨3⟩ [⟨"x", [], some "c"⟩, .assignment "c", .assignment "d"],
      .batch ⟨0⟩ [⟨"x", [], some "c"⟩, .assignment "d", ⟨"response", [], some "d"⟩], .checkMerge]
    let m := steps.foldl upkeep
      { fresh ⟨4, 1, 2, 5⟩ (.fresh ⟨"a"⟩ .default (.labelled ⟨"a"⟩)) with forwards := true }
    m.table.shards.map (fun s => (s.id, s.ledger)) = [(⟨1⟩, [("c", 1), ("d", 0)])] ∧
      m.delivered.map (·.2.length) = [1, 2] := by
  cbv

end ShardManager

end ShardGossip

import ShardGossip.Proofs.Placement

/-!
# ShardGossip.Proofs.CommittedTable

**A table follows the committed transactions and nothing else.** What a delivered batch does to a
manager's table is what its transactions do one by one (`ShardTable.commit`), whatever state the
chains are in, whoever the node is, and whichever shard the batch comes from
(`ShardManager.deliver_tracker`). Transactions without a contract and responses do nothing at all.
So two nodes whose tables once agreed and that have seen the same other transactions since, in
whatever batches, hold the same table (`ShardManager.table_receive_eq`).
-/

namespace ShardGossip

namespace Transaction

/-- Whether the shard table looks at the transaction: it is about a contract, and no response. -/
def concernsTable (t : Transaction) : Bool :=
  t.contract.isSome && !t.isResponse

end Transaction

namespace ShardTable

/-- What a committed transaction does to a table: an assignment places its contract, and anything
else but a response counts against its contract, after which shards that hold too much are split. -/
def commit (config : ShardingConfig) (t : ShardTable) (transaction : Transaction) : ShardTable :=
  match transaction.contract with
  | none => t
  | some contract =>
    if transaction.isAssignment then
      match t.assign config (.unplaced contract 0) with
      | .ok (_, t) => t
      | .error _ => t
    else if transaction.isResponse then t
    else
      match t.shardOfContract contract with
      | none => t
      | some shard =>
        match t.count shard contract with
        | .ok t => (t.split config).2
        | .error _ => t

theorem commit_eq_self {config : ShardingConfig} {transaction : Transaction}
    (h : transaction.concernsTable = false) (t : ShardTable) :
    t.commit config transaction = t := by
  unfold commit
  cases hc : transaction.contract with
  | none => rfl
  | some contract =>
      have hr : transaction.isResponse := by
        simpa [Transaction.concernsTable, hc] using h
      simp [ShardManager.isAssignment_of_isResponse hr, hr]

/-- Only the transactions that the table looks at matter. -/
theorem foldl_commit_filter (config : ShardingConfig) (t : ShardTable) (ts : List Transaction) :
    (ts.filter (·.concernsTable)).foldl (commit config) t = ts.foldl (commit config) t := by
  rw [List.foldl_filter]
  congr
  funext t transaction
  split
  · rfl
  · next h => exact (commit_eq_self (Bool.eq_false_iff.mpr h) t).symm

end ShardTable

namespace ShardManager

variable {m m' : ShardManager}

/-! ### What is left of an operation besides the chains -/

theorem foldl_followSplit_rest (m : ShardManager) (plans : List SplitPlan) :
    ∃ chains, plans.foldl followSplit m = { m with chains := chains } := by
  induction plans generalizing m with
  | nil => exact ⟨m.chains, rfl⟩
  | cons plan rest ih =>
      obtain ⟨chains, he⟩ := ih (m.followSplit plan)
      rw [List.foldl_cons, he, followSplit_rest]
      exact ⟨chains, rfl⟩

/-- Splitting changes the table and the chains. -/
theorem checkSplit_rest (m : ShardManager) :
    ∃ chains, m.checkSplit.2 =
      { m with table := (m.table.split m.config).2, chains := chains } :=
  foldl_followSplit_rest { m with table := (m.table.split m.config).2 } _

/-- A committed transaction changes the table, in a way that only depends on the table, and the
chains. -/
theorem applyCommitted_rest (m : ShardManager) (transaction : Transaction) :
    ∃ chains, m.applyCommitted transaction =
      { m with table := m.table.commit m.config transaction, chains := chains } := by
  unfold applyCommitted ShardTable.commit
  cases transaction.contract with
  | none => exact ⟨m.chains, rfl⟩
  | some contract =>
      by_cases ha : transaction.isAssignment
      · simp only [if_pos ha]
        unfold assign
        cases m.table.assign m.config (.unplaced contract 0) with
        | error e => exact ⟨m.chains, rfl⟩
        | ok placed =>
            by_cases hn : placed.1.isNew
            · exact ⟨_, if_pos hn⟩
            · exact ⟨m.chains, if_neg hn⟩
      · simp only [if_neg ha]
        by_cases hr : transaction.isResponse
        · exact ⟨m.chains, by simp only [if_pos hr]⟩
        · simp only [if_neg hr]
          cases m.table.shardOfContract contract with
          | none => exact ⟨m.chains, rfl⟩
          | some shard =>
              unfold logLoad
              dsimp only
              cases m.table.count shard contract with
              | error e => exact ⟨m.chains, rfl⟩
              | ok table => exact checkSplit_rest { m with table := table }

theorem foldl_applyCommitted_rest (m : ShardManager) (ts : List Transaction) :
    ∃ chains, ts.foldl applyCommitted m =
      { m with table := ts.foldl (ShardTable.commit m.config) m.table, chains := chains } := by
  induction ts generalizing m with
  | nil => exact ⟨m.chains, rfl⟩
  | cons t rest ih =>
      obtain ⟨chains, he⟩ := m.applyCommitted_rest t
      rw [List.foldl_cons, he]
      exact ih _

/-- A batch shown to the table changes the table as its transactions do, and the application gets
what is not about the table. -/
theorem deliver_tracker (m : ShardManager) (shard : ShardId) (ts : List Transaction) :
    ∃ chains, m.deliver .tracker shard ts =
      { m with
        table := ts.foldl (ShardTable.commit m.config) m.table
        chains := chains
        delivered := m.delivered ++
          if m.forwards && !(ts.filter (!·.isAssignment)).isEmpty then
            [(shard, ts.filter (!·.isAssignment))]
          else [] } := by
  obtain ⟨chains, he⟩ := m.foldl_applyCommitted_rest ts
  refine ⟨chains, ?_⟩
  rw [deliver, track, he]
  dsimp only
  split
  · rfl
  · rw [List.append_nil]

/-! ### Nodes that see the same transactions -/

/-- Shows batches to the table, one after the other. -/
def receive (m : ShardManager) (batches : List Batch) : ShardManager :=
  batches.foldl (fun m batch => m.deliver .tracker batch.1 batch.2) m

/-- The transactions of some batches that the table looks at. -/
def tableInputs (batches : List Batch) : List Transaction :=
  (batches.flatMap (·.2)).filter (·.concernsTable)

theorem table_receive (m : ShardManager) (batches : List Batch) :
    (m.receive batches).table =
      (batches.flatMap (·.2)).foldl (ShardTable.commit m.config) m.table := by
  unfold receive
  induction batches generalizing m with
  | nil => rfl
  | cons batch rest ih =>
      obtain ⟨chains, he⟩ := m.deliver_tracker batch.1 batch.2
      rw [List.foldl_cons, he, ih, List.flatMap_cons, List.foldl_append]

/-- **Nodes that see the same transactions hold the same table.** It does not matter who they are,
what their chains do and where batches go afterwards, nor how the transactions are batched and which
shards committed them. -/
theorem table_receive_eq {batches batches' : List Batch} (hc : m.config = m'.config)
    (ht : m.table = m'.table) (hi : tableInputs batches = tableInputs batches') :
    (m.receive batches).table = (m'.receive batches').table := by
  rw [table_receive, table_receive, ← ShardTable.foldl_commit_filter,
    ← ShardTable.foldl_commit_filter m'.config, ← hc, ← ht]
  exact congrArg (List.foldl (ShardTable.commit m.config) m.table) hi

/-- Two members of a shard see the same commits. One gets them in two batches, between them a
response from another shard, and gives them to its application; the other one gets them one by one,
after a transaction of its own that is about no contract. Counting makes the shard split. -/
theorem table_receive_eq_through_split :
    let start (node : NodeId) (forwards : Bool) : ShardManager :=
      [Deed.placeNode ⟨⟨"a"⟩, none, 1⟩, .placeNode ⟨⟨"b"⟩, none, 1⟩].foldl act
        { ShardManager.fresh ⟨4, 1, 0, 5⟩ (.fresh node .default (.labelled node)) with
          forwards := forwards }
    let m := start ⟨"a"⟩ true
    let m' := (start ⟨"b"⟩ false).act (.submit ⟨0⟩ ⟨"y", [1], none⟩)
    let batches : List Batch :=
      [(⟨0⟩, [.assignment "c", .assignment "d"]), (⟨7⟩, [⟨"response", [], some "c"⟩]),
        (⟨0⟩, [⟨"x", [1], some "d"⟩, .assignment "c"])]
    let batches' : List Batch :=
      [(⟨0⟩, [⟨"y", [1], none⟩]), (⟨0⟩, [.assignment "c"]), (⟨0⟩, [.assignment "d"]),
        (⟨0⟩, [⟨"x", [1], some "d"⟩]), (⟨1⟩, [.assignment "c"])]
    m.table = m'.table ∧ tableInputs batches = tableInputs batches' ∧
      (m.receive batches).table = (m'.receive batches').table ∧
      (m'.receive batches').table.shards.map (fun s => (s.id, s.ledger, s.nodeIds)) =
        [(⟨1⟩, [("d", 1)], [⟨"a"⟩]), (⟨2⟩, [("c", 0)], [⟨"b"⟩])] := by
  intro start m m' batches batches'
  have hc : m.config = m'.config := by decide +kernel
  have ht : m.table = m'.table := by decide +kernel
  have hi : tableInputs batches = tableInputs batches' := by decide +kernel
  refine ⟨ht, hi, table_receive_eq hc ht hi, ?_⟩
  rw [table_receive]
  cbv

end ShardManager

end ShardGossip

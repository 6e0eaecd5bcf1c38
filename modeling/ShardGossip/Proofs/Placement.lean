import ShardGossip.Proofs.CommittedQueue
import ShardGossip.Proofs.Restructuring

/-!
# ShardGossip.Proofs.Placement

**What a shard manager can get into, and what it keeps.** Whatever is asked of a manager that begins
without shards, and whatever its chains do meanwhile (`ShardManager.Reached`): its table stays
well-formed and its chains mirror it (`ShardManager.InStep`). So no contract and no node is ever in
two places (`wellFormed_table_of_reached`), the chains have the members that the table says
(`mirrored_of_reached`), and what is placed is neither lost nor doubled (`conserves_of_reached`).
-/

namespace ShardGossip

namespace ShardManager

open Chain ChainRegistry

variable {m m' : ShardManager} {t t' : ShardTable} {s : Shard}

/-- The table is well-formed, and the chains mirror it. -/
structure InStep (m : ShardManager) : Prop where
  table : m.table.WellFormed
  mirrors : m.chains.Mirrors m.table.shards

theorem InStep.of_tableView (h : m.InStep) (ht : m'.table = m.table)
    (hs : m'.chains.tableView = m.chains.tableView) : m'.InStep :=
  ⟨ht ▸ h.table, ht ▸ h.mirrors.of_tableView hs⟩

theorem inStep_fresh (config : ShardingConfig) (localId : NodeId) (chains : ChainConfig)
    (signer : Signer) : InStep (.fresh config (.fresh localId chains signer)) :=
  ⟨ShardTable.wellFormed_empty, mirrors_fresh localId chains signer⟩

/-! ### Placing -/

/-- A shard is opened, and its chain is created. -/
theorem InStep.open (h : m.InStep) (hs : s.id = ⟨m.table.nextId⟩)
    (hw : (⟨m.table.shards ++ [s], m.table.nextId + 1⟩ : ShardTable).WellFormed) :
    InStep ({ m with table := ⟨m.table.shards ++ [s], m.table.nextId + 1⟩ }.syncChain
      ⟨m.table.nextId⟩ s.nodeIds) := by
  refine ⟨hw, ?_⟩
  rw [← hs]
  exact h.mirrors.sync_new h.table.distinct fun s' hs' => hs ▸ h.table.issued s' hs'

theorem InStep.createShard (h : m.InStep) : m.createShard.2.InStep :=
  h.open (s := .empty ⟨m.table.nextId⟩ m.config.shardCapacity) rfl
    (h.table.openShard m.config.shardCapacity)

theorem assign_eq_ok {contract : Contract} {shard : ShardId}
    (ha : m.assign contract = .ok (shard, m')) :
    ∃ placed table, m.table.assign m.config contract = .ok (placed, table) ∧
      m' = if placed.isNew then { m with table := table }.syncChain placed.shard []
        else { m with table := table } := by
  unfold assign at ha
  cases ht : m.table.assign m.config contract with
  | error e => rw [ht] at ha; cases ha
  | ok placed =>
      rw [ht] at ha
      cases ha
      exact ⟨_, _, rfl, rfl⟩

theorem InStep.assign (h : m.InStep) {contract : Contract} {shard : ShardId}
    (ha : m.assign contract = .ok (shard, m')) : m'.InStep := by
  obtain ⟨placed, table, ht, rfl⟩ := assign_eq_ok ha
  have hw := (h.table.assign ht).1
  obtain ⟨-, hp⟩ := h.table.assign_eq_ok ht
  cases hp with
  | existing hs =>
      exact ⟨hw, h.mirrors.of_members
        (ShardTable.map_update (·.pushContract contract) (fun _ => rfl) ..)⟩
  | opened => exact h.open (s := (Shard.empty _ _).pushContract contract) rfl hw

theorem InStep.placeNode (h : m.InStep) (node : Placement) : (m.placeNode node).2.InStep := by
  unfold ShardManager.placeNode
  cases hn : m.table.shardOfNode node.id with
  | some shard => exact h
  | none =>
      have hw := (h.table.place m.config (ShardTable.shardOfNode_eq_none.mp hn)).1
      obtain ⟨isNew, hp⟩ :=
        h.table.place_eq m.config (ShardTable.shardOfNode_eq_none.mp hn)
      dsimp only
      generalize m.table.place m.config node = placed at hp hw
      obtain ⟨shard, table⟩ := placed
      dsimp only at hp hw ⊢
      cases hp with
      | @existing s hs =>
          obtain ⟨before, after, ht, hne⟩ := h.table.exists_append hs
          have hd := h.table.distinct
          have hm := h.mirrors
          rw [ShardTable.update_append ht hne] at hw ⊢
          have hf := hw.find? (s := s.pushNode node) (by simp)
          rw [Shard.id_pushNode] at hf
          rw [hf]
          rw [ht] at hd hm
          refine ⟨hw, hm.sync_existing hd rfl fun hl => ?_⟩
          rw [Shard.nodeIds_pushNode]
          exact List.mem_append_left _ hl
      | opened =>
          have hf := hw.find?
            (s := (Shard.empty ⟨m.table.nextId⟩ m.config.shardCapacity).pushNode node) (by simp)
          rw [Shard.id_pushNode, Shard.id_empty] at hf
          rw [hf]
          exact h.open (s := (Shard.empty _ _).pushNode node) rfl hw

/-! ### Splitting and merging -/

theorem table_checkSplit (m : ShardManager) :
    m.checkSplit.2.table = (m.table.split m.config).2 :=
  (table_foldl_followSplit { m with table := (m.table.split m.config).2 } _).1

theorem InStep.follows_checkSplit (h : m.InStep) :
    m.FollowsSplits m.checkSplit.2 (m.table.split m.config).2 (m.table.overloaded m.config)
      m.checkSplit.1 := by
  have hf := follows_foldl_followSplit (m := { m with table := (m.table.split m.config).2 })
    (ShardTable.splits_split m.table m.config) h.table
    (ShardTable.splittable_overloaded h.table m.config) h.mirrors
  exact ⟨hf.mirrors, hf.localId, hf.others, hf.carries⟩

theorem InStep.checkSplit (h : m.InStep) : m.checkSplit.2.InStep := by
  refine ⟨?_, ?_⟩ <;> rw [table_checkSplit]
  · exact (h.table.split m.config).1
  · exact h.follows_checkSplit.mirrors

theorem logLoad_eq_ok {shard : ShardId} {contract : ContractId} {plans : List SplitPlan}
    (hl : m.logLoad shard contract = .ok (plans, m')) :
    ∃ table, m.table.count shard contract = .ok table ∧
      (plans, m') = { m with table := table }.checkSplit := by
  unfold logLoad at hl
  cases ht : m.table.count shard contract with
  | error e => rw [ht] at hl; cases hl
  | ok table =>
      rw [ht] at hl
      exact ⟨table, rfl, (Except.ok.inj hl).symm⟩

/-- A count leaves the members as they are. -/
theorem InStep.count (h : m.InStep) {shard : ShardId} {contract : ContractId} {table : ShardTable}
    (hc : m.table.count shard contract = .ok table) : InStep { m with table := table } := by
  have hw := (h.table.count hc).1
  obtain ⟨s, -, -, -, rfl⟩ := ShardTable.count_eq_ok hc
  exact ⟨hw, h.mirrors.of_members
    (ShardTable.map_update (·.count contract) (fun s => by simp [Shard.nodeIds]) ..)⟩

theorem InStep.logLoad (h : m.InStep) {shard : ShardId} {contract : ContractId}
    {plans : List SplitPlan} (hl : m.logLoad shard contract = .ok (plans, m')) : m'.InStep := by
  obtain ⟨table, ht, he⟩ := logLoad_eq_ok hl
  rw [show m' = _ from congrArg Prod.snd he]
  exact (h.count ht).checkSplit

theorem mergeLatest_eq_ok {plan : MergePlan} (hm : m.mergeLatest = .ok (plan, m')) :
    ∃ table, m.table.merge = .ok (plan, table) ∧
      m' = { m with table := table }.followMerge plan := by
  unfold mergeLatest at hm
  cases ht : m.table.merge with
  | error e => rw [ht] at hm; cases hm
  | ok merged =>
      rw [ht] at hm
      cases hm
      exact ⟨_, rfl, rfl⟩

theorem InStep.mergeLatest (h : m.InStep) {plan : MergePlan}
    (hm : m.mergeLatest = .ok (plan, m')) : m'.InStep := by
  obtain ⟨table, ht, rfl⟩ := mergeLatest_eq_ok hm
  obtain ⟨before, survivor, dissolved, hmt⟩ := h.table.merges ht
  obtain ⟨htable, hmir⟩ :=
    followMerge_keeps (m := { m with table := table }) h.table hmt h.mirrors
  refine ⟨?_, ?_⟩ <;> rw [htable]
  · exact h.table.merge hmt
  · exact hmir

theorem InStep.checkMerge (h : m.InStep) : m.checkMerge.2.InStep := by
  unfold ShardManager.checkMerge
  split
  · split
    · rename_i hm
      exact h.mergeLatest hm
    · exact h
  · exact h

/-! ### Committed transactions -/

theorem InStep.applyCommitted (h : m.InStep) (transaction : Transaction) :
    (m.applyCommitted transaction).InStep := by
  unfold ShardManager.applyCommitted
  split
  · exact h
  · split
    · split
      · rename_i ha
        exact h.assign ha
      · exact h
    · split
      · exact h
      · split
        · exact h
        · split
          · rename_i hl
            exact h.logLoad hl
          · exact h

theorem InStep.deliver (h : m.InStep) (pipeline : Pipeline) (shard : ShardId)
    (transactions : List Transaction) : (m.deliver pipeline shard transactions).InStep := by
  unfold ShardManager.deliver
  split
  · exact h.of_tableView rfl rfl
  · have hf : (transactions.foldl ShardManager.applyCommitted m).InStep := by
      induction transactions generalizing m with
      | nil => exact h
      | cons t rest ih => exact ih (h.applyCommitted t)
    unfold track
    dsimp only
    split
    · exact hf.of_tableView rfl rfl
    · exact hf

theorem InStep.deliverNext (h : m.InStep) (serial : Nat) : (m.deliverNext serial).InStep := by
  unfold ShardManager.deliverNext
  split
  · exact h
  · rename_i c hc
    split
    · exact h
    · rename_i event rest ht
      obtain ⟨-, tail, -, rfl⟩ := takeCommitted?_eq_some.mp ht
      have hu : InStep (m.updateChains (·.updateSerial serial fun _ =>
          { c with committed := tail })) := by
        refine h.of_tableView rfl (tableView_updateSerial fun d hd hs => ?_)
        -- no other chain has this serial number
        obtain ⟨hm, hs'⟩ := mem_of_bySerial? hc
        rw [List.inj_on_of_nodup_map h.mirrors.serials hd hm (hs.trans hs'.symm)]
        rfl
      dsimp only
      split
      · exact hu.deliver ..
      · exact hu

/-! ### Whatever happens -/

theorem InStep.work (h : m.InStep) {change : Chain → Chain}
    (hc : ∀ c : Chain, (change c).tableView = c.tableView) (serial : Nat) :
    InStep (m.updateChains (·.updateSerial serial change)) :=
  h.of_tableView rfl (tableView_updateSerial fun c _ _ => hc c)

theorem InStep.act (h : m.InStep) {deed : Deed} (hd : deed ≠ .shutdown) : (m.act deed).InStep := by
  cases deed with
  | tick serial now wall => exact h.work (fun c => (c.works_tick now wall).tableView) serial
  | elect serial now => exact h.work (fun c => (c.works_elect now).tableView) serial
  | deliver serial => exact h.deliverNext serial
  | packet serial sender packet =>
      exact h.work (fun c => (c.works_handlePacket sender packet).tableView) serial
  | attach serial socket => exact h.work (fun c => (c.proceeds_attach socket).tableView) serial
  | read serial connection => exact h.work (fun c => (c.proceeds_read connection).tableView) serial
  | handle serial connection => exact h.work (fun c => (c.works_handle connection).tableView) serial
  | write serial connection => exact h.work (fun c => (c.works_write connection).tableView) serial
  | submit shard transaction =>
      exact h.of_tableView rfl (tableView_update (·.submit transaction) (fun _ => rfl) _)
  | placeNode node => exact h.placeNode node
  | assign contract =>
      unfold ShardManager.act
      dsimp only
      split
      · rename_i ha
        exact h.assign ha
      · exact h
  | createShard => exact h.createShard
  | logLoad shard contract =>
      unfold ShardManager.act
      dsimp only
      split
      · rename_i hl
        exact h.logLoad hl
      · exact h
  | checkSplit => exact h.checkSplit
  | mergeLatest =>
      unfold ShardManager.act
      dsimp only
      split
      · rename_i hm
        exact h.mergeLatest hm
      · exact h
  | checkMerge => exact h.checkMerge
  | shutdown => exact absurd rfl hd
  | finish serial loop => exact h.work (fun c => c.tableView_finish loop) serial

/-- A state that a manager gets into: it begins without shards, and anything may be asked of it but
to shut its chains down. Committed transactions may come from anywhere, and meanwhile its chains may
get into any state, as long as each stays in its shard with its members. -/
inductive Reached : ShardManager → Prop where
  | fresh (config : ShardingConfig) (localId : NodeId) (chains : ChainConfig) (signer : Signer) :
      Reached (.fresh config (.fresh localId chains signer))
  | register {m : ShardManager} (pipeline : Pipeline) :
      Reached m → Reached (m.updateChains (·.register pipeline))
  | forward {m : ShardManager} (forwards : Bool) :
      Reached m → Reached { m with forwards := forwards }
  | act {m : ShardManager} {deed : Deed} : Reached m → deed ≠ .shutdown → Reached (m.act deed)
  | applyCommitted {m : ShardManager} (transaction : Transaction) :
      Reached m → Reached (m.applyCommitted transaction)
  | work {m : ShardManager} (serial : Nat) {change : Chain → Chain} :
      Reached m → (∀ c : Chain, (change c).tableView = c.tableView) →
      Reached (m.updateChains (·.updateSerial serial change))

theorem Reached.inStep (h : m.Reached) : m.InStep := by
  induction h with
  | fresh => exact inStep_fresh ..
  | register pipeline _ ih => exact ih.of_tableView rfl (tableView_register _ pipeline)
  | forward forwards _ ih => exact ih.of_tableView rfl rfl
  | act _ hd ih => exact ih.act hd
  | applyCommitted transaction _ ih => exact ih.applyCommitted transaction
  | work serial _ hc ih => exact ih.work hc serial

theorem Reached.run (h : m.Reached) {deeds : List Deed} (hd : ∀ deed ∈ deeds, deed ≠ .shutdown) :
    (deeds.foldl ShardManager.act m).Reached := by
  induction deeds generalizing m with
  | nil => exact h
  | cons deed rest ih =>
      exact ih (h.act (hd deed List.mem_cons_self)) fun d hm => hd d (List.mem_cons_of_mem _ hm)

/-! ### The table -/

/-- **No contract and no node is ever in two places.** Whatever happened, the table is well-formed:
ids are in order and below the next one, nothing is placed twice, every load is that of its
contracts, and everything says where it is. So no node sits in both shards of a merge. -/
theorem wellFormed_table_of_reached (h : m.Reached) :
    m.table.WellFormed ∧
      ∀ plan m', m.mergeLatest = .ok (plan, m') → ¬plan.isBridged := by
  refine ⟨h.inStep.table, fun plan m' hm => ?_⟩
  obtain ⟨table, ht, -⟩ := mergeLatest_eq_ok hm
  obtain ⟨before, survivor, dissolved, hmt⟩ := h.inStep.table.merges ht
  exact hmt.not_isBridged

/-- Two shards, of which the first holds two nodes and a contract that was counted against, and the
second a contract. They can be merged. -/
theorem wellFormed_two_shards :
    let m := [Deed.placeNode ⟨⟨"a"⟩, none, 1⟩, .assign (.unplaced "c" 0), .logLoad ⟨0⟩ "c",
        .createShard, .placeNode ⟨⟨"b"⟩, none, 1⟩].foldl act
      (.fresh ⟨1, 1, 0, 5⟩ (.fresh ⟨"a"⟩ .default (.labelled ⟨"a"⟩)))
    m.table.shards.map (fun s => (s.id, s.load, s.nodeIds)) =
        [(⟨0⟩, 1, [⟨"a"⟩]), (⟨1⟩, 0, [⟨"b"⟩])] ∧
      m.table.WellFormed ∧ m.mergeLatest.toOption.map (·.1.isBridged) = some false := by
  intro m
  have hr : m.Reached := (Reached.fresh ..).run (by simp)
  obtain ⟨hw, hb⟩ := wellFormed_table_of_reached hr
  have hok : m.mergeLatest.isOk := by decide +kernel
  refine ⟨by decide +kernel, hw, ?_⟩
  cases hm : m.mergeLatest with
  | error e =>
      rw [hm] at hok
      cases hok
  | ok merged => exact congrArg some (Bool.eq_false_iff.mpr (hb merged.1 merged.2 hm))

/-! ### The chains -/

/-- The chains are those of the shards, with the members that the table says. -/
structure Mirrored (m : ShardManager) : Prop where
  shards : m.chains.chains.map (·.shardId) = m.table.shards.map (·.id)
  peers : ∀ s ∈ m.table.shards, ∀ c, m.chains.get? s.id = some c →
    ∀ id, id ∈ c.peers ↔ id ∈ s.nodeIds ∧ id ≠ m.localId
  running : ∀ s ∈ m.table.shards, ∀ c, m.chains.get? s.id = some c →
    (c.running ↔ m.localId ∈ s.nodeIds)

/-- **The chains mirror the table**, whatever happened: there is one for each shard, its peers are
the other nodes of the shard, and it runs just when the node itself is one of them. -/
theorem mirrored_of_reached (h : m.Reached) : m.Mirrored := by
  have hserves : ∀ s ∈ m.table.shards, ∀ c, m.chains.get? s.id = some c →
      c.Serves m.localId s := by
    intro s hs c hc
    obtain ⟨c', -, hg, -, hs'⟩ := h.inStep.mirrors.get? h.inStep.table.distinct hs
    obtain rfl := Option.some.inj (hc.symm.trans hg)
    exact hs'
  refine ⟨h.inStep.mirrors.ids, fun s hs c hc id => ?_, fun s hs c hc => ?_⟩
  · rw [peers, Replica.mem_toList_iff]
    exact (hserves s hs c hc).peers id
  · exact (hserves s hs c hc).running

/-- A node in the first of two shards, the second of which is another node's. -/
theorem mirrored_two_shards :
    let m := [Deed.createShard, .createShard, .placeNode ⟨⟨"a"⟩, none, 1⟩,
        .assign (.unplaced "c" 3), .placeNode ⟨⟨"b"⟩, none, 1⟩].foldl act
      (.fresh .default (.fresh ⟨"a"⟩ .default (.labelled ⟨"a"⟩)))
    m.table.shards.map (fun s => (s.id, s.nodeIds)) = [(⟨0⟩, [⟨"a"⟩]), (⟨1⟩, [⟨"b"⟩])] ∧
      m.Mirrored ∧ m.chains.chains.map (fun c => (c.peers, c.running)) =
        [([], true), ([⟨"b"⟩], false)] := by
  intro m
  have hr : m.Reached := (Reached.fresh ..).run (by simp)
  exact ⟨by decide +kernel, mirrored_of_reached hr, by decide +kernel⟩

/-! ### Conservation -/

/-- The contracts with what was counted against them, and the nodes with their powers, are the same,
wherever they are. -/
structure Keeps (m m' : ShardManager) : Prop where
  ledger : m'.table.ledger.Perm m.table.ledger
  roster : m'.table.roster.Perm m.table.roster

/-- What the operations do to what the table holds, and what the refused ones do. -/
structure Conserves (m : ShardManager) : Prop where
  checkSplit : m.Keeps m.checkSplit.2
  checkMerge : m.Keeps m.checkMerge.2
  mergeLatest : ∀ plan m', m.mergeLatest = .ok (plan, m') → m.Keeps m'
  /-- An assigned contract comes on top. -/
  assign : ∀ contract shard m', m.assign contract = .ok (shard, m') →
    m'.table.ledger.Perm (contract.entry :: m.table.ledger) ∧ m'.table.roster.Perm m.table.roster
  /-- One count goes up by one, whatever is split then. -/
  logLoad : ∀ shard contract plans m', m.logLoad shard contract = .ok (plans, m') →
    (∃ n rest, m.table.ledger.Perm ((contract, n) :: rest) ∧
      m'.table.ledger.Perm ((contract, n + 1) :: rest)) ∧ m'.table.roster.Perm m.table.roster
  /-- A node without a shard comes on top, and one that has a shard changes nothing. -/
  placeNode : ∀ node,
    if node.id ∈ m.table.roster.map Prod.fst then (m.placeNode node).2 = m
    else (m.placeNode node).2.table.ledger.Perm m.table.ledger ∧
      (m.placeNode node).2.table.roster.Perm (node.entry :: m.table.roster)
  /-- Only a contract that has a shard is refused, and then nothing happens. -/
  assign_refused : ∀ contract, (∃ e, m.assign contract = .error e) ↔
    contract.id ∈ m.table.ledger.map Prod.fst ∧ m.act (.assign contract) = m
  /-- Only a contract that is not in the shard is refused, and then nothing happens. -/
  logLoad_refused : ∀ shard contract, (∃ e, m.logLoad shard contract = .error e) ↔
    (∀ s ∈ m.table.shards, s.id = shard → s.containsContract contract = false) ∧
      m.act (.logLoad shard contract) = m
  /-- A merge that is not due, or is refused, changes nothing. -/
  checkMerge_refused : m.checkMerge.1 = none → m.checkMerge.2 = m
  /-- A merge is refused only when there are not two shards, and then nothing happens. -/
  mergeLatest_refused : (∃ e, m.mergeLatest = .error e) ↔
    m.table.shards.length < 2 ∧ m.act .mergeLatest = m

theorem InStep.keeps_checkSplit (h : m.InStep) : m.Keeps m.checkSplit.2 := by
  obtain ⟨-, hl, hr⟩ := h.table.split m.config
  rw [← table_checkSplit] at hl hr
  exact ⟨hl, hr⟩

theorem InStep.keeps_mergeLatest (h : m.InStep) {plan : MergePlan}
    (hm : m.mergeLatest = .ok (plan, m')) : m.Keeps m' := by
  obtain ⟨table, ht, rfl⟩ := mergeLatest_eq_ok hm
  obtain ⟨before, survivor, dissolved, hmt⟩ := h.table.merges ht
  obtain ⟨htable, -⟩ := followMerge_keeps (m := { m with table := table }) h.table hmt h.mirrors
  refine ⟨?_, ?_⟩ <;> rw [htable]
  · exact hmt.ledger
  · exact hmt.roster

theorem InStep.keeps_checkMerge (h : m.InStep) : m.Keeps m.checkMerge.2 := by
  unfold ShardManager.checkMerge
  split
  · split
    · rename_i hm
      exact h.keeps_mergeLatest hm
    · exact ⟨.refl _, .refl _⟩
  · exact ⟨.refl _, .refl _⟩

theorem InStep.table_assign (h : m.InStep) {contract : Contract} {shard : ShardId}
    (ha : m.assign contract = .ok (shard, m')) :
    m'.table.ledger.Perm (contract.entry :: m.table.ledger) ∧
      m'.table.roster.Perm m.table.roster := by
  obtain ⟨placed, table, ht, rfl⟩ := assign_eq_ok ha
  have hk := (h.table.assign ht).2
  split <;> exact hk

theorem InStep.table_logLoad (h : m.InStep) {shard : ShardId} {contract : ContractId}
    {plans : List SplitPlan} (hl : m.logLoad shard contract = .ok (plans, m')) :
    (∃ n rest, m.table.ledger.Perm ((contract, n) :: rest) ∧
      m'.table.ledger.Perm ((contract, n + 1) :: rest)) ∧
        m'.table.roster.Perm m.table.roster := by
  obtain ⟨table, ht, he⟩ := logLoad_eq_ok hl
  obtain ⟨-, hr, n, rest, hl, hl'⟩ := h.table.count ht
  have hs := (h.count ht).keeps_checkSplit
  rw [← he] at hs
  exact ⟨⟨n, rest, hl, hs.ledger.trans hl'⟩, hs.roster.trans hr⟩

theorem InStep.table_placeNode (h : m.InStep) (node : Placement) :
    if node.id ∈ m.table.roster.map Prod.fst then (m.placeNode node).2 = m
    else (m.placeNode node).2.table.ledger.Perm m.table.ledger ∧
      (m.placeNode node).2.table.roster.Perm (node.entry :: m.table.roster) := by
  unfold ShardManager.placeNode
  split
  · rename_i hn
    cases hs : m.table.shardOfNode node.id with
    | some shard => rfl
    | none => exact absurd hn (ShardTable.shardOfNode_eq_none.mp hs)
  · rename_i hn
    rw [ShardTable.shardOfNode_eq_none.mpr hn]
    exact (h.table.place m.config hn).2

theorem assign_eq_error {contract : Contract} {e : ShardingError} :
    m.assign contract = .error e ↔ m.table.assign m.config contract = .error e := by
  unfold ShardManager.assign
  cases m.table.assign m.config contract <;> simp [bind, Except.bind, pure, Except.pure]

theorem logLoad_eq_error {shard : ShardId} {contract : ContractId} {e : ShardingError} :
    m.logLoad shard contract = .error e ↔ m.table.count shard contract = .error e := by
  unfold ShardManager.logLoad
  cases m.table.count shard contract <;> simp [bind, Except.bind, pure, Except.pure]

theorem mergeLatest_eq_error {e : ShardingError} :
    m.mergeLatest = .error e ↔ m.table.merge = .error e := by
  unfold ShardManager.mergeLatest
  cases m.table.merge <;> simp [bind, Except.bind, pure, Except.pure]

theorem checkMerge_eq_none (h : m.checkMerge.1 = none) : m.checkMerge.2 = m := by
  unfold ShardManager.checkMerge at h ⊢
  split
  · split
    · simp_all
    · rfl
  · rfl

/-- **Nothing that is placed is lost or doubled**, whatever happened before: restructuring keeps
what the table holds, and every other operation adds or counts just what it says. -/
theorem conserves_of_reached (h : m.Reached) : m.Conserves where
  checkSplit := h.inStep.keeps_checkSplit
  checkMerge := h.inStep.keeps_checkMerge
  mergeLatest _ _ hm := h.inStep.keeps_mergeLatest hm
  assign _ _ _ ha := h.inStep.table_assign ha
  logLoad _ _ _ _ hl := h.inStep.table_logLoad hl
  placeNode := h.inStep.table_placeNode
  assign_refused contract := by
    rw [← ShardTable.assign_refused m.table m.config]
    simp only [assign_eq_error]
    refine (and_iff_left_of_imp ?_).symm
    rintro ⟨e, he⟩
    rw [ShardManager.act, assign_eq_error.mpr he]
  logLoad_refused shard contract := by
    rw [← h.inStep.table.count_refused]
    simp only [logLoad_eq_error]
    refine (and_iff_left_of_imp ?_).symm
    rintro ⟨e, he⟩
    rw [ShardManager.act, logLoad_eq_error.mpr he]
  checkMerge_refused := checkMerge_eq_none
  mergeLatest_refused := by
    rw [← ShardTable.merge_refused]
    simp only [mergeLatest_eq_error]
    refine (and_iff_left_of_imp ?_).symm
    rintro ⟨e, he⟩
    rw [ShardManager.act, mergeLatest_eq_error.mpr he]

/-- A node is alone in a shard with two contracts. Counting a transaction makes the shard split. -/
theorem conserves_through_split :
    let m := [Deed.placeNode ⟨⟨"a"⟩, none, 1⟩, .assign (.unplaced "c" 0),
        .assign (.unplaced "d" 0)].foldl act
      (.fresh ⟨4, 1, 0, 5⟩ (.fresh ⟨"a"⟩ .default (.labelled ⟨"a"⟩)))
    m.Conserves ∧ m.table.ledger = [("c", 0), ("d", 0)] ∧
      (m.act (.logLoad ⟨0⟩ "c")).table.shards.map (fun s => (s.id, s.ledger)) =
        [(⟨1⟩, [("c", 1)]), (⟨2⟩, [("d", 0)])] := by
  intro m
  have hr : m.Reached := (Reached.fresh ..).run (by simp)
  exact ⟨conserves_of_reached hr, by decide +kernel, by cbv⟩

end ShardManager

end ShardGossip

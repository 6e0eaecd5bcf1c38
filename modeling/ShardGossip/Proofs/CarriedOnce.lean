import ShardGossip.Proofs.Placement

/-!
# ShardGossip.Proofs.CarriedOnce

**What a node has to propose is carried over once when its shard is split or dissolves.** After a
split it waits in the chain of one half, the one that the node belongs to; after a merge it waits in
the survivor's chain, but for the responses, which are delivered at once, in one batch
(`ShardManager.carriesOnce_of_reached`). A shard that the node does not belong to concerns nobody.
-/

namespace ShardGossip

open scoped List

namespace ChainRegistry

open Chain

variable {r r' : ChainRegistry}

/-- What the chains have is the same chain by chain, wherever they are registered. -/
theorem bySerial?_of_perm {β : Type} {f : Chain → β} (hn : (r.all.map Chain.serial).Nodup)
    (hp : r'.all.map (fun c => (c.serial, f c)) ~ r.all.map fun c => (c.serial, f c))
    (serial : Nat) : (r'.bySerial? serial).map f = (r.bySerial? serial).map f := by
  have hs : r'.all.map Chain.serial ~ r.all.map Chain.serial := by
    simpa only [List.map_map, Function.comp_def] using hp.map Prod.fst
  cases hb : r.bySerial? serial with
  | none =>
      have hno : serial ∉ r.all.map Chain.serial := by
        intro hm
        obtain ⟨c, hc, he⟩ := List.mem_map.mp hm
        exact List.find?_eq_none.mp hb c hc (decide_eq_true he)
      have hb' : r'.bySerial? serial = none := List.find?_eq_none.mpr fun c hc he =>
        hno (of_decide_eq_true he ▸ hs.subset (List.mem_map_of_mem hc))
      rw [hb']
  | some c =>
      obtain ⟨hm, rfl⟩ := mem_of_bySerial? hb
      obtain ⟨c', hm', he⟩ := List.mem_map.mp
        (hp.symm.subset (List.mem_map_of_mem (f := fun c => (c.serial, f c)) hm))
      obtain ⟨hi, hf⟩ := Prod.mk.inj he
      have hb' : r'.bySerial? c'.serial = some c' := find?_key (hs.nodup_iff.mpr hn) hm'
      rw [← hi, hb', Option.map_some, Option.map_some, hf]

end ChainRegistry

namespace ShardManager

open Chain ChainRegistry

variable {m m' : ShardManager}

/-! ### Splits -/

/-- Of two halves, the one that the node belongs to has what it had to propose in the split shard,
and the other one has nothing. -/
structure CarriesToHalf (m m' : ShardManager) (plan : SplitPlan) (mine other : ShardId) :
    Prop where
  halves : (mine, other) = (plan.first.1, plan.second.1) ∨
    (other, mine) = (plan.first.1, plan.second.1)
  belongs : mine ∈ m'.localShards
  foreign : other ∉ m'.localShards
  carried : ∃ c c', m.chains.get? plan.parent = some c ∧ m'.chains.get? mine = some c' ∧
    c'.replica.unbatched = c.replica.ownTransactions
  empty : ∃ c', m'.chains.get? other = some c' ∧ c'.replica.unbatched = []

theorem InStep.carries_checkSplit (h : m.InStep) {plan : SplitPlan} (hp : plan ∈ m.checkSplit.1)
    (hl : plan.parent ∈ m.localShards) :
    ∃ mine other, m.CarriesToHalf m.checkSplit.2 plan mine other := by
  have hf := h.follows_checkSplit
  have hwf := h.checkSplit.table
  have hlocal : m.checkSplit.2.localShards = m.checkSplit.2.table.shardsWith m.localId := by
    rw [localShards, hf.localId]
  obtain ⟨-, hdeals⟩ := (ShardTable.splits_split m.table m.config).deals h.table
    (ShardTable.splittable_overloaded h.table m.config)
  obtain ⟨s, hs, a, ha, b, hb, hd⟩ := hdeals plan hp
  have hs := (ShardTable.splittable_overloaded h.table m.config).1 s hs
  rw [← table_checkSplit] at ha hb
  obtain ⟨c, hc, hhalves⟩ := hf.carries plan hp
  obtain ⟨ca, hca, hua⟩ := hhalves plan.first (by simp [SplitPlan.halves])
  obtain ⟨cb, hcb, hub⟩ := hhalves plan.second (by simp [SplitPlan.halves])
  have hmem : m.localId ∈ a.nodeIds ∨ m.localId ∈ b.nodeIds := by
    rw [localShards, hd.parent, h.table.mem_shardsWith hs] at hl
    exact List.mem_append.mp (hd.nodes.symm.subset hl)
  have hapart := (List.nodup_append.mp (hd.nodes.nodup_iff.mpr (h.table.nodup_nodeIds hs))).2.2
  rw [hd.first] at hca hua
  rw [hd.second] at hcb hub
  by_cases hla : m.localId ∈ a.nodeIds
  · have hlb : m.localId ∉ b.nodeIds := fun hlb => hapart _ hla _ hlb rfl
    refine ⟨a.id, b.id, .inl (by rw [hd.first, hd.second]), ?_, ?_, ⟨c, ca, hc, hca, ?_⟩,
      cb, hcb, ?_⟩
    · rwa [hlocal, hwf.mem_shardsWith ha]
    · rwa [hlocal, hwf.mem_shardsWith hb]
    · rw [hua, if_pos hla]
    · rw [hub, if_neg hlb]
  · have hlb := hmem.resolve_left hla
    refine ⟨b.id, a.id, .inr (by rw [hd.first, hd.second]), ?_, ?_, ⟨c, cb, hc, hcb, ?_⟩,
      ca, hca, ?_⟩
    · rwa [hlocal, hwf.mem_shardsWith hb]
    · rwa [hlocal, hwf.mem_shardsWith ha]
    · rw [hub, if_pos hlb]
    · rw [hua, if_neg hla]

theorem InStep.carries_logLoad (h : m.InStep) {shard : ShardId} {contract : ContractId}
    {plans : List SplitPlan} (hlog : m.logLoad shard contract = .ok (plans, m')) {plan : SplitPlan}
    (hp : plan ∈ plans) (hl : plan.parent ∈ m.localShards) :
    ∃ mine other, m.CarriesToHalf m' plan mine other := by
  obtain ⟨table, ht, he⟩ := logLoad_eq_ok hlog
  have hstep := h.count ht
  obtain ⟨s, -, -, -, rfl⟩ := ShardTable.count_eq_ok ht
  rw [localShards, ← ShardTable.shardsWith_update (·.count contract)
    (fun s => by simp) m.table s.id] at hl
  have hplan : plan ∈ ({ m with
      table := m.table.update s.id (·.count contract) } : ShardManager).checkSplit.1 :=
    congrArg Prod.fst he ▸ hp
  obtain ⟨mine, other, hc⟩ := hstep.carries_checkSplit hplan hl
  rw [show m' = _ from congrArg Prod.snd he]
  exact ⟨mine, other, hc.halves, hc.belongs, hc.foreign, hc.carried, hc.empty⟩

/-! ### Merges -/

/-- The survivor's chain has what the node had to propose in both shards, without the responses of
events that were pending in the dissolved one, if it has no connection to hand anything over. All
those responses, whoever proposed them, are delivered as one batch. -/
structure CarriesToSurvivor (m m' : ShardManager) (plan : MergePlan) (survivor dissolved : Chain) :
    Prop where
  before : m.chains.get? plan.survivor = some survivor ∧
    m.chains.get? plan.dissolved = some dissolved
  carried : survivor.connected = [] → ∃ c', m'.chains.get? plan.survivor = some c' ∧
    c'.replica.unbatched = survivor.replica.unbatched ++ dissolved.replica.ownRequests
  delivered : m'.delivered = m.delivered ++
    if m.reachesApplication && !dissolved.replica.pendingResponses.isEmpty then
      [(plan.dissolved, dissolved.replica.pendingResponses)] else []

theorem sockets_follow {c : Chain} (h : c.connected = []) (node : NodeId) (members : List NodeId) :
    (c.follow node members).sockets.toList = [] := by
  have hs : c.sockets.toList = [] := by
    rw [connected, ← Std.ExtTreeMap.map_fst_toList_eq_keys, List.map_eq_nil_iff] at h
    exact h
  have he : (c.follow node members).sockets = ∅ := by
    unfold follow
    dsimp only
    split
    · rw [sockets_run, sockets_setMembers hs]
    · exact sockets_setMembers hs members
  rw [he]
  rfl

/-- What the merge of two shards does to the chains, and whether the node belongs to the dissolved
one. -/
theorem InStep.follows_mergeLatest (h : m.InStep) {plan : MergePlan}
    (hm : m.mergeLatest = .ok (plan, m')) :
    ∃ (table : ShardTable) (c d : Chain) (r : ChainRegistry), m.chains.get? plan.survivor = some c ∧
      m.chains.get? plan.dissolved = some d ∧ table.WellFormed ∧ ¬plan.isBridged ∧
      ({ m with table := table } : ShardManager).Follows plan table.shards c d r ∧
      m' = { m with table := table }.followMerge plan ∧
      (plan.dissolved ∈ m.localShards ↔ plan.dissolvedMembers.contains m.localId) := by
  obtain ⟨table, ht, rfl⟩ := mergeLatest_eq_ok hm
  obtain ⟨before, survivor, dissolved, hmt⟩ := h.table.merges ht
  obtain ⟨c, d, r, hc, hd, hf⟩ :=
    follows_followMerge (m := { m with table := table }) h.table hmt h.mirrors
  refine ⟨table, c, d, r, hc, hd, h.table.merge hmt, hmt.not_isBridged, hf, rfl, ?_⟩
  have hp := hmt.plan
  subst hp
  rw [List.contains_iff_mem]
  exact h.table.mem_shardsWith (by simp [hmt.shards])

theorem InStep.carries_mergeLatest (h : m.InStep) {plan : MergePlan}
    (hm : m.mergeLatest = .ok (plan, m')) (hl : plan.dissolved ∈ m.localShards) :
    ∃ survivor dissolved, m.CarriesToSurvivor m' plan survivor dissolved := by
  obtain ⟨table, c, d, r, hc, hd, hw, hb, hf, rfl, hmem⟩ := h.follows_mergeLatest hm
  obtain ⟨chains, hmir, hch, he⟩ :=
    carryOver_eq (m := { m with table := table, chains := r }) hf.mirrors hf.dissolved hb
  have hin : plan.dissolvedMembers.contains ({ m with table := table } : ShardManager).localId :=
    hmem.mp hl
  have hrest := hf.rest
  rw [if_pos hin, he] at hrest
  rw [replica_shutdown] at hrest
  rw [hrest]
  refine ⟨c, d, ⟨hc, hd⟩, fun hconn => ?_, ?_⟩
  · -- the survivor's chain was told its new members, and got what was carried over
    let c' := c.follow m.localId (plan.survivorMembers ++ plan.dissolvedMembers)
    have hid : c'.shardId = plan.survivor := by
      refine (shardId_follow ..).1.trans ?_
      simpa using List.find?_some hc
    have hmir' := hmir.of_tableView
      (tableView_update _ (tableView_receive d.replica.ownRequests) plan.survivor)
    have hmem' : c'.receive d.replica.ownRequests ∈
        (chains.update plan.survivor (·.receive d.replica.ownRequests)).chains :=
      List.mem_map.mpr ⟨c', hch ▸ hf.survivor, if_pos hid⟩
    refine ⟨c'.receive d.replica.ownRequests, ?_, ?_⟩
    · have hg := hmir'.get?_of_mem hw.distinct hmem'
      rw [show (c'.receive d.replica.ownRequests).shardId = plan.survivor from
        (congrArg TableView.shardId (tableView_receive _ c')).trans hid] at hg
      exact hg
    · rw [unbatched_receive _ (sockets_follow hconn _ _), unbatched_follow]
  · have hr : ({ m with table := table, chains := r } : ShardManager).reachesApplication =
        m.reachesApplication := by
      rw [reachesApplication, reachesApplication, hf.pipeline]
    rw [hr]

/-- A merge of shards of others leaves what every chain has to propose, and delivers nothing. -/
theorem InStep.idle_mergeLatest (h : m.InStep) {plan : MergePlan}
    (hm : m.mergeLatest = .ok (plan, m')) (hl : plan.dissolved ∉ m.localShards) :
    (∀ serial, (m'.chains.bySerial? serial).map (·.replica.unbatched) =
      (m.chains.bySerial? serial).map (·.replica.unbatched)) ∧ m'.delivered = m.delivered := by
  obtain ⟨table, c, d, r, -, -, -, -, hf, rfl, hmem⟩ := h.follows_mergeLatest hm
  have hout : ¬plan.dissolvedMembers.contains
      ({ m with table := table } : ShardManager).localId :=
    mt hmem.mpr hl
  have hrest := hf.rest
  rw [if_neg hout] at hrest
  rw [hrest]
  refine ⟨bySerial?_of_perm h.mirrors.serials (hf.chains (fun c => ?_) fun c members => ?_), rfl⟩
  · rw [c.retains_shutdown.serial, replica_shutdown]
  · rw [(shardId_follow ..).2, unbatched_follow]

/-! ### Whatever happened before -/

/-- What becomes of the work of a node when its shards are restructured. -/
structure CarriesOnce (m : ShardManager) : Prop where
  checkSplit : ∀ plan ∈ m.checkSplit.1, plan.parent ∈ m.localShards →
    ∃ mine other, m.CarriesToHalf m.checkSplit.2 plan mine other
  logLoad : ∀ shard contract plans m', m.logLoad shard contract = .ok (plans, m') →
    ∀ plan ∈ plans, plan.parent ∈ m.localShards →
      ∃ mine other, m.CarriesToHalf m' plan mine other
  mergeLatest : ∀ plan m', m.mergeLatest = .ok (plan, m') → plan.dissolved ∈ m.localShards →
    ∃ survivor dissolved, m.CarriesToSurvivor m' plan survivor dissolved
  /-- A merge of shards of others leaves what every chain has to propose, and delivers nothing. -/
  idle : ∀ plan m', m.mergeLatest = .ok (plan, m') → plan.dissolved ∉ m.localShards →
    (∀ serial, (m'.chains.bySerial? serial).map (·.replica.unbatched) =
      (m.chains.bySerial? serial).map (·.replica.unbatched)) ∧ m'.delivered = m.delivered
  /-- A merge that is due is one like any other. -/
  checkMerge : ∀ plan, m.checkMerge.1 = some plan → m.mergeLatest = .ok (plan, m.checkMerge.2)

theorem mergeLatest_of_checkMerge {plan : MergePlan} (h : m.checkMerge.1 = some plan) :
    m.mergeLatest = .ok (plan, m.checkMerge.2) := by
  unfold ShardManager.checkMerge at h ⊢
  split at h
  · rename_i hu
    rw [if_pos hu]
    split at h
    · rename_i p m' hm
      cases h
      exact hm
    · cases h
  · cases h

/-- **What a node has to propose is carried over once**, whatever happened before and whatever state
its chains are in. -/
theorem carriesOnce_of_reached (h : m.Reached) : m.CarriesOnce where
  checkSplit _ := h.inStep.carries_checkSplit
  logLoad _ _ _ _ hl _ := h.inStep.carries_logLoad hl
  mergeLatest _ _ := h.inStep.carries_mergeLatest
  idle _ _ := h.inStep.idle_mergeLatest
  checkMerge _ := mergeLatest_of_checkMerge

/-- A node has sealed a transaction and a response, and a further transaction waits, when its shard
dissolves into one that it did not belong to. -/
theorem carriesOnce_through_merge :
    let m := [Deed.placeNode ⟨⟨"b"⟩, none, 1⟩, .assign (.unplaced "c" 5), .createShard,
        .placeNode ⟨⟨"a"⟩, none, 1⟩, .submit ⟨1⟩ ⟨"x", [1], none⟩,
        .submit ⟨1⟩ ⟨"response", [2], none⟩, .tick 1 0 5, .submit ⟨1⟩ ⟨"y", [3], none⟩].foldl act
      ((ShardManager.fresh .default
        (.fresh ⟨"a"⟩ .default (.labelled ⟨"a"⟩))).updateChains (·.register .application))
    m.CarriesOnce ∧ m.localShards = [⟨1⟩] ∧
      (m.act .mergeLatest).chains.chains.map (·.replica.unbatched) =
        [[⟨"x", [1], none⟩, ⟨"y", [3], none⟩]] ∧
      (m.act .mergeLatest).delivered = [(⟨1⟩, [⟨"response", [2], none⟩])] := by
  intro m
  have hr : m.Reached := ((Reached.fresh ..).register .application).run (by simp)
  exact ⟨carriesOnce_of_reached hr, by decide +kernel, by decide +kernel, by decide +kernel⟩

end ShardManager

end ShardGossip

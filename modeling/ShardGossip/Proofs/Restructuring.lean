import ShardGossip.Proofs.Mirror

/-!
# ShardGossip.Proofs.Restructuring

**What happens to the chains when the table is restructured.** The chain of a split shard is taken
out, and two new ones are created behind the others, of which the one that the node belongs to gets
what the node has to propose (`ShardManager.followSplit_chains`). The chain of a dissolved shard is
taken out, and the survivor's chain is told the members of both
(`ShardManager.follows_followMerge`).
-/

namespace ShardGossip

open scoped List

/-! ### What is taken out of a chain -/

namespace Replica

variable {r : Replica}

/-- What the member has to propose: the transactions of its own pending events, in queue order, and
then the unbatched ones. -/
def ownTransactions (r : Replica) : List Transaction :=
  (r.store.pendingEvents.filter (·.origin = r.localId)).flatMap (·.transactions) ++ r.unbatched

/-- The same without the responses of the pending events. -/
def ownRequests (r : Replica) : List Transaction :=
  (r.store.pendingEvents.filter (·.origin = r.localId)).flatMap
    (·.transactions.filter (!·.isResponse)) ++ r.unbatched

/-- The responses of all pending events, whoever sealed them, in queue order. -/
def pendingResponses (r : Replica) : List Transaction :=
  r.store.pendingEvents.flatMap (·.transactions.filter (·.isResponse))

theorem takeOwnTransactions_fst (r : Replica) : r.takeOwnTransactions.1 = r.ownTransactions := rfl

theorem takeResponses_fst (r : Replica) : r.takeResponses.1 = r.pendingResponses := rfl

/-- Once the responses are taken, the others are left. -/
theorem ownTransactions_takeResponses (r : Replica) :
    r.takeResponses.2.ownTransactions = r.ownRequests := by
  have hp : r.takeResponses.2.store.pendingEvents =
      r.store.pendingEvents.map (·.withoutResponses) :=
    EventStore.pendingEvents_foldl_update (fun e => by simp [Event.withoutResponses]) r.store
  rw [ownTransactions, hp, List.filter_map, List.flatMap_map]
  rfl

theorem isResponse_of_mem {t : Transaction} (h : t ∈ r.pendingResponses) : t.isResponse := by
  obtain ⟨e, -, ht⟩ := List.mem_flatMap.mp h
  exact (List.mem_filter.mp ht).2

end Replica

namespace ChainRegistry

open Chain

variable {r : ChainRegistry} {shards : List Shard} {s : Shard}

/-- Taking something out of a chain that is not registered leaves the registered ones. -/
theorem Mirrors.takeFrom_retired {α : Type} [Inhabited α] (h : r.Mirrors shards) {c : Chain}
    (hc : c ∈ r.retired) (taking : Replica → α × Replica)
    (ht : ∀ r : Replica, r.GoesOn (taking r).2) :
    ∃ r' : ChainRegistry, r.takeFrom c.serial taking = ((taking c.replica).1, r') ∧
      r'.chains = r.chains ∧ r'.localId = r.localId ∧ r'.pipeline = r.pipeline ∧
      (c.take taking).2 ∈ r'.retired ∧ r'.Mirrors shards := by
  have hm := h.of_tableView (tableView_takeFrom ht c.serial)
  have hne : ∀ d ∈ r.chains, d.serial ≠ c.serial := by
    have hs := h.serials
    rw [all, List.map_append, List.nodup_append] at hs
    exact fun d hd => hs.2.2 _ (List.mem_map_of_mem hd) _ (List.mem_map_of_mem hc)
  unfold takeFrom at hm ⊢
  rw [h.bySerial? (List.mem_append_right _ hc)] at hm ⊢
  refine ⟨_, rfl, ?_, rfl, rfl, ?_, hm⟩
  · exact map_ite_eq_self fun d hd he => absurd he (hne d hd)
  · exact List.mem_map.mpr ⟨c, hc, if_pos rfl⟩

/-- The last chain is the only one of its shard, and it is changed. -/
theorem update_concat {l : List Chain} {c : Chain} (hr : r.chains = l ++ [c])
    (hl : ∀ d ∈ l, d.shardId ≠ c.shardId) (change : Chain → Chain) :
    (r.update c.shardId change).chains = l ++ [change c] := by
  have hm : l.map (fun d => if d.shardId = c.shardId then change d else d) = l :=
    map_ite_eq_self fun d hd he => absurd he (hl d hd)
  rw [update, hr, List.map_append, hm, List.map_singleton, if_pos rfl]

/-- No chain belongs to a new shard yet. -/
theorem Mirrors.shardId_ne (h : r.Mirrors shards)
    (hlt : ∀ s' ∈ shards, s'.id.number < s.id.number) : ∀ c ∈ r.chains, c.shardId ≠ s.id := by
  intro c hc he
  exact Nat.lt_irrefl _ (he ▸ h.number_lt hlt c hc)

/-- The chain of a new shard stands behind the others and has nothing to propose. -/
theorem Mirrors.chains_sync_new (h : r.Mirrors shards)
    (hlt : ∀ s' ∈ shards, s'.id.number < s.id.number) (members : List NodeId) :
    ∃ c, (r.sync s.id members).chains = r.chains ++ [c] ∧ c.shardId = s.id ∧
      c.replica.unbatched = [] := by
  rw [sync, h.create_eq hlt]
  let c := Chain.fresh r.created s.id r.localId r.config r.signer r.pipeline
  exact ⟨c.follow r.localId members, update_concat (c := c) rfl (h.shardId_ne hlt) _,
    (shardId_follow ..).1, unbatched_follow ..⟩

end ChainRegistry

namespace ShardManager

open Chain ChainRegistry

variable {m m' : ShardManager} {shards before after : List Shard} {s first second : Shard}

/-! ### Splitting -/

theorem openHalf_rest (own : List Transaction) (m : ShardManager) (half : ShardId × List NodeId) :
    m.openHalf own half = { m with chains := (m.openHalf own half).chains } := by
  unfold openHalf
  dsimp only
  split <;> rfl

/-- Both halves are opened, with the same transactions to be carried over. -/
theorem followSplit_openHalf (m : ShardManager) (plan : SplitPlan) :
    ∃ own chains, m.followSplit plan =
      openHalf own (openHalf own { m with chains := chains } plan.first) plan.second :=
  ⟨_, _, rfl⟩

/-- Following a split changes the chains only. -/
theorem followSplit_rest (m : ShardManager) (plan : SplitPlan) :
    m.followSplit plan = { m with chains := (m.followSplit plan).chains } := by
  obtain ⟨own, chains, he⟩ := m.followSplit_openHalf plan
  rw [he, openHalf_rest, openHalf_rest own _ plan.first]

theorem table_foldl_followSplit (m : ShardManager) (plans : List SplitPlan) :
    (plans.foldl followSplit m).table = m.table ∧
      (plans.foldl followSplit m).delivered = m.delivered := by
  induction plans generalizing m with
  | nil => exact ⟨rfl, rfl⟩
  | cons plan rest ih =>
      rw [List.foldl_cons, (ih _).1, (ih _).2, followSplit_rest]
      exact ⟨rfl, rfl⟩

/-- The chain of a half stands behind the others, and has what the node carries over to it. -/
theorem openHalf_new (own : List Transaction) (h : m.chains.Mirrors shards)
    (hd : (shards.map (·.id)).Nodup)
    (hlt : ∀ s' ∈ shards, s'.id.number < s.id.number) :
    (m.openHalf own (s.id, s.nodeIds)).chains.Mirrors (shards ++ [s]) ∧
      ∃ c, (m.openHalf own (s.id, s.nodeIds)).chains.chains = m.chains.chains ++ [c] ∧
        c.shardId = s.id ∧ c.replica.unbatched = if m.localId ∈ s.nodeIds then own else [] := by
  have hm := h.sync_new hd hlt
  obtain ⟨c, hc, hi, hu⟩ := h.chains_sync_new hlt s.nodeIds
  by_cases hl : m.localId ∈ s.nodeIds
  · have ho : (m.openHalf own (s.id, s.nodeIds)).chains =
        (m.chains.sync s.id s.nodeIds).update s.id (·.absorb own) := by
      simp only [openHalf, localId_syncChain, List.contains_iff_mem.mpr hl]
      rfl
    rw [ho, if_pos hl]
    refine ⟨hm.of_tableView (tableView_update (·.absorb own) (fun c => rfl) s.id),
      c.absorb own, ?_, hi, ?_⟩
    · rw [← hi] at hc ⊢
      exact update_concat hc (fun d hd => hi ▸ h.shardId_ne hlt d hd) _
    · show c.replica.unbatched ++ own = own
      rw [hu, List.nil_append]
  · have ho : (m.openHalf own (s.id, s.nodeIds)).chains = m.chains.sync s.id s.nodeIds := by
      simp only [openHalf, localId_syncChain, List.contains_iff_mem, if_neg hl]
      rfl
    rw [ho, if_neg hl]
    exact ⟨hm, c, hc, hi, hu⟩

/-- The chain of a split shard is taken out with what the node has to propose there. -/
theorem followSplit_eq (h : m.chains.Mirrors (before ++ s :: after))
    (hd : ((before ++ s :: after).map (·.id)).Nodup) {plan : SplitPlan} (hp : plan.parent = s.id)
    (hm : plan.members = s.nodeIds) :
    ∃ c, m.chains.get? s.id = some c ∧ ∃ chains : ChainRegistry,
      chains.Mirrors (before ++ after) ∧ chains.localId = m.localId ∧
        chains.chains = m.chains.chains.filter (·.shardId ≠ s.id) ∧
        let own := if m.localId ∈ s.nodeIds then c.replica.ownTransactions else []
        m.followSplit plan =
          openHalf own (openHalf own { m with chains := chains } plan.first) plan.second := by
  obtain ⟨c, -, -, hg, hr⟩ := h.remove_eq hd
  have hrm := h.remove hd
  rw [hr] at hrm
  refine ⟨c, hg, ?_⟩
  by_cases hl : m.localId ∈ s.nodeIds
  · obtain ⟨r', ht, hch, hloc, -, -, hmir⟩ := hrm.takeFrom_retired (c := c.shutdown)
      List.mem_cons_self (·.takeOwnTransactions) fun r => Replica.goesOn_of_eq rfl
    refine ⟨r', hmir, hloc, hch, ?_⟩
    unfold followSplit
    rw [hp, hr, hm]
    dsimp only
    rw [if_pos (List.contains_iff_mem.mpr hl), ht, if_pos hl, replica_shutdown]
    rfl
  · refine ⟨_, hrm, rfl, rfl, ?_⟩
    unfold followSplit
    rw [hp, hr, hm]
    dsimp only
    rw [if_neg (mt List.contains_iff_mem.mp hl), if_neg hl]
    rfl

/-- The chain of a split shard gives way to two, and the one that the node belongs to has what it
has to propose. -/
theorem followSplit_chains (h : m.chains.Mirrors (before ++ s :: after))
    (hd : ((before ++ s :: after).map (·.id)).Nodup) {plan : SplitPlan}
    (hp : plan.Deals s first second)
    (hlt : ∀ s' ∈ before ++ after, s'.id.number < first.id.number)
    (hlt' : first.id.number < second.id.number) :
    (m.followSplit plan).chains.Mirrors (before ++ after ++ [first, second]) ∧
      (m.followSplit plan).localId = m.localId ∧
      ∃ c, m.chains.get? s.id = some c ∧ ∃ c₁ c₂,
        (m.followSplit plan).chains.chains =
          m.chains.chains.filter (·.shardId ≠ s.id) ++ [c₁, c₂] ∧
        (c₁.shardId = first.id ∧ c₁.replica.unbatched =
          if m.localId ∈ first.nodeIds then c.replica.ownTransactions else []) ∧
        c₂.shardId = second.id ∧ c₂.replica.unbatched =
          if m.localId ∈ second.nodeIds then c.replica.ownTransactions else [] := by
  obtain ⟨c, hg, chains, hmir, hloc, hch, he⟩ := followSplit_eq h hd hp.parent hp.members
  have hd₀ : ((before ++ after).map (·.id)).Nodup :=
    (((List.sublist_cons_self s after).append_left before).map _).nodup hd
  have hlt₁ : ∀ s' ∈ before ++ after ++ [first], s'.id.number < second.id.number := by
    intro s' hs'
    rcases List.mem_append.mp hs' with hs' | hs'
    · exact Nat.lt_trans (hlt s' hs') hlt'
    · exact List.mem_singleton.mp hs' ▸ hlt'
  generalize howns : (if m.localId ∈ s.nodeIds then c.replica.ownTransactions else []) = own at he
  -- a half that holds the node is one of a shard that holds it
  have hown {half : Shard} (hsub : half.nodeIds ⊆ s.nodeIds) :
      (if m.localId ∈ half.nodeIds then own else []) =
        if m.localId ∈ half.nodeIds then c.replica.ownTransactions else [] := by
    split
    · rename_i hl
      rw [← howns, if_pos (hsub hl)]
    · rfl
  obtain ⟨hm₁, c₁, hc₁, hi₁, hu₁⟩ :=
    openHalf_new (m := { m with chains := chains }) own hmir hd₀ hlt
  obtain ⟨hm₂, c₂, hc₂, hi₂, hu₂⟩ :=
    openHalf_new own hm₁ (nodup_ids_concat hd₀ hlt) hlt₁
  rw [he, hp.first, hp.second]
  refine ⟨?_, ?_, c, hg, c₁, c₂, ?_, ⟨hi₁, ?_⟩, hi₂, ?_⟩
  · rw [List.append_assoc] at hm₂
    exact hm₂
  · rw [localId_openHalf, localId_openHalf]
    exact hloc
  · rw [hc₂, hc₁]
    show chains.chains ++ [c₁] ++ [c₂] = _
    rw [hch, List.append_assoc]
    rfl
  · rw [hu₁, ← hown fun _ hx => hp.nodes.subset (List.mem_append_left _ hx), ← hloc]
    rfl
  · rw [hu₂, ← hown fun _ hx => hp.nodes.subset (List.mem_append_right _ hx), ← hloc,
      localId_openHalf]
    rfl

/-- Every half of a split shard has a chain, and the one that the node belongs to has what the node
had to propose in the shard. -/
def CarriesOver (m m' : ShardManager) (plan : SplitPlan) : Prop :=
  ∃ c, m.chains.get? plan.parent = some c ∧ ∀ half ∈ plan.halves,
    ∃ c', m'.chains.get? half.1 = some c' ∧
      c'.replica.unbatched = if m.localId ∈ half.2 then c.replica.ownTransactions else []

/-- What became of the chains when some shards were split. -/
structure FollowsSplits (m m' : ShardManager) (t' : ShardTable) (shards : List Shard)
    (plans : List SplitPlan) : Prop where
  mirrors : m'.chains.Mirrors t'.shards
  localId : m'.localId = m.localId
  others : ∀ id ∉ shards.map (·.id), (m.chains.get? id).isSome →
    m'.chains.get? id = m.chains.get? id
  carries : ∀ plan ∈ plans, m.CarriesOver m' plan

/-- One shard is split. -/
theorem follows_followSplit {t : ShardTable} (h : t.WellFormed) (config : ShardingConfig)
    (hs : s ∈ t.shards) (hm : m.chains.Mirrors t.shards) :
    m.FollowsSplits (m.followSplit (t.splitShard config s).1) (t.splitShard config s).2 [s]
      [(t.splitShard config s).1] := by
  obtain ⟨before, after, ht, hne⟩ := h.exists_append hs
  have hdeals := ShardTable.splitShard_deals h config hs
  have hwf := h.splitShard config hs
  have hh := t.halvesOf_shares config s
  have htable : (t.splitShard config s).2.shards =
      before ++ after ++ [(t.halvesOf config s).1, (t.halvesOf config s).2] := by
    rw [ShardTable.splitShard_eq h config ht hne]
  have hlt : ∀ s' ∈ before ++ after, s'.id.number < (t.halvesOf config s).1.id.number := by
    intro s' hs'
    rw [hh.first]
    exact h.issued s' (ht ▸ List.perm_middle.symm.subset (List.mem_cons_of_mem _ hs'))
  have hlt' : (t.halvesOf config s).1.id.number < (t.halvesOf config s).2.id.number := by
    rw [hh.first, hh.second]
    exact Nat.lt_succ_self _
  obtain ⟨hmir, hloc, c, hg, c₁, c₂, hc, ⟨hi₁, hu₁⟩, hi₂, hu₂⟩ :=
    followSplit_chains (ht ▸ hm) (ht ▸ h.distinct) hdeals hlt hlt'
  rw [← htable] at hmir
  have hget {c : Chain} (hc : c ∈ (m.followSplit (t.splitShard config s).1).chains.chains) :
      (m.followSplit (t.splitShard config s).1).chains.get? c.shardId = some c :=
    hmir.get?_of_mem hwf.distinct hc
  refine ⟨hmir, hloc, fun id hid hsome => ?_, ?_⟩
  · have hid : id ≠ s.id := by simpa using hid
    have hf : (m.chains.chains.filter (·.shardId ≠ s.id)).find? (·.shardId = id) =
        m.chains.get? id := by
      rw [List.find?_filter]
      refine congrArg (List.find? · m.chains.chains) (funext fun c => ?_)
      by_cases hc : c.shardId = id <;> simp [hc, hid]
    rw [ChainRegistry.get?, hc, List.find?_append, hf, Option.or_of_isSome hsome]
  · simp only [List.mem_singleton, forall_eq]
    refine ⟨c, hdeals.parent ▸ hg, ?_⟩
    rw [SplitPlan.halves, hdeals.first, hdeals.second, List.forall_mem_cons,
      List.forall_mem_singleton]
    exact ⟨⟨c₁, hi₁ ▸ hget (by simp [hc]), hu₁⟩, c₂, hi₂ ▸ hget (by simp [hc]), hu₂⟩

/-- One shard is split, and then the others. -/
theorem FollowsSplits.cons {m₁ : ShardManager} {t₁ t' : ShardTable} {plan : SplitPlan}
    {plans : List SplitPlan} (h : m.FollowsSplits m₁ t₁ [s] [plan])
    (h' : m₁.FollowsSplits m' t' shards plans)
    (hhalf : ∀ half ∈ plan.halves, half.1 ∉ shards.map (·.id))
    (hparent : ∀ p ∈ plans, p.parent ≠ s.id ∧ (m.chains.get? p.parent).isSome) :
    m.FollowsSplits m' t' (s :: shards) (plan :: plans) := by
  have hothers {id : ShardId} (hne : id ≠ s.id) (hs : (m.chains.get? id).isSome) :
      m₁.chains.get? id = m.chains.get? id :=
    h.others id (by simpa using hne) hs
  refine ⟨h'.mirrors, h'.localId.trans h.localId, fun id hid hs => ?_, fun p hp => ?_⟩
  · rw [List.map_cons, List.mem_cons, not_or] at hid
    have he := hothers hid.1 hs
    rw [h'.others id hid.2 (he ▸ hs), he]
  · rcases List.mem_cons.mp hp with rfl | hp
    · obtain ⟨c, hc, hc'⟩ := h.carries p List.mem_cons_self
      refine ⟨c, hc, fun half hh => ?_⟩
      obtain ⟨c', hg, hu⟩ := hc' half hh
      refine ⟨c', ?_, hu⟩
      rw [h'.others _ (hhalf half hh) (Option.isSome_iff_exists.mpr ⟨c', hg⟩), hg]
    · obtain ⟨c, hc, hc'⟩ := h'.carries p hp
      obtain ⟨hne, hs⟩ := hparent p hp
      rw [hothers hne hs] at hc
      rw [h.localId] at hc'
      exact ⟨c, hc, hc'⟩

theorem follows_foldl_followSplit {config : ShardingConfig} {t t' : ShardTable}
    {plans : List SplitPlan} (hp : ShardTable.Splits config t shards plans t') (h : t.WellFormed)
    (hs : t.Splittable shards) (hm : m.chains.Mirrors t.shards) :
    m.FollowsSplits (plans.foldl followSplit m) t' shards plans := by
  induction hp generalizing m with
  | done t => exact ⟨hm, rfl, fun _ _ _ => rfl, List.forall_mem_nil _⟩
  | @step t t' s rest plans hp ih =>
      have hmem := hs.1 s List.mem_cons_self
      have h₁ := follows_followSplit h config hmem hm
      refine h₁.cons (ih (h.splitShard config hmem) (hs.tail h config) h₁.mirrors) ?_ ?_
      · have hh := t.halvesOf_shares config s
        have hdeals := ShardTable.splitShard_deals h config hmem
        have hnew {id : ShardId} (hle : t.nextId ≤ id.number) : id ∉ rest.map (·.id) :=
          h.not_mem_ids (fun s' hs' => hs.1 s' (List.mem_cons_of_mem _ hs')) hle
        rw [SplitPlan.halves, hdeals.first, hdeals.second, List.forall_mem_cons,
          List.forall_mem_singleton, hh.first, hh.second]
        exact ⟨hnew (Nat.le_refl _), hnew (Nat.le_succ _)⟩
      · intro p hp'
        obtain ⟨s', hs', he⟩ :=
          List.mem_map.mp (hp.parents ▸ List.mem_map_of_mem (f := SplitPlan.parent) hp')
        obtain ⟨c, -, hg, -⟩ := hm.get? h.distinct (hs.1 s' (List.mem_cons_of_mem _ hs'))
        rw [← he]
        exact ⟨(List.pairwise_cons.mp hs.2).1 s' hs', Option.isSome_iff_exists.mpr ⟨c, hg⟩⟩

/-! ### Responses -/

/-- Whether what is given to the pipeline gets as far as the application. -/
def reachesApplication (m : ShardManager) : Bool :=
  match m.chains.pipeline with
  | some .application => true
  | some .tracker => m.forwards
  | none => false

theorem isAssignment_of_isResponse {t : Transaction} (h : t.isResponse) :
    t.isAssignment = false := by
  have hk : t.kind = Transaction.responseKind := beq_iff_eq.mp h
  rw [Transaction.isAssignment, hk]
  rfl

/-- Responses do not change the table. -/
theorem applyCommitted_response (m : ShardManager) {t : Transaction} (h : t.isResponse) :
    m.applyCommitted t = m := by
  unfold applyCommitted
  split
  · rfl
  · rw [if_neg (by simp [isAssignment_of_isResponse h]), if_pos h]

theorem track_responses (m : ShardManager) (shard : ShardId) (ts : List Transaction)
    (h : ∀ t ∈ ts, t.isResponse) :
    m.track shard ts = if m.forwards && !ts.isEmpty then m.collect shard ts else m := by
  have hm : ts.foldl applyCommitted m = m := by
    induction ts with
    | nil => rfl
    | cons t rest ih =>
        rw [List.foldl_cons, applyCommitted_response m (h t List.mem_cons_self)]
        exact ih fun t ht => h t (List.mem_cons_of_mem _ ht)
  have hf : ts.filter (!·.isAssignment) = ts :=
    List.filter_eq_self.mpr fun t ht => by rw [isAssignment_of_isResponse (h t ht), Bool.not_false]
  unfold track
  rw [hm, hf]

/-- Responses go to the application as one batch, if there are any and it is to get them. -/
theorem forward_responses (m : ShardManager) (shard : ShardId) (ts : List Transaction)
    (h : ∀ t ∈ ts, t.isResponse) :
    m.forward shard ts = { m with delivered := m.delivered ++
      if m.reachesApplication && !ts.isEmpty then [(shard, ts)] else [] } := by
  have ht := m.track_responses shard ts h
  obtain ⟨config, table, chains, forwards, delivered⟩ := m
  unfold forward reachesApplication
  cases ts with
  | nil => simp
  | cons t rest =>
      rcases hp : chains.pipeline with _ | _ | _
      · simp
      · simp [deliver, collect]
      · cases forwards <;> simp [deliver, ht, collect]

/-! ### Merging -/

end ShardManager

namespace Chain

/-- Hands transactions to a member, or keeps them to propose them itself. -/
def receive (carried : List Transaction) (c : Chain) : Chain :=
  if carried.isEmpty then c else (c.handOff? carried).getD (c.absorb carried)

theorem tableView_receive (carried : List Transaction) (c : Chain) :
    (c.receive carried).tableView = c.tableView := by
  unfold receive
  split
  · rfl
  · cases ho : c.handOff? carried with
    | none => rfl
    | some c' => exact (works_handOff ho).tableView

/-- Without a connection there is nobody to hand them to. -/
theorem unbatched_receive (carried : List Transaction) {c : Chain} (h : c.sockets.toList = []) :
    (c.receive carried).replica.unbatched = c.replica.unbatched ++ carried := by
  unfold receive
  split
  · rename_i he
    rw [List.isEmpty_iff.mp he, List.append_nil]
  · have ho : c.handOff? carried = none := by
      unfold handOff?
      rw [h]
    rw [ho]
    rfl

end Chain

namespace ShardManager

open Chain ChainRegistry

variable {m m' : ShardManager} {shards before : List Shard} {plan : MergePlan}
  {survivor dissolved merged : Shard}

theorem update_receive_nil (r : ChainRegistry) (shard : ShardId) :
    r.update shard (·.receive []) = r := by
  have hm : r.chains.map (fun c => if c.shardId = shard then c.receive [] else c) = r.chains :=
    map_ite_eq_self fun c _ _ => rfl
  rw [update, hm]

/-- What a dissolved chain has to propose goes to the survivor, without the responses, which are
delivered. -/
theorem carryOver_eq (h : m.chains.Mirrors shards) {d : Chain} (hd : d ∈ m.chains.retired)
    (hb : ¬plan.isBridged) :
    ∃ chains : ChainRegistry, chains.Mirrors shards ∧ chains.chains = m.chains.chains ∧
      m.carryOver plan d.serial = { m with
        delivered := m.delivered ++
          if m.reachesApplication && !d.replica.pendingResponses.isEmpty then
            [(plan.dissolved, d.replica.pendingResponses)] else []
        chains := chains.update plan.survivor (·.receive d.replica.ownRequests) } := by
  obtain ⟨r, ht, hc, -, hp, hd', hr⟩ :=
    h.takeFrom_retired hd (·.takeResponses) fun r => Replica.goesOn_of_eq rfl
  obtain ⟨r', ht', hc', -, -, -, hr'⟩ :=
    hr.takeFrom_retired hd' (·.takeOwnTransactions) fun r => Replica.goesOn_of_eq rfl
  rw [Replica.takeResponses_fst] at ht
  rw [Replica.takeOwnTransactions_fst] at ht'
  have hown : (d.take (·.takeResponses)).2.replica.ownTransactions = d.replica.ownRequests :=
    d.replica.ownTransactions_takeResponses
  have hf := forward_responses { m with chains := r } plan.dissolved
    d.replica.pendingResponses fun t => Replica.isResponse_of_mem
  have ha : ({ m with chains := r } : ShardManager).reachesApplication = m.reachesApplication := by
    rw [reachesApplication, reachesApplication, hp]
  refine ⟨r', hr', hc'.trans hc, ?_⟩
  unfold carryOver
  rw [ht]
  dsimp only
  rw [hf, ha]
  dsimp only
  rw [if_neg (by simp [hb]), if_neg hb]
  have hs : (d.take (·.takeResponses)).2.serial = d.serial := rfl
  rw [← hs, ht', hown]
  dsimp only
  split
  · rename_i he
    rw [List.isEmpty_iff.mp he, update_receive_nil]
  · rename_i he
    have hr : (fun c : Chain => (c.handOff? d.replica.ownRequests).getD
        (c.absorb d.replica.ownRequests)) = (·.receive d.replica.ownRequests) := by
      funext c
      rw [receive, if_neg he]
    rw [hr]

/-- Once the table has merged two shards: the chain of the dissolved one is taken out, and the
survivor's is told the members of both. -/
structure Follows (m : ShardManager) (plan : MergePlan) (merged : List Shard)
    (c d : Chain) (r : ChainRegistry) : Prop where
  mirrors : r.Mirrors merged
  localId : r.localId = m.localId
  pipeline : r.pipeline = m.chains.pipeline
  survivor : c.follow m.localId (plan.survivorMembers ++ plan.dissolvedMembers) ∈ r.chains
  dissolved : d.shutdown ∈ r.retired
  /-- Nothing else happens to the chains. -/
  chains : ∀ {β : Type} {f : Chain → β}, (∀ c : Chain, f c.shutdown = f c) →
    (∀ (c : Chain) members, f (c.follow m.localId members) = f c) →
      r.all.map f ~ m.chains.all.map f
  /-- What else there is to be done. -/
  rest : m.followMerge plan =
    if plan.dissolvedMembers.contains m.localId then
      { m with chains := r }.carryOver plan d.shutdown.serial
    else { m with chains := r }

theorem follows_followMerge {t t' : ShardTable} (ht : t.WellFormed)
    (hm : t.Merges plan t' before survivor dissolved) (h : m.chains.Mirrors t.shards) :
    ∃ c d r, m.chains.get? plan.survivor = some c ∧ m.chains.get? plan.dissolved = some d ∧
      m.Follows plan t'.shards c d r := by
  have hids := ht.distinct
  obtain ⟨hid, -, hroster, -⟩ := Shard.absorb_eq hm.apart
  have hnodes : (survivor.absorb dissolved).nodeIds = survivor.nodeIds ++ dissolved.nodeIds := by
    simp only [Shard.nodeIds_eq_roster, hroster, List.map_append]
  obtain ⟨c, hc, hgc, hic, -⟩ := h.get? hids (s := survivor) (by simp [hm.shards])
  have hne : survivor.id ≠ dissolved.id :=
    ht.others (hm.shards.trans (List.append_cons ..)) survivor (by simp)
  rw [hm.shards, List.append_cons] at h hids
  obtain ⟨d, -, -, hgd, hr⟩ := h.remove_eq hids
  have hrm := h.remove hids
  have hperm {β : Type} {f : Chain → β} := h.perm_remove (f := f) hids
  rw [hr] at hrm
  rw [List.append_nil] at hrm
  simp only [hr] at hperm
  have hids' : ((before ++ [survivor]).map (·.id)).Nodup :=
    ((List.sublist_append_left _ _).map _).nodup hids
  have hcreate := hrm.create_eq_self hids' (List.mem_append_right _ List.mem_cons_self)
  have hfollow := hrm.update_follow hids' hid fun hl => by
    rw [hnodes]
    exact List.mem_append_left _ hl
  rw [hnodes] at hfollow
  have hp := hm.plan
  subst hp
  refine ⟨c, d, ({ m.chains with
      chains := m.chains.chains.filter (·.shardId ≠ dissolved.id)
      retired := d.shutdown :: m.chains.retired } : ChainRegistry).update survivor.id
        (·.follow m.localId (survivor.nodeIds ++ dissolved.nodeIds)), hgc, hgd, ?_⟩
  constructor
  case mirrors =>
    rw [hm.table]
    exact hfollow
  case localId => rfl
  case pipeline => rfl
  case survivor =>
    refine List.mem_map.mpr ⟨c, List.mem_filter.mpr ⟨hc, ?_⟩, if_pos hic⟩
    rw [hic]
    exact decide_eq_true hne
  case dissolved => exact List.mem_cons_self
  case chains =>
    intro β f hf hf'
    rw [map_all_update (hf' · _)]
    exact hperm hf
  case rest =>
    unfold followMerge
    rw [hr]
    dsimp only
    rw [syncChain, updateChains]
    dsimp only
    rw [hcreate]
    rfl

/-- Following a merge changes the chains and what was delivered only, and the chains mirror the
merged shards. -/
theorem followMerge_keeps {t t' : ShardTable} (ht : t.WellFormed)
    (hm : t.Merges plan t' before survivor dissolved) (h : m.chains.Mirrors t.shards) :
    (m.followMerge plan).table = m.table ∧ (m.followMerge plan).chains.Mirrors t'.shards := by
  obtain ⟨c, d, r, -, -, hf⟩ := follows_followMerge ht hm h
  rw [hf.rest]
  split
  · obtain ⟨chains, hmir, -, he⟩ :=
      carryOver_eq (m := { m with chains := r }) hf.mirrors hf.dissolved hm.not_isBridged
    rw [he]
    exact ⟨rfl, hmir.of_tableView (tableView_update _ (tableView_receive _) _)⟩
  · exact ⟨rfl, hf.mirrors⟩

end ShardManager

end ShardGossip

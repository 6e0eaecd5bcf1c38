import ShardGossip.Proofs.ShardTable
import ShardGossip.Proofs.TableView

/-!
# ShardGossip.Proofs.Mirror

**The chains of a node mirror the shard table.** There is one chain for each shard, in the same
order; its peers are the other nodes of the shard, and it runs when the node itself is one of them
(`ChainRegistry.Mirrors`). A table that changes is followed chain by chain: a chain is created or
told new members (`Mirrors.sync_new`, `Mirrors.sync_existing`), or taken out (`Mirrors.remove`), and
nothing else that happens to a chain touches what the table sees of it.
-/

namespace ShardGossip

open scoped List

namespace Chain

variable {c : Chain} {node : NodeId} {s s' : Shard}

/-- A chain does what a node's part in a shard asks for. -/
structure Serves (node : NodeId) (s : Shard) (c : Chain) : Prop where
  localId : c.localId = node
  peers : ∀ q, c.replica.peers.contains q ↔ q ∈ s.nodeIds ∧ q ≠ node
  running : c.running ↔ node ∈ s.nodeIds
  shutDown : c.shutDown = false

theorem Serves.of_tableView {c' : Chain} (h : c.Serves node s) (hc : c'.tableView = c.tableView) :
    c'.Serves node s := by
  simp only [tableView, TableView.mk.injEq] at hc
  obtain ⟨-, -, hl, hp, hr, hd⟩ := hc
  exact ⟨hl.trans h.localId, hp ▸ h.peers, hr ▸ h.running, hd.trans h.shutDown⟩

theorem Serves.of_nodeIds (h : c.Serves node s) (hn : s'.nodeIds = s.nodeIds) :
    c.Serves node s' :=
  ⟨h.localId, hn ▸ h.peers, hn ▸ h.running, h.shutDown⟩

/-- Tells a chain its members, and starts it if the node is one of them. -/
def follow (node : NodeId) (members : List NodeId) (c : Chain) : Chain :=
  let c := c.setMembers members
  if members.contains node then c.run else c

theorem tableView_follow (h : c.shutDown = false) (node : NodeId) (members : List NodeId) :
    (c.follow node members).tableView = { c.tableView with
      peers := (c.replica.setMembers members).replica.peers
      running := c.running || members.contains node } := by
  have hs := c.tableView_setMembers members
  have hd : (c.setMembers members).shutDown = false :=
    (congrArg TableView.shutDown hs).trans h
  unfold follow
  dsimp only
  split
  · rename_i hl
    rw [tableView_run hd, hs, hl, Bool.or_true]
  · rename_i hl
    rw [hs, Bool.eq_false_iff.mpr hl, Bool.or_false]
    rfl

/-- A chain that is told the members of a shard serves it, unless it runs for another one. -/
theorem serves_follow (hl : c.localId = node) (hd : c.shutDown = false)
    (hr : c.running → node ∈ s.nodeIds) : (c.follow node s.nodeIds).Serves node s := by
  have hs := tableView_follow hd node s.nodeIds
  simp only [tableView, TableView.mk.injEq] at hs
  obtain ⟨-, -, hl', hp, hr', hd'⟩ := hs
  refine ⟨hl'.trans hl, fun q => ?_, ?_, hd'.trans hd⟩
  · rw [hp, Replica.contains_peers_setMembers]
    show q ∈ s.nodeIds ∧ q ≠ c.localId ↔ _
    rw [hl]
  · rw [hr', Bool.or_eq_true, List.contains_iff_mem]
    exact or_iff_right_of_imp hr

theorem shardId_follow (c : Chain) (node : NodeId) (members : List NodeId) :
    (c.follow node members).shardId = c.shardId ∧
      (c.follow node members).serial = c.serial := by
  have hs := c.tableView_setMembers members
  have hi : (c.setMembers members).shardId = c.shardId := congrArg TableView.shardId hs
  have hn : (c.setMembers members).serial = c.serial := congrArg TableView.serial hs
  unfold follow
  dsimp only
  split
  · exact ⟨(retains_run _).shardId.trans hi, (retains_run _).serial.trans hn⟩
  · exact ⟨hi, hn⟩

theorem unbatched_follow (c : Chain) (node : NodeId) (members : List NodeId) :
    (c.follow node members).replica.unbatched = c.replica.unbatched := by
  have hu := (c.replica.setMembers_keeps members).2
  rw [← replica_setMembers] at hu
  unfold follow
  dsimp only
  split
  · rw [replica_run, hu]
  · exact hu

end Chain

namespace ChainRegistry

open Chain

variable {r r' : ChainRegistry} {shards shards' before after : List Shard} {s s' : Shard}

/-- How all chains stand. -/
def tableView (r : ChainRegistry) : NodeId × Nat × List TableView × List TableView :=
  (r.localId, r.created, r.chains.map Chain.tableView, r.retired.map Chain.tableView)

theorem tableView_mapAll {change : Chain → Chain}
    (h : ∀ c ∈ r.all, (change c).tableView = c.tableView) :
    (r.mapAll change).tableView = r.tableView := by
  have hm {l : List Chain} (hl : ∀ c ∈ l, (change c).tableView = c.tableView) :
      (l.map change).map Chain.tableView = l.map Chain.tableView := by
    rw [List.map_map]
    exact List.map_congr_left hl
  simp only [tableView, mapAll, hm fun c hc => h c (List.mem_append_left _ hc),
    hm fun c hc => h c (List.mem_append_right _ hc)]

theorem tableView_updateSerial {change : Chain → Chain} {serial : Nat}
    (h : ∀ c ∈ r.all, c.serial = serial → (change c).tableView = c.tableView) :
    (r.updateSerial serial change).tableView = r.tableView := by
  refine tableView_mapAll fun c hc => ?_
  split
  · rename_i hs
    exact h c hc hs
  · rfl

theorem tableView_update (change : Chain → Chain)
    (h : ∀ c : Chain, (change c).tableView = c.tableView) (shard : ShardId) :
    (r.update shard change).tableView = r.tableView := by
  simp only [tableView, update, map_map_ite h r.chains]

theorem tableView_takeFrom {α : Type} [Inhabited α] {taking : Replica → α × Replica}
    (h : ∀ r : Replica, r.GoesOn (taking r).2) (serial : Nat) :
    (r.takeFrom serial taking).2.tableView = r.tableView := by
  unfold takeFrom
  split
  · rfl
  · exact tableView_updateSerial fun c _ _ => (proceeds_take (h c.replica)).tableView

theorem tableView_register (r : ChainRegistry) (pipeline : Pipeline) :
    (r.register pipeline).tableView = r.tableView := by
  have hm : (r.chains.map (·.register pipeline)).map Chain.tableView =
      r.chains.map Chain.tableView := by
    rw [List.map_map]
    exact List.map_congr_left fun c _ => rfl
  simp only [tableView, register, hm]

/-! ### The mirror -/

/-- There is one chain for each shard, in the same order, and it serves the shard. Chains differ in
their serial numbers. -/
structure Mirrors (r : ChainRegistry) (shards : List Shard) : Prop where
  ids : r.chains.map Chain.shardId = shards.map (·.id)
  serves : ∀ s ∈ shards, ∀ c ∈ r.chains, c.shardId = s.id → c.Serves r.localId s
  serials : (r.all.map Chain.serial).Nodup
  created : ∀ n ∈ r.all.map Chain.serial, n < r.created

theorem mirrors_fresh (localId : NodeId) (config : ChainConfig) (signer : Signer) :
    (fresh localId config signer).Mirrors [] :=
  ⟨rfl, List.forall_mem_nil _, List.nodup_nil, List.forall_mem_nil _⟩

theorem Mirrors.bySerial? (h : r.Mirrors shards) {c : Chain} (hc : c ∈ r.all) :
    r.bySerial? c.serial = some c :=
  find?_key h.serials hc

theorem Mirrors.get?_of_mem (h : r.Mirrors shards) (hd : (shards.map (·.id)).Nodup) {c : Chain}
    (hc : c ∈ r.chains) : r.get? c.shardId = some c :=
  find?_key (h.ids ▸ hd) hc

/-- Each shard has its chain. -/
theorem Mirrors.get? (h : r.Mirrors shards) (hd : (shards.map (·.id)).Nodup) (hs : s ∈ shards) :
    ∃ c ∈ r.chains, r.get? s.id = some c ∧ c.shardId = s.id ∧ c.Serves r.localId s := by
  obtain ⟨c, hc, he⟩ := List.mem_map.mp (h.ids ▸ List.mem_map_of_mem (f := Shard.id) hs)
  have hg := h.get?_of_mem hd hc
  rw [he] at hg
  exact ⟨c, hc, hg, he, h.serves s hs c hc he⟩

/-- Ids that are larger than those of the shards have no chain yet. -/
theorem Mirrors.number_lt (h : r.Mirrors shards) {id : ShardId}
    (hlt : ∀ s ∈ shards, s.id.number < id.number) :
    ∀ c ∈ r.chains, c.shardId.number < id.number := by
  intro c hc
  obtain ⟨s, hs, he⟩ := List.mem_map.mp (h.ids ▸ List.mem_map_of_mem (f := Chain.shardId) hc)
  exact he ▸ hlt s hs

theorem map_of_tableView {β : Type} (f : TableView → β) {l l' : List Chain}
    (h : l'.map Chain.tableView = l.map Chain.tableView) :
    l'.map (fun c => f c.tableView) = l.map fun c => f c.tableView := by
  simpa only [List.map_map, Function.comp_def] using congrArg (List.map f) h

theorem Mirrors.of_tableView (h : r.Mirrors shards) (hr : r'.tableView = r.tableView) :
    r'.Mirrors shards := by
  simp only [tableView, Prod.mk.injEq] at hr
  obtain ⟨hl, hn, hc, hd⟩ := hr
  have hall : r'.all.map Chain.tableView = r.all.map Chain.tableView := by
    rw [all, all, List.map_append, List.map_append, hc, hd]
  have hserials : r'.all.map Chain.serial = r.all.map Chain.serial :=
    map_of_tableView TableView.serial hall
  refine ⟨(map_of_tableView TableView.shardId hc).trans h.ids, fun s hs c' hc' he => ?_,
    hserials ▸ h.serials, hserials ▸ hn ▸ h.created⟩
  obtain ⟨c, hm, hst⟩ := List.mem_map.mp (hc ▸ List.mem_map_of_mem (f := Chain.tableView) hc')
  have hi : c.shardId = s.id := (congrArg TableView.shardId hst).trans he
  rw [hl]
  exact (h.serves s hs c hm hi).of_tableView hst.symm

/-- Contracts do not matter. -/
theorem Mirrors.of_members (h : r.Mirrors shards)
    (hs : shards'.map (fun s => (s.id, s.nodeIds)) = shards.map fun s => (s.id, s.nodeIds)) :
    r.Mirrors shards' := by
  have hi : shards'.map (·.id) = shards.map (·.id) := by
    have := congrArg (List.map Prod.fst) hs
    simpa only [List.map_map, Function.comp_def] using this
  refine ⟨h.ids.trans hi.symm, fun s' hs' c hc he => ?_, h.serials, h.created⟩
  obtain ⟨s, hm, heq⟩ := List.mem_map.mp
    (hs ▸ List.mem_map_of_mem (f := fun s : Shard => (s.id, s.nodeIds)) hs')
  obtain ⟨hid, hn⟩ := Prod.mk.inj heq
  exact (h.serves s hm c hc (he.trans hid.symm)).of_nodeIds hn.symm

/-! ### Following the table -/

/-- Makes the chain of a shard agree with the nodes of the shard. -/
def sync (r : ChainRegistry) (shard : ShardId) (members : List NodeId) : ChainRegistry :=
  (r.create shard).update shard (·.follow r.localId members)

theorem map_all_update {β : Type} {f : Chain → β} {change : Chain → Chain}
    (h : ∀ c : Chain, f (change c) = f c) (r : ChainRegistry) (shard : ShardId) :
    (r.update shard change).all.map f = r.all.map f := by
  rw [all, all, List.map_append, List.map_append, update, map_map_ite h r.chains]

/-- The chain of one shard is told the shard's new members. -/
theorem Mirrors.update_follow (h : r.Mirrors (before ++ s :: after))
    (hd : ((before ++ s :: after).map (·.id)).Nodup) (hid : s'.id = s.id)
    (hn : r.localId ∈ s.nodeIds → r.localId ∈ s'.nodeIds) :
    (r.update s.id (·.follow r.localId s'.nodeIds)).Mirrors (before ++ s' :: after) := by
  have hother := key_ne_of_nodup hd
  have hserials := map_all_update (f := Chain.serial)
    (fun c => (shardId_follow c r.localId s'.nodeIds).2) r s.id
  refine ⟨?_, fun s₁ hs₁ c' hc' he => ?_, hserials ▸ h.serials, hserials ▸ h.created⟩
  · rw [update, map_map_ite (fun c => (shardId_follow c ..).1), h.ids]
    simp [hid]
  · obtain ⟨c, hc, rfl⟩ := List.mem_map.mp hc'
    rcases List.mem_cons.mp (List.perm_middle.subset hs₁) with rfl | hs₁
    · -- the chain of the shard that has new members
      have hi : c.shardId = s.id := by
        split at he
        · assumption
        · exact he.trans hid
      have hs := h.serves s (List.mem_append_right _ List.mem_cons_self) c hc hi
      rw [if_pos hi]
      exact serves_follow hs.localId hs.shutDown fun hr => hn (hs.running.mp hr)
    · have hi : c.shardId ≠ s.id := by
        intro hi
        rw [if_pos hi, (shardId_follow ..).1, hi] at he
        exact hother s₁ hs₁ he.symm
      rw [if_neg hi] at he ⊢
      exact h.serves s₁ (List.perm_middle.symm.subset (List.mem_cons_of_mem _ hs₁)) c hc he

theorem Mirrors.create_eq_self (h : r.Mirrors shards) (hd : (shards.map (·.id)).Nodup)
    (hs : s ∈ shards) : r.create s.id = r := by
  obtain ⟨c, -, hg, -⟩ := h.get? hd hs
  unfold create
  rw [if_pos (Option.isSome_iff_exists.mpr ⟨c, hg⟩)]

/-- The chain of a shard that was there before is told the shard's new members. -/
theorem Mirrors.sync_existing (h : r.Mirrors (before ++ s :: after))
    (hd : ((before ++ s :: after).map (·.id)).Nodup) (hid : s'.id = s.id)
    (hn : r.localId ∈ s.nodeIds → r.localId ∈ s'.nodeIds) :
    (r.sync s.id s'.nodeIds).Mirrors (before ++ s' :: after) := by
  rw [sync, h.create_eq_self hd (List.mem_append_right _ List.mem_cons_self)]
  exact h.update_follow hd hid hn

/-- The chain of a new shard goes behind the others. -/
theorem Mirrors.create_eq (h : r.Mirrors shards) {id : ShardId}
    (hlt : ∀ s ∈ shards, s.id.number < id.number) :
    r.create id = { r with
      chains := r.chains ++ [.fresh r.created id r.localId r.config r.signer r.pipeline]
      created := r.created + 1 } := by
  have hall := h.number_lt hlt
  have hnone : ¬(r.get? id).isSome := by
    rw [ChainRegistry.get?, List.find?_isSome]
    rintro ⟨c, hc, he⟩
    exact Nat.lt_irrefl _ (of_decide_eq_true he ▸ hall c hc)
  rw [create, if_neg hnone, List.partition_eq_filter_filter,
    List.filter_eq_self.mpr fun c hc => decide_eq_true (hall c hc),
    List.filter_eq_nil_iff.mpr fun c hc => by simpa using hall c hc]

/-- A new chain serves a shard without nodes. -/
theorem Mirrors.create (h : r.Mirrors shards) {id : ShardId}
    (hlt : ∀ s ∈ shards, s.id.number < id.number) (capacity : Nat) :
    (r.create id).Mirrors (shards ++ [.empty id capacity]) := by
  rw [h.create_eq hlt]
  have hall : r.chains ++ [Chain.fresh r.created id r.localId r.config r.signer r.pipeline] ++
      r.retired ~ Chain.fresh r.created id r.localId r.config r.signer r.pipeline :: r.all := by
    rw [List.append_assoc]
    exact List.perm_middle
  have hserials := hall.map Chain.serial
  refine ⟨?_, fun s hs c hc he => ?_, ?_, fun n hn => ?_⟩
  · rw [List.map_append, List.map_append, h.ids]
    rfl
  · rcases List.mem_append.mp hs with hs | hs <;> rcases List.mem_append.mp hc with hc | hc
    · exact h.serves s hs c hc he
    · -- a shard that was there, and the new chain
      rw [List.mem_singleton.mp hc] at he
      exact absurd (hlt s hs) (he ▸ Nat.lt_irrefl _)
    · -- the new shard, and a chain that was there
      have hc := h.number_lt hlt c hc
      rw [he, List.mem_singleton.mp hs] at hc
      exact absurd hc (Nat.lt_irrefl _)
    · rw [List.mem_singleton.mp hs, List.mem_singleton.mp hc]
      exact ⟨rfl, fun q => by simp [Chain.fresh, Replica.fresh, Shard.nodeIds, Shard.empty],
        by simp [Chain.fresh, Shard.nodeIds, Shard.empty], rfl⟩
  · refine hserials.nodup_iff.mpr (List.nodup_cons.mpr ⟨fun hm => ?_, h.serials⟩)
    exact Nat.lt_irrefl _ (h.created _ hm)
  · rcases List.mem_cons.mp (hserials.subset hn) with rfl | hn
    · exact Nat.lt_succ_self _
    · exact Nat.lt_succ_of_lt (h.created n hn)

theorem nodup_ids_concat (hd : (shards.map (·.id)).Nodup)
    (hlt : ∀ s' ∈ shards, s'.id.number < s.id.number) : ((shards ++ [s]).map (·.id)).Nodup := by
  rw [List.map_append, List.nodup_append]
  refine ⟨hd, List.nodup_singleton _, fun id hid id' hid' he => ?_⟩
  obtain ⟨s', hs', hi⟩ := List.mem_map.mp hid
  have hlt := hlt s' hs'
  rw [hi, he, List.mem_singleton.mp hid'] at hlt
  exact Nat.lt_irrefl _ hlt

/-- The chain of a new shard is created and told the shard's members. -/
theorem Mirrors.sync_new (h : r.Mirrors shards) (hd : (shards.map (·.id)).Nodup)
    (hlt : ∀ s' ∈ shards, s'.id.number < s.id.number) :
    (r.sync s.id s.nodeIds).Mirrors (shards ++ [s]) := by
  have hc := h.create hlt s.capacity
  have hl : (r.create s.id).localId = r.localId := by rw [h.create_eq hlt]
  rw [sync, ← hl]
  exact hc.update_follow (s := .empty s.id s.capacity) (nodup_ids_concat hd hlt) rfl
    fun hm => absurd hm List.not_mem_nil

/-- The chain of a shard is taken out. -/
theorem Mirrors.remove_eq (h : r.Mirrors (before ++ s :: after))
    (hd : ((before ++ s :: after).map (·.id)).Nodup) :
    ∃ c ∈ r.chains, c.shardId = s.id ∧ r.get? s.id = some c ∧
      r.remove s.id = (some c.shutdown, { r with
        chains := r.chains.filter (·.shardId ≠ s.id)
        retired := c.shutdown :: r.retired }) := by
  obtain ⟨c, hc, hg, hi, -⟩ := h.get? hd (List.mem_append_right _ List.mem_cons_self)
  refine ⟨c, hc, hi, hg, ?_⟩
  unfold remove
  rw [hg]

/-- It is still known by its serial number. -/
theorem Mirrors.perm_remove {β : Type} {f : Chain → β} (h : r.Mirrors (before ++ s :: after))
    (hd : ((before ++ s :: after).map (·.id)).Nodup) (hf : ∀ c : Chain, f c.shutdown = f c) :
    (r.remove s.id).2.all.map f ~ r.all.map f := by
  obtain ⟨c, hc, hi, -, hr⟩ := h.remove_eq hd
  have hp := perm_cons_filter_key (h.ids ▸ hd) hc
  rw [hi] at hp
  rw [hr]
  calc (r.chains.filter (·.shardId ≠ s.id) ++ c.shutdown :: r.retired).map f
    _ ~ (c.shutdown :: (r.chains.filter (·.shardId ≠ s.id) ++ r.retired)).map f :=
        List.perm_middle.map _
    _ = (c :: r.chains.filter (·.shardId ≠ s.id) ++ r.retired).map f := by
        rw [List.map_cons, hf]
        rfl
    _ ~ r.all.map f := ((hp.append_right r.retired).map _).symm

theorem Mirrors.remove (h : r.Mirrors (before ++ s :: after))
    (hd : ((before ++ s :: after).map (·.id)).Nodup) :
    (r.remove s.id).2.Mirrors (before ++ after) := by
  have hperm := h.perm_remove hd fun c => c.retains_shutdown.serial
  obtain ⟨c, hc, hi, -, hr⟩ := h.remove_eq hd
  have hother := key_ne_of_nodup hd
  rw [hr] at hperm
  rw [hr]
  refine ⟨?_, fun s₁ hs₁ c₁ hc₁ he => ?_, hperm.nodup_iff.mpr h.serials,
    fun n hn => h.created n (hperm.subset hn)⟩
  · have hkeep : ((before ++ after).map (·.id)).filter (· ≠ s.id) = (before ++ after).map (·.id) :=
      List.filter_eq_self.mpr <| List.forall_mem_map.mpr fun s' hs' =>
        decide_eq_true (hother s' hs')
    have hf := congrArg (List.filter (· ≠ s.id)) h.ids
    rw [List.filter_map, List.map_append, List.map_cons, List.filter_append,
      List.filter_cons_of_neg (by simp), ← List.filter_append, ← List.map_append, hkeep] at hf
    exact hf
  · exact h.serves s₁ (List.perm_middle.symm.subset (List.mem_cons_of_mem _ hs₁)) c₁
      (List.mem_of_mem_filter hc₁) he

end ChainRegistry

end ShardGossip

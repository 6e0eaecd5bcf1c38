import ShardGossip.Proofs.Placement
import ShardGossip.Proofs.Validation

/-!
# ShardGossip.Proofs.Bootstrap

**All nodes begin with the same table** (`Node.bootstrap_agrees`). A node places itself and its
peers in the order of their ids, and there is only one such order, whoever lists them
(`Node.everyone_eq`). The first of them opens shard 0, which is then the lightest one for all the
others (`ShardTable.place_alone`), and the chain of the shard follows.
-/

namespace ShardGossip

open scoped List

/-! ### The network -/

namespace NodeConfig

variable {c : NodeConfig}

/-- All nodes of the network, each with its power: the node itself and its peers. -/
def network (c : NodeConfig) : List (NodeId × Nat) :=
  (c.nodeId, c.power) :: c.peers.map fun peer => (peer.id, peer.power)

theorem nodup_network (h : c.validate = .ok ()) : (c.network.map Prod.fst).Nodup := by
  obtain ⟨-, -, hpeers, -⟩ := validate_eq_ok.mp h
  obtain ⟨-, hnodup, -⟩ := checkPeers_eq_ok.mp hpeers
  simpa [network, Function.comp_def] using hnodup

end NodeConfig

/-! ### The table -/

namespace ShardTable

variable {config : ShardingConfig} {capacity : Nat} {nodes : List Placement} {n : Placement}

/-- A table with one shard, which holds no contracts. -/
def alone (capacity : Nat) (nodes : List Placement) : ShardTable :=
  ⟨[⟨⟨0⟩, [], nodes.map fun n => { n with shard := some ⟨0⟩ }, capacity, 0⟩], 1⟩

theorem place_empty (config : ShardingConfig) (n : Placement) :
    ((∅ : ShardTable).place config n).2 = alone config.shardCapacity [n] := rfl

/-- The only shard is the lightest one. -/
theorem place_alone (config : ShardingConfig) (h : n.id ∉ nodes.map (·.id)) :
    ((alone capacity nodes).place config n).2 = alone capacity (nodes ++ [n]) := by
  have hnone : (alone capacity nodes).shardOfNode n.id = none := by
    rw [shardOfNode_eq_none]
    simpa [alone, roster, Shard.roster, Placement.entry] using h
  rw [place, hnone]
  simp [alone, lightest, update, Shard.pushNode]

/-- However many nodes are placed in an empty table, they are all in its first shard. -/
theorem foldl_place (config : ShardingConfig) (hne : nodes ≠ [])
    (h : (nodes.map (·.id)).Nodup) :
    nodes.foldl (fun t n => (t.place config n).2) ∅ = alone config.shardCapacity nodes := by
  induction nodes using List.reverseRecOn with
  | nil => exact absurd rfl hne
  | append_singleton rest n ih =>
      rw [List.foldl_append, List.foldl_cons, List.foldl_nil]
      rw [List.map_append, List.map_singleton, ← List.concat_eq_append, List.nodup_concat] at h
      cases rest with
      | nil => exact place_empty config n
      | cons first rest =>
          rw [ih (List.cons_ne_nil first rest) h.2]
          exact place_alone config h.1

@[simp] theorem roster_alone : (alone capacity nodes).roster = nodes.map (·.entry) := by
  simp [alone, roster, Shard.roster, Placement.entry]

theorem shardsWith_alone {id : NodeId} (h : id ∈ nodes.map (·.id)) :
    (alone capacity nodes).shardsWith id = [⟨0⟩] := by
  have hcontains : (⟨⟨0⟩, [], nodes.map fun n => { n with shard := some ⟨0⟩ }, capacity, 0⟩ :
      Shard).containsNode id := by
    rw [Shard.containsNode_iff]
    simpa [Shard.nodeIds, Function.comp_def] using h
  simp [alone, shardsWith, hcontains]

end ShardTable

/-! ### The manager -/

namespace ShardManager

variable {m : ShardManager}

/-- Places nodes one after the other. -/
def placeAll (m : ShardManager) (nodes : List Placement) : ShardManager :=
  nodes.foldl (fun m node => (m.placeNode node).2) m

/-- A node that has a shard is left there. -/
theorem placeNode_of_placed {node : Placement} (h : node.id ∈ m.table.roster.map Prod.fst) :
    (m.placeNode node).2 = m := by
  simp only [placeNode]
  cases hs : m.table.shardOfNode node.id with
  | some shard => rfl
  | none => exact absurd h (ShardTable.shardOfNode_eq_none.mp hs)

theorem placeAll_of_placed {nodes : List Placement}
    (h : ∀ node ∈ nodes, node.id ∈ m.table.roster.map Prod.fst) : m.placeAll nodes = m := by
  refine List.foldlRecOn (motive := (· = m)) nodes _ rfl ?_
  rintro _ rfl node hnode
  exact placeNode_of_placed (h node hnode)

/-- To a manager placing a node is a change of its table, which its chains follow. -/
theorem placeNode_rest (m : ShardManager) (node : Placement) :
    (m.placeNode node).2.table = (m.table.place m.config node).2 ∧
      (m.placeNode node).2.config = m.config ∧ (m.placeNode node).2.localId = m.localId := by
  simp only [placeNode]
  cases hs : m.table.shardOfNode node.id with
  | some shard => simp [ShardTable.place, hs]
  | none => exact ⟨rfl, rfl, localId_syncChain _ _ _⟩

theorem placeAll_rest (m : ShardManager) (nodes : List Placement) :
    (m.placeAll nodes).table = nodes.foldl (fun t n => (t.place m.config n).2) m.table ∧
      (m.placeAll nodes).config = m.config ∧ (m.placeAll nodes).localId = m.localId := by
  induction nodes generalizing m with
  | nil => exact ⟨rfl, rfl, rfl⟩
  | cons node rest ih =>
      obtain ⟨ht, hc, hl⟩ := m.placeNode_rest node
      obtain ⟨ht', hc', hl'⟩ := ih (m.placeNode node).2
      rw [hc, ht] at ht'
      exact ⟨ht', hc'.trans hc, hl'.trans hl⟩

/-- The chain of the only shard has the nodes of the shard as its members. -/
theorem InStep.chain_alone (h : m.InStep) {capacity : Nat} {nodes : List Placement}
    (ht : m.table = .alone capacity nodes) (hl : m.localId ∈ nodes.map (·.id)) :
    ∃ chain, m.chains.chains = [chain] ∧ chain.shardId = ⟨0⟩ ∧ chain.running ∧
      ∀ id, id ∈ chain.members ↔ id ∈ nodes.map (·.id) := by
  have hmirrors := h.mirrors
  rw [ht] at hmirrors
  obtain ⟨chain, hchain, hid⟩ := List.map_eq_singleton_iff.mp hmirrors.ids
  have hserves := hmirrors.serves _ List.mem_cons_self chain (by simp [hchain]) hid
  have hnodes : Shard.nodeIds ⟨⟨0⟩, [], nodes.map fun n => { n with shard := some ⟨0⟩ },
      capacity, 0⟩ = nodes.map (·.id) := by
    simp [Shard.nodeIds]
  obtain ⟨hlocal, hpeers, hrunning, -⟩ := hserves
  rw [hnodes] at hpeers hrunning
  refine ⟨chain, hchain, hid, hrunning.mpr hl, fun id => ?_⟩
  simp only [Chain.members, Replica.mem_toList_iff, contains_insert_iff, hpeers, hlocal]
  constructor
  · rintro (rfl | ⟨hid, -⟩)
    · exact hl
    · exact hid
  · intro hid
    by_cases heq : m.chains.localId = id
    · exact .inl heq
    · exact .inr ⟨hid, Ne.symm heq⟩

theorem InStep.placeAll (h : m.InStep) (nodes : List Placement) : (m.placeAll nodes).InStep :=
  List.foldlRecOn nodes _ h fun _ hm node _ => hm.placeNode node

end ShardManager

/-! ### The node -/

namespace Node

open NodeConfig

variable {n n' : Node} {c c' : NodeConfig}

/-- Where a network stands when it was placed for the first time. -/
structure Assembled (n : Node) (network : List (NodeId × Nat)) : Prop where
  /-- Every node is placed once, in shard 0. -/
  placed : ∃ s, n.shards.table.shards = [s] ∧ s.id = ⟨0⟩ ∧ s.nodeIds.Nodup ∧ s.roster ~ network
  /-- The only chain is that of shard 0, and all nodes are its members. -/
  chain : ∃ chain, n.shards.chains.chains = [chain] ∧ chain.shardId = ⟨0⟩ ∧ chain.running ∧
    ∀ id, id ∈ chain.members ↔ id ∈ network.map Prod.fst
  /-- Placing them again changes nothing. -/
  again : n.bootstrap = ([⟨0⟩], n)

/-- The nodes to be placed are those of the network, in some order. -/
theorem everyone_perm (n : Node) :
    n.everyone ~ n.config.network.map fun e => .unplaced e.1 e.2 := by
  refine (List.mergeSort_perm ..).trans ?_
  simp [network, localId, Function.comp_def]

theorem ids_everyone (n : Node) :
    n.everyone.map (·.id) ~ n.config.network.map Prod.fst := by
  have hp := n.everyone_perm.map (·.id)
  rwa [List.map_map] at hp

theorem sorted_everyone (n : Node) :
    n.everyone.Pairwise fun a b => (compare a.id b.id).isLE := by
  refine List.pairwise_mergeSort (fun a b c hab hbc => ?_) (fun a b => ?_) _
  · exact Std.TransCmp.isLE_trans hab hbc
  · have hswap : compare b.id a.id = (compare a.id b.id).swap := Std.OrientedOrd.eq_swap
    rw [Bool.or_eq_true, hswap]
    cases compare a.id b.id <;> simp

/-- There is one order only in which the nodes of a network are placed. -/
theorem everyone_eq (hd : (n.config.network.map Prod.fst).Nodup)
    (hp : n.config.network ~ n'.config.network) : n.everyone = n'.everyone := by
  have hperm : n.everyone ~ n'.everyone :=
    n.everyone_perm.trans ((hp.map _).trans n'.everyone_perm.symm)
  have hids : (n.everyone.map (·.id)).Nodup := n.ids_everyone.nodup_iff.mpr hd
  refine hperm.eq_of_pairwise (fun a b ha hb hab hba => ?_) n.sorted_everyone n'.sorted_everyone
  have heq : compare a.id b.id = .eq := Std.OrientedCmp.isLE_antisymm hab hba
  exact List.inj_on_of_nodup_map hids ha (hperm.symm.subset hb) (Std.LawfulEqCmp.eq_of_compare heq)

/-- A network placed in an empty table is all in shard 0, and the shard's chain has all of it as its
members. -/
theorem assembled_bootstrap (hd : (n.config.network.map Prod.fst).Nodup) (hm : n.shards.InStep)
    (hempty : n.shards.table = ∅) (hl : n.shards.localId = n.localId) :
    n.bootstrap.2.shards.table = .alone n.shards.config.shardCapacity n.everyone ∧
      n.bootstrap.1 = [⟨0⟩] ∧ n.bootstrap.2.Assembled n.config.network := by
  have hids := n.ids_everyone
  have hne : n.everyone ≠ [] := by
    intro hnil
    simpa [hnil, network] using hids.length_eq
  obtain ⟨htable, -, hlocal⟩ := n.shards.placeAll_rest n.everyone
  rw [hempty, ShardTable.foldl_place _ hne (hids.nodup_iff.mpr hd)] at htable
  have hown : n.localId ∈ n.everyone.map (·.id) := hids.symm.subset List.mem_cons_self
  have hjoined : (n.shards.placeAll n.everyone).localShards = [⟨0⟩] := by
    rw [ShardManager.localShards, htable, hlocal, hl]
    exact ShardTable.shardsWith_alone hown
  obtain ⟨chain, hchain, hid, hrunning, hmembers⟩ :=
    (hm.placeAll n.everyone).chain_alone htable (by rwa [hlocal, hl])
  have hagain : (n.shards.placeAll n.everyone).placeAll n.everyone = n.shards.placeAll n.everyone :=
    ShardManager.placeAll_of_placed fun node hnode => by
      rw [htable, ShardTable.roster_alone]
      exact List.mem_map_of_mem (List.mem_map_of_mem (f := Placement.entry) hnode)
  refine ⟨htable, hjoined, ?_, ⟨chain, hchain, hid, hrunning, fun id => ?_⟩, ?_⟩
  · refine ⟨_, congrArg ShardTable.shards htable, rfl, ?_, ?_⟩
    · simpa [Shard.nodeIds, Function.comp_def] using hids.nodup_iff.mpr hd
    · have hentries : n.everyone.map Placement.entry ~ n.config.network := by
        have hp := n.everyone_perm.map Placement.entry
        rw [List.map_map] at hp
        exact hp.trans (List.Perm.of_eq (List.map_id _))
      rw [Shard.roster, List.map_map]
      exact hentries
  · exact (hmembers id).trans hids.mem_iff
  · -- whom the node places, it knows from its configuration
    have hsecond : n.bootstrap.2.bootstrap =
        (((n.shards.placeAll n.everyone).placeAll n.everyone).localShards,
          { n with shards := (n.shards.placeAll n.everyone).placeAll n.everyone }) := rfl
    rw [hsecond, hagain, hjoined]
    rfl

/-- The node of a valid configuration can be made, and begins without shards. -/
theorem bootstrap_of_valid (h : c.validate = .ok ()) :
    ∃ n, Node.ofConfig c = .ok n ∧ n.config = c ∧
      n.bootstrap.2.shards.table = .alone c.sharding.shardCapacity n.everyone ∧
      n.bootstrap.1 = [⟨0⟩] ∧ n.bootstrap.2.Assembled c.network := by
  obtain ⟨key, hkey⟩ := signingKey_of_checkSeed (validate_eq_ok.mp h).2.2.2.2.2
  refine ⟨{ Node.withSigner c (.ofKey key) with
    shards := (Node.withSigner c (.ofKey key)).shards.updateChains (·.register .tracker) },
    by rw [ofConfig, h, hkey]; rfl, rfl, ?_⟩
  refine assembled_bootstrap (nodup_network h) ?_ rfl rfl
  exact (ShardManager.inStep_fresh c.sharding c.nodeId c.chain (.ofKey key)).of_tableView rfl
    (ChainRegistry.tableView_register _ _)

/-- **All nodes bootstrap the same table.** Of two valid configurations that describe the same
network with the same settings for shards, whoever the node itself is and in whatever order its
peers are listed, both give a node, and bootstrapping leaves both with the same table: every node is
placed once in shard 0, whose chain has exactly these members. Bootstrapping again changes
nothing. -/
theorem bootstrap_agrees (h : c.validate = .ok ()) (h' : c'.validate = .ok ())
    (hs : c.sharding = c'.sharding) (hn : ∀ e, e ∈ c.network ↔ e ∈ c'.network) :
    ∃ n n', Node.ofConfig c = .ok n ∧ Node.ofConfig c' = .ok n' ∧
      n.bootstrap.2.shards.table = n'.bootstrap.2.shards.table ∧
      n.bootstrap.1 = [⟨0⟩] ∧ n'.bootstrap.1 = [⟨0⟩] ∧
      n.bootstrap.2.Assembled c.network ∧ n'.bootstrap.2.Assembled c'.network := by
  have hd := nodup_network h
  have hd' := nodup_network h'
  obtain ⟨n, hok, rfl, htable, hjoined, hassembled⟩ := bootstrap_of_valid h
  obtain ⟨n', hok', rfl, htable', hjoined', hassembled'⟩ := bootstrap_of_valid h'
  have hp : n.config.network ~ n'.config.network :=
    (List.perm_ext_iff_of_nodup hd.of_map hd'.of_map).mpr hn
  refine ⟨n, n', hok, hok', ?_, hjoined, hjoined', hassembled, hassembled'⟩
  rw [htable, htable', hs, everyone_eq hd hp]

/-- Two nodes of three with the powers 5, 0 and 7; the first lists its peers from the last one
down. -/
theorem bootstrap_agrees_of_three :
    let a : NodeConfig := ⟨⟨"a"⟩, "h:1", 5, none, "info", [⟨⟨"c"⟩, "h:3", 7⟩, ⟨⟨"b"⟩, "h:2", 0⟩],
      .default, .default⟩
    let b : NodeConfig := ⟨⟨"b"⟩, "h:2", 0, none, "warn", [⟨⟨"a"⟩, "h:1", 5⟩, ⟨⟨"c"⟩, "h:3", 7⟩],
      .default, .default⟩
    let nodes := [(⟨"a"⟩, 5), (⟨"b"⟩, 0), (⟨"c"⟩, 7)].map fun e : NodeId × Nat =>
      Placement.unplaced e.1 e.2
    ∃ n n', Node.ofConfig a = .ok n ∧ Node.ofConfig b = .ok n' ∧
      n.bootstrap.2.shards.table = .alone ShardingConfig.default.shardCapacity nodes ∧
      n'.bootstrap.2.shards.table = .alone ShardingConfig.default.shardCapacity nodes ∧
      n.bootstrap.2.Assembled a.network ∧ n'.bootstrap.2.Assembled b.network := by
  intro a b nodes
  have hvalid : a.validate = .ok () := by decide +kernel
  have hvalid' : b.validate = .ok () := by decide +kernel
  have hnetwork : ∀ e, e ∈ a.network ↔ e ∈ b.network := by
    simp only [network, a, b, List.map_cons, List.map_nil, List.mem_cons]
    grind
  obtain ⟨n, n', hn, hn', hsame, -, -, hassembled, hassembled'⟩ :=
    bootstrap_agrees hvalid hvalid' rfl hnetwork
  obtain ⟨n₀, hn₀, hconfig, htable, -⟩ := bootstrap_of_valid hvalid
  cases hn.symm.trans hn₀
  have hsorted : n.everyone = nodes := by
    simp only [everyone, localId, hconfig]
    cbv
  rw [hsorted] at htable
  exact ⟨n, n', hn, hn', htable, hsame ▸ htable, hassembled, hassembled'⟩

end Node

end ShardGossip

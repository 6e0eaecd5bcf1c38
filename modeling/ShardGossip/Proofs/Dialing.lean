import ShardGossip.Node
import ShardGossip.Proofs.CommittedQueue

/-!
# ShardGossip.Proofs.Dialing

**Of every two nodes one dials, and once at a time** (`Dialer.Reached.oneDialer`). A sweep claims a
slot for each dial that it starts (`Node.Swept`), and whatever comes of a dial frees its slot, so
the slots that are taken are those of the dials in flight (`Dialer.Tidy`). Nothing else that happens
at a node touches them.
-/

namespace ShardGossip

theorem NodeId.lt_iff_not_gt {a b : NodeId} (h : a ≠ b) : a < b ↔ ¬b < a := by
  refine ⟨fun hab => String.lt_asymm (a := a.name) hab, fun hba => Decidable.byContradiction ?_⟩
  intro hab
  have hname : a.name = b.name := String.le_antisymm (String.not_lt.mp hba) (String.not_lt.mp hab)
  exact h (congrArg NodeId.mk hname)

/-- The known addresses are those that were listed. -/
theorem PeerDirectory.isSome_addressOf_ofList {entries : List (NodeId × String)} {id : NodeId} :
    ((ofList entries).addressOf id).isSome ↔ id ∈ entries.map Prod.fst := by
  have hmap : (ofList entries).addresses = Std.ExtTreeMap.insertMany ∅ entries :=
    Std.ExtTreeMap.insertMany_list_eq_foldl.symm
  rw [addressOf, hmap, ← Std.ExtTreeMap.contains_eq_isSome_getElem?,
    Std.ExtTreeMap.contains_insertMany_list]
  simp

namespace Node

variable {n : Node}

/-! ### What a sweep finds -/

/-- The slot of a dial. -/
def Dial.key (dial : Dial) : ShardId × NodeId := (dial.shard, dial.peer)

/-- The members of a chain that a node is to dial. -/
def missing (n : Node) (chain : Chain) : List NodeId :=
  dialTargets n.localId chain.peers chain.hasSocket

/-- What a sweep looks at: the running chains, each with the members that are to be dialed. -/
def targets (n : Node) : List (Chain × NodeId) :=
  n.shards.chains.running.flatMap fun chain => (n.missing chain).map (chain, ·)

theorem mem_targets {chain : Chain} {peer : NodeId} :
    (chain, peer) ∈ n.targets ↔ chain ∈ n.shards.chains.running ∧ peer ∈ chain.peers ∧
      n.localId < peer ∧ chain.hasSocket peer = false := by
  simp [targets, missing, dialTargets, shouldDial]

/-- What was found among the targets that were looked at. -/
structure Swept (n : Node) (looked : List (Chain × NodeId)) (found : List Dial × Node) : Prop where
  /-- The slots of the new dials are taken, and nothing else has changed. -/
  rest : found.2 = { n with directory :=
    ⟨n.directory.addresses, (found.1.map Dial.key).reverse ++ n.directory.dialing⟩ }
  /-- No two of them are for the same slot. -/
  single : (found.1.map Dial.key).Nodup
  /-- Their slots were free. -/
  free : ∀ dial ∈ found.1, dial.key ∉ n.directory.dialing
  /-- Each of them is to a target, at its address. -/
  wanted : ∀ dial ∈ found.1, ∃ chain, (chain, dial.peer) ∈ looked ∧ dial.shard = chain.shardId ∧
    dial.serial = chain.serial ∧ n.directory.addressOf dial.peer = some dial.address
  /-- Every target with an address is being dialed. -/
  complete : ∀ chain peer, (chain, peer) ∈ looked → (n.directory.addressOf peer).isSome →
    (chain.shardId, peer) ∈ found.2.directory.dialing

/-- A dial is claimed, unless the address is not known or the slot is taken. -/
theorem claimDial_cases (chain : Chain) (found : List Dial × Node) (peer : NodeId) :
    ((found.2.directory.addressOf peer = none ∨
        (chain.shardId, peer) ∈ found.2.directory.dialing) ∧
      claimDial chain found peer = found) ∨
    ∃ address, found.2.directory.addressOf peer = some address ∧
      (chain.shardId, peer) ∉ found.2.directory.dialing ∧
      claimDial chain found peer =
        (found.1 ++ [⟨chain.shardId, chain.serial, peer, address⟩],
          { found.2 with directory := { found.2.directory with
            dialing := (chain.shardId, peer) :: found.2.directory.dialing } }) := by
  simp only [claimDial, PeerDirectory.beginDial]
  cases ha : found.2.directory.addressOf peer with
  | none => exact .inl ⟨.inl rfl, rfl⟩
  | some address =>
      by_cases hd : (chain.shardId, peer) ∈ found.2.directory.dialing
      · exact .inl ⟨.inr hd, by simp [hd]⟩
      · exact .inr ⟨address, rfl, hd, by simp [hd]⟩

theorem Swept.claim {looked : List (Chain × NodeId)} {found : List Dial × Node}
    (h : n.Swept looked found) (chain : Chain) (peer : NodeId) :
    n.Swept (looked ++ [(chain, peer)]) (claimDial chain found peer) := by
  obtain ⟨hrest, hsingle, hfree, hwanted, hcomplete⟩ := h
  have haddress (id : NodeId) :
      found.2.directory.addressOf id = n.directory.addressOf id := by rw [hrest]; rfl
  have hdialing : found.2.directory.dialing =
      (found.1.map Dial.key).reverse ++ n.directory.dialing := by rw [hrest]
  rcases claimDial_cases chain found peer with ⟨hskip, hc⟩ | ⟨address, ha, hd, hc⟩
  · rw [hc]
    refine ⟨hrest, hsingle, hfree, fun dial hdial => ?_, fun other id hl hid => ?_⟩
    · obtain ⟨other, hl, hkey⟩ := hwanted dial hdial
      exact ⟨other, List.mem_append_left _ hl, hkey⟩
    · rcases List.mem_append.mp hl with hl | hl
      · exact hcomplete other id hl hid
      · cases List.mem_singleton.mp hl
        rw [haddress] at hskip
        refine hskip.resolve_left fun hnone => ?_
        simp [hnone] at hid
  · rw [hc]
    rw [haddress] at ha
    rw [hdialing] at hd
    simp only [List.mem_append, List.mem_reverse, not_or] at hd
    refine ⟨?_, ?_, fun dial hdial => ?_, fun dial hdial => ?_, fun other id hl hid => ?_⟩
    · simp [hrest, Dial.key]
    · rw [List.map_append, List.map_singleton, ← List.concat_eq_append, List.nodup_concat]
      exact ⟨hd.1, hsingle⟩
    · rcases List.mem_append.mp hdial with hdial | hdial
      · exact hfree dial hdial
      · exact List.mem_singleton.mp hdial ▸ hd.2
    · rcases List.mem_append.mp hdial with hdial | hdial
      · obtain ⟨other, hl, hkey⟩ := hwanted dial hdial
        exact ⟨other, List.mem_append_left _ hl, hkey⟩
      · cases List.mem_singleton.mp hdial
        exact ⟨chain, by simp, rfl, rfl, ha⟩
    · rcases List.mem_append.mp hl with hl | hl
      · exact List.mem_cons_of_mem _ (hcomplete other id hl hid)
      · cases List.mem_singleton.mp hl
        exact List.mem_cons_self

theorem Swept.claimAll {looked : List (Chain × NodeId)} {found : List Dial × Node}
    (h : n.Swept looked found) (chain : Chain) (peers : List NodeId) :
    n.Swept (looked ++ peers.map (chain, ·)) (peers.foldl (claimDial chain) found) := by
  induction peers generalizing looked found with
  | nil => simpa using h
  | cons peer rest ih =>
      have hrest := ih (h.claim chain peer)
      rwa [List.append_assoc, List.singleton_append] at hrest

theorem Swept.chains {looked : List (Chain × NodeId)} {found : List Dial × Node}
    (h : n.Swept looked found) (chains : List Chain) :
    n.Swept (looked ++ chains.flatMap fun chain => (n.missing chain).map (chain, ·))
      (chains.foldl (fun found chain => (n.missing chain).foldl (claimDial chain) found)
        found) := by
  induction chains generalizing looked found with
  | nil => simpa using h
  | cons chain rest ih =>
      rw [List.flatMap_cons, ← List.append_assoc]
      exact ih (h.claimAll chain (n.missing chain))

theorem swept (n : Node) : n.Swept n.targets n.sweep := by
  have hstart : n.Swept [] ([], n) := ⟨rfl, by simp, by simp, by simp, by simp⟩
  exact hstart.chains n.shards.chains.running

/-! ### What leaves the slots alone -/

/-- A dial that was answered is finished like any other, apart from its connection. -/
theorem dialConnected_rest (n : Node) (dial : Dial) :
    ∃ shards, n.dialConnected dial = { n.finishDial dial with shards := shards } := by
  simp only [dialConnected]
  split
  · exact ⟨_, rfl⟩
  · exact ⟨n.shards, rfl⟩

theorem welcome_rest (n : Node) (arrived : Bytes) (ended : Bool) :
    ∃ shards, n.welcome arrived ended = { n with shards := shards } := by
  simp only [welcome]
  split
  · exact ⟨n.shards, rfl⟩
  · split
    · exact ⟨_, rfl⟩
    · exact ⟨n.shards, rfl⟩

end Node

/-- A node, with the dials that it has started. -/
structure Dialer where
  node : Node
  /-- All of them, oldest first. -/
  started : List Node.Dial
  /-- Those that are not finished. -/
  inFlight : List Node.Dial

namespace Dialer

open Node

variable {d d' : Dialer} {dial : Dial}

/-- A node that has dialed nobody. -/
def fresh (node : Node) : Dialer := ⟨node, [], []⟩

/-- Something else has changed the node. -/
def become (d : Dialer) (node : Node) : Dialer := ⟨node, d.started, d.inFlight⟩

/-- The node looks for peers. -/
def sweep (d : Dialer) : Dialer :=
  ⟨d.node.sweep.2, d.started ++ d.node.sweep.1, d.inFlight ++ d.node.sweep.1⟩

/-- A dial is finished, and leaves the node like this. -/
def finish (d : Dialer) (dial : Dial) (node : Node) : Dialer :=
  ⟨node, d.started, d.inFlight.erase dial⟩

/-- Something that happens at a node. -/
inductive Step : Dialer → Dialer → Prop where
  | sweep (d : Dialer) : Step d d.sweep
  /-- A peer has answered; its connection goes to the chain, which takes it or refuses it. -/
  | connected {d : Dialer} {dial : Dial} :
      dial ∈ d.inFlight → Step d (d.finish dial (d.node.dialConnected dial))
  | failed {d : Dialer} {dial : Dial} :
      dial ∈ d.inFlight → Step d (d.finish dial (d.node.finishDial dial))
  /-- Another node has opened a connection. -/
  | welcome (d : Dialer) (arrived : Bytes) (ended : Bool) :
      Step d (d.become (d.node.welcome arrived ended))
  | bootstrap (d : Dialer) : Step d (d.become d.node.bootstrap.2)
  /-- Something happens to the chains: members come and go, connections end, packets are handled. -/
  | act (d : Dialer) (deed : ShardManager.Deed) :
      Step d (d.become { d.node with shards := d.node.shards.act deed })
  | shutdown (d : Dialer) : Step d (d.become d.node.shutdown)

/-- The nodes of a network that were made from their configurations, each with another id, after
things have happened at each of them, in any order. -/
inductive Reached : List Dialer → Prop where
  | made {nodes : List Node} :
      (∀ n ∈ nodes, ∃ config, Node.ofConfig config = .ok n) → (nodes.map localId).Nodup →
        Reached (nodes.map fresh)
  | step {before after : List Dialer} {d d' : Dialer} :
      Reached (before ++ d :: after) → Step d d' → Reached (before ++ d' :: after)

/-- The slots are those of the dials in flight, one for each. -/
structure Tidy (d : Dialer) : Prop where
  outward : ∀ dial ∈ d.started, d.node.localId < dial.peer
  begun : d.inFlight ⊆ d.started
  single : (d.inFlight.map Dial.key).Nodup
  slots : ∀ key, key ∈ d.node.directory.dialing ↔ key ∈ d.inFlight.map Dial.key
  /-- The addresses are those of the configured peers. -/
  addresses : ∀ id, (d.node.directory.addressOf id).isSome ↔
    id ∈ d.node.config.peers.map (·.id)

/-- Whatever leaves the directory alone. -/
theorem Tidy.frame (h : d.Tidy) {node : Node} (hd : node.directory = d.node.directory)
    (hc : node.config = d.node.config) : (d.become node).Tidy := by
  have hl : node.localId = d.node.localId := congrArg NodeConfig.nodeId hc
  exact ⟨hl ▸ h.outward, h.begun, h.single, hd ▸ h.slots, hd ▸ hc ▸ h.addresses⟩

theorem Tidy.sweep (h : d.Tidy) : d.sweep.Tidy := by
  have hs := d.node.swept
  have hnode : d.sweep.node = { d.node with directory :=
    ⟨d.node.directory.addresses,
      (d.node.sweep.1.map Dial.key).reverse ++ d.node.directory.dialing⟩ } := hs.rest
  refine ⟨fun dial hdial => ?_, ?_, ?_, fun key => ?_, fun id => ?_⟩
  · have hl : d.sweep.node.localId = d.node.localId := by rw [hnode]; rfl
    rw [hl]
    rcases List.mem_append.mp hdial with hdial | hdial
    · exact h.outward dial hdial
    · obtain ⟨chain, htarget, -⟩ := hs.wanted dial hdial
      exact (mem_targets.mp htarget).2.2.1
  · exact List.append_subset.mpr
      ⟨List.subset_append_of_subset_left _ h.begun, List.subset_append_right ..⟩
  · show ((d.inFlight ++ d.node.sweep.1).map Dial.key).Nodup
    rw [List.map_append, List.nodup_append']
    -- the slots of dials in flight are taken, and only free ones are claimed
    refine ⟨h.single, hs.single, fun key hold hnew => ?_⟩
    obtain ⟨dial, hdial, rfl⟩ := List.mem_map.mp hnew
    exact hs.free dial hdial ((h.slots _).mpr hold)
  · rw [hnode]
    show key ∈ _ ++ _ ↔ key ∈ (d.inFlight ++ d.node.sweep.1).map Dial.key
    rw [List.map_append, List.mem_append, List.mem_append, List.mem_reverse, h.slots, or_comm]
  · rw [hnode]
    exact h.addresses id

theorem Tidy.finish (h : d.Tidy) (hdial : dial ∈ d.inFlight) {node : Node}
    (hd : node.directory = d.node.directory.finishDial dial.shard dial.peer)
    (hc : node.config = d.node.config) : (d.finish dial node).Tidy := by
  have hl : node.localId = d.node.localId := congrArg NodeConfig.nodeId hc
  have hperm := (List.perm_cons_erase hdial).map Dial.key
  have hsingle := hperm.nodup_iff.mp h.single
  rw [List.map_cons, List.nodup_cons] at hsingle
  refine ⟨hl ▸ h.outward, fun other ho => h.begun (List.mem_of_mem_erase ho), hsingle.2,
    fun key => ?_, fun id => ?_⟩
  · show key ∈ node.directory.dialing ↔ key ∈ (d.inFlight.erase dial).map Dial.key
    have hslot : key ∈ d.node.directory.dialing ↔
        key = dial.key ∨ key ∈ (d.inFlight.erase dial).map Dial.key := by
      rw [h.slots, hperm.mem_iff, List.map_cons, List.mem_cons]
    rw [hd, PeerDirectory.finishDial, List.mem_filter, hslot]
    simp only [decide_eq_true_eq]
    grind [Dial.key]
  · show (node.directory.addressOf id).isSome ↔ id ∈ node.config.peers.map (·.id)
    rw [hd, hc]
    exact h.addresses id

theorem tidy_fresh {config : NodeConfig} {n : Node} (h : Node.ofConfig config = .ok n) :
    (fresh n).Tidy := by
  simp only [Node.ofConfig] at h
  obtain ⟨-, -, h⟩ := bind_eq_ok.mp h
  obtain ⟨key, -, h⟩ := bind_eq_ok.mp h
  cases h
  refine ⟨by simp [fresh], by simp [fresh], by simp [fresh], ?_, fun id => ?_⟩
  · simp [fresh, Node.withSigner, PeerDirectory.ofList]
  · refine PeerDirectory.isSome_addressOf_ofList.trans ?_
    simp [fresh, Node.withSigner, NodeConfig.peerAddresses, Function.comp_def]

theorem Tidy.step (h : d.Tidy) (hs : Step d d') :
    d'.Tidy ∧ d'.node.config = d.node.config := by
  cases hs with
  | sweep => exact ⟨h.sweep, by rw [Dialer.sweep, d.node.swept.rest]⟩
  | connected hdial =>
      obtain ⟨shards, hc⟩ := d.node.dialConnected_rest _
      rw [hc]
      exact ⟨h.finish hdial rfl rfl, rfl⟩
  | failed hdial => exact ⟨h.finish hdial rfl rfl, rfl⟩
  | welcome arrived ended =>
      obtain ⟨shards, hw⟩ := d.node.welcome_rest arrived ended
      rw [hw]
      exact ⟨h.frame rfl rfl, rfl⟩
  | bootstrap => exact ⟨h.frame rfl rfl, rfl⟩
  | act deed => exact ⟨h.frame rfl rfl, rfl⟩
  | shutdown =>
      have hrest : d.node.shutdown.directory = d.node.directory ∧
          d.node.shutdown.config = d.node.config := by
        simp only [Node.shutdown]
        split <;> exact ⟨rfl, rfl⟩
      exact ⟨h.frame hrest.1 hrest.2, hrest.2⟩

theorem Reached.tidy {sites : List Dialer} (h : Reached sites) : ∀ d ∈ sites, d.Tidy := by
  induction h with
  | made hmade hd =>
      intro d hd
      obtain ⟨n, hn, rfl⟩ := List.mem_map.mp hd
      obtain ⟨config, hconfig⟩ := hmade n hn
      exact tidy_fresh hconfig
  | step _ hs ih =>
      simp only [List.forall_mem_append, List.forall_mem_cons] at ih ⊢
      obtain ⟨hbefore, hd, hafter⟩ := ih
      exact ⟨hbefore, (hd.step hs).1, hafter⟩

theorem Reached.distinct {sites : List Dialer} (h : Reached sites) :
    (sites.map (·.node.localId)).Nodup := by
  induction h with
  | made _ hd => simpa [fresh, Function.comp_def] using hd
  | @step before after d d' hr hs ih =>
      have hc := ((hr.tidy d (by simp)).step hs).2
      have hl : d'.node.localId = d.node.localId := congrArg NodeConfig.nodeId hc
      simpa [hl] using ih

/-- One dialer for each pair of nodes, and one dial at a time. -/
structure OneDialer (sites : List Dialer) : Prop where
  distinct : (sites.map (·.node.localId)).Nodup
  /-- Each dial goes from the smaller to the greater id. -/
  upward : ∀ d ∈ sites, ∀ dial ∈ d.started, d.node.localId < dial.peer
  /-- Of two nodes one is to dial, and the other one never does. -/
  oneSide : ∀ d ∈ sites, ∀ d' ∈ sites, d.node.localId ≠ d'.node.localId →
    shouldDial d.node.localId d'.node.localId = !shouldDial d'.node.localId d.node.localId ∧
      (shouldDial d.node.localId d'.node.localId = false →
        ∀ dial ∈ d.started, dial.peer ≠ d'.node.localId)
  /-- The one that is to dial does: after a sweep it is connected to the member, or a dial is in
  flight. -/
  reliable : ∀ d ∈ sites, ∀ chain ∈ d.node.shards.chains.running, ∀ peer ∈ chain.peers,
    d.node.localId < peer → peer ∈ d.node.config.peers.map (·.id) →
      chain.hasSocket peer ∨ (chain.shardId, peer) ∈ d.sweep.inFlight.map Dial.key
  /-- At most one dial for a shard and a peer is in flight. -/
  single : ∀ d ∈ sites, (d.inFlight.map Dial.key).Nodup
  /-- A slot is taken for as long as its dial is in flight. -/
  slots : ∀ d ∈ sites, ∀ key,
    key ∈ d.node.directory.dialing ↔ key ∈ d.inFlight.map Dial.key
  /-- A dial that is finished, whether its connection is taken, refused or never made, frees its
  slot and no other. -/
  frees : ∀ d ∈ sites, ∀ dial ∈ d.inFlight,
    ∀ node ∈ [d.node.dialConnected dial, d.node.finishDial dial], ∀ key,
      key ∈ node.directory.dialing ↔ key ∈ d.node.directory.dialing ∧ key ≠ dial.key
  /-- Once every pair of a shard is connected, no sweep starts a dial for the shard. -/
  quiet : ∀ shard,
    (∀ d ∈ sites, ∀ chain ∈ d.node.shards.chains.running, chain.shardId = shard →
      ∀ peer ∈ chain.peers, d.node.localId < peer → chain.hasSocket peer) →
    ∀ d ∈ sites, ∀ dial ∈ d.node.sweep.1, dial.shard ≠ shard

/-- **One dialer and one dial for each pair.** However sweeps, answers, refusals and failures follow
each other at the nodes of a network, and whatever else happens to their chains. -/
theorem Reached.oneDialer {sites : List Dialer} (h : Reached sites) : OneDialer sites where
  distinct := h.distinct
  upward d hd := (h.tidy d hd).outward
  oneSide d hd d' _ hne := by
    have hiff := NodeId.lt_iff_not_gt hne
    refine ⟨by simp [shouldDial, hiff], fun hno dial hdial hpeer => ?_⟩
    have hup := (h.tidy d hd).outward dial hdial
    rw [hpeer] at hup
    simp [shouldDial, hup] at hno
  reliable d hd chain hchain peer hpeer hlt hlisted := by
    by_cases hsocket : chain.hasSocket peer
    · exact .inl hsocket
    · have htarget : (chain, peer) ∈ d.node.targets :=
        mem_targets.mpr ⟨hchain, hpeer, hlt, by simpa using hsocket⟩
      have haddress := ((h.tidy d hd).addresses peer).mpr hlisted
      exact .inr (((h.tidy d hd).sweep.slots _).mp
        (d.node.swept.complete chain peer htarget haddress))
  single d hd := (h.tidy d hd).single
  slots d hd := (h.tidy d hd).slots
  frees d _ dial _ node hnode key := by
    have hdir : node.directory = d.node.directory.finishDial dial.shard dial.peer := by
      simp only [List.mem_cons, List.not_mem_nil, or_false] at hnode
      rcases hnode with rfl | rfl
      · obtain ⟨shards, hc⟩ := d.node.dialConnected_rest dial
        rw [hc]
        rfl
      · rfl
    rw [hdir]
    simp [PeerDirectory.finishDial, Dial.key]
  quiet shard hconnected d hd dial hdial hshard := by
    obtain ⟨chain, htarget, hof, -⟩ := d.node.swept.wanted dial hdial
    obtain ⟨hchain, hpeer, hlt, hsocket⟩ := mem_targets.mp htarget
    have hc := hconnected d hd chain hchain (hof.symm.trans hshard) dial.peer hpeer hlt
    rw [hsocket] at hc
    cases hc

/-- The first dial of `a` to `b` fails and the second one is answered; `b` never dials. -/
theorem oneDialer_of_redialed :
    let a : NodeConfig := ⟨⟨"a"⟩, "h:1", 5, none, "info", [⟨⟨"b"⟩, "h:2", 1⟩], .default, .default⟩
    let b : NodeConfig := ⟨⟨"b"⟩, "h:2", 1, none, "info", [⟨⟨"a"⟩, "h:1", 5⟩], .default, .default⟩
    ∃ d d', Reached [d, d'] ∧ OneDialer [d, d'] ∧ d.node.config = a ∧ d'.node.config = b ∧
      d.started.map (·.peer) = [⟨"b"⟩, ⟨"b"⟩] ∧ d.inFlight = [] ∧ d.node.sweep.1 = [] ∧
      d'.started = [] := by
  intro a b
  let make (c : NodeConfig) : Node :=
    let node := Node.withSigner c (.ofKey (SigningKey.ofNodeId c.nodeId))
    { node with shards := node.shards.updateChains (·.register .tracker) }
  have hmade : ∀ n ∈ [make a, make b], ∃ config, Node.ofConfig config = .ok n := by
    have ha : a.validate = .ok () := by decide +kernel
    have hb : b.validate = .ok () := by decide +kernel
    simp only [List.forall_mem_cons]
    exact ⟨⟨a, by rw [Node.ofConfig, ha]; rfl⟩, ⟨b, by rw [Node.ofConfig, hb]; rfl⟩, by simp⟩
  have h₀ : Reached [fresh (make a), fresh (make b)] := .made hmade (by decide +kernel)
  let dial : Dial := ⟨⟨0⟩, 0, ⟨"b"⟩, "h:2"⟩
  have h₁ := @Reached.step [] _ _ _ h₀ (.act _ (.placeNode (.unplaced ⟨"a"⟩ 5)))
  have h₂ := @Reached.step [] _ _ _ h₁ (.act _ (.placeNode (.unplaced ⟨"b"⟩ 1)))
  have h₃ := @Reached.step [] _ _ _ h₂ (.sweep _)
  have h₄ := @Reached.step [] _ _ _ h₃ (.sweep _)
  have h₅ := @Reached.step [] _ _ _ h₄ (@Step.failed _ dial (by decide +kernel))
  have h₆ := @Reached.step [] _ _ _ h₅ (.sweep _)
  have h₇ := @Reached.step [] _ _ _ h₆ (@Step.connected _ dial (by decide +kernel))
  have h₈ := @Reached.step [_] [] _ _ h₇ (.act _ (.placeNode (.unplaced ⟨"a"⟩ 5)))
  have h₉ := @Reached.step [_] [] _ _ h₈ (.act _ (.placeNode (.unplaced ⟨"b"⟩ 1)))
  have h := @Reached.step [_] [] _ _ h₉ (.sweep _)
  exact ⟨_, _, h, h.oneDialer, by decide +kernel, by decide +kernel, by decide +kernel,
    by decide +kernel, by decide +kernel, by decide +kernel⟩

end Dialer

end ShardGossip

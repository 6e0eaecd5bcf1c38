import ShardGossip.Proofs.Retention
import ShardGossip.ShardManager

/-!
# ShardGossip.Proofs.Carryover

**What the node has pending when a shard is split goes to the half it belongs to**
(`ShardManager.proposes_followSplit`). The chain of the half is there, its unbatched transactions
are added to, and whatever else the split does takes none of them away: replacing the members leaves
them as they are (`Replica.setMembers_keeps`).
-/

namespace ShardGossip

namespace Replica

/-! ### Replacing the members takes nothing from what is to be proposed -/

/-- What each change of a sequence keeps, the sequence keeps. -/
theorem each_keeps {α β : Type} {change : Replica → α → Outcome} {f : Replica → β}
    (h : ∀ r a, f (change r a).replica = f r) (o : Outcome) (as : List α) :
    f (o.each change as).replica = f o.replica :=
  keep_each (P := fun r => f r = f o.replica) (fun hr a => (h _ a).trans hr) as rfl

theorem goesOn_reevaluate (r : Replica) : r.GoesOn r.reevaluate.replica :=
  .steps ((reevaluate_sequels r).mono Sequel.reaction : Steps (Reaction silence) _ _)

theorem removePeer_keeps (r : Replica) (id : NodeId) :
    ((r.removePeer id).replica.localId, (r.removePeer id).replica.unbatched) =
      (r.localId, r.unbatched) := by
  unfold removePeer
  split
  · rw [(goesOn_reevaluate _).localId, (reevaluate_sequels _).unbatched]
    rfl
  · rfl

theorem foldl_join_keeps (history : Bool) (ids : List NodeId) (r : Replica) :
    ((ids.foldl (join history) r).localId, (ids.foldl (join history) r).unbatched) =
      (r.localId, r.unbatched) := by
  induction ids generalizing r with
  | nil => rfl
  | cons id rest ih =>
      refine (ih _).trans ?_
      unfold join
      split
      · rfl
      · split <;> rfl

theorem setMembers_keeps (r : Replica) (members : List NodeId) :
    (r.setMembers members).replica.localId = r.localId ∧
      (r.setMembers members).replica.unbatched = r.unbatched := by
  have he : ((r.setMembers members).replica.localId, (r.setMembers members).replica.unbatched) =
      (r.localId, r.unbatched) :=
    (each_keeps (f := fun r => (r.localId, r.unbatched)) removePeer_keeps _ _).trans
      (foldl_join_keeps _ _ r)
  exact Prod.mk.inj he

end Replica

namespace Chain

variable {c : Chain}

/-! ### What becomes of the state -/

@[simp] theorem replica_setMembers (c : Chain) (members : List NodeId) :
    (c.setMembers members).replica = (c.replica.setMembers members).replica := by
  obtain ⟨connections, due, woken, -, hs⟩ := c.setMembers_cases members
  rw [hs]

@[simp] theorem replica_run (c : Chain) : c.run.replica = c.replica := by
  unfold run
  split <;> rfl

end Chain

namespace ShardManager

open Chain

variable {m : ShardManager} {shard : ShardId} {t : Transaction}

/-! ### What is to be proposed in a shard -/

/-- A transaction waits in the chain of a shard to be proposed. -/
def Proposes (m : ShardManager) (shard : ShardId) (t : Transaction) : Prop :=
  ∃ c ∈ m.chains.chains, c.shardId = shard ∧ t ∈ c.replica.unbatched

@[simp] theorem localId_syncChain (m : ShardManager) (shard : ShardId) (members : List NodeId) :
    (m.syncChain shard members).localId = m.localId := by
  show ((m.chains.create shard).update shard _).localId = m.chains.localId
  unfold ChainRegistry.create
  split <;> rfl

theorem keeps_syncChain (c : Chain) (members : List NodeId) (runs : Bool) :
    let c' := if runs then (c.setMembers members).run else c.setMembers members
    c'.shardId = c.shardId ∧ c.replica.unbatched <+: c'.replica.unbatched := by
  have hs := (c.retains_setMembers members).shardId
  have hu : c.replica.unbatched <+: (c.setMembers members).replica.unbatched := by
    rw [replica_setMembers]
    exact (c.replica.setMembers_keeps members).2 ▸ List.prefix_refl _
  dsimp only
  split
  · exact ⟨(retains_run _).shardId.trans hs, by rw [replica_run]; exact hu⟩
  · exact ⟨hs, hu⟩

/-- Changing the chain of one shard takes nothing from any chain that keeps what it has to
propose. -/
theorem proposes_update {change : Chain → Chain} {s : ShardId}
    (hc : ∀ c : Chain, (change c).shardId = c.shardId ∧
      c.replica.unbatched <+: (change c).replica.unbatched)
    (h : m.Proposes shard t) : (m.updateChains (·.update s change)).Proposes shard t := by
  obtain ⟨c, hm, hs, ht⟩ := h
  refine ⟨_, List.mem_map_of_mem hm, ?_⟩
  split
  · exact ⟨(hc c).1.trans hs, (hc c).2.subset ht⟩
  · exact ⟨hs, ht⟩

theorem proposes_syncChain (h : m.Proposes shard t) (s : ShardId) (members : List NodeId) :
    (m.syncChain s members).Proposes shard t := by
  have hm : (m.updateChains (·.create s)).Proposes shard t :=
    h.imp fun c hc => ⟨m.chains.mem_chains_create hc.1 s, hc.2⟩
  exact proposes_update (m := m.updateChains (·.create s))
    (fun c => keeps_syncChain c members (members.contains m.localId)) hm

/-- A half of a split shard, with what the node carries over to it. -/
def openHalf (own : List Transaction) (m : ShardManager) (half : ShardId × List NodeId) :
    ShardManager :=
  let m := m.syncChain half.1 half.2
  if half.2.contains m.localId then m.updateChains (·.update half.1 (·.absorb own)) else m

variable {own : List Transaction} {half : ShardId × List NodeId}

theorem proposes_openHalf (h : m.Proposes shard t) (half : ShardId × List NodeId) :
    (m.openHalf own half).Proposes shard t := by
  have hs := proposes_syncChain h half.1 half.2
  unfold openHalf
  dsimp only
  split
  · exact proposes_update (fun c => ⟨rfl, List.prefix_append _ _⟩) hs
  · exact hs

/-- What is carried over is to be proposed in the half that the node belongs to. -/
theorem proposes_half (hl : half.2.contains m.localId) (ht : t ∈ own) :
    (m.openHalf own half).Proposes half.1 t := by
  unfold openHalf
  dsimp only
  rw [localId_syncChain, if_pos hl]
  obtain ⟨c, hc, hs⟩ := m.chains.exists_chain_create half.1
  obtain ⟨hs', -⟩ := keeps_syncChain c half.2 (half.2.contains m.localId)
  refine ⟨_, List.mem_map_of_mem (List.mem_map_of_mem hc), ?_⟩
  dsimp only
  rw [if_pos hs, if_pos (hs'.trans hs)]
  exact ⟨hs'.trans hs, List.mem_append_right _ ht⟩

theorem localId_openHalf : (m.openHalf own half).localId = m.localId := by
  unfold openHalf
  dsimp only
  split
  · exact localId_syncChain m half.1 half.2
  · exact localId_syncChain m half.1 half.2

theorem proposes_foldl_openHalf {halves : List (ShardId × List NodeId)}
    (h : m.Proposes shard t ∨
      half ∈ halves ∧ half.1 = shard ∧ half.2.contains m.localId ∧ t ∈ own) :
    (halves.foldl (openHalf own) m).Proposes shard t := by
  induction halves generalizing m with
  | nil => exact h.resolve_right fun h => nomatch h.1
  | cons first rest ih =>
      refine ih ?_
      rcases h with h | ⟨hh, rfl, hl, ht⟩
      · exact .inl (proposes_openHalf h first)
      · rcases List.mem_cons.mp hh with rfl | hh
        · exact .inl (proposes_half hl ht)
        · rw [localId_openHalf]
          exact .inr ⟨hh, rfl, hl, ht⟩

/-- What the node sealed itself and has not closed is among what it carries over. -/
theorem mem_takeOwnTransactions {r : Replica} {e : Event} (he : e ∈ r.store.pendingEvents)
    (ho : e.origin = r.localId) (ht : t ∈ e.transactions) : t ∈ r.takeOwnTransactions.1 :=
  List.mem_append_left _ (List.mem_flatMap.mpr
    ⟨e, List.mem_filter.mpr ⟨he, decide_eq_true ho⟩, ht⟩)

/-- When a shard is split whose chain the node takes part in, the transactions of its own pending
events are to be proposed in the half that it belongs to. -/
theorem proposes_followSplit (hs : m.chains.Sound) {plan : SplitPlan} {c : Chain}
    (hc : m.chains.get? plan.parent = some c) (hm : plan.members.contains m.localId)
    (hh : half ∈ plan.halves) (hl : half.2.contains m.localId) {e : Event}
    (he : e ∈ c.replica.store.pendingEvents) (ho : e.origin = c.localId)
    (ht : t ∈ e.transactions) : (m.followSplit plan).Proposes half.1 t := by
  have hr : m.chains.remove plan.parent = (some c.shutdown, { m.chains with
      chains := m.chains.chains.filter (·.shardId ≠ plan.parent)
      retired := c.shutdown :: m.chains.retired }) := by
    unfold ChainRegistry.remove
    rw [hc]
  have hs' := (m.chains.evolves_remove plan.parent hs).1
  rw [hr] at hs'
  unfold followSplit
  rw [hr]
  dsimp only
  rw [if_pos hm, ChainRegistry.takeFrom, hs'.bySerial? (List.mem_append_right _ List.mem_cons_self)]
  refine proposes_foldl_openHalf (.inr ⟨hh, rfl, hl, ?_⟩)
  refine mem_takeOwnTransactions (e := e) ?_ ?_ ht
  · rw [replica_shutdown]
    exact he
  · rw [replica_shutdown]
    exact ho

end ShardManager

end ShardGossip

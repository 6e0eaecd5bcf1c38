import Mathlib.Algebra.Ring.Int.Defs
import Mathlib.Data.List.Nodup
import ShardGossip.Shard.Merge
import ShardGossip.Shard.Split

/-!
# ShardGossip.Proofs.ShardContents

**What a shard holds, and that dealing it out and taking it over loses nothing.** What counts are
two lists: the contracts with the transactions counted against them (`ledger`), and the nodes with
their powers (`roster`). Both halves of a split shard together hold what the shard held
(`split_shares`), and a survivor holds what both shards did (`absorb_eq`). The books are right
throughout: the load is that of the contracts, and everything in a shard says so (`Tidy`).
-/

namespace ShardGossip

/-- What has to be kept of a contract: its id, and what was counted against it. -/
def Contract.entry (c : Contract) : ContractId × Int := (c.id, c.transactionCount)

/-- What has to be kept of a node: its id and its power. -/
def Placement.entry (n : Placement) : NodeId × Nat := (n.id, n.power)

/-- A plan tells how the nodes of a shard are dealt out to two others. -/
structure SplitPlan.Deals (plan : SplitPlan) (s a b : Shard) : Prop where
  parent : plan.parent = s.id
  members : plan.members = s.nodeIds
  first : plan.first = (a.id, a.nodeIds)
  second : plan.second = (b.id, b.nodeIds)
  nodes : (a.nodeIds ++ b.nodeIds).Perm s.nodeIds

namespace Shard

variable {s other : Shard} {id : ContractId}

/-- The contracts, each with the transactions counted against it. -/
def ledger (s : Shard) : List (ContractId × Int) := s.contracts.map (·.entry)

/-- The nodes, each with its power. -/
def roster (s : Shard) : List (NodeId × Nat) := s.nodes.map (·.entry)

/-- The load is that of the contracts, and everything in the shard carries the shard's id. -/
structure Tidy (s : Shard) : Prop where
  load : s.load = (s.contracts.map (·.transactionCount)).sum
  contracts : ∀ c ∈ s.contracts, c.shard = some s.id
  nodes : ∀ n ∈ s.nodes, n.shard = some s.id

/-! ### Placing -/

@[simp] theorem id_empty (id : ShardId) (capacity : Nat) : (empty id capacity).id = id := rfl

@[simp] theorem ledger_pushContract (s : Shard) (c : Contract) :
    (s.pushContract c).ledger = s.ledger ++ [c.entry] :=
  List.map_append

@[simp] theorem id_pushNode (s : Shard) (n : Placement) : (s.pushNode n).id = s.id := rfl

@[simp] theorem roster_pushNode (s : Shard) (n : Placement) :
    (s.pushNode n).roster = s.roster ++ [n.entry] :=
  List.map_append

@[simp] theorem nodeIds_pushNode (s : Shard) (n : Placement) :
    (s.pushNode n).nodeIds = s.nodeIds ++ [n.id] :=
  List.map_append

theorem nodeIds_eq_roster (s : Shard) : s.nodeIds = s.roster.map Prod.fst := by
  rw [roster, List.map_map]
  rfl

theorem length_ledger (s : Shard) : s.ledger.length = s.contracts.length :=
  List.length_map _

theorem containsNode_iff {node : NodeId} : s.containsNode node ↔ node ∈ s.nodeIds := by
  simp [containsNode, nodeIds]

theorem containsContract_iff : s.containsContract id ↔ id ∈ s.ledger.map Prod.fst := by
  simp [containsContract, ledger, Contract.entry]

theorem tidy_empty (id : ShardId) (capacity : Nat) : (empty id capacity).Tidy :=
  ⟨rfl, List.forall_mem_nil _, List.forall_mem_nil _⟩

theorem Tidy.pushContract (h : s.Tidy) (c : Contract) : (s.pushContract c).Tidy where
  load := by simp [Shard.pushContract, h.load]
  contracts := by
    intro d hd
    rcases List.mem_append.mp hd with hd | hd
    · exact h.contracts d hd
    · rw [List.mem_singleton.mp hd]
      rfl
  nodes := h.nodes

theorem Tidy.pushNode (h : s.Tidy) (n : Placement) : (s.pushNode n).Tidy where
  load := h.load
  contracts := h.contracts
  nodes := by
    intro d hd
    rcases List.mem_append.mp hd with hd | hd
    · exact h.nodes d hd
    · rw [List.mem_singleton.mp hd]
      rfl

/-! ### Counting -/

/-- A transaction is counted against one contract, and against the shard. -/
theorem count_eq (h : s.containsContract id) :
    ∃ before c after, s.contracts = before ++ c :: after ∧ c.id = id ∧
      s.count id = { s with
        contracts := before ++ { c with transactionCount := c.transactionCount + 1 } :: after
        load := s.load + 1 } := by
  unfold count
  cases hi : s.contracts.findIdx? (·.id = id) with
  | none =>
      obtain ⟨c, hc, he⟩ := List.any_eq_true.mp h
      exact absurd he (by simpa using List.findIdx?_eq_none_iff.mp hi c hc)
  | some i =>
      obtain ⟨hl, he, -⟩ := List.findIdx?_eq_some_iff_getElem.mp hi
      refine ⟨s.contracts.take i, s.contracts[i], s.contracts.drop (i + 1), ?_, by simpa using he,
        ?_⟩
      · rw [← List.drop_eq_getElem_cons hl, List.take_append_drop]
      · dsimp only
        rw [List.modify_eq_take_cons_drop hl]

@[simp] theorem id_count (s : Shard) (id : ContractId) : (s.count id).id = s.id := by
  unfold count
  split <;> rfl

@[simp] theorem nodes_count (s : Shard) (id : ContractId) : (s.count id).nodes = s.nodes := by
  unfold count
  split <;> rfl

/-- Of the ledger one entry goes up by one. -/
theorem ledger_count (h : s.containsContract id) :
    ∃ before n after, s.ledger = before ++ (id, n) :: after ∧
      (s.count id).ledger = before ++ (id, n + 1) :: after := by
  obtain ⟨before, c, after, hs, rfl, hc⟩ := count_eq h
  refine ⟨before.map (·.entry), c.transactionCount, after.map (·.entry), ?_, ?_⟩
  · rw [ledger, hs, List.map_append]
    rfl
  · rw [hc, ledger, List.map_append]
    rfl

theorem Tidy.count (h : s.Tidy) (hc : s.containsContract id) : (s.count id).Tidy := by
  obtain ⟨before, c, after, hs, -, hc⟩ := count_eq hc
  have hl := h.load
  have hd := h.contracts
  rw [hs] at hl hd
  rw [hc]
  refine ⟨?_, fun d hm => ?_, h.nodes⟩
  · simp only [List.map_append, List.map_cons, List.sum_append, List.sum_cons] at hl ⊢
    omega
  · rcases List.mem_append.mp hm with hm | hm
    · exact hd d (List.mem_append_left _ hm)
    · rcases List.mem_cons.mp hm with rfl | hm
      · exact hd c (List.mem_append_right _ List.mem_cons_self)
      · exact hd d (List.mem_append_right _ (List.mem_cons_of_mem _ hm))

/-! ### Dealing out -/

/-- What was dealt out so far is in the two halves, and the books of both are right. -/
structure Shares (halves : Shard × Shard) (first second : ShardId)
    (ledger : List (ContractId × Int)) (roster : List (NodeId × Nat)) : Prop where
  first : halves.1.id = first
  second : halves.2.id = second
  tidy : halves.1.Tidy ∧ halves.2.Tidy
  ledger : (halves.1.ledger ++ halves.2.ledger).Perm ledger
  roster : (halves.1.roster ++ halves.2.roster).Perm roster

section Shares

variable {halves : Shard × Shard} {first second : ShardId} {ledger : List (ContractId × Int)}
  {roster : List (NodeId × Nat)}

/-- It does not matter which half gets the next element. -/
theorem perm_concat {α : Type} {l l' dealt : List α} (h : (l ++ l').Perm dealt) (a : α) :
    (l ++ [a] ++ l').Perm (dealt ++ [a]) ∧ (l ++ (l' ++ [a])).Perm (dealt ++ [a]) := by
  have hp : (l ++ (l' ++ [a])).Perm (dealt ++ [a]) := by
    rw [← List.append_assoc]
    exact h.append_right [a]
  refine ⟨?_, hp⟩
  rw [List.append_assoc]
  exact (List.perm_append_comm.append_left l).trans hp

theorem Shares.dealContract (h : Shares halves first second ledger roster) (c : Contract) :
    Shares (dealContract halves c) first second (ledger ++ [c.entry])
      roster := by
  have hp := perm_concat h.ledger c.entry
  unfold Shard.dealContract
  split
  · exact ⟨h.first, h.second, ⟨h.tidy.1, h.tidy.2.pushContract c⟩,
      by rw [ledger_pushContract]; exact hp.2, h.roster⟩
  · exact ⟨h.first, h.second, ⟨h.tidy.1.pushContract c, h.tidy.2⟩,
      by rw [ledger_pushContract]; exact hp.1, h.roster⟩

theorem Shares.dealNode (h : Shares halves first second ledger roster) (n : Placement) :
    Shares (dealNode halves n) first second ledger (roster ++ [n.entry]) := by
  have hp := perm_concat h.roster n.entry
  unfold Shard.dealNode
  split
  · exact ⟨h.first, h.second, ⟨h.tidy.1, h.tidy.2.pushNode n⟩, h.ledger,
      by rw [roster_pushNode]; exact hp.2⟩
  · exact ⟨h.first, h.second, ⟨h.tidy.1.pushNode n, h.tidy.2⟩, h.ledger,
      by rw [roster_pushNode]; exact hp.1⟩

theorem Shares.dealContracts (h : Shares halves first second ledger roster)
    (contracts : List Contract) :
    Shares (contracts.foldl Shard.dealContract halves) first second
      (ledger ++ contracts.map (·.entry)) roster := by
  induction contracts generalizing halves ledger with
  | nil => exact (List.append_nil ledger).symm ▸ h
  | cons c rest ih => exact List.append_cons .. ▸ ih (h.dealContract c)

theorem Shares.dealNodes (h : Shares halves first second ledger roster) (nodes : List Placement) :
    Shares (nodes.foldl Shard.dealNode halves) first second ledger
      (roster ++ nodes.map (·.entry)) := by
  induction nodes generalizing halves roster with
  | nil => exact (List.append_nil roster).symm ▸ h
  | cons n rest ih => exact List.append_cons .. ▸ ih (h.dealNode n)

end Shares

/-- The two halves share what the shard holds. -/
theorem split_shares (s : Shard) (capacity : Nat) (first second : ShardId) :
    Shares (s.split capacity first second) first second s.ledger s.roster := by
  have he : Shares (empty first capacity, empty second capacity) first second [] [] :=
    ⟨rfl, rfl, ⟨tidy_empty .., tidy_empty ..⟩, .nil, .nil⟩
  have hs := (he.dealContracts (byWeight s.contracts)).dealNodes s.nodes
  exact { hs with ledger := hs.ledger.trans ((List.mergeSort_perm ..).map _) }

/-! ### Taking over -/

theorem foldl_pushContract (contracts : List Contract) (s : Shard) :
    let s' := contracts.foldl pushContract s
    s'.id = s.id ∧ s'.roster = s.roster ∧
      s'.ledger = s.ledger ++ contracts.map (·.entry) ∧
      (s.Tidy → s'.Tidy) := by
  induction contracts generalizing s with
  | nil => exact ⟨rfl, rfl, (List.append_nil _).symm, fun h => h⟩
  | cons c rest ih =>
      obtain ⟨hi, hr, hl, ht⟩ := ih (s.pushContract c)
      refine ⟨hi, hr, hl.trans ?_, fun h => ht (h.pushContract c)⟩
      rw [ledger_pushContract, List.append_assoc]
      rfl

/-- Nodes of another shard are taken over one by one. -/
theorem foldl_adoptNode (nodes : List Placement) (s : Shard)
    (h : (s.nodeIds ++ nodes.map (·.id)).Nodup) :
    let s' := nodes.foldl adoptNode s
    s'.id = s.id ∧ s'.ledger = s.ledger ∧
      s'.roster = s.roster ++ nodes.map (·.entry) ∧ (s.Tidy → s'.Tidy) := by
  induction nodes generalizing s with
  | nil => exact ⟨rfl, rfl, (List.append_nil _).symm, fun h => h⟩
  | cons n rest ih =>
      have hn : s.adoptNode n = s.pushNode n := by
        rw [adoptNode, if_neg]
        rw [containsNode_iff]
        exact fun hm => (List.nodup_append.mp h).2.2 _ hm _ List.mem_cons_self rfl
      obtain ⟨hi, hl, hr, ht⟩ := ih (s.pushNode n) (by
        rw [nodeIds_pushNode, ← List.append_cons]
        exact h)
      rw [List.foldl_cons, hn]
      refine ⟨hi, hl, hr.trans ?_, fun h => ht (h.pushNode n)⟩
      rw [roster_pushNode, List.append_assoc]
      rfl

/-- A survivor keeps its id and its books, and holds what both shards held. -/
theorem absorb_eq (h : (s.nodeIds ++ other.nodeIds).Nodup) :
    (s.absorb other).id = s.id ∧ (s.absorb other).ledger = s.ledger ++ other.ledger ∧
      (s.absorb other).roster = s.roster ++ other.roster ∧ (s.Tidy → (s.absorb other).Tidy) := by
  obtain ⟨hi, hr, hl, ht⟩ := foldl_pushContract other.contracts s
  obtain ⟨hi', hl', hr', ht'⟩ :=
    foldl_adoptNode other.nodes (other.contracts.foldl pushContract s) (by
      rw [nodeIds_eq_roster, hr, ← nodeIds_eq_roster]
      exact h)
  exact ⟨hi'.trans hi, hl'.trans hl, hr'.trans (by rw [hr]; rfl), fun h => ht' (ht h)⟩

end Shard

end ShardGossip

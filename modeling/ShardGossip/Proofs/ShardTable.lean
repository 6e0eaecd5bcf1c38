import ShardGossip.Proofs.ShardContents
import ShardGossip.Proofs.Store

/-!
# ShardGossip.Proofs.ShardTable

**Every contract and every node is in one shard, and no change of the table loses one.** Whatever is
done to a table, some of its shards give way to others (`Redistributes`): a shard is opened, or
changed, or split into two, or two are merged. What the whole table holds changes by what the new
shards hold more than the old ones, and ids stay in order, as new ones are larger than all before.
So a table stays well-formed (`WellFormed`) when the new shards are in order and nothing is placed
twice.
-/

namespace ShardGossip

open scoped List

namespace ShardTable

variable {t t' : ShardTable} {s : Shard} {old new : List Shard}

/-- The contracts of the whole table, each with the transactions counted against it. -/
def ledger (t : ShardTable) : List (ContractId × Int) := t.shards.flatMap (·.ledger)

/-- The nodes of the whole table, each with its power. -/
def roster (t : ShardTable) : List (NodeId × Nat) := t.shards.flatMap (·.roster)

/-- Shards stand in the order of their ids, no contract and no node is placed twice, and the books
of every shard are right. -/
structure WellFormed (t : ShardTable) : Prop where
  ordered : t.shards.Pairwise fun s s' => s.id.number < s'.id.number
  issued : ∀ s ∈ t.shards, s.id.number < t.nextId
  contracts : (t.ledger.map Prod.fst).Nodup
  nodes : (t.roster.map Prod.fst).Nodup
  tidy : ∀ s ∈ t.shards, s.Tidy

theorem wellFormed_empty : (∅ : ShardTable).WellFormed :=
  ⟨.nil, List.forall_mem_nil _, List.nodup_nil, List.nodup_nil, List.forall_mem_nil _⟩

/-! ### Looking things up -/

theorem shardOfContract_eq_none {id : ContractId} :
    t.shardOfContract id = none ↔ id ∉ t.ledger.map Prod.fst := by
  rw [shardOfContract, Option.map_eq_none_iff, List.find?_eq_none, ledger, List.map_flatMap,
    List.mem_flatMap]
  simp only [Shard.containsContract_iff, not_exists, not_and]

theorem nodeIds_eq_roster (t : ShardTable) :
    t.shards.flatMap (·.nodeIds) = t.roster.map Prod.fst := by
  rw [roster, List.map_flatMap]
  exact List.flatMap_congr fun s _ => s.nodeIds_eq_roster

theorem shardOfNode_eq_none {node : NodeId} :
    t.shardOfNode node = none ↔ node ∉ t.roster.map Prod.fst := by
  rw [shardOfNode, Option.map_eq_none_iff, List.find?_eq_none, ← nodeIds_eq_roster,
    List.mem_flatMap]
  simp only [Shard.containsNode_iff, not_exists, not_and]

theorem WellFormed.distinct (h : t.WellFormed) : (t.shards.map (·.id)).Nodup :=
  List.pairwise_map.mpr (h.ordered.imp fun hlt he => absurd (he ▸ hlt) (Nat.lt_irrefl _))

theorem WellFormed.find? (h : t.WellFormed) (hs : s ∈ t.shards) : t.find? s.id = some s :=
  find?_key h.distinct hs

/-- An id that was not issued yet belongs to none of the shards. -/
theorem WellFormed.not_mem_ids (h : t.WellFormed) {shards : List Shard}
    (hs : ∀ s ∈ shards, s ∈ t.shards) {id : ShardId} (hle : t.nextId ≤ id.number) :
    id ∉ shards.map (·.id) := by
  intro hm
  obtain ⟨s, hmem, rfl⟩ := List.mem_map.mp hm
  exact absurd (h.issued s (hs s hmem)) (Nat.not_lt.mpr hle)

/-- A node belongs to a shard when it is one of the shard's nodes. -/
theorem WellFormed.mem_shardsWith (h : t.WellFormed) (hs : s ∈ t.shards) {node : NodeId} :
    s.id ∈ t.shardsWith node ↔ node ∈ s.nodeIds := by
  rw [shardsWith, List.mem_map, ← Shard.containsNode_iff]
  constructor
  · rintro ⟨s', hs', he⟩
    obtain ⟨hm, hc⟩ := List.mem_filter.mp hs'
    rwa [List.inj_on_of_nodup_map h.distinct hm hs he] at hc
  · exact fun hc => ⟨s, List.mem_filter.mpr ⟨hs, hc⟩, rfl⟩

theorem WellFormed.nodup_nodeIds (h : t.WellFormed) (hs : s ∈ t.shards) : s.nodeIds.Nodup := by
  have hn := h.nodes
  rw [← nodeIds_eq_roster, List.nodup_flatMap] at hn
  exact hn.1 s hs

theorem find?_eq_some {id : ShardId} (h : t.find? id = some s) : s ∈ t.shards ∧ s.id = id :=
  ⟨List.mem_of_find?_eq_some h, by simpa using List.find?_some h⟩

/-- Around a shard there are others only. -/
theorem WellFormed.others (h : t.WellFormed) {before after : List Shard}
    (ht : t.shards = before ++ s :: after) : ∀ s' ∈ before ++ after, s'.id ≠ s.id :=
  key_ne_of_nodup (ht ▸ h.distinct)

theorem WellFormed.exists_append (h : t.WellFormed) (hs : s ∈ t.shards) :
    ∃ before after, t.shards = before ++ s :: after ∧ ∀ s' ∈ before ++ after, s'.id ≠ s.id := by
  obtain ⟨before, after, ht⟩ := List.append_of_mem hs
  exact ⟨before, after, ht, h.others ht⟩

/-! ### Changing shards -/

theorem map_update_of_ne {l : List Shard} {id : ShardId} (h : ∀ s ∈ l, s.id ≠ id)
    (change : Shard → Shard) : l.map (fun s => if s.id = id then change s else s) = l :=
  map_ite_eq_self fun s hs he => absurd he (h s hs)

/-- An update changes one shard. -/
theorem update_append {before after : List Shard} (ht : t.shards = before ++ s :: after)
    (hne : ∀ s' ∈ before ++ after, s'.id ≠ s.id) (change : Shard → Shard) :
    t.update s.id change = { t with shards := before ++ change s :: after } := by
  rw [update, ht, List.map_append, List.map_cons, if_pos rfl,
    map_update_of_ne fun s' hs' => hne s' (List.mem_append_left _ hs'),
    map_update_of_ne fun s' hs' => hne s' (List.mem_append_right _ hs')]

/-- Changes that keep something of a shard keep it of all. -/
theorem map_update {α : Type} {f : Shard → α} (change : Shard → Shard)
    (h : ∀ s, f (change s) = f s) (t : ShardTable) (id : ShardId) :
    (t.update id change).shards.map f = t.shards.map f :=
  map_map_ite h t.shards

theorem shardsWith_update (change : Shard → Shard)
    (h : ∀ s, ((change s).id, (change s).nodes) = (s.id, s.nodes)) (t : ShardTable) (id : ShardId)
    (node : NodeId) : (t.update id change).shardsWith node = t.shardsWith node := by
  have he (t : ShardTable) : t.shardsWith node =
      ((t.shards.map fun s => (s.id, s.nodes)).filter (·.2.any (·.id = node))).map Prod.fst := by
    rw [List.filter_map, List.map_map]
    rfl
  rw [he, he, map_update change h]

theorem erase_append {before after : List Shard} (ht : t.shards = before ++ s :: after)
    (hne : ∀ s' ∈ before ++ after, s'.id ≠ s.id) :
    t.erase s.id = { t with shards := before ++ after } := by
  rw [erase, ht, List.filter_append, List.filter_cons_of_neg (by simp), ← List.filter_append,
    List.filter_eq_self.mpr fun s' hs' => decide_eq_true (hne s' hs')]

/-- Some shards give way to others. Those that stay keep their order, and new ids are larger than
all ids so far. -/
structure Redistributes (t t' : ShardTable) (old new : List Shard) : Prop where
  shards : ∃ rest, t.shards.Perm (old ++ rest) ∧ t'.shards.Perm (new ++ rest)
  ids : (t'.shards.map (·.id.number)).Sublist
    (t.shards.map (·.id.number) ++ List.range' t.nextId (t'.nextId - t.nextId))
  nextId : t.nextId ≤ t'.nextId

namespace Redistributes

/-- What the whole table holds changes by what the new shards hold. -/
theorem perm {α : Type} {f : Shard → List α} (h : t.Redistributes t' old new) :
    ∃ rest, (t.shards.flatMap f).Perm (old.flatMap f ++ rest) ∧
      (t'.shards.flatMap f).Perm (new.flatMap f ++ rest) := by
  obtain ⟨rest, ho, hn⟩ := h.shards
  refine ⟨rest.flatMap f, ?_, ?_⟩
  · rw [← List.flatMap_append]
    exact ho.flatMap_right f
  · rw [← List.flatMap_append]
    exact hn.flatMap_right f

/-- What the new shards hold more than the old ones, the table holds more. -/
theorem gains {α : Type} {f : Shard → List α} (h : t.Redistributes t' old new) (gained : List α)
    (hp : (new.flatMap f).Perm (gained ++ old.flatMap f)) :
    (t'.shards.flatMap f).Perm (gained ++ t.shards.flatMap f) := by
  obtain ⟨rest, ho, hn⟩ := h.perm (f := f)
  calc t'.shards.flatMap f
    _ ~ new.flatMap f ++ rest := hn
    _ ~ gained ++ old.flatMap f ++ rest := hp.append_right rest
    _ = gained ++ (old.flatMap f ++ rest) := List.append_assoc ..
    _ ~ gained ++ t.shards.flatMap f := ho.symm.append_left gained

theorem keeps {α : Type} {f : Shard → List α} (h : t.Redistributes t' old new)
    (hp : (new.flatMap f).Perm (old.flatMap f)) :
    (t'.shards.flatMap f).Perm (t.shards.flatMap f) :=
  h.gains [] hp

/-- Shards that do not give way stay. -/
theorem mem (h : t.Redistributes t' old new) (hs : s ∈ t.shards) (ho : s ∉ old) :
    s ∈ t'.shards := by
  obtain ⟨rest, hp, hn⟩ := h.shards
  exact hn.symm.subset
    (List.mem_append_right _ ((List.mem_append.mp (hp.subset hs)).resolve_left ho))

theorem mem_new (h : t.Redistributes t' old new) (hs : s ∈ new) : s ∈ t'.shards := by
  obtain ⟨rest, -, hn⟩ := h.shards
  exact hn.symm.subset (List.mem_append_left _ hs)

end Redistributes

/-- A table stays well-formed when the new shards are in order and nothing is placed twice. -/
theorem WellFormed.redistribute (h : t.WellFormed) (hr : t.Redistributes t' old new)
    (ht : ∀ s ∈ new, s.Tidy) (hc : (t'.ledger.map Prod.fst).Nodup)
    (hn : (t'.roster.map Prod.fst).Nodup) : t'.WellFormed := by
  have hle := hr.nextId
  have hids : ∀ n ∈ t.shards.map (·.id.number), n < t.nextId := by
    rintro n hn
    obtain ⟨s, hs, rfl⟩ := List.mem_map.mp hn
    exact h.issued s hs
  refine ⟨List.pairwise_map.mp (List.Pairwise.sublist hr.ids (List.pairwise_append.mpr
    ⟨List.pairwise_map.mpr h.ordered, List.pairwise_lt_range', fun n hn n' hn' => ?_⟩)),
    fun s hs => ?_, hc, hn, fun s hs => ?_⟩
  · have := hids n hn
    have := (List.mem_range'_1.mp hn').1
    omega
  · rcases List.mem_append.mp (hr.ids.subset (List.mem_map_of_mem hs)) with hm | hm
    · exact Nat.lt_of_lt_of_le (hids _ hm) hle
    · have := (List.mem_range'_1.mp hm).2
      omega
  · obtain ⟨rest, hp, hp'⟩ := hr.shards
    rcases List.mem_append.mp (hp'.subset hs) with hs | hs
    · exact ht s hs
    · exact h.tidy s (hp.symm.subset (List.mem_append_right _ hs))

/-! ### The four ways to redistribute -/

/-- One more shard, with the next id. -/
theorem redistributes_open (t : ShardTable) {s : Shard} (hs : s.id = ⟨t.nextId⟩) :
    t.Redistributes ⟨t.shards ++ [s], t.nextId + 1⟩ [] [s] where
  shards := ⟨t.shards, .refl _, List.perm_append_comm⟩
  ids := by simp [hs]
  nextId := Nat.le_succ _

/-- One shard changes and keeps its id. -/
theorem redistributes_update (h : t.WellFormed) (hs : s ∈ t.shards) (change : Shard → Shard)
    (hc : (change s).id = s.id) : t.Redistributes (t.update s.id change) [s] [change s] := by
  obtain ⟨before, after, ht, hne⟩ := h.exists_append hs
  rw [update_append ht hne]
  refine ⟨⟨before ++ after, ?_, List.perm_middle⟩, ?_, Nat.le_refl _⟩
  · rw [ht]
    exact List.perm_middle
  · rw [ht]
    simp [hc]

/-- The halves of a split shard. -/
def halvesOf (t : ShardTable) (config : ShardingConfig) (s : Shard) : Shard × Shard :=
  s.split config.shardCapacity ⟨t.nextId⟩ ⟨t.nextId + 1⟩

theorem halvesOf_shares (t : ShardTable) (config : ShardingConfig) (s : Shard) :
    Shard.Shares (t.halvesOf config s) ⟨t.nextId⟩ ⟨t.nextId + 1⟩ s.ledger s.roster :=
  s.split_shares ..

/-- Both halves are put in their places. -/
theorem update_halves {l : List Shard} {n : Nat} (hl : ∀ s ∈ l, s.id.number < n)
    {first : Shard} (hf : first.id = ⟨n⟩) (second : Shard) (capacity next : Nat) :
    ((⟨l ++ [.empty ⟨n⟩ capacity] ++ [.empty ⟨n + 1⟩ capacity], next⟩ : ShardTable).update ⟨n⟩
      fun _ => first).update ⟨n + 1⟩ (fun _ => second) = ⟨l ++ [first, second], next⟩ := by
  have hne {k : Nat} (hk : n ≤ k) : ∀ s ∈ l, s.id ≠ ⟨k⟩ := by
    rintro s hs he
    have := hl s hs
    rw [he] at this
    exact absurd (Nat.lt_of_lt_of_le this hk) (Nat.lt_irrefl _)
  simp [update, map_update_of_ne (hne (Nat.le_refl n)), map_update_of_ne (hne (Nat.le_succ n)), hf]

/-- A split shard leaves the table, and its halves go to the end. -/
theorem splitShard_eq (h : t.WellFormed) (config : ShardingConfig) {before after : List Shard}
    (ht : t.shards = before ++ s :: after) (hne : ∀ s' ∈ before ++ after, s'.id ≠ s.id) :
    t.splitShard config s =
      (⟨s.id, s.nodeIds, (⟨t.nextId⟩, (t.halvesOf config s).1.nodeIds),
          (⟨t.nextId + 1⟩, (t.halvesOf config s).2.nodeIds)⟩,
        ⟨before ++ after ++ [(t.halvesOf config s).1, (t.halvesOf config s).2], t.nextId + 2⟩) := by
  have hlt : ∀ s' ∈ before ++ after, s'.id.number < t.nextId := fun s' hs' =>
    h.issued s' (ht ▸ List.perm_middle.symm.subset (List.mem_cons_of_mem _ hs'))
  have hu := update_halves hlt (t.halvesOf_shares config s).first (t.halvesOf config s).2
    config.shardCapacity (t.nextId + 2)
  unfold splitShard
  rw [erase_append ht hne, ← hu]
  rfl

theorem redistributes_split (h : t.WellFormed) (config : ShardingConfig) (hs : s ∈ t.shards) :
    t.Redistributes (t.splitShard config s).2 [s]
      [(t.halvesOf config s).1, (t.halvesOf config s).2] := by
  obtain ⟨before, after, ht, hne⟩ := h.exists_append hs
  have hh := t.halvesOf_shares config s
  rw [splitShard_eq h config ht hne]
  refine ⟨⟨before ++ after, ht ▸ List.perm_middle, List.perm_append_comm⟩, ?_,
    Nat.le_add_right _ _⟩
  have hids : [(t.halvesOf config s).1, (t.halvesOf config s).2].map (·.id.number) =
      List.range' t.nextId (t.nextId + 2 - t.nextId) := by
    simp [hh.first, hh.second, List.range']
  rw [List.map_append, hids, ht]
  refine List.Sublist.append ?_ (List.Sublist.refl _)
  exact ((List.sublist_cons_self s after).append_left before).map _

/-! ### Splitting -/

theorem splitShard_deals (h : t.WellFormed) (config : ShardingConfig) (hs : s ∈ t.shards) :
    (t.splitShard config s).1.Deals s (t.halvesOf config s).1 (t.halvesOf config s).2 := by
  obtain ⟨before, after, ht, hne⟩ := h.exists_append hs
  have hh := t.halvesOf_shares config s
  rw [splitShard_eq h config ht hne]
  refine ⟨rfl, rfl, by rw [hh.first], by rw [hh.second], ?_⟩
  rw [Shard.nodeIds_eq_roster, Shard.nodeIds_eq_roster, Shard.nodeIds_eq_roster, ← List.map_append]
  exact hh.roster.map _

/-- A split shard's halves hold what it held. -/
theorem ledger_splitShard (h : t.WellFormed) (config : ShardingConfig) (hs : s ∈ t.shards) :
    (t.splitShard config s).2.ledger.Perm t.ledger :=
  (redistributes_split h config hs).keeps (by
    simpa using (t.halvesOf_shares config s).ledger)

theorem roster_splitShard (h : t.WellFormed) (config : ShardingConfig) (hs : s ∈ t.shards) :
    (t.splitShard config s).2.roster.Perm t.roster :=
  (redistributes_split h config hs).keeps (by
    simpa using (t.halvesOf_shares config s).roster)

theorem WellFormed.splitShard (h : t.WellFormed) (config : ShardingConfig) (hs : s ∈ t.shards) :
    (t.splitShard config s).2.WellFormed := by
  have hh := (t.halvesOf_shares config s).tidy
  refine h.redistribute (redistributes_split h config hs) ?_ ?_ ?_
  · intro s' hs'
    simp only [List.mem_cons, List.not_mem_nil, or_false] at hs'
    rcases hs' with rfl | rfl
    · exact hh.1
    · exact hh.2
  · exact ((ledger_splitShard h config hs).map _).nodup_iff.mpr h.contracts
  · exact ((roster_splitShard h config hs).map _).nodup_iff.mpr h.nodes

/-- Shards are split one after the other. -/
inductive Splits (config : ShardingConfig) :
    ShardTable → List Shard → List SplitPlan → ShardTable → Prop where
  | done (t : ShardTable) : Splits config t [] [] t
  | step {t t' : ShardTable} {s : Shard} {rest : List Shard} {plans : List SplitPlan} :
      Splits config (t.splitShard config s).2 rest plans t' →
      Splits config t (s :: rest) ((t.splitShard config s).1 :: plans) t'

/-- Each of the shards has its plan. -/
theorem Splits.parents {config : ShardingConfig} {shards : List Shard} {plans : List SplitPlan}
    (hp : Splits config t shards plans t') : plans.map (·.parent) = shards.map (·.id) := by
  induction hp with
  | done t => rfl
  | @step t t' s rest plans _ ih =>
      have hs : (t.splitShard config s).1.parent = s.id := rfl
      rw [List.map_cons, List.map_cons, ih, hs]

theorem splits_split (t : ShardTable) (config : ShardingConfig) :
    Splits config t (t.overloaded config) (t.split config).1 (t.split config).2 := by
  have key (shards : List Shard) (t : ShardTable) (plans : List SplitPlan) :
      ∃ new t', shards.foldl (fun done s =>
          (done.1 ++ [(done.2.splitShard config s).1], (done.2.splitShard config s).2)) (plans, t) =
            (plans ++ new, t') ∧
        Splits config t shards new t' := by
    induction shards generalizing t plans with
    | nil => exact ⟨[], t, by simp, .done t⟩
    | cons s rest ih =>
        obtain ⟨new, t', he, hs⟩ :=
          ih (t.splitShard config s).2 (plans ++ [(t.splitShard config s).1])
        exact ⟨_, t', he.trans (by rw [List.append_assoc]; rfl), .step hs⟩
  obtain ⟨new, t', he, hs⟩ := key (t.overloaded config) t []
  have hsplit : t.split config = (new, t') := he
  rw [hsplit]
  exact hs

/-- Shards that are there and differ in their ids, to be split one after the other. -/
def Splittable (t : ShardTable) (shards : List Shard) : Prop :=
  (∀ s ∈ shards, s ∈ t.shards) ∧ shards.Pairwise fun s s' => s'.id ≠ s.id

theorem splittable_overloaded (h : t.WellFormed) (config : ShardingConfig) :
    t.Splittable (t.overloaded config) := by
  refine ⟨fun s hs => List.mem_of_mem_filter hs, ?_⟩
  have hd := List.pairwise_map.mp h.distinct
  exact (hd.filter _).imp fun hne => Ne.symm hne

/-- The others are still there after one was split. -/
theorem Splittable.tail {rest : List Shard} (hs : t.Splittable (s :: rest)) (h : t.WellFormed)
    (config : ShardingConfig) : (t.splitShard config s).2.Splittable rest := by
  obtain ⟨hm, hp⟩ := hs
  rw [List.pairwise_cons] at hp
  refine ⟨fun s' hs' => ?_, hp.2⟩
  refine (redistributes_split h config (hm s List.mem_cons_self)).mem
    (hm s' (List.mem_cons_of_mem _ hs')) ?_
  rw [List.mem_singleton]
  exact fun he => hp.1 s' hs' (he ▸ rfl)

theorem Splits.keeps {config : ShardingConfig} {shards : List Shard} {plans : List SplitPlan}
    (hp : Splits config t shards plans t') (h : t.WellFormed) (hs : t.Splittable shards) :
    t'.WellFormed ∧ t'.ledger.Perm t.ledger ∧ t'.roster.Perm t.roster := by
  induction hp with
  | done t => exact ⟨h, .refl _, .refl _⟩
  | step _ ih =>
      have hm := hs.1 _ List.mem_cons_self
      obtain ⟨hw, hl, hr⟩ := ih (h.splitShard config hm) (hs.tail h config)
      exact ⟨hw, hl.trans (ledger_splitShard h config hm),
        hr.trans (roster_splitShard h config hm)⟩

/-- Each plan tells how the nodes of one of the shards were dealt out to two that are there now. -/
theorem Splits.deals {config : ShardingConfig} {shards : List Shard} {plans : List SplitPlan}
    (hp : Splits config t shards plans t') (h : t.WellFormed) (hs : t.Splittable shards) :
    (∀ s ∈ t.shards, s ∉ shards → s ∈ t'.shards) ∧
      ∀ plan ∈ plans, ∃ s ∈ shards, ∃ a ∈ t'.shards, ∃ b ∈ t'.shards, plan.Deals s a b := by
  induction hp with
  | done t => exact ⟨fun s hs _ => hs, List.forall_mem_nil _⟩
  | @step t t' s rest plans _ ih =>
      have hm := hs.1 s List.mem_cons_self
      obtain ⟨hstay, hdeals⟩ := ih (h.splitShard config hm) (hs.tail h config)
      refine ⟨fun s' hs' hn => ?_, fun plan hplan => ?_⟩
      · rw [List.mem_cons, not_or] at hn
        refine hstay s' ((redistributes_split h config hm).mem hs' ?_) hn.2
        exact mt List.mem_singleton.mp hn.1
      · rcases List.mem_cons.mp hplan with rfl | hplan
        · have hr := redistributes_split h config hm
          have hh := t.halvesOf_shares config s
          have hnew {half : Shard} (hle : t.nextId ≤ half.id.number) : half ∉ rest := fun hhalf =>
            h.not_mem_ids (fun s' hs' => hs.1 s' (List.mem_cons_of_mem _ hs')) hle
              (List.mem_map_of_mem hhalf)
          refine ⟨s, List.mem_cons_self, _, hstay _ (hr.mem_new List.mem_cons_self) (hnew ?_), _,
            hstay _ (hr.mem_new (List.mem_cons_of_mem _ List.mem_cons_self)) (hnew ?_),
            splitShard_deals h config hm⟩
          · exact Nat.le_of_eq (congrArg ShardId.number hh.first).symm
          · rw [hh.second]
            exact Nat.le_succ _
        · obtain ⟨s', hs', hd⟩ := hdeals plan hplan
          exact ⟨s', List.mem_cons_of_mem _ hs', hd⟩

/-- However many shards are split, all contracts and nodes stay in the table. -/
theorem WellFormed.split (h : t.WellFormed) (config : ShardingConfig) :
    (t.split config).2.WellFormed ∧ (t.split config).2.ledger.Perm t.ledger ∧
      (t.split config).2.roster.Perm t.roster :=
  (splits_split t config).keeps h (splittable_overloaded h config)

/-! ### Merging -/

theorem newestTwo_append (before : List Shard) (survivor dissolved : Shard) :
    newestTwo (before ++ [survivor, dissolved]) = some (survivor, dissolved) := by
  induction before with
  | nil => rfl
  | cons s rest ih =>
      rw [List.cons_append, newestTwo, ih]
      · simp
      · intro d hd
        simpa using congrArg List.length hd

theorem newestTwo_eq_some {l : List Shard} {survivor dissolved : Shard} :
    newestTwo l = some (survivor, dissolved) ↔ ∃ before, l = before ++ [survivor, dissolved] := by
  refine ⟨fun h => ?_, ?_⟩
  · fun_induction newestTwo l with
    | case1 => cases h
    | case2 s => cases h
    | case3 a b =>
        cases h
        exact ⟨[], rfl⟩
    | case4 s rest hn hn' ih =>
        obtain ⟨before, rfl⟩ := ih h
        exact ⟨s :: before, rfl⟩
  · rintro ⟨before, rfl⟩
    exact newestTwo_append before survivor dissolved

theorem newestTwo_eq_none {l : List Shard} : newestTwo l = none ↔ l.length < 2 := by
  fun_induction newestTwo l with
  | case1 => simp
  | case2 s => simp
  | case3 a b => simp
  | case4 s rest hn hn' ih =>
      match rest with
      | [] => exact absurd rfl hn
      | [d] => exact absurd rfl (hn' d)
      | a :: b :: rest =>
          rw [ih]
          simp only [List.length_cons]
          omega

/-- The newest shard dissolves into the one before it, with which it shares no node. -/
structure Merges (t : ShardTable) (plan : MergePlan) (t' : ShardTable) (before : List Shard)
    (survivor dissolved : Shard) : Prop where
  shards : t.shards = before ++ [survivor, dissolved]
  plan : plan = ⟨survivor.id, survivor.nodeIds, dissolved.id, dissolved.nodeIds,
    (survivor.absorb dissolved).contracts.length, (survivor.absorb dissolved).nodes.length⟩
  table : t' = ⟨before ++ [survivor.absorb dissolved], t.nextId⟩
  apart : (survivor.nodeIds ++ dissolved.nodeIds).Nodup

/-- Two shards can always be merged. -/
theorem merge_refused (t : ShardTable) : (∃ e, t.merge = .error e) ↔ t.shards.length < 2 := by
  rw [← newestTwo_eq_none]
  unfold ShardTable.merge
  cases newestTwo t.shards <;> simp

variable {plan : MergePlan} {before : List Shard} {survivor dissolved : Shard}

theorem WellFormed.merges (h : t.WellFormed) (hm : t.merge = .ok (plan, t')) :
    ∃ before survivor dissolved, t.Merges plan t' before survivor dissolved := by
  unfold merge at hm
  split at hm
  · cases hm
  · next survivor dissolved hn =>
      obtain ⟨before, ht⟩ := newestTwo_eq_some.mp hn
      refine ⟨before, survivor, dissolved, ht, by cases hm; rfl, ?_, ?_⟩
      · have hd := ht.trans (List.append_cons ..)
        have hs : ∀ s ∈ before ++ [], s.id ≠ survivor.id := fun s hs =>
          h.others ht s (by simp_all)
        have he := erase_append hd (h.others hd)
        cases hm
        rw [he, List.append_nil]
        exact update_append (show _ = before ++ survivor :: [] from rfl) hs _
      · have hd := h.nodes
        rw [← nodeIds_eq_roster, ht, List.flatMap_append] at hd
        simpa using (List.nodup_append.mp hd).2.1

/-- No node sits in both of the two newest shards. -/
theorem Merges.not_isBridged (hm : t.Merges plan t' before survivor dissolved) :
    ¬ plan.isBridged := by
  rw [hm.plan, MergePlan.isBridged, List.any_eq_true]
  rintro ⟨node, hd, hs⟩
  exact (List.nodup_append.mp hm.apart).2.2 node (by simpa using hs) node hd rfl

theorem redistributes_merge (hm : t.Merges plan t' before survivor dissolved) :
    t.Redistributes t' [survivor, dissolved] [survivor.absorb dissolved] := by
  have hid := (Shard.absorb_eq hm.apart).1
  rw [hm.table]
  refine ⟨⟨before, ?_, List.perm_append_comm⟩, ?_, Nat.le_refl _⟩
  · rw [hm.shards]
    exact List.perm_append_comm
  · rw [hm.shards]
    simp [hid]

/-- What the dissolved shard holds goes to the survivor. -/
theorem Merges.ledger (hm : t.Merges plan t' before survivor dissolved) :
    t'.ledger.Perm t.ledger :=
  (redistributes_merge hm).keeps (by simp [(Shard.absorb_eq hm.apart).2.1])

theorem Merges.roster (hm : t.Merges plan t' before survivor dissolved) :
    t'.roster.Perm t.roster :=
  (redistributes_merge hm).keeps (by simp [(Shard.absorb_eq hm.apart).2.2.1])

theorem WellFormed.merge (h : t.WellFormed) (hm : t.Merges plan t' before survivor dissolved) :
    t'.WellFormed := by
  refine h.redistribute (redistributes_merge hm) ?_ ?_ ?_
  · intro s hs
    rw [List.mem_singleton.mp hs]
    exact (Shard.absorb_eq hm.apart).2.2.2 (h.tidy survivor (by simp [hm.shards]))
  · exact (hm.ledger.map _).nodup_iff.mpr h.contracts
  · exact (hm.roster.map _).nodup_iff.mpr h.nodes

/-! ### Placing -/

/-- Something is placed in a shard that is there, or in a new one. -/
inductive Places (t : ShardTable) (capacity : Nat) (change : Shard → Shard) :
    Placed → ShardTable → Prop where
  | existing {s : Shard} (hs : s ∈ t.shards) :
      Places t capacity change ⟨s.id, false⟩ (t.update s.id change)
  | opened :
      Places t capacity change ⟨⟨t.nextId⟩, true⟩
        ⟨t.shards ++ [change (.empty ⟨t.nextId⟩ capacity)], t.nextId + 1⟩

section Places

variable {capacity : Nat} {change : Shard → Shard} {placed : Placed}

theorem Places.redistributes (hp : t.Places capacity change placed t') (h : t.WellFormed)
    (hid : ∀ s, (change s).id = s.id) (htidy : ∀ s : Shard, s.Tidy → (change s).Tidy) :
    ∃ old new, t.Redistributes t' old new ∧ ∀ s ∈ new, s.Tidy := by
  cases hp with
  | existing hs =>
      refine ⟨_, _, redistributes_update h hs change (hid _), ?_⟩
      simpa using htidy _ (h.tidy _ hs)
  | opened =>
      refine ⟨_, _, redistributes_open t (hid _), ?_⟩
      simpa using htidy _ (Shard.tidy_empty ..)

/-- What a shard gains by the change, the table gains. -/
theorem Places.gains (hp : t.Places capacity change placed t') (h : t.WellFormed)
    (hid : ∀ s, (change s).id = s.id) {α : Type} {f : Shard → List α} (gained : List α)
    (he : f (.empty ⟨t.nextId⟩ capacity) = []) (hf : ∀ s, f (change s) = f s ++ gained) :
    (t'.shards.flatMap f).Perm (gained ++ t.shards.flatMap f) := by
  cases hp with
  | existing hs =>
      refine (redistributes_update h hs change (hid _)).gains gained ?_
      simpa [hf] using List.perm_append_comm
  | opened => exact (redistributes_open t (hid _)).gains gained (by simp [hf, he])

end Places

/-- A shard just opened is changed. -/
theorem WellFormed.places_openShard (h : t.WellFormed) (capacity : Nat) (change : Shard → Shard) :
    t.Places capacity change ⟨(t.openShard capacity).1, true⟩
      ((t.openShard capacity).2.update (t.openShard capacity).1 change) := by
  have hne : ∀ s ∈ t.shards ++ [], s.id ≠ ⟨t.nextId⟩ := by
    intro s hs he
    have hlt := h.issued s (by simpa using hs)
    rw [he] at hlt
    exact Nat.lt_irrefl _ hlt
  have hs : (t.openShard capacity).2.shards = t.shards ++ .empty ⟨t.nextId⟩ capacity :: [] := rfl
  exact update_append hs hne change ▸ .opened

/-- An opened shard holds nothing. -/
theorem WellFormed.openShard (h : t.WellFormed) (capacity : Nat) :
    (t.openShard capacity).2.WellFormed := by
  have hr := redistributes_open t (s := .empty ⟨t.nextId⟩ capacity) rfl
  have hl : (t.openShard capacity).2.ledger.Perm t.ledger := hr.keeps .nil
  have hn : (t.openShard capacity).2.roster.Perm t.roster := hr.keeps .nil
  refine h.redistribute hr ?_ ((hl.map _).nodup_iff.mpr h.contracts)
    ((hn.map _).nodup_iff.mpr h.nodes)
  simpa using Shard.tidy_empty _ _

variable {config : ShardingConfig} {c : Contract} {n : Placement} {placed : Placed}

/-- An assignment that goes through places a contract that was nowhere. -/
theorem WellFormed.assign_eq_ok (h : t.WellFormed) (ha : t.assign config c = .ok (placed, t')) :
    c.id ∉ t.ledger.map Prod.fst ∧
      t.Places config.shardCapacity (·.pushContract c) placed t' := by
  unfold assign at ha
  split at ha
  · cases ha
  · next hc =>
      refine ⟨shardOfContract_eq_none.mp hc, ?_⟩
      split at ha
      · next s hs =>
          cases ha
          exact .existing (List.mem_of_find?_eq_some hs)
      · cases ha
        exact h.places_openShard _ _

/-- Only a contract that has a shard is refused. -/
theorem assign_refused (t : ShardTable) (config : ShardingConfig) (c : Contract) :
    (∃ e, t.assign config c = .error e) ↔ c.id ∈ t.ledger.map Prod.fst := by
  rw [← not_iff_not, ← shardOfContract_eq_none]
  unfold ShardTable.assign
  cases t.shardOfContract c.id with
  | some shard => simp
  | none => cases t.shards.find? (·.hasRoom) <;> simp

/-- An assigned contract comes on top of what the table holds. -/
theorem WellFormed.assign (h : t.WellFormed) (ha : t.assign config c = .ok (placed, t')) :
    t'.WellFormed ∧ t'.ledger.Perm (c.entry :: t.ledger) ∧ t'.roster.Perm t.roster := by
  obtain ⟨hc, hp⟩ := h.assign_eq_ok ha
  obtain ⟨old, new, hr, ht⟩ := hp.redistributes h (fun _ => rfl) fun s hs => hs.pushContract c
  have hl : t'.ledger.Perm (c.entry :: t.ledger) :=
    hp.gains h (fun _ => rfl) [c.entry] rfl fun s => s.ledger_pushContract c
  have hn : t'.roster.Perm t.roster :=
    hp.gains h (fun _ => rfl) [] rfl fun s => (List.append_nil _).symm
  refine ⟨h.redistribute hr ht ?_ ((hn.map _).nodup_iff.mpr h.nodes), hl, hn⟩
  exact (hl.map _).nodup_iff.mpr (List.nodup_cons.mpr ⟨hc, h.contracts⟩)

theorem lightest_mem {l : List Shard} (h : lightest l = some s) : s ∈ l := by
  have key (rest : List Shard) (best : Shard) :
      rest.foldl (fun best s => if s.load < best.load then s else best) best ∈ best :: rest := by
    induction rest generalizing best with
    | nil => exact List.mem_singleton_self best
    | cons s rest ih =>
        rw [List.foldl_cons]
        have hm := ih (if s.load < best.load then s else best)
        grind
  cases l with
  | nil => cases h
  | cons first rest =>
      cases h
      exact key rest first

/-- A node without a shard is placed in one. -/
theorem WellFormed.place_eq (h : t.WellFormed) (config : ShardingConfig)
    (hn : n.id ∉ t.roster.map Prod.fst) :
    ∃ isNew, t.Places config.shardCapacity (·.pushNode n) ⟨(t.place config n).1, isNew⟩
      (t.place config n).2 := by
  unfold place
  rw [shardOfNode_eq_none.mpr hn]
  dsimp only
  split
  · next s hs => exact ⟨false, .existing (lightest_mem hs)⟩
  · exact ⟨true, h.places_openShard _ _⟩

/-- A placed node comes on top of what the table holds. -/
theorem WellFormed.place (h : t.WellFormed) (config : ShardingConfig)
    (hn : n.id ∉ t.roster.map Prod.fst) :
    (t.place config n).2.WellFormed ∧ (t.place config n).2.ledger.Perm t.ledger ∧
      (t.place config n).2.roster.Perm (n.entry :: t.roster) := by
  obtain ⟨isNew, hp⟩ := h.place_eq config hn
  obtain ⟨old, new, hr, ht⟩ := hp.redistributes h (fun _ => rfl) fun s hs => hs.pushNode n
  have hl : (t.place config n).2.ledger.Perm t.ledger :=
    hp.gains h (fun _ => rfl) [] rfl fun s => (List.append_nil _).symm
  have hg : (t.place config n).2.roster.Perm (n.entry :: t.roster) :=
    hp.gains h (fun _ => rfl) [n.entry] rfl fun s => s.roster_pushNode n
  refine ⟨h.redistribute hr ht ((hl.map _).nodup_iff.mpr h.contracts) ?_, hl, hg⟩
  exact (hg.map _).nodup_iff.mpr (List.nodup_cons.mpr ⟨hn, h.nodes⟩)

/-! ### Counting -/

variable {id : ShardId} {contract : ContractId}

theorem count_eq_ok (hc : t.count id contract = .ok t') :
    ∃ s ∈ t.shards, s.id = id ∧ s.containsContract contract ∧
      t' = t.update s.id (·.count contract) := by
  unfold count at hc
  split at hc
  · cases hc
  · next s hs =>
      obtain ⟨hm, rfl⟩ := find?_eq_some hs
      split at hc
      · next hi =>
          cases hc
          exact ⟨s, hm, rfl, hi, rfl⟩
      · cases hc

/-- Only a contract that is not in the shard is refused. -/
theorem WellFormed.count_refused (h : t.WellFormed) (id : ShardId) (contract : ContractId) :
    (∃ e, t.count id contract = .error e) ↔
      ∀ s ∈ t.shards, s.id = id → s.containsContract contract = false := by
  unfold ShardTable.count
  cases hf : t.find? id with
  | none =>
      have hn := List.find?_eq_none.mp hf
      simp only [Except.error.injEq, exists_eq', true_iff]
      exact fun s hs hi => absurd (decide_eq_true hi) (hn s hs)
  | some s =>
      obtain ⟨hm, rfl⟩ := find?_eq_some hf
      have hu : ∀ s' ∈ t.shards, s'.id = s.id → s' = s := fun s' hs' hi =>
        Option.some.inj ((h.find? hs').symm.trans (hi ▸ hf))
      dsimp only
      cases hc : s.containsContract contract with
      | true =>
          simp only [if_true, reduceCtorEq, exists_false, false_iff]
          exact fun hall => absurd (hall s hm rfl) (by simp [hc])
      | false =>
          simp only [Bool.false_eq_true, if_false, Except.error.injEq, exists_eq', true_iff]
          exact fun s' hs' hi => hu s' hs' hi ▸ hc

/-- One count goes up by one, and nothing else changes. -/
theorem WellFormed.count (h : t.WellFormed) (hc : t.count id contract = .ok t') :
    t'.WellFormed ∧ t'.roster.Perm t.roster ∧ ∃ n rest,
      t.ledger.Perm ((contract, n) :: rest) ∧ t'.ledger.Perm ((contract, n + 1) :: rest) := by
  obtain ⟨s, hs, -, hi, rfl⟩ := count_eq_ok hc
  have hr := redistributes_update h hs (·.count contract) (s.id_count contract)
  obtain ⟨before, n, after, he, he'⟩ := Shard.ledger_count hi
  obtain ⟨rest, hl, hl'⟩ := hr.perm (f := Shard.ledger)
  have hn : (t.update s.id (·.count contract)).roster.Perm t.roster :=
    hr.keeps (by simp [Shard.roster])
  have hlt : t.ledger.Perm ((contract, n) :: (before ++ after ++ rest)) :=
    hl.trans (by simp [he])
  have hlt' : (t.update s.id (·.count contract)).ledger.Perm
      ((contract, n + 1) :: (before ++ after ++ rest)) :=
    hl'.trans (by simp [he'])
  refine ⟨h.redistribute hr ?_ ?_ ((hn.map _).nodup_iff.mpr h.nodes), hn, n, _, hlt, hlt'⟩
  · simpa using (h.tidy s hs).count hi
  · rw [(hlt'.map _).nodup_iff]
    exact (hlt.map Prod.fst).nodup_iff.mp h.contracts

end ShardTable

end ShardGossip

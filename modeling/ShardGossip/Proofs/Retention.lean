import ShardGossip.ChainRegistry
import ShardGossip.Proofs.ChainWork

/-!
# ShardGossip.Proofs.Retention

**No chain is ever forgotten, and no queue of committed events loses anything by itself.** Whatever
a chain does or is asked for, the events that wait for their delivery stay in their order, and new
ones go behind them (`Chain.Retains`); only a delivery takes one out. Creating chains, changing them
and taking them out of the registry keeps every chain findable by its serial number
(`ChainRegistry.Evolves`).
-/

namespace ShardGossip

/-! ### Members stay in their shard -/

namespace Replica

variable {heard : NodeId → Packet → Prop} {r : Replica}

theorem shardId_change {o : Outcome} (h : Change heard r o) : o.replica.shardId = r.shardId := by
  cases h with
  | settled hr => exact (GoesOn.reaction hr).shardId
  | reconfiguration hu =>
      cases hu with
      | jump round => exact (r.goesOn_fastForward round).shardId
      | adopt update signer _ =>
          rename_i events _
          show (r.storeForeign events update signer).shardId = r.shardId
          unfold storeForeign
          cases update <;> rfl
      | _ => rfl

theorem shardId_setMembers (r : Replica) (members : List NodeId) :
    (r.setMembers members).replica.shardId = r.shardId :=
  (setMembers_steps r members : Steps (Change silence) _ _).keep
    (P := fun r' => r'.shardId = r.shardId) (fun hr hc => (shardId_change hc).trans hr) rfl

end Replica

namespace Chain

variable {c c' c'' : Chain}

/-! ### One chain -/

/-- A chain that runs was not shut down, and delivers. -/
def Delivers (c : Chain) : Prop :=
  c.running → c.shutDown = false ∧ Loop.delivery ∈ c.loops

/-- A chain stays the same one, has a pipeline if it had one, and stays shut down if it was, with no
loop starting again. -/
structure Remains (c c' : Chain) : Prop where
  serial : c'.serial = c.serial
  shardId : c'.shardId = c.shardId
  pipeline : c.pipeline.isSome → c'.pipeline.isSome
  shutDown : c.shutDown → c'.shutDown
  ended : c.shutDown → c'.loops ⊆ c.loops
  delivers : c.Delivers → c'.Delivers

/-- The same chain goes on with its queue of committed events, and new ones are at the back. -/
structure Retains (c c' : Chain) : Prop extends c.Remains c' where
  committed : c.committed <+: c'.committed

theorem Remains.refl (c : Chain) : c.Remains c :=
  ⟨rfl, rfl, id, id, fun _ => List.Subset.refl _, id⟩

theorem Remains.trans (h : c.Remains c') (h' : c'.Remains c'') : c.Remains c'' where
  serial := h'.serial.trans h.serial
  shardId := h'.shardId.trans h.shardId
  pipeline := fun hp => h'.pipeline (h.pipeline hp)
  shutDown := fun hd => h'.shutDown (h.shutDown hd)
  ended := fun hd => List.Subset.trans (h'.ended (h.shutDown hd)) (h.ended hd)
  delivers := fun hr => h'.delivers (h.delivers hr)

theorem Proceeds.retains (h : c.Proceeds c') : c.Retains c' := by
  obtain ⟨hg, hc, he⟩ := h
  simp only [Prod.mk.injEq] at he
  obtain ⟨hs, hp, hr, hd, hl⟩ := he
  refine ⟨⟨hs, hg.shardId, hp ▸ id, hd ▸ id, fun _ => hl ▸ List.Subset.refl _, ?_⟩, hc⟩
  unfold Delivers
  rw [hd, hr, hl]
  exact id

theorem Retains.refl (c : Chain) : c.Retains c :=
  (Works.refl c).retains

theorem Retains.trans (h : c.Retains c') (h' : c'.Retains c'') : c.Retains c'' :=
  ⟨h.toRemains.trans h'.toRemains, h.committed.trans h'.committed⟩

theorem retains_submit (c : Chain) (transaction : Transaction) :
    c.Retains (c.submit transaction) :=
  ⟨⟨rfl, rfl, id, id, fun _ => List.Subset.refl _, id⟩, List.prefix_refl _⟩

theorem retains_absorb (c : Chain) (transactions : List Transaction) :
    c.Retains (c.absorb transactions) :=
  ⟨⟨rfl, rfl, id, id, fun _ => List.Subset.refl _, id⟩, List.prefix_refl _⟩

theorem retains_take {α : Type} {taking : Replica → α × Replica}
    (h : (taking c.replica).2.shardId = c.replica.shardId) : c.Retains (c.take taking).2 :=
  ⟨⟨rfl, h, id, id, fun _ => List.Subset.refl _, id⟩, List.prefix_refl _⟩

theorem retains_run (c : Chain) : c.Retains c.run := by
  unfold run
  split
  · exact .refl c
  · rename_i h
    obtain ⟨hd, -⟩ := Bool.or_eq_false_iff.mp (Bool.not_eq_true _ ▸ h)
    refine ⟨⟨rfl, rfl, id, id, fun hs => ?_, fun _ _ => ⟨hd, by simp [remind]⟩⟩,
      List.prefix_refl _⟩
    exact absurd hs (by simp [hd])

theorem retains_shutdown (c : Chain) : c.Retains c.shutdown := by
  cases hd : c.shutDown with
  | false =>
      obtain ⟨connections, due, -, hs⟩ := shutdown_cases hd
      rw [hs]
      exact ⟨⟨rfl, rfl, id, fun _ => rfl, fun _ => List.Subset.refl _, fun _ => nofun⟩,
        List.prefix_refl _⟩
  | true =>
      rw [shutdown, if_pos hd]
      exact .refl c

theorem shutDown_shutdown (c : Chain) : c.shutdown.shutDown := by
  cases hd : c.shutDown with
  | false =>
      obtain ⟨connections, due, -, hs⟩ := shutdown_cases hd
      rw [hs]
  | true => exact c.retains_shutdown.shutDown hd

theorem retains_setMembers (c : Chain) (members : List NodeId) :
    c.Retains (c.setMembers members) := by
  obtain ⟨connections, due, woken, -, hs⟩ := c.setMembers_cases members
  rw [hs]
  exact ⟨⟨rfl, c.replica.shardId_setMembers members, id, id, fun _ => List.Subset.refl _, id⟩,
    List.prefix_append ..⟩

/-- Only a chain that was shut down has loops that end. -/
theorem retains_finish (c : Chain) (loop : Loop) : c.Retains (c.finish loop) := by
  unfold finish
  split
  · rename_i hd
    refine ⟨⟨rfl, rfl, id, id, fun _ => List.filter_subset_self _, fun hr hrun => ?_⟩,
      List.prefix_refl _⟩
    exact absurd hd (by simp [(hr hrun).1])
  · exact .refl c

end Chain

namespace ChainRegistry

open Chain

variable {r r' r'' : ChainRegistry} {serial : Nat}

/-! ### All chains -/

/-- The committed events of a chain that wait for their delivery. -/
def waiting (r : ChainRegistry) (serial : Nat) : List Event :=
  (r.bySerial? serial).elim [] (·.committed)

/-- At most one chain is registered for a shard, chains differ in their serial numbers, all have a
pipeline, and those that were taken out are shut down. -/
structure Sound (r : ChainRegistry) : Prop where
  shards : (r.chains.map Chain.shardId).Nodup
  serials : (r.all.map Chain.serial).Nodup
  created : ∀ c ∈ r.all, c.serial < r.created
  inherited : r.pipeline.isSome
  pipeline : ∀ c ∈ r.all, c.pipeline.isSome
  delivers : ∀ c ∈ r.all, c.Delivers
  retired : ∀ c ∈ r.retired, c.shutDown

theorem mem_of_bySerial? {c : Chain} (h : r.bySerial? serial = some c) :
    c ∈ r.all ∧ c.serial = serial :=
  ⟨List.mem_of_find?_eq_some h, by simpa using List.find?_some (p := fun c => _) h⟩

theorem Sound.bySerial? (h : r.Sound) {c : Chain} (hc : c ∈ r.all) :
    r.bySerial? c.serial = some c :=
  find?_key h.serials hc

/-- From a sound registry a sound one comes about, and every chain goes on. -/
def Evolves (r r' : ChainRegistry) : Prop :=
  r.Sound → r'.Sound ∧ ∀ c ∈ r.all, ∃ c' ∈ r'.all, c.Retains c'

theorem Evolves.refl (r : ChainRegistry) : r.Evolves r :=
  fun h => ⟨h, fun c hc => ⟨c, hc, .refl c⟩⟩

theorem Evolves.trans (h : r.Evolves r') (h' : r'.Evolves r'') : r.Evolves r'' := by
  intro hs
  obtain ⟨hs', hc'⟩ := h hs
  obtain ⟨hs'', hc''⟩ := h' hs'
  refine ⟨hs'', fun c hc => ?_⟩
  obtain ⟨c₁, hc₁, hr⟩ := hc' c hc
  obtain ⟨c₂, hc₂, hr'⟩ := hc'' c₁ hc₁
  exact ⟨c₂, hc₂, hr.trans hr'⟩

/-- What waits goes on waiting, with new events behind it. -/
theorem Evolves.waiting (h : r.Evolves r') (hs : r.Sound) (serial : Nat) :
    r.waiting serial <+: r'.waiting serial := by
  obtain ⟨hs', hc⟩ := h hs
  unfold ChainRegistry.waiting
  cases hb : r.bySerial? serial with
  | none => exact List.nil_prefix
  | some c =>
      obtain ⟨hm, rfl⟩ := mem_of_bySerial? hb
      obtain ⟨c', hm', hr⟩ := hc c hm
      rw [← hr.serial, hs'.bySerial? hm']
      exact hr.committed

/-- When the chains are still the same ones, the registry is still sound. -/
theorem Sound.keep (h : r.Sound) (hs : (r'.chains.map Chain.shardId).Nodup)
    (hp : (r'.all.map Chain.serial).Perm (r.all.map Chain.serial)) (hc : r'.created = r.created)
    (hi : r'.pipeline = r.pipeline) (hr : ∀ c ∈ r.all, ∃ c' ∈ r'.all, c.Remains c')
    (hd : ∀ c ∈ r'.retired, c.shutDown) : r'.Sound := by
  have hn := hp.nodup_iff.mpr h.serials
  -- every chain there is now is one that was there before
  have hold : ∀ c' ∈ r'.all, ∃ c ∈ r.all, c.Remains c' := by
    intro c' hc'
    obtain ⟨c, hm, he⟩ := List.mem_map.mp (hp.subset (List.mem_map_of_mem (f := Chain.serial) hc'))
    obtain ⟨c'', hm', hr'⟩ := hr c hm
    rw [List.inj_on_of_nodup_map hn hc' hm' (he.symm.trans hr'.serial.symm)]
    exact ⟨c, hm, hr'⟩
  refine ⟨hs, hn, fun c' hc' => ?_, hi ▸ h.inherited, fun c' hc' => ?_, fun c' hc' => ?_, hd⟩
  · obtain ⟨c, hm, hr'⟩ := hold c' hc'
    rw [hr'.serial, hc]
    exact h.created c hm
  · obtain ⟨c, hm, hr'⟩ := hold c' hc'
    exact hr'.pipeline (h.pipeline c hm)
  · obtain ⟨c, hm, hr'⟩ := hold c' hc'
    exact hr'.delivers (h.delivers c hm)

/-- Changing chains one by one. -/
theorem Sound.map {f g : Chain → Chain} (h : r.Sound) (hf : ∀ c ∈ r.chains, c.Remains (f c))
    (hg : ∀ c ∈ r.retired, c.Remains (g c)) :
    ({ r with chains := r.chains.map f, retired := r.retired.map g } : ChainRegistry).Sound := by
  have serials {f : Chain → Chain} {l : List Chain} (hf : ∀ c ∈ l, c.Remains (f c)) :
      (l.map f).map Chain.serial = l.map Chain.serial := by
    rw [List.map_map]
    exact List.map_congr_left fun c hc => (hf c hc).serial
  refine h.keep ?_ ?_ rfl rfl (fun c hc => ?_) fun c' hc' => ?_
  · have hs : (r.chains.map f).map Chain.shardId = r.chains.map Chain.shardId := by
      rw [List.map_map]
      exact List.map_congr_left fun c hc => (hf c hc).shardId
    exact hs ▸ h.shards
  · rw [all, all, List.map_append, List.map_append, serials hf, serials hg]
  · rcases List.mem_append.mp hc with hc | hc
    · exact ⟨f c, List.mem_append_left _ (List.mem_map_of_mem hc), hf c hc⟩
    · exact ⟨g c, List.mem_append_right _ (List.mem_map_of_mem hc), hg c hc⟩
  · obtain ⟨c, hc, rfl⟩ := List.mem_map.mp hc'
    exact (hg c hc).shutDown (h.retired c hc)

theorem evolves_map {f g : Chain → Chain} (hf : ∀ c : Chain, c.Retains (f c))
    (hg : ∀ c : Chain, c.Retains (g c)) :
    r.Evolves { r with chains := r.chains.map f, retired := r.retired.map g } := by
  refine fun h => ⟨h.map (fun c _ => (hf c).toRemains) fun c _ => (hg c).toRemains, fun c hc => ?_⟩
  rcases List.mem_append.mp hc with hc | hc
  · exact ⟨f c, List.mem_append_left _ (List.mem_map_of_mem hc), hf c⟩
  · exact ⟨g c, List.mem_append_right _ (List.mem_map_of_mem hc), hg c⟩

theorem evolves_updateSerial {change : Chain → Chain} (h : ∀ c : Chain, c.Retains (change c))
    (serial : Nat) : r.Evolves (r.updateSerial serial change) := by
  have hc (c : Chain) : c.Retains (if c.serial = serial then change c else c) := by
    split
    · exact h c
    · exact .refl c
  exact evolves_map hc hc

theorem evolves_update {change : Chain → Chain} (h : ∀ c : Chain, c.Retains (change c))
    (shard : ShardId) : r.Evolves (r.update shard change) := by
  have hc (c : Chain) : c.Retains (if c.shardId = shard then change c else c) := by
    split
    · exact h c
    · exact .refl c
  have he := evolves_map (r := r) hc Retains.refl
  rwa [List.map_id'] at he

theorem evolves_takeFrom {α : Type} [Inhabited α] {taking : Replica → α × Replica}
    (h : ∀ r : Replica, (taking r).2.shardId = r.shardId) (serial : Nat) :
    r.Evolves (r.takeFrom serial taking).2 := by
  unfold takeFrom
  split
  · exact .refl r
  · exact evolves_updateSerial (fun c => retains_take (h c.replica)) serial

theorem evolves_remove (r : ChainRegistry) (shard : ShardId) : r.Evolves (r.remove shard).2 := by
  unfold remove
  split
  · exact .refl r
  · rename_i c hc
    intro h
    have hm := List.mem_of_find?_eq_some hc
    obtain rfl : c.shardId = shard := by simpa using List.find?_some hc
    have hp := perm_cons_filter_key h.shards hm
    have hold : ∀ d ∈ r.all,
        ∃ d' ∈ r.chains.filter (·.shardId ≠ c.shardId) ++ c.shutdown :: r.retired,
          d.Retains d' := by
      intro d hd
      rcases List.mem_append.mp hd with hd | hd
      · rcases List.mem_cons.mp (hp.subset hd) with rfl | hd
        · exact ⟨_, List.mem_append_right _ List.mem_cons_self, d.retains_shutdown⟩
        · exact ⟨d, List.mem_append_left _ hd, .refl d⟩
      · exact ⟨d, List.mem_append_right _ (List.mem_cons_of_mem _ hd), .refl d⟩
    refine ⟨h.keep ((List.filter_sublist.map _).nodup h.shards) ?_ rfl rfl (fun d hd => ?_)
      fun d hd => ?_, hold⟩
    · refine (List.perm_middle.map _).trans ?_
      rw [List.map_cons, c.retains_shutdown.serial, ← List.map_cons]
      exact ((hp.append_right r.retired).map _).symm
    · obtain ⟨d', hd', hr⟩ := hold d hd
      exact ⟨d', hd', hr.toRemains⟩
    · rcases List.mem_cons.mp hd with rfl | hd
      · exact c.shutDown_shutdown
      · exact h.retired d hd

theorem evolves_shutdownAll (r : ChainRegistry) : r.Evolves r.shutdownAll := by
  -- all are shut down, and then none is registered any more
  refine (evolves_map retains_shutdown Retains.refl).trans fun h => ?_
  rw [List.map_id'] at h ⊢
  refine ⟨⟨List.nodup_nil, h.serials, h.created, h.inherited, h.pipeline, h.delivers,
    fun c hc => ?_⟩, fun c hc => ⟨c, hc, .refl c⟩⟩
  rcases List.mem_append.mp hc with hc | hc
  · obtain ⟨c, -, rfl⟩ := List.mem_map.mp hc
    exact c.shutDown_shutdown
  · exact h.retired c hc

/-- A new chain gets in between the others. -/
theorem perm_chains_create {shard : ShardId} (hn : ¬(r.get? shard).isSome) :
    (r.create shard).chains.Perm
      (Chain.fresh r.created shard r.localId r.config r.signer r.pipeline :: r.chains) := by
  rw [create, if_neg hn, List.partition_eq_filter_filter]
  exact List.perm_middle.trans ((List.filter_append_perm _ r.chains).cons _)

theorem mem_chains_create (r : ChainRegistry) {c : Chain} (h : c ∈ r.chains) (shard : ShardId) :
    c ∈ (r.create shard).chains := by
  by_cases hn : (r.get? shard).isSome
  · rwa [create, if_pos hn]
  · exact (perm_chains_create hn).symm.subset (List.mem_cons_of_mem _ h)

theorem exists_chain_create (r : ChainRegistry) (shard : ShardId) :
    ∃ c ∈ (r.create shard).chains, c.shardId = shard := by
  by_cases hn : (r.get? shard).isSome
  · obtain ⟨c, hc⟩ := Option.isSome_iff_exists.mp hn
    exact ⟨c, r.mem_chains_create (List.mem_of_find?_eq_some hc) shard,
      by simpa using List.find?_some hc⟩
  · exact ⟨_, (perm_chains_create hn).symm.subset List.mem_cons_self, rfl⟩

/-- A new chain is the only one of its shard and has a serial number of its own. -/
theorem Sound.create (h : r.Sound) {shard : ShardId} (hn : ¬(r.get? shard).isSome) :
    (r.create shard).Sound := by
  have hp := perm_chains_create hn
  obtain ⟨hd, hc, hi⟩ : (r.create shard).retired = r.retired ∧
      (r.create shard).created = r.created + 1 ∧ (r.create shard).pipeline = r.pipeline := by
    rw [ChainRegistry.create, if_neg hn]
    exact ⟨rfl, rfl, rfl⟩
  have hall : (r.create shard).all.Perm
      (Chain.fresh r.created shard r.localId r.config r.signer r.pipeline :: r.all) := by
    rw [all, hd]
    exact hp.append_right r.retired
  have hnew : shard ∉ r.chains.map Chain.shardId := by
    intro hm
    obtain ⟨c, hc, he⟩ := List.mem_map.mp hm
    exact hn (List.find?_isSome.mpr ⟨c, hc, decide_eq_true he⟩)
  have hser : r.created ∉ r.all.map Chain.serial := by
    intro hm
    obtain ⟨c, hc, he⟩ := List.mem_map.mp hm
    exact absurd (h.created c hc) (by rw [he]; exact Nat.lt_irrefl _)
  -- what holds of the new chain and of the others holds of all
  have hevery {P : Chain → Prop}
      (hf : P (Chain.fresh r.created shard r.localId r.config r.signer r.pipeline))
      (ho : ∀ c ∈ r.all, P c) : ∀ c ∈ (r.create shard).all, P c :=
    fun c hc => (List.mem_cons.mp (hall.subset hc)).elim (fun he => he ▸ hf) (ho c)
  constructor
  case shards => exact (hp.map _).nodup_iff.mpr (List.nodup_cons.mpr ⟨hnew, h.shards⟩)
  case serials => exact (hall.map _).nodup_iff.mpr (List.nodup_cons.mpr ⟨hser, h.serials⟩)
  case created =>
    rw [hc]
    exact hevery (Nat.lt_succ_self _) fun c hm => Nat.lt_succ_of_lt (h.created c hm)
  case inherited => exact hi ▸ h.inherited
  case pipeline => exact hevery h.inherited h.pipeline
  case delivers => exact hevery nofun h.delivers
  case retired => exact hd ▸ h.retired

theorem evolves_create (r : ChainRegistry) (shard : ShardId) : r.Evolves (r.create shard) := by
  by_cases hn : (r.get? shard).isSome
  · rw [create, if_pos hn]
    exact .refl r
  · refine fun h => ⟨h.create hn, fun c hc => ⟨c, ?_, .refl c⟩⟩
    have hd : (r.create shard).retired = r.retired := by rw [create, if_neg hn]
    rw [all, hd]
    exact (List.mem_append.mp hc).elim
      (fun hc => List.mem_append_left _ (r.mem_chains_create hc shard)) (List.mem_append_right _)

/-! ### A delivery -/

theorem all_updateSerial (change : Chain → Chain) (serial : Nat) :
    (r.updateSerial serial change).all =
      r.all.map fun c => if c.serial = serial then change c else c :=
  List.map_append.symm

theorem bySerial?_updateSerial (r : ChainRegistry) (change : Chain → Chain)
    (h : ∀ c : Chain, c.serial = serial → (change c).serial = serial) (s : Nat) :
    (r.updateSerial serial change).bySerial? s =
      (r.bySerial? s).map fun c => if c.serial = serial then change c else c := by
  rw [ChainRegistry.bySerial?, all_updateSerial, List.find?_map, ChainRegistry.bySerial?]
  congr 2
  funext c
  rw [Function.comp_apply]
  split
  · rename_i hc
    rw [h c hc, hc]
  · rfl

/-- A chain delivers while its delivery loop lasts, and what it delivers is the head of its
queue. -/
theorem takeCommitted?_eq_some {c c' : Chain} {event : Event} :
    c.takeCommitted? = some (event, c') ↔ Loop.delivery ∈ c.loops ∧
      ∃ rest, c.committed = event :: rest ∧ c' = { c with committed := rest } := by
  unfold takeCommitted?
  rw [← List.contains_iff_mem]
  constructor
  · intro h
    split at h
    · rename_i hr he
      cases h
      exact ⟨hr, _, he, rfl⟩
    · cases h
  · rintro ⟨hr, rest, he, rfl⟩
    split
    · rename_i he'
      obtain ⟨rfl, rfl⟩ := List.cons.inj (he'.symm.trans he)
      rfl
    · rename_i hn
      exact absurd he (hn event rest hr)

/-- A delivery takes the head of one queue and leaves the others. -/
theorem Sound.pop (h : r.Sound) {c : Chain} (hc : c ∈ r.all) {event : Event} {rest : List Event}
    (he : c.committed = event :: rest) :
    (r.updateSerial c.serial fun _ => { c with committed := rest }).Sound ∧
      (∀ d ∈ r.all, ∃ d' ∈ (r.updateSerial c.serial fun _ => { c with committed := rest }).all,
        d.Remains d') ∧
      ∀ s, r.waiting s = (if s = c.serial then [event] else []) ++
        (r.updateSerial c.serial fun _ => { c with committed := rest }).waiting s := by
  have hp : ∀ d ∈ r.all,
      d.Remains (if d.serial = c.serial then { c with committed := rest } else d) := by
    intro d hd
    split
    · rename_i hs
      rw [List.inj_on_of_nodup_map h.serials hd hc hs]
      exact ⟨rfl, rfl, id, id, fun _ => List.Subset.refl _, id⟩
    · exact .refl d
  refine ⟨h.map (fun d hd => hp d (List.mem_append_left _ hd)) fun d hd =>
    hp d (List.mem_append_right _ hd), fun d hd => ⟨_, ?_, hp d hd⟩, fun s => ?_⟩
  · rw [all_updateSerial]
    exact List.mem_map_of_mem hd
  have hb := r.bySerial?_updateSerial (fun _ => { c with committed := rest }) (fun _ _ => rfl) s
  rw [waiting, waiting, hb]
  by_cases hs : s = c.serial
  · rw [hs, h.bySerial? hc]
    simp [he]
  · cases hb : r.bySerial? s with
    | none => simp [hs]
    | some d => simp [hs, (mem_of_bySerial? hb).2]

end ChainRegistry

end ShardGossip

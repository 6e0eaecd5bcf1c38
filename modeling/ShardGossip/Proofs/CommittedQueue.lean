import Mathlib
import ShardGossip.Proofs.Carryover

/-!
# ShardGossip.Proofs.CommittedQueue

**What a chain commits is delivered once and in order, as long as its delivery loop lasts.**
Whatever a node's chains do, and however shards are opened, split and merged meanwhile, all that was
put on the queue of a chain is what was handed to the pipeline so far, followed by what waits still
(`QueueHistory.handed_over`). The delivery loop of a chain that was shut down may go on with what
waits, but it may just as well end before: then the rest is handed to nobody, and nobody proposes it
again (`QueueHistory.lost_by_split`).

Mathlib is imported as a whole because that run, which sorts contracts, is evaluated with equations
of text, byte arrays and maps from all over it.
-/

namespace ShardGossip

namespace ShardManager

open Chain ChainRegistry

variable {m m' m'' : ShardManager}

/-! ### The table does not touch the queues -/

/-- The chains go on. -/
def Evolves (m m' : ShardManager) : Prop :=
  m.chains.Evolves m'.chains

theorem Evolves.refl (m : ShardManager) : m.Evolves m :=
  ChainRegistry.Evolves.refl m.chains

theorem Evolves.trans (h : m.Evolves m') (h' : m'.Evolves m'') : m.Evolves m'' :=
  ChainRegistry.Evolves.trans h h'

theorem evolves_of_chains {chains : ChainRegistry} (h : m.chains.Evolves chains) :
    m.Evolves { m with chains := chains } :=
  h

theorem evolves_foldl {α : Type} {f : ShardManager → α → ShardManager}
    (h : ∀ (m : ShardManager) (a : α), m.Evolves (f m a)) (as : List α) (m : ShardManager) :
    m.Evolves (as.foldl f m) := by
  induction as generalizing m with
  | nil => exact .refl m
  | cons a rest ih => exact (h m a).trans (ih _)

theorem evolves_syncChain (m : ShardManager) (shard : ShardId) (members : List NodeId) :
    m.Evolves (m.syncChain shard members) := by
  refine (m.chains.evolves_create shard).trans (evolves_update (fun c => ?_) shard)
  dsimp only
  split
  · exact (c.retains_setMembers members).trans (retains_run _)
  · exact c.retains_setMembers members

theorem evolves_assign {contract : Contract} {shard : ShardId}
    (h : m.assign contract = .ok (shard, m')) : m.Evolves m' := by
  unfold assign at h
  cases ht : m.table.assign m.config contract with
  | error e => rw [ht] at h; cases h
  | ok placed =>
      rw [ht] at h
      cases h
      split
      · exact evolves_syncChain { m with table := placed.2 } _ _
      · exact .refl m

theorem evolves_createShard (m : ShardManager) : m.Evolves m.createShard.2 :=
  evolves_syncChain { m with table := _ } _ _

theorem evolves_placeNode (m : ShardManager) (node : Placement) :
    m.Evolves (m.placeNode node).2 := by
  unfold placeNode
  split
  · exact .refl m
  · exact evolves_syncChain { m with table := _ } _ _

theorem evolves_openHalf (own : List Transaction) (m : ShardManager)
    (half : ShardId × List NodeId) : m.Evolves (m.openHalf own half) := by
  have hs := m.evolves_syncChain half.1 half.2
  unfold openHalf
  dsimp only
  split
  · exact hs.trans (evolves_update (retains_absorb · own) half.1)
  · exact hs

theorem evolves_followSplit (m : ShardManager) (plan : SplitPlan) :
    m.Evolves (m.followSplit plan) := by
  have hr := m.chains.evolves_remove plan.parent
  unfold followSplit
  generalize m.chains.remove plan.parent = removed at hr ⊢
  obtain ⟨chain, chains⟩ := removed
  dsimp only at hr ⊢
  refine Evolves.trans ?_ (evolves_foldl (evolves_openHalf _) _ _)
  refine (evolves_of_chains hr).trans ?_
  cases chain with
  | none => exact .refl _
  | some c =>
      dsimp only
      split
      · exact evolves_of_chains (evolves_takeFrom (fun r => rfl) c.serial)
      · exact .refl _

theorem evolves_checkSplit (m : ShardManager) : m.Evolves m.checkSplit.2 :=
  evolves_foldl evolves_followSplit (m.table.split m.config).1
    { m with table := (m.table.split m.config).2 }

theorem evolves_logLoad {shard : ShardId} {contract : ContractId} {plans : List SplitPlan}
    (h : m.logLoad shard contract = .ok (plans, m')) : m.Evolves m' := by
  unfold logLoad at h
  cases ht : m.table.count shard contract with
  | error e => rw [ht] at h; cases h
  | ok table =>
      rw [ht] at h
      cases h
      exact evolves_checkSplit { m with table := table }

theorem evolves_applyCommitted (m : ShardManager) (transaction : Transaction) :
    m.Evolves (m.applyCommitted transaction) := by
  unfold applyCommitted
  split
  · exact .refl m
  · split
    · split
      · rename_i h
        exact evolves_assign h
      · exact .refl m
    · split
      · exact .refl m
      · split
        · exact .refl m
        · split
          · rename_i h
            exact evolves_logLoad h
          · exact .refl m

theorem evolves_deliver (m : ShardManager) (pipeline : Pipeline) (shard : ShardId)
    (transactions : List Transaction) : m.Evolves (m.deliver pipeline shard transactions) := by
  unfold deliver
  split
  · exact .refl m
  · have ha := evolves_foldl evolves_applyCommitted transactions m
    unfold track
    dsimp only
    split
    · exact ha
    · exact ha

theorem evolves_forward (m : ShardManager) (shard : ShardId) (transactions : List Transaction) :
    m.Evolves (m.forward shard transactions) := by
  unfold forward
  split
  · exact .refl m
  · split
    · exact m.evolves_deliver _ shard transactions
    · exact .refl m

theorem evolves_carryOver (m : ShardManager) (plan : MergePlan) (dissolved : Nat) :
    m.Evolves (m.carryOver plan dissolved) := by
  have hr : m.chains.Evolves (m.chains.takeFrom dissolved (·.takeResponses)).2 :=
    evolves_takeFrom (fun r => rfl) dissolved
  unfold carryOver
  generalize m.chains.takeFrom dissolved (·.takeResponses) = taken at hr ⊢
  obtain ⟨responses, chains⟩ := taken
  dsimp only at hr ⊢
  have hf : m.Evolves ({ m with chains := chains }.forward plan.dissolved responses) :=
    (evolves_of_chains hr).trans (evolves_forward _ _ _)
  generalize ({ m with chains := chains }.forward plan.dissolved responses) = m' at hf ⊢
  refine hf.trans ?_
  split
  · -- the survivor's chain takes the events over
    have hp (r : ChainRegistry) : r.Evolves (r.takeFrom dissolved (·.takePendingEvents)).2 :=
      evolves_takeFrom (fun r => rfl) dissolved
    have hl (r : ChainRegistry) : r.Evolves (r.takeFrom dissolved (·.takeLeftovers)).2 :=
      evolves_takeFrom (fun r => rfl) dissolved
    refine (hp _).trans ((hl _).trans ?_)
    exact evolves_update (fun c => (c.works_merge _).retains.trans (retains_absorb _ _)) _
  · have ht : m'.chains.Evolves (m'.chains.takeFrom dissolved
        (if plan.isBridged then (·.takeLeftovers) else (·.takeOwnTransactions))).2 :=
      evolves_takeFrom (fun r => by split <;> rfl) dissolved
    generalize m'.chains.takeFrom dissolved
      (if plan.isBridged then (·.takeLeftovers) else (·.takeOwnTransactions)) = taken at ht ⊢
    obtain ⟨carried, chains⟩ := taken
    dsimp only at ht ⊢
    split
    · exact ht
    · refine ChainRegistry.Evolves.trans ht (evolves_update (fun c => ?_) _)
      cases ho : c.handOff? carried with
      | none => exact c.retains_absorb carried
      | some c' => exact (works_handOff ho).retains

theorem evolves_followMerge (m : ShardManager) (plan : MergePlan) :
    m.Evolves (m.followMerge plan) := by
  have hr := m.chains.evolves_remove plan.dissolved
  unfold followMerge
  generalize m.chains.remove plan.dissolved = removed at hr ⊢
  obtain ⟨chain, chains⟩ := removed
  dsimp only at hr ⊢
  have hs := (evolves_of_chains hr).trans (evolves_syncChain _ plan.survivor
    (plan.survivorMembers ++ plan.dissolvedMembers))
  cases chain with
  | none => exact hs
  | some c =>
      dsimp only
      split
      · exact hs.trans (evolves_carryOver _ plan c.serial)
      · exact hs

theorem evolves_mergeLatest {plan : MergePlan} (h : m.mergeLatest = .ok (plan, m')) :
    m.Evolves m' := by
  unfold mergeLatest at h
  cases ht : m.table.merge with
  | error e => rw [ht] at h; cases h
  | ok merged =>
      rw [ht] at h
      cases h
      exact evolves_followMerge { m with table := merged.2 } merged.1

theorem evolves_checkMerge (m : ShardManager) : m.Evolves m.checkMerge.2 := by
  unfold checkMerge
  split
  · split
    · rename_i h
      exact evolves_mergeLatest h
    · exact .refl m
  · exact .refl m

/-! ### What happens to the chains -/

/-- Something that happens to the chains of a node. -/
inductive Deed where
  /-- A chain seals an event if a tick is due. -/
  | tick (serial now wall : Nat)
  /-- A chain runs the elections that were asked for, or sends again what may have got lost. -/
  | elect (serial now : Nat)
  /-- A chain delivers its next committed event. -/
  | deliver (serial : Nat)
  /-- A chain handles a packet from a member. -/
  | packet (serial : Nat) (sender : NodeId) (packet : Packet)
  /-- A connection is attached to a chain. -/
  | attach (serial : Nat) (socket : PeerSocket)
  | read (serial connection : Nat)
  /-- A chain handles what was read from a connection. -/
  | handle (serial connection : Nat)
  | write (serial connection : Nat)
  | submit (shard : ShardId) (transaction : Transaction)
  | placeNode (node : Placement)
  | assign (contract : Contract)
  | createShard
  /-- A transaction is counted against a contract. -/
  | logLoad (shard : ShardId) (contract : ContractId)
  | checkSplit
  | mergeLatest
  | checkMerge
  /-- All chains are shut down. -/
  | shutdown
  /-- A loop of a chain that was shut down ends. -/
  | finish (serial : Nat) (loop : Loop)

/-- Does it. What is refused changes nothing. -/
def act (m : ShardManager) : Deed → ShardManager
  | .tick serial now wall => m.updateChains (·.updateSerial serial (·.tick now wall))
  | .elect serial now => m.updateChains (·.updateSerial serial (·.elect now))
  | .deliver serial => m.deliverNext serial
  | .packet serial sender packet =>
    m.updateChains (·.updateSerial serial (·.handlePacket sender packet))
  | .attach serial socket => m.updateChains (·.updateSerial serial fun c => (c.attach socket).2)
  | .read serial connection => m.updateChains (·.updateSerial serial (·.read connection))
  | .handle serial connection => m.updateChains (·.updateSerial serial (·.handle connection))
  | .write serial connection => m.updateChains (·.updateSerial serial (·.write connection))
  | .submit shard transaction => m.updateChains (·.update shard (·.submit transaction))
  | .placeNode node => (m.placeNode node).2
  | .assign contract =>
    match m.assign contract with
    | .ok (_, m') => m'
    | .error _ => m
  | .createShard => m.createShard.2
  | .logLoad shard contract =>
    match m.logLoad shard contract with
    | .ok (_, m') => m'
    | .error _ => m
  | .checkSplit => m.checkSplit.2
  | .mergeLatest =>
    match m.mergeLatest with
    | .ok (_, m') => m'
    | .error _ => m
  | .checkMerge => m.checkMerge.2
  | .shutdown => m.updateChains (·.shutdownAll)
  | .finish serial loop => m.updateChains (·.updateSerial serial (·.finish loop))

/-- The committed events of a chain that wait for their delivery. -/
def waiting (m : ShardManager) (serial : Nat) : List Event :=
  m.chains.waiting serial

/-- The event of a chain that is handed over to its pipeline. -/
def handsOver (m : ShardManager) : Deed → (serial : Nat) → List Event
  | .deliver chain, serial =>
    if serial = chain then
      ((m.chains.bySerial? chain >>= takeCommitted?).map (·.1)).toList
    else []
  | _, _ => []

theorem handsOver_deliver (m : ShardManager) (chain serial : Nat) :
    m.handsOver (.deliver chain) serial = if serial = chain then
      ((m.chains.bySerial? chain >>= takeCommitted?).map (·.1)).toList else [] :=
  rfl

theorem evolves_act {deed : Deed} (h : ∀ serial, deed ≠ .deliver serial) :
    m.Evolves (m.act deed) := by
  cases deed with
  | tick serial now wall =>
      exact evolves_updateSerial (fun c => (c.works_tick now wall).retains) serial
  | elect serial now => exact evolves_updateSerial (fun c => (c.works_elect now).retains) serial
  | deliver serial => exact absurd rfl (h serial)
  | packet serial sender packet =>
      exact evolves_updateSerial (fun c => (c.works_handlePacket sender packet).retains) serial
  | attach serial socket =>
      exact evolves_updateSerial (fun c => (c.proceeds_attach socket).retains) serial
  | read serial connection =>
      exact evolves_updateSerial (fun c => (c.proceeds_read connection).retains) serial
  | handle serial connection =>
      exact evolves_updateSerial (fun c => (c.works_handle connection).retains) serial
  | write serial connection =>
      exact evolves_updateSerial (fun c => (c.works_write connection).retains) serial
  | submit shard transaction =>
      exact evolves_update (retains_submit · transaction) shard
  | placeNode node => exact m.evolves_placeNode node
  | assign contract =>
      unfold act
      dsimp only
      split
      · rename_i ha
        exact evolves_assign ha
      · exact .refl m
  | createShard => exact m.evolves_createShard
  | logLoad shard contract =>
      unfold act
      dsimp only
      split
      · rename_i hl
        exact evolves_logLoad hl
      · exact .refl m
  | checkSplit => exact m.evolves_checkSplit
  | mergeLatest =>
      unfold act
      dsimp only
      split
      · rename_i hm
        exact evolves_mergeLatest hm
      · exact .refl m
  | checkMerge => exact m.evolves_checkMerge
  | shutdown => exact m.chains.evolves_shutdownAll
  | finish serial loop => exact evolves_updateSerial (retains_finish · loop) serial

/-- As long as the delivery loop of a chain lasts, a delivery hands the head of the queue to the
pipeline. -/
theorem deliverNext_eq (h : m.chains.Sound) {c : Chain} (hc : c ∈ m.chains.all)
    (hl : Loop.delivery ∈ c.loops) {event : Event} {rest : List Event}
    (he : c.committed = event :: rest) :
    m.handsOver (.deliver c.serial) c.serial = [event] ∧
      ∃ pipeline, c.pipeline = some pipeline ∧ m.deliverNext c.serial =
        (m.updateChains (·.updateSerial c.serial fun _ => { c with committed := rest })).deliver
          pipeline c.shardId event.transactions := by
  have ht := takeCommitted?_eq_some.mpr ⟨hl, rest, he, rfl⟩
  obtain ⟨pipeline, hp⟩ := Option.isSome_iff_exists.mp (h.pipeline c hc)
  refine ⟨?_, pipeline, hp, ?_⟩
  · rw [handsOver_deliver, if_pos rfl, h.bySerial? hc, Option.bind_eq_bind, Option.bind_some, ht]
    rfl
  · unfold deliverNext
    rw [h.bySerial? hc]
    dsimp only
    rw [ht]
    dsimp only
    rw [hp]

/-- A chain whose delivery loop has ended hands over nothing. -/
theorem handsOver_ended (h : m.chains.Sound) {c : Chain} (hc : c ∈ m.chains.all)
    (hl : Loop.delivery ∉ c.loops) (deed : Deed) : m.handsOver deed c.serial = [] := by
  unfold handsOver
  split
  · split
    · rename_i serial he
      have hn : c.takeCommitted? = none := by
        refine Option.eq_none_iff_forall_ne_some.mpr fun taken ht => hl ?_
        exact (takeCommitted?_eq_some.mp ht).1
      rw [← he, h.bySerial? hc, Option.bind_eq_bind, Option.bind_some, hn]
      rfl
    · rfl
  · rfl

/-- What happened to the chains while some events were handed over. -/
structure Passes (m m' : ShardManager) (handed : (serial : Nat) → List Event) : Prop where
  sound : m'.chains.Sound
  remains : ∀ c ∈ m.chains.all, ∃ c' ∈ m'.chains.all, c.Remains c'
  /-- What is handed over is the front of a queue, and the rest stays there in its order. -/
  waiting : ∀ serial, ∃ rest,
    m.waiting serial = handed serial ++ rest ∧ rest <+: m'.waiting serial

theorem Evolves.passes (h : m.Evolves m') (hs : m.chains.Sound) :
    m.Passes m' fun _ => [] := by
  obtain ⟨hs', hr⟩ := h hs
  refine ⟨hs', fun c hc => ?_, fun serial => ⟨_, rfl, ChainRegistry.Evolves.waiting h hs serial⟩⟩
  obtain ⟨c', hc', hr⟩ := hr c hc
  exact ⟨c', hc', hr.toRemains⟩

theorem Passes.trans_evolves {handed : (serial : Nat) → List Event} (h : m.Passes m' handed)
    (h' : m'.Evolves m'') : m.Passes m'' handed := by
  obtain ⟨hs, hr'⟩ := h' h.sound
  refine ⟨hs, fun c hc => ?_, fun serial => ?_⟩
  · obtain ⟨c₁, hc₁, hr₁⟩ := h.remains c hc
    obtain ⟨c₂, hc₂, hr₂⟩ := hr' c₁ hc₁
    exact ⟨c₂, hc₂, hr₁.trans hr₂.toRemains⟩
  · obtain ⟨rest, he, hp⟩ := h.waiting serial
    exact ⟨rest, he, hp.trans (ChainRegistry.Evolves.waiting h' h.sound serial)⟩

/-- When nothing is there to be taken, nothing happens. -/
theorem deliverNext_eq_self {chain : Nat}
    (h : (m.chains.bySerial? chain >>= takeCommitted?) = none) : m.deliverNext chain = m := by
  unfold deliverNext
  cases hb : m.chains.bySerial? chain with
  | none => rfl
  | some c =>
      rw [hb, Option.bind_eq_bind, Option.bind_some] at h
      dsimp only
      rw [h]

theorem passes_deliver (h : m.chains.Sound) (chain : Nat) :
    m.Passes (m.deliverNext chain) (m.handsOver (.deliver chain)) := by
  cases ht : m.chains.bySerial? chain >>= takeCommitted? with
  | none =>
      have hn : m.handsOver (.deliver chain) = fun _ => [] := by
        funext serial
        rw [handsOver_deliver, ht]
        exact ite_self _
      rw [deliverNext_eq_self ht, hn]
      exact (Evolves.refl m).passes h
  | some taken =>
      obtain ⟨c, hb, ht'⟩ := Option.bind_eq_some_iff.mp ht
      obtain ⟨hc, rfl⟩ := mem_of_bySerial? hb
      obtain ⟨event, c'⟩ := taken
      obtain ⟨hl, rest, he, rfl⟩ := takeCommitted?_eq_some.mp ht'
      obtain ⟨-, pipeline, hp, hd⟩ := deliverNext_eq h hc hl he
      obtain ⟨hs, hk, hw⟩ := h.pop hc he
      rw [hd]
      refine Passes.trans_evolves ⟨hs, hk, fun serial => ⟨_, ?_, List.prefix_refl _⟩⟩
        (evolves_deliver _ pipeline c.shardId event.transactions)
      rw [handsOver_deliver, ht]
      exact hw serial

/-- Whatever happens. -/
theorem passes_act (h : m.chains.Sound) (deed : Deed) :
    m.Passes (m.act deed) (m.handsOver deed) := by
  by_cases hd : ∃ serial, deed = .deliver serial
  · obtain ⟨serial, rfl⟩ := hd
    exact passes_deliver h serial
  · have he := (evolves_act (m := m) fun serial hs => hd ⟨serial, hs⟩).passes h
    cases deed <;> first | exact he | exact absurd ⟨_, rfl⟩ hd

end ShardManager

/-! ### Histories -/

/-- The chains of a node with what was put on their queues and what was handed over so far. -/
structure QueueHistory where
  manager : ShardManager
  queued : (serial : Nat) → List Event
  handed : (serial : Nat) → List Event

namespace QueueHistory

/-- The beginning: no chain was created, and committed events are to go to a pipeline. -/
def start (localId : NodeId) (chains : ChainConfig) (sharding : ShardingConfig) (signer : Signer)
    (pipeline : Pipeline) (forwards : Bool) : QueueHistory where
  manager := { ShardManager.fresh sharding
    ((ChainRegistry.fresh localId chains signer).register pipeline) with forwards := forwards }
  queued _ := []
  handed _ := []

/-- One thing happens. What is put on a queue is what stands there behind all that waited before,
without what was handed over. -/
def next (h : QueueHistory) (deed : ShardManager.Deed) : QueueHistory where
  manager := h.manager.act deed
  queued serial := h.queued serial ++ ((h.manager.act deed).waiting serial).drop
    ((h.manager.waiting serial).length - (h.manager.handsOver deed serial).length)
  handed serial := h.handed serial ++ h.manager.handsOver deed serial

/-- Several things happen. -/
def run (h : QueueHistory) (deeds : List ShardManager.Deed) : QueueHistory :=
  deeds.foldl next h

/-- The chains are sound, and what was put on a queue was handed over or waits. -/
structure Balanced (h : QueueHistory) : Prop where
  sound : h.manager.chains.Sound
  balance : ∀ serial, h.queued serial = h.handed serial ++ h.manager.waiting serial

theorem Balanced.next {h : QueueHistory} (hb : h.Balanced) (deed : ShardManager.Deed) :
    (h.next deed).Balanced := by
  have hp := ShardManager.passes_act hb.sound deed
  refine ⟨hp.sound, fun serial => ?_⟩
  obtain ⟨rest, he, new, hn⟩ := hp.waiting serial
  show h.queued serial ++ _ = (h.handed serial ++ _) ++ (h.manager.act deed).waiting serial
  rw [hb.balance, he, ← hn, List.length_append, Nat.add_sub_cancel_left, List.drop_left]
  simp only [List.append_assoc]

theorem Balanced.run {h : QueueHistory} (hb : h.Balanced) (deeds : List ShardManager.Deed) :
    (h.run deeds).Balanced := by
  induction deeds generalizing h with
  | nil => exact hb
  | cons deed rest ih => exact ih (hb.next deed)

theorem balanced_start (localId : NodeId) (chains : ChainConfig) (sharding : ShardingConfig)
    (signer : Signer) (pipeline : Pipeline) (forwards : Bool) :
    (start localId chains sharding signer pipeline forwards).Balanced :=
  { sound := {
      shards := List.nodup_nil
      serials := List.nodup_nil
      created := List.forall_mem_nil _
      inherited := rfl
      pipeline := List.forall_mem_nil _
      delivers := List.forall_mem_nil _
      retired := List.forall_mem_nil _ }
    balance := fun _ => rfl }

/-- Once a chain is shut down and its delivery loop has ended, nothing of it is handed over any
more. -/
theorem Balanced.handed_run {h : QueueHistory} (hb : h.Balanced) {c : Chain}
    (hc : c ∈ h.manager.chains.all) (hd : c.shutDown) (hl : Loop.delivery ∉ c.loops)
    (deeds : List ShardManager.Deed) :
    (h.run deeds).handed c.serial = h.handed c.serial := by
  induction deeds generalizing h c with
  | nil => rfl
  | cons deed rest ih =>
      obtain ⟨c', hc', hr⟩ := (ShardManager.passes_act hb.sound deed).remains c hc
      have hn := ih (hb.next deed) hc' (hr.shutDown hd) fun h => hl (hr.ended hd h)
      rw [hr.serial] at hn
      refine hn.trans ?_
      show h.handed c.serial ++ h.manager.handsOver deed c.serial = h.handed c.serial
      rw [ShardManager.handsOver_ended hb.sound hc hl, List.append_nil]

/-- What becomes of the events that the chains of a node commit. -/
structure Accounted (h : QueueHistory) : Prop where
  /-- Everything on a queue was handed over, once and in order, up to what waits still. -/
  once : ∀ serial, h.queued serial = h.handed serial ++ h.manager.waiting serial
  /-- A chain that runs has its delivery loop. -/
  runs : ∀ c ∈ h.manager.chains.all, c.running → Loop.delivery ∈ c.loops
  /-- As long as its delivery loop lasts, a chain can hand over what waits first, and its pipeline
  gets just that. -/
  delivers : ∀ c ∈ h.manager.chains.all, Loop.delivery ∈ c.loops →
    ∀ event rest, c.committed = event :: rest →
    h.manager.handsOver (.deliver c.serial) c.serial = [event] ∧
      ∃ pipeline, c.pipeline = some pipeline ∧ h.manager.act (.deliver c.serial) =
        (h.manager.updateChains (·.updateSerial c.serial fun _ =>
          { c with committed := rest })).deliver pipeline c.shardId event.transactions
  /-- The loops of a chain that was taken out may end at any time. -/
  ends : ∀ c ∈ h.manager.chains.retired, ∀ loop, c.finish loop ∈
    (h.manager.act (.finish c.serial loop)).chains.retired ∧ loop ∉ (c.finish loop).loops
  /-- Once the delivery loop of a chain that was taken out has ended, nothing of it is handed over
  any more, whatever happens then. -/
  ended : ∀ c ∈ h.manager.chains.retired, Loop.delivery ∉ c.loops → ∀ deeds,
    (h.run deeds).handed c.serial = h.handed c.serial
  /-- When a shard is split, what the node sealed itself and has pending goes on in its half. -/
  carried : ∀ (plan : SplitPlan) (c : Chain), h.manager.chains.get? plan.parent = some c →
    plan.members.contains h.manager.localId → ∀ half ∈ plan.halves,
      half.2.contains h.manager.localId → ∀ e ∈ c.replica.store.pendingEvents,
        e.origin = c.localId → ∀ t ∈ e.transactions,
          (h.manager.followSplit plan).Proposes half.1 t

/-- **Committed events are handed over once and in order, or wait**, whatever the chains of a node
do and however shards are opened, split and merged meanwhile. -/
theorem handed_over (localId : NodeId) (chains : ChainConfig) (sharding : ShardingConfig)
    (signer : Signer) (pipeline : Pipeline) (forwards : Bool) (deeds : List ShardManager.Deed) :
    ((start localId chains sharding signer pipeline forwards).run deeds).Accounted := by
  have hb := (balanced_start localId chains sharding signer pipeline forwards).run deeds
  constructor
  case once => exact hb.balance
  case runs => exact fun c hc hr => (hb.sound.delivers c hc hr).2
  case delivers => exact fun c hc hl event rest he => ShardManager.deliverNext_eq hb.sound hc hl he
  case ends =>
    intro c hc loop
    refine ⟨List.mem_map.mpr ⟨c, hc, if_pos rfl⟩, ?_⟩
    rw [Chain.finish, if_pos (hb.sound.retired c hc)]
    exact fun hm => by simpa using List.of_mem_filter hm
  case ended =>
    intro c hc hl
    exact hb.handed_run (List.mem_append_right _ hc) (hb.sound.retired c hc) hl
  case carried =>
    intro plan c hc hm half hh hl e he ho t ht
    exact ShardManager.proposes_followSplit hb.sound hc hm hh hl he ho ht

/-- A node alone in its shard has committed one transaction, which waits, and sealed another. The
first is what a delivery would hand over now, and a split would carry the second over. -/
theorem handed_over_halfway :
    let h := (start ⟨"a"⟩ .default .default (.labelled ⟨"a"⟩) .tracker true).run
      [.placeNode ⟨⟨"a"⟩, none, 1⟩, .submit ⟨0⟩ ⟨"x", [1], none⟩, .tick 0 0 5, .elect 0 0,
        .submit ⟨0⟩ ⟨"x", [2], none⟩, .tick 0 100 6]
    (h.handed 0 = [] ∧ h.queued 0 = h.manager.waiting 0) ∧
      (h.manager.handsOver (.deliver 0) 0).map (·.transactions) = [[⟨"x", [1], none⟩]] ∧
      (h.manager.followSplit ⟨⟨0⟩, [⟨"a"⟩], (⟨1⟩, [⟨"a"⟩]), (⟨2⟩, [])⟩).Proposes ⟨1⟩
        ⟨"x", [2], none⟩ := by
  intro h
  have ha : h.Accounted := handed_over ⟨"a"⟩ .default .default (.labelled ⟨"a"⟩) .tracker true _
  obtain ⟨c, hg⟩ : ∃ c, h.manager.chains.get? ⟨0⟩ = some c :=
    Option.isSome_iff_exists.mp (by decide +kernel)
  have hc : (h.manager.chains.get? ⟨0⟩).map (fun c => (c.serial, c.running, c.localId)) =
    some (0, true, ⟨"a"⟩) := by decide +kernel
  have hq : (h.manager.chains.get? ⟨0⟩).map (·.committed.map (·.transactions)) =
    some [[⟨"x", [1], none⟩]] := by decide +kernel
  have hp : (h.manager.chains.get? ⟨0⟩).map (·.replica.store.pendingEvents.map fun e =>
    (e.origin, e.transactions)) = some [(⟨"a"⟩, [⟨"x", [2], none⟩])] := by decide +kernel
  rw [hg, Option.map_some, Option.some_inj] at hc hq hp
  simp only [Prod.mk.injEq] at hc
  obtain ⟨hs, hr, hl⟩ := hc
  obtain ⟨event, he, ht⟩ := List.map_eq_singleton_iff.mp hq
  obtain ⟨e, hp, hx⟩ := List.map_eq_singleton_iff.mp hp
  obtain ⟨ho, hx⟩ := Prod.mk.inj hx
  have hn : h.handed 0 = [] := by decide +kernel
  refine ⟨⟨hn, by rw [ha.once 0, hn, List.nil_append]⟩, ?_, ?_⟩
  · have hm : c ∈ h.manager.chains.all := List.mem_append_left _ (List.mem_of_find?_eq_some hg)
    have hd := (ha.delivers c hm (ha.runs c hm hr) event [] he).1
    rw [hs] at hd
    rw [hd, List.map_singleton, ht]
  · exact ha.carried _ c hg (by decide +kernel) (⟨1⟩, [⟨"a"⟩]) List.mem_cons_self
      (by decide +kernel) e (by rw [hp]; exact List.mem_cons_self) (ho.trans hl.symm) _
      (by rw [hx]; exact List.mem_cons_self)

/-- A node is alone in a shard with two contracts. The shard's chain commits a transaction whose
delivery makes the shard split, and behind it the assignment of a third contract. -/
def splitEarly : QueueHistory :=
  (start ⟨"a"⟩ .default ⟨4, 1, 0, 5⟩ (.labelled ⟨"a"⟩) .tracker false).run
    [.placeNode ⟨⟨"a"⟩, none, 1⟩, .assign (.unplaced "c" 0), .assign (.unplaced "d" 0),
      .submit ⟨0⟩ ⟨"x", [1], some "c"⟩, .tick 0 0 5, .submit ⟨0⟩ (.assignment "e"), .tick 0 100 6,
      .elect 0 100, .deliver 0]

/-- **The loops of a chain can end while events wait.** Here the split has shut the chain down, and
its loops end before they do anything else. Whatever happens then, the assignment is never
delivered; it is proposed nowhere, and its contract has no shard. -/
theorem lost_by_split :
    let h := splitEarly.run [.finish 0 .tick, .finish 0 .election, .finish 0 .delivery]
    h.manager.chains.retired.map (fun c => (c.serial, c.loops)) = [(0, [])] ∧
      (h.queued 0).map (·.transactions) = [[⟨"x", [1], some "c"⟩], [.assignment "e"]] ∧
      (∀ deeds, ((h.run deeds).handed 0).map (·.transactions) = [[⟨"x", [1], some "c"⟩]]) ∧
      h.manager.chains.all.flatMap (fun c => c.replica.unbatched ++
        c.replica.store.pendingEvents.flatMap (·.transactions)) = [] ∧
      h.manager.table.shardOfContract "e" = none := by
  intro h
  have hb : h.Balanced := ((balanced_start ..).run _).run _
  obtain ⟨hr, hq, hh, hp, ht⟩ :
      h.manager.chains.retired.map (fun c => (c.serial, c.loops)) = [(0, [])] ∧
      (h.queued 0).map (·.transactions) = [[⟨"x", [1], some "c"⟩], [.assignment "e"]] ∧
      (h.handed 0).map (·.transactions) = [[⟨"x", [1], some "c"⟩]] ∧
      h.manager.chains.all.flatMap (fun c => c.replica.unbatched ++
        c.replica.store.pendingEvents.flatMap (·.transactions)) = [] ∧
      h.manager.table.shardOfContract "e" = none := by
    cbv
  obtain ⟨c, hc, hs⟩ := List.mem_map.mp (hr ▸ List.mem_singleton_self (0, []))
  obtain ⟨hs, hl⟩ := Prod.mk.inj hs
  refine ⟨hr, hq, fun deeds => ?_, hp, ht⟩
  have he := hb.handed_run (List.mem_append_right _ hc) (hb.sound.retired c hc)
    (hl ▸ List.not_mem_nil) deeds
  rw [← hh, ← hs, he]

/-- The delivery loop may as well go on first. -/
example : ((splitEarly.next (.deliver 0)).handed 0).map (·.transactions) =
    [[⟨"x", [1], some "c"⟩], [.assignment "e"]] := by
  cbv

end QueueHistory

end ShardGossip

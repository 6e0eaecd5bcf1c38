import Mathlib.Algebra.BigOperators.Ring.Finset
import Mathlib.Algebra.Order.BigOperators.Group.Finset
import ShardGossip.Proofs.Accord

/-!
# ShardGossip.Proofs.Settling

**A shard that is left alone comes to a halt.** Every packet on a link, every pending event and
every election to be run carries a weight, and whatever a member sends is paid for by what it gets
rid of: a proposal by being stored, an announcement by the event no longer waiting for it, a vote or
word of being ready by the round being voted in or decided, and the next round by the event that is
closed. So each thing that happens by itself makes the whole lighter (`weight_next`), there is a
bound to how many can (`length_le_weight`), and then nothing is left to do (`exists_halt`).
-/

namespace ShardGossip

open Network

/-- Fewer elements pass a stricter test, if one of them tells the two apart. -/
theorem countP_lt_countP {α : Type} {f g : α → Bool} {l : List α} {b : α}
    (h : ∀ a ∈ l, f a → g a) (hb : b ∈ l) (hf : f b = false) (hg : g b) :
    l.countP f < l.countP g := by
  obtain ⟨l₁, l₂, rfl⟩ := List.append_of_mem hb
  have h₁ : l₁.countP f ≤ l₁.countP g :=
    List.countP_mono_left fun a ha => h a (List.mem_append_left _ ha)
  have h₂ : l₂.countP f ≤ l₂.countP g :=
    List.countP_mono_left fun a ha => h a (List.mem_append_right _ (List.mem_cons_of_mem _ ha))
  rw [List.countP_append, List.countP_append, List.countP_cons_of_neg (by simp [hf]),
    List.countP_cons_of_pos hg]
  omega

/-! ### Weights -/

/-- The weight of a packet in a shard with a given number of peers: that of what it may bring
about. -/
def Packet.weight (peers : Nat) : Packet → Nat
  | .propose _ _ => 3 * (peers + 1) + 2
  | _ => 1

theorem Packet.weight_pos (peers : Nat) (packet : Packet) : 0 < packet.weight peers := by
  cases packet <;> exact Nat.succ_pos _

/-- The weight of packets. -/
def load (peers : Nat) (packets : List Packet) : Nat :=
  (packets.map (·.weight peers)).sum

@[simp] theorem load_nil (peers : Nat) : load peers [] = 0 := rfl

@[simp] theorem load_append (peers : Nat) (l l' : List Packet) :
    load peers (l ++ l') = load peers l + load peers l' := by
  simp [load]

/-- The weight of what is sent to some peers. -/
def Effects.load (w : Nat) (peers : List NodeId) (effects : Effects) : Nat :=
  ShardGossip.load w ((effects.copies peers).map (·.2))

namespace Effects

variable (w : Nat) (peers : List NodeId)

@[simp] theorem load_empty : (∅ : Effects).load w peers = 0 := rfl

@[simp] theorem load_append (a b : Effects) :
    (a ++ b).load w peers = a.load w peers + b.load w peers := by
  simp [load]

@[simp] theorem load_sendTo (target : NodeId) (packet : Packet) :
    (sendTo target packet).load w peers = packet.weight w := by
  simp [load, ShardGossip.load]

@[simp] theorem load_ite_wakeUp (b : Bool) :
    (if b then ∅ else wakeUp : Effects).load w peers = 0 := by
  cases b <;> rfl

@[simp] theorem load_tell (r : Replica) (packet : Packet) :
    (if r.isAlone then ∅ else broadcast packet : Effects).load w r.peers.toList =
      r.peers.toList.length * packet.weight w := by
  unfold load
  rw [copies_tell, List.map_map]
  show ShardGossip.load w (r.peers.toList.map fun _ => packet) = _
  unfold ShardGossip.load
  rw [List.map_map]
  show (r.peers.toList.map fun _ => packet.weight w).sum = _
  rw [List.map_const', List.sum_replicate_nat]

end Effects

namespace Replica

variable {heard : NodeId → Packet → Prop} {r r' : Replica} {o : Outcome} {w : Nat}

/-- The number of pending events that may not be voted for yet. -/
def unheralded (r : Replica) : Nat :=
  r.store.queue.countP fun p => !r.announced.contains p

/-- The weight of what a member has to do: a pending event may see a round through, and has to be
announced; a vote has to be cast, and a winner to be chosen. -/
def weight (w : Nat) (r : Replica) : Nat :=
  (w + 1) * (2 * r.store.queue.length + r.unheralded + r.ballot.isNone.toNat +
    r.chosen.isNone.toNat)

theorem unheralded_insert_lt {p : Proof} (hw : r.WellFormed) (hp : r.store.contains p)
    (hn : r.announced.contains p = false) :
    (r.store.queue.countP fun q => !(r.announced.insert p).contains q) < r.unheralded := by
  refine countP_lt_countP (b := p) (fun q _ hq => ?_) (hw.store.queued.mpr hp) ?_ (by simp [hn])
  · rw [Bool.not_eq_true'] at hq ⊢
    rw [← Bool.not_eq_true, contains_insert_iff, not_or, Bool.not_eq_true] at hq
    exact hq.2
  · simp

/-- Closing a round takes the winner from what is pending, and adds nothing to what is to be
announced. -/
theorem queue_closeRound {p : Proof} (hw : r.WellFormed) (hc : r.chosen = some p) :
    (r.closeRound p).store.queue.length < r.store.queue.length ∧
      (r.closeRound p).unheralded ≤ r.unheralded := by
  obtain ⟨e, he⟩ := EventStore.contains_iff.mp (hw.decided hc).2
  have hq : (r.closeRound p).store.queue = r.store.queue.filter (· ≠ p) := by
    show (r.store.remove p).2.queue = _
    unfold EventStore.remove
    rw [he]
  constructor
  · rw [hq]
    exact List.length_filter_lt_length_iff_exists.mpr
      ⟨p, hw.store.queued.mpr (EventStore.contains_of_get? he), by simp⟩
  · unfold unheralded
    rw [hq, List.countP_filter]
    refine List.countP_mono_left fun q _ hq => ?_
    rw [Bool.and_eq_true, Bool.not_eq_true', decide_eq_true_eq] at hq
    rw [Bool.not_eq_true', ← Bool.not_eq_true]
    intro ha
    have ha' : (r.announced.erase p).contains q := contains_erase_iff.mpr ⟨Ne.symm hq.2, ha⟩
    rw [show (r.announced.erase p).contains q = false from hq.1] at ha'
    cases ha'

theorem weight_congr (hq : r'.store.queue = r.store.queue) (ha : r'.announced = r.announced)
    (hb : r'.ballot = r.ballot) (hc : r'.chosen = r.chosen) : r'.weight w = r.weight w := by
  unfold weight unheralded
  rw [hq, ha, hb, hc]

/-- A new event weighs less than its proposal. -/
theorem weight_insert {event : Event} (hn : r.store.contains event.proof = false) :
    ({ r with store := (r.store.insert event).2 } : Replica).weight w ≤
      r.weight w + 3 * (w + 1) := by
  have hq := EventStore.queue_insert hn
  have hu : ((r.store.insert event).2.queue.countP fun p => !r.announced.contains p) ≤
      r.unheralded + 1 := by
    rw [hq, List.countP_append]
    exact Nat.add_le_add_left List.countP_le_length _
  have hlen : (r.store.insert event).2.queue.length = r.store.queue.length + 1 := by
    rw [hq, List.length_append]
    rfl
  rw [Nat.mul_comm 3, weight, weight, ← Nat.mul_add]
  refine Nat.mul_le_mul_left _ ?_
  show 2 * (r.store.insert event).2.queue.length +
    ((r.store.insert event).2.queue.countP fun p => !r.announced.contains p) +
    r.ballot.isNone.toNat + r.chosen.isNone.toNat ≤ _
  omega

/-- One thing less to do makes up for a packet to every peer. -/
theorem weight_add_lt {x y l : Nat} (h : x < y) (hl : l ≤ w) : (w + 1) * x + l < (w + 1) * y :=
  calc (w + 1) * x + l < (w + 1) * x + (w + 1) := by omega
    _ = (w + 1) * (x + 1) := rfl
    _ ≤ (w + 1) * y := Nat.mul_le_mul_left _ h

/-- Casting the own vote makes a member lighter by more than the votes it sends. -/
theorem weight_cast {p : Proof} {signature : Bytes} (hl : r.peers.toList.length ≤ w)
    (hb : r.ballot = none) :
    ({ r.countBallot r.localId ⟨r.rounds, signature, p⟩ with
          ballot := some p, electing := true } : Replica).weight w +
        (if r.isAlone then ∅ else .broadcast (.vote r.rounds signature p) : Effects).load w
          r.peers.toList <
      r.weight w := by
  rw [Effects.load_tell]
  refine weight_add_lt ?_ (by simpa [Packet.weight] using hl)
  simp [unheralded, countBallot, hb]

/-- A reaction sends no more than what it gets rid of, unless it is to a packet, whose weight makes
up for it. -/
theorem weight_reaction (hw : r.WellFormed) (hl : r.peers.toList.length ≤ w)
    (hr : Reaction heard r o) :
    o.replica.weight w + o.effects.load w r.peers.toList ≤ r.weight w ∨
      ∃ src packet, heard src packet ∧
        o.replica.weight w + o.effects.load w r.peers.toList < r.weight w + packet.weight w := by
  have same {r' : Replica} (h : r'.weight w = r.weight w) :
      (Outcome.silent r').replica.weight w + (Outcome.silent r').effects.load w r.peers.toList ≤
        r.weight w := Nat.le_of_eq h
  have hears {src : NodeId} {packet : Packet} {r' : Replica} (hp : heard src packet)
      (h : r'.weight w = r.weight w) : ∃ src packet, heard src packet ∧
        (Outcome.silent r').replica.weight w +
          (Outcome.silent r').effects.load w r.peers.toList < r.weight w + packet.weight w :=
    ⟨src, packet, hp, Nat.lt_of_le_of_lt (same h) (Nat.lt_add_of_pos_right (packet.weight_pos w))⟩
  cases hr with
  | @store sender signature own event hp _ _ _ hn =>
      refine Or.inr ⟨_, _, hp, ?_⟩
      rw [Effects.load_sendTo]
      have hn' : r.store.contains (event.heldWith own).proof = false := hn
      exact Nat.lt_of_le_of_lt (Nat.add_le_add_right (weight_insert hn') 1)
        (by simp only [Packet.weight]; omega)
  | acknowledge hp _ _ _ =>
      refine Or.inr ⟨_, _, hp, ?_⟩
      rw [Effects.load_sendTo]
      exact Nat.add_lt_add_left (by simp [Packet.weight]) _
  | noteAck hp _ _ _ =>
      exact Or.inr (hears hp (weight_congr (EventStore.queue_update ..) rfl rfl rfl))
  | announceOwn he _ hn _ =>
      refine Or.inl ?_
      rw [Effects.load_append, Effects.load_tell, Effects.load_ite_wakeUp]
      have hlt := unheralded_insert_lt hw (EventStore.contains_of_get? he) hn
      refine Nat.le_of_lt (weight_add_lt ?_ (by simpa [Packet.weight] using hl))
      exact Nat.add_lt_add_right (Nat.add_lt_add_right (Nat.add_lt_add_left hlt _) _) _
  | announceHeard hp _ hs hn =>
      refine Or.inr ⟨_, _, hp, ?_⟩
      rw [Effects.load_ite_wakeUp]
      have hle := Nat.le_of_lt (unheralded_insert_lt hw hs hn)
      refine Nat.lt_of_le_of_lt (Nat.mul_le_mul_left (w + 1) ?_)
        (Nat.lt_add_of_pos_right (Packet.weight_pos w _))
      exact Nat.add_le_add_right (Nat.add_le_add_right (Nat.add_le_add_left hle _) _) _
  | @hold voter vote hp _ _ =>
      obtain ⟨held, hh, -⟩ := hold_eq r voter vote
      rw [hh]
      exact Or.inr (hears hp rfl)
  | count hp _ hj =>
      exact Or.inr (hears hp (weight_congr (EventStore.queue_update ..) rfl rfl rfl))
  | release _ _ =>
      exact Or.inl (same (weight_congr (EventStore.queue_update ..) rfl rfl rfl))
  | discard _ _ => exact Or.inl (same rfl)
  | dropStale => exact Or.inl (same rfl)
  | cast hb _ _ _ => exact Or.inl (Nat.le_of_lt (weight_cast hl hb))
  | @commit winner hc _ _ _ =>
      refine Or.inl ?_
      have he : ((r.store.get? winner).elim ∅ Effects.commit).load w r.peers.toList = 0 := by
        cases r.store.get? winner <;> rfl
      rw [Effects.load_append, he, Effects.load_tell]
      refine Nat.le_of_lt (weight_add_lt ?_ (by simpa [Packet.weight] using hl))
      simp [unheralded, hc]
  | ready hp _ => exact Or.inr (hears hp rfl)
  | close hc _ =>
      refine Or.inl ?_
      obtain ⟨hq, hu⟩ := queue_closeRound hw hc
      refine Nat.mul_le_mul_left (w + 1) ?_
      show 2 * (r.closeRound _).store.queue.length + (r.closeRound _).unheralded + 1 + 1 ≤ _
      omega
  | schedule _ _ =>
      obtain ⟨electing, quiet, hs⟩ := scheduleElection_eq r
      rw [hs, Effects.load_ite_wakeUp]
      exact Or.inl (Nat.le_refl _)
  | absorb _ => exact Or.inl (same rfl)

/-- What needs nothing from others makes nothing heavier. -/
theorem weight_steps (hw : r.WellFormed) (hl : r.peers.toList.length ≤ w)
    (hs : Steps (Reaction silence) r o) :
    o.replica.weight w + o.effects.load w r.peers.toList ≤ r.weight w := by
  induction hs with
  | done r => exact Nat.le_refl _
  | @step r o o' hr _ ih =>
      have h₁ : o.replica.weight w + o.effects.load w r.peers.toList ≤ r.weight w :=
        (weight_reaction hw hl hr).resolve_right nofun
      have h₂ := ih (hw.reaction hr) (hr.peers ▸ hl)
      rw [hr.peers] at h₂
      rw [Effects.load_append]
      dsimp only
      omega

/-- A packet weighs more than what handling it brings about. -/
theorem weight_onPacket (hw : r.WellFormed) (hl : r.peers.toList.length ≤ w) {src : NodeId}
    {packet : Packet} {signer : Signer}
    (hq : ∀ round events, packet ≠ .overwriteEvents round events)
    (ho : r.onPacket src packet signer = .ok o) :
    o.replica.weight w + o.effects.load w r.peers.toList < r.weight w + packet.weight w := by
  obtain ⟨o₁, o₂, h₁, h₂, rfl⟩ := onPacket_reacts (hearing_self src packet) hq ho
  have hpos := packet.weight_pos w
  rw [Effects.load_append]
  dsimp only
  rcases h₁ with rfl | h₁
  · have hle : o₂.replica.weight w + o₂.effects.load w r.peers.toList ≤ r.weight w :=
      weight_steps hw hl (h₂ silence)
    rw [Outcome.effects_silent, Effects.load_empty]
    omega
  · have hle := weight_steps (hw.reaction h₁) (h₁.peers ▸ hl) (h₂ silence)
    rw [h₁.peers] at hle
    rcases weight_reaction hw hl h₁ with hle' | ⟨_, _, ⟨rfl, rfl⟩, hlt⟩
    · omega
    · omega

/-- Counting the ballots afterwards makes nothing heavier. -/
theorem weight_tally (hl : r.peers.toList.length ≤ w) (hw : o.replica.WellFormed)
    (hp : o.replica.peers = r.peers)
    (hlt : o.replica.weight w + o.effects.load w r.peers.toList < r.weight w) :
    (o.andThen tryTally).replica.weight w +
      (o.andThen tryTally).effects.load w r.peers.toList < r.weight w := by
  have hle := weight_steps hw (hp ▸ hl) (tryTally_steps o.replica)
  rw [hp] at hle
  rw [Outcome.replica_andThen, Outcome.effects_andThen, Effects.load_append]
  omega

/-- An election makes the member lighter, or at least asks for no other. -/
theorem weight_runElection (hw : r.WellFormed) (hl : r.peers.toList.length ≤ w) :
    r.runElection.replica.weight w + r.runElection.effects.load w r.peers.toList < r.weight w ∨
      r.runElection.replica.weight w + r.runElection.effects.load w r.peers.toList ≤ r.weight w ∧
        r.runElection.effects.wake = false := by
  unfold runElection
  split
  · exact Or.inr ⟨Nat.le_refl _, rfl⟩
  · rename_i hn
    rw [not_or, Option.not_isSome_iff_eq_none, Option.not_isSome_iff_eq_none] at hn
    obtain ⟨hb, hc⟩ := hn
    split
    · exact Or.inr ⟨Nat.le_refl _, rfl⟩
    · rename_i p hq
      obtain ⟨event, he⟩ := EventStore.contains_iff.mp
        (hw.store.queued.mp (List.mem_of_find?_eq_some hq))
      simp only [he]
      have hcast : Reaction silence r _ := .cast hb hc hq he
      exact Or.inl (weight_tally hl (hw.reaction hcast) hcast.peers (weight_cast hl hb))

end Replica

/-! ### The weight of a shard -/

/-- What is changed at one place changes a sum by as much. -/
theorem sum_change {α : Type} [DecidableEq α] {ids : Finset α} {f g : α → Nat} {id : α}
    (hid : id ∈ ids) (h : ∀ q ∈ ids, q ≠ id → g q = f q) :
    ∑ q ∈ ids, g q + f id = ∑ q ∈ ids, f q + g id := by
  have hrest : ∑ q ∈ ids.erase id, g q = ∑ q ∈ ids.erase id, f q :=
    Finset.sum_congr rfl fun q hq =>
      h q (Finset.mem_of_mem_erase hq) (Finset.ne_of_mem_erase hq)
  rw [← Finset.add_sum_erase ids f hid, ← Finset.add_sum_erase ids g hid, hrest]
  omega

/-- Taking out a packet makes packets lighter by its weight. -/
theorem load_eraseIdx {w position : Nat} {packets : List Packet} {packet : Packet}
    (hp : packets[position]? = some packet) :
    load w (packets.eraseIdx position) + packet.weight w = load w packets := by
  obtain ⟨hlt, rfl⟩ := List.getElem?_eq_some_iff.mp hp
  have hperm := ((List.getElem_cons_eraseIdx_perm hlt).map (·.weight w)).sum_nat
  rw [List.map_cons, List.sum_cons, Nat.add_comm] at hperm
  exact hperm

/-- Each of the copies goes onto one link at most. -/
theorem sum_load_packetsFor (w : Nat) (ids : Finset NodeId) (copies : List (NodeId × Packet)) :
    ∑ b ∈ ids, load w (packetsFor b copies) ≤ load w (copies.map (·.2)) := by
  induction copies with
  | nil => simp [packetsFor]
  | cons copy rest ih =>
      have hsplit (b : NodeId) : load w (packetsFor b (copy :: rest)) =
          (if copy.1 = b then copy.2.weight w else 0) + load w (packetsFor b rest) := by
        by_cases hb : copy.1 = b <;> simp [packetsFor, load, hb]
      have hone : (∑ b ∈ ids, if copy.1 = b then copy.2.weight w else 0) ≤ copy.2.weight w := by
        rw [Finset.sum_ite_eq]
        split <;> omega
      calc ∑ b ∈ ids, load w (packetsFor b (copy :: rest))
        _ = (∑ b ∈ ids, if copy.1 = b then copy.2.weight w else 0) +
            ∑ b ∈ ids, load w (packetsFor b rest) := by
          rw [← Finset.sum_add_distrib]
          exact Finset.sum_congr rfl fun b _ => hsplit b
        _ ≤ copy.2.weight w + load w (rest.map (·.2)) := Nat.add_le_add hone ih
        _ = load w ((copy :: rest).map (·.2)) := rfl

namespace Network

/-- The weight of a member that is there: an election asked for is half of what a vote is. -/
def stationWeight (w : Nat) (n : Network) (id : NodeId) : Nat :=
  n.stations[id]?.elim 0 fun s => 2 * s.replica.weight w + s.woken.toNat

/-- The weight of what is under way between members. -/
def traffic (ids : Finset NodeId) (n : Network) : Nat :=
  2 * ∑ ends ∈ ids ×ˢ ids, load ids.card (n.link ends.1 ends.2)

/-- The weight of a shard. -/
def weight (ids : Finset NodeId) (n : Network) : Nat :=
  ∑ id ∈ ids, n.stationWeight ids.card id + n.traffic ids

variable {ids : Finset NodeId} {n : Network} {src dst id : NodeId} {s t : Station} {o : Outcome}

/-- Taking a packet off a link makes the shard lighter. -/
theorem weight_withdraw {position : Nat} {packet : Packet} (hs : src ∈ ids) (hd : dst ∈ ids)
    (hp : (n.link src dst)[position]? = some packet) :
    (n.withdraw src dst position).weight ids + 2 * packet.weight ids.card = n.weight ids := by
  have hchange := sum_change (Finset.mk_mem_product hs hd)
    (f := fun ends => load ids.card (n.link ends.1 ends.2))
    (g := fun ends => load ids.card ((n.withdraw src dst position).link ends.1 ends.2))
    fun ends _ hne => by
      show load _ ((n.withdraw src dst position).link ends.1 ends.2) = _
      rw [withdraw, link_setLink, if_neg fun h => hne (Prod.ext h.1.symm h.2.symm)]
  have hlink : (n.withdraw src dst position).link src dst =
      (n.link src dst).eraseIdx position := by
    rw [withdraw, link_setLink, if_pos ⟨rfl, rfl⟩]
  have hload := load_eraseIdx (w := ids.card) hp
  have hstations : ∑ id ∈ ids, (n.withdraw src dst position).stationWeight ids.card id =
      ∑ id ∈ ids, n.stationWeight ids.card id := rfl
  dsimp only at hchange
  rw [hlink] at hchange
  unfold weight traffic
  omega

theorem traffic_settleOutcome (peers : List NodeId) (hp : o.replica.peers.toList = peers) :
    (n.settleOutcome id t o).traffic ids ≤ n.traffic ids + 2 * o.effects.load ids.card peers := by
  have hnew : ∑ ends ∈ ids ×ˢ ids, load ids.card
        (if id = ends.1 then packetsFor ends.2 (o.effects.copies peers) else []) ≤
      o.effects.load ids.card peers := by
    rw [Finset.sum_product]
    calc _ = ∑ a ∈ ids, if id = a then
          ∑ b ∈ ids, load ids.card (packetsFor b (o.effects.copies peers)) else 0 := by
          refine Finset.sum_congr rfl fun a _ => ?_
          split
          · rfl
          · simp
      _ ≤ ∑ b ∈ ids, load ids.card (packetsFor b (o.effects.copies peers)) := by
          rw [Finset.sum_ite_eq]
          split <;> omega
      _ ≤ _ := sum_load_packetsFor ..
  have hsum : (n.settleOutcome id t o).traffic ids = n.traffic ids +
      2 * ∑ ends ∈ ids ×ˢ ids, load ids.card
        (if id = ends.1 then packetsFor ends.2 (o.effects.copies peers) else []) := by
    unfold traffic
    rw [← Nat.mul_add, ← Finset.sum_add_distrib]
    congr 1
    refine Finset.sum_congr rfl fun ends _ => ?_
    rw [link_settleOutcome, hp, load_append]
  omega

/-- What a member does changes its own weight, and puts what it sends on the links. -/
theorem weight_settleOutcome (hid : id ∈ ids) (hs : n.stations[id]? = some s)
    (hp : o.replica.peers = s.replica.peers) :
    (n.settleOutcome id t o).weight ids + (2 * s.replica.weight ids.card + s.woken.toNat) ≤
      n.weight ids + (2 * o.replica.weight ids.card + (t.woken || o.effects.wake).toNat) +
        2 * o.effects.load ids.card s.replica.peers.toList := by
  have hchange := sum_change hid (f := n.stationWeight ids.card)
    (g := (n.settleOutcome id t o).stationWeight ids.card) fun q _ hne => by
      unfold stationWeight
      rw [getElem?_settleOutcome, if_neg (Ne.symm hne)]
  have hold : n.stationWeight ids.card id = 2 * s.replica.weight ids.card + s.woken.toNat := by
    rw [stationWeight, hs]
    rfl
  have hnew : (n.settleOutcome id t o).stationWeight ids.card id =
      2 * o.replica.weight ids.card + (t.woken || o.effects.wake).toNat := by
    rw [stationWeight, getElem?_settleOutcome_self]
    rfl
  have htraffic : (n.settleOutcome id t o).traffic ids ≤
      n.traffic ids + 2 * o.effects.load ids.card s.replica.peers.toList :=
    traffic_settleOutcome _ (by rw [hp])
  unfold weight
  omega

end Network

namespace Chronicle

variable {members : List NodeId} {H : Diaries} {c : Chronicle}

/-- While there is something to do, something is due. -/
theorem exists_isDue {n : Network} (h : n.actions ≠ []) : ∃ move, n.isDue move := by
  apply Classical.byContradiction
  intro hno
  rw [not_exists] at hno
  refine h (actions_eq_nil_iff.mpr ⟨fun src dst => ?_, fun id s hs => ?_⟩)
  · have hlen : ¬ 0 < (n.link src dst).length := by simpa [isDue] using hno (.deliver src dst 0)
    exact List.length_eq_zero_iff.mp (Nat.eq_zero_of_not_pos hlen)
  · simpa [isDue, hs] using hno (.elect id)

/-- A member has fewer peers than there are members. -/
theorem length_peers_le (h : c.Accords members H) {id : NodeId} {s : Station}
    (hs : c.network.stations[id]? = some s) :
    s.replica.peers.toList.length ≤ members.toFinset.card := by
  have hn : s.replica.peers.toList.Nodup :=
    Std.ExtTreeSet.distinct_toList.imp fun hne heq => hne (Std.compare_eq_iff_eq.mpr heq)
  rw [← List.toFinset_card_of_nodup hn]
  refine Finset.card_le_card fun q hq => ?_
  rw [List.mem_toFinset] at hq ⊢
  exact ((h.faithful hs).seat.target q hq).1

/-- **Each thing that happens by itself makes the shard lighter.** -/
theorem weight_next (h : c.Accords members H) {move : Move} (hd : c.network.isDue move) :
    (c.next move).network.weight members.toFinset < c.network.weight members.toFinset := by
  obtain ⟨H', hm⟩ := h.moved move
  generalize c.next move = c' at hm
  cases hm with
  | @asked _ id s t _ o new hs hanswer ht =>
      cases move with
      | elect id' =>
          cases hanswer
          have hF := h.faithful hs
          have hwoken : s.woken = true := by simpa [isDue, hs] using hd
          have hw := weight_settleOutcome (t := { s with woken := false })
            (List.mem_toFinset.mpr hF.seat.member) hs ht.peers
          rw [hwoken] at hw
          refine Nat.lt_of_add_lt_add_right (Nat.lt_of_le_of_lt hw ?_)
          rcases Replica.weight_runElection hF.wellFormed (length_peers_le h hs) with
            hlt | ⟨hle, hwake⟩
          · have hwake := Bool.toNat_le s.replica.runElection.effects.wake
            simp only [Bool.false_or, Bool.toNat_true]
            omega
          · rw [hwake]
            simp only [Bool.or_false, Bool.toNat_false, Bool.toNat_true]
            omega
      | deliver => cases hanswer
      | submit | sealEvent | retransmit | duplicate | lose => cases hd
  | @delivered src dst position packet s _ o hp hs ho ht _ =>
      have hsent := h.consistent.sent (h.recorded (List.mem_of_getElem? hp))
      have hdst := List.mem_toFinset.mpr hsent.target
      have hgone := weight_withdraw (List.mem_toFinset.mpr hsent.source) hdst hp
      have hw := weight_settleOutcome (n := c.network.withdraw src dst position) (t := s) hdst hs
        ht.peers
      have hlt := Replica.weight_onPacket (h.faithful hs).wellFormed (length_peers_le h hs)
        (fun round events heq => by
          subst heq
          exact h.consistent.honest (h.recorded (List.mem_of_getElem? hp))) ho
      have hwoken : (s.woken || o.effects.wake).toNat ≤ s.woken.toNat + 1 :=
        Nat.le_trans (Bool.toNat_le _) (Nat.le_add_left 1 _)
      show ((c.network.withdraw src dst position).settleOutcome dst s o).weight _ < _
      omega
  | @refused src dst position packet s refusal hp hs ho _ =>
      have hsent := h.consistent.sent (h.recorded (List.mem_of_getElem? hp))
      have hgone := weight_withdraw (List.mem_toFinset.mpr hsent.source)
        (List.mem_toFinset.mpr hsent.target) hp
      have hpos := packet.weight_pos members.toFinset.card
      show (c.network.withdraw src dst position).weight _ < _
      omega
  | repeated => cases hd
  | lost => cases hd
  | nothing hn =>
      rw [hn] at hd
      cases hd

/-- Whether the moves are each due in their turn. -/
def serves (c : Chronicle) : List Move → Bool
  | [] => true
  | move :: rest => c.network.isDue move && (c.next move).serves rest

theorem serves_append {rest more : List Move} (hs : c.serves rest) (hm : (c.run rest).serves more) :
    c.serves (rest ++ more) := by
  induction rest generalizing c with
  | nil => exact hm
  | cons move rest ih =>
      obtain ⟨hd, hrest⟩ := Bool.and_eq_true_iff.mp hs
      exact Bool.and_eq_true_iff.mpr ⟨hd, ih hrest hm⟩

/-- What is due loses nothing. -/
theorem not_isLoss_of_serves {rest : List Move} (hs : c.serves rest) :
    ∀ move ∈ rest, move.isLoss = false := by
  induction rest generalizing c with
  | nil => exact nofun
  | cons move rest ih =>
      obtain ⟨hd, hrest⟩ := Bool.and_eq_true_iff.mp hs
      refine List.forall_mem_cons.mpr ⟨?_, ih hrest⟩
      cases move with
      | lose => cases hd
      | _ => rfl

/-- **No more can happen by itself than the shard weighs.** -/
theorem length_le_weight (h : c.Accords members H) {rest : List Move} (hs : c.serves rest) :
    rest.length ≤ c.network.weight members.toFinset := by
  induction rest generalizing c H with
  | nil => exact Nat.zero_le _
  | cons move rest ih =>
      obtain ⟨hd, hrest⟩ := Bool.and_eq_true_iff.mp hs
      obtain ⟨H', hm⟩ := h.moved move
      have hle := ih (hm.accords h) hrest
      have hlt := weight_next h hd
      rw [List.length_cons]
      omega

/-- **So everything comes to a halt.** -/
theorem exists_halt (h : c.Accords members H) :
    ∃ rest, c.serves rest ∧ (c.run rest).network.actions = [] := by
  induction hw : c.network.weight members.toFinset using Nat.strong_induction_on
    generalizing c H with
  | _ w ih =>
      subst hw
      by_cases ha : c.network.actions = []
      · exact ⟨[], rfl, ha⟩
      · obtain ⟨move, hd⟩ := exists_isDue ha
        obtain ⟨H', hm⟩ := h.moved move
        obtain ⟨rest, hs, hhalt⟩ := ih _ (weight_next h hd) (hm.accords h) rfl
        exact ⟨move :: rest, Bool.and_eq_true_iff.mpr ⟨hd, hs⟩, hhalt⟩

end Chronicle

end ShardGossip

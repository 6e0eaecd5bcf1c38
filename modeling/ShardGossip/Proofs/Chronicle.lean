import ShardGossip.Network
import ShardGossip.Proofs.Diary

/-!
# ShardGossip.Proofs.Chronicle

**What can happen in a network whose members stay, and what is remembered of it.** A `Move` is one
thing that happens: a member is asked for something, or a packet under way is delivered, repeated or
lost, at any position of its link. A `Chronicle` is a network with the events that its members have
sealed and committed so far; all that can happen to a newly founded shard are the runs of moves from
`Chronicle.founded`.
-/

namespace ShardGossip

namespace Network

/-! ### Moves -/

/-- The network in which everyone has been told all members, and nothing else has happened. -/
def founded (shard : ShardId) (members : List NodeId) (signers : NodeId → Signer) : Network :=
  members.foldl (fun n id => n.addStation id (.founding shard id (signers id) members)) empty

/-- Something that happens in a network whose members stay. -/
inductive Move where
  /-- A transaction is submitted to a member. -/
  | submit (id : NodeId) (transaction : Transaction)
  /-- A member seals what was submitted, at a time of its wall clock. -/
  | sealEvent (id : NodeId) (now : Nat)
  /-- A member runs an election, whether it was asked for or not. -/
  | elect (id : NodeId)
  /-- A member sends again what it waits for. -/
  | retransmit (id : NodeId)
  /-- The packet at a position of a link is delivered. -/
  | deliver (src dst : NodeId) (position : Nat)
  /-- The packet at a position of a link is repeated. -/
  | duplicate (src dst : NodeId) (position : Nat)
  /-- The packet at a position of a link is lost. -/
  | lose (src dst : NodeId) (position : Nat)
  deriving DecidableEq

/-- Whether a move loses a packet. -/
def Move.isLoss : Move → Bool
  | lose .. => true
  | _ => false

/-- Makes a move. -/
def play (n : Network) : Move → Option Report × Network
  | .submit id transaction => n.change id fun s => .silent (s.replica.submit transaction)
  | .sealEvent id now => n.change id fun s => s.replica.sealEvent now s.signer
  | .elect id => n.elect id
  | .retransmit id => n.retransmit id
  | .deliver src dst position => n.deliver src dst position
  | .duplicate src dst position => (none, n.send src dst (n.link src dst)[position]?.toList)
  | .lose src dst position => (none, n.setLink src dst ((n.link src dst).eraseIdx position))

/-- What a member makes of being asked for something: who is asked, how its station stands while it
answers, and what it does. -/
def Move.answer (s : Station) : Move → Option (NodeId × Station × Outcome)
  | .submit id transaction => some (id, s, .silent (s.replica.submit transaction))
  | .sealEvent id now => some (id, s, s.replica.sealEvent now s.signer)
  | .elect id => some (id, { s with woken := false }, s.replica.runElection)
  | .retransmit id => some (id, s, s.replica.retransmit s.signer)
  | _ => none

/-- What can happen by itself: a packet under way is delivered, or a member runs the election that
it was asked for. -/
def isDue (n : Network) : Move → Bool
  | .deliver src dst position => position < (n.link src dst).length
  | .elect id => n.stations[id]?.any (·.woken)
  | _ => false

/-- What a move seals. -/
def seals (n : Network) : Move → NodeId → List Event
  | .sealEvent id now, q =>
    if q = id then (n.stations[id]? >>= fun s => s.replica.nextEvent? now).toList else []
  | _, _ => []

/-- What a member commits in what happened to it. -/
def Report.commits (report : Report) (q : NodeId) : List Event :=
  match report.result with
  | .ok effects => if q = report.node then effects.committed else []
  | .error _ => []

end Network

/-- A network with what its members have done. -/
structure Chronicle where
  network : Network
  sealed : NodeId → List Event
  committed : NodeId → List Event

namespace Chronicle

/-- The beginning. -/
def founded (shard : ShardId) (members : List NodeId) (signers : NodeId → Signer) : Chronicle :=
  ⟨.founded shard members signers, fun _ => [], fun _ => []⟩

/-- One thing happens. -/
def next (c : Chronicle) (move : Network.Move) : Chronicle :=
  let (report, network) := c.network.play move
  { network := network
    sealed := fun q => c.sealed q ++ c.network.seals move q
    committed := fun q => c.committed q ++ report.elim [] (·.commits q) }

/-- A member has done something, after packets may have been taken off the links of the network. -/
def settle (c : Chronicle) (n : Network) (id : NodeId) (t : Station) (o : Outcome)
    (new : List Event) : Chronicle where
  network := n.settleOutcome id t o
  sealed q := c.sealed q ++ if q = id then new else []
  committed q := c.committed q ++ if q = id then o.effects.committed else []

/-- Several things happen. -/
def run (c : Chronicle) (moves : List Network.Move) : Chronicle :=
  moves.foldl next c

end Chronicle

/-- A station after a change. -/
def Station.settled (s : Station) (o : Outcome) : Station :=
  { s with
    replica := o.replica
    committed := s.committed ++ o.effects.committed.map (·.proof)
    woken := s.woken || o.effects.wake }

namespace Network

/-! ### Links -/

/-- The packets for one receiver. -/
def packetsFor (dst : NodeId) (copies : List (NodeId × Packet)) : List Packet :=
  (copies.filter (·.1 = dst)).map (·.2)

theorem mem_packetsFor {dst : NodeId} {copies : List (NodeId × Packet)} {packet : Packet} :
    packet ∈ packetsFor dst copies ↔ (dst, packet) ∈ copies := by
  unfold packetsFor
  simp only [List.mem_map, List.mem_filter, decide_eq_true_eq]
  constructor
  · rintro ⟨⟨q, p⟩, ⟨hm, rfl⟩, rfl⟩
    exact hm
  · exact fun hm => ⟨(dst, packet), ⟨hm, rfl⟩, rfl⟩

theorem packetsFor_append (dst : NodeId) (copies new : List (NodeId × Packet)) :
    packetsFor dst (copies ++ new) = packetsFor dst copies ++ packetsFor dst new := by
  unfold packetsFor
  rw [List.filter_append, List.map_append]

variable {n : Network} {a b src dst : NodeId}

@[simp] theorem link_addStation (id : NodeId) (station : Station) :
    (n.addStation id station).link a b = n.link a b := rfl

theorem link_setLink (packets : List Packet) :
    (n.setLink src dst packets).link a b =
      if src = a ∧ dst = b then packets else n.link a b := by
  unfold setLink link
  simp only [getElem?_insert_eq]
  by_cases hs : src = a
  · subst hs
    rw [if_pos rfl]
    simp only [Option.bind_eq_bind, Option.bind_some, getElem?_insert_eq, true_and]
    split
    · rfl
    · cases hr : n.links[src]? with
      | none => simp
      | some row => simp
  · rw [if_neg hs, if_neg (fun h => hs h.1)]

theorem link_send (packets : List Packet) :
    (n.send src dst packets).link a b =
      n.link a b ++ if src = a ∧ dst = b then packets else [] := by
  unfold send
  rw [link_setLink]
  split
  · rename_i h
    rw [h.1, h.2]
  · exact (List.append_nil _).symm

/-- Takes the packet at a position off a link. -/
def withdraw (n : Network) (src dst : NodeId) (position : Nat) : Network :=
  n.setLink src dst ((n.link src dst).eraseIdx position)

/-- Taking a packet off a link leaves no new packets. -/
theorem mem_link_of_withdraw {position : Nat} {packet : Packet}
    (h : packet ∈ (n.withdraw src dst position).link a b) : packet ∈ n.link a b := by
  unfold withdraw at h
  rw [link_setLink] at h
  split at h
  · rename_i hab
    rw [← hab.1, ← hab.2]
    exact List.mem_of_mem_eraseIdx h
  · exact h

/-- Taking a packet off a link leaves all others. -/
theorem mem_link_withdraw {position : Nat} {p packet : Packet}
    (hp : (n.link src dst)[position]? = some p) (h : packet ∈ n.link a b) :
    packet ∈ (n.withdraw src dst position).link a b ∨ src = a ∧ dst = b ∧ packet = p := by
  unfold withdraw
  rw [link_setLink]
  split
  · rename_i hab
    rw [← hab.1, ← hab.2] at h
    obtain ⟨hlt, hp⟩ := List.getElem?_eq_some_iff.mp hp
    -- the link is what stands before the packet, the packet, and what stands behind it
    rw [← List.take_append_drop position (n.link src dst), List.drop_eq_getElem_cons hlt, hp] at h
    rw [List.eraseIdx_eq_take_drop_succ, List.mem_append]
    rcases List.mem_append.mp h with h | h
    · exact Or.inl (Or.inl h)
    · rcases List.mem_cons.mp h with h | h
      · exact Or.inr ⟨hab.1, hab.2, h⟩
      · exact Or.inl (Or.inr h)
  · exact Or.inl h

theorem link_foldl_send (peers : List NodeId) (packet : Packet) :
    (peers.foldl (fun n peer => n.send src peer [packet]) n).link a b =
      n.link a b ++
        if src = a then packetsFor b (peers.map fun peer => (peer, packet)) else [] := by
  induction peers generalizing n with
  | nil => simp [packetsFor]
  | cons peer rest ih =>
      rw [List.foldl_cons, ih, link_send, List.append_assoc]
      congr 1
      by_cases hs : src = a
      · by_cases hp : peer = b <;> simp [packetsFor, hs, hp]
      · simp [hs]

/-- What a member sends goes to the back of its links, in order. -/
theorem link_post (peers : List NodeId) (outbound : List Outbound) :
    (n.post src peers outbound).link a b =
      n.link a b ++
        if src = a then packetsFor b (outbound.flatMap (·.copies peers)) else [] := by
  induction outbound generalizing n with
  | nil => simp [post, packetsFor]
  | cons out rest ih =>
      cases out with
      | broadcast packet =>
          rw [post, ih, link_foldl_send, List.append_assoc]
          congr 1
          by_cases hs : src = a <;> simp [packetsFor, hs, Outbound.copies]
      | sendTo target packet =>
          rw [post, ih, link_send, List.append_assoc]
          congr 1
          by_cases hs : src = a
          · by_cases ht : target = b <;> simp [packetsFor, hs, ht, Outbound.copies]
          · simp [hs]

theorem stations_foldl_send (peers : List NodeId) (packet : Packet) :
    (peers.foldl (fun n peer => n.send src peer [packet]) n).stations = n.stations := by
  induction peers generalizing n with
  | nil => rfl
  | cons peer rest ih => exact ih

theorem stations_post (peers : List NodeId) (outbound : List Outbound) :
    (n.post src peers outbound).stations = n.stations := by
  induction outbound generalizing n with
  | nil => rfl
  | cons out rest ih =>
      cases out with
      | broadcast packet => rw [post, ih, stations_foldl_send]
      | sendTo target packet =>
          rw [post, ih]
          rfl

/-- What a member did goes onto its links. -/
theorem link_settleOutcome (id : NodeId) (station : Station) (o : Outcome) :
    (n.settleOutcome id station o).link a b =
      n.link a b ++
        if id = a then packetsFor b (o.effects.copies o.replica.peers.toList) else [] := by
  unfold settleOutcome
  rw [link_post, link_addStation]
  rfl

theorem mem_link_settleOutcome {id : NodeId} {station : Station} {o : Outcome} {packet : Packet} :
    packet ∈ (n.settleOutcome id station o).link a b ↔
      packet ∈ n.link a b ∨ id = a ∧ (b, packet) ∈ o.effects.copies o.replica.peers.toList := by
  rw [link_settleOutcome, List.mem_append]
  split <;> simp_all [mem_packetsFor]

theorem getElem?_settleOutcome (id q : NodeId) (station : Station) (o : Outcome) :
    (n.settleOutcome id station o).stations[q]? =
      if id = q then some (station.settled o) else n.stations[q]? := by
  unfold settleOutcome
  rw [stations_post]
  exact getElem?_insert_eq

theorem getElem?_settleOutcome_self (id : NodeId) (station : Station) (o : Outcome) :
    (n.settleOutcome id station o).stations[id]? = some (station.settled o) := by
  rw [getElem?_settleOutcome, if_pos rfl]

/-- Where a member has done something, any other is as it was. -/
theorem station_of_settleOutcome {n₀ : Network} {id q : NodeId} {station s : Station} {o : Outcome}
    (hst : n.stations = n₀.stations)
    (hs : (n.settleOutcome id station o).stations[q]? = some s) :
    q = id ∧ s = station.settled o ∨ q ≠ id ∧ n₀.stations[q]? = some s := by
  rw [getElem?_settleOutcome, hst] at hs
  split at hs
  · rename_i hid
    exact Or.inl ⟨hid.symm, (Option.some.inj hs).symm⟩
  · rename_i hid
    exact Or.inr ⟨Ne.symm hid, hs⟩

theorem mem_stations_toList {id : NodeId} {s : Station} :
    (id, s) ∈ n.stations.toList ↔ n.stations[id]? = some s :=
  Std.ExtTreeMap.mem_toList_iff_getElem?_eq_some

/-- Nothing can happen by itself when no packet is under way and no election is to be run. -/
theorem actions_eq_nil_iff :
    n.actions = [] ↔ (∀ src dst, n.link src dst = []) ∧
      ∀ (id : NodeId) (s : Station), n.stations[id]? = some s → s.woken = false := by
  unfold actions
  rw [List.append_eq_nil_iff, List.map_eq_nil_iff, List.map_eq_nil_iff]
  refine and_congr ⟨fun h src dst => ?_, fun h => ?_⟩ ⟨fun h id s hs => ?_, fun h => ?_⟩
  · cases hr : n.links[src]? with
    | none => simp [link, hr]
    | some row =>
        cases hp : row[dst]? with
        | none => simp [link, hr, hp]
        | some packets =>
            have hrow := List.flatMap_eq_nil_iff.mp h (src, row)
              (Std.ExtTreeMap.mem_toList_iff_getElem?_eq_some.mpr hr)
            have hd := List.filter_eq_nil_iff.mp (List.map_eq_nil_iff.mp hrow) (dst, packets)
              (Std.ExtTreeMap.mem_toList_iff_getElem?_eq_some.mpr hp)
            simpa [link, hr, hp] using hd
  · refine List.flatMap_eq_nil_iff.mpr fun ⟨src, row⟩ hr => ?_
    refine List.map_eq_nil_iff.mpr (List.filter_eq_nil_iff.mpr fun ⟨dst, packets⟩ hp => ?_)
    have hl := h src dst
    rw [link, Std.ExtTreeMap.mem_toList_iff_getElem?_eq_some.mp hr] at hl
    simp only [Option.bind_eq_bind, Option.bind_some,
      Std.ExtTreeMap.mem_toList_iff_getElem?_eq_some.mp hp, Option.getD_some] at hl
    simp [hl]
  · exact Bool.eq_false_iff.mpr (List.filter_eq_nil_iff.mp h (id, s) (mem_stations_toList.mpr hs))
  · refine List.filter_eq_nil_iff.mpr fun ⟨id, s⟩ hs => ?_
    exact Bool.eq_false_iff.mp (h id s (mem_stations_toList.mp hs))

/-! ### The founding -/

theorem link_foldl_addStation (station : NodeId → Station) (ids : List NodeId) :
    (ids.foldl (fun n id => n.addStation id (station id)) n).link a b = n.link a b := by
  induction ids generalizing n with
  | nil => rfl
  | cons id rest ih => exact ih

theorem getElem?_foldl_addStation (station : NodeId → Station) (ids : List NodeId) (q : NodeId) :
    (ids.foldl (fun n id => n.addStation id (station id)) n).stations[q]? =
      if q ∈ ids then some (station q) else n.stations[q]? := by
  induction ids generalizing n with
  | nil => rfl
  | cons id rest ih =>
      rw [List.foldl_cons, ih]
      show (if q ∈ rest then _ else (n.stations.insert id _)[q]?) = _
      rw [getElem?_insert_eq]
      by_cases hr : q ∈ rest
      · simp [hr]
      · by_cases hi : id = q
        · simp [hi]
        · simp [hr, hi, Ne.symm hi]

theorem link_founded (shard : ShardId) (members : List NodeId) (signers : NodeId → Signer) :
    (founded shard members signers).link a b = [] :=
  link_foldl_addStation (fun id => .founding shard id (signers id) members) members

theorem getElem?_founded (shard : ShardId) (members : List NodeId) (signers : NodeId → Signer)
    (q : NodeId) :
    (founded shard members signers).stations[q]? =
      if q ∈ members then some (.founding shard q (signers q) members) else none :=
  getElem?_foldl_addStation (fun id => .founding shard id (signers id) members) members q

end Network

namespace Replica

theorem foldl_join_false (ids : List NodeId) (r : Replica) :
    ∃ peers, ids.foldl (join false) r = { r with peers := peers } ∧
      ∀ q, peers.contains q ↔ r.peers.contains q ∨ q ∈ ids := by
  induction ids generalizing r with
  | nil => exact ⟨r.peers, rfl, by simp⟩
  | cons id rest ih =>
      obtain ⟨peers, he, hp⟩ := ih (join false r id)
      have hj : join false r id = r ∧ r.peers.contains id ∨
          join false r id = { r with peers := r.peers.insert id } := by
        unfold join
        split
        · rename_i h
          exact Or.inl ⟨rfl, h⟩
        · exact Or.inr rfl
      refine ⟨peers, ?_, fun q => ?_⟩
      · rw [List.foldl_cons, he]
        rcases hj with ⟨hj, -⟩ | hj <;> rw [hj]
      · rw [hp, List.mem_cons]
        rcases hj with ⟨hj, hid⟩ | hj
        · rw [hj]
          constructor
          · exact fun h => h.imp_right Or.inr
          · rintro (h | rfl | h)
            · exact Or.inl h
            · exact Or.inl hid
            · exact Or.inr h
        · rw [hj]
          show (r.peers.insert id).contains q ∨ q ∈ rest ↔ _
          rw [contains_insert_iff, eq_comm (a := id), or_assoc, or_left_comm]

/-- Whoever is told the members before anything happened has the others as peers. -/
theorem setMembers_fresh (id : NodeId) (shard : ShardId) (members : List NodeId) :
    ∃ peers,
      ((fresh id shard).setMembers members).replica = { fresh id shard with peers := peers } ∧
      ∀ q, peers.contains q ↔ q ∈ members ∧ q ≠ id := by
  have hr : (fresh id shard).peers.toList = [] := rfl
  have hh : (fresh id shard).hasHistory = false := rfl
  unfold setMembers
  rw [hr, hh]
  dsimp only [List.filter_nil, Outcome.each, List.foldl_nil, Outcome.replica_silent]
  obtain ⟨peers, he, hp⟩ := foldl_join_false
    ((members.filter (· ≠ id)).foldl (·.insert ·) (∅ : NodeSet)).toList (fresh id shard)
  refine ⟨peers, he, fun q => ?_⟩
  rw [hp, mem_toList_iff, contains_foldl_insert]
  simp [fresh]

end Replica

end ShardGossip

import ShardGossip.Proofs.Carryover
import ShardGossip.Proofs.Electorate

/-!
# ShardGossip.Proofs.TableView

**What the shard table sees of a chain.** The shard, the peers, and whether the chain runs or was
shut down (`Chain.TableView`) are changed by nothing that a chain does by itself or is asked for by
other members. Replacing the members is what sets the peers (`Replica.contains_peers_setMembers`).
-/

namespace ShardGossip

namespace Replica

variable {r : Replica}

/-! ### Replacing the members sets the peers -/

theorem contains_peers_removePeer {id q : NodeId} :
    (r.removePeer id).replica.peers.contains q ↔ id ≠ q ∧ r.peers.contains q := by
  unfold removePeer
  split
  · rw [(goesOn_reevaluate (r.forget id)).peers]
    exact contains_erase_iff
  · rename_i h
    exact ⟨fun hq => ⟨fun he => h (he ▸ hq), hq⟩, And.right⟩

theorem contains_peers_foldl_join {history : Bool} {ids : List NodeId} {q : NodeId} :
    (ids.foldl (join history) r).peers.contains q ↔ q ∈ ids ∨ r.peers.contains q := by
  induction ids generalizing r with
  | nil => simp
  | cons id rest ih =>
      rw [List.foldl_cons, ih, contains_peers_join, List.mem_cons, or_assoc, or_left_comm]

theorem contains_peers_each_removePeer {ids : List NodeId} {o : Outcome} {q : NodeId} :
    (o.each removePeer ids).replica.peers.contains q ↔
      q ∉ ids ∧ o.replica.peers.contains q := by
  induction ids generalizing o with
  | nil => simp [Outcome.each]
  | cons id rest ih =>
      show ((o.andThen (·.removePeer id)).each removePeer rest).replica.peers.contains q ↔ _
      rw [ih, Outcome.replica_andThen, contains_peers_removePeer, List.mem_cons, not_or,
        and_left_comm, and_assoc, ne_comm]

/-- The peers are the members that were named, apart from the member itself. -/
theorem contains_peers_setMembers {members : List NodeId} {q : NodeId} :
    (r.setMembers members).replica.peers.contains q ↔ q ∈ members ∧ q ≠ r.localId := by
  have hw : ((members.filter (· ≠ r.localId)).foldl (·.insert ·) (∅ : NodeSet)).contains q ↔
      q ∈ members ∧ q ≠ r.localId := by
    rw [contains_foldl_insert]
    simp
  unfold setMembers
  rw [contains_peers_each_removePeer, Outcome.replica_silent, contains_peers_foldl_join,
    List.mem_filter, mem_toList_iff, mem_toList_iff, ← hw]
  grind

end Replica

namespace Chain

variable {c c' : Chain}

/-! ### What the shard table sees -/

/-- What the shard table sees of a chain. -/
structure TableView where
  serial : Nat
  shardId : ShardId
  localId : NodeId
  peers : NodeSet
  running : Bool
  shutDown : Bool

/-- What the shard table sees of the chain. -/
def tableView (c : Chain) : TableView :=
  ⟨c.serial, c.shardId, c.localId, c.replica.peers, c.running, c.shutDown⟩

theorem Proceeds.tableView (h : c.Proceeds c') : c'.tableView = c.tableView := by
  obtain ⟨hg, -, he⟩ := h
  simp only [Prod.mk.injEq] at he
  obtain ⟨hs, -, hr, hd, -⟩ := he
  simp only [Chain.tableView, shardId, localId, hg.localId, hg.shardId, hg.peers, hs, hr, hd]

/-! ### New members -/

/-- The peers are set, and nothing else that the table sees changes. -/
theorem tableView_setMembers (c : Chain) (members : List NodeId) :
    (c.setMembers members).tableView =
      { c.tableView with peers := (c.replica.setMembers members).replica.peers } := by
  obtain ⟨connections, due, woken, -, hs⟩ := c.setMembers_cases members
  rw [hs]
  simp only [tableView, shardId, localId, c.replica.shardId_setMembers,
    (c.replica.setMembers_keeps members).1]

/-- Without connections before, there are none after. -/
theorem sockets_setMembers (h : c.sockets.toList = []) (members : List NodeId) :
    (c.setMembers members).sockets = ∅ := by
  obtain ⟨connections, due, woken, -, hs⟩ := c.setMembers_cases members
  simp [hs, h]

@[simp] theorem sockets_run (c : Chain) : c.run.sockets = c.sockets := by
  unfold run
  split <;> rfl

theorem tableView_run (h : c.shutDown = false) :
    c.run.tableView = { c.tableView with running := true } := by
  unfold run
  split
  · rename_i hr
    have hr : c.running := by simpa [h] using hr
    simp [tableView, hr]
  · rfl

theorem tableView_finish (c : Chain) (loop : Loop) :
    (c.finish loop).tableView = c.tableView := by
  unfold finish
  split <;> rfl

end Chain

end ShardGossip

import ShardGossip.Proofs.Sealing
import ShardGossip.Proofs.Reconfiguration

/-!
# ShardGossip.Proofs.CommitOnce

**A member commits a proof again only after it has forgotten it.** Whatever a member is asked for
and whatever packets it gets, honest or not, at least as many other events as it remembers lie
between two commits of one proof. A winner is pending when it is committed, no pending proof is
remembered, and the remembered proofs are the latest committed ones; so each committed proof differs
from the `capacity` proofs before it (`Spaced`).
-/

namespace ShardGossip

namespace Replica

/-! ### What a member can be asked for -/

/-- Something that a member is asked for. -/
inductive Input where
  /-- To count a node as a peer. -/
  | addPeer (id : NodeId)
  | removePeer (id : NodeId)
  | setMembers (members : List NodeId)
  | submit (transaction : Transaction)
  | sealEvent (now : Nat) (signer : Signer)
  | elect
  /-- To send again what it waits for. -/
  | retransmit (signer : Signer)
  /-- To take over a foreign queue. -/
  | merge (events : List Event) (signer : Signer)
  /-- To bring a late peer up to date. -/
  | sync (peer : NodeId)
  | packet (sender : NodeId) (packet : Packet) (signer : Signer)

/-- What the member does. A refused packet changes nothing. -/
def serve (r : Replica) : Input → Outcome
  | .addPeer id => .silent (r.addPeer id).2
  | .removePeer id => r.removePeer id
  | .setMembers members => r.setMembers members
  | .submit transaction => .silent (r.submit transaction)
  | .sealEvent now signer => r.sealEvent now signer
  | .elect => r.runElection
  | .retransmit signer => r.retransmit signer
  | .merge events signer => r.mergeEvents events signer
  | .sync peer => .silent (r.takeSyncFor peer).2
  | .packet sender packet signer =>
    match r.onPacket sender packet signer with
    | .ok outcome => outcome
    | .error _ => .silent r

/-- Whether sealing makes no proof that was committed before. -/
def sealsNew (r : Replica) (log : List Event) : Input → Bool
  | .sealEvent now _ =>
    (r.nextEvent? now).all fun event => !(log.map (·.proof)).contains event.proof
  | _ => true

/-- The states that a member can get into, each with the events it has committed on the way. The
only condition is on sealing: what is sealed was not committed before. -/
inductive Past (l : NodeId) (s : ShardId) : Replica → List Event → Prop where
  | fresh : Past l s (fresh l s) []
  /-- One more thing was asked for. -/
  | serve {r : Replica} {log : List Event} {i : Input} :
      Past l s r log → r.sealsNew log i →
      Past l s (r.serve i).replica (log ++ (r.serve i).effects.committed)

variable {r : Replica} {log : List Event}

theorem onPacket_changes {heard : NodeId → Packet → Prop} {sender : NodeId} {packet : Packet}
    {signer : Signer} {o : Outcome} (hh : heard sender packet)
    (h : r.onPacket sender packet signer = .ok o) : Steps (Change heard) r o := by
  by_cases hq : ∃ round events, packet = .overwriteEvents round events
  · obtain ⟨round, events, rfl⟩ := hq
    unfold onPacket at h
    split at h
    · cases h
    · cases h
      exact r.overwriteEvents_steps round events signer
  · refine changes_of_reactions (onPacket_reacts hh ?_ h).steps
    intro round events he
    exact hq ⟨round, events, he⟩

theorem contains_of_onPacket {sender : NodeId} {packet : Packet} {signer : Signer} {o : Outcome}
    (h : r.onPacket sender packet signer = .ok o) : r.peers.contains sender := by
  unfold onPacket at h
  split at h
  · cases h
  · rename_i hp
    rwa [Bool.not_eq_true', Bool.not_eq_false] at hp

/-- Apart from sealing, everything is a sequence of changes. -/
theorem serve_changes {heard : NodeId → Packet → Prop} (hs : r.store.WellFormed) {input : Input}
    (hh : ∀ sender packet signer, input = .packet sender packet signer → r.peers.contains sender →
      heard sender packet)
    (hn : ∀ now signer, input ≠ .sealEvent now signer) :
    Steps (Change heard) r (r.serve input) := by
  cases input with
  | addPeer id => exact addPeer_steps r id
  | removePeer id => exact removePeer_steps r id
  | setMembers members => exact setMembers_steps r members
  | submit transaction => exact .single (.settled (.absorb [transaction]))
  | sealEvent now signer => exact absurd rfl (hn now signer)
  | elect => exact changes_of_reactions (runElection_steps r hs)
  | retransmit signer => exact retransmit_steps r signer
  | merge events signer => exact r.mergeEvents_steps events signer
  | sync peer => exact takeSyncFor_steps r peer
  | packet sender packet signer =>
      show Steps _ r (match r.onPacket sender packet signer with
        | .ok outcome => outcome
        | .error _ => .silent r)
      cases h : r.onPacket sender packet signer with
      | ok o => exact onPacket_changes (hh _ _ _ rfl (contains_of_onPacket h)) h
      | error _ => exact .done r

/-- Whatever is asked for is a sequence of changes, after the next event was stored if it is to
seal. -/
theorem serve_cases {heard : NodeId → Packet → Prop} (hs : r.store.WellFormed) (input : Input)
    (hh : ∀ sender packet signer, input = .packet sender packet signer → r.peers.contains sender →
      heard sender packet) :
    Steps (Change heard) r (r.serve input) ∨
      ∃ now signer event, input = .sealEvent now signer ∧ r.nextEvent? now = some event ∧
        Steps (Change heard) (r.enqueue event signer) (r.serve input) := by
  by_cases hi : ∃ now signer, input = .sealEvent now signer
  · obtain ⟨now, signer, rfl⟩ := hi
    rw [serve, sealEvent_eq]
    split
    · exact Or.inl (.done r)
    · rename_i event he
      refine Or.inr ⟨now, signer, event, rfl, he, ?_⟩
      exact (tellAll_steps (.done _) _).andThen (changes_of_reactions (checkAckQuorum_steps _ _))
  · exact Or.inl (serve_changes hs hh fun now signer he => hi ⟨now, signer, he⟩)

theorem WellFormed.serve_cases (hw : r.WellFormed) {input : Input}
    (hf : ∀ now signer event, input = .sealEvent now signer → r.nextEvent? now = some event →
      r.finalized.contains event.proof = false) :
    Steps (Change fun _ _ => True) r (r.serve input) ∨
      ∃ event signer, r.finalized.contains event.proof = false ∧
        Steps (Change fun _ _ => True) (r.enqueue event signer) (r.serve input) :=
  (Replica.serve_cases hw.store input fun _ _ _ _ _ => trivial).imp_right
    fun ⟨now, signer, event, hi, he, hs⟩ => ⟨event, signer, hf now signer event hi he, hs⟩

/-! ### Each proof differs from those remembered -/

/-- No event has the proof of one of the `capacity` events before it. -/
def Spaced (log : List Event) : Prop :=
  ∀ before e after, log = before ++ e :: after →
    e.proof ∉ (before.map (·.proof)).reverse.take RecentProofs.capacity

theorem Spaced.concat (h : Spaced log) {e : Event}
    (he : e.proof ∉ (log.map (·.proof)).reverse.take RecentProofs.capacity) :
    Spaced (log ++ [e]) := by
  intro before x after hx
  -- only the last event is new
  rcases List.eq_nil_or_concat after with rfl | ⟨after, y, ha⟩
  · obtain ⟨rfl, hxe⟩ := List.append_inj' hx rfl
    obtain rfl := List.singleton_inj.mp hxe
    exact he
  · rw [ha, List.concat_eq_append, ← List.cons_append, ← List.append_assoc] at hx
    exact h before x after (List.append_inj' hx rfl).1

/-- What holds of a member with its past. -/
structure Accounted (log : List Event) (r : Replica) : Prop where
  wellFormed : r.WellFormed
  records : r.Records log
  spaced : Spaced log

theorem accounted_fresh (localId : NodeId) (shardId : ShardId) :
    Accounted [] (fresh localId shardId) :=
  ⟨wellFormed_fresh localId shardId, records_fresh localId shardId, by
    intro before e after h
    cases before <;> cases h⟩

/-- The event that a count commits is pending, hence not remembered. -/
theorem Spaced.keep {o : Outcome} (h : Spaced log) (hw : r.WellFormed) (hr : r.Records log)
    (hb : Bookkeeping r o) : Spaced (log ++ o.effects.committed) := by
  cases hb with
  | none he _ _ => rw [he, List.append_nil]; exact h
  | close _ he _ _ => rw [he, List.append_nil]; exact h
  | commit hc hs he _ _ =>
      obtain ⟨closed, hl, hf⟩ := hr
      rw [hc, Option.toList_none, List.append_nil] at hl
      have hn := hw.fresh (EventStore.contains_of_get? hs)
      rw [RecentProofs.contains_eq_false, hf, ← hl] at hn
      rw [he]
      exact h.concat hn

theorem Accounted.change {heard : NodeId → Packet → Prop} {o : Outcome} (h : Accounted log r)
    (hc : Change heard r o) : Accounted (log ++ o.effects.committed) o.replica :=
  have hb := Bookkeeping.change h.wellFormed hc
  ⟨h.wellFormed.change hc, h.records.keep h.wellFormed hb, h.spaced.keep h.wellFormed h.records hb⟩

theorem Accounted.changes {heard : NodeId → Packet → Prop} {o : Outcome} (h : Accounted log r)
    (hs : Steps (Change heard) r o) : Accounted (log ++ o.effects.committed) o.replica :=
  hs.keeps Accounted.change h

/-- What is remembered was committed. -/
theorem Records.mem_of_finalized (h : r.Records log) {p : Proof} (hp : r.finalized.contains p) :
    p ∈ log.map (·.proof) := by
  obtain ⟨closed, hl, hf⟩ := h
  rw [RecentProofs.contains_iff, hf] at hp
  rw [hl]
  exact List.mem_append_left _ (List.mem_reverse.mp (List.mem_of_mem_take hp))

/-- Whatever is asked for is a sequence of changes, after a new event was stored if it is to seal;
and that event is not remembered. -/
theorem Accounted.serve_cases (h : Accounted log r) {input : Input} (hn : r.sealsNew log input) :
    Steps (Change fun _ _ => True) r (r.serve input) ∨
      ∃ event signer, r.finalized.contains event.proof = false ∧
        Steps (Change fun _ _ => True) (r.enqueue event signer) (r.serve input) := by
  refine h.wellFormed.serve_cases ?_
  rintro now signer event rfl he
  rw [← Bool.not_eq_true]
  intro hf
  have hm := h.records.mem_of_finalized hf
  simp only [sealsNew, he, Option.all_some, Bool.not_eq_true', List.contains_eq_mem,
    decide_eq_false_iff_not] at hn
  exact hn hm

theorem Accounted.enqueue (h : Accounted log r) {event : Event} (signer : Signer)
    (hf : r.finalized.contains event.proof = false) : Accounted log (r.enqueue event signer) :=
  ⟨h.wellFormed.enqueue signer hf, h.records, h.spaced⟩

theorem accounted_of_past {localId : NodeId} {shardId : ShardId} (h : Past localId shardId r log) :
    Accounted log r := by
  -- sealing is the one input that brings in a proof of its own, and the condition is on it alone
  induction h with
  | fresh => exact accounted_fresh localId shardId
  | serve _ hn ih =>
      rcases ih.serve_cases hn with hs | ⟨event, signer, hf, hs⟩
      · exact ih.changes hs
      · exact (ih.enqueue signer hf).changes hs

/-! ### Between two commits of one proof -/

/-- A list in which nothing stands before its like has no repetitions. -/
theorem nodup_of_split {α : Type} {l : List α}
    (h : ∀ before a after, l = before ++ a :: after → a ∉ before) : l.Nodup := by
  rw [List.Nodup, List.pairwise_iff_getElem]
  intro i j hi hj hij he
  apply h (l.take j) l[j] (l.drop (j + 1))
  · rw [List.getElem_cons_drop, List.take_append_drop]
  · rw [← he, List.mem_take_iff_getElem]
    exact ⟨i, by omega, rfl⟩

/-- In a spaced log, as many events in a row as are remembered, and one more, have different
proofs. -/
theorem Spaced.nodup_window (h : Spaced log) {before window after : List Event}
    (hl : log = before ++ (window ++ after)) (hw : window.length ≤ RecentProofs.capacity + 1) :
    (window.map (·.proof)).Nodup := by
  apply nodup_of_split
  intro early p late hs hp
  obtain ⟨l₁, l₂, rfl, rfl, h₂⟩ := List.map_eq_append_iff.mp hs
  obtain ⟨e, l₃, rfl, rfl, rfl⟩ := List.map_eq_cons_iff.mp h₂
  apply h (before ++ l₁) e (l₃ ++ after) (by simp [hl])
  rw [List.map_append, List.reverse_append, List.take_append, List.mem_append]
  left
  rw [List.take_of_length_le (by simp at hw ⊢; omega), List.mem_reverse]
  exact hp

theorem Spaced.exists_between (h : Spaced log) {before between after : List Event} {e e' : Event}
    (hl : log = before ++ (e :: between ++ e' :: after)) (hp : e.proof = e'.proof) :
    ∃ others : List Event, others.Sublist between ∧ others.length = 4096 ∧
      (others.map (·.proof)).Nodup ∧ ∀ x ∈ others, x.proof ≠ e.proof := by
  have hlen : 4096 ≤ between.length := by
    apply Nat.le_of_not_lt
    intro hlt
    -- otherwise both commits would lie in one window
    have hw : log = before ++ ((e :: between ++ [e']) ++ after) := by rw [hl]; simp
    have hn := h.nodup_window hw (by simp [RecentProofs.capacity]; omega)
    rw [List.cons_append, List.map_cons, List.nodup_cons] at hn
    exact hn.1 (by simp [hp])
  have hw : log = before ++ (e :: between.take 4096 ++ (between.drop 4096 ++ e' :: after)) := by
    have ht : between.take 4096 ++ (between.drop 4096 ++ e' :: after) = between ++ e' :: after := by
      rw [← List.append_assoc, List.take_append_drop]
    rw [hl, List.cons_append, List.cons_append, ht]
  have hn := h.nodup_window hw (Nat.succ_le_succ (List.length_take_le _ _))
  rw [List.map_cons, List.nodup_cons] at hn
  refine ⟨between.take 4096, List.take_sublist _ _, ?_, hn.2, ?_⟩
  · rw [List.length_take, Nat.min_eq_left hlen]
  · intro x hx he
    exact hn.1 (List.mem_map.mpr ⟨x, hx, he⟩)

/-- **At most one commit per proof, as long as it is remembered.** Any 4097 events that a member
commits in a row have different proofs; so between two commits of one proof there are 4096 commits
of other proofs, all different. -/
theorem recommit_distance {localId : NodeId} {shardId : ShardId} (h : Past localId shardId r log) :
    (∀ before window after, log = before ++ (window ++ after) → window.length ≤ 4097 →
        (window.map (·.proof)).Nodup) ∧
      ∀ before e between e' after, log = before ++ (e :: between ++ e' :: after) →
        e.proof = e'.proof →
        ∃ others : List Event, others.Sublist between ∧ others.length = 4096 ∧
          (others.map (·.proof)).Nodup ∧ ∀ x ∈ others, x.proof ≠ e.proof :=
  have hs := (accounted_of_past h).spaced
  ⟨fun _ _ _ hl hw => hs.nodup_window hl hw, fun _ _ _ _ _ hl hp => hs.exists_between hl hp⟩

/-- A member on its own, which seals and commits twice. -/
theorem recommit_distance_alone :
    ∃ r log, Past ⟨"a"⟩ ⟨0⟩ r log ∧ log.map (·.proof) = ["5-a", "6-a"] ∧
      ∀ before window after, log = before ++ (window ++ after) → window.length ≤ 4097 →
        (window.map (·.proof)).Nodup := by
  have h₁ := Past.serve (i := .submit ⟨"x", [1], none⟩) (Past.fresh (l := ⟨"a"⟩) (s := ⟨0⟩)) rfl
  have h₂ := h₁.serve (i := .sealEvent 5 (.labelled ⟨"a"⟩)) (by decide +kernel)
  have h₃ := h₂.serve (i := .elect) rfl
  have h₄ := h₃.serve (i := .submit ⟨"x", [2], none⟩) rfl
  have h₅ := h₄.serve (i := .sealEvent 5 (.labelled ⟨"a"⟩)) (by decide +kernel)
  have h₆ := h₅.serve (i := .elect) rfl
  exact ⟨_, _, h₆, by decide +kernel, (recommit_distance h₆).1⟩

end Replica

end ShardGossip

import ShardGossip.Proofs.Takeover

/-!
# ShardGossip.Proofs.BridgedMerge

**A bridged merge loses the events whose proofs both chains have, and no transaction besides**
(`bridge_accounts`). A member of both shards interleaves the queue of the dissolved chain with that
of the survivor, and carries the unbatched transactions over. Of two events with one proof the
survivor keeps its own, and the transactions of the other one are gone. They are the same event if
proofs are unique, but each chain has a clock of its own: a member that seals in both shards at one
time gives two events one proof (`lost_in_bridge`).

The account is kept event by event: what the survivor has afterwards matches its own events and the
new ones of the dissolved chain, each proof once (`perm_forWire`). No event is closed on the way as
long as the survivor has not voted.
-/

namespace ShardGossip

/-- Two lists of events with the same proofs, each of them once, and with matching events, differ in
their order only. -/
theorem perm_forWire {left right : List Event} (hl : (left.map (·.proof)).Nodup)
    (hr : (right.map (·.proof)).Nodup) (hp : ∀ e ∈ right, e.proof ∈ left.map (·.proof))
    (hm : ∀ e ∈ left, ∃ e' ∈ right, e.forWire = e'.forWire) :
    (left.map (·.forWire)).Perm (right.map (·.forWire)) := by
  have nodup {events : List Event} (h : (events.map (·.proof)).Nodup) :
      (events.map (·.forWire)).Nodup := by
    refine List.Nodup.of_map (·.proof) ?_
    rw [List.map_map]
    exact h
  rw [List.perm_ext_iff_of_nodup (nodup hl) (nodup hr)]
  intro e
  constructor
  · intro he
    obtain ⟨e₁, he₁, rfl⟩ := List.mem_map.mp he
    obtain ⟨e₂, he₂, heq⟩ := hm e₁ he₁
    exact List.mem_map.mpr ⟨e₂, he₂, heq.symm⟩
  · intro he
    obtain ⟨e₂, he₂, rfl⟩ := List.mem_map.mp he
    obtain ⟨e₁, he₁, hp₁⟩ := List.mem_map.mp (hp e₂ he₂)
    obtain ⟨e₃, he₃, heq⟩ := hm e₁ he₁
    -- the event on the right that matches has the same proof, so it is this one
    have hp₃ : e₃.proof = e₂.proof := (congrArg Event.proof heq).symm.trans hp₁
    rw [← List.inj_on_of_nodup_map hr he₃ he₂ hp₃, ← heq]
    exact List.mem_map_of_mem he₁

namespace Replica

variable {a b r : Replica} {o : Outcome} {l : NodeId} {s s' : ShardId}

/-! ### What is taken over -/

/-- The transactions that wait at a member, in an event or for one. -/
def workload (r : Replica) : List Transaction :=
  r.store.pendingEvents.flatMap (·.transactions) ++ r.unbatched

/-- The survivor of a merge, after a member of both shards has moved all work of the dissolved chain
into it. -/
def bridge (survivor dissolved : Replica) (signer : Signer) : Replica :=
  let (events, rest) := dissolved.takePendingEvents
  (survivor.mergeEvents events signer).replica.absorb rest.takeLeftovers.1

/-- The events of the dissolved chain whose proofs are pending in the survivor too. -/
def clashing (survivor dissolved : Replica) : List Event :=
  dissolved.store.pendingEvents.filter fun e => survivor.store.contains e.proof

/-- Whether an event with this proof is pending, or remembered as committed. -/
def knows (r : Replica) (p : Proof) : Bool :=
  r.finalized.contains p || r.store.contains p

theorem unbatched_mergeEvents (r : Replica) (events : List Event) (signer : Signer) :
    (r.mergeEvents events signer).replica.unbatched = r.unbatched := by
  let merged := r.missing (mergeByTimestamp r.store.pendingEvents events)
  let o := (Outcome.silent (r.storeForeign merged .reorder signer)).each announce
    (merged.map (·.proof))
  have ho : o.replica.unbatched = r.unbatched := by
    refine keep_each (P := fun r' => r'.unbatched = r.unbatched) (fun {r'} hr p => ?_) _ rfl
    obtain ⟨_, _, _, he⟩ := r'.announce_eq p
    rw [he]
    exact hr
  exact ((replayHeld_sequels o.replica).andThen (ensureElection_sequels _)).unbatched.trans ho

theorem knows_eq_false {p : Proof} :
    r.knows p = false ↔ r.finalized.contains p = false ∧ r.store.contains p = false :=
  Bool.or_eq_false_iff

/-- The events of a chain, and those of another store that it does not know. -/
def withNew (r : Replica) (dissolved : EventStore) : List Event :=
  r.store.pendingEvents ++ dissolved.pendingEvents.filter fun e => !r.knows e.proof

theorem mem_withNew {dissolved : EventStore} {e : Event} :
    e ∈ r.withNew dissolved ↔ e ∈ r.store.pendingEvents ∨
      e ∈ dissolved.pendingEvents ∧ r.knows e.proof = false := by
  rw [withNew, List.mem_append, List.mem_filter, Bool.not_eq_true']

theorem nodup_withNew {dissolved : EventStore} (hr : r.store.WellFormed)
    (hd : dissolved.WellFormed) : ((r.withNew dissolved).map (·.proof)).Nodup := by
  have hnew : ((dissolved.pendingEvents.filter fun e => !r.knows e.proof).map (·.proof)).Nodup :=
    (hd.map_pendingEvents.symm ▸ hd.nodup).sublist (List.filter_sublist.map _)
  rw [withNew, List.map_append, List.nodup_append, hr.map_pendingEvents]
  refine ⟨hr.nodup, hnew, fun p hp q hq he => ?_⟩
  obtain ⟨e, hm, rfl⟩ := List.mem_map.mp hq
  have hk := knows_eq_false.mp ((Bool.not_eq_true' _).mp (List.mem_filter.mp hm).2)
  exact Bool.eq_false_iff.mp hk.2 (hr.queued.mp (he ▸ hp))

/-- The queue in another way: what either of the two has, unless it was committed. -/
theorem Interleaves.mem_map_proof {events : List Event} {closed : List Proof}
    (h : Interleaves r events closed o) {p : Proof} :
    p ∈ o.replica.store.pendingEvents.map (·.proof) ↔
      (p ∈ r.store.pendingEvents.map (·.proof) ∨ p ∈ events.map (·.proof)) ∧
        r.finalized.contains p = false ∧ p ∉ closed := by
  rw [h.queue, ← mem_map_mergeByTimestamp]
  simp only [List.mem_map, List.mem_filter, Bool.and_eq_true, Bool.not_eq_true',
    decide_eq_true_eq]
  constructor
  · rintro ⟨e, ⟨he, hk⟩, rfl⟩
    exact ⟨⟨e, he, rfl⟩, hk⟩
  · rintro ⟨⟨e, he, rfl⟩, hk⟩
    exact ⟨e, ⟨he, hk⟩, rfl⟩

/-- What is pending afterwards was there before, or is a new event of the dissolved chain. -/
theorem Interleaves.exists_mem_withNew {dissolved : EventStore} {closed : List Proof}
    (h : Interleaves r (dissolved.pendingEvents.map (·.forWire)) closed o)
    (hr : r.store.WellFormed) {e : Event} (he : e ∈ o.replica.store.pendingEvents) :
    ∃ e' ∈ r.withNew dissolved, e.forWire = e'.forWire := by
  obtain ⟨e₀, h₀, heq⟩ := h.events e he
  cases hg : r.store.get? e.proof with
  | some e₁ =>
      rw [hg, Option.some_or] at h₀
      obtain rfl := Option.some.inj h₀
      have hm := hr.mem_pendingEvents.mpr (hr.keyed hg ▸ hg)
      exact ⟨e₁, mem_withNew.mpr (.inl hm), heq⟩
  | none =>
      rw [hg, Option.none_or] at h₀
      obtain ⟨e₁, he₁, rfl⟩ := List.mem_map.mp (List.mem_of_find?_eq_some h₀)
      have hp : e₁.forWire.proof = e.proof := by simpa using List.find?_some h₀
      have hk : r.knows e.proof = false := by
        refine knows_eq_false.mpr ⟨(h.mem_map_proof.mp (List.mem_map_of_mem he)).2.1, ?_⟩
        rw [EventStore.contains_eq_isSome, hg]
        rfl
      exact ⟨e₁, mem_withNew.mpr (.inr ⟨he₁, hp ▸ hk⟩), heq⟩

/-- Before the own vote, no event is closed on the way. -/
theorem interleaves_of_unvoted (hw : r.WellFormed) (hb : r.ballot = none) (events : List Event)
    (signer : Signer) : Interleaves r events [] (r.mergeEvents events signer) := by
  obtain ⟨closed, hi⟩ := mergeEvents_interleaves hw events signer
  have hf : OncePerVote r (r.mergeEvents events signer) :=
    (oncePerVote_adopt r _ .reorder signer).tellAll _
  have hc := hw.chosen_eq_none hb
  have hwon := hi.closes.won
  rw [hc, (hf.unvoted hc hb).1] at hwon
  obtain ⟨rfl, -⟩ := List.append_eq_nil_iff.mp hwon.symm
  exact hi

/-- Then the survivor has its own events and the new ones of the dissolved chain. -/
theorem perm_mergeEvents (hw : r.WellFormed) (hb : r.ballot = none) {dissolved : EventStore}
    (hd : dissolved.WellFormed) (signer : Signer) :
    ((r.mergeEvents (dissolved.pendingEvents.map (·.forWire))
        signer).replica.store.pendingEvents.map (·.forWire)).Perm
      ((r.withNew dissolved).map (·.forWire)) := by
  have hi := interleaves_of_unvoted hw hb (dissolved.pendingEvents.map (·.forWire)) signer
  have hs := (hw.mergeEvents (dissolved.pendingEvents.map (·.forWire)) signer).store
  refine perm_forWire (hs.map_pendingEvents ▸ hs.nodup) (nodup_withNew hw.store hd)
    (fun e he => hi.mem_map_proof.mpr ?_) fun e he => hi.exists_mem_withNew hw.store he
  rcases mem_withNew.mp he with he | ⟨he, hk⟩
  · have hc := EventStore.contains_of_get? (hw.store.mem_pendingEvents.mp he)
    exact ⟨.inl (List.mem_map_of_mem he), hw.fresh hc, List.not_mem_nil⟩
  · have hm : e.forWire.proof ∈ (dissolved.pendingEvents.map (·.forWire)).map (·.proof) :=
      List.mem_map_of_mem (List.mem_map_of_mem he)
    exact ⟨.inr hm, (knows_eq_false.mp hk).1, List.not_mem_nil⟩

/-! ### The account -/

theorem workload_bridge (a b : Replica) (signer : Signer) :
    (a.bridge b signer).workload =
      (a.mergeEvents (b.store.pendingEvents.map (·.forWire))
        signer).replica.store.pendingEvents.flatMap (·.transactions) ++
          (a.unbatched ++ b.unbatched) :=
  congrArg (fun rest => _ ++ (rest ++ b.unbatched)) (unbatched_mergeEvents a _ signer)

/-- What is lost before the survivor has voted: the events that it knows. -/
theorem WellFormed.perm_bridge (ha : a.WellFormed) (hn : a.ballot = none) (hb : b.WellFormed)
    (signer : Signer) :
    ((a.bridge b signer).workload ++
        (b.store.pendingEvents.filter fun e => a.knows e.proof).flatMap (·.transactions)).Perm
      (a.workload ++ b.workload) := by
  have transactions (events : List Event) :
      (events.map (·.forWire)).flatMap (·.transactions) = events.flatMap (·.transactions) :=
    List.flatMap_map ..
  have htaken := (perm_mergeEvents ha hn hb.store signer).flatMap_right
    fun e : Event => e.transactions
  have hsplit := (List.filter_append_perm (fun e => a.knows e.proof)
    b.store.pendingEvents).flatMap_right fun e : Event => e.transactions
  rw [transactions, transactions, withNew, List.flatMap_append] at htaken
  rw [List.flatMap_append] at hsplit
  rw [workload_bridge, workload, workload, List.perm_iff_count]
  intro t
  have ht := htaken.count_eq t
  have hs := hsplit.count_eq t
  simp only [List.count_append] at ht hs ⊢
  omega

/-! ### Before the first election -/

/-- Whether an input only adds to the work that waits, or sets the members that it waits for. -/
def Input.gathers : Input → Bool
  | setMembers _ | submit _ | sealEvent .. | packet _ (.propose ..) _ => true
  | _ => false

/-- The states that a chain gets into by submits, seals and the proposals of its members. -/
def Gathered (l : NodeId) (s : ShardId) (r : Replica) : Prop :=
  ∃ inputs : List Input, inputs.all (·.gathers) ∧
    after l s (inputs.map fun input => .request (.serve input)) = r

/-- Nothing has been voted for, and nothing committed. -/
structure Unvoted (r : Replica) : Prop where
  wellFormed : r.WellFormed
  ballot : r.ballot = none
  finalized : r.finalized = .empty

theorem OncePerVote.gathers {input : Input} (h : input.gathers) :
    OncePerVote r (r.serve input) := by
  cases input with
  | setMembers members => exact oncePerVote_setMembers r members
  | submit transaction => exact .silent rfl
  | sealEvent now signer => exact oncePerVote_sealEvent r now signer
  | packet sender packet signer =>
      cases packet with
      | propose signature event =>
          unfold serve
          dsimp only
          split
          · rename_i ho
            unfold onPacket at ho
            split at ho
            · cases ho
            · exact oncePerVote_onPropose ho
          · exact .silent rfl
      | _ => cases h
  | _ => cases h

theorem Unvoted.sealsFresh (h : r.Unvoted) (request : Request) : r.sealsFresh request := by
  unfold Replica.sealsFresh
  split
  · rw [h.finalized]
    exact (Option.all_eq_true ..).mpr fun _ _ => rfl
  · rfl

/-- Gathering work commits nothing, so it closes no round. -/
theorem Unvoted.serve (h : r.Unvoted) {input : Input} (hi : input.gathers) :
    (r.serve input).replica.Unvoted := by
  have hfresh := h.sealsFresh (.serve input)
  have hchosen := h.wellFormed.chosen_eq_none h.ballot
  obtain ⟨hcommitted, hballot⟩ := (OncePerVote.gathers hi).unvoted hchosen h.ballot
  have hon : r.Honours (r.serve input) := h.wellFormed.honours_answer hfresh nofun
  obtain ⟨closed, hwon, hfinal⟩ := hon
  rw [hchosen, hcommitted] at hwon
  obtain ⟨rfl, hnone⟩ := List.append_eq_nil_iff.mp hwon.symm
  exact ⟨h.wellFormed.answer hfresh, hballot (Option.toList_eq_nil_iff.mp hnone),
    hfinal.trans h.finalized⟩

theorem unvoted_of_gathered (h : Gathered l s r) : r.Unvoted := by
  obtain ⟨inputs, hi, rfl⟩ := h
  have hu : (fresh l s).Unvoted := ⟨wellFormed_fresh l s, rfl, rfl⟩
  unfold after
  generalize fresh l s = r at hu
  induction inputs generalizing r with
  | nil => exact hu
  | cons input rest ih =>
      rw [List.all_cons, Bool.and_eq_true] at hi
      exact ih hi.2 _ (hu.serve hi.1)

/-- **A bridged merge loses the events whose proofs both chains have, and no transaction besides.**
Let two chains of one member have got their work by submits, seals and proposals. Every transaction
that waited in one of them, or in both, waits in the survivor after the merge, as often as before,
but for those in the events of the dissolved chain whose proofs were pending in the survivor too.
So nothing is lost if, and only if, such events hold no transactions. -/
theorem bridge_accounts (ha : Gathered l s a) (hb : Gathered l s' b) (signer : Signer) :
    ((a.bridge b signer).workload ++ (a.clashing b).flatMap (·.transactions)).Perm
        (a.workload ++ b.workload) ∧
      ((a.bridge b signer).workload.Perm (a.workload ++ b.workload) ↔
        ∀ e ∈ a.clashing b, e.transactions = []) := by
  have hu := unvoted_of_gathered ha
  have hclash : (b.store.pendingEvents.filter fun e => a.knows e.proof) = a.clashing b := by
    refine List.filter_congr fun e _ => ?_
    rw [knows, hu.finalized]
    exact Bool.false_or _
  have hperm := hu.wellFormed.perm_bridge hu.ballot (unvoted_of_gathered hb).wellFormed signer
  rw [hclash] at hperm
  refine ⟨hperm, ?_⟩
  rw [← List.flatMap_eq_nil_iff]
  constructor
  · intro h
    have hlen := hperm.length_eq
    rw [List.length_append, h.length_eq] at hlen
    exact List.eq_nil_of_length_eq_zero (Nat.add_eq_left.mp hlen)
  · intro h
    rwa [h, List.append_nil] at hperm

/-- The member has sealed an event in each of the shards at one time, and has a proposal and an
unbatched transaction besides. What it had sealed in the dissolved shard is lost. -/
theorem bridge_accounts_of_equal_times :
    let x (n : UInt8) : Transaction := ⟨"x", [n], none⟩
    let signer : Signer := .labelled ⟨"a"⟩
    let a := after ⟨"a"⟩ ⟨0⟩ <| List.map (fun input => .request (.serve input)) [
      .setMembers [⟨"a"⟩, ⟨"b"⟩], .submit (x 1), .sealEvent 5 signer, .submit (x 3)]
    let b := after ⟨"a"⟩ ⟨1⟩ <| List.map (fun input => .request (.serve input)) [
      .setMembers [⟨"a"⟩, ⟨"b"⟩], .submit (x 2), .sealEvent 5 signer,
      .packet ⟨"b"⟩ (.propose [] (.sealed ⟨"b"⟩ 6 [x 4])) signer]
    a.workload = [x 1, x 3] ∧ b.workload = [x 2, x 4] ∧
      (a.clashing b).map (·.proof) = ["5-a"] ∧
      (a.bridge b signer).workload.Perm [x 1, x 3, x 4] := by
  intro x signer a b
  have ha : Gathered ⟨"a"⟩ ⟨0⟩ a := ⟨_, by decide +kernel, rfl⟩
  have hb : Gathered ⟨"a"⟩ ⟨1⟩ b := ⟨_, by decide +kernel, rfl⟩
  have hperm := (bridge_accounts ha hb signer).1
  have hwa : a.workload = [x 1, x 3] := by decide +kernel
  have hwb : b.workload = [x 2, x 4] := by decide +kernel
  have hc : (a.clashing b).flatMap (·.transactions) = [x 2] := by decide +kernel
  refine ⟨hwa, hwb, by decide +kernel, (List.perm_append_right_iff [x 2]).mp ?_⟩
  rw [hwa, hwb, hc] at hperm
  exact hperm.trans (by decide)

/-- Another member has proposed an event in each of the two shards at one time, so the two have the
same proof. The transaction of one of them is gone after the merge. -/
theorem lost_in_bridge :
    let x (n : UInt8) : Transaction := ⟨"x", [n], none⟩
    let signer : Signer := .labelled ⟨"a"⟩
    let a := after ⟨"a"⟩ ⟨0⟩ <| List.map (fun input => .request (.serve input)) [
      .setMembers [⟨"a"⟩, ⟨"b"⟩], .packet ⟨"b"⟩ (.propose [] (.sealed ⟨"b"⟩ 5 [x 1])) signer]
    let b := after ⟨"a"⟩ ⟨1⟩ <| List.map (fun input => .request (.serve input)) [
      .setMembers [⟨"a"⟩, ⟨"b"⟩], .packet ⟨"b"⟩ (.propose [] (.sealed ⟨"b"⟩ 5 [x 2])) signer]
    Gathered ⟨"a"⟩ ⟨0⟩ a ∧ Gathered ⟨"a"⟩ ⟨1⟩ b ∧ a.workload = [x 1] ∧ b.workload = [x 2] ∧
      (a.bridge b signer).workload = [x 1] := by
  intro x signer a b
  have ha : Gathered ⟨"a"⟩ ⟨0⟩ a := ⟨_, by decide +kernel, rfl⟩
  have hb : Gathered ⟨"a"⟩ ⟨1⟩ b := ⟨_, by decide +kernel, rfl⟩
  have hu := unvoted_of_gathered ha
  have hperm := hu.wellFormed.perm_bridge hu.ballot (unvoted_of_gathered hb).wellFormed signer
  have hwa : a.workload = [x 1] := by decide +kernel
  have hwb : b.workload = [x 2] := by decide +kernel
  have hc : (b.store.pendingEvents.filter fun e => a.knows e.proof).flatMap (·.transactions) =
      [x 2] := by decide +kernel
  rw [hwa, hwb, hc] at hperm
  refine ⟨ha, hb, hwa, hwb, List.perm_singleton.mp ?_⟩
  exact (List.perm_append_right_iff [x 2]).mp hperm

end Replica

end ShardGossip

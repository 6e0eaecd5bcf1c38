import Mathlib.Data.List.Nodup
import ShardGossip.EventStore

/-!
# ShardGossip.Proofs.Store

**A store is an index with a queue.** The index says which events are pending, the queue in which
order they are to be elected. Each operation is described here once by what it does to a look-up;
the well-formedness of a store (`EventStore.WellFormed`) ties the queue to the index, and every
operation keeps it.
-/

namespace ShardGossip

/-! ### Results -/

theorem bind_eq_ok {ε α β : Type} {result : Except ε α} {f : α → Except ε β} {y : β} :
    result >>= f = .ok y ↔ ∃ x, result = .ok x ∧ f x = .ok y := by
  cases result with
  | error e => exact ⟨nofun, fun ⟨_, h, _⟩ => nomatch h⟩
  | ok x =>
      refine ⟨fun h => ⟨x, rfl, h⟩, ?_⟩
      rintro ⟨_, h, hf⟩
      cases h
      exact hf

/-! ### Sets and maps

Comparing keys is deciding whether they are equal, for all the keys that are used here. -/

section Keys

variable {α β : Type} [Ord α] [Std.TransOrd α]

theorem contains_iff_getElem? {m : Std.ExtTreeMap α β} {a : α} :
    m.contains a ↔ ∃ v, m[a]? = some v := by
  rw [Std.ExtTreeMap.contains_eq_isSome_getElem?, Option.isSome_iff_exists]

variable [Std.LawfulEqOrd α]

theorem contains_insert_iff {s : Std.ExtTreeSet α} {a b : α} :
    (s.insert a).contains b ↔ a = b ∨ s.contains b := by
  rw [Std.ExtTreeSet.contains_insert, Bool.or_eq_true, beq_iff_eq,
    Std.LawfulEqCmp.compare_eq_iff_eq]

theorem contains_foldl_insert {s : Std.ExtTreeSet α} {as : List α} {a : α} :
    (as.foldl (·.insert ·) s).contains a ↔ a ∈ as ∨ s.contains a := by
  induction as generalizing s with
  | nil => simp
  | cons b rest ih =>
      rw [List.foldl_cons, ih, contains_insert_iff, List.mem_cons, eq_comm (a := b), or_assoc,
        or_left_comm]

theorem contains_erase_iff {s : Std.ExtTreeSet α} {a b : α} :
    (s.erase a).contains b ↔ a ≠ b ∧ s.contains b := by
  rw [Std.ExtTreeSet.contains_erase, Bool.and_eq_true, bne_iff_ne, ne_eq,
    Std.LawfulEqCmp.compare_eq_iff_eq]

theorem contains_foldl_erase {s : Std.ExtTreeSet α} {as : List α} {a : α} :
    (as.foldl (·.erase ·) s).contains a ↔ a ∉ as ∧ s.contains a := by
  induction as generalizing s with
  | nil => simp
  | cons b rest ih =>
      rw [List.foldl_cons, ih, contains_erase_iff, List.mem_cons, not_or, and_left_comm, and_assoc,
        ne_comm]

theorem getElem?_insert_eq [DecidableEq α] {m : Std.ExtTreeMap α β} {a b : α} {v : β} :
    (m.insert a v)[b]? = if a = b then some v else m[b]? := by
  rw [Std.ExtTreeMap.getElem?_insert]
  simp only [Std.LawfulEqCmp.compare_eq_iff_eq]

/-- What is there need not be inserted. -/
theorem insert_of_getElem? [DecidableEq α] {m : Std.ExtTreeMap α β} {a : α} {v : β}
    (h : m[a]? = some v) : m.insert a v = m := by
  apply Std.ExtTreeMap.ext_getElem?
  intro b
  rw [getElem?_insert_eq]
  split
  · rename_i hb
    exact hb ▸ h.symm
  · rfl

theorem insert_of_contains {s : Std.ExtTreeSet α} {a : α} (h : s.contains a) : s.insert a = s := by
  apply Std.ExtTreeSet.ext_contains
  intro b
  rw [Bool.eq_iff_iff, contains_insert_iff]
  exact ⟨fun hb => hb.elim (fun hb => hb ▸ h) id, .inr⟩

theorem getElem?_erase_eq [DecidableEq α] {m : Std.ExtTreeMap α β} {a b : α} :
    (m.erase a)[b]? = if a = b then none else m[b]? := by
  rw [Std.ExtTreeMap.getElem?_erase]
  simp only [Std.LawfulEqCmp.compare_eq_iff_eq]

/-- What a filtered map holds, it held before and passed. -/
theorem getElem?_filter_eq_some {m : Std.ExtTreeMap α β} {f : α → β → Bool} {a : α} {v : β} :
    (m.filter f)[a]? = some v ↔ m[a]? = some v ∧ f a v := by
  rw [Std.ExtTreeMap.getElem?_filter', Option.filter_eq_some_iff]

/-- A map that was built from entries with different keys has these entries. -/
theorem getElem?_foldl_insert [DecidableEq α] {l : List (α × β)}
    (hd : l.Pairwise fun a b => ¬compare a.1 b.1 = .eq) {a : α} {v : β} :
    (l.foldl (fun m e => m.insert e.1 e.2) (∅ : Std.ExtTreeMap α β))[a]? = some v ↔
      (a, v) ∈ l := by
  rw [← Std.ExtTreeMap.insertMany_list_eq_foldl]
  have hmem {w : β} (h : (a, w) ∈ l) :
      (Std.ExtTreeMap.insertMany (∅ : Std.ExtTreeMap α β) l)[a]? = some w :=
    Std.ExtTreeMap.getElem?_insertMany_list_of_mem Std.ReflCmp.compare_self hd h
  refine ⟨fun h => ?_, hmem⟩
  by_cases ha : a ∈ l.map Prod.fst
  · obtain ⟨⟨_, w⟩, hw, rfl⟩ := List.mem_map.mp ha
    rw [hmem hw] at h
    cases h
    exact hw
  · rw [Std.ExtTreeMap.getElem?_insertMany_list_of_contains_eq_false (by simpa using ha)] at h
    simp at h

end Keys

/-! ### Lists with different keys -/

section Different

variable {α β : Type} {key : α → β} {l : List α} {a : α}

/-- Around an element there are those with other keys. -/
theorem key_ne_of_nodup {before after : List α} (h : ((before ++ a :: after).map key).Nodup) :
    ∀ b ∈ before ++ after, key b ≠ key a := by
  rw [List.map_append, List.map_cons, List.nodup_middle, List.nodup_cons, ← List.map_append] at h
  exact fun b hb he => h.1 (List.mem_map.mpr ⟨b, hb, he⟩)

variable [DecidableEq β]

theorem find?_key (h : (l.map key).Nodup) (ha : a ∈ l) : l.find? (key · = key a) = some a := by
  obtain ⟨b, hb⟩ := Option.isSome_iff_exists.mp
    (List.find?_isSome (p := (key · = key a)).mpr ⟨a, ha, decide_eq_true rfl⟩)
  have hk : key b = key a := by simpa using List.find?_some hb
  rw [hb, List.inj_on_of_nodup_map h (List.mem_of_find?_eq_some hb) ha hk]

/-- Apart from an element there are those with other keys. -/
theorem perm_cons_filter_key (h : (l.map key).Nodup) (ha : a ∈ l) :
    l.Perm (a :: l.filter (key · ≠ key a)) := by
  induction l with
  | nil => cases ha
  | cons b rest ih =>
      rw [List.map_cons, List.nodup_cons] at h
      rcases List.mem_cons.mp ha with rfl | hr
      · rw [List.filter_cons_of_neg (by simp), List.filter_eq_self.mpr]
        intro b hb
        exact decide_eq_true fun he => h.1 (List.mem_map.mpr ⟨b, hb, he⟩)
      · rw [List.filter_cons_of_pos]
        · exact ((ih h.2 hr).cons b).trans (.swap a b _)
        · exact decide_eq_true fun he => h.1 (List.mem_map.mpr ⟨a, hr, he.symm⟩)

end Different

/-! ### Changing some elements of a list -/

section Some

variable {α β : Type} {p : α → Prop} [DecidablePred p] {change : α → α} {l : List α}

theorem map_ite_eq_self (h : ∀ a ∈ l, p a → change a = a) :
    l.map (fun a => if p a then change a else a) = l := by
  refine (List.map_congr_left fun a ha => ?_).trans (List.map_id' l)
  split
  · rename_i hp
    exact h a ha hp
  · rfl

/-- What the change keeps of an element, it keeps of all. -/
theorem map_map_ite {f : α → β} (h : ∀ a, f (change a) = f a) (l : List α) :
    (l.map fun a => if p a then change a else a).map f = l.map f := by
  rw [List.map_map]
  refine List.map_congr_left fun a _ => ?_
  rw [Function.comp_apply]
  split
  · exact h a
  · rfl

end Some

/-! ### The first element for each key -/

section FirstPerKey

variable {α κ : Type} [DecidableEq κ] {key : α → κ}

/-- The first element for each key, in order; keys in `seen` are left out. -/
def firstPerKey (key : α → κ) (seen : List κ) : List α → List α
  | [] => []
  | a :: rest =>
    if key a ∈ seen then firstPerKey key seen rest
    else a :: firstPerKey key (key a :: seen) rest

/-- Every key that is not left out has its first element. -/
theorem mem_map_firstPerKey {k : κ} {seen : List κ} {l : List α} :
    k ∈ (firstPerKey key seen l).map key ↔ k ∈ l.map key ∧ k ∉ seen := by
  induction l generalizing seen with
  | nil => simp [firstPerKey]
  | cons b rest ih =>
      unfold firstPerKey
      split
      · rename_i hb
        rw [ih, List.map_cons, List.mem_cons]
        constructor
        · rintro ⟨h, hs⟩
          exact ⟨Or.inr h, hs⟩
        · rintro ⟨rfl | h, hs⟩
          · exact absurd hb hs
          · exact ⟨h, hs⟩
      · rename_i hb
        rw [List.map_cons, List.mem_cons, ih, List.map_cons, List.mem_cons, List.mem_cons]
        constructor
        · rintro (rfl | ⟨h, hs⟩)
          · exact ⟨Or.inl rfl, hb⟩
          · exact ⟨Or.inr h, fun h' => hs (Or.inr h')⟩
        · rintro ⟨rfl | h, hs⟩
          · exact Or.inl rfl
          · by_cases hk : k = key b
            · exact Or.inl hk
            · exact Or.inr ⟨h, fun h' => h'.elim hk hs⟩

theorem nodup_map_firstPerKey (seen : List κ) (l : List α) :
    ((firstPerKey key seen l).map key).Nodup := by
  induction l generalizing seen with
  | nil => simp [firstPerKey]
  | cons b rest ih =>
      unfold firstPerKey
      split
      · exact ih seen
      · rw [List.map_cons, List.nodup_cons, mem_map_firstPerKey]
        exact ⟨fun h => h.2 List.mem_cons_self, ih _⟩

/-- Of the elements whose keys are not left out, those stay that repeat no earlier key. -/
theorem firstPerKey_eq (key : α → κ) (seen : List κ) (l : List α) :
    firstPerKey key seen l =
      (l.filter (key · ∉ seen)).eraseDupsBy fun b a => key b == key a := by
  induction l generalizing seen with
  | nil => rfl
  | cons a rest ih =>
      unfold firstPerKey
      split
      · rename_i ha
        rw [ih, List.filter_cons_of_neg (by simpa using ha)]
      · rename_i ha
        rw [ih, List.filter_cons_of_pos (by simpa using ha), List.eraseDupsBy_cons,
          List.filter_filter]
        refine congrArg (a :: List.eraseDupsBy _ ·) (List.filter_congr fun b _ => ?_)
        simp [not_or]

theorem firstPerKey_id_eq (l : List κ) : firstPerKey id [] l = l.eraseDups := by
  rw [firstPerKey_eq, List.filter_eq_self.mpr fun _ _ => decide_eq_true List.not_mem_nil]
  rfl

theorem nodup_firstPerKey_id (seen l : List κ) : (firstPerKey id seen l).Nodup := by
  have h : ((firstPerKey id seen l).map id).Nodup := nodup_map_firstPerKey seen l
  rwa [List.map_id] at h

end FirstPerKey

/-! ### Lists without repetitions -/

section Repetitions

variable {α : Type} [DecidableEq α]

theorem nodup_eraseDups (l : List α) : l.eraseDups.Nodup :=
  firstPerKey_id_eq l ▸ nodup_firstPerKey_id [] l

theorem eraseDups_eq_self {l : List α} (h : l.Nodup) : l.eraseDups = l := by
  induction l with
  | nil => rfl
  | cons a rest ih =>
      obtain ⟨ha, hr⟩ := List.nodup_cons.mp h
      have hf : rest.filter (fun b => !b == a) = rest := by
        rw [List.filter_eq_self]
        intro b hb
        simpa using fun he : b = a => ha (he ▸ hb)
      rw [List.eraseDups_cons, hf, ih hr]

/-- It makes no difference whether elements are left out before or after. -/
theorem eraseDups_filter (f : α → Bool) (l : List α) :
    (l.filter f).eraseDups = l.eraseDups.filter f := by
  induction h : l.length using Nat.strongRecOn generalizing l with
  | ind n ih =>
      cases l with
      | nil => rfl
      | cons a rest =>
          subst h
          have step :=
            ih _ (Nat.lt_succ_of_le (List.length_filter_le (fun b => !b == a) rest)) _ rfl
          rw [List.eraseDups_cons]
          by_cases ha : f a
          · rw [List.filter_cons_of_pos ha, List.filter_cons_of_pos ha, List.eraseDups_cons, ← step,
              List.filter_filter, List.filter_filter]
            simp only [Bool.and_comm]
          · rw [List.filter_cons_of_neg ha, List.filter_cons_of_neg ha, ← step, List.filter_filter]
            refine congrArg List.eraseDups (List.filter_congr fun b _ => ?_)
            by_cases hb : b = a
            · subst hb
              simp [ha]
            · simp [hb]

/-- What is there already brings nothing. -/
theorem eraseDups_append_of_subset {l rest : List α} (hl : l.Nodup) (h : ∀ a ∈ rest, a ∈ l) :
    (l ++ rest).eraseDups = l := by
  have hr : rest.removeAll l = [] := List.filter_eq_nil_iff.mpr fun a ha => by simpa using h a ha
  rw [List.eraseDups_append, eraseDups_eq_self hl, hr, List.eraseDups_nil, List.append_nil]

end Repetitions

namespace EventStore

/-! ### Looking up -/

theorem contains_eq_isSome (s : EventStore) (p : Proof) : s.contains p = (s.get? p).isSome :=
  Std.ExtTreeMap.contains_eq_isSome_getElem?

theorem contains_iff {s : EventStore} {p : Proof} : s.contains p ↔ ∃ e, s.get? p = some e := by
  rw [contains_eq_isSome, Option.isSome_iff_exists]

theorem contains_of_get? {s : EventStore} {p : Proof} {e : Event} (h : s.get? p = some e) :
    s.contains p :=
  contains_iff.mpr ⟨e, h⟩

@[simp] theorem get?_empty (p : Proof) : (∅ : EventStore).get? p = none :=
  Std.ExtTreeMap.getElem?_empty

@[simp] theorem contains_empty (p : Proof) : (∅ : EventStore).contains p = false := by
  rw [contains_eq_isSome, get?_empty, Option.isSome_none]

/-- A new event is found under its proof; a known proof keeps its event. -/
theorem get?_insert (s : EventStore) (event : Event) (p : Proof) :
    (s.insert event).2.get? p =
      if s.contains event.proof = false ∧ event.proof = p then some event else s.get? p := by
  unfold insert
  split
  · rename_i h
    simp [h]
  · rename_i h
    simp only [Bool.not_eq_true] at h
    simp only [get?, getElem?_insert_eq, h, true_and]

theorem contains_insert (s : EventStore) (event : Event) (p : Proof) :
    (s.insert event).2.contains p ↔ event.proof = p ∨ s.contains p := by
  rw [contains_iff, get?_insert]
  constructor
  · rintro ⟨e, h⟩
    split at h
    · rename_i hp
      exact Or.inl hp.2
    · exact Or.inr (contains_of_get? h)
  · intro h
    by_cases hp : s.contains event.proof = false ∧ event.proof = p
    · exact ⟨event, if_pos hp⟩
    · rw [if_neg hp]
      rcases h with rfl | h
      · exact contains_iff.mp (by simpa using hp)
      · exact contains_iff.mp h

/-- A new event goes to the back of the queue. -/
theorem queue_insert {s : EventStore} {event : Event} (h : s.contains event.proof = false) :
    (s.insert event).2.queue = s.queue ++ [event.proof] := by
  unfold insert
  rw [if_neg (by rw [h]; exact Bool.false_ne_true)]

theorem get?_update (s : EventStore) (p q : Proof) (change : Event → Event) :
    (s.update p change).get? q = if p = q then (s.get? q).map change else s.get? q := by
  unfold update
  split
  · rename_i e he
    simp only [get?, getElem?_insert_eq]
    split
    · rename_i hpq
      subst hpq
      simp [get?] at he
      simp [he]
    · rfl
  · rename_i he
    split
    · rename_i hpq
      subst hpq
      simp [he]
    · rfl

@[simp] theorem contains_update (s : EventStore) (p q : Proof) (change : Event → Event) :
    (s.update p change).contains q = s.contains q := by
  rw [contains_eq_isSome, contains_eq_isSome, get?_update]
  split <;> simp

@[simp] theorem queue_update (s : EventStore) (p : Proof) (change : Event → Event) :
    (s.update p change).queue = s.queue := by
  unfold update
  split <;> rfl

/-- What is stored and in which order is all there is to a store. -/
theorem ext_get? {s s' : EventStore} (hg : ∀ p, s.get? p = s'.get? p)
    (hq : s.queue = s'.queue) : s = s' := by
  obtain ⟨index, queue⟩ := s
  obtain ⟨index', queue'⟩ := s'
  obtain rfl : index = index' := Std.ExtTreeMap.ext_getElem? fun p => hg p
  obtain rfl : queue = queue' := hq
  rfl

@[simp] theorem contains_foldl_update (s : EventStore) (change : Proof → Event → Event)
    (proofs : List Proof) (q : Proof) :
    (proofs.foldl (fun s p => s.update p (change p)) s).contains q = s.contains q := by
  induction proofs generalizing s with
  | nil => rfl
  | cons p rest ih => rw [List.foldl_cons, ih, contains_update]

/-- A change that leaves the event as it is leaves the store as it is. -/
theorem update_of_get? {s : EventStore} {p : Proof} {e : Event} {change : Event → Event}
    (he : s.get? p = some e) (hc : change e = e) : s.update p change = s := by
  unfold update
  rw [he]
  dsimp only
  rw [hc, insert_of_getElem? he]

/-- A change that is made again where it was made changes nothing more. -/
theorem update_update (s : EventStore) (p : Proof) {change : Event → Event}
    (h : ∀ e, change (change e) = change e) :
    (s.update p change).update p change = s.update p change := by
  refine ext_get? (fun q => ?_) (by simp)
  rw [get?_update, get?_update]
  split
  · simp only [Option.map_map, Function.comp_def, h]
  · rfl

theorem get?_remove (s : EventStore) (p q : Proof) :
    (s.remove p).2.get? q = if p = q then none else s.get? q := by
  unfold remove
  split
  · exact getElem?_erase_eq
  · rename_i he
    split
    · rename_i hpq
      exact hpq ▸ he
    · rfl

theorem contains_remove (s : EventStore) (p q : Proof) :
    (s.remove p).2.contains q ↔ p ≠ q ∧ s.contains q := by
  rw [contains_eq_isSome, contains_eq_isSome, get?_remove]
  split <;> simp_all

/-- What stays in the queue stays in its order. -/
theorem sublist_queue_remove {s : EventStore} {p : Proof} {l : List Proof} (h : l.Sublist s.queue)
    (hp : p ∉ l) : l.Sublist (s.remove p).2.queue := by
  have hl : l.filter (· ≠ p) = l := by
    rw [List.filter_eq_self]
    intro q hq
    rw [decide_eq_true_eq]
    exact fun he => hp (he ▸ hq)
  unfold remove
  split
  · exact hl ▸ h.filter _
  · exact h

/-! ### Well-formed stores -/

/-- Queue and index hold the same proofs, and every event is stored under its own. -/
structure WellFormed (s : EventStore) : Prop where
  keyed : ∀ {p e}, s.get? p = some e → e.proof = p
  queued : ∀ {p}, p ∈ s.queue ↔ s.contains p
  nodup : s.queue.Nodup

theorem wellFormed_empty : (∅ : EventStore).WellFormed where
  keyed h := by simp at h
  queued := by simp [show (∅ : EventStore).queue = [] from rfl]
  nodup := List.nodup_nil

theorem WellFormed.insert {s : EventStore} (h : s.WellFormed) (event : Event) :
    (s.insert event).2.WellFormed where
  keyed {p e} he := by
    rw [get?_insert] at he
    split at he
    · rename_i hp
      exact Option.some.inj he ▸ hp.2
    · exact h.keyed he
  queued {p} := by
    rw [contains_insert]
    unfold EventStore.insert
    split
    · rename_i hc
      rw [h.queued]
      exact ⟨Or.inr, fun hp => hp.elim (fun hp => hp ▸ hc) id⟩
    · rw [List.mem_append, List.mem_singleton, h.queued, or_comm, eq_comm]
  nodup := by
    unfold EventStore.insert
    split
    · exact h.nodup
    · rename_i hc
      refine List.nodup_append.mpr ⟨h.nodup, List.pairwise_singleton _ _, ?_⟩
      intro a ha b hb hab
      rw [List.mem_singleton] at hb
      exact hc (hb ▸ hab ▸ h.queued.mp ha)

theorem WellFormed.update {s : EventStore} (h : s.WellFormed) (p : Proof)
    {change : Event → Event} (hc : ∀ e, (change e).proof = e.proof) :
    (s.update p change).WellFormed where
  keyed {q e} he := by
    rw [get?_update] at he
    split at he
    · obtain ⟨e', he', rfl⟩ := Option.map_eq_some_iff.mp he
      exact (hc e').trans (h.keyed he')
    · exact h.keyed he
  queued := by
    intro q
    rw [queue_update, contains_update]
    exact h.queued
  nodup := by
    rw [queue_update]
    exact h.nodup

theorem WellFormed.remove {s : EventStore} (h : s.WellFormed) (p : Proof) :
    (s.remove p).2.WellFormed where
  keyed {q e} he := by
    rw [get?_remove] at he
    split at he
    · cases he
    · exact h.keyed he
  queued {q} := by
    rw [contains_remove]
    unfold EventStore.remove
    split
    · rw [List.mem_filter, h.queued, decide_eq_true_eq, and_comm, ne_comm]
    · rename_i he
      rw [h.queued]
      refine ⟨fun hq => ⟨?_, hq⟩, And.right⟩
      rintro rfl
      simp [contains_eq_isSome, he] at hq
  nodup := by
    unfold EventStore.remove
    split
    · exact h.nodup.sublist List.filter_sublist
    · exact h.nodup

/-! ### Foreign queues -/

/-- The proofs among the events' that are not stored, each once, in order. -/
def unknown (s : EventStore) (events : List Event) : List Proof :=
  ((events.map (·.proof)).filter (!s.contains ·)).eraseDups

theorem mem_unknown {s : EventStore} {events : List Event} {p : Proof} :
    p ∈ s.unknown events ↔ p ∈ events.map (·.proof) ∧ s.contains p = false := by
  rw [unknown, List.mem_eraseDups, List.mem_filter, Bool.not_eq_true']

theorem unknown_cons (s : EventStore) (event : Event) (rest : List Event) :
    s.unknown (event :: rest) = if s.contains event.proof then s.unknown rest
      else event.proof :: (s.insert event).2.unknown rest := by
  unfold unknown
  rw [List.map_cons]
  split
  · rename_i hc
    rw [List.filter_cons_of_neg (by simp [hc])]
  · rename_i hc
    rw [List.filter_cons_of_pos (by simpa using hc), List.eraseDups_cons, List.filter_filter]
    refine congrArg (event.proof :: List.eraseDups ·) (List.filter_congr fun q _ => ?_)
    rw [Bool.eq_iff_iff, Bool.not_eq_true', Bool.eq_false_iff, ne_eq, contains_insert, not_or,
      Bool.and_eq_true, Bool.not_eq_true', Bool.not_eq_true', beq_eq_false_iff_ne,
      Bool.not_eq_true, ne_comm]

theorem append_cons (s : EventStore) (event : Event) (rest : List Event) :
    s.append (event :: rest) = if s.contains event.proof then s.append rest
      else (event.proof :: ((s.insert event).2.append rest).1,
        ((s.insert event).2.append rest).2) := by
  by_cases hc : s.contains event.proof
  · have hi : s.insert event = (false, s) := by rw [insert, if_pos hc]
    rw [append, hi, if_pos hc]
    rfl
  · have hi : (s.insert event).1 = true := by rw [insert, if_neg hc]
    rw [if_neg hc]
    exact Prod.ext (if_pos hi) rfl

/-- Appending events puts the unknown ones to the back of the queue, each once. -/
theorem append_unknown (s : EventStore) (events : List Event) :
    (s.append events).1 = s.unknown events ∧
      (s.append events).2.queue = s.queue ++ s.unknown events := by
  induction events generalizing s with
  | nil => exact ⟨rfl, (List.append_nil _).symm⟩
  | cons event rest ih =>
      rw [append_cons, unknown_cons]
      split
      · exact ih s
      · rename_i hc
        obtain ⟨ha, hq⟩ := ih (s.insert event).2
        refine ⟨congrArg _ ha, hq.trans ?_⟩
        rw [queue_insert (by simpa using hc), List.append_assoc, List.singleton_append]

/-- Appending keeps what is stored, and takes everything else from the events. -/
theorem get?_append (s : EventStore) (events : List Event) (p : Proof) :
    (s.append events).2.get? p = (s.get? p).or (events.find? (·.proof == p)) := by
  induction events generalizing s with
  | nil => exact (Option.or_none).symm
  | cons event rest ih =>
      rw [append_cons]
      split
      · rename_i hc
        rw [ih, List.find?_cons]
        by_cases hp : event.proof = p
        · obtain ⟨e, he⟩ := contains_iff.mp (hp ▸ hc)
          rw [he, Option.some_or, Option.some_or]
        · rw [beq_eq_false_iff_ne.mpr hp]
      · rename_i hc
        rw [Bool.not_eq_true] at hc
        rw [ih, get?_insert, List.find?_cons]
        by_cases hp : event.proof = p
        · -- the first event with a proof gets in
          have hn : s.get? p = none := by
            rw [← Option.not_isSome_iff_eq_none, ← contains_eq_isSome, ← hp, hc]
            exact Bool.false_ne_true
          rw [if_pos ⟨hc, hp⟩, hn, beq_iff_eq.mpr hp, Option.some_or, Option.none_or]
        · rw [if_neg fun h => hp h.2, beq_eq_false_iff_ne.mpr hp]

namespace Reordering

theorem foldl_place (proofs : List Proof) (q : Reordering) :
    let q' := proofs.foldl place q
    q'.order = q.order ++ firstPerKey id q.seen proofs ∧ q'.added = q.added ∧
      q'.index = q.index := by
  induction proofs generalizing q with
  | nil => exact ⟨(List.append_nil _).symm, rfl, rfl⟩
  | cons p rest ih =>
      rw [List.foldl_cons, firstPerKey]
      by_cases hp : p ∈ q.seen
      · rw [place, if_pos hp, if_pos (show id p ∈ q.seen from hp)]
        exact ih q
      · rw [place, if_neg hp, if_neg (show id p ∉ q.seen from hp)]
        obtain ⟨ho, hrest⟩ := ih { q with seen := p :: q.seen, order := q.order ++ [p] }
        exact ⟨ho.trans (List.append_assoc ..), hrest⟩

/-- Taking events orders their proofs, and adds what appending them adds. -/
theorem foldl_take (events : List Event) (q : Reordering) (h : ∀ p ∈ q.seen, q.index.contains p)
    (s : EventStore) (hs : s.index = q.index) :
    let q' := events.foldl take q
    (∀ l, q'.order ++ firstPerKey id q'.seen l =
        q.order ++ firstPerKey id q.seen (events.map (·.proof) ++ l)) ∧
      q'.added = q.added ++ (s.append events).1 ∧ q'.index = (s.append events).2.index := by
  induction events generalizing q s with
  | nil => exact ⟨fun _ => rfl, (List.append_nil _).symm, hs.symm⟩
  | cons event rest ih =>
      have hc : s.contains event.proof = q.index.contains event.proof :=
        congrArg (·.contains event.proof) hs
      rw [List.foldl_cons, List.map_cons, append_cons, hc]
      by_cases hp : event.proof ∈ q.seen
      · rw [take, if_pos hp, if_pos (h _ hp)]
        simpa only [List.cons_append, firstPerKey, id, if_pos hp] using ih q h s hs
      · rw [take, if_neg hp, place, if_neg hp]
        dsimp only
        split
        · rename_i hk
          obtain ⟨ho, ha, hi⟩ := ih { q with
            seen := event.proof :: q.seen, order := q.order ++ [event.proof] }
            (List.forall_mem_cons.mpr ⟨hk, h⟩) s hs
          refine ⟨fun l => (ho l).trans ?_, ha, hi⟩
          simp [firstPerKey, hp]
        · rename_i hk
          have hi' : (s.insert event).2.index = q.index.insert event.proof event := by
            rw [EventStore.insert, if_neg (hc ▸ hk), hs]
          have hseen : ∀ p ∈ event.proof :: q.seen,
              (q.index.insert event.proof event).contains p := by
            intro p hm
            rcases List.mem_cons.mp hm with rfl | hm
            · simp
            · simp [h p hm]
          obtain ⟨ho, ha, hi⟩ := ih ⟨event.proof :: q.seen, q.order ++ [event.proof],
            q.added ++ [event.proof], q.index.insert event.proof event⟩ hseen
            (s.insert event).2 hi'
          refine ⟨fun l => (ho l).trans ?_, ha.trans (List.append_assoc ..), hi⟩
          simp [firstPerKey, hp]

end Reordering

/-- Replacing the queue adds what appending adds; the given proofs come first, each once. -/
theorem replaceWith_eq (s : EventStore) (events : List Event) :
    s.replaceWith events = ((s.append events).1, ⟨(s.append events).2.index,
      firstPerKey id [] (events.map (·.proof) ++ s.queue)⟩) := by
  obtain ⟨ho, ha, hi⟩ := Reordering.foldl_take events ⟨[], [], [], s.index⟩
    (List.forall_mem_nil _) s rfl
  obtain ⟨ho', ha', hi'⟩ := Reordering.foldl_place s.queue
    (events.foldl Reordering.take ⟨[], [], [], s.index⟩)
  simp only [replaceWith, Prod.mk.injEq, EventStore.mk.injEq]
  exact ⟨ha'.trans ha, hi'.trans hi, ho'.trans (ho s.queue)⟩

theorem added_replaceWith (s : EventStore) (events : List Event) :
    (s.replaceWith events).1 = s.unknown events := by
  rw [replaceWith_eq]
  exact (s.append_unknown events).1

theorem queue_replaceWith (s : EventStore) (events : List Event) :
    (s.replaceWith events).2.queue = (events.map (·.proof) ++ s.queue).eraseDups := by
  rw [replaceWith_eq]
  exact firstPerKey_id_eq _

/-- Both ways of taking over a queue store the same events. -/
theorem get?_replaceWith (s : EventStore) (events : List Event) (p : Proof) :
    (s.replaceWith events).2.get? p = (s.get? p).or (events.find? (·.proof == p)) := by
  rw [replaceWith_eq]
  exact s.get?_append events p

theorem isSome_or_find? {s : EventStore} {events : List Event} {p : Proof} :
    ((s.get? p).or (events.find? (·.proof == p))).isSome ↔
      s.contains p ∨ p ∈ events.map (·.proof) := by
  rw [Option.isSome_or, Bool.or_eq_true, ← contains_eq_isSome, List.find?_isSome]
  simp only [beq_iff_eq, List.mem_map]

theorem contains_replaceWith (s : EventStore) (events : List Event) (p : Proof) :
    (s.replaceWith events).2.contains p ↔ s.contains p ∨ p ∈ events.map (·.proof) := by
  rw [contains_eq_isSome, get?_replaceWith, isSome_or_find?]

theorem contains_append (s : EventStore) (events : List Event) (p : Proof) :
    (s.append events).2.contains p ↔ s.contains p ∨ p ∈ events.map (·.proof) := by
  rw [contains_eq_isSome, get?_append, isSome_or_find?]

/-- A queue of stored events brings nothing. -/
theorem append_of_contains {s : EventStore} {events : List Event}
    (h : ∀ e ∈ events, s.contains e.proof) : s.append events = ([], s) := by
  induction events with
  | nil => rfl
  | cons event rest ih =>
      rw [append_cons, if_pos (h event List.mem_cons_self)]
      exact ih fun e he => h e (List.mem_cons_of_mem _ he)

/-- What the index takes from the events is stored under its own proof. -/
theorem proof_of_or_find? {s : EventStore} (h : s.WellFormed) {events : List Event} {p : Proof}
    {e : Event} (he : (s.get? p).or (events.find? (·.proof == p)) = some e) : e.proof = p := by
  rcases Option.or_eq_some_iff.mp he with he | ⟨-, he⟩
  · exact h.keyed he
  · simpa using List.find?_some he

theorem WellFormed.replaceWith {s : EventStore} (h : s.WellFormed) (events : List Event) :
    (s.replaceWith events).2.WellFormed where
  keyed he := proof_of_or_find? h ((get?_replaceWith s events _).symm.trans he)
  queued {p} := by
    rw [contains_replaceWith, or_comm, ← h.queued, ← List.mem_append, queue_replaceWith,
      List.mem_eraseDups]
  nodup := queue_replaceWith s events ▸ nodup_eraseDups _

theorem WellFormed.append {s : EventStore} (h : s.WellFormed) (events : List Event) :
    (s.append events).2.WellFormed where
  keyed he := proof_of_or_find? h ((get?_append s events _).symm.trans he)
  queued {p} := by
    rw [contains_append, (s.append_unknown events).2, List.mem_append, mem_unknown, h.queued]
    by_cases hp : s.contains p <;> simp [hp]
  nodup := by
    rw [(s.append_unknown events).2]
    refine List.nodup_append.mpr ⟨h.nodup, nodup_eraseDups _, ?_⟩
    intro a ha b hb hab
    have hs := (mem_unknown.mp hb).2
    rw [h.queued.mp (hab ▸ ha)] at hs
    cases hs

theorem WellFormed.foldl_update {s : EventStore} (h : s.WellFormed)
    {change : Proof → Event → Event} (hc : ∀ p e, (change p e).proof = e.proof)
    (proofs : List Proof) :
    (proofs.foldl (fun s p => s.update p (change p)) s).WellFormed := by
  induction proofs generalizing s with
  | nil => exact h
  | cons p rest ih => exact ih (h.update p (hc p))

/-! ### Pending events -/

/-- Index and queue have the same size. -/
theorem WellFormed.isConsistent {s : EventStore} (h : s.WellFormed) :
    s.isConsistent := by
  have hperm : s.queue.Perm s.index.keys := by
    rw [List.perm_ext_iff_of_nodup h.nodup Std.ExtTreeMap.nodup_keys]
    intro p
    rw [h.queued, Std.ExtTreeMap.mem_keys, Std.ExtTreeMap.mem_iff_contains]
    rfl
  unfold EventStore.isConsistent
  rw [Bool.and_eq_true, beq_iff_eq, List.all_eq_true, hperm.length_eq, Std.ExtTreeMap.length_keys]
  exact ⟨rfl, fun p hp => h.queued.mp hp⟩

/-- The pending events stand in the queue. -/
theorem WellFormed.map_pendingEvents {s : EventStore} (h : s.WellFormed) :
    s.pendingEvents.map (·.proof) = s.queue := by
  have hq : ∀ p ∈ s.queue, (s.get? p).map (·.proof) = some p := by
    intro p hp
    obtain ⟨e, he⟩ := contains_iff.mp (h.queued.mp hp)
    rw [he, Option.map_some, h.keyed he]
  rw [pendingEvents, List.map_filterMap]
  exact (List.filterMap_congr hq).trans List.filterMap_some

theorem WellFormed.mem_pendingEvents {s : EventStore} (h : s.WellFormed) {e : Event} :
    e ∈ s.pendingEvents ↔ s.get? e.proof = some e := by
  rw [pendingEvents, List.mem_filterMap]
  constructor
  · rintro ⟨p, -, hp⟩
    rw [h.keyed hp]
    exact hp
  · exact fun he => ⟨e.proof, h.queued.mpr (contains_of_get? he), he⟩

/-! ### Many changes -/

section Many

variable {change : Proof → Event → Event}

@[simp] theorem queue_foldl_update (s : EventStore) (proofs : List Proof) :
    (proofs.foldl (fun s q => s.update q (change q)) s).queue = s.queue := by
  induction proofs generalizing s with
  | nil => rfl
  | cons p rest ih => rw [List.foldl_cons, ih, queue_update]

/-- A change that is made again where it was made changes nothing more. -/
theorem get?_foldl_update (h : ∀ p e, change p (change p e) = change p e) (s : EventStore)
    (proofs : List Proof) (p : Proof) :
    (proofs.foldl (fun s q => s.update q (change q)) s).get? p =
      if p ∈ proofs then (s.get? p).map (change p) else s.get? p := by
  induction proofs generalizing s with
  | nil => rfl
  | cons q rest ih =>
      rw [List.foldl_cons, ih, get?_update]
      by_cases hq : q = p
      · subst hq
        by_cases hr : q ∈ rest <;> simp [hr, Function.comp_def, h]
      · simp [hq, Ne.symm hq]

/-- Every pending event is changed. -/
theorem pendingEvents_foldl_update {change : Event → Event}
    (h : ∀ e, change (change e) = change e) (s : EventStore) :
    (s.queue.foldl (·.update · change) s).pendingEvents = s.pendingEvents.map change := by
  unfold pendingEvents
  rw [queue_foldl_update, List.map_filterMap]
  exact List.filterMap_congr fun p hp => by rw [get?_foldl_update fun _ => h, if_pos hp]

end Many

theorem get?_foldl_remove (s : EventStore) (proofs : List Proof) (p : Proof) :
    (proofs.foldl (fun s q => (s.remove q).2) s).get? p =
      if p ∈ proofs then none else s.get? p := by
  induction proofs generalizing s with
  | nil => rfl
  | cons q rest ih =>
      rw [List.foldl_cons, ih, get?_remove]
      by_cases hr : p ∈ rest
      · rw [if_pos hr, if_pos (List.mem_cons_of_mem q hr)]
      · rw [if_neg hr]
        simp only [List.mem_cons, hr, or_false, eq_comm]

theorem contains_foldl_remove (s : EventStore) (proofs : List Proof) (p : Proof) :
    (proofs.foldl (fun s q => (s.remove q).2) s).contains p ↔ p ∉ proofs ∧ s.contains p := by
  rw [contains_eq_isSome, get?_foldl_remove, contains_eq_isSome]
  split <;> simp_all

theorem WellFormed.foldl_remove {s : EventStore} (h : s.WellFormed) (proofs : List Proof) :
    (proofs.foldl (fun s q => (s.remove q).2) s).WellFormed := by
  induction proofs generalizing s with
  | nil => exact h
  | cons q rest ih => exact ih (h.remove q)

end EventStore

end ShardGossip

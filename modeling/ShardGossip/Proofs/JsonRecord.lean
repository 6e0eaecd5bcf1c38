import Mathlib.Data.List.Nodup
import ShardGossip.Json.Record
import ShardGossip.Proofs.JsonGrammar

/-!
# ShardGossip.Proofs.JsonRecord

**What a reader of records makes of an object.** All that counts of the members is how often each
field is there and with what value: a field that is there once is read from that value (`Holds`),
one that may be left out has its own value when it is (`MayHold`), and a field that is there twice
makes the whole unreadable (`slots?_repeated`). The order of the members makes no difference, and
neither do members with other names.
-/

namespace ShardGossip.Json

open Json.Value

theorem mapM_map_eq_some {α β γ : Type} {f : α → β} {g : β → Option γ} {h : α → γ} {l : List α}
    (hg : ∀ a ∈ l, g (f a) = some (h a)) : (l.map f).mapM g = some (l.map h) := by
  induction l with
  | nil => rfl
  | cons a rest ih =>
      rw [List.map_cons, List.mapM_cons, hg a List.mem_cons_self,
        ih fun b hb => hg b (List.mem_cons_of_mem _ hb)]
      rfl

theorem mapM_eq_none {α β : Type} {f : α → Option β} {l : List α} {a : α} (ha : a ∈ l)
    (h : f a = none) : l.mapM f = none := by
  induction l with
  | nil => cases ha
  | cons b rest ih =>
      rw [List.mapM_cons]
      rcases List.mem_cons.mp ha with rfl | ha
      · rw [h]
        rfl
      · rw [ih ha]
        cases f b <;> rfl

/-! ### Fields of a record -/

section Fields

variable {α : Type} {members : List (String × Value)} {name : String} {names : List String}
  {right : Value → Prop} {unset : Prop} {a default : α}

/-- How many members have a name. -/
def timesNamed (members : List (String × Value)) (name : String) : Nat :=
  (members.map Prod.fst).count name

/-- The field is there once, with a value that is right for it. -/
def Holds (members : List (String × Value)) (name : String) (right : Value → Prop) : Prop :=
  timesNamed members name = 1 ∧ ∃ v, (name, v) ∈ members ∧ right v

/-- The field is there once, or it is left out and unset. -/
def MayHold (members : List (String × Value)) (name : String) (right : Value → Prop)
    (unset : Prop) : Prop :=
  Holds members name right ∨ timesNamed members name = 0 ∧ unset

theorem holds_of_mem (h : timesNamed members name ≤ 1) {v : Value} (hv : (name, v) ∈ members)
    (hright : right v) : Holds members name right :=
  ⟨Nat.le_antisymm h (List.count_pos_iff.mpr (List.mem_map.mpr ⟨_, hv, rfl⟩)), v, hv, hright⟩

theorem holds_of_nodup (h : (members.map Prod.fst).Nodup) {v : Value} (hv : (name, v) ∈ members)
    (hright : right v) : Holds members name right :=
  holds_of_mem (List.nodup_iff_count_le_one.mp h name) hv hright

theorem length_membersNamed :
    (membersNamed name (keyed members)).length = timesNamed members name := by
  rw [membersNamed, List.length_map, ← List.countP_eq_length_filter, keyed, List.countP_map,
    timesNamed, List.count, List.countP_map]
  rfl

theorem mem_membersNamed {v : Value} :
    v ∈ membersNamed name (keyed members) ↔ (name, v) ∈ members := by
  simp [membersNamed, keyed]

/-- What the record holds for a field, if that is not repeated. -/
def slotOf (members : List (String × Value)) (name : String) : Slot :=
  (membersNamed name (keyed members)).head?.elim .missing .given

theorem slotOfMembers?_keyed : slotOfMembers? (keyed members) name =
    if timesNamed members name ≤ 1 then some (slotOf members name) else none := by
  rw [slotOfMembers?, slotOf, ← length_membersNamed]
  rcases membersNamed name (keyed members) with _ | ⟨v, _ | ⟨w, rest⟩⟩ <;> simp

/-- **The slots of a record.** It is read if it repeats none of the fields. -/
theorem slots?_record : slots? names (.record members) =
    if ∀ name ∈ names, timesNamed members name ≤ 1 then some (names.map (slotOf members))
    else none := by
  rw [record_eq, slots?, if_pos (by simp [keyed])]
  split
  · next h =>
    have hslot : ∀ name ∈ names, slotOfMembers? (keyed members) name = some (slotOf members name) :=
      fun name hname => slotOfMembers?_keyed.trans (if_pos (h name hname))
    simpa using mapM_map_eq_some (f := id) hslot
  · next h =>
    obtain ⟨name, hname, hrepeated⟩ : ∃ name ∈ names, ¬timesNamed members name ≤ 1 := by
      simpa using h
    exact mapM_eq_none hname (slotOfMembers?_keyed.trans (if_neg hrepeated))

theorem slots?_repeated (hname : name ∈ names) (h : 1 < timesNamed members name) :
    slots? names (.record members) = none := by
  rw [slots?_record, if_neg fun hall => absurd (hall name hname) (by omega)]

theorem slotOf_missing (h : timesNamed members name = 0) : slotOf members name = .missing := by
  rw [← length_membersNamed, List.length_eq_zero_iff] at h
  rw [slotOf, h]
  rfl

theorem Holds.slotOf (h : Holds members name right) :
    ∃ v, slotOf members name = .given v ∧ right v := by
  obtain ⟨hone, v, hv, hright⟩ := h
  rw [← length_membersNamed, List.length_eq_one_iff] at hone
  obtain ⟨w, hw⟩ := hone
  obtain rfl : v = w := List.mem_singleton.mp (hw ▸ mem_membersNamed.mpr hv)
  exact ⟨v, by rw [Json.slotOf, hw]; rfl, hright⟩

theorem Holds.le (h : Holds members name right) : timesNamed members name ≤ 1 :=
  Nat.le_of_eq h.1

theorem MayHold.le (h : MayHold members name right unset) : timesNamed members name ≤ 1 :=
  h.elim Holds.le fun h => h.1 ▸ Nat.zero_le 1

/-- A field that has to be there is read from its value. -/
theorem Holds.required (h : Holds members name right) (read : Value → Option α)
    (hread : ∀ v, right v → read v = some a) :
    (Json.slotOf members name).required read = some a := by
  obtain ⟨v, hslot, hv⟩ := h.slotOf
  rw [hslot]
  exact hread v hv

/-- A field that may be left out is read from its value, or it is the default. -/
theorem MayHold.orElse (h : MayHold members name right unset) (read : Value → Option α)
    (hread : ∀ v, right v → read v = some a) (hdefault : unset → a = default) :
    (Json.slotOf members name).orElse read default = some a := by
  rcases h with h | ⟨hnone, hunset⟩
  · obtain ⟨v, hslot, hv⟩ := h.slotOf
    rw [hslot]
    exact hread v hv
  · rw [slotOf_missing hnone]
    exact congrArg some (hdefault hunset).symm

end Fields

/-! ### Readers of values -/

namespace Value

theorem asList?_array {α : Type} {f : α → Value} {read : Value → Option α} {l : List α}
    (h : ∀ a ∈ l, read (f a) = some a) : (array (l.map f)).asList? read = some l :=
  (mapM_map_eq_some h).trans (congrArg some (List.map_id' l))

theorem asMembers?_record {α β : Type} (key : α → String) {f : α → Value} {g : α → β}
    {read : Value → Option β} {l : List α} (h : ∀ a ∈ l, read (f a) = some (g a)) :
    (record (l.map fun a => (key a, f a))).asMembers? read =
      some (l.map fun a => (key a, g a)) := by
  rw [record_eq, asMembers?, keyed, List.map_map]
  refine mapM_map_eq_some fun a ha => ?_
  simp [h a ha]

theorem asNat?_ofNat {bits n : Nat} (h : n < Nat.pow 2 bits) : (ofNat n).asNat? bits = some n := by
  rw [ofNat, asNat?, asIntBetween?, if_pos (by omega)]
  rfl

theorem asBytes?_ofBytes (bytes : Bytes) : (ofBytes bytes).asBytes? = some bytes := by
  refine asList?_array fun byte _ => ?_
  rw [asNat?_ofNat byte.toNat_lt, Option.map_some, UInt8.ofNat_toNat]

theorem whole_array {α : Type} {f : α → Value} {l : List α} (h : ∀ a ∈ l, (f a).Whole) :
    (array (l.map f)).Whole := by
  refine .array fun v hv => ?_
  obtain ⟨a, ha, rfl⟩ := List.mem_map.mp hv
  exact h a ha

theorem whole_ofBytes (bytes : Bytes) : (ofBytes bytes).Whole :=
  whole_array fun byte _ => .number byte.toNat

end Value

end ShardGossip.Json

import Mathlib.Data.List.Induction
import ShardGossip.Frame

/-!
# ShardGossip.Proofs.Framing

**In which pieces a stream arrives makes no difference** (`arrival`). What stands at the front of a
buffer, a frame or a length that is refused, is told by these bytes alone, whatever follows
(`next_append`, `next_append_error`). So a reader may take frames off as soon as they are whole and
go on with the next piece (`split_append`): at the end it has the frames of the whole stream, and is
left with the same bytes or stopped by the same length.

Frames that were laid out one after another come off as they were laid out (`split_layouts`).
-/

namespace ShardGossip.Frame

variable {limit : Nat} {buffer payload rest : Bytes} {error : Error}

/-! ### One frame -/

/-- The frame of a payload, however long it is. -/
def layout (payload : Bytes) : Bytes :=
  Bytes.ofNat prefixLength payload.length ++ payload

theorem layout_ne_nil (payload : Bytes) : layout payload ≠ [] :=
  List.append_ne_nil_of_left_ne_nil (List.ne_nil_of_length_eq_add_one (Bytes.length_ofNat ..)) _

theorem encode_eq_ok {bytes : Bytes} :
    encode limit payload = .ok bytes ↔ payload.length ≤ limit ∧ bytes = layout payload := by
  unfold encode layout
  split
  · next h => exact ⟨nofun, fun h' => absurd h'.1 (Nat.not_le_of_lt h)⟩
  · next h => simp [Nat.le_of_not_lt h, eq_comm]

/-- A frame that was laid out is found at once, or refused for its length. -/
theorem next_layout (h : payload.length < Nat.pow 2 32) (rest : Bytes) :
    next limit (layout payload ++ rest) =
      if limit < payload.length then .error (.tooLarge payload.length limit)
      else .ok (some (payload, rest)) := by
  have width : (Bytes.ofNat prefixLength payload.length).length = prefixLength :=
    Bytes.length_ofNat ..
  have length : Bytes.toNat (Bytes.ofNat prefixLength payload.length) = payload.length := by
    rw [Bytes.toNat_ofNat]
    exact Nat.mod_eq_of_lt h
  rw [next, layout, List.append_assoc, if_neg (by rw [List.length_append, width]; omega),
    List.take_left' width, List.drop_left' width, length]
  dsimp only
  split
  · rfl
  · rw [if_neg (by simp), List.take_left, List.drop_left]

/-- Bytes that follow a whole frame do not change it. -/
theorem next_append (h : next limit buffer = .ok (some (payload, rest))) (more : Bytes) :
    next limit (buffer ++ more) = .ok (some (payload, rest ++ more)) := by
  unfold next at h ⊢
  split at h
  · cases h
  · next long =>
    rw [Nat.not_lt] at long
    have long' : ¬(buffer ++ more).length < prefixLength := by
      rw [List.length_append]
      omega
    rw [if_neg long', List.take_append_of_le_length long, List.drop_append_of_le_length long]
    dsimp only at h ⊢
    split at h
    · cases h
    · next fits =>
      rw [if_neg fits]
      split at h
      · cases h
      · next whole =>
        rw [Nat.not_lt] at whole
        cases h
        rw [if_neg (by rw [List.length_append]; omega), List.take_append_of_le_length whole,
          List.drop_append_of_le_length whole]

/-- A length that is refused is refused whatever follows it. -/
theorem next_append_error (h : next limit buffer = .error error) (more : Bytes) :
    next limit (buffer ++ more) = .error error := by
  unfold next at h ⊢
  split at h
  · cases h
  · next long =>
    rw [Nat.not_lt] at long
    have long' : ¬(buffer ++ more).length < prefixLength := by
      rw [List.length_append]
      omega
    rw [if_neg long', List.take_append_of_le_length long]
    dsimp only at h ⊢
    split at h
    · next large =>
      rw [if_pos large]
      exact h
    · split at h <;> cases h

/-! ### All frames of a buffer -/

theorem split_of_some (h : next limit buffer = .ok (some (payload, rest))) :
    split limit buffer = (payload :: (split limit rest).1, (split limit rest).2) := by
  rw [split]
  split <;> simp_all

theorem split_of_none (h : next limit buffer = .ok none) :
    split limit buffer = ([], .pending buffer) := by
  rw [split]
  split <;> simp_all

theorem split_of_error (h : next limit buffer = .error error) :
    split limit buffer = ([], .refused error buffer) := by
  rw [split]
  split <;> simp_all

@[simp] theorem split_nil (limit : Nat) : split limit [] = ([], .pending []) :=
  split_of_none rfl

/-- A buffer that is longer gives the same frames, and then those that begin in what was left. -/
theorem split_append (limit : Nat) (buffer more : Bytes) :
    split limit (buffer ++ more) =
      match split limit buffer with
      | (payloads, .pending rest) =>
        (payloads ++ (split limit (rest ++ more)).1, (split limit (rest ++ more)).2)
      | (payloads, .refused error rest) => (payloads, .refused error (rest ++ more)) := by
  fun_induction split limit buffer with
  | case1 buffer error h => rw [split_of_error (next_append_error h more)]
  | case2 buffer h => rfl
  | case3 buffer payload rest h payloads remainder hs ih =>
      rw [split_of_some (next_append h more), ih, hs]
      cases remainder <;> rfl

/-- Frames that were laid out one after another come off one after another. -/
theorem split_layouts {payloads : List Bytes}
    (h : ∀ p ∈ payloads, p.length ≤ limit ∧ p.length < Nat.pow 2 32) (rest : Bytes) :
    split limit ((payloads.map layout).flatten ++ rest) =
      (payloads ++ (split limit rest).1, (split limit rest).2) := by
  induction payloads with
  | nil => rfl
  | cons p payloads ih =>
      obtain ⟨⟨hl, hw⟩, h⟩ := List.forall_mem_cons.mp h
      have hn : next limit (layout p ++ ((payloads.map layout).flatten ++ rest)) = _ :=
        (next_layout hw _).trans (if_neg (Nat.not_lt.mpr hl))
      rw [List.map_cons, List.flatten_cons, List.append_assoc, split_of_some hn, ih h]
      rfl

/-- What is taken off the front of a stream of frames are the first of them, and the others follow
what is left. -/
theorem of_split (limit : Nat) {payloads : List Bytes} {more : Bytes}
    (hw : ∀ p ∈ payloads, p.length < Nat.pow 2 32)
    (h : buffer ++ more = (payloads.map layout).flatten) :
    ∃ others, payloads = (split limit buffer).1 ++ others ∧
      ∀ rest, (split limit buffer).2 = .pending rest →
        rest ++ more = (others.map layout).flatten := by
  fun_induction split limit buffer generalizing payloads with
  | case1 buffer error _ => exact ⟨payloads, rfl, nofun⟩
  | case2 buffer _ =>
      refine ⟨payloads, rfl, fun rest hr => ?_⟩
      cases hr
      exact h
  | case3 buffer payload rest hn found remainder hs ih =>
      rw [hs] at ih
      have hb := next_append hn more
      rw [h] at hb
      cases payloads with
      | nil => cases hb
      | cons p payloads =>
          obtain ⟨hp, hw⟩ := List.forall_mem_cons.mp hw
          rw [List.map_cons, List.flatten_cons, next_layout hp] at hb
          split at hb
          · cases hb
          · simp only [Except.ok.injEq, Option.some.injEq, Prod.mk.injEq] at hb
            obtain ⟨rfl, hm⟩ := hb
            obtain ⟨others, rfl, hr⟩ := ih hw hm.symm
            exact ⟨others, rfl, hr⟩

/-! ### A stream in pieces -/

/-- What a reader has taken off a stream, and what is left in its buffer. -/
structure Intake where
  payloads : List Bytes
  remainder : Remainder
  deriving DecidableEq, Repr

namespace Intake

/-- Nothing has arrived yet. -/
def empty : Intake := ⟨[], .pending []⟩

/-- Takes off every frame that is whole once the next piece has arrived. A reader that was refused a
length has stopped. -/
def feed (limit : Nat) (i : Intake) (piece : Bytes) : Intake :=
  match i.remainder with
  | .pending buffer =>
    let (payloads, remainder) := split limit (buffer ++ piece)
    ⟨i.payloads ++ payloads, remainder⟩
  | .refused .. => i

/-- The frames, with the bytes that wait for more or the error that has stopped the reader. -/
def result (i : Intake) : List Bytes × Except Error Bytes :=
  match i.remainder with
  | .pending buffer => (i.payloads, .ok buffer)
  | .refused error _ => (i.payloads, .error error)

theorem feed_empty (limit : Nat) (stream : Bytes) :
    empty.feed limit stream = ⟨(split limit stream).1, (split limit stream).2⟩ := rfl

/-- Feeding goes by what is to be seen of an intake. -/
theorem result_feed_congr {i j : Intake} (h : i.result = j.result) (limit : Nat) (piece : Bytes) :
    (i.feed limit piece).result = (j.feed limit piece).result := by
  obtain ⟨ps, r⟩ := i
  obtain ⟨qs, s⟩ := j
  cases r <;> cases s <;> simp_all [result, feed]

/-- Two pieces may as well have arrived as one. -/
theorem result_feed_feed (limit : Nat) (i : Intake) (a b : Bytes) :
    ((i.feed limit a).feed limit b).result = (i.feed limit (a ++ b)).result := by
  obtain ⟨ps, r⟩ := i
  cases r with
  | refused error buffer => rfl
  | pending buffer =>
      simp only [feed]
      rw [← List.append_assoc, split_append limit (buffer ++ a) b]
      rcases split limit (buffer ++ a) with ⟨qs, _ | _⟩
      · simp only [result, List.append_assoc]
      · rfl

end Intake

theorem of_mapM_encode {payloads frames : List Bytes}
    (h : payloads.mapM (encode limit) = .ok frames) :
    frames = payloads.map layout ∧ ∀ p ∈ payloads, p.length ≤ limit := by
  induction payloads generalizing frames with
  | nil =>
      cases h
      exact ⟨rfl, nofun⟩
  | cons p payloads ih =>
      rw [List.mapM_cons] at h
      cases hp : encode limit p with
      | error error =>
          rw [hp] at h
          cases h
      | ok frame =>
          cases hps : payloads.mapM (encode limit) with
          | error error =>
              rw [hp, hps] at h
              cases h
          | ok rest =>
              rw [hp, hps] at h
              cases h
              obtain ⟨hl, rfl⟩ := encode_eq_ok.mp hp
              obtain ⟨rfl, hls⟩ := ih hps
              exact ⟨rfl, List.forall_mem_cons.mpr ⟨hl, hls⟩⟩

/-- **In which pieces a stream arrives makes no difference**: a reader takes off the same frames,
and is left with the same bytes or stopped by the same length, as if the stream had come as one
piece. If the stream is made of frames, it takes off exactly their payloads, and nothing is left. -/
theorem arrival (limit : Nat) :
    (∀ pieces : List Bytes,
      (pieces.foldl (·.feed limit) Intake.empty).result =
        (Intake.empty.feed limit pieces.flatten).result) ∧
    (limit < Nat.pow 2 32 → ∀ payloads frames : List Bytes,
      payloads.mapM (encode limit) = .ok frames →
      Intake.empty.feed limit frames.flatten = ⟨payloads, .pending []⟩) := by
  refine ⟨fun pieces => ?_, fun hw payloads frames h => ?_⟩
  · -- the pieces are taken away from the end, since a reader that has stopped never starts again
    induction pieces using List.reverseRecOn with
    | nil =>
        rw [List.flatten_nil, Intake.feed_empty, split_nil]
        rfl
    | append_singleton pieces piece ih =>
        rw [List.foldl_append, List.flatten_append, List.flatten_singleton,
          ← Intake.result_feed_feed]
        exact Intake.result_feed_congr ih limit piece
  · obtain ⟨rfl, hl⟩ := of_mapM_encode h
    have fits (p : Bytes) (hp : p ∈ payloads) : p.length ≤ limit ∧ p.length < Nat.pow 2 32 :=
      ⟨hl p hp, Nat.lt_of_le_of_lt (hl p hp) hw⟩
    have hs := split_layouts fits []
    rw [List.append_nil, split_nil, List.append_nil] at hs
    rw [Intake.feed_empty, hs]

/-- Two frames and the start of a third, cut inside a length and inside a payload; and two frames
that come off as they were laid out. -/
theorem arrival_in_three_pieces :
    (([[0, 0, 0, 1, 7, 0], [0, 0, 2, 8], [9, 0, 0]] : List Bytes).foldl (·.feed 2)
      Intake.empty).result = ([[7], [8, 9]], .ok [0, 0]) ∧
    Intake.empty.feed 2 [0, 0, 0, 1, 7, 0, 0, 0, 2, 8, 9] = ⟨[[7], [8, 9]], .pending []⟩ := by
  refine ⟨((arrival 2).1 _).trans ?_,
    (arrival 2).2 (by decide) [[7], [8, 9]] [[0, 0, 0, 1, 7], [0, 0, 0, 2, 8, 9]] (by decide)⟩
  decide +kernel

end ShardGossip.Frame

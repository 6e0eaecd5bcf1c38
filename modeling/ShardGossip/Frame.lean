import ShardGossip.Bytes

/-!
# ShardGossip.Frame

Length-prefixed frames in a byte stream.

A frame is the length of its payload in four bytes, then the payload. Both ends agree on a limit for
payloads. A receiver buffers what has arrived; `next` takes the first frame off the buffer once it
is there whole. It looks at nothing but the buffer, so it does not matter in which pieces the bytes
came.
-/

namespace ShardGossip.Frame

/-- The bytes a length takes. -/
def prefixLength : Nat := 4

/-- The largest payload, unless configured otherwise. -/
def defaultLimit : Nat := 16 * 1024 * 1024

/-- Why a frame is refused. -/
inductive Error where
  /-- The payload is longer than the limit. -/
  | tooLarge (length limit : Nat)
  /-- The stream ended inside a frame. -/
  | unfinished
  deriving DecidableEq, Repr

/-- The error in words. -/
def Error.message : Error → String
  | tooLarge length limit => s!"frame of {length} bytes exceeds the {limit} byte limit"
  | unfinished => "I/O error: bytes remaining on stream"

/-- The frame of a payload. -/
def encode (limit : Nat) (payload : Bytes) : Except Error Bytes :=
  if limit < payload.length then .error (.tooLarge payload.length limit)
  else .ok (Bytes.ofNat prefixLength payload.length ++ payload)

/-- The payload of the first frame in a buffer with what follows it, or nothing as long as the frame
is not there whole. A length over the limit is refused as soon as it can be read. -/
def next (limit : Nat) (buffer : Bytes) : Except Error (Option (Bytes × Bytes)) :=
  if buffer.length < prefixLength then .ok none
  else
    let length := Bytes.toNat (buffer.take prefixLength)
    let body := buffer.drop prefixLength
    if limit < length then .error (.tooLarge length limit)
    else if body.length < length then .ok none
    else .ok (some (body.take length, body.drop length))

/-- Like `next` for a stream that has ended: bytes that are no whole frame are an error. -/
def last (limit : Nat) (buffer : Bytes) : Except Error (Option (Bytes × Bytes)) :=
  match next limit buffer with
  | .ok none => if buffer.isEmpty then .ok none else .error .unfinished
  | result => result

theorem length_lt_of_next {limit : Nat} {buffer payload rest : Bytes}
    (h : next limit buffer = .ok (some (payload, rest))) : rest.length < buffer.length := by
  unfold next at h
  by_cases short : buffer.length < prefixLength
  · rw [if_pos short] at h
    exact nomatch h
  · rw [if_neg short] at h
    dsimp only at h
    split at h
    · exact nomatch h
    · split at h
      · exact nomatch h
      · obtain ⟨-, rfl⟩ : _ ∧ _ := by simpa using h
        simp only [List.length_drop, prefixLength] at short ⊢
        omega

/-- What is left of a buffer once every whole frame is taken off. -/
inductive Remainder where
  /-- Bytes that are no whole frame yet. -/
  | pending (buffer : Bytes)
  /-- Bytes that start with a frame that is refused. -/
  | refused (error : Error) (buffer : Bytes)
  deriving DecidableEq, Repr

/-- The payloads of all whole frames in a buffer, in order, and what is left then. -/
def split (limit : Nat) (buffer : Bytes) : List Bytes × Remainder :=
  match _found : next limit buffer with
  | .error error => ([], .refused error buffer)
  | .ok none => ([], .pending buffer)
  | .ok (some (payload, rest)) =>
    let (payloads, remainder) := split limit rest
    (payload :: payloads, remainder)
termination_by buffer.length
decreasing_by exact length_lt_of_next ‹_›

end ShardGossip.Frame

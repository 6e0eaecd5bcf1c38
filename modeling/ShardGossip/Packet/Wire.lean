import ShardGossip.Event.Json
import ShardGossip.Packet

/-!
# ShardGossip.Packet.Wire

Packets as bytes.

A packet is its tag followed by a body of fixed shape. Numbers take eight bytes, and a field of any
length is preceded by its length in four. Reading takes the fields in order, so the first thing
wrong in that order is the one reported; a body has to end where the packet does.
-/

namespace ShardGossip.Packet

/-- Why a packet has no wire form. -/
inductive EncodeError where
  /-- A field is too long for its four-byte length. -/
  | fieldTooLarge (length : Nat)
  deriving DecidableEq, Repr

/-- The error in words. -/
def EncodeError.message : EncodeError → String
  | fieldTooLarge length => s!"field of {length} bytes does not fit a u32 length prefix"

/-- Why bytes are no packet. -/
inductive DecodeError where
  /-- There is not even a tag. -/
  | empty
  | unknownTag (tag : UInt8)
  /-- The body ends too early: the next part has `needed` bytes. -/
  | truncated (needed available : Nat)
  | trailingBytes (count : Nat)
  /-- A field that is a text is not valid. -/
  | invalidUtf8 (fault : Utf8.Fault)
  /-- A field that is JSON does not hold what it should. -/
  | invalidJson
  deriving DecidableEq, Repr

/-- A byte in two hexadecimal digits. -/
def hexByte (byte : UInt8) : String :=
  "0x" ++ Hex.encode [byte]

/-- The error in words. Of invalid JSON only that it is invalid is told. -/
def DecodeError.message : DecodeError → String
  | empty => "empty packet"
  | unknownTag tag => s!"unknown packet tag {hexByte tag}"
  | truncated needed available =>
    s!"truncated packet: needed {needed} bytes, {available} available"
  | trailingBytes count => s!"{count} trailing bytes after packet body"
  | invalidUtf8 fault => s!"packet field is not valid UTF-8: {fault.message}"
  | invalidJson => "packet JSON body is invalid"

/-! ### Writing -/

/-- A field with its length in front. -/
def field (bytes : Bytes) : Except EncodeError Bytes :=
  if bytes.length < Nat.pow 2 32 then .ok (Bytes.ofNat 4 bytes.length ++ bytes)
  else .error (.fieldTooLarge bytes.length)

/-- The body of a packet. -/
def body : Packet → Except EncodeError Bytes
  | hello node shard => do return (← field (Utf8.encode node.name)) ++ Bytes.ofNat 8 shard.number
  | propose signature event => do return (← field signature) ++ (← field event.encode)
  | ack proof => field (Utf8.encode proof)
  | finalize proof => field (Utf8.encode proof)
  | vote round signature proof => do
    return (← field signature) ++ Bytes.ofNat 8 round ++ (← field (Utf8.encode proof))
  | electorReady round => .ok (Bytes.ofNat 8 round)
  | overwriteEvents round events => do
    return Bytes.ofNat 8 round ++ (← field (Event.encodeList events))
  | appendTransactions transactions => field (Transaction.encodeList transactions)
  | received => .ok []

/-- The wire form of a packet. -/
def encode (p : Packet) : Except EncodeError Bytes := do
  return p.tag :: (← p.body)

/-! ### Reading -/

/-- Takes the next `count` bytes. -/
def takeBytes (count : Nat) (bytes : Bytes) : Except DecodeError (Bytes × Bytes) :=
  if bytes.length < count then .error (.truncated count bytes.length)
  else .ok (bytes.take count, bytes.drop count)

/-- Takes a number of eight bytes. -/
def takeNumber (bytes : Bytes) : Except DecodeError (Nat × Bytes) := do
  let (number, rest) ← takeBytes 8 bytes
  return (number.toNat, rest)

/-- Takes a field with its length in front. -/
def takeField (bytes : Bytes) : Except DecodeError (Bytes × Bytes) := do
  let (length, rest) ← takeBytes 4 bytes
  takeBytes length.toNat rest

/-- Takes a field that is a text. -/
def takeText (bytes : Bytes) : Except DecodeError (String × Bytes) := do
  let (text, rest) ← takeField bytes
  match Utf8.decode text with
  | .ok text => return (text, rest)
  | .error fault => .error (.invalidUtf8 fault)

/-- Takes a field that is JSON, read by `read`. -/
def takeJson {α : Type} (read : Bytes → Option α) (bytes : Bytes) :
    Except DecodeError (α × Bytes) := do
  let (text, rest) ← takeField bytes
  match read text with
  | some value => return (value, rest)
  | none => .error .invalidJson

/-- Takes the body of the packet with the given tag. -/
def takeBody (tag : UInt8) (bytes : Bytes) : Except DecodeError (Packet × Bytes) :=
  if tag = 0x00 then do
    let (node, rest) ← takeText bytes
    let (shard, rest) ← takeNumber rest
    return (hello ⟨node⟩ ⟨shard⟩, rest)
  else if tag = 0x01 then do
    let (signature, rest) ← takeField bytes
    let (event, rest) ← takeJson Event.decode? rest
    return (propose signature event, rest)
  else if tag = 0x02 then do
    let (proof, rest) ← takeText bytes
    return (ack proof, rest)
  else if tag = 0x03 then do
    let (proof, rest) ← takeText bytes
    return (finalize proof, rest)
  else if tag = 0x04 then do
    let (signature, rest) ← takeField bytes
    let (round, rest) ← takeNumber rest
    let (proof, rest) ← takeText rest
    return (vote round signature proof, rest)
  else if tag = 0x05 then do
    let (round, rest) ← takeNumber bytes
    return (electorReady round, rest)
  else if tag = 0xA1 then do
    let (round, rest) ← takeNumber bytes
    let (events, rest) ← takeJson Event.decodeList? rest
    return (overwriteEvents round events, rest)
  else if tag = 0xA2 then do
    let (transactions, rest) ← takeJson Transaction.decodeList? bytes
    return (appendTransactions transactions, rest)
  else if tag = 0xFF then
    return (received, bytes)
  else .error (.unknownTag tag)

/-- The packet that bytes are the wire form of. -/
def decode : Bytes → Except DecodeError Packet
  | [] => .error .empty
  | tag :: bytes => do
    let (packet, rest) ← takeBody tag bytes
    if rest.isEmpty then return packet else .error (.trailingBytes rest.length)

end ShardGossip.Packet

import ShardGossip.Bytes.Hex
import ShardGossip.Crypto.Ed25519
import ShardGossip.Crypto.Sha256
import ShardGossip.Signer
import ShardGossip.Text.Blank
import ShardGossip.Text.Quoted

/-!
# ShardGossip.SigningKey

The keys that nodes sign with: from a seed in hexadecimal digits, or made from the node's id where
keys need not be secret.
-/

namespace ShardGossip

/-- Why a text is no signing seed. -/
inductive SeedError where
  | notHex (fault : Hex.Fault)
  | wrongLength (length : Nat)
  deriving DecidableEq, Repr

/-- A fault in hexadecimal text in words. A byte is shown as the character with its number. -/
def Hex.Fault.message : Hex.Fault → String
  | oddLength => "Odd number of digits"
  | notADigit byte position =>
    s!"Invalid character {Text.quotedChar (Char.ofNat byte.toNat)} at position {position}"

/-- The error in words. -/
def SeedError.message : SeedError → String
  | notHex fault => s!"signing seed is not valid hex: {fault.message}"
  | wrongLength length => s!"signing seed must be 32 bytes, got {length}"

/-- The innermost reason in words. -/
def SeedError.cause : SeedError → String
  | notHex fault => fault.message
  | wrongLength length => (wrongLength length).message

namespace SigningKey

open Crypto

/-- The number of bytes of a seed. -/
def seedLength : Nat := 32

/-- The seed that a text spells, white space at its ends aside. -/
def seedOfText (text : String) : Except SeedError Bytes :=
  match Hex.decode (Utf8.encode (Text.trim text)) with
  | .error fault => .error (.notHex fault)
  | .ok seed => if seed.length = seedLength then .ok seed else .error (.wrongLength seed.length)

/-- The key of the seed that a text spells. -/
def ofText (text : String) : Except SeedError Ed25519.Key :=
  (seedOfText text).map Ed25519.Key.ofSeed

/-- The key made from a node's id. Anyone can make it. -/
def ofNodeId (id : NodeId) : Ed25519.Key :=
  Ed25519.Key.ofSeed (Sha256.hash (Utf8.encode id.name))

end SigningKey

/-- The public key in hexadecimal digits. -/
def Crypto.Ed25519.Key.publicHex (key : Ed25519.Key) : String :=
  Hex.encode key.publicKey

/-- What may be shown of a key. -/
def Crypto.Ed25519.Key.describe (key : Ed25519.Key) : String :=
  "Ed25519Signer \x7b public_key: " ++ Text.quoted key.publicHex ++ " \x7d"

/-- Signs with a key. -/
def Signer.ofKey (key : Crypto.Ed25519.Key) : Signer :=
  ⟨key.sign⟩

end ShardGossip

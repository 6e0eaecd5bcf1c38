import ShardGossip.Toml.Document
import ShardGossip.Toml.Scalar

/-!
# ShardGossip.Toml.Reader

Reading TOML text.

A document is read line by line: headers, keys with values, comments, empty lines. Only arrays and
the long forms of strings go over several lines.

The recursion is bounded by `fuel`, of which `parse?` supplies more than the text can use up: of
every two nested calls at least one takes a character. Values nest at most `depthLimit` deep.
-/

namespace ShardGossip.Toml

/-- Arrays and tables in braces do not nest this deep. -/
def depthLimit : Nat := 80

mutual

/-- Reads a value. `depth` counts the arrays and tables in braces around it. -/
def readValue : (fuel depth : Nat) → List Char → Option (Setting × List Char)
  | 0, _, _ => none
  | fuel + 1, depth, cs =>
    match cs with
    | '[' :: rest => if depth + 1 < depthLimit then readElements fuel (depth + 1) [] rest else none
    | '{' :: rest =>
      if depth + 1 < depthLimit then
        match skipBlanks rest with
        | '}' :: rest => some (.table [], rest)
        | rest => readPairs fuel (depth + 1) [] rest
      else none
    | 't' :: 'r' :: 'u' :: 'e' :: rest => some (.flag true, rest)
    | 'f' :: 'a' :: 'l' :: 's' :: 'e' :: rest => some (.flag false, rest)
    | '"' :: _ => (readString? cs).map fun (s, rest) => (.text s, rest)
    | '\'' :: _ => (readString? cs).map fun (s, rest) => (.text s, rest)
    | cs => readNumber cs

/-- Reads the rest of an array from before an element or the closing bracket, given the earlier
elements in reverse. -/
def readElements : (fuel depth : Nat) → List Setting → List Char → Option (Setting × List Char)
  | 0, _, _, _ => none
  | fuel + 1, depth, before, cs =>
    match skipLayout false cs with
    | none => none
    | some (']' :: rest) => some (.list before.reverse, rest)
    | some cs =>
      match readValue fuel depth cs with
      | none => none
      | some (value, rest) =>
        match skipLayout false rest with
        | some (',' :: rest) => readElements fuel depth (value :: before) rest
        | some (']' :: rest) => some (.list (value :: before).reverse, rest)
        | _ => none

/-- Reads the rest of a table in braces from before a key, given its members so far. -/
def readPairs : (fuel depth : Nat) → Members → List Char → Option (Setting × List Char)
  | 0, _, _, _ => none
  | fuel + 1, depth, members, cs =>
    match readKey (cs.length + 1) cs with
    | some (path, key, '=' :: rest) =>
      match readValue fuel depth (skipBlanks rest) with
      | none => none
      | some (value, rest) =>
        match members.define path key value with
        | none => none
        | some members =>
          match skipBlanks rest with
          | ',' :: rest => readPairs fuel depth members rest
          | '}' :: rest => some (.table (membersToSettings members), rest)
          | _ => none
    | _ => none

end

/-- Enough fuel for a value in a text. -/
def fuelFor (cs : List Char) : Nat :=
  2 * cs.length + 2

/-- Reads a header from after its opening brackets. -/
def readHeader (d : Document) (isElement : Bool) (cs : List Char) :
    Option (Document × List Char) := do
  let (path, key, rest) ← readKey (cs.length + 1) cs
  let rest ← mark? ']' rest
  let rest ← if isElement then mark? ']' rest else some rest
  let d ← d.header isElement path key
  let rest ← lineEnd? rest
  return (d, rest)

/-- Reads a key with its value. -/
def readAssignment (d : Document) (cs : List Char) : Option (Document × List Char) := do
  let (path, key, rest) ← readKey (cs.length + 1) cs
  let rest ← mark? '=' rest
  let (value, rest) ← readValue (fuelFor rest) 0 (skipBlanks rest)
  let rest ← lineEnd? rest
  let d ← d.assign path key value
  return (d, rest)

/-- Reads one line, or several if a value goes over them. -/
def readLine (d : Document) (cs : List Char) : Option (Document × List Char) :=
  match cs with
  | '#' :: _ => (lineEnd? cs).map (d, ·)
  | '\n' :: _ => (newline? cs).map (d, ·)
  | '\r' :: _ => (newline? cs).map (d, ·)
  | '[' :: '[' :: rest => readHeader d true rest
  | '[' :: rest => readHeader d false rest
  | cs => readAssignment d cs

/-- Reads lines until the text ends. -/
def readLines : (fuel : Nat) → Document → List Char → Option Document
  | 0, _, _ => none
  | fuel + 1, d, cs =>
    match skipBlanks cs with
    | [] => some d
    | cs =>
      match readLine d cs with
      | none => none
      | some (d, rest) => readLines fuel d rest

/-- The mark that may stand in front of a text. -/
def byteOrderMark : Char := '\ufeff'

/-- The settings of a document. -/
def parse? (text : String) : Option (List (String × Setting)) :=
  let cs := text.toList
  let cs := if cs.head? = some byteOrderMark then cs.drop 1 else cs
  (readLines (cs.length + 1) .empty cs).map Document.settings

end ShardGossip.Toml

import ShardGossip.Decimal.Shortest

/-!
# ShardGossip.Settings

Settings as they are given, before it is known what they are for.

Settings from several sources are laid over each other: tables are combined member by member, and
anything else replaces what was there. The names of members do not depend on case. Where a setting
is used, it is turned into what is wanted there: a number into text, a text into a number.
-/

namespace ShardGossip

/-- A setting. -/
inductive Setting where
  /-- Nothing, in a list that was filled up. -/
  | absent
  | flag (value : Bool)
  | integer (value : Int)
  | real (value : Decimal.Double)
  | text (value : String)
  | list (elements : List Setting)
  | table (members : List (String × Setting))
  deriving Inhabited

namespace Setting

/-! ### Combining -/

/-- A letter in lower case. Of the letters outside ASCII only the Kelvin sign has an ASCII letter as
its lower case, and names of settings are ASCII. -/
def lowerChar (c : Char) : Char :=
  if c = '\u212a' then 'k' else c.toLower

/-- A name in lower case. -/
def lower (name : String) : String :=
  name.map lowerChar

/-- The members of a table; anything else has none. -/
def members : Setting → List (String × Setting)
  | table members => members
  | _ => []

/-- The elements of a list; anything else has none. -/
def elements : Setting → List Setting
  | list elements => elements
  | _ => []

/-- Puts a member in the place of the one with its name, or at the end. -/
def replaceMember (name : String) (value : Setting) :
    List (String × Setting) → List (String × Setting)
  | [] => [(name, value)]
  | member :: rest =>
    if member.1 = name then (name, value) :: rest else member :: replaceMember name value rest

/-- Changes a member, which is nothing if there is none. -/
def updateMember (target : Setting) (name : String) (change : Setting → Setting) : Setting :=
  let old := (target.members.lookup (lower name)).getD absent
  table (replaceMember (lower name) (change old) target.members)

/-- Changes an element, filling the list up as far as is needed. A negative index counts from the
end. -/
def updateElement (target : Setting) (index : Int) (change : Setting → Setting) : Setting :=
  let elements := target.elements
  let index := if 0 ≤ index then index.toNat else elements.length - index.natAbs
  let elements := elements ++ List.replicate (index + 1 - elements.length) absent
  list (elements.modify index change)

mutual

/-- Lays a setting over another one. -/
def layOver (target : Setting) : Setting → Setting
  | table members => layAll (match target with
    | absent => table []
    | target => target) members
  | value => value

/-- Lays members over a setting, one after the other. -/
def layAll (target : Setting) : List (String × Setting) → Setting
  | [] => target
  | (name, value) :: rest => layAll (target.updateMember name fun old => layOver old value) rest

end

/-! ### Paths -/

/-- A step into a setting. -/
inductive Step where
  | member (name : String)
  | element (index : Int)
  deriving DecidableEq, Repr

/-- A character of a name in a path. -/
def isNameChar (c : Char) : Bool :=
  c.isAlphanum || c = ' ' || c = '_' || c = '-'

/-- The number that the text between two brackets spells. -/
def index? (text : List Char) : Option Int :=
  match text with
  | '-' :: digits => (number? digits).map fun n => -(n : Int)
  | digits => (number? digits).map fun n => (n : Int)
where
  /-- The number that digits spell. -/
  number? (digits : List Char) : Option Nat :=
    if digits.isEmpty || !digits.all (·.isDigit) then none
    else some (digits.foldl (fun n c => n * 10 + (c.toNat - '0'.toNat)) 0)

/-- Reads the steps of a path after its first name. `fuel` is the length of the text. -/
def steps? : (fuel : Nat) → List Char → Option (List Step)
  | _, [] => some []
  | 0, _ => none
  | fuel + 1, '.' :: rest =>
    let name := rest.takeWhile isNameChar
    if name.isEmpty then none
    else (steps? fuel (rest.dropWhile isNameChar)).map (.member (String.ofList name) :: ·)
  | fuel + 1, '[' :: rest =>
    match rest.dropWhile (· ≠ ']') with
    | _ :: after =>
      match index? (rest.takeWhile (· ≠ ']')) with
      | some index => (steps? fuel after).map (.element index :: ·)
      | none => none
    | [] => none
  | _ + 1, _ => none

/-- Reads a path such as `a.b[0].c`. What is no path is one name. -/
def path (text : String) : List Step :=
  let cs := text.toList
  let name := cs.takeWhile isNameChar
  let steps := if name.isEmpty then none else steps? cs.length (cs.dropWhile isNameChar)
  match steps with
  | some steps => .member (String.ofList name) :: steps
  | none => [.member text]

/-- Lays a setting over what is found at a path. Where the path does not go on, it is made to. -/
def layAt (value : Setting) : List Step → Setting → Setting
  | [], target => target.layOver value
  | [.element index], target => target.updateElement index fun _ => value
  | .member name :: rest, target => target.updateMember name (layAt value rest)
  | .element index :: rest, target => target.updateElement index (layAt value rest)

/-! ### Use -/

/-- The setting as a text. -/
def asText? : Setting → Option String
  | text value => some value
  | flag value => some (toString value)
  | integer value => some (toString value)
  | real value => some value.text
  | _ => none

/-- The largest number that is wanted anywhere. -/
def maxNat : Nat := Nat.pow 2 64 - 1

/-- The number that a text stands for: a truth value is one or zero. -/
def natOfText? (value : String) : Option Nat :=
  let word := lower value
  if word = "true" ∨ word = "on" ∨ word = "yes" then some 1
  else if word = "false" ∨ word = "off" ∨ word = "no" then some 0
  else
    let digits := match value.toList with
      | '+' :: rest => rest
      | cs => cs
    (index?.number? digits).filter (· ≤ maxNat)

/-- The setting as a number. A truth value is one or zero, and a broken number is rounded. -/
def asNat? : Setting → Option Nat
  | flag value => some value.toNat
  | integer value => if 0 ≤ value then some value.toNat else none
  | real value => some (value.toNatClamped maxNat)
  | text value => natOfText? value
  | _ => none

/-- The values given for some names: by name in a table, by position in a list. -/
def slots? (names : List String) : Setting → Option (List (Option Setting))
  | table members => some (names.map fun name => List.lookup name members)
  | list elements => some ((List.range names.length).map (elements[·]?))
  | _ => none

/-- Reads a value, if one is given. -/
def readOr {α : Type} (slot : Option Setting) (read : Setting → Option α) (default : α) :
    Option α :=
  match slot with
  | some value => read value
  | none => some default

end Setting

end ShardGossip

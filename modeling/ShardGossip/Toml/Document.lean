import ShardGossip.Settings

/-!
# ShardGossip.Toml.Document

The tables of a TOML document while it is read.

A table is defined once: by its header, by dotted keys, or in braces. Some tables come about only
because a longer path goes through them; a header may define such a table later, unless it came from
a dotted key. An array of tables grows by one table with each of its headers, and paths through it
lead to the table that came last.
-/

namespace ShardGossip.Toml

/-- What a key of a table stands for. -/
inductive Item where
  | value (setting : Setting)
  /-- A table. `implicit` holds as long as only longer paths have mentioned it, and `dotted` if
  dotted keys have. -/
  | table (implicit dotted : Bool) (members : List (String × Item))
  | tables (elements : List (List (String × Item)))
  deriving Inhabited

/-- The contents of a table. -/
abbrev Members := List (String × Item)

namespace Members

/-- Puts an item in the place of the one with its key, or at the end. -/
def replace (key : String) (item : Item) : Members → Members
  | [] => [(key, item)]
  | member :: rest =>
    if member.1 = key then (key, item) :: rest else member :: replace key item rest

/-- Changes the table at a path, given whether it came from dotted keys. Tables that are missing on
the way are made; `dotted` tells whether the path belongs to a dotted key, which does not lead into
tables that are defined already. -/
def modify (dotted : Bool) (change : Bool → Members → Option Members) :
    (path : List String) → (own : Bool) → Members → Option Members
  | [], own, members => change own members
  | key :: path, _, members =>
    match List.lookup key members with
    | none =>
      (modify dotted change path dotted []).map fun new =>
        replace key (.table true dotted new) members
    | some (.value _) => none
    | some (.table implicit own inner) =>
      if dotted && !implicit then none
      else
        (modify dotted change path own inner).map fun new =>
          replace key (.table implicit own new) members
    | some (.tables elements) =>
      (modify dotted change path false (elements.getLast?.getD [])).map fun new =>
        replace key (.tables (elements.dropLast ++ [new])) members

/-- Defines a table by its header. -/
def defineTable (key : String) (members : Members) : Option Members :=
  match List.lookup key members with
  | none => some (replace key (.table false false []) members)
  | some (.table true false inner) => some (replace key (.table false false inner) members)
  | some _ => none

/-- Adds a table to an array of tables by its header. -/
def defineElement (key : String) (members : Members) : Option Members :=
  match List.lookup key members with
  | none => some (replace key (.tables [[]]) members)
  | some (.tables elements) => some (replace key (.tables (elements ++ [[]])) members)
  | some _ => none

/-- Sets a key, which must be new. A dotted key only sets members of tables that came from dotted
keys. -/
def define (path : List String) (key : String) (value : Setting) (members : Members) :
    Option Members :=
  modify true
    (fun dotted inner =>
      if dotted = path.isEmpty ∨ (List.lookup key inner).isSome then none
      else some (replace key (.value value) inner))
    path false members

end Members

/-! ### The finished document -/

mutual

/-- An item as a setting. -/
def Item.toSetting : Item → Setting
  | .value setting => setting
  | .table _ _ members => .table (membersToSettings members)
  | .tables elements => .list (elementsToSettings elements)

/-- The members of a table as settings. -/
def membersToSettings : List (String × Item) → List (String × Setting)
  | [] => []
  | (key, item) :: rest => (key, item.toSetting) :: membersToSettings rest

/-- The tables of an array as settings. -/
def elementsToSettings : List (List (String × Item)) → List Setting
  | [] => []
  | members :: rest => .table (membersToSettings members) :: elementsToSettings rest

end

/-- A document that is being read. -/
structure Document where
  root : Members
  current : List String

namespace Document

/-- Before anything is read. -/
def empty : Document := ⟨[], []⟩

/-- A header. `isElement` tells whether it belongs to an array of tables. -/
def header (d : Document) (isElement : Bool) (path : List String) (key : String) :
    Option Document :=
  let define := if isElement then Members.defineElement key else Members.defineTable key
  (Members.modify false (fun _ members => define members) path false d.root).map fun root =>
    ⟨root, path ++ [key]⟩

/-- A key with its value. -/
def assign (d : Document) (path : List String) (key : String) (value : Setting) : Option Document :=
  (Members.modify false (fun _ members => members.define path key value) d.current false d.root).map
    fun root => { d with root := root }

/-- The settings of the document. -/
def settings (d : Document) : List (String × Setting) :=
  membersToSettings d.root

end Document

end ShardGossip.Toml

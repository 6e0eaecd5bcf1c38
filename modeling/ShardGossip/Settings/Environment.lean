import ShardGossip.Settings

/-!
# ShardGossip.Settings.Environment

Settings from environment variables.

A variable counts if its name starts with the name of the program and an underscore, in upper or
lower case. The rest of the name is the path of the setting, with two underscores between its steps.
The value is a text.
-/

namespace ShardGossip.Setting

/-- What the names of variables start with, in lower case. -/
def variablePrefix : String := "shardline_"

/-- A text with a point in the place of every two underscores, from left to right. -/
def pointed : List Char → List Char
  | '_' :: '_' :: rest => '.' :: pointed rest
  | c :: rest => c :: pointed rest
  | [] => []

/-- What follows a prefix. -/
def afterPrefix? : (start : List Char) → List Char → Option (List Char)
  | [], rest => some rest
  | _ :: _, [] => none
  | s :: start, c :: rest => if s = c then afterPrefix? start rest else none

/-- The path that the name of a variable stands for, if it counts. -/
def variablePath? (name : String) : Option (List Step) :=
  (afterPrefix? variablePrefix.toList (lower name).toList).map fun rest =>
    path (String.ofList (pointed rest))

/-- Lays the settings from environment variables over others. -/
def layEnvironment (target : Setting) (environment : List (String × String)) : Setting :=
  environment.foldl
    (fun target (name, value) =>
      match variablePath? name with
      | some steps => layAt (text value) steps target
      | none => target)
    target

end ShardGossip.Setting

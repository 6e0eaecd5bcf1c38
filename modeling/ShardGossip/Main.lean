import ShardGossip.CommandLine
import ShardGossip.Json.Pretty
import ShardGossip.Simulation.Basic

/-!
# ShardGossip.Main

The program.

A node that is run from here has no network: it seals the events of its own chains, looks after its
shard table, and every dial to a peer comes to nothing.
-/

namespace ShardGossip

/-- Reads the file of a configuration, if one is named. -/
def readConfigFile : Option String → IO ConfigFile
  | none => return .none
  | some path => do
    try return .text (← IO.FS.readFile path)
    catch _ => return .missing

/-- The environment variables that are set. -/
def readVariables : IO (List (String × String)) :=
  NodeConfig.variableNames.filterMapM fun name =>
    return (← IO.getEnv name).map (name, ·)

/-- Loads the configuration. -/
def loadConfig (file : Option String) : IO (Except LoadError NodeConfig) :=
  return NodeConfig.load (← readConfigFile file) (← readVariables)

/-- Reports an error. -/
def failWith (message : String) : IO UInt32 := do
  IO.eprintln s!"Error: {message}"
  return 1

/-- How long a node runs between two looks at the clock, in milliseconds. -/
def heartbeat : UInt32 := 100

/-- Lets a node run for as long as the program does. -/
partial def keepRunning (s : Simulation) : IO UInt32 := do
  IO.sleep heartbeat
  keepRunning (s.runFor heartbeat.toNat)

/-- Starts the node of a configuration. -/
def startNode (config : NodeConfig) : IO UInt32 :=
  match Node.ofConfig config with
  | .error _ => failWith Node.refusedConfiguration
  | .ok node => keepRunning ((Simulation.start node.bootstrap.2).serve false)

/-- Carries out a command. -/
def Command.execute : Command → IO UInt32
  | help => do
    IO.println usage
    return 0
  | version => do
    IO.println versionText
    return 0
  | run file => do
    match ← loadConfig file with
    | .ok config => startNode config
    | .error error => failWith (NodeConfig.loadErrorMessage error)
  | printConfig file => do
    match ← loadConfig file with
    | .ok config =>
      IO.println config.toJson.pretty
      return 0
    | .error error => failWith (NodeConfig.loadErrorMessage error)

end ShardGossip

/-- Runs the program. -/
def main (args : List String) : IO UInt32 :=
  match ShardGossip.Command.ofArguments? args with
  | some command => command.execute
  | none => do
    IO.eprintln ShardGossip.Command.usage
    return 2

import ShardGossip.Config.Load

/-!
# ShardGossip.CommandLine

What the program is asked to do.

A command may name the file of the configuration; everything else comes from environment variables
and defaults.
-/

namespace ShardGossip

/-- What the program is asked to do. -/
inductive Command where
  | run (file : Option String)
  /-- Print the configuration that the node would be started with. -/
  | printConfig (file : Option String)
  /-- Print how the program is used. -/
  | help
  | version
  deriving DecidableEq, Repr

namespace Command

/-- The name of the program with its version. -/
def versionText : String := "shardline 0.1.0"

/-- How the program is used. -/
def usage : String :=
  "\n".intercalate [
    "Sharded gossip consensus node",
    "",
    "Usage: shardline <COMMAND> [--config <CONFIG>]",
    "",
    "Commands:",
    "  run           Start the node",
    "  print-config  Print the effective configuration after files and environment are applied",
    "  help          Print this message",
    "",
    "Options:",
    "  -c, --config <CONFIG>  Path to configuration file (TOML)",
    "  -h, --help             Print help",
    "  -V, --version          Print version"]

/-- What follows a prefix of an argument. -/
def valueOf? (flag argument : String) : Option String :=
  (Setting.afterPrefix? flag.toList argument.toList).map String.ofList

/-- The file that the arguments after the name of a command give, if they are understood. -/
def file? : List String → Option (Option String)
  | [] => some none
  | [argument] => some <$> (valueOf? "--config=" argument <|> short? argument)
  | [flag, file] => if flag = "--config" ∨ flag = "-c" then some (some file) else none
  | _ => none
where
  /-- The file of a short flag that is written together with it. -/
  short? (argument : String) : Option String :=
    (valueOf? "-c" argument).filter (!·.isEmpty)

/-- The command that arguments spell. -/
def ofArguments? : List String → Option Command
  | ["help"] | ["-h"] | ["--help"] => some .help
  | ["-V"] | ["--version"] => some .version
  | "run" :: rest => .run <$> file? rest
  | "print-config" :: rest => .printConfig <$> file? rest
  | _ => none

end Command

/-! ### Variables -/

namespace NodeConfig

/-- The name of the variable for a setting. -/
def variableName (path : List String) : String :=
  (Setting.variablePrefix ++ "__".intercalate path).toUpper

/-- The names of the variables for all settings. -/
def variableNames : List String :=
  fieldNames.map (variableName [·])
    ++ ChainConfig.fieldNames.map (variableName ["chain", ·])
    ++ ShardingConfig.fieldNames.map (variableName ["sharding", ·])

/-- The error in words. -/
def loadErrorMessage : LoadError → String
  | .unreadable => "failed to load configuration"
  | .invalid error => s!"failed to load configuration: {error.message}"

end NodeConfig

end ShardGossip

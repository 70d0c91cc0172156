import TreePattern.Cli.ConfigFile
import TreePattern.Cli.Help
import TreePattern.Cli.Variable
import TreePattern.Json.Expected

namespace TreePattern.Cli

structure Config where
  logFilter : String := "info"
  logFormat : LogFormat := .json
  output : OutputFormat := .human
  maxSearchNodes : Option Nat := none
deriving DecidableEq, Inhabited

inductive ConfigFault where
  | words (reply : Reply)
  | file (error : ConfigFile.Error)
  | invalid (reason : String)
deriving DecidableEq

def ConfigFault.message : ConfigFault → String
  | .words reply => "Failed to parse command-line arguments: " ++ reply.text
  | .file error => error.message
  | .invalid reason => "Failed to merge CLI with configuration: " ++ reason

structure ConfigError where
  first : ConfigFault
  others : List ConfigFault := []
deriving DecidableEq

namespace ConfigError

def numbered (number : Nat) : List ConfigFault → List String
  | [] => []
  | fault :: rest => (toString number ++ ": " ++ fault.message) :: numbered (number + 1) rest

def message (error : ConfigError) : String :=
  if error.others.isEmpty then error.first.message
  else
    "multiple configuration errors:\n" ++
      String.intercalate "\n" (numbered 1 (error.first :: error.others))

end ConfigError

namespace Config

def defaults : Layer :=
  let base : Config := {}
  [("log_filter", .string base.logFilter), ("log_format", .string base.logFormat.name),
    ("output", .string base.output.name)]

/-- The configuration that the layers decide on. Later layers win. -/
def resolve (layers : List Layer) : Except String Config := do
  let merged := layers.foldl Json.mergeMembers defaults
  let value (key : String) : Json := (Json.member? merged key).getD .null
  return {
    logFilter := ← (value "log_filter").asText
    logFormat := ← (value "log_format").asChoice LogFormat.ofName? "`json` or `compact`"
    output := ← (value "output").asChoice OutputFormat.ofName? "`human` or `json`"
    maxSearchNodes :=
      ← match value "max_search_nodes" with
        | .null => .ok none
        | count => count.asCount.map some }

def nested (value : Json) : List String → Json
  | [] => value
  | key :: rest => .object [(key, nested value rest)]

def environmentLayer (environment : List (String × String)) : Layer :=
  environment.foldl (fun layer (name, value) ↦
    match Variable.path? "asty_" name with
    | some (key :: keys) => Json.mergeMembers layer [(key, nested (Variable.read value) keys)]
    | _ => layer) []

def optionLayer (options : List (OptionName × String)) : Layer :=
  options.filterMap fun (option, value) ↦
    match option with
    | .logFilter => some ("log_filter", .string value)
    | .logFormat =>
      (LogFormat.ofAnyCase? value).map fun format ↦ ("log_format", .string format.name)
    | .output => some ("output", .string value)
    | .maxSearchNodes =>
      (readCount value).toOption.map fun n ↦
        ("max_search_nodes", .number (.natural (UInt64.ofNat n)))
    | .configPath | .pattern | .input => none

/-- The configuration for the words that are handed on. The values are judged even if the file
cannot be read. -/
def load (world : World) (words : List String) : Except ConfigError Config := do
  let options ← (readConfigWords words).mapError fun stop ↦ ⟨.words stop.reply, []⟩
  let search := ConfigFile.find world (options.lookup .configPath)
  let layers := search.layer.toList ++ [environmentLayer world.environment, optionLayer options]
  match search.errors.map ConfigFault.file, resolve layers with
  | [], .ok config => return config
  | [], .error reason => throw ⟨.invalid reason, []⟩
  | first :: others, .ok _ => throw ⟨first, others⟩
  | first :: others, .error reason => throw ⟨first, others ++ [.invalid reason]⟩

end Config

end TreePattern.Cli

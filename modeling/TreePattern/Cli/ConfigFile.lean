import TreePattern.Cli.World
import TreePattern.Json.Merge
import TreePattern.Toml.Document

namespace TreePattern.Cli

abbrev Layer := List (String × Json)

namespace ConfigFile

inductive Fault where
  | missing
  | unreadable (fault : ReadFault)
  | nameless
  | notRegular
  | unsupported (format : String)
  | malformed (place : Toml.Place)
  | extendsOther (typeName : String)
  | extendsNothing
  | extendedMissing (path referrer : String)
deriving DecidableEq

/-- What is said of a fault. Of a file that is malformed it is the first line only. -/
def Fault.message : Fault → String
  | .missing => "required configuration file not found"
  | .unreadable fault => fault.message
  | .nameless => "cannot determine file name for configuration file path"
  | .notRegular => "configuration path is not a regular file"
  | .unsupported format =>
    format ++ " feature disabled: enable the '" ++ format ++
      "' feature to support this file format"
  | .malformed place =>
    "TOML parse error at line " ++ toString place.line ++ ", column " ++ toString place.column
  | .extendsOther typeName => "'extends' key must be a string, but found type: " ++ typeName
  | .extendsNothing => "'extends' key must be a non-empty string"
  | .extendedMissing path referrer =>
    "extended configuration file '" ++ path ++ "' does not exist (referenced from '" ++ referrer ++
      "')"

inductive Error where
  | file (path : String) (fault : Fault)
  | cyclic (paths : List String)
deriving DecidableEq

def Error.message : Error → String
  | .file path fault => "Configuration file error in '" ++ path ++ "': " ++ fault.message
  | .cyclic paths => "cyclic extends detected: " ++ String.intercalate " -> " paths

/-- The steps of a path up to the name of the file that it ends in, last to first. -/
def stepsBack (path : String) : List (List Char) :=
  (path.toList.splitOn '/').reverse.dropWhile fun step ↦ step = [] || step = ['.']

def fileName? (path : String) : Option (List Char) :=
  (stepsBack path).head?.filter (· ≠ ['.', '.'])

def trimmedPath (path : String) : String :=
  String.ofList (['/'].intercalate (stepsBack path).reverse)

/-- What comes after the last point in the name of a file, in lower case. A point at the start of a
name is not counted. -/
def extension (name : List Char) : String :=
  let last := (name.reverse.takeWhile (· ≠ '.')).reverse
  if last.length + 1 < name.length then (String.ofList last).map Char.toLower else ""

def unsupportedFormat? (name : List Char) : Option String :=
  match extension name with
  | "json" | "json5" => some "json5"
  | "yaml" | "yml" => some "yaml"
  | _ => none

def fromFile (file path : String) : String :=
  if path.startsWith "/" then path
  else String.ofList ((file.toList.reverse.dropWhile (· ≠ '/')).reverse) ++ path

def readTable (path : String) (bytes : ByteArray) :
    Except Error (List (String × Toml.Value)) := do
  let text ← (decode bytes).mapError fun fault ↦ .file path (.unreadable fault)
  match (fileName? path).bind unsupportedFormat? with
  | some format => throw (.file path (.unsupported format))
  | none => (Toml.read text).mapError fun place ↦ .file path (.malformed place)

def extended? (path : String) (table : List (String × Toml.Value)) :
    Except Error (Option String) :=
  match table.lookup "extends" with
  | none => .ok none
  | some (.text s) => if s.isEmpty then .error (.file path .extendsNothing) else .ok (some s)
  | some value => .error (.file path (.extendsOther value.typeName))

/-- The values of the file at a place and of the files that it extends. The files that lead there
are listed last to first; as no file comes twice, the number of files is enough fuel. -/
def readChain (world : World) : Nat → List String → String → ByteArray → Except Error Layer
  | 0, before, place, _ => .error (.cyclic (before.reverse ++ [place]))
  | fuel + 1, before, place, bytes => do
    if before.contains place then throw (.cyclic (before.reverse ++ [place]))
    let table ← readTable place bytes
    let own : Layer := Toml.Value.entriesToJson table
    match ← extended? place table with
    | none => return own
    | some path =>
      let target := fromFile place path
      match world.look target with
      | .error .missing => throw (.file target (.extendedMissing target place))
      | .error fault => throw (.file target (.unreadable fault))
      | .ok (place', .directory) => throw (.file place' .notRegular)
      | .ok (place', .file bytes') =>
        return Json.mergeMembers (← readChain world fuel (place :: before) place' bytes') own

def read (world : World) (path : String) : Except Error (Option Layer) :=
  if (fileName? path).isNone then .error (.file path .nameless)
  else
    match world.look (trimmedPath path) with
    | .error .missing => .ok none
    | .error fault => .error (.file path (.unreadable fault))
    | .ok (_, .directory) => .error (.file path .notRegular)
    | .ok (place, .file bytes) => (readChain world (world.fileCount + 1) [] place bytes).map some

def inDirectory (directory : String) : List String :=
  [directory ++ "/asty/config.toml", directory ++ "/.asty.toml"]

def standardPaths (world : World) : List String :=
  let shared :=
    match world.nonEmptyVariable "XDG_CONFIG_DIRS" with
    | none => ["/etc/xdg"]
    | some directories => (directories.toList.splitOn ':').map String.ofList
  let home :=
    match world.nonEmptyVariable "HOME" with
    | none => []
    | some home => inDirectory (home ++ "/.config") ++ [home ++ "/.asty.toml"]
  let paths := (world.nonEmptyVariable "ASTY_CONFIG_PATH").toList ++
    (world.nonEmptyVariable "XDG_CONFIG_HOME").toList.flatMap inDirectory ++
    shared.flatMap inDirectory ++ home ++ [world.directory ++ "/.asty.toml"]
  paths.eraseDups

structure Search where
  layer : Option Layer
  errors : List Error

/-- Looks for a file at paths, one after the other. Errors count only if no file can be read. -/
def search (world : World) (errors : List Error) : List String → Search
  | [] => ⟨none, errors⟩
  | path :: rest =>
    match read world path with
    | .ok (some layer) => ⟨some layer, []⟩
    | .ok none => search world errors rest
    | .error error => search world (errors ++ [error]) rest

/-- Looks for the configuration file of a run. A file that is named on the command line has to be
there; if it cannot be read, that is an error in any case. -/
def find (world : World) (named : Option String) : Search :=
  let others := search world [] (standardPaths world)
  match named with
  | none => others
  | some path =>
    match read world path with
    | .ok (some layer) => ⟨some layer, []⟩
    | .ok none => { others with errors := .file path .missing :: others.errors }
    | .error error => { others with errors := error :: others.errors }

end ConfigFile

end TreePattern.Cli

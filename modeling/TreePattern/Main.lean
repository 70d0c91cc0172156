import TreePattern.Cli.Run

namespace TreePattern

def readVariable (bytes : ByteArray) : Option (String × String) := do
  let (name, value) := Cli.Reading.splitEquals (← String.fromUTF8? bytes).toList
  return (String.ofList name, String.ofList (← value))

def readEnvironment : IO (List (String × String)) := do
  let listed ← IO.FS.readBinFile "/proc/self/environ"
  return (listed.data.toList.splitOn 0).filterMap fun bytes ↦ readVariable ⟨bytes.toArray⟩

def faultOf : IO.Error → Cli.ReadFault
  | .noFileOrDirectory _ _ _ => .missing
  | .inappropriateType none _ _ => .directory
  | .inappropriateType (some _) code details | .invalidArgument _ code details
  | .permissionDenied _ code details | .resourceExhausted _ code details
  | .alreadyExists _ code details | .noSuchThing _ code details | .interrupted _ code details
  | .resourceBusy code details | .resourceVanished code details | .hardwareFault code details
  | .unsupportedOperation code details | .otherError code details =>
    .other (details ++ " (os error " ++ toString code ++ ")")
  | error => .other (toString error)

/-- What stands under a path. A directory can be opened, but reading from it fails. -/
def lookUp (path : String) : IO (Except Cli.ReadFault (String × Cli.Entry)) := do
  if path.contains '\x00' then return .error .nulInPath
  match ← (IO.FS.readBinFile path).toBaseIO with
  | .ok bytes => return .ok ((← IO.FS.realPath path).toString, .file bytes)
  | .error error =>
    match faultOf error with
    | .directory => return .ok ((← IO.FS.realPath path).toString, .directory)
    | fault => return .error fault

abbrev Snapshot := List (String × Except Cli.ReadFault (String × Cli.Entry))

def extendedBy (found : Except Cli.ReadFault (String × Cli.Entry)) : Option String :=
  match found with
  | .ok (place, .file bytes) =>
    match Cli.ConfigFile.readTable place bytes with
    | .ok table =>
      match Cli.ConfigFile.extended? place table with
      | .ok (some path) => some (Cli.ConfigFile.fromFile place path)
      | _ => none
    | _ => none
  | _ => none

partial def collect (seen : Snapshot) (path : String) : IO Snapshot := do
  if (seen.lookup path).isSome then return seen
  let found ← lookUp path
  let seen := (path, found) :: seen
  match extendedBy found with
  | some next => collect seen next
  | none => return seen

def worldOf (seen : Snapshot) (directory : String) (environment : List (String × String))
    (input : Except Cli.ReadFault ByteArray) : Cli.World where
  look path := (seen.lookup path).getD (.error .missing)
  fileCount := seen.length
  directory
  environment
  input

def readWorld (args : List String) : IO Cli.World := do
  let environment ← readEnvironment
  let directory := (← IO.currentDir).toString
  let blind := worldOf [] directory environment (.ok .empty)
  match Cli.Invocation.parse args with
  | .error _ => return blind
  | .ok invocation =>
    let configPaths := invocation.configPath.toList ++ Cli.ConfigFile.standardPaths blind
    let config ← (configPaths.map Cli.ConfigFile.trimmedPath).foldlM collect []
    let files ← (invocation.pattern :: invocation.inputFile.toList).mapM fun path ↦ do
      return (path, ← lookUp path)
    if invocation.inputFile.isSome then
      return worldOf (files ++ config) directory environment (.ok .empty)
    let input := match ← (← IO.getStdin).readBinToEnd.toBaseIO with
      | .ok bytes => .ok bytes
      | .error error => .error (faultOf error)
    return worldOf (files ++ config) directory environment input

end TreePattern

def main (args : List String) : IO UInt32 := do
  let report := TreePattern.Cli.run (← TreePattern.readWorld args) args (.empty none) (.empty none)
  let errors ← IO.getStderr
  report.logLines.forM fun line ↦ errors.putStrLn line
  (← IO.getStdout).write ⟨report.output.written⟩
  errors.write ⟨report.errors.written⟩
  return report.exitCode

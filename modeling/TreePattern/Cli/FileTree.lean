import TreePattern.Cli.World

namespace TreePattern.Cli

namespace ReadFault

def notDirectory : ReadFault := .other "Not a directory (os error 20)"

def nameTooLong : ReadFault := .other "File name too long (os error 36)"

end ReadFault

/-- Files that are given as a list. -/
structure FileTree where
  directory : List String
  /-- What stands at places, given by the names on the way from the root. On these ways stand
  directories. -/
  entries : List (List String × Entry)

namespace FileTree

def render (place : List String) : String :=
  "/" ++ String.intercalate "/" place

def stepsOf (path : String) : List String :=
  (path.toList.splitOn '/').map String.ofList

def entry? (tree : FileTree) (place : List String) : Option Entry :=
  match tree.entries.lookup place with
  | some entry => some entry
  | none =>
    let ways := tree.directory :: tree.entries.map (·.1)
    if ways.any place.isPrefixOf then some .directory else none

def step (tree : FileTree) (place : List String) (name : String) : Except ReadFault (List String) :=
  match tree.entry? place with
  | none => .error .missing
  | some (.file _) => .error .notDirectory
  | some .directory =>
    if name = "" || name = "." then .ok place
    else if name = ".." then .ok place.dropLast
    else if 255 < name.utf8ByteSize then .error .nameTooLong
    else if (tree.entry? (place ++ [name])).isNone then .error .missing
    else .ok (place ++ [name])

def resolve (tree : FileTree) (path : String) : Except ReadFault (List String) :=
  if path.contains '\x00' then .error .nulInPath
  else if path.isEmpty then .error .missing
  else if 4096 ≤ path.utf8ByteSize then .error .nameTooLong
  else
    (stepsOf path).foldlM (tree.step · ·) (if path.startsWith "/" then [] else tree.directory)

def look (tree : FileTree) (path : String) : Except ReadFault (String × Entry) := do
  let place ← tree.resolve path
  match tree.entry? place with
  | some entry => return (render place, entry)
  | none => throw .missing

def toWorld (tree : FileTree) (environment : List (String × String)) (input : ByteArray) :
    World where
  look := tree.look
  fileCount := tree.entries.length
  directory := render tree.directory
  environment
  input := .ok input

end FileTree

end TreePattern.Cli

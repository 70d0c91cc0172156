namespace TreePattern.Cli

inductive ReadFault where
  | missing
  | directory
  | notText
  | other (message : String)
deriving DecidableEq

def ReadFault.message : ReadFault → String
  | .missing => "No such file or directory (os error 2)"
  | .directory => "Is a directory (os error 21)"
  | .notText => "stream did not contain valid UTF-8"
  | .other message => message

def ReadFault.nulInPath : ReadFault := .other "file name contained an unexpected NUL byte"

inductive Entry where
  | directory
  | file (bytes : ByteArray)

def decode (bytes : ByteArray) : Except ReadFault String :=
  match String.fromUTF8? bytes with
  | some text => .ok text
  | none => .error .notText

structure World where
  /-- Where a path leads: the one path that is free of detours, and what stands there. -/
  look : String → Except ReadFault (String × Entry)
  fileCount : Nat
  directory : String
  environment : List (String × String)
  input : Except ReadFault ByteArray

namespace World

def readFile (world : World) (path : String) : Except ReadFault String := do
  match ← world.look path with
  | (_, .directory) => throw .directory
  | (_, .file bytes) => decode bytes

def textIn (world : World) (file : Option String) : Except ReadFault String :=
  match file with
  | some name => world.readFile name
  | none => world.input.bind decode

def nonEmptyVariable (world : World) (name : String) : Option String :=
  (world.environment.lookup name).filter fun value ↦ !value.isEmpty

end World

end TreePattern.Cli

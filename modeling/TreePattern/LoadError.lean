import TreePattern.Json.Reader
import TreePattern.Text.Quoted

namespace TreePattern

inductive Step where
  | key (name : String)
  | index (position : Nat)
deriving DecidableEq

def Step.render : Step → String
  | .key name => "." ++ name
  | .index position => "[" ++ toString position ++ "]"

abbrev Path := List Step

namespace Path

def render (path : Path) : String :=
  path.foldl (fun out step ↦ out ++ step.render) "$"

end Path

inductive FieldType where
  | string
  | boolean
  | array
  | object
deriving DecidableEq

def FieldType.describe : FieldType → String
  | .string => "a string"
  | .boolean => "a boolean"
  | .array => "an array"
  | .object => "an object"

inductive RuleKind where
  | search
  | literal
deriving DecidableEq

def RuleKind.describe : RuleKind → String
  | .search => "search"
  | .literal => "literal"

inductive LoadError where
  | json (error : Json.ReadError)
  | notAnObject (path : Path)
  | missingNodeType (path : Path)
  | invalidField (path : Path) (field : String) (expected : FieldType)
  | unexpectedField (path : Path) (field : String) (rule : RuleKind)
  | unknownOperator (path : Path) (operator : String)
deriving DecidableEq

def LoadError.message : LoadError → String
  | .json error => "invalid JSON: " ++ error.message
  | .notAnObject path => "expected an object at " ++ path.render
  | .missingNodeType path => "missing NodeType at " ++ path.render
  | .invalidField path field expected =>
    "field " ++ field ++ " at " ++ path.render ++ " must be " ++ expected.describe
  | .unexpectedField path field rule =>
    "field " ++ field ++ " is not allowed on a " ++ rule.describe ++ " rule at " ++ path.render
  | .unknownOperator path operator =>
    "unknown operator " ++ Text.quoted operator ++ " at " ++ path.render

end TreePattern

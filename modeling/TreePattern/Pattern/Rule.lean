import TreePattern.Json.Cursor
import TreePattern.Json.Expected
import TreePattern.Scalar

namespace TreePattern

abbrev PatternId := Nat

namespace PatternId

def render (id : PatternId) : String :=
  "#" ++ toString id

def demands : Json.Demands PatternId where
  nesting := some 127
  accept position document :=
    document.asCount.mapError fun reason ↦ ⟨.rejected reason, some position⟩

/-- Reads the number of a slot from JSON text. A container is refused at its bracket. -/
def read (text : String) : Except Json.ReadError PatternId :=
  let s := Json.Cursor.skipBlanks ⟨.start, text.toList⟩
  match s.next? with
  | some '[' => demands.accept s.position (.array [])
  | some '{' => demands.accept s.position (.object [])
  | _ => Json.read demands text

end PatternId

inductive Operator where
  | anyOf
  | allOf
  | oneOf
  | not
deriving DecidableEq, Inhabited

namespace Operator

def name : Operator → String
  | .anyOf => "anyOf"
  | .allOf => "allOf"
  | .oneOf => "oneOf"
  | .not => "not"

def ofName? : String → Option Operator
  | "anyOf" => some .anyOf
  | "allOf" => some .allOf
  | "oneOf" => some .oneOf
  | "not" => some .not
  | _ => none

def named (name : String) : Except String Operator :=
  match ofName? name with
  | some operator => .ok operator
  | none =>
    .error ("unknown variant `" ++ name ++ "`, expected one of `anyOf`, `allOf`, `oneOf`, `not`")

def demands : Json.Demands Operator where
  nesting := some 127
  accept position document :=
    match document with
    | .string name => (named name).mapError fun reason ↦ ⟨.rejected reason, some position⟩
    | _ => .error ⟨.expectedValue, some position⟩

def noArgument : Json.Demands Unit where
  nesting := some 126
  accept position document :=
    document.asUnit.mapError fun reason ↦ ⟨.rejected reason, some position⟩

def readMember (start : Json.Position) (cs : List Char) : Except Json.ReadError Operator := do
  let s := Json.Cursor.skipBlanks ⟨start, cs⟩
  match s.next? with
  | none => s.failHere .endInValue
  | some '"' =>
    let (operator, s) ← Json.Cursor.readValue demands s
    let s := s.skipBlanks
    match s.next? with
    | none => s.failHere .endInObject
    | some ':' =>
      let s := s.advance.skipBlanks
      let s ←
        match s.next? with
        | some '[' => (noArgument.accept s.position (.array [])).map fun _ ↦ s
        | some '{' => (noArgument.accept s.position (.object [])).map fun _ ↦ s
        | _ => (Json.Cursor.readValue noArgument s).map (·.2)
      let blank := s.skipBlanks
      match blank.next? with
      | none => blank.failHere .endInObject
      | some '}' =>
        blank.advance.finish
        return operator
      | some _ => blank.failHere .expectedValue
    | some _ => s.failAtNext .expectedColon
  | some '}' => s.failAtNext .expectedValue
  | some _ => s.failAtNext .expectedKey

/-- Reads an operator from JSON text: a string, or an object with one member that is `null`.
Anything else is refused at its first character. -/
def read (text : String) : Except Json.ReadError Operator :=
  let s := Json.Cursor.skipBlanks ⟨.start, text.toList⟩
  match s.next? with
  | some '"' => Json.read demands text
  | some '{' => readMember s.advance.position s.advance.rest
  | some _ => s.failAtNext .expectedValue
  | none => s.failHere .endInValue

end Operator

inductive Constraint where
  | scalar (expected : Scalar)
  | pattern (id : PatternId)
  /-- It is a list of nodes, as many as there are rules, and each rule finds something at its
  node. -/
  | sequence (ids : List PatternId)
deriving DecidableEq

namespace Constraint

def references : Constraint → List PatternId
  | .scalar _ => []
  | .pattern id => [id]
  | .sequence ids => ids

def map (f : PatternId → PatternId) : Constraint → Constraint
  | .scalar expected => .scalar expected
  | .pattern id => .pattern (f id)
  | .sequence ids => .sequence (ids.map f)

def eqv : Constraint → Constraint → Bool
  | .scalar a, .scalar b => a.eqv b
  | .pattern a, .pattern b => a == b
  | .sequence a, .sequence b => a == b
  | _, _ => false

end Constraint

/-- A rule on a single node: its kind, if one is required, and its attributes, in the order in which
they are looked at. -/
@[ext]
structure LiteralRule where
  kind : Option String
  attributes : List (String × Constraint)
deriving DecidableEq

/-- A rule that looks for its sub-rules at given nodes or, unless it is exact, also below them. -/
@[ext]
structure SearchRule where
  rules : List PatternId
  exact : Bool := false
  operator : Operator := .anyOf
deriving DecidableEq

inductive Rule where
  | literal (rule : LiteralRule)
  | search (rule : SearchRule)
deriving DecidableEq

namespace Rule

def references : Rule → List PatternId
  | .literal rule => rule.attributes.flatMap fun entry ↦ entry.2.references
  | .search rule => rule.rules

def map (f : PatternId → PatternId) : Rule → Rule
  | .literal rule =>
    .literal { rule with attributes := rule.attributes.map fun entry ↦ (entry.1, entry.2.map f) }
  | .search rule => .search { rule with rules := rule.rules.map f }

def describe : Rule → String
  | .literal rule => rule.kind.getD "*"
  | .search rule => "MatchRule[" ++ rule.operator.name ++ "]"

end Rule

structure PatternNode where
  name : Option String
  rule : Rule
deriving DecidableEq

namespace PatternNode

def references (node : PatternNode) : List PatternId :=
  node.rule.references

def map (f : PatternId → PatternId) (node : PatternNode) : PatternNode :=
  { node with rule := node.rule.map f }

def eqv (a b : PatternNode) : Bool :=
  a.name == b.name &&
    match a.rule, b.rule with
    | .literal r, .literal s =>
      r.kind == s.kind && r.attributes.length == s.attributes.length &&
        (r.attributes.zip s.attributes).all fun (x, y) ↦ x.1 == y.1 && x.2.eqv y.2
    | .search r, .search s => r == s
    | _, _ => false

end PatternNode

end TreePattern

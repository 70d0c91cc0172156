import TreePattern.LoadError
import TreePattern.Pattern.Compile

namespace TreePattern

namespace Pattern.Loader

abbrev Load (α : Type) := StateT Builder (Except LoadError) α

def fail {α : Type} (error : LoadError) : Load α :=
  StateT.lift (.error error)

def add (node : PatternNode) : Load PatternId :=
  fun builder ↦ .ok (builder.add node)

def searchKeys : List String :=
  ["NodeType", "Name", "Rules", "Exact", "Operator"]

inductive KeyRole where
  | kind
  | reserved
  | nested
  | constraint

def keyRole : String → KeyRole
  | "NodeType" => .kind
  | "Rules" | "Exact" | "Operator" => .reserved
  | "Attributes" => .nested
  | _ => .constraint

def exactOf (path : Path) (members : List (String × Json)) : Except LoadError Bool :=
  match Json.member? members "Exact" with
  | none | some .null => .ok false
  | some (.bool exact) => .ok exact
  | some _ => .error (.invalidField path "Exact" .boolean)

def operatorOf (path : Path) (members : List (String × Json)) : Except LoadError Operator :=
  match Json.member? members "Operator" with
  | none | some .null => .ok .anyOf
  | some (.string name) =>
    match Operator.ofName? name with
    | some operator => .ok operator
    | none => .error (.unknownOperator path name)
  | some _ => .error (.invalidField path "Operator" .string)

def nameOf (path : Path) (members : List (String × Json)) : Except LoadError (Option String) :=
  match Json.member? members "Name" with
  | none | some .null => .ok none
  | some (.string name) => .ok (some name)
  | some _ => .error (.invalidField path "Name" .string)

def checkKeys (path : Path) (members : List (String × Json)) : Except LoadError Unit :=
  match members.find? fun entry ↦ !searchKeys.contains entry.1 with
  | none => .ok ()
  | some (key, _) => .error (.unexpectedField path key .search)

def searchNode (path : Path) (members : List (String × Json)) (rules : List PatternId) :
    Except LoadError PatternNode := do
  let exact ← exactOf path members
  let operator ← operatorOf path members
  checkKeys path members
  let name ← nameOf path members
  return ⟨name, .search ⟨rules, exact, operator⟩⟩

mutual

def node (path : Path) : Json → Load PatternId
  | .object members =>
    match Json.member? members "NodeType" with
    | none | some .null => fail (.missingNodeType path)
    | some (.string kind) => do
      if kind = "MatchRule" then
        let rules ← rulesOf path members
        add (← StateT.lift (searchNode path members rules))
      else
        let attributes ← constraints path keyRole members
        add ⟨none, .literal ⟨some kind, attributes⟩⟩
    | some _ => fail (.invalidField path "NodeType" .string)
  | _ => fail (.notAnObject path)

def rulesOf (path : Path) : List (String × Json) → Load (List PatternId)
  | [] => return []
  | (key, value) :: rest =>
    if key = "Rules" then
      match value with
      | .null => return []
      | .array items => nodes (path ++ [.key "Rules"]) 0 items
      | _ => fail (.invalidField path "Rules" .array)
    else rulesOf path rest

def nodes (path : Path) (position : Nat) : List Json → Load (List PatternId)
  | [] => return []
  | item :: rest => do
    let id ← node (path ++ [.index position]) item
    return id :: (← nodes path (position + 1) rest)

/-- Loads the constraints of the members of a literal, or of the members under its `Attributes`,
whichever the roles of the keys say. -/
def constraints (path : Path) (role : String → KeyRole) :
    List (String × Json) → Load (List (String × Constraint))
  | [] => return []
  | (key, value) :: rest => do
    let found ←
      match role key, value with
      | .kind, _ => pure []
      | .reserved, _ => fail (.unexpectedField path key .literal)
      | .nested, .object members =>
        constraints (path ++ [.key "Attributes"]) (fun _ ↦ .constraint) members
      | .nested, _ => fail (.invalidField path "Attributes" .object)
      | .constraint, .array items => do
        pure [(key, .sequence (← nodes (path ++ [.key key]) 0 items))]
      | .constraint, single =>
        match Scalar.ofJson? single with
        | some expected => pure [(key, .scalar expected)]
        | none => do pure [(key, .pattern (← node (path ++ [.key key]) single))]
    return found ++ (← constraints path role rest)

end

end Pattern.Loader

namespace RawPattern

/-- The pattern of a document, not yet checked. -/
def ofJson (document : Json) : Except LoadError RawPattern := do
  let (root, builder) ← (Pattern.Loader.node [] document).run .empty
  return builder.build root

def read (text : String) : Except LoadError RawPattern := do
  ofJson (← (Json.read .shallow text).mapError .json)

end RawPattern

inductive PatternError where
  | load (error : LoadError)
  | compile (error : CompileError)
deriving DecidableEq

def PatternError.message : PatternError → String
  | .load error => error.message
  | .compile error => error.message

namespace Pattern

def read (text : String) : Except PatternError Pattern := do
  let raw ← (RawPattern.read text).mapError .load
  raw.compile.mapError .compile

end Pattern

end TreePattern

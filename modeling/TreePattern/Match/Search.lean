import TreePattern.Match.Result

namespace TreePattern

inductive MatchError where
  | access (error : AccessError)
  | limitExceeded (limit : Nat)
  | missing (id : PatternId)
  | tooDeep
deriving DecidableEq

namespace MatchError

def message : MatchError → String
  | .access error => "AST adapter failed: " ++ error.message
  | .limitExceeded limit => "search visited more than " ++ toString limit ++ " nodes"
  | .missing id => "pattern has no node " ++ id.render
  | .tooDeep => "pattern refers to itself"

def cause : MatchError → Option String
  | .access error => some error.message
  | _ => none

end MatchError

inductive TraceEvent where
  | attributeAbsent (pattern : PatternId) (name : String)
  | constraintFailed (pattern : PatternId) (name : String)
  | nodeMatched (pattern : PatternId) (hits : Nat)
deriving DecidableEq

/-- The account of a match: the visits made by its searches, and the recorded steps, last to
first. -/
structure Tally where
  visited : Nat
  trace : List TraceEvent
deriving DecidableEq

def Tally.zero : Tally := ⟨0, []⟩

/-- A part of a match: it keeps the account, and may fail. The account is kept on failure too. -/
abbrev MatchM := ExceptT MatchError (StateM Tally)

structure Setting where
  view : View
  pattern : Pattern
  limit : Option Nat
  traced : Bool

abbrev Finder := PatternId → List Node → MatchM (List Find)

namespace Setting

variable (s : Setting)

def charge : MatchM Unit := fun tally ↦
  let charged := { tally with visited := tally.visited + 1 }
  match s.limit with
  | none => (.ok (), charged)
  | some limit =>
    if limit < charged.visited then (.error (.limitExceeded limit), charged) else (.ok (), charged)

def note (event : TraceEvent) : MatchM Unit := fun tally ↦
  (.ok (), if s.traced then { tally with trace := event :: tally.trace } else tally)

def access {α : Type} : Except AccessError α → MatchM α
  | .ok value => pure value
  | .error error => throw (.access error)

/-- Asks each rule at its node, in turn. The finds are filed only if every rule finds something. -/
def positions (find : Finder) : List (PatternId × Node) → Captures → MatchM (Option Captures)
  | [], captures => return some captures
  | (id, n) :: rest, captures => do
    match ← find id [n] with
    | [] => return none
    | finds => positions find rest (captures.recordAll finds)

def constrain (find : Finder) (value : Value) (captures : Captures) :
    Constraint → MatchM (Option Captures)
  | .scalar expected =>
    match value with
    | .scalar actual => return if actual.eqv expected then some captures else none
    | _ => return none
  | .pattern id => do
    match ← find id value.nodeList with
    | [] => return none
    | finds => return some (captures.recordAll finds)
  | .sequence ids =>
    match value with
    | .nodes children => do
      if children.length = ids.length then
        return (← positions find (ids.zip children) .empty).map captures.append
      else return none
    | _ => return none

/-- Checks the constraints of a literal in turn, up to the first one that is not met. -/
def meets (find : Finder) (id : PatternId) (n : Node) :
    List (String × Constraint) → Captures → MatchM (Option Captures)
  | [], captures => return some captures
  | (name, constraint) :: rest, captures => do
    match ← access (s.view.lookup n name) with
    | none => do
      s.note (.attributeAbsent id name)
      return none
    | some value =>
      match ← constrain find value captures constraint with
      | none => do
        s.note (.constraintFailed id name)
        return none
      | some captures => meets find id n rest captures

def hasKind (rule : LiteralRule) (n : Node) : MatchM Bool :=
  match rule.kind with
  | none => return true
  | some kind => return (← access n.kind) == kind

def literal (find : Finder) (id : PatternId) (origin : PatternNode) (rule : LiteralRule)
    (n : Node) : MatchM (List Find) := do
  if ← hasKind rule n then
    match ← s.meets find id n rule.attributes .empty with
    | some captures => return [⟨n, id, origin, origin.name, captures⟩]
    | none => return []
  else return []

def outcomes (find : Finder) (n : Node) : List PatternId → MatchM (List (List Find))
  | [] => return []
  | id :: rest => do
    let finds ← find id [n]
    return finds :: (← outcomes find n rest)

/-- Visits a node: asks the sub-rules of a search there and combines what they find. -/
def visit (find : Finder) (id : PatternId) (origin : PatternNode) (rule : SearchRule) (n : Node) :
    MatchM (List Find) := do
  let found ← outcomes find n rule.rules
  let satisfied := found.countP fun finds ↦ !finds.isEmpty
  let hits := found.flatten.map (Find.inherit origin.name)
  let contribute : MatchM (List Find) := do
    s.note (.nodeMatched id hits.length)
    return hits
  match rule.operator with
  | .anyOf => if 0 < satisfied then contribute else return []
  | .allOf => if satisfied = rule.rules.length then contribute else return []
  | .oneOf => if satisfied = 1 then contribute else return []
  | .not => return if satisfied = 0 then [⟨n, id, origin, origin.name, .empty⟩] else []

def gather (attempt : Node → MatchM (List Find)) :
    List Node → List Find → Tally → Except MatchError (List Find) × Tally
  | [], found, tally => (.ok found.reverse, tally)
  | n :: rest, found, tally =>
    match attempt n tally with
    | (.error error, tally) => (.error error, tally)
    | (.ok hits, tally) => gather attempt rest (hits.reverseAux found) tally

/-- Takes the finds at each of the nodes and at everything below it, in pre-order. The finds so far
are listed last to first. -/
def sweep (attempt : Node → MatchM (List Find)) :
    List Node → List Find → Tally → Except MatchError (List Find) × Tally
  | [], found, tally => (.ok found.reverse, tally)
  | n :: rest, found, tally =>
    match attempt n tally with
    | (.error error, tally) => (.error error, tally)
    | (.ok hits, tally) =>
      match h : s.view.children n with
      | .error error => (.error (.access error), tally)
      | .ok children =>
        have := View.forestWeight_children_lt h rest
        sweep attempt (children ++ rest) (hits.reverseAux found) tally
termination_by work => Node.forestWeight work

def charged (find : Finder) (id : PatternId) (origin : PatternNode) (rule : SearchRule) (n : Node) :
    MatchM (List Find) := do
  s.charge
  s.visit find id origin rule n

def search (find : Finder) (id : PatternId) (origin : PatternNode) (rule : SearchRule)
    (roots : List Node) : MatchM (List Find) :=
  if rule.exact then gather (s.charged find id origin rule) roots []
  else s.sweep (s.charged find id origin rule) roots []

def apply (find : Finder) (id : PatternId) (origin : PatternNode) (roots : List Node) :
    MatchM (List Find) :=
  match origin.rule with
  | .literal rule => gather (s.literal find id origin rule) roots []
  | .search rule => s.search find id origin rule roots

/-- What the rule of the given number finds at a list of nodes. The depth bounds how many rules may
refer to each other in a row. -/
def findAt : Nat → Finder
  | 0, _, _ => throw .tooDeep
  | depth + 1, id, roots =>
    match s.pattern.get? id with
    | none => throw (.missing id)
    | some origin => s.apply (findAt depth) id origin roots

def findAll (root : Node) : Except MatchError (List Find) × Tally :=
  (s.findAt s.pattern.size Pattern.root [root]).run.run .zero

end Setting

end TreePattern

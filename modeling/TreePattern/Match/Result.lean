import TreePattern.Match.Groups
import TreePattern.Pattern.Compile
import TreePattern.Tree.View

namespace TreePattern

structure Find where
  node : Node
  pattern : PatternId
  origin : PatternNode
  /-- The name under which this is filed: that of the rule, or that of a search around it. -/
  name : Option String
  captures : Groups Find

abbrev Captures := Groups Find

namespace Find

def inherit (name : Option String) (f : Find) : Find :=
  { f with name := f.name.or name }

mutual

/-- Whether two finds in one tree are the same: the same node, rule and name, and the same finds
below. -/
def eqv : Find → Find → Bool
  | ⟨node, pattern, _, name, captures⟩, ⟨node', pattern', _, name', captures'⟩ =>
    node.index == node'.index && pattern == pattern' && name == name' &&
      capturesEqv captures captures'

def capturesEqv : Groups Find → Groups Find → Bool
  | ⟨groups⟩, ⟨groups'⟩ => groupsEqv groups groups'

def groupsEqv : List (String × List Find) → List (String × List Find) → Bool
  | [], [] => true
  | (name, finds) :: rest, (name', finds') :: rest' =>
    name == name' && listEqv finds finds' && groupsEqv rest rest'
  | _, _ => false

def listEqv : List Find → List Find → Bool
  | [], [] => true
  | f :: rest, f' :: rest' => eqv f f' && listEqv rest rest'
  | _, _ => false

end

end Find

namespace Groups

/-- Files a find: under its name or, without one, by passing on what was found below it. -/
def record (captures : Captures) (f : Find) : Captures :=
  match f.name with
  | some name => captures.push name f
  | none => captures.append f.captures

def recordAll (captures : Captures) (finds : List Find) : Captures :=
  finds.foldl record captures

end Groups

structure Matches where
  tree : SyntaxTree
  finds : List Find

namespace Matches

def size (m : Matches) : Nat :=
  m.finds.length

def named (m : Matches) (name : String) : List Find :=
  m.finds.filter fun f ↦ f.name == some name

def grouped (m : Matches) : Captures :=
  Groups.empty.recordAll m.finds

/-- Whether two matches have the same finds. Finds in different trees differ, and matches in trees
that are read in different ways cannot be compared. -/
def eqv (a b : Matches) : Bool :=
  a.tree.view == b.tree.view &&
    if a.tree.id == b.tree.id then Find.listEqv a.finds b.finds
    else a.finds.isEmpty && b.finds.isEmpty

end Matches

end TreePattern

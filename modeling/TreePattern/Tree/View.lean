import TreePattern.Tree.Node

namespace TreePattern

inductive View where
  | scan
  | keyed
  /-- Attributes are found by name, and children are looked for only in fields that can be read. -/
  | lenient
deriving DecidableEq

namespace View

def lookup (view : View) (n : Node) (name : String) : Except AccessError (Option Value) :=
  match view with
  | .scan => do
    let fields ← n.readFields
    return (fields.find? fun field ↦ field.1 == name).map (·.2)
  | .keyed | .lenient =>
    match n.fields.find? fun field ↦ field.1 == name with
    | none => .ok none
    | some field => field.2.read.map some

def children (view : View) (n : Node) : Except AccessError (List Node) :=
  match view with
  | .scan | .keyed => do
    let _ ← n.readFields
    return n.children
  | .lenient => .ok n.children

/-- The children that a view shows are the children there are. -/
theorem children_eq {view : View} {n : Node} {found : List Node}
    (h : view.children n = .ok found) : found = n.children := by
  cases view <;> simp only [children] at h
  · cases hf : n.readFields with
    | error e => simp [hf, bind, Except.bind] at h
    | ok fields => simpa [hf, bind, Except.bind, pure, Except.pure, eq_comm] using h
  · cases hf : n.readFields with
    | error e => simp [hf, bind, Except.bind] at h
    | ok fields => simpa [hf, bind, Except.bind, pure, Except.pure, eq_comm] using h
  · simpa [eq_comm] using h

/-- Replacing a node by the children that a view shows leaves less to walk. -/
theorem forestWeight_children_lt {view : View} {n : Node} {found : List Node}
    (h : view.children n = .ok found) (rest : List Node) :
    Node.forestWeight (found ++ rest) < Node.forestWeight (n :: rest) := by
  rw [children_eq h, Node.forestWeight_append, Node.forestWeight, Node.weight_eq]
  omega

end View

/-- A tree with the way to read it. The number tells trees apart: nodes of different trees are
different, whatever their content. -/
structure SyntaxTree where
  id : Nat
  view : View
  root : Node

namespace SyntaxTree

def ofNode (id : Nat) (view : View) (root : Node) : SyntaxTree :=
  ⟨id, view, (root.number 0).1⟩

def node? (tree : SyntaxTree) (index : Nat) : Option Node :=
  tree.root.preorder[index]?

def size (tree : SyntaxTree) : Nat :=
  tree.root.preorder.length

/-- Whether two trees read in the same way have the same content. Trees that are only scanned cannot
be compared. -/
def eqv (a b : SyntaxTree) : Bool :=
  a.view == b.view && a.view != .scan && a.root.eqv b.root

end SyntaxTree

end TreePattern

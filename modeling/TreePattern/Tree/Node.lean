import TreePattern.Scalar

namespace TreePattern

structure AccessError where
  message : String
  cause : Option String := none
deriving DecidableEq, Inhabited

mutual

structure Node where
  index : Nat
  kind : Except AccessError String
  fields : List (String × Field)

inductive Field where
  | scalar (value : Scalar)
  | node (child : Node)
  | nodes (children : List Node)
  | broken (error : AccessError)

end

instance : Inhabited Node := ⟨⟨0, .ok "", []⟩⟩

inductive Value where
  | scalar (value : Scalar)
  | node (child : Node)
  | nodes (children : List Node)

def Value.nodeList : Value → List Node
  | .scalar _ => []
  | .node child => [child]
  | .nodes children => children

namespace Field

def nodeList : Field → List Node
  | .scalar _ => []
  | .node child => [child]
  | .nodes children => children
  | .broken _ => []

def read : Field → Except AccessError Value
  | .scalar value => .ok (.scalar value)
  | .node child => .ok (.node child)
  | .nodes children => .ok (.nodes children)
  | .broken error => .error error

end Field

namespace Node

def children (n : Node) : List Node :=
  n.fields.flatMap fun field ↦ field.2.nodeList

def readFields (n : Node) : Except AccessError (List (String × Value)) :=
  n.fields.mapM fun field ↦ do return (field.1, ← field.2.read)

mutual

def weight : Node → Nat
  | ⟨_, _, fields⟩ => fieldsWeight fields + 1

def fieldsWeight : List (String × Field) → Nat
  | [] => 0
  | (_, field) :: rest => fieldWeight field + fieldsWeight rest

def fieldWeight : Field → Nat
  | .scalar _ => 0
  | .node child => weight child
  | .nodes children => forestWeight children
  | .broken _ => 0

def forestWeight : List Node → Nat
  | [] => 0
  | n :: rest => weight n + forestWeight rest

end

theorem forestWeight_append (a b : List Node) :
    forestWeight (a ++ b) = forestWeight a + forestWeight b := by
  induction a with
  | nil => simp [forestWeight]
  | cons n rest ih => simp only [List.cons_append, forestWeight, ih, Nat.add_assoc]

theorem forestWeight_nodeList (field : Field) :
    forestWeight field.nodeList = fieldWeight field := by
  cases field <;> simp [Field.nodeList, forestWeight, fieldWeight]

theorem forestWeight_flatMap (fields : List (String × Field)) :
    forestWeight (fields.flatMap fun field ↦ field.2.nodeList) = fieldsWeight fields := by
  induction fields with
  | nil => rfl
  | cons field rest ih =>
    rw [List.flatMap_cons, forestWeight_append, ih, forestWeight_nodeList, fieldsWeight]

/-- A tree is its root and the trees of the children. -/
theorem weight_eq (n : Node) : n.weight = forestWeight n.children + 1 := by
  obtain ⟨index, kind, fields⟩ := n
  rw [children, forestWeight_flatMap, weight]

def walk : List Node → List Node → List Node
  | [], listed => listed.reverse
  | n :: rest, listed => walk (n.children ++ rest) (n :: listed)
termination_by work => forestWeight work
decreasing_by
  rw [forestWeight_append, forestWeight, weight_eq]
  omega

def preorder (n : Node) : List Node :=
  walk [n] []

mutual

/-- Gives the nodes of a tree their positions in pre-order, from `next` on, and tells the position
after the last. -/
def number (next : Nat) : Node → Node × Nat
  | ⟨_, kind, fields⟩ =>
    let (numbered, after) := numberFields (next + 1) fields
    (⟨next, kind, numbered⟩, after)

def numberFields (next : Nat) : List (String × Field) → List (String × Field) × Nat
  | [] => ([], next)
  | (name, field) :: rest =>
    let (numbered, after) := numberField next field
    let (others, last) := numberFields after rest
    ((name, numbered) :: others, last)

def numberField (next : Nat) : Field → Field × Nat
  | .scalar value => (.scalar value, next)
  | .node child =>
    let (numbered, after) := number next child
    (.node numbered, after)
  | .nodes children =>
    let (numbered, after) := numberForest next children
    (.nodes numbered, after)
  | .broken error => (.broken error, next)

def numberForest (next : Nat) : List Node → List Node × Nat
  | [] => ([], next)
  | n :: rest =>
    let (numbered, after) := number next n
    let (others, last) := numberForest after rest
    (numbered :: others, last)

end

def kindEqv : Except AccessError String → Except AccessError String → Bool
  | .ok a, .ok b => a == b
  | .error a, .error b => a.message == b.message
  | _, _ => false

mutual

/-- Whether two trees have the same content, fields in the same order included. Scalars are compared
as scalars, and parts that cannot be read by the message that says why. -/
def eqv : Node → Node → Bool
  | ⟨_, kind, fields⟩, ⟨_, kind', fields'⟩ => kindEqv kind kind' && fieldsEqv fields fields'

def fieldsEqv : List (String × Field) → List (String × Field) → Bool
  | [], [] => true
  | (name, field) :: rest, (name', field') :: rest' =>
    name == name' && fieldEqv field field' && fieldsEqv rest rest'
  | _, _ => false

def fieldEqv : Field → Field → Bool
  | .scalar a, .scalar b => a.eqv b
  | .node a, .node b => eqv a b
  | .nodes a, .nodes b => forestEqv a b
  | .broken a, .broken b => a.message == b.message
  | _, _ => false

def forestEqv : List Node → List Node → Bool
  | [], [] => true
  | a :: rest, b :: rest' => eqv a b && forestEqv rest rest'
  | _, _ => false

end

end Node

end TreePattern

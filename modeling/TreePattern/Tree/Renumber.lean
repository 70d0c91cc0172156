import TreePattern.Tree.Node

namespace TreePattern.Node

structure Draft where
  index : Nat
  kind : Except AccessError String
  fields : List (String × Field)
  rest : List (String × Field)

namespace Draft

def add (p : Draft) (name : String) (field : Field) : Draft :=
  { p with fields := (name, field) :: p.fields }

def finish (p : Draft) : Node :=
  ⟨p.index, p.kind, p.fields.reverse⟩

end Draft

inductive Task where
  | fields (node : Draft)
  | items (node : Draft) (name : String) (done : List Node) (rest : List Node)

inductive Frame where
  | field (node : Draft) (name : String)
  | item (node : Draft) (name : String) (done : List Node) (rest : List Node)

noncomputable def Task.extent : Task → Nat
  | .fields node => sizeOf node.rest + 1
  | .items node _ _ rest => sizeOf rest + sizeOf node.rest + 2

noncomputable def Frame.extent : Frame → Nat
  | .field node _ => sizeOf node.rest + 1
  | .item node _ _ rest => sizeOf rest + sizeOf node.rest + 2

noncomputable def stackExtent : List Frame → Nat
  | [] => 0
  | frame :: outer => frame.extent + stackExtent outer

/-- Numbers what is left, from `next` on, in the order in which nodes are met. -/
def numberWith (next : Nat) : Task → List Frame → Node
  | .fields ⟨index, kind, fields, (name, field) :: rest⟩, stack =>
    let node : Draft := ⟨index, kind, fields, rest⟩
    match field with
    | .scalar value => numberWith next (.fields (node.add name (.scalar value))) stack
    | .broken error => numberWith next (.fields (node.add name (.broken error))) stack
    | .node ⟨_, kind, inner⟩ =>
      numberWith (next + 1) (.fields ⟨next, kind, [], inner⟩) (.field node name :: stack)
    | .nodes children => numberWith next (.items node name [] children) stack
  | .fields node@⟨_, _, _, []⟩, .field parent name :: outer =>
    numberWith next (.fields (parent.add name (.node node.finish))) outer
  | .fields node@⟨_, _, _, []⟩, .item parent name done rest :: outer =>
    numberWith next (.items parent name (node.finish :: done) rest) outer
  | .fields node@⟨_, _, _, []⟩, [] => node.finish
  | .items node name done (⟨_, kind, inner⟩ :: rest), stack =>
    numberWith (next + 1) (.fields ⟨next, kind, [], inner⟩) (.item node name done rest :: stack)
  | .items node name done [], stack =>
    numberWith next (.fields (node.add name (.nodes done.reverse))) stack
termination_by task stack => task.extent + stackExtent stack
decreasing_by
  all_goals
    simp only [Task.extent, Frame.extent, stackExtent, Draft.add, List.cons.sizeOf_spec,
      List.nil.sizeOf_spec, Prod.mk.sizeOf_spec, Field.node.sizeOf_spec, Field.nodes.sizeOf_spec,
      Node.mk.sizeOf_spec]
  all_goals omega

def numbered : Node → Node
  | ⟨_, kind, fields⟩ => numberWith 1 (.fields ⟨0, kind, [], fields⟩) []

end TreePattern.Node

import TreePattern.Proofs.Tree.Preorder
import TreePattern.Tree.Renumber

namespace TreePattern.Node

variable {n : Node} {forest : List Node} {fields : List (String × Field)} {next last : Nat}

theorem numberFields_cons (next : Nat) (name : String) (field : Field)
    (rest : List (String × Field)) :
    numberFields next ((name, field) :: rest) =
      ((name, (numberField next field).1) ::
          (numberFields (numberField next field).2 rest).1,
        (numberFields (numberField next field).2 rest).2) := by
  rw [numberFields]

theorem numberForest_cons (next : Nat) (n : Node) (rest : List Node) :
    numberForest next (n :: rest) =
      ((n.number next).1 :: (numberForest (n.number next).2 rest).1,
        (numberForest (n.number next).2 rest).2) := by
  rw [numberForest]

theorem numberForest_append (next : Nat) (a b : List Node) :
    numberForest next (a ++ b) =
      ((numberForest next a).1 ++ (numberForest (numberForest next a).2 b).1,
        (numberForest (numberForest next a).2 b).2) := by
  induction a generalizing next with
  | nil => simp [numberForest]
  | cons n rest ih =>
    rw [List.cons_append, numberForest_cons, numberForest_cons, ih, List.cons_append]

theorem numberField_nodeList (next : Nat) (field : Field) :
    ((numberField next field).1.nodeList, (numberField next field).2) =
      numberForest next field.nodeList := by
  cases field <;> simp [numberField, numberForest, Field.nodeList]

theorem numberFields_nodeList (next : Nat) (fields : List (String × Field)) :
    ((numberFields next fields).1.flatMap fun field ↦ field.2.nodeList,
        (numberFields next fields).2) =
      numberForest next (fields.flatMap fun field ↦ field.2.nodeList) := by
  induction fields generalizing next with
  | nil => simp [numberFields, numberForest]
  | cons entry rest ih =>
    obtain ⟨name, field⟩ := entry
    rw [numberFields_cons, List.flatMap_cons, List.flatMap_cons, numberForest_append,
      ← numberField_nodeList, ← ih]

/-- Numbering a tree numbers the trees of its children. -/
theorem children_number (next : Nat) (n : Node) :
    (n.number next).1.children = (numberForest (next + 1) n.children).1 := by
  obtain ⟨index, kind, fields⟩ := n
  rw [number]
  exact congrArg Prod.fst (numberFields_nodeList (next + 1) fields)

theorem exists_of_mem_numberForest {ns : List Node} {x : Node} {next : Nat}
    (h : x ∈ (numberForest next ns).1) : ∃ n ∈ ns, ∃ place, x = (n.number place).1 := by
  induction ns generalizing next with
  | nil => simp [numberForest] at h
  | cons n rest ih =>
    rw [numberForest_cons] at h
    cases List.mem_cons.mp h with
    | inl hx => exact ⟨n, List.mem_cons_self, next, hx⟩
    | inr hx =>
      obtain ⟨m, hm, hplace⟩ := ih hx
      exact ⟨m, .tail _ hm, hplace⟩

theorem index_number (next : Nat) (n : Node) : (n.number next).1.index = next := by
  obtain ⟨index, kind, fields⟩ := n
  rw [number]

/-- What is left to number is numbered behind the children. -/
theorem after_number (next : Nat) (n : Node) :
    (n.number next).2 = (numberForest (next + 1) n.children).2 := by
  obtain ⟨index, kind, fields⟩ := n
  rw [number]
  exact congrArg Prod.snd (numberFields_nodeList (next + 1) fields)

/-- Numbering gives as many numbers as there are nodes, in pre-order. -/
theorem numberForest_preorder (next : Nat) (forest : List Node) :
    ((numberForest next forest).1.flatMap preorder).map (·.index) =
        List.range' next (forestWeight forest) ∧
      (numberForest next forest).2 = next + forestWeight forest := by
  induction forest using forest_induction generalizing next with
  | nil => simp [numberForest, forestWeight]
  | cons n rest ihn ihr =>
    obtain ⟨hchildren, hafter⟩ := ihn (next + 1)
    obtain ⟨hrest, hlast⟩ := ihr (n.number next).2
    have hweight : next + 1 + forestWeight n.children = next + n.weight := by
      rw [weight_eq]
      omega
    have hn : ((n.number next).1.preorder).map (·.index) = List.range' next n.weight := by
      rw [preorder_eq, List.map_cons, index_number, children_number, hchildren, weight_eq,
        List.range'_succ]
    rw [after_number, hafter, hweight] at hrest hlast
    rw [numberForest_cons, List.flatMap_cons, List.map_append, hn, after_number, hafter, hweight,
      forestWeight]
    refine ⟨?_, by rw [hlast, Nat.add_assoc]⟩
    rw [hrest, List.range'_append_1]

theorem length_numberForest (next : Nat) (forest : List Node) :
    (numberForest next forest).1.length = forest.length := by
  induction forest generalizing next with
  | nil => rw [numberForest]
  | cons n rest ih => rw [numberForest_cons, List.length_cons, List.length_cons, ih]

theorem numberField_eq_self {field : Field} {last : Nat}
    (h : numberForest next field.nodeList = (field.nodeList, last)) :
    numberField next field = (field, last) := by
  cases field with
  | scalar | broken =>
    cases h
    rw [numberField]
  | node child =>
    simp only [Field.nodeList, numberForest, Prod.mk.injEq, List.cons.injEq, and_true] at h
    have hchild : number next child = (child, last) := Prod.ext h.1 h.2
    rw [numberField, hchild]
  | nodes children =>
    rw [Field.nodeList] at h
    rw [numberField, h]

/-- Fields keep their numbers if the nodes that they hold do. -/
theorem numberFields_eq_self {nodes : List Node} (hnodes : fields.flatMap (·.2.nodeList) = nodes)
    (h : numberForest next nodes = (nodes, last)) : numberFields next fields = (fields, last) := by
  subst hnodes
  induction fields generalizing next with
  | nil =>
    cases h
    rw [numberFields]
  | cons entry rest ih =>
    obtain ⟨name, field⟩ := entry
    rw [List.flatMap_cons, numberForest_append, Prod.mk.injEq] at h
    obtain ⟨hnodes, hlast⟩ := h
    obtain ⟨hfield, hrest⟩ := List.append_inj hnodes (length_numberForest next field.nodeList)
    have hfield : numberField next field = (field, (numberForest next field.nodeList).2) :=
      numberField_eq_self (Prod.ext hfield rfl)
    rw [numberFields_cons, hfield, ih (Prod.ext hrest hlast)]

/-- Nodes that have consecutive numbers in pre-order keep them. -/
theorem numberForest_eq_self
    (h : (forest.flatMap preorder).map (·.index) = List.range' next (forestWeight forest)) :
    numberForest next forest = (forest, next + forestWeight forest) := by
  induction forest using forest_induction generalizing next with
  | nil => rw [numberForest, forestWeight, Nat.add_zero]
  | cons n rest ihn ihr =>
    rw [List.flatMap_cons, List.map_append, forestWeight, ← List.range'_append_1] at h
    obtain ⟨hn, hrest⟩ := List.append_inj h (by simp [length_preorder])
    rw [preorder_eq, List.map_cons, weight_eq, List.range'_succ, List.cons.injEq] at hn
    obtain ⟨hindex, hchildren⟩ := hn
    have hafter : next + 1 + forestWeight n.children = next + n.weight := by
      rw [weight_eq]
      omega
    have hfields := numberFields_eq_self rfl (ihn hchildren)
    have hnumber : n.number next = (n, next + n.weight) := by
      obtain ⟨index, kind, fields⟩ := n
      cases hindex
      rw [number, hfields, hafter]
    rw [numberForest_cons, hnumber, ihr hrest, forestWeight, Nat.add_assoc]

/-- The number of every node is its position in a pre-order walk. -/
def InPreorder (n : Node) : Prop :=
  n.preorder.map (·.index) = List.range n.preorder.length

theorem inPreorder_number (n : Node) : (n.number 0).1.InPreorder := by
  have h := (numberForest_preorder 0 [n]).1
  simp only [numberForest, List.flatMap_singleton] at h
  have hlength := congrArg List.length h
  rw [List.length_map, List.length_range'] at hlength
  rw [InPreorder, h, hlength, List.range_eq_range']

/-- The position of a node in pre-order is its number, if the tree is numbered so. -/
theorem InPreorder.index_eq {x : Node} {i : Nat} (h : n.InPreorder)
    (hx : n.preorder[i]? = some x) : x.index = i := by
  have hindex : (n.preorder.map (·.index))[i]? = some x.index := by rw [List.getElem?_map, hx]; rfl
  rw [h] at hindex
  obtain ⟨hlt, hi⟩ := List.getElem?_eq_some_iff.mp hindex
  rw [← hi, List.getElem_range]

theorem InPreorder.number_eq (h : n.InPreorder) : (n.number 0).1 = n := by
  rw [InPreorder, List.range_eq_range', length_preorder] at h
  have hforest : numberForest 0 [n] = ([n], 0 + forestWeight [n]) :=
    numberForest_eq_self (by simpa [forestWeight] using h)
  simpa [numberForest] using congrArg (fun pair ↦ pair.1) hforest

-- By recursion on what is left of a node: whatever is on the stack, it is taken up again when a
-- node or a list has been numbered.
mutual

theorem numberWith_fields (next index : Nat) (kind : Except AccessError String)
    (fields : List (String × Field)) (stack : List Frame) : (rest : List (String × Field)) →
    numberWith next (.fields ⟨index, kind, fields, rest⟩) stack =
      numberWith (numberFields next rest).2
        (.fields ⟨index, kind, (numberFields next rest).1.reverse ++ fields, []⟩) stack
  | [] => by
    simp only [numberFields, List.reverse_nil, List.nil_append]
  | (name, field) :: rest => by
    rw [numberWith_field, numberWith_fields _ index kind _ stack rest, numberFields_cons,
      List.reverse_cons, List.append_assoc, List.singleton_append]
termination_by structural rest => rest

theorem numberWith_field (next index : Nat) (kind : Except AccessError String)
    (fields : List (String × Field)) (stack : List Frame) (name : String)
    (rest : List (String × Field)) : (field : Field) →
    numberWith next (.fields ⟨index, kind, fields, (name, field) :: rest⟩) stack =
      numberWith (numberField next field).2
        (.fields ⟨index, kind, (name, (numberField next field).1) :: fields, rest⟩) stack
  | .scalar value => by
    rw [numberWith, numberField, Draft.add]
  | .broken error => by
    rw [numberWith, numberField, Draft.add]
  | .node ⟨_, inner, held⟩ => by
    rw [numberWith, numberWith_fields, numberWith, numberField, number]
    simp only [Draft.add, Draft.finish, List.append_nil, List.reverse_reverse]
  | .nodes children => by
    rw [numberWith, numberWith_items, numberWith, numberField]
    simp only [Draft.add, List.append_nil, List.reverse_reverse]
termination_by structural field => field

theorem numberWith_items (next : Nat) (node : Draft) (name : String) (done : List Node)
    (stack : List Frame) : (items : List Node) →
    numberWith next (.items node name done items) stack =
      numberWith (numberForest next items).2
        (.items node name ((numberForest next items).1.reverse ++ done) []) stack
  | [] => by
    simp only [numberForest, List.reverse_nil, List.nil_append]
  | ⟨_, inner, held⟩ :: rest => by
    rw [numberWith, numberWith_fields, numberWith, numberWith_items _ node name _ stack rest,
      numberForest_cons, number]
    simp only [Draft.finish, List.append_nil, List.reverse_reverse, List.reverse_cons,
      List.append_assoc, List.singleton_append]
termination_by structural items => items

end

theorem numbered_eq (n : Node) : n.numbered = (n.number 0).1 := by
  obtain ⟨index, kind, fields⟩ := n
  rw [numbered, numberWith_fields, numberWith, number]
  simp only [Draft.finish, List.append_nil, List.reverse_reverse, Nat.zero_add]

end TreePattern.Node

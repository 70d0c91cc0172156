import TreePattern.Proofs.Tree.Numbering
import TreePattern.Tree.OfJson

namespace TreePattern.Tree

open Json

mutual

def fieldsOf : List (String × Json) → List (String × Field)
  | [] => []
  | (name, value) :: rest =>
    if name = "NodeType" then fieldsOf rest
    else
      match fieldOf? name value with
      | none => fieldsOf rest
      | some field => (name, field) :: fieldsOf rest

def fieldOf? (name : String) : Json → Option Field
  | .null => none
  | .object members =>
    if isNodeObject members then some (.node ⟨0, .ok (kindOf members), fieldsOf members⟩)
    else some (leafField name (.object members))
  | .array items =>
    if items.all isNode then some (.nodes (forestOf items))
    else some (leafField name (.array items))
  | .bool b => some (leafField name (.bool b))
  | .number n => some (leafField name (.number n))
  | .string s => some (leafField name (.string s))

def forestOf : List Json → List Node
  | [] => []
  | .object members :: rest => ⟨0, .ok (kindOf members), fieldsOf members⟩ :: forestOf rest
  | _ :: rest => forestOf rest

end

def nodeOf (members : List (String × Json)) : Node :=
  ⟨0, .ok (kindOf members), fieldsOf members⟩

theorem forestOf_cons (members : List (String × Json)) (rest : List Json) :
    forestOf (.object members :: rest) = nodeOf members :: forestOf rest := by
  rw [forestOf, nodeOf]

theorem fieldOf?_object {members : List (String × Json)} (h : isNodeObject members)
    (name : String) : fieldOf? name (.object members) = some (.node (nodeOf members)) := by
  rw [fieldOf?, if_pos h, nodeOf]

theorem fieldOf?_array {items : List Json} (h : items.all isNode) (name : String) :
    fieldOf? name (.array items) = some (.nodes (forestOf items)) := by
  rw [fieldOf?, if_pos h]

theorem fieldOf?_of_ofJson? {value : Json} {scalar : Scalar}
    (h : Scalar.ofJson? value = some scalar) (hn : value ≠ .null) (name : String) :
    fieldOf? name value = some (.scalar scalar) := by
  cases value with
  | null => exact absurd rfl hn
  | bool | number | string =>
    cases h
    rw [fieldOf?]
    rfl
  | array | object => cases h

theorem eq_null_of_fieldOf?_eq_none {name : String} {value : Json}
    (h : fieldOf? name value = none) : value = .null := by
  cases value with
  | null => rfl
  | bool | number | string => cases h
  | object | array =>
    rw [fieldOf?] at h
    split at h <;> cases h

theorem number_nodeOf (members : List (String × Json)) (next : Nat) :
    (nodeOf members).number next =
      (⟨next, .ok (kindOf members), (Node.numberFields (next + 1) (fieldsOf members)).1⟩,
        (Node.numberFields (next + 1) (fieldsOf members)).2) := by
  rw [nodeOf, Node.number]

theorem length_forestOf {items : List Json}
    (hi : ∀ item ∈ items, ∃ members, item = .object members) :
    (forestOf items).length = items.length := by
  induction items with
  | nil => rw [forestOf, List.length_nil, List.length_nil]
  | cons item rest ih =>
    obtain ⟨members, rfl⟩ := hi item List.mem_cons_self
    rw [forestOf_cons, List.length_cons, List.length_cons, ih fun other ho ↦ hi other (.tail _ ho)]

theorem numberField_leafField (name : String) (value : Json) (next : Nat) :
    Node.numberField next (leafField name value) = (leafField name value, next) := by
  unfold leafField
  split <;> rw [Node.numberField]

theorem exists_of_mem_forestOf {items : List Json} {x : Node} (h : x ∈ forestOf items) :
    ∃ members, x = nodeOf members := by
  induction items with
  | nil => simp [forestOf] at h
  | cons item rest ih =>
    cases item with
    | object members =>
      rw [forestOf_cons] at h
      cases List.mem_cons.mp h with
      | inl hx => exact ⟨members, hx⟩
      | inr hx => exact ih hx
    | null | bool | number | string | array =>
      rw [forestOf] at h
      · exact ih h
      · simp

theorem nodeList_leafField (name : String) (value : Json) :
    (leafField name value).nodeList = [] := by
  unfold leafField
  split <;> rfl

theorem exists_of_mem_fieldOf? {name : String} {value : Json} {field : Field} {x : Node}
    (h : fieldOf? name value = some field) (hx : x ∈ field.nodeList) :
    ∃ members, x = nodeOf members := by
  have hleaf : field ≠ leafField name value := by
    rintro rfl
    rw [nodeList_leafField] at hx
    cases hx
  cases value with
  | null => cases h
  | bool | number | string => exact absurd (Option.some.inj h).symm hleaf
  | object members =>
    rw [fieldOf?] at h
    split at h <;> cases h
    · exact ⟨members, List.mem_singleton.mp hx⟩
    · exact absurd rfl hleaf
  | array items =>
    rw [fieldOf?] at h
    split at h <;> cases h
    · exact exists_of_mem_forestOf hx
    · exact absurd rfl hleaf

theorem exists_of_mem_children_nodeOf {members : List (String × Json)} {x : Node}
    (h : x ∈ (nodeOf members).children) : ∃ others, x = nodeOf others := by
  unfold nodeOf Node.children at h
  induction members with
  | nil => simp [fieldsOf] at h
  | cons entry rest ih =>
    obtain ⟨name, value⟩ := entry
    rw [fieldsOf] at h
    split at h
    · exact ih h
    · cases hfield : fieldOf? name value with
      | none =>
        rw [hfield] at h
        exact ih h
      | some field =>
        rw [hfield, List.flatMap_cons] at h
        cases List.mem_append.mp h with
        | inl hx => exact exists_of_mem_fieldOf? hfield hx
        | inr hx => exact ih hx

theorem find?_numberFields_of_notMem {members : List (String × Json)} {key : String}
    (h : key ∉ members.map (·.1)) (next : Nat) :
    (Node.numberFields next (fieldsOf members)).1.find? (fun field ↦ field.1 == key) = none := by
  induction members generalizing next with
  | nil => rw [fieldsOf, Node.numberFields, List.find?_nil]
  | cons entry rest ih =>
    obtain ⟨name, value⟩ := entry
    rw [List.map_cons, List.mem_cons, not_or] at h
    obtain ⟨hne, hrest⟩ := h
    rw [fieldsOf]
    split
    · exact ih hrest next
    · cases fieldOf? name value with
      | none => exact ih hrest next
      | some field =>
        rw [Node.numberFields_cons, List.find?_cons, beq_false_of_ne (Ne.symm hne)]
        exact ih hrest _

theorem find?_numberFields {members : List (String × Json)} {key : String} {value : Json}
    (hn : (members.map (·.1)).Nodup) (h : (key, value) ∈ members) (hk : key ≠ "NodeType")
    (next : Nat) : ∃ place,
      (Node.numberFields next (fieldsOf members)).1.find? (fun field ↦ field.1 == key) =
        (fieldOf? key value).map fun field ↦ (key, (Node.numberField place field).1) := by
  induction members generalizing next with
  | nil => cases h
  | cons entry rest ih =>
    obtain ⟨name, first⟩ := entry
    rw [List.map_cons, List.nodup_cons] at hn
    obtain ⟨hnew, hrest⟩ := hn
    rw [fieldsOf]
    rcases List.mem_cons.mp h with h | h
    · cases h
      rw [if_neg hk]
      cases fieldOf? key value with
      | none => exact ⟨next, find?_numberFields_of_notMem hnew next⟩
      | some field =>
        refine ⟨next, ?_⟩
        rw [Node.numberFields_cons, List.find?_cons, beq_self_eq_true]
        rfl
    · have hne : name ≠ key := by
        rintro rfl
        exact hnew (List.mem_map.mpr ⟨_, h, rfl⟩)
      split
      · exact ih hrest h next
      · cases fieldOf? name first with
        | none => exact ih hrest h next
        | some field =>
          rw [Node.numberFields_cons, List.find?_cons, beq_false_of_ne hne]
          exact ih hrest h _

end TreePattern.Tree

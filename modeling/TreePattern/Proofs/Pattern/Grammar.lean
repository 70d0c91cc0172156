import Mathlib.Data.List.Forall2
import TreePattern.Pattern.OfJson
import TreePattern.Proofs.Json.Parts
import TreePattern.Proofs.Scalar

namespace TreePattern

namespace Json

variable {α : Type} {members : List (String × Json)} {key : String} {write : α → Json}
  {default value : α}

def Gives (members : List (String × Json)) (key : String) (write : α → Json)
    (default value : α) : Prop :=
  member? members key = some (write value) ∨
    (member? members key = none ∨ member? members key = some .null) ∧ value = default

structure SearchObject (members : List (String × Json)) (name : Option String) (rules : List Json)
    (exact : Bool) (operator : Operator) : Prop where
  nodeType : member? members "NodeType" = some (.string "MatchRule")
  keys : ∀ key ∈ members.map (·.1), key ∈ ["NodeType", "Name", "Rules", "Exact", "Operator"]
  name : Gives members "Name" (Option.elim · .null .string) none name
  rules : Gives members "Rules" .array [] rules
  exact : Gives members "Exact" .bool false exact
  operator : Gives members "Operator" (fun operator ↦ .string operator.name) .anyOf operator

structure LiteralObject (members : List (String × Json)) (kind : String) : Prop where
  nodeType : member? members "NodeType" = some (.string kind)
  ne : kind ≠ "MatchRule"
  keys : ∀ key ∈ members.map (·.1), key ∉ ["Rules", "Exact", "Operator"]
  attributes : ∀ value, ("Attributes", value) ∈ members → ∃ inner, value = .object inner

def membersOf : Json → List (String × Json)
  | .object members => members
  | _ => []

/-- The members of a literal that are constraints, with those under `Attributes` in its place. -/
def constraintsOf (members : List (String × Json)) : List (String × Json) :=
  members.flatMap fun (key, value) ↦
    if key = "NodeType" then []
    else if key = "Attributes" then value.membersOf
    else [(key, value)]

inductive IsConstraint (P : Json → Prop) : Json → Prop
  | scalar {value : Json} {expected : Scalar} : value.Denotes expected → IsConstraint P value
  | pattern {value : Json} : P value → IsConstraint P value
  | sequence {items : List Json} : (∀ item ∈ items, P item) → IsConstraint P (.array items)

inductive IsPattern : Json → Prop
  | search {members : List (String × Json)} {name : Option String} {rules : List Json}
      {exact : Bool} {operator : Operator} : SearchObject members name rules exact operator →
      (∀ rule ∈ rules, IsPattern rule) → IsPattern (.object members)
  | literal {members : List (String × Json)} {kind : String} : LiteralObject members kind →
      (∀ entry ∈ constraintsOf members, IsConstraint IsPattern entry.2) →
        IsPattern (.object members)

theorem gives_iff_of_none (h : member? members key = none) :
    Gives members key write default value ↔ value = default := by
  simp [Gives, h]

theorem gives_iff_of_null (h : member? members key = some .null)
    (hw : write value = .null → value = default) :
    Gives members key write default value ↔ value = default := by
  simpa [Gives, h] using fun hnull ↦ hw hnull.symm

theorem gives_iff_of_ne_null {given : Json} (h : member? members key = some given)
    (hnull : given ≠ .null) : Gives members key write default value ↔ write value = given := by
  simp [Gives, h, hnull, eq_comm]

theorem Gives.unique {other : α} (h : Gives members key write default value)
    (h' : Gives members key write default other) (hw : ∀ a b, write a = write b → a = b)
    (hnull : ∀ a, write a ≠ .null) : value = other := by
  rcases h with h | ⟨h, rfl⟩ <;> rcases h' with h' | ⟨h', rfl⟩
  · exact hw value other (by simpa [h] using h')
  · simp [h, hnull] at h'
  · simp [h', hnull] at h
  · rfl

theorem search_isPattern_iff {rules : List Json}
    (hkind : member? members "NodeType" = some (.string "MatchRule"))
    (hg : Gives members "Rules" .array [] rules) :
    (object members).IsPattern ↔ (∀ rule ∈ rules, rule.IsPattern) ∧
      ∃ name exact operator, SearchObject members name rules exact operator := by
  constructor
  · intro h
    cases h with
    | @search _ name rules' exact operator h hrules =>
      have heq : rules' = rules := h.rules.unique hg (by simp) (by simp)
      subst heq
      exact ⟨hrules, name, exact, operator, h⟩
    | literal h =>
      cases hkind.symm.trans h.nodeType
      exact absurd rfl h.ne
  · rintro ⟨hrules, name, exact, operator, h⟩
    exact .search h hrules

end Json

open Json

inductive Asks (R : Json → PatternId → Prop) : String × Json → String × Constraint → Prop
  | scalar {key : String} {value : Json} {expected : Scalar} : value.Denotes expected →
      Asks R (key, value) (key, .scalar expected)
  | pattern {key : String} {members : List (String × Json)} {id : PatternId} :
      R (.object members) id → Asks R (key, .object members) (key, .pattern id)
  | sequence {key : String} {items : List Json} {ids : List PatternId} :
      List.Forall₂ R items ids → Asks R (key, .array items) (key, .sequence ids)

/-- The rule in a slot is the one that a document describes: it is a search or a literal with what
the members of the object give, and refers to the rules described inside the object. -/
inductive Describes (get? : PatternId → Option PatternNode) : Json → PatternId → Prop
  | search {members : List (String × Json)} {name : Option String} {rules : List Json}
      {exact : Bool} {operator : Operator} {ids : List PatternId} {id : PatternId} :
      SearchObject members name rules exact operator →
      get? id = some ⟨name, .search ⟨ids, exact, operator⟩⟩ →
      List.Forall₂ (Describes get?) rules ids → Describes get? (.object members) id
  | literal {members : List (String × Json)} {kind : String}
      {attributes : List (String × Constraint)} {id : PatternId} :
      LiteralObject members kind → get? id = some ⟨none, .literal ⟨some kind, attributes⟩⟩ →
      List.Forall₂ (Asks (Describes get?)) (constraintsOf members) attributes →
      Describes get? (.object members) id

theorem Describes.isObject {get? : PatternId → Option PatternNode} {document : Json}
    {id : PatternId} (h : Describes get? document id) : ∃ members, document = .object members := by
  cases h with
  | @search members | @literal members => exact ⟨members, rfl⟩

end TreePattern

import TreePattern.Proofs.Json.Parts

namespace TreePattern.Json

/-- An object with a kind that is not that of a search, without a key that stands for something else
than an attribute. -/
structure PlainNode (members : List (String × Json)) : Prop where
  kind : ∃ kind, member? members "NodeType" = some (.string kind) ∧ kind ≠ "MatchRule"
  keys : ∀ key ∈ members.map (·.1), key ∉ ["Rules", "Exact", "Operator", "Attributes"]
  nodup : (members.map (·.1)).Nodup

def Ordinary : Json → Prop
  | .object members => PlainNode members
  | .array items => ∀ item ∈ items, ∃ members, item = .object members
  | .number (.float x) => x.isNaN = false
  | .null | .bool _ | .number _ | .string _ => True

structure Exemplary (document : Json) : Prop where
  isObject : ∃ members, document = .object members
  ordinary : ∀ part, document.Contains part → part.Ordinary

def attributesOf (members : List (String × Json)) : List (String × Json) :=
  members.filter fun entry ↦ entry.1 ≠ "NodeType"

variable {document part item value : Json} {members : List (String × Json)} {items : List Json}
  {key : String}

theorem mem_attributesOf : (key, value) ∈ attributesOf members ↔
    (key, value) ∈ members ∧ key ≠ "NodeType" := by
  simp [attributesOf]

theorem attributesOf_cons_of_ne (hk : key ≠ "NodeType") :
    attributesOf ((key, value) :: members) = (key, value) :: attributesOf members := by
  simp [attributesOf, hk]

theorem attributesOf_cons_nodeType :
    attributesOf (("NodeType", value) :: members) = attributesOf members := by
  simp [attributesOf]

theorem mem_parts_of_mem_attributesOf (h : (key, value) ∈ attributesOf members) :
    value ∈ (object members).parts :=
  mem_parts_of_mem (mem_attributesOf.mp h).1

theorem extent_lt_of_mem_attributesOf (h : (key, value) ∈ attributesOf members)
    (hp : value.Contains part) : part.extent < (object members).extent :=
  Nat.lt_of_le_of_lt (extent_le_of_contains hp)
    (extent_lt_of_mem_parts (mem_parts_of_mem_attributesOf h))

theorem not_contains_null_of_ofJson? {scalar : Scalar} (h : Scalar.ofJson? value = some scalar)
    (hn : value ≠ .null) : ¬ value.Contains .null := by
  rw [contains_iff, not_or]
  refine ⟨Ne.symm hn, ?_⟩
  cases value with
  | null | bool | number | string => simp [parts]
  | array | object => cases h

namespace Exemplary

theorem plainNode (h : (object members).Exemplary) : PlainNode members :=
  h.ordinary _ (.refl _)

theorem isNode (h : document.Exemplary) : document.isNode = true := by
  obtain ⟨members, rfl⟩ := h.isObject
  obtain ⟨kind, hkind, -⟩ := h.plainNode.kind
  rw [Json.isNode, isNodeObject, hkind]

theorem of_contains (h : document.Exemplary) (hp : document.Contains part)
    (ho : ∃ members, part = .object members) : part.Exemplary :=
  ⟨ho, fun inner hi ↦ h.ordinary inner (hp.trans hi)⟩

theorem of_mem_parts (h : document.Exemplary) (hp : .object members ∈ document.parts) :
    (object members).Exemplary :=
  h.of_contains (.of_mem_parts hp (.refl _)) ⟨members, rfl⟩

theorem of_mem_items (h : document.Exemplary) (ha : .array items ∈ document.parts)
    (hi : item ∈ items) : item.Exemplary := by
  have hc : document.Contains (.array items) := .of_mem_parts ha (.refl _)
  have hp : (array items).Contains item := .of_mem_parts hi (.refl _)
  exact h.of_contains (hc.trans hp) (h.ordinary _ hc item hi)

theorem isNaN_of_mem_parts (h : document.Exemplary) {x : Binary64}
    (hx : .number (.float x) ∈ document.parts) : x.isNaN = false :=
  h.ordinary _ (.of_mem_parts hx (.refl _))

/-- The kind of an object is not null, so a null in it is in an attribute. -/
theorem contains_null_iff (h : (object members).Exemplary) :
    (object members).Contains .null ↔ ∃ entry ∈ attributesOf members, entry.2.Contains .null := by
  rw [contains_object_iff (by simp)]
  constructor
  · rintro ⟨⟨key, value⟩, he, hnull⟩
    refine ⟨(key, value), mem_attributesOf.mpr ⟨he, ?_⟩, hnull⟩
    rintro rfl
    obtain ⟨kind, hkind, -⟩ := h.plainNode.kind
    rw [member?_of_mem h.plainNode.nodup he] at hkind
    cases hkind
    exact not_contains_null_of_ofJson? rfl (by simp) hnull
  · rintro ⟨⟨key, value⟩, he, hnull⟩
    exact ⟨(key, value), (mem_attributesOf.mp he).1, hnull⟩

end Exemplary

end TreePattern.Json

import Mathlib.Data.Finset.Card
import Mathlib.Logic.Relation
import TreePattern.Pattern.Compile

namespace TreePattern

open Relation

def Refers (get? : PatternId → Option PatternNode) (i j : PatternId) : Prop :=
  ∃ node, get? i = some node ∧ j ∈ node.references

section Height

variable {r : ℕ → ℕ → Prop} {bound i j : ℕ}

open Classical in
/-- How many numbers below a bound can be reached in one step or more. -/
noncomputable def height (r : ℕ → ℕ → Prop) (bound i : ℕ) : ℕ :=
  ((Finset.range bound).filter (TransGen r i)).card

theorem height_lt_height (h : r i j) (hj : j < bound) (hc : ¬ TransGen r j j) :
    height r bound j < height r bound i := by
  classical
  apply Finset.card_lt_card
  rw [Finset.ssubset_iff_of_subset]
  · refine ⟨j, ?_, ?_⟩
    · exact Finset.mem_filter.mpr ⟨Finset.mem_range.mpr hj, .single h⟩
    · exact fun hm ↦ hc (Finset.mem_filter.mp hm).2
  · intro k hk
    obtain ⟨hr, ht⟩ := Finset.mem_filter.mp hk
    exact Finset.mem_filter.mpr ⟨hr, .head h ht⟩

theorem height_lt_bound (hi : i < bound) (hc : ¬ TransGen r i i) : height r bound i < bound := by
  classical
  have hlt : height r bound i < (Finset.range bound).card := by
    apply Finset.card_lt_card
    rw [Finset.ssubset_iff_of_subset (Finset.filter_subset _ _)]
    exact ⟨i, Finset.mem_range.mpr hi, fun hm ↦ hc (Finset.mem_filter.mp hm).2⟩
  simpa only [Finset.card_range] using hlt

end Height

theorem Constraint.references_map (f : PatternId → PatternId) (c : Constraint) :
    (c.map f).references = c.references.map f := by cases c <;> rfl

theorem Rule.references_map (f : PatternId → PatternId) (rule : Rule) :
    (rule.map f).references = rule.references.map f := by
  cases rule with
  | literal rule =>
    simp only [Rule.map, Rule.references, List.flatMap_map, List.map_flatMap,
      Constraint.references_map]
  | search rule => rfl

theorem PatternNode.references_map (f : PatternId → PatternId) (node : PatternNode) :
    (node.map f).references = node.references.map f :=
  Rule.references_map f node.rule

def Rule.constrained : Rule → List String
  | .literal rule => rule.attributes.map (·.1)
  | .search _ => []

def Pattern.constrained (p : Pattern) : List String :=
  p.nodes.toList.flatMap fun origin ↦ origin.rule.constrained

theorem Pattern.mem_constrained {p : Pattern} {id : PatternId} {origin : PatternNode}
    {name : String} (h : p.get? id = some origin) (hn : name ∈ origin.rule.constrained) :
    name ∈ p.constrained := by
  have hmem : origin ∈ p.nodes.toList := Array.mem_toList_iff.mpr (Array.mem_of_getElem? h)
  exact List.mem_flatMap.mpr ⟨origin, hmem, hn⟩

end TreePattern

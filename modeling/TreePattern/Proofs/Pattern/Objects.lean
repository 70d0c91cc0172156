import TreePattern.Proofs.Pattern.Depiction
import TreePattern.Proofs.Pattern.Fault

namespace TreePattern

namespace Json

def constrainingObjects : Json → List Json
  | .object members => [.object members]
  | .array items => items
  | .null | .bool _ | .number _ | .string _ => []

def innerObjects : Json → List Json
  | .object members =>
    match member? members "NodeType" with
    | some (.string "MatchRule") =>
      match member? members "Rules" with
      | some (.array rules) => rules
      | _ => []
    | _ => (constraintsOf members).flatMap fun entry ↦ entry.2.constrainingObjects
  | .null | .bool _ | .number _ | .string _ | .array _ => []

def LacksRules (document : Json) : Prop :=
  ∃ members, document = .object members ∧
    member? members "NodeType" = some (.string "MatchRule") ∧
    (member? members "Rules" = none ∨ member? members "Rules" = some .null ∨
      member? members "Rules" = some (.array []))

variable {document part value : Json} {members : List (String × Json)} {key kind : String}
  {rules : List Json}

theorem extent_le_of_mem_constrainingObjects (h : part ∈ value.constrainingObjects) :
    part.extent ≤ value.extent := by
  cases value with
  | object members =>
    rw [constrainingObjects, List.mem_singleton] at h
    exact h ▸ Nat.le_refl _
  | array items =>
    have hmem : part ∈ (array items).parts := h
    exact Nat.le_of_lt (extent_lt_of_mem_parts hmem)
  | null | bool | number | string => cases h

theorem extent_lt_of_mem_constraintsOf (h : (key, value) ∈ constraintsOf members) :
    value.extent < (object members).extent := by
  obtain ⟨⟨name, given⟩, hm, hv⟩ := List.mem_flatMap.mp h
  have hgiven := extent_lt_of_mem_parts (mem_parts_of_mem hm)
  dsimp only at hv
  split at hv
  · cases hv
  · split at hv
    · cases given with
      | object inner => exact (extent_lt_of_mem_parts (mem_parts_of_mem hv)).trans hgiven
      | null | bool | number | string | array => cases hv
    · obtain ⟨rfl, rfl⟩ := Prod.mk.inj (List.mem_singleton.mp hv)
      exact hgiven

theorem innerObjects_of_search (hkind : member? members "NodeType" = some (.string "MatchRule"))
    (hrules : Gives members "Rules" .array [] rules) : (object members).innerObjects = rules := by
  simp only [innerObjects, hkind]
  rcases hrules with hgiven | ⟨hnone | hnull, rfl⟩
  · simp [hgiven]
  · simp [hnone]
  · simp [hnull]

theorem innerObjects_of_literal (hkind : ∀ name, member? members "NodeType" = some (.string name) →
      name ≠ "MatchRule") : (object members).innerObjects =
    (constraintsOf members).flatMap fun entry ↦ entry.2.constrainingObjects := by
  rw [innerObjects]
  split
  · next h => exact absurd rfl (hkind _ h)
  · rfl

theorem extent_lt_of_mem_innerObjects (h : part ∈ document.innerObjects) :
    part.extent < document.extent := by
  cases document with
  | object members =>
    by_cases hkind : member? members "NodeType" = some (.string "MatchRule")
    · simp only [innerObjects, hkind] at h
      split at h
      · next rules hrules =>
        have hlist := extent_lt_of_mem_parts (mem_parts_of_mem (mem_of_member? hrules))
        have hmem : part ∈ (array rules).parts := h
        exact (extent_lt_of_mem_parts hmem).trans hlist
      · cases h
    · rw [innerObjects_of_literal fun name hname heq ↦ hkind (heq ▸ hname)] at h
      obtain ⟨entry, he, hp⟩ := List.mem_flatMap.mp h
      exact (extent_le_of_mem_constrainingObjects hp).trans_lt (extent_lt_of_mem_constraintsOf he)
  | null | bool | number | string | array => cases h

/-- A document that is a pattern with all patterns inside it, in pre-order. -/
def patternObjects (document : Json) : List Json :=
  document :: document.innerObjects.attach.flatMap fun part ↦ patternObjects part.1
termination_by document.extent
decreasing_by exact extent_lt_of_mem_innerObjects part.2

theorem patternObjects_eq (document : Json) :
    document.patternObjects = document :: document.innerObjects.flatMap patternObjects := by
  rw [patternObjects, List.flatMap_subtype, List.unattach_attach]
  intro part hp
  rfl

end Json

open Json

variable {get? get?' : PatternId → Option PatternNode} {R : Json → PatternId → Prop}
  {document : Json} {id : PatternId}

theorem Asks.objects {entry : String × Json} {asked : String × Constraint}
    (h : Asks R entry asked) :
    List.Forall₂ R entry.2.constrainingObjects asked.2.references := by
  cases h with
  | @scalar _ value _ hs =>
    cases value with
    | object | array => cases Scalar.denotes_iff.mp hs
    | null | bool | number | string => exact .nil
  | pattern hr => exact .cons hr .nil
  | sequence hr => exact hr

/-- The patterns directly inside a pattern describe the rules that its rule refers to. -/
theorem Describes.inner (h : Describes get? document id) :
    ∃ node, get? id = some node ∧
      List.Forall₂ (Describes get?) document.innerObjects node.references := by
  cases h with
  | search h hget hrules =>
    refine ⟨_, hget, ?_⟩
    rw [innerObjects_of_search h.nodeType h.rules]
    exact hrules
  | @literal members kind attributes _ h hget hasks =>
    refine ⟨_, hget, ?_⟩
    have hkind : ∀ name, member? members "NodeType" = some (.string name) → name ≠ "MatchRule" := by
      intro name hname
      rw [h.nodeType, Option.some.injEq, string.injEq] at hname
      exact hname ▸ h.ne
    rw [innerObjects_of_literal hkind]
    exact List.rel_flatMap hasks fun _ _ ha ↦ ha.objects

/-- A walk meets the rules of all patterns inside the patterns that it starts from. -/
theorem RawPattern.Walks.describes {raw : RawPattern} {documents : List Json}
    {ids trace : List PatternId} (h : raw.Walks ids trace)
    (hd : List.Forall₂ (Describes raw.get?) documents ids) :
    List.Forall₂ (Describes raw.get?) (documents.flatMap patternObjects) trace := by
  induction h generalizing documents with
  | nil =>
    cases hd
    exact .nil
  | @cons id rest below others node hg _ _ ihb iho =>
    cases hd with
    | @cons document _ documents _ hdescribes hrest =>
      obtain ⟨node', hg', hinner⟩ := hdescribes.inner
      rw [hg] at hg'
      cases hg'
      rw [List.flatMap_cons, patternObjects_eq, List.cons_append]
      exact .cons hdescribes (List.rel_append (ihb hinner) (iho hrest))

/-- A search is described without sub-rules just if its rule has none. -/
theorem Describes.lacksRules_iff {raw : RawPattern} (h : Describes raw.get? document id) :
    document.LacksRules ↔ raw.Suffers id .emptyRuleSet := by
  cases h with
  | @search members name rules exact operator ids _ h hget hrules =>
    have hlacks : (object members).LacksRules ↔ rules = [] := by
      constructor
      · intro hlacks
        obtain ⟨members', heq, -, hnone⟩ := hlacks
        cases heq
        rcases h.rules with hgiven | ⟨-, heq⟩
        · simpa [hgiven] using hnone
        · exact heq
      · intro heq
        subst heq
        refine ⟨members, rfl, h.nodeType, ?_⟩
        rcases h.rules with hgiven | ⟨hnone | hnull, -⟩
        · exact .inr (.inr hgiven)
        · exact .inl hnone
        · exact .inr (.inl hnull)
    have hids : rules = [] ↔ ids = [] := by
      rw [← List.length_eq_zero_iff, hrules.length_eq, List.length_eq_zero_iff]
    rw [hlacks, hids]
    constructor
    · intro heq
      exact ⟨_, _, hget, rfl, heq⟩
    · intro ⟨node, rule, hg, hr, hempty⟩
      rw [hget] at hg
      cases hg
      cases hr
      exact hempty
  | literal h hget =>
    apply iff_of_false
    · intro hlacks
      obtain ⟨members', heq, hkind, -⟩ := hlacks
      cases heq
      rw [h.nodeType, Option.some.injEq, string.injEq] at hkind
      exact h.ne hkind
    · intro hsuffers
      obtain ⟨node, rule, hg, hr, -⟩ := hsuffers
      rw [hget] at hg
      cases hg
      cases hr

/-- What a document describes depends only on what the pattern unfolds to. -/
theorem Describes.of_bisimilar {j : PatternId} (h : Describes get? document id)
    (hij : Bisimilar get? get?' id j) : Describes get?' document j := by
  induction document using extent_induction generalizing id j with
  | _ document ih =>
    obtain ⟨origin, ⟨name', rule'⟩, ho, ho', hname, hrule⟩ := hij.sameSlots
    cases h with
    | @search members name rules exact operator ids _ h hget hrules =>
      rw [hget] at ho
      cases ho
      cases (show name = name' from hname)
      cases rule' with
      | literal => exact hrule.elim
      | search rule' =>
        obtain ⟨ids', exact', operator'⟩ := rule'
        obtain ⟨hids, hexact, hoperator⟩ := hrule
        cases (show exact = exact' from hexact)
        cases (show operator = operator' from hoperator)
        refine .search h ho' (forall₂_comp_of_mem ?_ hrules hids)
        intro rule hr i j hd hb
        refine ih rule ?_ hd hb
        rw [← innerObjects_of_search h.nodeType h.rules] at hr
        exact extent_lt_of_mem_innerObjects hr
    | @literal members kind attributes _ h hget hasks =>
      rw [hget] at ho
      cases ho
      cases (show none = name' from hname)
      cases rule' with
      | search => exact hrule.elim
      | literal rule' =>
        obtain ⟨kind', attributes'⟩ := rule'
        obtain ⟨hkind, hattributes⟩ := hrule
        cases (show some kind = kind' from hkind)
        refine .literal h ho' (forall₂_comp_of_mem ?_ hasks hattributes)
        intro ⟨key, value⟩ he ⟨name, constraint⟩ ⟨name', constraint'⟩ ha hc
        cases (show name = name' from hc.1)
        have hpart : ∀ part i j, value.Contains part → Describes get? part i →
            Bisimilar get? get?' i j → Describes get?' part j := by
          intro part i j hp hd hb
          refine ih part ?_ hd hb
          exact (extent_le_of_contains hp).trans_lt (extent_lt_of_mem_constraintsOf he)
        exact ha.trans hpart hc.2.2

end TreePattern

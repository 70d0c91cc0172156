import TreePattern.Proofs.Pattern.Renaming

namespace TreePattern

open Relation

structure LiteralRule.Weakens (weak rule : LiteralRule) : Prop where
  kind : weak.kind = none ∨ weak.kind = rule.kind
  attributes : weak.attributes.Sublist rule.attributes

inductive Rule.Weakens : Rule → Rule → Prop
  | literal {weak rule : LiteralRule} : weak.Weakens rule → Weakens (.literal weak) (.literal rule)
  | search (rule : SearchRule) : Weakens (.search rule) (.search rule)

structure PatternNode.Weakens (weak origin : PatternNode) : Prop where
  name : weak.name = origin.name
  rule : weak.rule.Weakens origin.rule

theorem Rule.Weakens.references_subset {weak rule : Rule} (h : weak.Weakens rule) :
    weak.references ⊆ rule.references := by
  cases h with
  | literal h =>
    intro q hq
    obtain ⟨entry, he, hq⟩ := List.mem_flatMap.mp hq
    exact List.mem_flatMap.mpr ⟨entry, h.attributes.subset he, hq⟩
  | search rule => exact List.Subset.refl _

namespace Pattern

def Weakens (weak p : Pattern) : Prop :=
  ∀ id, Option.Rel PatternNode.Weakens (weak.get? id) (p.get? id)

/-- Every search looks for nodes at which some of its sub-rules hold, or all of them. -/
def Positive (p : Pattern) : Prop :=
  ∀ id origin rule, p.get? id = some origin → origin.rule = .search rule →
    rule.operator = .anyOf ∨ rule.operator = .allOf

variable {weak p : Pattern} {id q : PatternId} {origin : PatternNode}

theorem Weakens.of_get? (h : weak.Weakens p) (hw : weak.get? id = some origin) :
    ∃ origin', p.get? id = some origin' ∧ origin.Weakens origin' := by
  have hrel := h id
  rw [hw] at hrel
  cases hp : p.get? id with
  | none =>
    rw [hp] at hrel
    cases hrel
  | some origin' =>
    rw [hp] at hrel
    cases hrel with
    | some hrel => exact ⟨origin', rfl, hrel⟩

theorem lt_size_iff : id < p.size ↔ (p.get? id).isSome := by
  simp [get?, size]

theorem Weakens.size_eq (h : weak.Weakens p) : weak.size = p.size := by
  have hlt : ∀ id, id < weak.size ↔ id < p.size := by
    intro id
    rw [lt_size_iff, lt_size_iff]
    have hrel := h id
    generalize weak.get? id = o at hrel ⊢
    generalize p.get? id = o' at hrel ⊢
    cases hrel <;> rfl
  exact le_antisymm (Nat.le_of_not_lt fun hp ↦ lt_irrefl _ ((hlt _).mp hp))
    (Nat.le_of_not_lt fun hw ↦ lt_irrefl _ ((hlt _).mpr hw))

theorem Weakens.refers (h : weak.Weakens p) (hr : weak.Refers id q) : p.Refers id q := by
  obtain ⟨origin, ho, hq⟩ := hr
  obtain ⟨origin', ho', hw⟩ := h.of_get? ho
  exact ⟨origin', ho', hw.rule.references_subset hq⟩

theorem Weakens.sound (h : weak.Weakens p) (hp : p.Sound) : weak.Sound where
  nonempty := h.size_eq ▸ hp.nonempty
  valid id q hr := h.size_eq ▸ hp.valid id q (h.refers hr)
  searches := by
    intro id origin rule ho hr
    obtain ⟨origin', ho', hw⟩ := h.of_get? ho
    have hrule := hw.rule
    rw [hr] at hrule
    cases hs : origin'.rule with
    | literal other =>
      rw [hs] at hrule
      cases hrule
    | search other =>
      rw [hs] at hrule
      cases hrule
      exact hp.searches id origin' rule ho' hs
  acyclic i hc := hp.acyclic i (hc.lift id fun _ _ ↦ h.refers)

/-- A sound pattern can be compiled once more. -/
theorem Sound.exists_compile (hp : p.Sound) : ∃ q, p.toRaw.compile = .ok q := by
  have hget : p.toRaw.get? = p.get? := funext p.get?_toRaw
  have hrefers : p.toRaw.Refers = p.Refers := congrArg TreePattern.Refers hget
  have hlt : ∀ id, p.toRaw.Reachable id → id < p.size := by
    intro id hr
    induction hr with
    | refl => exact hp.nonempty
    | tail _ hq _ => exact hp.valid _ _ (hrefers ▸ hq)
  refine RawPattern.compile_eq_ok_iff.mpr ⟨?_, ?_, ?_⟩
  · intro id hr
    rw [hget]
    exact get?_of_lt (hlt id hr)
  · intro id origin rule _ ho
    rw [hget] at ho
    exact hp.searches id origin rule ho
  · intro id _ hc
    exact hp.acyclic id (hrefers ▸ hc)

end Pattern

end TreePattern

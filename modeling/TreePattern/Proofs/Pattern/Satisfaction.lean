import TreePattern.Proofs.Pattern.Numbering
import TreePattern.Proofs.Tree.Attribute
import TreePattern.Proofs.Tree.Preorder

namespace TreePattern

/-- How many of the positions of a list of sub-rules have to hold. -/
def Operator.Accepts {k : ℕ} (op : Operator) (P : Fin k → Prop) : Prop :=
  match op with
  | .anyOf => ∃ i, P i
  | .allOf => ∀ i, P i
  | .oneOf => ∃! i, P i
  | .not => ∀ i, ¬ P i

variable (sat sat' : PatternId → Node → Prop)

def Constraint.Holds (v : Value) : Constraint → Prop
  | .scalar expected => ∃ actual, v = .scalar actual ∧ actual.eqv expected = true
  | .pattern id => ∃ n ∈ v.nodeList, sat id n
  | .sequence ids => ∃ ns, v = .nodes ns ∧ List.Forall₂ sat ids ns

/-- A node has the kind that a literal asks for, if it asks for one, and all attributes that it
constrains, with values of which the constraints hold. -/
def LiteralRule.Holds (rule : LiteralRule) (n : Node) : Prop :=
  (∀ kind, rule.kind = some kind → n.kind = .ok kind) ∧
    ∀ entry ∈ rule.attributes, ∃ v, n.Has entry.1 v ∧ entry.2.Holds sat v

def SearchRule.HoldsAt (rule : SearchRule) (n : Node) : Prop :=
  rule.operator.Accepts fun i : Fin rule.rules.length ↦ sat rule.rules[i] n

/-- A node has the right sub-rules at itself or, if the search is not exact, at some node below. -/
def SearchRule.Holds (rule : SearchRule) (n : Node) : Prop :=
  ∃ x, (if rule.exact then x = n else n.Contains x) ∧ rule.HoldsAt sat x

def Rule.Holds (n : Node) : Rule → Prop
  | .literal rule => rule.Holds sat n
  | .search rule => rule.Holds sat n

variable {sat sat'}

theorem Constraint.Holds.imp {v : Value} {constraint : Constraint}
    (h : ∀ q ∈ constraint.references, ∀ m, sat q m → sat' q m) (hc : constraint.Holds sat v) :
    constraint.Holds sat' v := by
  cases constraint with
  | scalar expected => exact hc
  | pattern id =>
    obtain ⟨n, hn, hs⟩ := hc
    exact ⟨n, hn, h id (by simp [references]) n hs⟩
  | sequence ids =>
    obtain ⟨ns, rfl, hs⟩ := hc
    refine ⟨ns, rfl, ?_⟩
    rw [List.forall₂_iff_get] at hs ⊢
    exact ⟨hs.1, fun i hi hn ↦ h _ (List.get_mem ids ⟨i, hi⟩) _ (hs.2 i hi hn)⟩

theorem Rule.holds_congr {rule : Rule} {n : Node}
    (h : ∀ q ∈ rule.references, ∀ m, sat q m ↔ sat' q m) :
    rule.Holds sat n ↔ rule.Holds sat' n := by
  cases rule with
  | literal rule =>
    have hq : ∀ entry ∈ rule.attributes, ∀ q ∈ entry.2.references, ∀ m, sat q m ↔ sat' q m :=
      fun entry he q hq ↦ h q (List.mem_flatMap.mpr ⟨entry, he, hq⟩)
    refine and_congr_right fun _ ↦ forall₂_congr fun entry he ↦ exists_congr fun v ↦
      and_congr_right fun _ ↦ ⟨.imp fun q hm m ↦ (hq entry he q hm m).mp, ?_⟩
    exact .imp fun q hm m ↦ (hq entry he q hm m).mpr
  | search rule =>
    refine exists_congr fun x ↦ and_congr_right fun _ ↦ ?_
    have hsame : (fun i : Fin rule.rules.length ↦ sat rule.rules[i] x) =
        fun i : Fin rule.rules.length ↦ sat' rule.rules[i] x :=
      funext fun i ↦ propext (h _ (List.getElem_mem _) x)
    rw [SearchRule.HoldsAt, SearchRule.HoldsAt, hsame]

namespace Pattern

/-- A node satisfies a rule of a sound pattern. -/
def Satisfies (p : Pattern) (hp : p.Sound) (id : PatternId) (n : Node) : Prop :=
  ∃ origin, p.get? id = some origin ∧
    origin.rule.Holds (fun q m ↦ ∃ _ : p.Refers id q, Satisfies p hp q m) n
termination_by height p.Refers p.size id
decreasing_by
  rename_i h
  exact height_lt_height h (hp.valid _ _ h) (hp.acyclic _)

variable {p : Pattern} {hp : p.Sound} {id : PatternId} {origin : PatternNode} {n : Node}

/-- A node satisfies a rule if the rule holds of it, given which nodes satisfy the other rules. -/
theorem satisfies_iff (h : p.get? id = some origin) :
    p.Satisfies hp id n ↔ origin.rule.Holds (p.Satisfies hp) n := by
  have hholds : origin.rule.Holds (fun q m ↦ ∃ _ : p.Refers id q, p.Satisfies hp q m) n ↔
      origin.rule.Holds (p.Satisfies hp) n :=
    Rule.holds_congr fun q hq m ↦ ⟨fun ⟨_, hs⟩ ↦ hs, fun hs ↦ ⟨⟨origin, h, hq⟩, hs⟩⟩
  rw [Satisfies, ← hholds]
  constructor
  · rintro ⟨origin', ho, hs⟩
    rw [h] at ho
    cases ho
    exact hs
  · exact fun hs ↦ ⟨origin, h, hs⟩

end Pattern

end TreePattern

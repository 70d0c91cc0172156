import TreePattern.Pattern.Arena

namespace TreePattern

inductive CompileFault where
  | cycle
  | emptyRuleSet
  | dangling
deriving DecidableEq

def CompileFault.message : CompileFault → String
  | .cycle => "cycle detected"
  | .emptyRuleSet => "search rule has an empty rule set"
  | .dangling => "reference to an undefined pattern node"

structure CompileError where
  fault : CompileFault
  slot : PatternId
deriving DecidableEq

def CompileError.message (e : CompileError) : String :=
  "invalid pattern: " ++ e.fault.message ++ " at node " ++ e.slot.render

structure Pattern where
  nodes : Array PatternNode
deriving DecidableEq

namespace Pattern

def root : PatternId := 0

def get? (p : Pattern) (id : PatternId) : Option PatternNode :=
  p.nodes[id]?

def size (p : Pattern) : Nat :=
  p.nodes.size

def eqv (a b : Pattern) : Bool :=
  a.size == b.size && (a.nodes.zip b.nodes).all fun (x, y) ↦ x.eqv y

end Pattern

namespace RawPattern

def enter (raw : RawPattern) (id : PatternId) : Except CompileError (List PatternId) :=
  match raw.get? id with
  | none => .error ⟨.dangling, id⟩
  | some node =>
    match node.rule with
    | .search ⟨[], _, _⟩ => .error ⟨.emptyRuleSet, id⟩
    | _ => .ok node.references

/-- A slot that the walk is inside of, with the references that it has not followed yet. -/
structure Visit where
  id : PatternId
  rest : List PatternId

def unmet (raw : RawPattern) (met : List PatternId) : Nat :=
  (List.range raw.size).countP fun id ↦ !met.contains id

theorem countP_unmet_cons (id : PatternId) (met ids : List PatternId) :
    ids.countP (fun i ↦ !(id :: met).contains i) ≤ ids.countP (fun i ↦ !met.contains i) := by
  apply List.countP_mono_left
  intro i _ h
  simp only [List.contains_cons, Bool.not_or, Bool.and_eq_true] at h
  exact h.2

theorem countP_unmet_cons_lt {id : PatternId} {met ids : List PatternId} (mem : id ∈ ids)
    (new : id ∉ met) :
    ids.countP (fun i ↦ !(id :: met).contains i) < ids.countP (fun i ↦ !met.contains i) := by
  induction ids with
  | nil => simp at mem
  | cons i rest ih =>
    by_cases h : i = id
    · subst h
      have le := countP_unmet_cons i met rest
      rw [List.countP_cons, List.countP_cons, if_neg (by simp), if_pos (by simpa using new)]
      omega
    · have lt := ih (by simpa [Ne.symm h] using mem)
      have same : (!(id :: met).contains i) = !met.contains i := by simp [h]
      rw [List.countP_cons, List.countP_cons, same]
      omega

theorem unmet_cons_lt {raw : RawPattern} {id : PatternId} {met : List PatternId}
    (bound : id < raw.size) (new : id ∉ met) : raw.unmet (id :: met) < raw.unmet met :=
  countP_unmet_cons_lt (List.mem_range.mpr bound) new

def pending : List Visit → Nat
  | [] => 0
  | visit :: path => visit.rest.length + 1 + pending path

/-- Walks on from the innermost visit. The slots met so far are listed last to first; those that are
not on the path are finished. -/
def discover (raw : RawPattern) (met : List PatternId) : List Visit →
    Except CompileError (List PatternId)
  | [] => .ok met.reverse
  | ⟨_, []⟩ :: path => discover raw met path
  | ⟨id, child :: rest⟩ :: path =>
    if (⟨id, child :: rest⟩ :: path).any (·.id == child) then .error ⟨.cycle, child⟩
    else if old : child ∈ met then discover raw met (⟨id, rest⟩ :: path)
    else if bound : child < raw.size then
      match raw.enter child with
      | .error e => .error e
      | .ok references =>
        have := unmet_cons_lt bound old
        discover raw (child :: met) (⟨child, references⟩ :: ⟨id, rest⟩ :: path)
    else .error ⟨.dangling, child⟩
termination_by path => (raw.unmet met, pending path)
decreasing_by
  all_goals first
    | exact Prod.Lex.right _ (by simp only [pending, List.length_cons, List.length_nil]; omega)
    | exact Prod.Lex.left _ _ this

def discoveryOrder (raw : RawPattern) : Except CompileError (List PatternId) := do
  let references ← raw.enter raw.root
  discover raw [raw.root] [⟨raw.root, references⟩]

/-- Checks a pattern and renumbers its nodes. -/
def compile (raw : RawPattern) : Except CompileError Pattern := do
  let order ← raw.discoveryOrder
  let place (id : PatternId) : PatternId := order.idxOf id
  return ⟨(order.filterMap fun id ↦ (raw.get? id).map (PatternNode.map place)).toArray⟩

end RawPattern

end TreePattern

import Mathlib.Data.List.Flatten
import TreePattern.Proofs.Match.Collection

namespace TreePattern

open Relation MatchM

structure Inquiry where
  node : Node
  found : List (List Find)

namespace Inquiry

def satisfied (v : Inquiry) : ℕ :=
  v.found.countP fun finds ↦ !finds.isEmpty

def hits (v : Inquiry) (name : Option String) : List Find :=
  v.found.flatten.map (Find.inherit name)

/-- What a visit contributes to a search with the given operator, if the root of the pattern is that
search. -/
def contribution (v : Inquiry) (name : Option String) (rules : List PatternId) (exact : Bool) :
    Operator → List Find
  | .anyOf => v.hits name
  | .allOf => if v.satisfied = v.found.length then v.hits name else []
  | .oneOf => if v.satisfied = 1 then v.hits name else []
  | .not =>
    if v.satisfied = 0 then
      [⟨v.node, Pattern.root, ⟨name, .search ⟨rules, exact, .not⟩⟩, name, .empty⟩]
    else []

variable {v : Inquiry} {name : Option String} {rules : List PatternId} {exact : Bool}
  {operator : Operator}

theorem hits_eq_nil_iff : v.hits name = [] ↔ v.satisfied = 0 := by
  simp [hits, satisfied, List.countP_eq_zero]

theorem contribution_sublist (h : operator ≠ .not) :
    (v.contribution name rules exact operator).Sublist
      (v.contribution name rules exact .anyOf) := by
  cases operator with
  | anyOf => exact .refl _
  | allOf | oneOf =>
    simp only [contribution]
    split
    · exact .refl _
    · exact List.nil_sublist _
  | not => exact absurd rfl h

theorem contribution_of_length_eq_one (h : v.found.length = 1) (hop : operator ≠ .not) :
    v.contribution name rules exact operator = v.contribution name rules exact .anyOf := by
  have hle : v.satisfied ≤ 1 := h ▸ List.countP_le_length
  cases operator with
  | anyOf => rfl
  | allOf | oneOf =>
    simp only [contribution]
    split
    · rfl
    · exact (hits_eq_nil_iff.mpr (by omega)).symm
  | not => exact absurd rfl hop

theorem contribution_exclusive (h : 2 ≤ v.found.length) :
    v.contribution name rules exact .allOf = [] ∨ v.contribution name rules exact .oneOf = [] := by
  by_cases hall : v.satisfied = v.found.length
  · exact .inr (if_neg (by omega))
  · exact .inl (if_neg hall)

theorem contribution_anyOf_eq_nil_iff :
    v.contribution name rules exact .anyOf = [] ↔ v.contribution name rules exact .not ≠ [] := by
  simp only [contribution, hits_eq_nil_iff]
  split <;> simp_all

end Inquiry

namespace MatchM

variable {α β : Type} {x : Operator → MatchM α} {f : Operator → α → MatchM β}
  {P : (Operator → α) → Prop} {Q : (Operator → β) → Prop}

/-- Parts of several matches that have made the same number of visits. They all fail with one
error, or they all succeed with results that have `P` together, and go on with the same number of
visits. -/
def InStep (x : Operator → MatchM α) (P : (Operator → α) → Prop) : Prop :=
  ∀ (before : Operator → Tally) visited, (∀ op, (before op).visited = visited) →
    ∃ visited', (∀ op, (x op (before op)).2.visited = visited') ∧
      ((∃ e, ∀ op, (x op (before op)).1 = .error e) ∨
        ∃ results, P results ∧ ∀ op, (x op (before op)).1 = .ok (results op))

theorem InStep.mono {Q : (Operator → α) → Prop} (h : InStep x P)
    (hq : ∀ results, P results → Q results) : InStep x Q := by
  intro before visited hbefore
  obtain ⟨visited', hafter, herror | ⟨results, hp, hok⟩⟩ := h before visited hbefore
  · exact ⟨visited', hafter, .inl herror⟩
  · exact ⟨visited', hafter, .inr ⟨results, hq results hp, hok⟩⟩

theorem InStep.bind (h : InStep x P)
    (hf : ∀ results, P results → InStep (fun op ↦ f op (results op)) Q) :
    InStep (fun op ↦ x op >>= f op) Q := by
  intro before visited hbefore
  obtain ⟨visited', hafter, ⟨e, herror⟩ | ⟨results, hp, hok⟩⟩ := h before visited hbefore
  · have hstop : ∀ op, (x op >>= f op) (before op) = (.error e, (x op (before op)).2) :=
      fun op ↦ bind_apply_of_error (Prod.ext (herror op) rfl)
    simp only [hstop]
    exact ⟨visited', hafter, .inl ⟨e, fun _ ↦ rfl⟩⟩
  · have hgo : ∀ op, (x op >>= f op) (before op) = f op (results op) (x op (before op)).2 :=
      fun op ↦ bind_apply_of_ok (Prod.ext (hok op) rfl)
    simp only [hgo]
    exact hf results hp (fun op ↦ (x op (before op)).2) visited' hafter

theorem InStep.still {results : Operator → α} (hp : P results)
    (h : ∀ op tally, (x op tally).1 = .ok (results op) ∧ (x op tally).2.visited = tally.visited) :
    InStep x P := by
  intro before visited hbefore
  refine ⟨visited, fun op ↦ ?_, .inr ⟨results, hp, fun op ↦ (h op _).1⟩⟩
  rw [(h op _).2, hbefore op]

theorem InStep.of_lockstep {R : Operator → α → Prop}
    (h : ∀ op, Lockstep Tally.SameVisits Eq (x .anyOf) (x op))
    (hr : ∀ op, Ends (x op) (R op) fun _ ↦ True) :
    InStep x fun results ↦ ∃ a, (∀ op, R op a) ∧ results = fun _ ↦ a := by
  intro before visited hbefore
  -- Each part is compared with the one of `anyOf`, so that they all end as that one does.
  have hsame : ∀ op, (x op (before op)).1 = (x .anyOf (before .anyOf)).1 ∧
      (x op (before op)).2.visited = (x .anyOf (before .anyOf)).2.visited := by
    intro op
    have hvisits : Tally.SameVisits (before .anyOf) (before op) :=
      (hbefore _).trans (hbefore _).symm
    obtain ⟨hend, htally⟩ := h op _ _ hvisits
    exact ⟨hend.eq.symm, htally.symm⟩
  refine ⟨_, fun op ↦ (hsame op).2, ?_⟩
  rcases hx : x .anyOf (before .anyOf) with ⟨e | a, tally⟩
  · exact .inl ⟨e, fun op ↦ (hsame op).1.trans (congrArg Prod.fst hx)⟩
  · have hok : ∀ op, (x op (before op)).1 = .ok a :=
      fun op ↦ (hsame op).1.trans (congrArg Prod.fst hx)
    exact .inr ⟨fun _ ↦ a, ⟨a, fun op ↦ (hr op).of_ok (Prod.ext (hok op) rfl), rfl⟩, hok⟩

end MatchM

/-- Searches that visit these nodes and find these things: at each node there is one list of finds
of the sub-rules, with `P`, from which each operator makes its contribution. -/
def Contributes (P : Inquiry → Prop) (share : Operator → Inquiry → List Find) (nodes : List Node)
    (finds : Operator → List Find) : Prop :=
  ∃ visits : List Inquiry, visits.map Inquiry.node = nodes ∧ (∀ v ∈ visits, P v) ∧
    ∀ op, finds op = visits.flatMap (share op)

namespace Contributes

variable {P : Inquiry → Prop} {share : Operator → Inquiry → List Find} {nodes others : List Node}
  {finds finds' : Operator → List Find}

theorem nil : Contributes P share [] fun _ ↦ [] :=
  ⟨[], rfl, by simp, fun _ ↦ rfl⟩

theorem single {v : Inquiry} (h : P v) : Contributes P share [v.node] fun op ↦ share op v :=
  ⟨[v], rfl, by simpa using h, by simp⟩

theorem append (h : Contributes P share nodes finds)
    (h' : Contributes P share others finds') :
    Contributes P share (nodes ++ others) fun op ↦ finds op ++ finds' op := by
  obtain ⟨visits, rfl, hp, hfinds⟩ := h
  obtain ⟨visits', rfl, hp', hfinds'⟩ := h'
  refine ⟨visits ++ visits', by simp, ?_, fun op ↦ ?_⟩
  · exact List.forall_mem_append.mpr ⟨hp, hp'⟩
  · simp only [hfinds, hfinds', List.flatMap_append]

end Contributes

namespace Setting

variable {P : Inquiry → Prop} {share : Operator → Inquiry → List Find}

section Walks

variable {s : Operator → Setting} {attempt : Operator → Node → MatchM (List Find)}

theorem access_inStep {α : Type} (result : Except AccessError α) :
    InStep (fun _ ↦ access result) fun results ↦ ∃ a, result = .ok a ∧ results = fun _ ↦ a := by
  have hends : Ends (access result) (fun a ↦ result = .ok a) fun _ ↦ True :=
    access_ends (fun _ h ↦ h) fun _ _ ↦ trivial
  have hsame : Lockstep Tally.SameVisits Eq (access result) (access result) :=
    Comparison.access_same (c := .lockstep Tally.SameVisits) fun _ _ ↦ rfl
  refine (InStep.of_lockstep (fun _ ↦ hsame) fun _ ↦ hends).mono fun results h ↦ ?_
  obtain ⟨a, ha, rfl⟩ := h
  exact ⟨a, ha .anyOf, rfl⟩

theorem each_inStep
    (ha : ∀ n, InStep (fun op ↦ attempt op n) (Contributes P share [n])) (ns : List Node) :
    InStep (fun op ↦ each (attempt op) ns) (Contributes P share ns) := by
  induction ns with
  | nil => exact .still .nil fun _ _ ↦ ⟨rfl, rfl⟩
  | cons n rest ih =>
    refine (ha n).bind fun hits hhits ↦ ih.bind fun others ho ↦ ?_
    exact .still (hhits.append ho) fun _ _ ↦ ⟨rfl, rfl⟩

theorem descend_inStep (hv : ∀ op, (s op).view = (s .anyOf).view)
    (ha : ∀ n, InStep (fun op ↦ attempt op n) (Contributes P share [n])) (ns : List Node) :
    InStep (fun op ↦ (s op).descend (attempt op) ns)
      (Contributes P share (ns.flatMap Node.preorder)) := by
  induction ns using Node.forest_induction with
  | nil =>
    simp only [descend_nil]
    exact .still .nil fun _ _ ↦ ⟨rfl, rfl⟩
  | cons n rest ihc ihr =>
    simp only [descend_cons, hv]
    refine (ha n).bind fun hits hhits ↦ (access_inStep _).bind fun children hc ↦ ?_
    obtain ⟨children, hc, rfl⟩ := hc
    rw [View.children_eq hc]
    refine ihc.bind fun below hb ↦ ihr.bind fun others ho ↦ ?_
    rw [List.flatMap_cons, Node.preorder_eq, List.cons_append, ← List.singleton_append]
    exact .still (hhits.append (hb.append ho)) fun _ _ ↦ ⟨rfl, rfl⟩

end Walks

section Visits

variable {s : Operator → Setting} {find : Operator → Finder} {name : Option String}
  {rules : List PatternId} {exact : Bool} {n : Node} {R : Node → List (List Find) → Prop}

def rootRule (name : Option String) (rules : List PatternId) (exact : Bool) (op : Operator) :
    PatternNode :=
  ⟨name, .search ⟨rules, exact, op⟩⟩

theorem contribute_still (s : Setting) (event : TraceEvent) {hits finds : List Find} {c : Prop}
    [Decidable c] (h : finds = if c then hits else []) (tally : Tally) :
    let x : MatchM (List Find) := if c then (do
        s.note event
        return hits)
      else return []
    (x tally).1 = .ok finds ∧ (x tally).2.visited = tally.visited := by
  by_cases hc : c
  · rw [if_pos hc] at h
    simp only [if_pos hc, h]
    exact ⟨rfl, s.note_visited event tally⟩
  · rw [if_neg hc] at h
    simp only [if_neg hc, h]
    exact ⟨rfl, rfl⟩

theorem visit_inStep (hlength : ∀ n found, R n found → found.length = rules.length)
    (ho : InStep (fun op ↦ outcomes (find op) n rules) fun results ↦
      ∃ found, R n found ∧ results = fun _ ↦ found) :
    InStep (fun op ↦ (s op).visit (find op) Pattern.root (rootRule name rules exact op)
      ⟨rules, exact, op⟩ n)
      (Contributes (fun v ↦ R v.node v.found)
        (fun op v ↦ v.contribution name rules exact op) [n]) := by
  refine ho.bind fun results h ↦ ?_
  obtain ⟨found, hfound, rfl⟩ := h
  let v : Inquiry := ⟨n, found⟩
  refine .still (.single (v := v) hfound) fun op tally ↦ ?_
  cases op with
  | anyOf =>
    refine contribute_still (c := 0 < v.satisfied) _ _ ?_ tally
    split
    · rfl
    · exact Inquiry.hits_eq_nil_iff.mpr (by omega)
  | allOf =>
    refine contribute_still (c := v.satisfied = rules.length) _ _ ?_ tally
    rw [← hlength n found hfound]
    rfl
  | oneOf => exact contribute_still (c := v.satisfied = 1) _ _ rfl tally
  | not => exact ⟨rfl, rfl⟩

theorem search_inStep (name : Option String) (exact : Bool)
    (hv : ∀ op, (s op).view = (s .anyOf).view) (hl : ∀ op, (s op).limit = (s .anyOf).limit)
    (hlength : ∀ n found, R n found → found.length = rules.length)
    (ho : ∀ n, InStep (fun op ↦ outcomes (find op) n rules) fun results ↦
      ∃ found, R n found ∧ results = fun _ ↦ found) (ns : List Node) :
    InStep (fun op ↦ (s op).search (find op) Pattern.root (rootRule name rules exact op)
      ⟨rules, exact, op⟩ ns)
      (Contributes (fun v ↦ R v.node v.found) (fun op v ↦ v.contribution name rules exact op)
        (if exact then ns else ns.flatMap Node.preorder)) := by
  have hcharge : InStep (fun op ↦ (s op).charge) fun _ ↦ True :=
    (InStep.of_lockstep (fun op ↦ charge_sameVisits (hl op).symm) fun op ↦ Ends.trivial _).mono
      fun _ _ ↦ trivial
  have hcharged : ∀ n, InStep
      (fun op ↦ (s op).charged (find op) Pattern.root (rootRule name rules exact op)
        ⟨rules, exact, op⟩ n)
      (Contributes (fun v ↦ R v.node v.found)
        (fun op v ↦ v.contribution name rules exact op) [n]) :=
    fun n ↦ hcharge.bind fun _ _ ↦ visit_inStep hlength (ho n)
  cases exact with
  | true =>
    simp only [search_of_exact]
    exact each_inStep hcharged ns
  | false =>
    simp only [search_of_not_exact]
    exact descend_inStep hv hcharged ns

end Visits

end Setting

/-- What a rule of a sound pattern finds at a node does not depend on the limit, and is something
just if the node satisfies the rule. -/
theorem Setting.findAt_single (s : Setting) (hp : s.pattern.Sound) {q : PatternId}
    (hq : q < s.pattern.size) (n : Node) :
    Ends (s.findAt s.pattern.size q [n]) (fun finds ↦ s.pattern.Answers s.view q [n] finds ∧
      (finds ≠ [] ↔ s.pattern.Satisfies hp q n)) fun _ ↦ True := by
  refine .of_forall_ok fun tally finds tally' h ↦ ⟨(findAt_answers s q [n]).of_ok h, ?_⟩
  simpa using findAt_ne_nil_iff hp hq le_rfl h

structure Operator.Variants (ps : Operator → Pattern) (name : Option String)
    (rules : List PatternId) (exact : Bool) : Prop where
  root : ∀ op, (ps op).get? Pattern.root = some ⟨name, .search ⟨rules, exact, op⟩⟩
  others : ∀ op id, id ≠ Pattern.root → (ps op).get? id = (ps .anyOf).get? id

namespace Operator.Variants

variable {ps : Operator → Pattern} {name : Option String} {rules : List PatternId} {exact : Bool}

theorem size_eq (h : Variants ps name rules exact) (op : Operator) :
    (ps op).size = (ps .anyOf).size := by
  have hlt : ∀ op id, id < (ps op).size ↔ (ps op).get? id ≠ none := by
    intro op id
    simp [Pattern.get?, Pattern.size]
  have hsame : ∀ id, id < (ps op).size ↔ id < (ps .anyOf).size := by
    intro id
    rw [hlt, hlt]
    by_cases hid : id = Pattern.root
    · subst hid
      simp [h.root]
    · rw [h.others op id hid]
  exact le_antisymm (Nat.le_of_not_lt fun hl ↦ lt_irrefl _ ((hsame _).mp hl))
    (Nat.le_of_not_lt fun hl ↦ lt_irrefl _ ((hsame _).mpr hl))

variable (engine : Engine) (traced : Bool) (view : View)

theorem findAt_sameVisits (h : Variants ps name rules exact) (hp : (ps .anyOf).Sound)
    (op : Operator) (depth : ℕ) :
    (Comparison.lockstep Tally.SameVisits).Finds
      (fun i j ↦ i = j ∧ TransGen (ps .anyOf).Refers Pattern.root i) Eq Eq
      ((engine.setting traced view (ps .anyOf)).findAt depth)
      ((engine.setting traced view (ps op)).findAt depth) := by
  -- No rule below the root leads back to it, so the one rule that differs is not met again.
  have hget : ∀ i, TransGen (ps .anyOf).Refers Pattern.root i →
      (ps op).get? i = (ps .anyOf).get? i := by
    intro i hi
    apply h.others
    intro heq
    subst heq
    exact hp.acyclic _ hi
  have hreads : (Comparison.lockstep Tally.SameVisits).Reads
      (engine.setting traced view (ps .anyOf)) (engine.setting traced view (ps op))
      (fun i j ↦ i = j ∧ TransGen (ps .anyOf).Refers Pattern.root i) Eq fun _ ↦ True :=
    Comparison.reads_same rfl (Setting.charge_sameVisits rfl) fun e e' _ ↦
      Setting.note_sameVisits _ _ e e'
  refine Comparison.findAt_rel hreads (Find.filed_eq.mono (fun _ _ h ↦ h.1) fun _ _ h ↦ h)
    (fun i j hij ↦ ?_) (fun i j hij _ ↦ hij.1) depth
  obtain ⟨rfl, hi⟩ := hij
  change Option.Rel _ ((ps .anyOf).get? i) ((ps op).get? i)
  rw [hget i hi]
  cases ho : (ps .anyOf).get? i with
  | none => exact .none
  | some origin =>
    have hself : PatternNode.Rel Eq (fun _ ↦ True) origin origin :=
      PatternNode.rel_self fun _ _ ↦ trivial
    refine .some (hself.mono (fun q hq j hj ↦ ⟨hj, hi.tail ⟨origin, ho, hq⟩⟩) fun _ _ ↦ id)

/-- All variants get one list of finds from the sub-rules of the root, at every node. -/
theorem outcomes_inStep (h : Variants ps name rules exact) (hp : ∀ op, (ps op).Sound) (n : Node) :
    InStep
      (fun op ↦ Setting.outcomes ((engine.setting traced view (ps op)).findAt (ps op).size) n rules)
      fun results ↦ ∃ found, (∀ op, List.Forall₂ (fun q found ↦ (ps op).Answers view q [n] found ∧
        (found ≠ [] ↔ (ps op).Satisfies (hp op) q n)) rules found) ∧ results = fun _ ↦ found := by
  have hrefers : ∀ op, ∀ q ∈ rules, (ps op).Refers Pattern.root q :=
    fun op q hq ↦ ⟨_, h.root op, hq⟩
  apply InStep.of_lockstep
  · intro op
    have hfinds := h.findAt_sameVisits engine traced view (hp .anyOf) op (ps .anyOf).size
    have hrules : List.Forall₂ (fun i j ↦ i = j ∧ TransGen (ps .anyOf).Refers Pattern.root i)
        rules rules := List.forall₂_same.mpr fun q hq ↦ ⟨rfl, .single (hrefers .anyOf q hq)⟩
    have hsame := Comparison.outcomes_rel hfinds (rfl : n = n) hrules
    rw [List.forall₂_eq_eq_eq, List.forall₂_eq_eq_eq] at hsame
    rw [h.size_eq op]
    exact hsame
  · intro op
    apply Setting.outcomes_forall₂
    intro q hq
    have hid : q < (ps op).size := (hp op).valid _ q (hrefers op q hq)
    exact Setting.findAt_single (engine.setting traced view (ps op)) (hp op) hid n

end Operator.Variants

/-- Compiled patterns that differ in nothing but the operator of the search at their root fail
alike or all succeed, after the same number of visits. At every node that the search visits, the
sub-rules find the same things whatever the operator, each something just if the node satisfies it,
and the finds of the match are what the operator makes of them, node by node. So with `allOf` or
`oneOf` some of what `anyOf` brings is left, all of it if there is one sub-rule; with two sub-rules
or more these two never take the same node; and each node contributes to `anyOf` or to `not`, never
to both. -/
theorem RawPattern.compiled_match_combines {raw : Operator → RawPattern} {ps : Operator → Pattern}
    {name : Option String} {rules : List PatternId} {exact : Bool}
    (compiled : ∀ op, (raw op).compile = .ok (ps op))
    (variants : Operator.Variants ps name rules exact) (engine : Engine) (traced : Bool)
    (tree : SyntaxTree) :
    ∃ hp : ∀ op, (ps op).Sound,
      (∃ visited, ∀ op, (engine.run traced tree (ps op)).2.visited = visited) ∧
      ((∃ e, ∀ op, (engine.run traced tree (ps op)).1 = .error e) ∨
        ∃ (visits : List Inquiry) (finds : Operator → List Find),
          visits.map Inquiry.node = (if exact then [tree.root] else tree.root.preorder) ∧
          (∀ v ∈ visits, ∀ op, List.Forall₂ (fun q found ↦
            (ps op).Answers tree.view q [v.node] found ∧
              (found ≠ [] ↔ (ps op).Satisfies (hp op) q v.node)) rules v.found) ∧
          (∀ op, (engine.run traced tree (ps op)).1 = .ok (finds op) ∧
            finds op = visits.flatMap fun v ↦ v.contribution name rules exact op) ∧
          (finds .allOf).Sublist (finds .anyOf) ∧ (finds .oneOf).Sublist (finds .anyOf) ∧
          (rules.length = 1 → finds .allOf = finds .anyOf ∧ finds .oneOf = finds .anyOf) ∧
          (2 ≤ rules.length → ∀ v ∈ visits, v.contribution name rules exact .allOf = [] ∨
            v.contribution name rules exact .oneOf = []) ∧
          ∀ v ∈ visits, v.contribution name rules exact .anyOf = [] ↔
            v.contribution name rules exact .not ≠ []) := by
  have hp : ∀ op, (ps op).Sound := fun op ↦ compile_sound (compiled op)
  let s (op : Operator) : Setting := engine.setting traced tree.view (ps op)
  let R (n : Node) (found : List (List Find)) : Prop := ∀ op, List.Forall₂
    (fun q found ↦
      (ps op).Answers tree.view q [n] found ∧ (found ≠ [] ↔ (ps op).Satisfies (hp op) q n))
    rules found
  have houtcomes : ∀ n, InStep (fun op ↦ Setting.outcomes ((s op).findAt (ps op).size) n rules)
      fun results ↦ ∃ found, R n found ∧ results = fun _ ↦ found :=
    variants.outcomes_inStep engine traced tree.view hp
  have hlength : ∀ n found, R n found → found.length = rules.length :=
    fun n found h ↦ (h .anyOf).length_eq.symm
  have hrun : ∀ op, engine.run traced tree (ps op) = (s op).search ((s op).findAt (ps op).size)
      Pattern.root (Setting.rootRule name rules exact op) ⟨rules, exact, op⟩ [tree.root] .zero :=
    fun op ↦ Engine.run_eq_search (hp op) (variants.root op) rfl engine traced tree
  have hsearch := Setting.search_inStep (s := s) name exact (fun _ ↦ rfl) (fun _ ↦ rfl) hlength
    houtcomes [tree.root]
  obtain ⟨visited, hvisited, hends⟩ := hsearch (fun _ ↦ .zero) 0 fun _ ↦ rfl
  simp only [← hrun] at hvisited hends
  refine ⟨hp, ⟨visited, hvisited⟩, hends.imp_right fun hends ↦ ?_⟩
  obtain ⟨finds, ⟨visits, hnodes, hvisits, hfinds⟩, hok⟩ := hends
  have hsub : ∀ op, op ≠ .not → (finds op).Sublist (finds .anyOf) := by
    intro op hop
    rw [hfinds op, hfinds .anyOf]
    exact List.Sublist.flatMap_right _ fun v _ ↦ Inquiry.contribution_sublist hop
  have hsingle : rules.length = 1 → ∀ op, op ≠ .not → finds op = finds .anyOf := by
    intro hone op hop
    rw [hfinds op, hfinds .anyOf]
    refine List.flatMap_congr fun v hv ↦ Inquiry.contribution_of_length_eq_one ?_ hop
    rw [hlength _ _ (hvisits v hv), hone]
  refine ⟨visits, finds, by simpa using hnodes, hvisits, fun op ↦ ⟨hok op, hfinds op⟩,
    hsub .allOf (by decide), hsub .oneOf (by decide), fun hone ↦ ?_, fun htwo v hv ↦ ?_,
    fun v _ ↦ ?_⟩
  · exact ⟨hsingle hone .allOf (by decide), hsingle hone .oneOf (by decide)⟩
  · apply Inquiry.contribution_exclusive
    rw [hlength _ _ (hvisits v hv)]
    exact htwo
  · exact Inquiry.contribution_anyOf_eq_nil_iff

namespace Sample

def namedPattern (op : Operator) : RawPattern :=
  let (ident, b) := Builder.empty.add ⟨some "ident", .literal ⟨some "Ident", []⟩⟩
  let (named, b) := b.add ⟨none, .literal ⟨none, [textConstraint "Name" "print"]⟩⟩
  let (root, b) := b.add ⟨some "found", .search ⟨[ident, named], false, op⟩⟩
  b.build root

def namedRules (op : Operator) : Pattern :=
  ⟨#[⟨some "found", .search ⟨[1, 2], false, op⟩⟩, ⟨some "ident", .literal ⟨some "Ident", []⟩⟩,
    ⟨none, .literal ⟨none, [textConstraint "Name" "print"]⟩⟩]⟩

theorem compile_namedPattern (op : Operator) : (namedPattern op).compile = .ok (namedRules op) := by
  have ho : (namedPattern op).discoveryOrder = .ok [2, 0, 1] := by
    change RawPattern.discover _ [2] [⟨2, [0, 1]⟩] = _
    rw [RawPattern.discover_new (by decide) (by decide) rfl]
    change RawPattern.discover _ [0, 2] [⟨0, []⟩, ⟨2, [1]⟩] = _
    rw [RawPattern.discover, RawPattern.discover_new (by decide) (by decide) rfl]
    change RawPattern.discover _ [1, 0, 2] [⟨1, []⟩, ⟨2, []⟩] = _
    rw [RawPattern.discover, RawPattern.discover, RawPattern.discover]
    rfl
  rw [RawPattern.compile, ho]
  rfl

theorem variants_namedRules : Operator.Variants namedRules (some "found") [1, 2] false where
  root _ := rfl
  others op id h := by
    cases id with
    | zero => exact absurd rfl h
    | succ id => rfl

end Sample

/-- In a call of `print`, the name of the function is an identifier and named so; the other two
nodes are neither. -/
theorem RawPattern.compiled_match_combines_named :
    ∃ (finds : Operator → List Find),
      (∀ op, ((⟨some 3⟩ : Engine).run false (Sample.callTree "print") (Sample.namedRules op)).1 =
        .ok (finds op)) ∧
      (finds .anyOf).length = 2 ∧ (finds .not).length = 2 ∧ (finds .oneOf).length = 0 ∧
      (finds .allOf).Sublist (finds .anyOf) := by
  obtain ⟨hp, -, ⟨e, herror⟩ | ⟨visits, finds, -, -, hfinds, hsub, -⟩⟩ :=
    compiled_match_combines Sample.compile_namedPattern Sample.variants_namedRules ⟨some 3⟩ false
      (Sample.callTree "print")
  · have hok : ((⟨some 3⟩ : Engine).run false (Sample.callTree "print")
        (Sample.namedRules .anyOf)).1.toOption.isSome := by decide +kernel
    rw [herror .anyOf] at hok
    cases hok
  · have hlength : ∀ op k, ((⟨some 3⟩ : Engine).run false (Sample.callTree "print")
        (Sample.namedRules op)).1.toOption.map List.length = some k → (finds op).length = k := by
      intro op k h
      rw [(hfinds op).1] at h
      exact Option.some.inj h
    exact ⟨finds, fun op ↦ (hfinds op).1, hlength _ 2 (by decide +kernel),
      hlength _ 2 (by decide +kernel), hlength _ 0 (by decide +kernel), hsub⟩

end TreePattern

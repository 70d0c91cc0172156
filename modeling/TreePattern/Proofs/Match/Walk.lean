import Mathlib.Data.List.Forall2
import TreePattern.Pattern.Sample
import TreePattern.Proofs.Match.Ending
import TreePattern.Proofs.Tree.Preorder
import TreePattern.Tree.Sample

namespace TreePattern.Setting

open MatchM

variable (s : Setting) (attempt : Node → MatchM (List Find))

def each : List Node → MatchM (List Find)
  | [] => return []
  | n :: rest => do
    let hits ← attempt n
    let others ← each rest
    return hits ++ others

/-- The finds in each tree of a list, one tree after the other: an attempt at the root, then the
trees of its children. -/
def descend : List Node → MatchM (List Find)
  | [] => return []
  | n :: rest => do
    let hits ← attempt n
    match h : s.view.children n with
    | .error error => throw (.access error)
    | .ok children => do
      have := View.forestWeight_children_lt h rest
      let below ← descend children
      let others ← descend rest
      return hits ++ (below ++ others)
termination_by work => Node.forestWeight work
decreasing_by
  all_goals
    rw [Node.forestWeight_append] at this
    have := n.weight_eq
    simp only [Node.forestWeight] at *
    omega

theorem descend_nil : s.descend attempt [] = return [] := by rw [descend]

theorem descend_cons (n : Node) (rest : List Node) :
    s.descend attempt (n :: rest) = do
      let hits ← attempt n
      let children ← access (s.view.children n)
      let below ← s.descend attempt children
      let others ← s.descend attempt rest
      return hits ++ (below ++ others) := by
  rw [descend]
  refine congrArg (attempt n >>= ·) (funext fun hits ↦ ?_)
  split
  · next e h => rw [h]; rfl
  · next children h => simp only [h]; rfl

theorem each_append (a b : List Node) :
    each attempt (a ++ b) = do
      let hits ← each attempt a
      let others ← each attempt b
      return hits ++ others := by
  induction a with
  | nil => simp only [List.nil_append, each, pure_bind, bind_pure]
  | cons n rest ih =>
    simp only [List.cons_append, each, ih, bind_assoc, pure_bind, List.append_assoc]

theorem descend_append (a b : List Node) :
    s.descend attempt (a ++ b) = do
      let hits ← s.descend attempt a
      let others ← s.descend attempt b
      return hits ++ others := by
  induction a with
  | nil => simp only [List.nil_append, descend_nil, pure_bind, bind_pure]
  | cons n rest ih =>
    simp only [List.cons_append, descend_cons, ih, bind_assoc, pure_bind, List.append_assoc]

theorem gather_eq (roots : List Node) (found : List Find) :
    gather attempt roots found = (do
      let hits ← each attempt roots
      return found.reverse ++ hits : MatchM (List Find)) := by
  funext tally
  induction roots generalizing found tally with
  | nil => simp only [gather, each, pure_bind, pure_apply, List.append_nil]
  | cons n rest ih =>
    simp only [each, bind_assoc, pure_bind]
    rcases h : attempt n tally with ⟨e | hits, tally'⟩
    · simp only [gather, h, bind_apply_of_error h]
    · simp only [gather, h, bind_apply_of_ok h, ih, List.reverseAux_eq, List.reverse_append,
        List.reverse_reverse, List.append_assoc]

theorem each_singleton (n : Node) : each attempt [n] = attempt n := by
  simp only [each, pure_bind, List.append_nil, bind_pure]

theorem gather_singleton (n : Node) : gather attempt [n] [] = attempt n := by
  simp only [gather_eq, each_singleton, List.reverse_nil, List.nil_append, bind_pure]

theorem sweep_eq (work : List Node) (found : List Find) :
    s.sweep attempt work found = (do
      let hits ← s.descend attempt work
      return found.reverse ++ hits : MatchM (List Find)) := by
  funext tally
  fun_induction sweep s attempt work found tally with
  | case1 found tally => simp only [descend_nil, pure_bind, pure_apply, List.append_nil]
  | case2 n rest found tally e tally' h =>
    simp only [descend_cons, bind_assoc, bind_apply_of_error h]
  | case3 n rest found tally hits tally' h e hc =>
    simp only [descend_cons, bind_assoc, bind_apply_of_ok h, hc]
    rfl
  | case4 n rest found tally hits tally' h children hc _ ih =>
    rw [ih]
    simp only [descend_cons, descend_append, bind_assoc, bind_apply_of_ok h, hc, access_ok,
      pure_bind, List.reverseAux_eq, List.reverse_append, List.reverse_reverse, List.append_assoc]

variable {s attempt} {roots : List Node} {finds : List Find} {tally tally' : Tally}

/-- An outcome of a walk: the nodes are attempted in the order listed up to one of them, the
children of which cannot be read. -/
def StopsAtChildren (s : Setting) (attempt : Node → MatchM (List Find)) (listed : List Node)
    (tally : Tally) (outcome : Except MatchError (List Find) × Tally) : Prop :=
  ∃ before x after hits tally' e, listed = before ++ x :: after ∧
    each attempt (before ++ [x]) tally = (.ok hits, tally') ∧ s.view.children x = .error e ∧
    outcome = (.error (.access e), tally')

theorem each_append_of_ok {a : List Node} (b : List Node)
    (h : each attempt a tally = (.ok finds, tally')) :
    each attempt (a ++ b) tally =
      (do let others ← each attempt b
          return finds ++ others : MatchM (List Find)) tally' := by
  rw [each_append, bind_apply_of_ok h]

theorem StopsAtChildren.prepend {a b : List Node} {outcome : Except MatchError (List Find) × Tally}
    (h : StopsAtChildren s attempt b tally' outcome) (c : List Node)
    (ha : each attempt a tally = (.ok finds, tally')) :
    StopsAtChildren s attempt (a ++ b ++ c) tally outcome := by
  obtain ⟨before, x, after, hits, tally₁, e, rfl, hb, hx, rfl⟩ := h
  refine ⟨a ++ before, x, after ++ c, finds ++ hits, tally₁, e, by simp, ?_, hx, rfl⟩
  rw [List.append_assoc, each_append_of_ok _ ha, bind_apply_of_ok hb]
  rfl

theorem StopsAtChildren.bind {listed : List Node} {x : MatchM (List Find)}
    (h : StopsAtChildren s attempt listed tally (x tally')) (f : List Find → MatchM (List Find)) :
    StopsAtChildren s attempt listed tally ((x >>= f) tally') := by
  obtain ⟨before, n, after, hits, tally₁, e, hl, hb, hc, hx⟩ := h
  exact ⟨before, n, after, hits, tally₁, e, hl, hb, hc, bind_apply_of_error hx⟩

/-- The walk attempts the nodes listed in pre-order, unless it stops at one the children of which
cannot be read. -/
theorem descend_cases (s : Setting) (attempt : Node → MatchM (List Find)) (roots : List Node)
    (tally : Tally) :
    StopsAtChildren s attempt (roots.flatMap Node.preorder) tally (s.descend attempt roots tally) ∨
      s.descend attempt roots tally = each attempt (roots.flatMap Node.preorder) tally := by
  induction roots using Node.forest_induction generalizing tally with
  | nil =>
    rw [descend_nil]
    exact .inr rfl
  | cons n rest ihc ihr =>
    rw [List.flatMap_cons, Node.preorder_eq, ← List.singleton_append, descend_cons]
    rcases hn : attempt n tally with ⟨e | hits, tally₁⟩
    · refine .inr ?_
      rw [bind_apply_of_error hn, List.append_assoc, List.singleton_append, each,
        bind_apply_of_error hn]
    · have hfirst : each attempt [n] tally = (.ok hits, tally₁) := by
        simp only [each, pure_bind, List.append_nil, bind_apply_of_ok hn, pure_apply]
      rw [bind_apply_of_ok hn]
      cases hc : s.view.children n with
      | error e =>
        exact .inl ⟨[], n, _, hits, tally₁, e, rfl, hfirst, hc, rfl⟩
      | ok children =>
        rw [View.children_eq hc, access_ok, pure_bind]
        rcases ihc tally₁ with hstop | hsame
        · exact .inl ((hstop.prepend _ hfirst).bind _)
        · rcases hb : s.descend attempt n.children tally₁ with ⟨e | below, tally₂⟩
          · refine .inr ?_
            rw [bind_apply_of_error hb, List.append_assoc, each_append_of_ok _ hfirst, each_append,
              bind_assoc, bind_apply_of_error (hsame ▸ hb)]
          · have hbelow : each attempt ([n] ++ n.children.flatMap Node.preorder) tally =
                (.ok (hits ++ below), tally₂) := by
              rw [each_append_of_ok _ hfirst, bind_apply_of_ok (hsame ▸ hb)]
              rfl
            rw [bind_apply_of_ok hb]
            rcases ihr tally₂ with hstop | hsame
            · refine .inl ?_
              simpa only [List.append_nil] using (hstop.prepend [] hbelow).bind _
            · refine .inr ?_
              rw [each_append_of_ok _ hbelow, bind_apply, hsame, ← bind_apply]
              simp only [List.append_assoc]

/-- The finds of a list of nodes are those that the attempts at the nodes brought. -/
theorem each_eq_ok (h : each attempt roots tally = (.ok finds, tally')) :
    ∃ hits, List.Forall₂ (fun n found ↦ ∃ before after, attempt n before = (.ok found, after))
      roots hits ∧ finds = hits.flatten := by
  induction roots generalizing finds tally tally' with
  | nil =>
    cases h
    exact ⟨[], .nil, rfl⟩
  | cons n rest ih =>
    rw [each, bind_eq_ok] at h
    obtain ⟨found, tally₁, hn, h⟩ := h
    obtain ⟨others, tally₂, ho, h⟩ := bind_eq_ok.mp h
    cases h
    obtain ⟨hits, hf, rfl⟩ := ih ho
    exact ⟨found :: hits, .cons ⟨tally, tally₁, hn⟩ hf, rfl⟩

/-- A walk that ends well brings what the attempts at the nodes brought, in pre-order. -/
theorem descend_eq_ok (h : s.descend attempt roots tally = (.ok finds, tally')) :
    ∃ hits, List.Forall₂ (fun n found ↦ ∃ before after, attempt n before = (.ok found, after))
      (roots.flatMap Node.preorder) hits ∧ finds = hits.flatten := by
  rcases descend_cases s attempt roots tally with hstop | hsame
  · obtain ⟨before, x, after, hits, tally₁, e, -, -, -, he⟩ := hstop
    rw [h] at he
    cases he
  · exact each_eq_ok (hsame ▸ h)

/-- A walk through trees that can be read attempts all their nodes. -/
theorem descend_eq_each
    (hc : ∀ n ∈ roots, ∀ x, n.Contains x → ∃ children, s.view.children x = .ok children) :
    s.descend attempt roots = each attempt (roots.flatMap Node.preorder) := by
  funext tally
  apply (descend_cases s attempt roots tally).resolve_left
  intro hstop
  obtain ⟨before, x, after, hits, tally', e, hl, -, he, -⟩ := hstop
  have hx : x ∈ roots.flatMap Node.preorder := by simp [hl]
  obtain ⟨n, hn, hx⟩ := List.mem_flatMap.mp hx
  obtain ⟨children, hchildren⟩ := hc n hn x (Node.mem_preorder.mp hx)
  rw [hchildren] at he
  cases he

variable {find : Finder} {id : PatternId} {origin : PatternNode} {rule : SearchRule}

theorem search_of_exact (h : rule.exact = true) :
    s.search find id origin rule roots = each (s.charged find id origin rule) roots := by
  rw [search, if_pos h, gather_eq]
  simp only [List.reverse_nil, List.nil_append, bind_pure]

theorem search_of_not_exact (h : rule.exact = false) :
    s.search find id origin rule roots = s.descend (s.charged find id origin rule) roots := by
  rw [search, if_neg (by simp [h]), sweep_eq]
  simp only [List.reverse_nil, List.nil_append, bind_pure]

theorem apply_of_literal {rule : LiteralRule} (h : origin.rule = .literal rule) :
    s.apply find id origin roots = each (s.literal find id origin rule) roots := by
  rw [Setting.apply, h]
  dsimp only
  rw [gather_eq]
  simp only [List.reverse_nil, List.nil_append, bind_pure]

theorem apply_of_search (h : origin.rule = .search rule) :
    s.apply find id origin roots = s.search find id origin rule roots := by
  rw [Setting.apply, h]

/-- A search that is not exact is the recursive walk in pre-order: it charges and makes a visit,
reads the children, and goes through their trees from left to right, up to the first failure. So it
takes its roots one after the other, and visits the nodes below a match too. Unless it stops at
children that cannot be read, it does what an exact search does on the list of all nodes. -/
theorem search_eq_descend (s : Setting) (find : Finder) (id : PatternId) (origin : PatternNode)
    (rule : SearchRule) (h : rule.exact = false) :
    (∀ roots,
      s.search find id origin rule roots = s.descend (s.charged find id origin rule) roots) ∧
    (∀ roots roots', s.search find id origin rule (roots ++ roots') = do
      let finds ← s.search find id origin rule roots
      let others ← s.search find id origin rule roots'
      return finds ++ others) ∧
    (∀ roots tally finds tally', s.search find id origin rule roots tally = (.ok finds, tally') →
      ∃ hits, List.Forall₂
          (fun n found ↦ ∃ before after,
            s.charged find id origin rule n before = (.ok found, after))
          (roots.flatMap Node.preorder) hits ∧
        finds = hits.flatten) ∧
    (∀ roots tally,
      ¬ StopsAtChildren s (s.charged find id origin rule) (roots.flatMap Node.preorder) tally
        (s.search find id origin rule roots tally) →
      s.search find id origin rule roots tally =
        s.search find id origin { rule with exact := true } (roots.flatMap Node.preorder) tally) ∧
    ∀ roots, (∀ n ∈ roots, ∀ x, n.Contains x → ∃ c, s.view.children x = .ok c) →
      s.search find id origin rule roots =
        s.search find id origin { rule with exact := true } (roots.flatMap Node.preorder) := by
  have hexact : ∀ roots tally,
      ¬ StopsAtChildren s (s.charged find id origin rule) (roots.flatMap Node.preorder) tally
        (s.search find id origin rule roots tally) →
      s.search find id origin rule roots tally =
        s.search find id origin { rule with exact := true }
          (roots.flatMap Node.preorder) tally := by
    intro roots tally hs
    rw [search_of_not_exact h] at hs ⊢
    rw [search_of_exact rfl]
    exact (descend_cases s _ roots tally).resolve_left hs
  refine ⟨fun roots ↦ search_of_not_exact h, fun roots roots' ↦ ?_,
    fun roots tally finds tally' hs ↦ ?_, hexact, fun roots hc ↦ funext fun tally ↦ ?_⟩
  · simp only [search_of_not_exact h]
    exact s.descend_append _ roots roots'
  · have hsame := hexact roots tally fun ⟨_, _, _, _, _, _, _, _, _, he⟩ ↦ by
      rw [hs] at he
      cases he
    rw [hs, search_of_exact rfl] at hsame
    exact each_eq_ok hsame.symm
  · refine hexact roots tally fun ⟨before, x, after, _, _, e, hl, _, he, _⟩ ↦ ?_
    have hx : x ∈ roots.flatMap Node.preorder := by simp [hl]
    obtain ⟨n, hn, hx⟩ := List.mem_flatMap.mp hx
    obtain ⟨c, hc⟩ := hc n hn x (Node.mem_preorder.mp hx)
    rw [hc] at he
    cases he

theorem search_eq_descend_ident :
    let s : Setting := ⟨.keyed, Sample.identRules, some 5, false⟩
    let rule : SearchRule := ⟨[1], false, .anyOf⟩
    let trees := [(Sample.callTree "print").root, (Sample.callTree "exit").root]
    rule.exact = false ∧
      s.search (s.findAt 1) Pattern.root ⟨none, .search rule⟩ rule trees =
        s.descend (s.charged (s.findAt 1) Pattern.root ⟨none, .search rule⟩ rule) trees :=
  ⟨rfl, (search_eq_descend _ _ _ _ _ rfl).1 _⟩

end TreePattern.Setting

import TreePattern.Proofs.Match.Collection
import TreePattern.Proofs.Match.Limit
import TreePattern.Proofs.Match.Order
import TreePattern.Proofs.Match.Wrapping
import TreePattern.Proofs.Tree.Depth

namespace TreePattern

open MatchM

namespace MatchM

variable {α β : Type} {x : MatchM α} {f : α → MatchM β} {a : α} {b : β} {cost cost' : ℕ}

/-- Whatever the account, a part of a match ends in this result after so many visits, and records
nothing. -/
def Costs (x : MatchM α) (a : α) (cost : ℕ) : Prop :=
  ∀ tally, x tally = (.ok a, ⟨tally.visited + cost, tally.trace⟩)

theorem Costs.pure (a : α) : Costs (Pure.pure a) a 0 := fun _ ↦ rfl

theorem Costs.bind (h : Costs x a cost) (hf : Costs (f a) b cost') :
    Costs (x >>= f) b (cost + cost') := by
  intro tally
  rw [bind_apply_of_ok (h tally), hf, Nat.add_assoc]

theorem Costs.free (h : Costs x a cost) (hf : Costs (f a) b 0) : Costs (x >>= f) b cost :=
  h.bind hf

def Tours (x : MatchM (List Find)) (nodes : List Node) (cost : ℕ) : Prop :=
  ∃ finds, Costs x finds cost ∧ finds.map Find.node = nodes

end MatchM

/-- So many searches for any of one sub-rule, none of them exact, each around the next one, the
last one around a literal. -/
inductive Pattern.Nests (p : Pattern) (rule : LiteralRule) : ℕ → PatternId → Prop
  | literal {id : PatternId} {origin : PatternNode} :
      p.get? id = some origin → origin.rule = .literal rule → Nests p rule 0 id
  | search {k : ℕ} {id q : PatternId} {origin : PatternNode} :
      p.get? id = some origin → origin.rule = .search ⟨[q], false, .anyOf⟩ → Nests p rule k q →
      Nests p rule (k + 1) id

def LiteralRule.Scalar (rule : LiteralRule) : Prop :=
  ∀ entry ∈ rule.attributes, ∃ value, entry.2 = .scalar value

namespace Setting

variable {s : Setting} {find : Finder} {id q : PatternId} {origin : PatternNode} {n : Node}
  {ns : List Node} {attempt : Node → MatchM (List Find)} {nodes : Node → List Node}
  {cost : Node → ℕ}

theorem charge_costs (hl : s.limit = none) : Costs s.charge () 1 := by
  intro tally
  rw [charge, hl]

theorem note_costs (ht : s.traced = false) (event : TraceEvent) : Costs (s.note event) () 0 := by
  intro tally
  rw [note, ht]
  rfl

theorem access_costs {α : Type} {result : Except AccessError α} {a : α} (h : result = .ok a) :
    Costs (access result) a 0 :=
  h ▸ Costs.pure a

theorem each_tours (ha : ∀ n ∈ ns, Tours (attempt n) (nodes n) (cost n)) :
    Tours (each attempt ns) (ns.flatMap nodes) (ns.map cost).sum := by
  induction ns with
  | nil => exact ⟨[], .pure [], rfl⟩
  | cons n rest ih =>
    obtain ⟨hits, hh, hnodes⟩ := ha n List.mem_cons_self
    obtain ⟨others, ho, hrest⟩ := ih fun m hm ↦ ha m (.tail _ hm)
    refine ⟨hits ++ others, ?_, ?_⟩
    · exact hh.bind (ho.free (.pure _))
    · rw [List.map_append, hnodes, hrest, List.flatMap_cons]

theorem descend_tours (hc : ∀ x, n.Contains x → ∃ children, s.view.children x = .ok children)
    (ha : ∀ x, n.Contains x → Tours (attempt x) (nodes x) (cost x)) :
    Tours (s.descend attempt [n]) (n.preorder.flatMap nodes) (n.preorder.map cost).sum := by
  rw [descend_eq_each (by simpa using hc), List.flatMap_singleton]
  exact each_tours fun x hx ↦ ha x (Node.mem_preorder.mp hx)

theorem charged_tours (hl : s.limit = none) (ht : s.traced = false) {exact : Bool}
    {found : List Node} {visits : ℕ} (h : Tours (find q [n]) found visits) :
    Tours (s.charged find id origin ⟨[q], exact, .anyOf⟩ n) found (visits + 1) := by
  obtain ⟨finds, hfinds, hnodes⟩ := h
  rw [charged_single, Nat.add_comm]
  cases finds with
  | nil => exact ⟨[], (charge_costs hl).bind (hfinds.free (.pure [])), hnodes⟩
  | cons f fs =>
    refine ⟨(f :: fs).map (Find.inherit origin.name), ?_, ?_⟩
    · exact (charge_costs hl).bind (hfinds.free ((note_costs ht _).free (.pure _)))
    · rw [← hnodes, List.map_map]
      rfl

theorem meets_costs (find : Finder) (id : PatternId) (ht : s.traced = false) (hn : s.view.Reads n)
    {attributes : List (String × Constraint)}
    (hscalar : ∀ entry ∈ attributes, ∃ value, entry.2 = .scalar value) (captures : Captures) :
    ∃ found, Costs (s.meets find id n attributes captures) found 0 := by
  induction attributes generalizing captures with
  | nil => exact ⟨_, .pure _⟩
  | cons entry rest ih =>
    obtain ⟨name, constraint⟩ := entry
    obtain ⟨value, hvalue⟩ := hscalar _ List.mem_cons_self
    cases hvalue
    obtain ⟨looked, hlookup⟩ := hn.lookup name
    cases looked with
    | none => exact ⟨none, (access_costs hlookup).free ((note_costs ht _).free (.pure none))⟩
    | some v =>
      have hconstrain : ∃ found, Costs (constrain find v captures (.scalar value)) found 0 := by
        cases v with
        | scalar | node | nodes => exact ⟨_, .pure _⟩
      obtain ⟨found, hfound⟩ := hconstrain
      cases found with
      | none =>
        refine ⟨none, (access_costs hlookup).free (hfound.free ?_)⟩
        exact (note_costs ht _).free (.pure none)
      | some captures =>
        obtain ⟨found, hmeets⟩ := ih (fun other ho ↦ hscalar other (.tail _ ho)) captures
        exact ⟨found, (access_costs hlookup).free (hfound.free hmeets)⟩

theorem hasKind_costs (hn : s.view.Reads n) (rule : LiteralRule) :
    ∃ holds, Costs (hasKind rule n) holds 0 := by
  obtain ⟨kind, hkind⟩ := hn.kind
  unfold hasKind
  cases rule.kind with
  | none => exact ⟨_, .pure _⟩
  | some asked => exact ⟨kind == asked, (access_costs hkind).free (.pure _)⟩

theorem literal_costs (find : Finder) (id : PatternId) (origin : PatternNode)
    (ht : s.traced = false) (hn : s.view.Reads n) {rule : LiteralRule} (hscalar : rule.Scalar) :
    ∃ finds, Costs (s.literal find id origin rule n) finds 0 := by
  obtain ⟨holds, hkind⟩ := hasKind_costs hn rule
  cases holds with
  | false => exact ⟨[], hkind.free (.pure [])⟩
  | true =>
    obtain ⟨found, hmeets⟩ := meets_costs find id ht hn hscalar .empty
    cases found with
    | none => exact ⟨[], hkind.free (hmeets.free (.pure []))⟩
    | some captures => exact ⟨_, hkind.free (hmeets.free (.pure _))⟩

open Classical in
/-- Nested searches find the nodes of the innermost walk that satisfy the literal, and visit the
nodes of all walks. -/
theorem findAt_tours (hp : s.pattern.Sound) (hl : s.limit = none) (ht : s.traced = false)
    {rule : LiteralRule} {k : ℕ} (h : s.pattern.Nests rule k id) (hscalar : rule.Scalar)
    (hn : ∀ x, n.Contains x → s.view.Reads x) :
    Tours (s.findAt s.pattern.size id [n])
      ((n.rewalk k).filter fun x ↦ rule.Holds (s.pattern.Satisfies hp) x) (n.rewalkVisits k) := by
  -- By the number of searches, for all nodes: the search inside starts anew at each node of the
  -- walk.
  induction h generalizing n with
  | @literal id origin ho hr =>
    have hsat : s.pattern.Satisfies hp id n ↔ rule.Holds (s.pattern.Satisfies hp) n := by
      rw [Pattern.satisfies_iff ho, hr]
      rfl
    obtain ⟨finds, hfinds⟩ :=
      literal_costs (s.findAt s.pattern.size) id origin ht (hn n (.refl n)) hscalar
    have hfindsAt := (literal_findsAt hp ho hr n).of_ok (hfinds .zero)
    rw [findAt_literal hp ho hr]
    refine ⟨finds, hfinds, ?_⟩
    cases hfindsAt with
    | hit hholds hnode _ _ => simp [Node.rewalk, hnode, hsat.mp hholds]
    | miss hnot => simp [Node.rewalk, hsat.not.mp hnot]
  | @search k id q origin ho hr _ ih =>
    rw [findAt_size hp ho, apply_of_search hr, search_of_not_exact rfl, Node.rewalk,
      List.filter_flatMap, Node.rewalkVisits]
    refine descend_tours (fun x hx ↦ (hn x hx).children) fun x hx ↦ charged_tours hl ht ?_
    exact ih fun y hy ↦ hn y (hx.trans hy)

end Setting

open Classical in
/-- Searches for any of one sub-rule, each around the next, the last one around a literal that asks
for scalars, on a tree that can be read. Without limit, the finds are the nodes that satisfy the
literal, each as often as there are ways to part its depth among the searches, and the visits add
up to a sum of binomial coefficients over all nodes. This many visits is the least limit that is
enough. -/
theorem RawPattern.compiled_match_multiplies {raw : RawPattern} {p : Pattern}
    (compiled : raw.compile = .ok p) {rule : LiteralRule} (scalar : rule.Scalar) {k : ℕ}
    (hk : 0 < k) (nests : p.Nests rule k Pattern.root) {tree : SyntaxTree}
    (readable : ∀ x, tree.root.Contains x → tree.view.Reads x) :
    ∃ (hp : p.Sound) (found : Matches),
      (⟨none⟩ : Engine).execute tree p = .ok found ∧
      (found.finds.map Find.node).Perm (tree.root.levels.flatMap fun (n, depth) ↦ List.replicate
        (if rule.Holds (p.Satisfies hp) n then (depth + k - 1).choose (k - 1) else 0) n) ∧
      (tree.root.InPreorder → ∀ n depth, (n, depth) ∈ tree.root.levels →
        found.finds.countP (fun f ↦ f.node.index = n.index) =
          if rule.Holds (p.Satisfies hp) n then (depth + k - 1).choose (k - 1) else 0) ∧
      tree.visits p = (tree.root.levels.map fun (_, depth) ↦ (depth + k).choose (k - 1)).sum ∧
      ∀ limit, (tree.visits p ≤ limit → (⟨some limit⟩ : Engine).execute tree p = .ok found) ∧
        (limit < tree.visits p →
          (⟨some limit⟩ : Engine).execute tree p = .error (.limitExceeded limit)) := by
  have hp := compile_sound compiled
  let s : Setting := ⟨tree.view, p, none, false⟩
  obtain ⟨finds, hfinds, hnodes⟩ := Setting.findAt_tours (s := s) hp rfl rfl nests scalar readable
  have hrun : (⟨none⟩ : Engine).run false tree p = (.ok finds,
      ⟨0 + tree.root.rewalkVisits k, []⟩) :=
    hfinds .zero
  have hok : (⟨none⟩ : Engine).execute tree p = .ok ⟨tree, finds⟩ :=
    Engine.execute_eq_ok.mpr ⟨finds, _, hrun, rfl⟩
  have hperm : (finds.map Find.node).Perm (tree.root.levels.flatMap fun (n, depth) ↦ List.replicate
      (if rule.Holds (p.Satisfies hp) n then (depth + k - 1).choose (k - 1) else 0) n) := by
    have hwalk := (tree.root.rewalk_perm k).filter fun x ↦ rule.Holds (p.Satisfies hp) x
    rw [← hnodes, List.filter_flatMap] at hwalk
    refine hwalk.trans (List.Perm.of_eq (List.flatMap_congr fun level _ ↦ ?_))
    have hchoose : (level.2 + k - 1).choose level.2 = (level.2 + k - 1).choose (k - 1) :=
      Nat.choose_symm_of_eq_add (by omega)
    rw [List.filter_replicate, hchoose]
    by_cases hholds : rule.Holds (p.Satisfies hp) level.1
    · simp [hholds]
    · simp [hholds]
  have hvisits : tree.visits p =
      (tree.root.levels.map fun (_, depth) ↦ (depth + k).choose (k - 1)).sum := by
    rw [SyntaxTree.visits, hrun, Nat.zero_add, Node.rewalkVisits_eq]
    refine congrArg List.sum (List.map_congr_left fun level _ ↦ ?_)
    exact Nat.choose_symm_of_eq_add (by omega)
  refine ⟨hp, ⟨tree, finds⟩, hok, hperm, fun hnumbered n depth hm ↦ ?_, hvisits,
    fun limit ↦ ⟨?_, ?_⟩⟩
  · have hcount := hperm.countP_eq fun x ↦ x.index = n.index
    rw [List.countP_map] at hcount
    exact hcount.trans (hnumbered.countP_levels (fun level ↦
      if rule.Holds (p.Satisfies hp) level.1 then (level.2 + k - 1).choose (k - 1) else 0) hm)
  · intro hle
    rw [Engine.execute_eq_of_visits_le hle, hok]
  · exact Engine.execute_error_of_lt_visits

namespace Sample

def twicePattern : RawPattern :=
  let (ident, b) := Builder.empty.add ⟨some "ident", .literal ⟨some "Ident", []⟩⟩
  let (inner, b) := b.add ⟨none, .search ⟨[ident], false, .anyOf⟩⟩
  let (root, b) := b.add ⟨none, .search ⟨[inner], false, .anyOf⟩⟩
  b.build root

def twiceRules : Pattern :=
  ⟨#[⟨none, .search ⟨[1], false, .anyOf⟩⟩, ⟨none, .search ⟨[2], false, .anyOf⟩⟩,
    ⟨some "ident", .literal ⟨some "Ident", []⟩⟩]⟩

theorem compile_twicePattern : twicePattern.compile = .ok twiceRules := by
  have ho : twicePattern.discoveryOrder = .ok [2, 1, 0] := by
    change RawPattern.discover _ [2] [⟨2, [1]⟩] = _
    rw [RawPattern.discover_new (by decide) (by decide) rfl]
    change RawPattern.discover _ [1, 2] [⟨1, [0]⟩, ⟨2, []⟩] = _
    rw [RawPattern.discover_new (by decide) (by decide) rfl]
    change RawPattern.discover _ [0, 1, 2] [⟨0, []⟩, ⟨1, []⟩, ⟨2, []⟩] = _
    simp only [RawPattern.discover]
    rfl
  rw [RawPattern.compile, ho]
  rfl

theorem nests_twiceRules : twiceRules.Nests ⟨some "Ident", []⟩ 2 Pattern.root :=
  .search rfl rfl (.search rfl rfl (.literal rfl rfl))

end Sample

/-- The name of the function, at depth one, is found twice, with eight visits. -/
theorem RawPattern.compiled_match_multiplies_twice :
    ∃ found, (⟨none⟩ : Engine).execute (Sample.callTree "print") Sample.twiceRules = .ok found ∧
      found.finds.length = 2 ∧ (Sample.callTree "print").visits Sample.twiceRules = 8 ∧
      (⟨some 8⟩ : Engine).execute (Sample.callTree "print") Sample.twiceRules = .ok found ∧
      (⟨some 7⟩ : Engine).execute (Sample.callTree "print") Sample.twiceRules =
        .error (.limitExceeded 7) := by
  have hscalar : LiteralRule.Scalar ⟨some "Ident", []⟩ := fun _ h ↦ by cases h
  have hwhole : (Sample.callTree "print").root.preorder.all Node.whole = true := by decide +kernel
  have hreads : ∀ x, (Sample.callTree "print").root.Contains x →
      (Sample.callTree "print").view.Reads x :=
    fun x hx ↦ x.reads_of_whole (List.all_eq_true.mp hwhole x (Node.mem_preorder.mpr hx)) _
  have hlength : ((⟨none⟩ : Engine).execute (Sample.callTree "print")
      Sample.twiceRules).toOption.map (·.finds.length) = some 2 := by decide +kernel
  have hvisits : (Sample.callTree "print").visits Sample.twiceRules = 8 := by decide +kernel
  obtain ⟨hp, found, hfound, -, -, -, hlimit⟩ :=
    compiled_match_multiplies Sample.compile_twicePattern hscalar (by decide)
      Sample.nests_twiceRules hreads
  rw [hfound] at hlength
  exact ⟨found, hfound, Option.some.inj hlength, hvisits, (hlimit 8).1 (by omega),
    (hlimit 7).2 (by omega)⟩

end TreePattern

import TreePattern.Proofs.Match.Operators
import TreePattern.Proofs.Tree.Numbering

namespace TreePattern

open Relation MatchM

section Spots

variable {α β γ : Type} {R : α → γ → β → Prop} {r : γ → γ → Prop} {as : List α}
  {hits : List (List β)}

/-- Lists whose entries have labels in increasing order, one list after the other: with the
position of its list in front of its label, each entry has its own spot, and the spots increase. -/
theorem exists_spots (h : List.Forall₂ (fun a bs ↦ ∃ labels : List γ, List.Forall₂ (R a) labels bs ∧
      labels.Pairwise r) as hits) :
    ∃ spots : List (ℕ × γ),
      List.Forall₂ (fun spot b ↦ ∃ a, as[spot.1]? = some a ∧ R a spot.2 b) spots hits.flatten ∧
        spots.Pairwise (Prod.Lex (· < ·) r) := by
  induction h with
  | nil => exact ⟨[], .nil, .nil⟩
  | @cons a bs as hits hbs _ ih =>
    obtain ⟨labels, hlabels, hsorted⟩ := hbs
    obtain ⟨spots, hspots, hincrease⟩ := ih
    refine ⟨labels.map (Prod.mk 0) ++ spots.map (Prod.map (· + 1) id), ?_, ?_⟩
    · rw [List.flatten_cons]
      apply List.rel_append
      · exact List.forall₂_map_left_iff.mpr (hlabels.imp fun label b hb ↦ ⟨a, rfl, hb⟩)
      · exact List.forall₂_map_left_iff.mpr (hspots.imp fun spot b hb ↦ hb)
    · rw [List.pairwise_append, List.pairwise_map, List.pairwise_map]
      refine ⟨hsorted.imp (.right 0), hincrease.imp fun hlex ↦ ?_, ?_⟩
      · cases hlex with
        | left _ _ hlt => exact .left _ _ (Nat.succ_lt_succ hlt)
        | right _ hr => exact .right _ hr
      · intro first hfirst later hlater
        obtain ⟨label, -, rfl⟩ := List.mem_map.mp hfirst
        obtain ⟨spot, -, rfl⟩ := List.mem_map.mp hlater
        exact .left _ _ (Nat.succ_pos spot.1)

end Spots

namespace Pattern

section Places

variable (p : Pattern) (view : View) (n : Node)

/-- How the sub-rules lead from a rule to a find at a node: by the positions, in the lists of
sub-rules, of the rules on the way. A literal and a search that denies its sub-rules find the node
themselves. -/
inductive FoundAt : PatternId → List ℕ → Find → Prop
  | literal {id : PatternId} {origin : PatternNode} {rule : LiteralRule} {f : Find} :
      p.get? id = some origin → origin.rule = .literal rule → f.node = n →
      p.Answers view id [n] [f] → FoundAt id [] f
  | denial {id : PatternId} {origin : PatternNode} {rule : SearchRule} :
      p.get? id = some origin → origin.rule = .search rule → rule.operator = .not →
      FoundAt id [] ⟨n, id, origin, origin.name, .empty⟩
  | inner {id q : PatternId} {origin : PatternNode} {rule : SearchRule} {i : ℕ} {place : List ℕ}
      {f : Find} :
      p.get? id = some origin → origin.rule = .search rule → rule.operator ≠ .not →
      rule.rules[i]? = some q → FoundAt q place f → FoundAt id (i :: place) (f.inherit origin.name)

def Orders (id : PatternId) (finds : List Find) : Prop :=
  ∃ places, List.Forall₂ (p.FoundAt view n id) places finds ∧ places.Pairwise (List.Lex (· < ·))

end Places

variable {p : Pattern} {view : View} {n : Node} {id : PatternId} {place : List ℕ} {f g : Find}

theorem FoundAt.node_eq (h : p.FoundAt view n id place f) : f.node = n := by
  induction h with
  | literal _ _ hn _ => exact hn
  | denial => rfl
  | inner _ _ _ _ _ ih => exact ih

/-- A place among the sub-rules leads to one find. -/
theorem FoundAt.unique (h : p.FoundAt view n id place f) (h' : p.FoundAt view n id place g) :
    f = g := by
  induction h generalizing g with
  | literal ho hr _ ha =>
    cases h' with
    | literal ho' hr' _ ha' => exact List.singleton_inj.mp (ha.unique ha')
    | denial ho' hr' =>
      rw [ho] at ho'
      cases ho'
      rw [hr] at hr'
      cases hr'
  | denial ho hr =>
    cases h' with
    | literal ho' hr' =>
      rw [ho] at ho'
      cases ho'
      rw [hr] at hr'
      cases hr'
    | denial ho' =>
      rw [ho] at ho'
      cases ho'
      rfl
  | inner ho hr _ hi _ ih =>
    cases h' with
    | inner ho' hr' _ hi' hf' =>
      rw [ho] at ho'
      cases ho'
      rw [hr] at hr'
      cases hr'
      rw [hi] at hi'
      cases hi'
      rw [ih hf']

theorem Orders.nil : p.Orders view n id [] := ⟨[], .nil, .nil⟩

theorem Orders.single (h : p.FoundAt view n id place f) : p.Orders view n id [f] :=
  ⟨[place], .cons h .nil, List.pairwise_singleton _ _⟩

theorem Orders.flatten {origin : PatternNode} {rule : SearchRule} {found : List (List Find)}
    (ho : p.get? id = some origin) (hr : origin.rule = .search rule) (hop : rule.operator ≠ .not)
    (h : List.Forall₂ (p.Orders view n) rule.rules found) :
    p.Orders view n id (found.flatten.map (Find.inherit origin.name)) := by
  obtain ⟨spots, hspots, hincrease⟩ := exists_spots h
  refine ⟨spots.map fun spot ↦ spot.1 :: spot.2, ?_, ?_⟩
  · rw [List.forall₂_map_left_iff, List.forall₂_map_right_iff]
    refine hspots.imp fun spot f hf ↦ ?_
    obtain ⟨q, hq, hf⟩ := hf
    exact .inner ho hr hop hq hf
  · rw [List.pairwise_map]
    refine hincrease.imp fun hlex ↦ ?_
    cases hlex with
    | left _ _ hlt => exact .rel hlt
    | right _ hlex => exact .cons hlex

end Pattern

/-- The rule is not a search that is not exact, nor are those that sub-rules lead to from it. -/
def Pattern.Stays (p : Pattern) (id : PatternId) : Prop :=
  ∀ q origin rule, ReflTransGen p.SubRule id q → p.get? q = some origin →
    origin.rule = .search rule → rule.exact = true

namespace Setting

variable {s : Setting} {find : Finder} {id : PatternId} {origin : PatternNode} {n : Node}
  {finds : List Find} {tally tally' : Tally}

theorem visit_orders {rule : SearchRule} (ho : s.pattern.get? id = some origin)
    (hr : origin.rule = .search rule)
    (hf : ∀ q ∈ rule.rules, Ends (find q [n]) (s.pattern.Orders s.view n q) fun _ ↦ True) :
    Ends (s.visit find id origin rule n) (s.pattern.Orders s.view n id) fun _ ↦ True := by
  refine (outcomes_forall₂ hf).bind fun found hfound ↦ ?_
  have hhits : rule.operator ≠ .not →
      s.pattern.Orders s.view n id (found.flatten.map (Find.inherit origin.name)) :=
    fun hop ↦ .flatten ho hr hop hfound
  cases hop : rule.operator with
  | anyOf | allOf | oneOf =>
    have hhits := hhits (by simp [hop])
    dsimp only
    split
    · exact (note_ends _).bind fun _ _ ↦ .pure hhits
    · exact .pure .nil
  | not =>
    refine .pure ?_
    split
    · exact .single (.denial ho hr hop)
    · exact .nil

theorem findAt_orders (hp : s.pattern.Sound) (hid : id < s.pattern.size)
    (hstays : s.pattern.Stays id) (n : Node) :
    Ends (s.findAt s.pattern.size id [n]) (s.pattern.Orders s.view n id) fun _ ↦ True := by
  revert hstays
  refine hp.induction (P := fun id ↦ s.pattern.Stays id → Ends (s.findAt s.pattern.size id [n])
    (s.pattern.Orders s.view n id) fun _ ↦ True) (fun id hid ih hstays ↦ ?_) hid
  obtain ⟨origin, ho⟩ := Pattern.get?_of_lt hid
  cases hr : origin.rule with
  | literal rule =>
    rw [findAt_literal hp ho hr]
    refine (literal_findsAt hp ho hr n).mono fun finds hfinds ↦ ?_
    cases hfinds with
    | hit _ hn _ ha => exact .single (.literal ho hr hn ha)
    | miss _ => exact .nil
  | search rule =>
    -- An exact search asks its sub-rules at the node it is at, where they are in order by
    -- induction.
    have hexact : rule.exact = true := hstays id origin rule .refl ho hr
    rw [findAt_size hp ho, apply_of_search hr, search_of_exact hexact, each_singleton]
    refine (charge_ends fun _ _ ↦ trivial).bind fun _ _ ↦ visit_orders ho hr fun q hq ↦ ?_
    have hsub : s.pattern.SubRule id q := ⟨origin, rule, ho, hr, hq⟩
    exact ih q hsub.refers fun r origin rule hreach ↦ hstays r origin rule (.head hsub hreach)

/-- A search that ends well visits nodes from the first one on, in pre-order. -/
theorem search_eq_ok {rule : SearchRule}
    (h : s.search find id origin rule [n] tally = (.ok finds, tally')) :
    ∃ nodes hits, nodes <+: n.preorder ∧ List.Forall₂ (fun x found ↦ ∃ before after,
        s.charged find id origin rule x before = (.ok found, after)) nodes hits ∧
      finds = hits.flatten := by
  cases he : rule.exact with
  | true =>
    rw [search_of_exact he] at h
    obtain ⟨hits, hhits, hfinds⟩ := each_eq_ok h
    refine ⟨[n], hits, ?_, hhits, hfinds⟩
    rw [Node.preorder_eq]
    exact ⟨_, rfl⟩
  | false =>
    rw [search_of_not_exact he] at h
    obtain ⟨hits, hhits, hfinds⟩ := descend_eq_ok h
    rw [List.flatMap_singleton] at hhits
    exact ⟨n.preorder, hits, List.prefix_refl _, hhits, hfinds⟩

end Setting

/-- What a search at the root of a pattern finds, if all searches that sub-rules lead to from it
are exact. Each find has a spot: the position in pre-order of its node, and the positions of the
sub-rules that lead to it. A spot among the sub-rules leads to one find, and the finds of a match
come in the order of their spots: by their nodes first, and at one node in lexicographic order. -/
theorem RawPattern.compiled_match_orders {raw : RawPattern} {p : Pattern} {origin : PatternNode}
    {rule : SearchRule} (compiled : raw.compile = .ok p) (root : p.get? Pattern.root = some origin)
    (search : origin.rule = .search rule)
    (inner : ∀ q origin rule, TransGen p.SubRule Pattern.root q → p.get? q = some origin →
      origin.rule = .search rule → rule.exact = true)
    {engine : Engine} {tree : SyntaxTree} {found : Matches}
    (h : engine.execute tree p = .ok found) :
    (∀ n place f g, p.FoundAt tree.view n Pattern.root place f →
      p.FoundAt tree.view n Pattern.root place g → f = g) ∧
    ∃ spots : List (ℕ × List ℕ),
      List.Forall₂ (fun spot f ↦ tree.node? spot.1 = some f.node ∧
        p.FoundAt tree.view f.node Pattern.root spot.2 f) spots found.finds ∧
      spots.Pairwise (Prod.Lex (· < ·) (List.Lex (· < ·))) ∧
      (tree.root.InPreorder → (found.finds.map fun f ↦ f.node.index).Pairwise (· ≤ ·)) := by
  refine ⟨fun _ _ _ _ hf hg ↦ hf.unique hg, ?_⟩
  have hp := compile_sound compiled
  obtain ⟨finds, tally, hrun, rfl⟩ := Engine.execute_eq_ok.mp h
  let s := engine.setting false tree.view p
  let attempt := s.charged (s.findAt p.size) Pattern.root origin rule
  have hattempt : ∀ n, Ends (attempt n) (p.Orders tree.view n Pattern.root) fun _ ↦ True := by
    intro n
    refine (Setting.charge_ends fun _ _ ↦ trivial).bind fun _ _ ↦
      Setting.visit_orders (s := s) root search fun q hq ↦ ?_
    have hsub : p.SubRule Pattern.root q := ⟨origin, rule, root, search, hq⟩
    exact Setting.findAt_orders (s := s) hp (hp.valid _ q hsub.refers)
      (fun r origin rule hreach ↦ inner r origin rule (.head' hsub hreach)) n
  rw [Engine.run_eq_search hp root search] at hrun
  obtain ⟨nodes, hits, ⟨others, hnodes⟩, hhits, rfl⟩ := Setting.search_eq_ok hrun
  have horders : List.Forall₂ (fun n found ↦ p.Orders tree.view n Pattern.root found)
      nodes hits := by
    refine hhits.imp fun n found hfound ↦ ?_
    obtain ⟨before, after, hfound⟩ := hfound
    exact (hattempt n).of_ok hfound
  obtain ⟨spots, hspots, hincrease⟩ := exists_spots horders
  have hplaced : List.Forall₂ (fun spot f ↦ tree.node? spot.1 = some f.node ∧
      p.FoundAt tree.view f.node Pattern.root spot.2 f) spots hits.flatten := by
    refine hspots.imp fun spot f hf ↦ ?_
    obtain ⟨n, hn, hf⟩ := hf
    obtain ⟨hlt, -⟩ := List.getElem?_eq_some_iff.mp hn
    rw [hf.node_eq, SyntaxTree.node?, ← hnodes, List.getElem?_append_left hlt]
    exact ⟨hn, hf⟩
  refine ⟨spots, hplaced, hincrease, fun hnumbered ↦ ?_⟩
  have hindex : spots.map Prod.fst = hits.flatten.map fun f ↦ f.node.index :=
    map_eq_map_of_forall₂ (fun spot f hf ↦ (hnumbered.index_eq hf.1).symm) hplaced
  rw [← hindex, List.pairwise_map]
  refine hincrease.imp fun hlex ↦ ?_
  cases hlex with
  | left _ _ hlt => exact hlt.le
  | right _ _ => exact le_rfl

namespace Sample

def stayingPattern : RawPattern :=
  let (ident, b) := Builder.empty.add ⟨some "ident", .literal ⟨some "Ident", []⟩⟩
  let (named, b) := b.add ⟨some "named", .literal ⟨none, [textConstraint "Name" "print"]⟩⟩
  let (both, b) := b.add ⟨none, .search ⟨[named, ident], true, .allOf⟩⟩
  let (root, b) := b.add ⟨none, .search ⟨[ident, both], false, .anyOf⟩⟩
  b.build root

def stayingRules : Pattern :=
  ⟨#[⟨none, .search ⟨[1, 2], false, .anyOf⟩⟩, ⟨some "ident", .literal ⟨some "Ident", []⟩⟩,
    ⟨none, .search ⟨[3, 1], true, .allOf⟩⟩,
    ⟨some "named", .literal ⟨none, [textConstraint "Name" "print"]⟩⟩]⟩

theorem compile_stayingPattern : stayingPattern.compile = .ok stayingRules := by
  have ho : stayingPattern.discoveryOrder = .ok [3, 0, 2, 1] := by
    change RawPattern.discover _ [3] [⟨3, [0, 2]⟩] = _
    rw [RawPattern.discover_new (by decide) (by decide) rfl]
    change RawPattern.discover _ [0, 3] [⟨0, []⟩, ⟨3, [2]⟩] = _
    rw [RawPattern.discover, RawPattern.discover_new (by decide) (by decide) rfl]
    change RawPattern.discover _ [2, 0, 3] [⟨2, [1, 0]⟩, ⟨3, []⟩] = _
    rw [RawPattern.discover_new (by decide) (by decide) rfl]
    change RawPattern.discover _ [1, 2, 0, 3] [⟨1, []⟩, ⟨2, [0]⟩, ⟨3, []⟩] = _
    rw [RawPattern.discover, RawPattern.discover_old (by decide) (by decide), RawPattern.discover,
      RawPattern.discover, RawPattern.discover]
    rfl
  rw [RawPattern.compile, ho]
  rfl

theorem stays_stayingRules {q : PatternId} {origin : PatternNode} {rule : SearchRule}
    (h : TransGen stayingRules.SubRule Pattern.root q) (ho : stayingRules.get? q = some origin)
    (hr : origin.rule = .search rule) : rule.exact = true := by
  match q with
  | 0 =>
    have hcycle : TransGen stayingRules.Refers Pattern.root Pattern.root :=
      h.lift id fun _ _ ↦ Pattern.SubRule.refers
    exact absurd hcycle ((RawPattern.compile_sound compile_stayingPattern).acyclic _)
  | 1 | 3 =>
    cases ho
    cases hr
  | 2 =>
    cases ho
    cases hr
    rfl
  | q + 4 => cases ho

end Sample

theorem RawPattern.compiled_match_orders_staying :
    ∃ (found : Matches) (spots : List (ℕ × List ℕ)),
      (⟨some 6⟩ : Engine).execute (Sample.callTree "print") Sample.stayingRules = .ok found ∧
      found.finds.length = 3 ∧
      List.Forall₂ (fun spot f ↦ (Sample.callTree "print").node? spot.1 = some f.node ∧
        Sample.stayingRules.FoundAt .keyed f.node Pattern.root spot.2 f) spots found.finds ∧
      spots.Pairwise (Prod.Lex (· < ·) (List.Lex (· < ·))) ∧
      (found.finds.map fun f ↦ f.node.index).Pairwise (· ≤ ·) := by
  have hlength : ((⟨some 6⟩ : Engine).execute (Sample.callTree "print")
      Sample.stayingRules).toOption.map (·.finds.length) = some 3 := by decide +kernel
  obtain ⟨found, hrun⟩ : ∃ found, (⟨some 6⟩ : Engine).execute (Sample.callTree "print")
      Sample.stayingRules = .ok found := by
    generalize (⟨some 6⟩ : Engine).execute _ _ = outcome at hlength
    cases outcome with
    | error e => cases hlength
    | ok found => exact ⟨found, rfl⟩
  rw [hrun] at hlength
  obtain ⟨-, spots, hspots, hincrease, hindex⟩ :=
    compiled_match_orders Sample.compile_stayingPattern rfl rfl
      (fun _ _ _ ↦ Sample.stays_stayingRules) hrun
  exact ⟨found, spots, hrun, Option.some.inj hlength, hspots, hincrease,
    hindex (Node.inPreorder_number _)⟩

end TreePattern

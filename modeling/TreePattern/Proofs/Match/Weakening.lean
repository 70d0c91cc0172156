import TreePattern.Proofs.Match.Naming
import TreePattern.Proofs.Match.Unfolding
import TreePattern.Proofs.Pattern.Weakening

namespace TreePattern

open MatchM

section Keeps

variable {α β γ δ : Type} {R : α → β → Prop} {S : γ → δ → Prop} {x : MatchM α} {y : MatchM β}

def Keeps (R : α → β → Prop) (x : MatchM α) (y : MatchM β) : Prop :=
  ∀ tally tally' a b, (x tally).1 = .ok a → (y tally').1 = .ok b → R a b

namespace Keeps

theorem pure {a : α} {b : β} (h : R a b) : Keeps R (Pure.pure a) (Pure.pure b) := by
  intro _ _ _ _ ha hb
  cases ha
  cases hb
  exact h

theorem throw (e : MatchError) :
    Keeps R (MonadExcept.throw e : MatchM α) (MonadExcept.throw e : MatchM β) :=
  fun _ _ _ _ ha ↦ nomatch ha

theorem exists_of_bind {f : α → MatchM γ} {tally : Tally} {c : γ}
    (h : ((x >>= f) tally).1 = .ok c) :
    ∃ a tally', (x tally).1 = .ok a ∧ (f a tally').1 = .ok c := by
  obtain ⟨a, tally', hx, hf⟩ := bind_eq_ok.mp (Prod.ext h rfl)
  exact ⟨a, tally', congrArg Prod.fst hx, congrArg Prod.fst hf⟩

theorem bind {f : α → MatchM γ} {g : β → MatchM δ} (h : Keeps R x y)
    (hf : ∀ a b, R a b → Keeps S (f a) (g b)) : Keeps S (x >>= f) (y >>= g) := by
  intro tally tally' c d hc hd
  obtain ⟨a, tally₁, ha, hc⟩ := exists_of_bind hc
  obtain ⟨b, tally₁', hb, hd⟩ := exists_of_bind hd
  exact hf a b (h tally tally' a b ha hb) tally₁ tally₁' c d hc hd

/-- The first match may have a part of its own. -/
theorem bind_left {f : α → MatchM γ} {y : MatchM δ} (x : MatchM α) (hf : ∀ a, Keeps S (f a) y) :
    Keeps S (x >>= f) y := by
  intro tally tally' c d hc hd
  obtain ⟨a, tally₁, -, hc⟩ := exists_of_bind hc
  exact hf a tally₁ tally' c d hc hd

theorem pure_left {a : α} (h : ∀ b, R a b) : Keeps R (Pure.pure a) y := by
  intro _ _ _ b ha _
  cases ha
  exact h b

def comparison : Comparison where
  rel := Keeps
  pure := Keeps.pure
  bind := Keeps.bind
  throw := Keeps.throw

theorem access (result : Except AccessError α) :
    Keeps Eq (Setting.access result) (Setting.access result) :=
  Comparison.access_same (c := comparison) fun _ _ ↦ rfl

theorem unit (x y : MatchM Unit) : Keeps (fun _ _ ↦ True) x y :=
  fun _ _ _ _ _ _ ↦ trivial

end Keeps

end Keeps

namespace Find

def label (f : Find) : Node × Option String :=
  (f.node, f.name)

/-- The finds of one list are among those of another one, in the same order, as far as their nodes
and names tell. -/
def Among (finds others : List Find) : Prop :=
  (finds.map label).Sublist (others.map label)

variable {finds others finds' others' : List Find} {found found' : List (List Find)}

theorem Among.nil : Among [] others :=
  List.nil_sublist _

theorem Among.append (h : Among finds finds') (h' : Among others others') :
    Among (finds ++ others) (finds' ++ others') := by
  unfold Among
  rw [List.map_append, List.map_append]
  exact List.Sublist.append h h'

theorem Among.flatten (h : List.Forall₂ Among found found') :
    Among found.flatten found'.flatten := by
  induction h with
  | nil => exact .nil
  | cons hf _ ih => exact hf.append ih

theorem Among.ne_nil (h : Among finds others) (hf : finds ≠ []) : others ≠ [] := by
  rintro rfl
  exact hf (List.map_eq_nil_iff.mp (List.sublist_nil.mp h))

theorem Among.inherit (h : Among finds others) (name : Option String) :
    Among (finds.map (Find.inherit name)) (others.map (Find.inherit name)) := by
  have hlabel : label ∘ Find.inherit name = (fun l ↦ (l.1, l.2.or name)) ∘ label := rfl
  unfold Among
  rw [List.map_map, List.map_map, hlabel, ← List.map_map, ← List.map_map]
  exact List.Sublist.map _ h

theorem countP_le_of_among (h : List.Forall₂ Among found found') :
    found.countP (fun finds ↦ !finds.isEmpty) ≤ found'.countP fun finds ↦ !finds.isEmpty := by
  induction h with
  | nil => exact le_rfl
  | @cons finds others found found' hf _ ih =>
    rw [List.countP_cons, List.countP_cons]
    cases finds with
    | nil => exact ih.trans (Nat.le_add_right _ _)
    | cons f fs =>
      have hne := hf.ne_nil (List.cons_ne_nil f fs)
      simpa [hne] using ih

end Find

open Find

def Finder.Within (find find' : Finder) : Prop :=
  ∀ id ns, Keeps Among (find id ns) (find' id ns)

namespace Setting

def MetToo {α β : Type} (found : Option α) (found' : Option β) : Prop :=
  found.isSome → found'.isSome

variable {s s' : Setting} {find find' : Finder} {id : PatternId} {origin origin' : PatternNode}
  {n : Node} {captures captures' : Captures}

theorem metToo_none {α β : Type} (found : Option β) : MetToo (none : Option α) found :=
  fun h ↦ nomatch h

theorem metToo_some {α β : Type} (a : α) (b : β) : MetToo (some a) (some b) :=
  fun _ ↦ rfl

theorem positions_keeps (hf : find.Within find') (pairs : List (PatternId × Node)) :
    Keeps MetToo (positions find pairs captures) (positions find' pairs captures') := by
  induction pairs generalizing captures captures' with
  | nil => exact .pure (metToo_some _ _)
  | cons pair rest ih =>
    refine (hf pair.1 [pair.2]).bind fun finds finds' hfinds ↦ ?_
    cases finds with
    | nil => exact .pure_left metToo_none
    | cons f fs =>
      cases finds' with
      | nil => exact absurd rfl (hfinds.ne_nil (List.cons_ne_nil f fs))
      | cons f' fs' => exact ih

theorem constrain_keeps (hf : find.Within find') (v : Value) (constraint : Constraint) :
    Keeps MetToo (constrain find v captures constraint)
      (constrain find' v captures' constraint) := by
  cases constraint with
  | scalar expected =>
    cases v with
    | scalar actual =>
      refine .pure ?_
      split
      · exact metToo_some _ _
      · exact metToo_none _
    | node child => exact .pure (metToo_none _)
    | nodes children => exact .pure (metToo_none _)
  | pattern q =>
    refine (hf q v.nodeList).bind fun finds finds' hfinds ↦ ?_
    cases finds with
    | nil => exact .pure_left metToo_none
    | cons f fs =>
      cases finds' with
      | nil => exact absurd rfl (hfinds.ne_nil (List.cons_ne_nil f fs))
      | cons f' fs' => exact .pure (metToo_some _ _)
  | sequence ids =>
    cases v with
    | scalar actual => exact .pure (metToo_none _)
    | node child => exact .pure (metToo_none _)
    | nodes children =>
      unfold constrain
      dsimp only
      split
      · refine (positions_keeps hf (ids.zip children)).bind fun found found' h ↦ .pure ?_
        unfold MetToo
        rwa [Option.isSome_map, Option.isSome_map]
      · exact .pure (metToo_none _)

/-- A literal with fewer attributes meets what is left of its constraints. -/
theorem meets_weakened (hv : s.view = s'.view) (hf : find.Within find')
    {weak attributes : List (String × Constraint)} (h : weak.Sublist attributes) :
    Keeps MetToo (s.meets find id n attributes captures) (s'.meets find' id n weak captures') := by
  induction h generalizing captures captures' with
  | slnil => exact .pure (metToo_some _ _)
  | cons entry _ ih =>
    obtain ⟨name, constraint⟩ := entry
    refine .bind_left _ fun o ↦ ?_
    cases o with
    | none => exact .bind_left _ fun _ ↦ .pure_left metToo_none
    | some v =>
      refine .bind_left _ fun found ↦ ?_
      cases found with
      | none => exact .bind_left _ fun _ ↦ .pure_left metToo_none
      | some captures => exact ih
  | cons_cons entry _ ih =>
    obtain ⟨name, constraint⟩ := entry
    have hlookup : Keeps Eq (access (s.view.lookup n name)) (access (s'.view.lookup n name)) :=
      hv ▸ Keeps.access _
    refine hlookup.bind fun o o' ho ↦ ?_
    subst ho
    cases o with
    | none => exact .bind_left _ fun _ ↦ .pure_left metToo_none
    | some v =>
      refine (constrain_keeps hf v constraint).bind fun found found' hfound ↦ ?_
      cases found with
      | none => exact .bind_left _ fun _ ↦ .pure_left metToo_none
      | some captures =>
        cases found' with
        | none => exact nomatch hfound rfl
        | some captures' => exact ih

theorem hasKind_weakened {weak rule : LiteralRule} (h : weak.Weakens rule) (n : Node) :
    Keeps (fun b b' ↦ b = true → b' = true) (hasKind rule n) (hasKind weak n) := by
  unfold hasKind
  rcases h.kind with hk | hk
  · rw [hk]
    intro tally tally' b b' _ hb' _
    cases hb'
    rfl
  · rw [hk]
    cases rule.kind with
    | none => exact .pure fun h ↦ h
    | some kind =>
      refine (Keeps.access n.kind).bind fun actual actual' ha ↦ .pure fun h ↦ ?_
      rwa [← ha]

theorem literal_weakened (hv : s.view = s'.view) (hf : find.Within find') {weak rule : LiteralRule}
    (h : weak.Weakens rule) (hname : origin'.name = origin.name) (n : Node) :
    Keeps Among (s.literal find id origin rule n) (s'.literal find' id origin' weak n) := by
  refine (hasKind_weakened h n).bind fun b b' hb ↦ ?_
  cases b with
  | false => exact .pure_left fun _ ↦ .nil
  | true =>
    cases hb rfl
    refine (meets_weakened hv hf h.attributes).bind fun found found' hfound ↦ ?_
    cases found with
    | none => exact .pure_left fun _ ↦ .nil
    | some captures =>
      cases found' with
      | none => exact nomatch hfound rfl
      | some captures' =>
        refine .pure ?_
        simp [Among, label, hname]

theorem outcomes_keeps (hf : find.Within find') (ids : List PatternId) :
    Keeps (fun found found' ↦ List.Forall₂ Among found found' ∧ found'.length = ids.length)
      (outcomes find n ids) (outcomes find' n ids) := by
  induction ids with
  | nil => exact .pure ⟨.nil, rfl⟩
  | cons q rest ih =>
    refine (hf q [n]).bind fun finds finds' hfinds ↦ ih.bind fun found found' hfound ↦ .pure ?_
    exact ⟨.cons hfinds hfound.1, congrArg (· + 1) hfound.2⟩

theorem contribute_keeps {hits hits' : List Find} (h : Among hits hits') {c c' : Prop} [Decidable c]
    [Decidable c'] (hc : c → c') {event event' : TraceEvent} :
    Keeps Among
      (if c then (do
        s.note event
        return hits)
      else return [])
      (if c' then (do
        s'.note event'
        return hits')
      else return []) := by
  by_cases hcond : c
  · rw [if_pos hcond, if_pos (hc hcond)]
    exact (Keeps.unit _ _).bind fun _ _ _ ↦ .pure h
  · rw [if_neg hcond]
    exact .pure_left fun _ ↦ .nil

/-- Where more sub-rules hold, a search for some or for all of them contributes no less. -/
theorem visit_weakened (hf : find.Within find') {rule : SearchRule}
    (hop : rule.operator = .anyOf ∨ rule.operator = .allOf) (hname : origin'.name = origin.name)
    (n : Node) :
    Keeps Among (s.visit find id origin rule n) (s'.visit find' id origin' rule n) := by
  refine (outcomes_keeps hf rule.rules).bind fun found found' h ↦ ?_
  obtain ⟨hfound, hlength⟩ := h
  have hhits : Among (found.flatten.map (Find.inherit origin.name))
      (found'.flatten.map (Find.inherit origin'.name)) := by
    rw [hname]
    exact (Among.flatten hfound).inherit origin.name
  have hle := countP_le_of_among hfound
  have hall : found.countP (fun finds ↦ !finds.isEmpty) = rule.rules.length →
      found'.countP (fun finds ↦ !finds.isEmpty) = rule.rules.length := by
    intro h
    rw [h] at hle
    exact le_antisymm (hlength ▸ List.countP_le_length) hle
  rcases hop with hop | hop
  · simp only [hop]
    exact contribute_keeps hhits fun h ↦ h.trans_le hle
  · simp only [hop]
    exact contribute_keeps hhits hall

variable {attempt attempt' : Node → MatchM (List Find)}

theorem each_keeps (ha : ∀ n, Keeps Among (attempt n) (attempt' n)) (ns : List Node) :
    Keeps Among (each attempt ns) (each attempt' ns) := by
  induction ns with
  | nil => exact .pure .nil
  | cons n rest ih =>
    refine (ha n).bind fun hits hits' hh ↦ ih.bind fun others others' ho ↦ .pure ?_
    exact hh.append ho

theorem descend_keeps (hv : s.view = s'.view) (ha : ∀ n, Keeps Among (attempt n) (attempt' n))
    (ns : List Node) : Keeps Among (s.descend attempt ns) (s'.descend attempt' ns) := by
  induction ns using Node.forest_induction with
  | nil =>
    rw [descend_nil, descend_nil]
    exact .pure .nil
  | cons n rest ihc ihr =>
    rw [descend_cons, descend_cons]
    have hchildren : Keeps (fun a b ↦ a = n.children ∧ b = a) (access (s.view.children n))
        (access (s'.view.children n)) := by
      rw [← hv]
      exact Comparison.access_same (c := Keeps.comparison) fun children h ↦
        ⟨View.children_eq h, rfl⟩
    refine (ha n).bind fun hits hits' hh ↦ hchildren.bind fun children children' hc ↦ ?_
    obtain ⟨rfl, rfl⟩ := hc
    refine ihc.bind fun below below' hb ↦ ihr.bind fun others others' ho ↦ .pure ?_
    exact hh.append (hb.append ho)

theorem apply_weakened (hv : s.view = s'.view) (hf : find.Within find')
    (hw : origin'.Weakens origin)
    (hop : ∀ rule, origin.rule = .search rule → rule.operator = .anyOf ∨ rule.operator = .allOf)
    (ns : List Node) :
    Keeps Among (s.apply find id origin ns) (s'.apply find' id origin' ns) := by
  obtain ⟨hname, hrule⟩ := hw
  rcases hr : origin.rule with rule | rule
  · rcases hr' : origin'.rule with weak | weak
    · rw [hr, hr'] at hrule
      cases hrule with
      | literal h =>
        rw [apply_of_literal hr, apply_of_literal hr']
        exact each_keeps (literal_weakened hv hf h hname) ns
    · rw [hr, hr'] at hrule
      cases hrule
  · rcases hr' : origin'.rule with weak | weak
    · rw [hr, hr'] at hrule
      cases hrule
    · rw [hr, hr'] at hrule
      cases hrule with
      | search rule =>
        have hcharged : ∀ n, Keeps Among (s.charged find id origin rule n)
            (s'.charged find' id origin' rule n) :=
          fun n ↦ (Keeps.unit _ _).bind fun _ _ _ ↦ visit_weakened hf (hop rule hr) hname n
        rw [apply_of_search hr, apply_of_search hr']
        cases he : rule.exact with
        | true =>
          rw [search_of_exact he, search_of_exact he]
          exact each_keeps hcharged ns
        | false =>
          rw [search_of_not_exact he, search_of_not_exact he]
          exact descend_keeps hv hcharged ns

theorem findAt_weakened (s s' : Setting) (hv : s.view = s'.view) (hw : s'.pattern.Weakens s.pattern)
    (hop : s.pattern.Positive) (depth : ℕ) : (s.findAt depth).Within (s'.findAt depth) := by
  induction depth with
  | zero => exact fun id ns ↦ .throw _
  | succ depth ih =>
    intro id ns
    have hrel := hw id
    have hoperators := hop id
    unfold findAt
    generalize s'.pattern.get? id = o' at hrel ⊢
    generalize s.pattern.get? id = o at hrel hoperators ⊢
    cases hrel with
    | none => exact .throw _
    | some hrel => exact apply_weakened hv ih hrel (fun rule ↦ hoperators _ rule rfl) ns

end Setting

theorem Find.label_eq_of_erase_eq {f g : Find} (h : f.erase = g.erase) : f.label = g.label := by
  obtain ⟨⟩ := f
  obtain ⟨⟩ := g
  simp only [erase, Find.mk.injEq] at h
  exact Prod.ext h.1 h.2.2.2.1

/-- Patterns that unfold to the same find the same nodes under the same names. -/
theorem Setting.findAt_labels {s t : Setting} (hv : s.view = t.view) (hl : s.limit = t.limit)
    (ht : s.traced = t.traced) {i j : PatternId}
    (h : Bisimilar s.pattern.get? t.pattern.get? i j) {depth : ℕ} {ns : List Node}
    {finds : List Find} {tally : Tally} (hrun : t.findAt depth j ns .zero = (.ok finds, tally)) :
    ∃ others, (s.findAt depth i ns .zero).1 = .ok others ∧
      others.map Find.label = finds.map Find.label := by
  have hns : List.Forall₂ Eq ns ns := List.forall₂_same.mpr fun _ _ ↦ rfl
  obtain ⟨hend, -⟩ := findAt_lockstep hv hl ht (fun _ _ ↦ Bisimilar.sameSlots) depth i j ns ns h hns
    .zero .zero ⟨rfl, .nil⟩
  rw [hrun] at hend
  generalize (s.findAt depth i ns .zero).1 = result at hend ⊢
  cases hend with
  | ok hsame => exact ⟨_, rfl, map_eq_map_of_forall₂ (fun _ _ ↦ Find.label_eq_of_erase_eq) hsame⟩

/-- What a sound pattern finds is among what a weaker one finds, whatever the numbers of its
rules. -/
theorem Setting.findAt_among {s t : Setting} (hv : s.view = t.view) (hl : s.limit = t.limit)
    (ht : s.traced = t.traced) (hp : s.pattern.Sound) (hq : t.pattern.Sound)
    (positive : s.pattern.Positive) {weak : Pattern} (weakens : weak.Weakens s.pattern)
    (h : Bisimilar weak.get? t.pattern.get? Pattern.root Pattern.root) {ns : List Node}
    {finds finds' : List Find} {tally tally' : Tally}
    (hrun : s.findAt s.pattern.size Pattern.root ns .zero = (.ok finds, tally))
    (hrun' : t.findAt t.pattern.size Pattern.root ns .zero = (.ok finds', tally')) :
    Find.Among finds finds' := by
  let w : Setting := ⟨s.view, weak, s.limit, s.traced⟩
  -- All matches may go on to one depth, which is enough for both sound patterns.
  let depth := max s.pattern.size t.pattern.size
  have hdepth : s.findAt s.pattern.size Pattern.root = s.findAt depth Pattern.root :=
    findAt_eq_of_size_le hp hp.nonempty le_rfl (le_max_left _ _)
  have hdepth' : t.findAt t.pattern.size Pattern.root = t.findAt depth Pattern.root :=
    findAt_eq_of_size_le hq hq.nonempty le_rfl (le_max_right _ _)
  rw [hdepth] at hrun
  rw [hdepth'] at hrun'
  obtain ⟨between, hbetween, hlabels⟩ := findAt_labels (s := w) hv hl ht h hrun'
  have hwithin : (s.findAt depth).Within (w.findAt depth) :=
    findAt_weakened s w rfl weakens positive _
  have hamong : Find.Among finds between :=
    hwithin Pattern.root ns .zero .zero finds between (congrArg Prod.fst hrun) hbetween
  rwa [Find.Among, hlabels] at hamong

/-- Weakening a pattern that does not deny anything loses no match. If literals are left without
their kinds or without some of their attributes, the pattern can be compiled again. On every tree
that can be read, both patterns can be matched without limit, and the nodes that the first one
finds, with their names, are found by the other one in the same order. -/
theorem RawPattern.compiled_match_weakens {raw : RawPattern} {p weak : Pattern}
    (compiled : raw.compile = .ok p) (positive : p.Positive) (weakens : weak.Weakens p) :
    ∃ q, weak.toRaw.compile = .ok q ∧
      ∀ tree : SyntaxTree, (∀ x, tree.root.Contains x → tree.view.Reads x) →
        ∃ found found', (⟨none⟩ : Engine).execute tree p = .ok found ∧
          (⟨none⟩ : Engine).execute tree q = .ok found' ∧
          (found.finds.map Find.label).Sublist (found'.finds.map Find.label) := by
  have hp := compile_sound compiled
  obtain ⟨q, hcompile⟩ := (weakens.sound hp).exists_compile
  have hq := compile_sound hcompile
  have hget : weak.toRaw.get? = weak.get? := funext weak.get?_toRaw
  have hbisimilar : Bisimilar weak.get? q.get? Pattern.root Pattern.root :=
    hget ▸ compile_bisimilar hcompile
  refine ⟨q, hcompile, fun tree hr ↦ ?_⟩
  have hroots : ∀ n ∈ [tree.root], ∀ x, n.Contains x → tree.view.Reads x :=
    fun n hn ↦ List.mem_singleton.mp hn ▸ hr
  let s := (⟨none⟩ : Engine).setting false tree.view p
  let t := (⟨none⟩ : Engine).setting false tree.view q
  obtain ⟨finds, tally, hrun⟩ :=
    Setting.findAt_succeeds (s := s) hp hp.nonempty le_rfl rfl hroots .zero
  obtain ⟨finds', tally', hrun'⟩ :=
    Setting.findAt_succeeds (s := t) hq hq.nonempty le_rfl rfl hroots .zero
  have hamong : Find.Among finds finds' :=
    Setting.findAt_among (s := s) (t := t) rfl rfl rfl hp hq positive weakens hbisimilar hrun hrun'
  exact ⟨⟨tree, finds⟩, ⟨tree, finds'⟩, Engine.execute_eq_ok.mpr ⟨finds, tally, hrun, rfl⟩,
    Engine.execute_eq_ok.mpr ⟨finds', tally', hrun', rfl⟩, hamong⟩

namespace Sample

def looseRules : Pattern :=
  ⟨#[⟨some "call", .search ⟨[1], true, .anyOf⟩⟩,
    ⟨none, .literal ⟨some "CallExpr", [("Args", .pattern 2)]⟩⟩, ⟨none, .literal ⟨none, []⟩⟩,
    ⟨some "argument", .search ⟨[4], true, .anyOf⟩⟩, ⟨none, .literal ⟨some "BasicLit", []⟩⟩]⟩

theorem positive_nestedRules : nestedRules.Positive := by
  intro id origin rule ho hr
  have hm : origin ∈ nestedRules.nodes.toList := Array.mem_toList_iff.mpr (Array.mem_of_getElem? ho)
  simp only [nestedRules, List.mem_cons, List.not_mem_nil, or_false] at hm
  rcases hm with rfl | rfl | rfl | rfl | rfl
  all_goals
    cases hr
    try exact .inl rfl

theorem looseRules_weakens : looseRules.Weakens nestedRules := by
  intro id
  match id with
  | 0 => exact .some ⟨rfl, .search _⟩
  | 1 => exact .some ⟨rfl, .literal ⟨.inr rfl, .refl _⟩⟩
  | 2 => exact .some ⟨rfl, .literal ⟨.inl rfl, List.nil_sublist _⟩⟩
  | 3 => exact .some ⟨rfl, .search _⟩
  | 4 => exact .some ⟨rfl, .literal ⟨.inr rfl, .refl _⟩⟩
  | _ + 5 => exact .none

end Sample

theorem RawPattern.compiled_match_weakens_nested :
    Sample.nestedPattern.compile = .ok Sample.nestedRules ∧ Sample.nestedRules.Positive ∧
      Sample.looseRules.Weakens Sample.nestedRules ∧
      ∃ q found', Sample.looseRules.toRaw.compile = .ok q ∧
        (⟨none⟩ : Engine).execute Sample.nestedTree q = .ok found' ∧
        (Sample.nestedTree.root, some "call") ∈ found'.finds.map Find.label := by
  have hwhole : Sample.nestedTree.root.preorder.all Node.whole = true := by decide +kernel
  have hreads : ∀ x, Sample.nestedTree.root.Contains x → Sample.nestedTree.view.Reads x :=
    fun x hx ↦ x.reads_of_whole (List.all_eq_true.mp hwhole x (Node.mem_preorder.mpr hx)) _
  obtain ⟨q, hq, hmatch⟩ := compiled_match_weakens Sample.compile_nestedPattern
    Sample.positive_nestedRules Sample.looseRules_weakens
  obtain ⟨found, found', hfound, hfound', hsub⟩ := hmatch Sample.nestedTree hreads
  have hrun : ∃ f, (⟨none⟩ : Engine).execute Sample.nestedTree Sample.nestedRules =
      .ok ⟨Sample.nestedTree, [f]⟩ ∧ f.label = (Sample.nestedTree.root, some "call") :=
    ⟨_, rfl, rfl⟩
  obtain ⟨f, hf, hlabel⟩ := hrun
  rw [hf] at hfound
  cases hfound
  refine ⟨Sample.compile_nestedPattern, Sample.positive_nestedRules, Sample.looseRules_weakens, q,
    found', hq, hfound', hsub.subset ?_⟩
  simp [hlabel]

end TreePattern

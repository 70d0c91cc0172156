import TreePattern.Proofs.Match.Correspondence
import TreePattern.Proofs.Match.Refinement
import TreePattern.Proofs.Pattern.Wrapping

namespace TreePattern

open Setting

def SameRule (x y : PatternId × PatternNode) : Prop :=
  Rule.Rel (fun _ _ ↦ True) (fun _ ↦ True) x.2.rule y.2.rule

namespace Setting

variable {s t : Setting} {I : PatternId → PatternId → Prop} {find : Finder} {n : Node}

/-- A visit with a single sub-rule finds what that one finds. -/
theorem charged_single (s : Setting) (find : Finder) (id q : PatternId) (origin : PatternNode)
    (exact : Bool) (n : Node) :
    s.charged find id origin ⟨[q], exact, .anyOf⟩ n = do
      s.charge
      let finds ← find q [n]
      if finds.isEmpty then return [] else do
        s.note (.nodeMatched id finds.length)
        return finds.map (Find.inherit origin.name) := by
  unfold charged visit
  simp only [outcomes, pure_bind, bind_assoc]
  congr
  funext _
  congr
  funext finds
  cases finds with
  | nil => simp
  | cons f fs => simp

variable {c : Comparison} {F : Find → Find → Prop} {find' : Finder} {i j k : PatternId}
  {name : Option String} {rule rule' : LiteralRule}

/-- An exact search around a literal finds at a node what the literal finds there, if charges and
notes go unnoticed. -/
theorem literal_rel_charged (hs : c.Reads s t I Eq fun _ ↦ True)
    (hF : Find.Filed I Eq (fun _ ↦ True) F) (hf : c.Finds I Eq F find find')
    (hcharge : c.rel Eq (pure ()) t.charge) (hnote : ∀ e, c.rel Eq (pure ()) (t.note e))
    (hi : c.Notes s t i k) (hr : Rule.Rel I (fun _ ↦ True) (.literal rule) (.literal rule'))
    (hmade : ∀ n captures captures', Groups.Rel F captures captures' →
      F ⟨n, i, ⟨name, .literal rule⟩, name, captures⟩
        ⟨n, k, ⟨none, .literal rule'⟩, name, captures'⟩)
    {outer : Finder} (houter : ∀ n, outer k [n] = t.literal find' k ⟨none, .literal rule'⟩ rule' n)
    (around : Rule) (n : Node) :
    c.rel (List.Forall₂ F) (s.literal find i ⟨name, .literal rule⟩ rule n)
      (t.charged outer j ⟨name, around⟩ ⟨[k], true, .anyOf⟩ n) := by
  have hliteral : c.rel (List.Forall₂ fun f g ↦ F f (g.inherit name))
      (s.literal find i ⟨name, .literal rule⟩ rule n)
      (t.literal find' k ⟨none, .literal rule'⟩ rule' n) :=
    Comparison.literal_rel_of_made hs hF hf hi hr rfl (hmade n)
  have hleft : s.literal find i ⟨name, .literal rule⟩ rule n =
      (pure () : MatchM Unit) >>= fun _ ↦ s.literal find i ⟨name, .literal rule⟩ rule n >>=
        fun finds ↦ (pure () : MatchM Unit) >>= fun _ ↦ pure finds := by
    simp only [pure_bind, bind_pure]
  rw [hleft, charged_single, houter]
  refine c.bind hcharge fun _ _ _ ↦ c.bind hliteral fun finds finds' hfinds ↦ ?_
  cases hfinds with
  | nil => exact c.pure .nil
  | cons hfg hrest =>
    refine c.bind (hnote _) fun _ _ _ ↦ c.pure ?_
    exact List.forall₂_map_right_iff.mpr (.cons hfg hrest)

/-- With enough depth, a match without limit finds the same with searches around literals. -/
theorem findAt_wraps (hv : s.view = t.view) (hl : s.limit = none) (hl' : t.limit = none)
    (hI : ∀ i j, I i j → SameOrWrapped s.pattern.get? t.pattern.get? I i j) {depth d : ℕ}
    (hd : 2 * depth ≤ d) :
    (Comparison.refinement (· = .tooDeep) fun _ _ ↦ True).Finds I Eq (Find.Corresponds Eq SameRule)
      (s.findAt depth) (t.findAt d) := by
  let c := Comparison.refinement (· = .tooDeep) fun _ _ ↦ True
  have hfree {x y : MatchM Unit} (hx : ∀ tally, (x tally).1 = .ok ())
      (hy : ∀ tally, (y tally).1 = .ok ()) : c.rel Eq x y :=
    (Lockstep.of_unit hx hy).refines
  have hreads : c.Reads s t I Eq fun _ ↦ True :=
    Comparison.reads_same hv (hfree (charge_fst hl) (charge_fst hl'))
      fun e e' _ ↦ hfree (note_fst e) (note_fst e')
  have hfiled : Find.Filed I Eq (fun _ ↦ True) (Find.Corresponds Eq SameRule) := by
    refine Find.filed_corresponds (fun _ _ h ↦ h) ?_
    intro i j origin origin' _ hr
    exact hr.2.mono (fun _ _ _ _ ↦ trivial) fun _ _ ↦ id
  -- A search and its literal are two levels deep where the literal alone is one.
  induction depth generalizing d with
  | zero => exact fun i j ns ms _ _ ↦ .of_error rfl fun _ ↦ rfl
  | succ depth ih =>
    obtain ⟨d, rfl⟩ : ∃ k, d = k + 2 := ⟨d - 2, by omega⟩
    intro i j ns ms hij hn
    cases hI i j hij with
    | same hsame =>
      obtain ⟨o, o', ho, ho', hr⟩ := hsame
      have hfinds := ih (d := d + 1) (by omega)
      unfold findAt
      rw [ho, ho']
      exact Comparison.apply_rel hreads hfiled hfinds hij hr hn
    | @wrapped k name rule rule' ho ho' hk hr =>
      have hfinds := ih (d := d) (by omega)
      have houter (n : Node) : t.findAt (d + 1) k [n] =
          t.literal (t.findAt d) k ⟨none, .literal rule'⟩ rule' n := by
        rw [findAt, hk]
        exact gather_singleton _ n
      unfold findAt
      rw [ho, ho']
      dsimp only
      rw [apply_of_literal rfl, apply_of_search rfl, search_of_exact rfl]
      refine Comparison.each_rel (c := c) ?_ hn
      rintro n _ rfl
      refine literal_rel_charged hreads hfiled hfinds (hfree (fun _ ↦ rfl) (charge_fst hl'))
        (fun e ↦ hfree (fun _ ↦ rfl) (note_fst e))
        (fun e e' _ ↦ hfree (note_fst e) (note_fst e')) hr ?_ houter _ n
      intro n captures captures' hc
      have hrule : SameRule (i, ⟨name, .literal rule⟩) (k, ⟨none, .literal rule'⟩) :=
        Rule.Rel.mono (fun _ _ _ _ ↦ trivial) (fun _ _ ↦ id) hr
      exact .intro rfl hrule rfl (Groups.rel_iff_alike.mp hc)

end Setting

/-- Searches around literals make no difference. Any chosen literals of a compiled pattern may be
replaced, wherever they are referred to, by exact searches that have their names and look for them
without a name: the pattern still compiles. And whenever one compiled pattern is another one with
such searches, matches without limit fail for the same reason on both, or find the same nodes in
the same order, under the same names, with the same captures at every depth, by rules that are the
same but for their numbers and their own names. -/
theorem RawPattern.compiled_match_wraps {raw : RawPattern} {p : Pattern}
    (compiled : raw.compile = .ok p) :
    (∀ chosen, ∃ q, (p.wrap chosen).compile = .ok q ∧
      Wraps p.get? q.get? Pattern.root Pattern.root) ∧
    (∀ (raw' : RawPattern) (q : Pattern), raw'.compile = .ok q →
      Wraps p.get? q.get? Pattern.root Pattern.root →
      ∀ (traced : Bool) (tree : SyntaxTree),
        SameEnd (List.Forall₂ (Find.Corresponds Eq SameRule))
          ((⟨none⟩ : Engine).run traced tree p).1 ((⟨none⟩ : Engine).run traced tree q).1) ∧
    ∀ q : Pattern, ∀ i j, Wraps p.get? q.get? i j ↔
      SameOrWrapped p.get? q.get? (Wraps p.get? q.get?) i j := by
  have hp := compile_sound compiled
  refine ⟨fun chosen ↦ ?_, fun raw' q hq h traced tree ↦ ?_, fun q i j ↦ wraps_iff⟩
  · obtain ⟨q, hq⟩ := hp.exists_compile_wrap chosen
    exact ⟨q, hq, hp.wraps_wrap hq⟩
  · have hq := compile_sound hq
    let s := (⟨none⟩ : Engine).setting traced tree.view p
    let t := (⟨none⟩ : Engine).setting traced tree.view q
    let depth := max q.size (2 * p.size)
    have hdepth : t.findAt q.size Pattern.root = t.findAt depth Pattern.root :=
      Setting.findAt_eq_of_size_le hq hq.nonempty le_rfl (le_max_left _ _)
    have hfinds := Setting.findAt_wraps (s := s) (t := t) rfl rfl rfl
      (fun i j hij ↦ wraps_iff.mp hij) (le_max_right q.size (2 * p.size)) Pattern.root Pattern.root
      [tree.root] [tree.root] h (.cons rfl .nil)
    obtain ⟨e, rfl, he⟩ | ⟨hend, -⟩ := hfinds .zero .zero trivial
    · -- The depth is enough for the pattern without the searches.
      have hexpected := Setting.findAt_error (s := s) hp hp.nonempty le_rfl (Prod.ext he rfl)
      obtain ⟨error, he⟩ | ⟨limit, -, he⟩ := hexpected <;> cases he
    · change SameEnd _ _ (t.findAt q.size Pattern.root [tree.root] .zero).1
      rw [hdepth]
      exact hend

namespace Sample

def wrappedPattern : RawPattern :=
  ⟨#[some ⟨none, .search ⟨[1], false, .anyOf⟩⟩, some ⟨some "ident", .search ⟨[3], true, .anyOf⟩⟩,
    some ⟨none, .search ⟨[1], false, .anyOf⟩⟩, some ⟨none, .literal ⟨some "Ident", []⟩⟩], 0⟩

def wrappedRules : Pattern :=
  ⟨#[⟨none, .search ⟨[1], false, .anyOf⟩⟩, ⟨some "ident", .search ⟨[2], true, .anyOf⟩⟩,
    ⟨none, .literal ⟨some "Ident", []⟩⟩]⟩

theorem wrap_identRules : (identRules.wrap fun _ ↦ true) = wrappedPattern := by
  simp [Pattern.wrap, identRules, PatternNode.wrapped, Pattern.root, Pattern.size, wrappedPattern]

theorem compile_wrappedPattern : wrappedPattern.compile = .ok wrappedRules := by
  have ho : wrappedPattern.discoveryOrder = .ok [0, 1, 3] := by
    change RawPattern.discover _ [0] [⟨0, [1]⟩] = _
    rw [RawPattern.discover_new (by decide) (by decide) rfl]
    change RawPattern.discover _ [1, 0] [⟨1, [3]⟩, ⟨0, []⟩] = _
    rw [RawPattern.discover_new (by decide) (by decide) rfl]
    change RawPattern.discover _ [3, 1, 0] [⟨3, []⟩, ⟨1, []⟩, ⟨0, []⟩] = _
    rw [RawPattern.discover, RawPattern.discover, RawPattern.discover, RawPattern.discover]
    rfl
  rw [RawPattern.compile, ho]
  rfl

end Sample

/-- The search around the literal hands its name on. -/
theorem RawPattern.compiled_match_wraps_ident :
    let run (p : Pattern) := (⟨none⟩ : Engine).run false (Sample.callTree "print") p
    Sample.identPattern.compile = .ok Sample.identRules ∧
      (Sample.identRules.wrap fun _ ↦ true).compile = .ok Sample.wrappedRules ∧
      SameEnd (List.Forall₂ (Find.Corresponds Eq SameRule)) (run Sample.identRules).1
        (run Sample.wrappedRules).1 ∧
      (run Sample.wrappedRules).1.toOption.map (List.map Find.name) = some [some "ident"] := by
  intro run
  obtain ⟨hwrap, hsame, -⟩ := compiled_match_wraps Sample.compile_identPattern
  obtain ⟨q, hq, hw⟩ := hwrap fun _ ↦ true
  have hwrapped := Sample.compile_wrappedPattern
  rw [← Sample.wrap_identRules] at hwrapped
  obtain rfl : Sample.wrappedRules = q := Except.ok.inj (hwrapped.symm.trans hq)
  have hends := hsame _ _ hq hw false (Sample.callTree "print")
  exact ⟨Sample.compile_identPattern, hq, hends, by decide +kernel⟩

end TreePattern

import TreePattern.Proofs.Match.Accumulation
import TreePattern.Proofs.Match.Naming
import TreePattern.Proofs.Match.Provenance
import TreePattern.Proofs.Match.Refinement

namespace TreePattern

open Relation MatchM

namespace Pattern

section Finds

variable (p : Pattern) (hp : p.Sound) (view : View)

def Answers (id : PatternId) (ns : List Node) (finds : List Find) : Prop :=
  ∀ traced tally, ((⟨view, p, none, traced⟩ : Setting).findAt p.size id ns tally).1 = .ok finds

inductive FindsAt (id : PatternId) (n : Node) : List Find → Prop
  | hit {f : Find} : p.Satisfies hp id n → f.node = n → f.pattern = id → p.Answers view id [n] [f] →
      FindsAt id n [f]
  | miss : ¬ p.Satisfies hp id n → FindsAt id n []

/-- What a rule finds at a list of nodes: a literal at each of the nodes in turn, a search as a
whole. -/
inductive FindsAmong (id : PatternId) (ns : List Node) : List Find → Prop
  | literal {origin : PatternNode} {rule : LiteralRule} {hits : List (List Find)} :
      p.get? id = some origin → origin.rule = .literal rule →
      List.Forall₂ (FindsAt p hp view id) ns hits → FindsAmong id ns hits.flatten
  | search {origin : PatternNode} {rule : SearchRule} {finds : List Find} :
      p.get? id = some origin → origin.rule = .search rule → p.Answers view id ns finds →
      FindsAmong id ns finds

/-- What a constraint brings that a value meets. In a sequence, the rules bring finds in turn, each
at its node. -/
inductive Gathers : Value → Constraint → List Find → Prop
  | scalar {actual expected : Scalar} : actual.eqv expected = true →
      Gathers (.scalar actual) (.scalar expected) []
  | pattern {v : Value} {id : PatternId} {finds : List Find} :
      p.FindsAmong hp view id v.nodeList finds → finds ≠ [] → Gathers v (.pattern id) finds
  | sequence {ns : List Node} {ids : List PatternId} {hits : List (List Find)} :
      ns.length = ids.length →
      List.Forall₂ (fun pair finds ↦ p.FindsAmong hp view pair.1 [pair.2] finds ∧ finds ≠ [])
        (ids.zip ns) hits →
      Gathers (.nodes ns) (.sequence ids) hits.flatten

inductive GathersAll (n : Node) : List (String × Constraint) → List Find → Prop
  | nil : GathersAll n [] []
  | cons {name : String} {v : Value} {constraint : Constraint} {finds others : List Find}
      {rest : List (String × Constraint)} :
      n.Has name v → p.Gathers hp view v constraint finds → GathersAll n rest others →
      GathersAll n ((name, constraint) :: rest) (finds ++ others)

end Finds

variable {p : Pattern} {hp : p.Sound} {view : View} {id : PatternId} {n : Node} {ns : List Node}
  {finds others : List Find} {v : Value} {constraint : Constraint}

theorem Answers.unique (h : p.Answers view id ns finds) (h' : p.Answers view id ns others) :
    finds = others :=
  Except.ok.inj ((h false .zero).symm.trans (h' false .zero))

theorem FindsAt.unique (h : p.FindsAt hp view id n finds) (h' : p.FindsAt hp view id n others) :
    finds = others := by
  cases h with
  | hit hsat _ _ ha =>
    cases h' with
    | hit _ _ _ ha' => exact ha.unique ha'
    | miss hnot => exact absurd hsat hnot
  | miss hnot =>
    cases h' with
    | hit hsat _ _ _ => exact absurd hsat hnot
    | miss _ => rfl

theorem FindsAmong.unique (h : p.FindsAmong hp view id ns finds)
    (h' : p.FindsAmong hp view id ns others) : finds = others := by
  cases h with
  | literal ho hr hits =>
    cases h' with
    | literal _ _ hits' =>
      have hunique : Relator.RightUnique (p.FindsAt hp view id) := fun _ _ _ h h' ↦ h.unique h'
      exact congrArg List.flatten (hunique.forall₂ hits hits')
    | search ho' hr' _ =>
      rw [ho] at ho'
      cases ho'
      rw [hr] at hr'
      cases hr'
  | search ho hr ha =>
    cases h' with
    | literal ho' hr' _ =>
      rw [ho] at ho'
      cases ho'
      rw [hr] at hr'
      cases hr'
    | search _ _ ha' => exact ha.unique ha'

theorem Gathers.unique (h : p.Gathers hp view v constraint finds)
    (h' : p.Gathers hp view v constraint others) : finds = others := by
  cases h with
  | scalar _ =>
    cases h'
    rfl
  | pattern hf _ =>
    cases h' with
    | pattern hf' _ => exact hf.unique hf'
  | sequence _ hits =>
    cases h' with
    | sequence _ hits' =>
      have hunique : Relator.RightUnique fun (pair : PatternId × Node) finds ↦
          p.FindsAmong hp view pair.1 [pair.2] finds ∧ finds ≠ [] :=
        fun _ _ _ h h' ↦ h.1.unique h'.1
      exact congrArg List.flatten (hunique.forall₂ hits hits')

theorem GathersAll.unique {attributes : List (String × Constraint)}
    (h : p.GathersAll hp view n attributes finds) (h' : p.GathersAll hp view n attributes others) :
    finds = others := by
  induction h generalizing others with
  | nil =>
    cases h'
    rfl
  | cons hv hc _ ih =>
    cases h' with
    | cons hv' hc' hrest' =>
      cases Node.Has.unique hv hv'
      rw [hc.unique hc', ih hrest']

end Pattern

def Finder.Reports (find : Finder) {p : Pattern} (hp : p.Sound) (view : View) (id : PatternId) :
    Prop :=
  ∀ ns, Ends (find id ns) (p.FindsAmong hp view id ns) fun _ ↦ True

namespace Setting

variable {s : Setting} {p : Pattern} {hp : p.Sound} {view : View} {find : Finder} {id : PatternId}
  {origin : PatternNode} {n : Node} {captures : Captures}

/-- Whatever a rule finds under a limit is what it finds without one. -/
theorem findAt_answers (s : Setting) (id : PatternId) (ns : List Node) :
    Ends (s.findAt s.pattern.size id ns) (s.pattern.Answers s.view id ns) fun _ ↦ True := by
  refine .of_forall_ok fun tally finds tally' h traced tally₀ ↦ ?_
  let free : Setting := ⟨s.view, s.pattern, none, traced⟩
  let c := Comparison.refinement (fun _ ↦ True) fun _ _ ↦ True
  have hcharge : c.rel Eq s.charge free.charge := by
    intro tally tally' _
    rcases hs : (s.charge tally).1 with e | ⟨⟩
    · exact .inl ⟨e, trivial, rfl⟩
    · rw [charge_fst (s := free) rfl tally']
      exact .inr ⟨.ok rfl, trivial⟩
  have hnote : ∀ e, c.rel Eq (s.note e) (free.note e) :=
    fun e ↦ (Lockstep.of_unit (note_fst e) (note_fst e)).refines
  have hfinds : c.rel Eq (s.findAt s.pattern.size id ns) (free.findAt s.pattern.size id ns) := by
    refine Comparison.findAt_same ?_ ?_ hcharge hnote s.pattern.size id ns
    · rfl
    · rfl
  rcases hfinds tally tally₀ trivial with ⟨e, -, he⟩ | ⟨hend, -⟩
  · rw [h] at he
    cases he
  · rw [h] at hend
    exact hend.eq.symm

theorem literal_findsAt (hp : s.pattern.Sound) (ho : s.pattern.get? id = some origin)
    {rule : LiteralRule} (hr : origin.rule = .literal rule) (n : Node) :
    Ends (s.literal (s.findAt s.pattern.size) id origin rule n)
      (s.pattern.FindsAt hp s.view id n) fun _ ↦ True := by
  have hid : id < s.pattern.size := (Array.getElem?_eq_some_iff.mp ho).1
  refine .of_forall_ok fun tally finds tally' h ↦ ?_
  have hfind : s.findAt s.pattern.size id [n] tally = (.ok finds, tally') := by
    rw [findAt_literal hp ho hr, h]
  have hanswers : s.pattern.Answers s.view id [n] finds := (findAt_answers s id [n]).of_ok hfind
  have hsat : finds ≠ [] ↔ s.pattern.Satisfies hp id n := by
    simpa using findAt_ne_nil_iff hp hid le_rfl hfind
  have hsingle : ∀ f ∈ finds, f.node = n ∧ f.pattern = id ∧ finds = [f] := by
    intro f hf
    have hfiles := (literal_entries (P := fun _ ↦ True) fun q _ ns _ ↦
      (Ends.trivial (s.findAt s.pattern.size q ns)).mono fun _ _ _ _ _ _ ↦ trivial).of_ok h
    obtain ⟨captures, rfl, hfinds, -⟩ := hfiles f hf
    exact ⟨rfl, rfl, hfinds⟩
  cases finds with
  | nil => exact .miss fun hs ↦ hsat.mpr hs rfl
  | cons f rest =>
    obtain ⟨hnode, hpattern, hfinds⟩ := hsingle f List.mem_cons_self
    cases hfinds
    exact .hit (hsat.mp (List.cons_ne_nil f [])) hnode hpattern hanswers

theorem each_hits {attempt : Node → MatchM (List Find)} {Q : Node → List Find → Prop}
    (ha : ∀ n, Ends (attempt n) (Q n) fun _ ↦ True) (ns : List Node) :
    Ends (each attempt ns) (fun finds ↦ ∃ hits, List.Forall₂ Q ns hits ∧ finds = hits.flatten)
      fun _ ↦ True := by
  refine .of_forall_ok fun tally finds tally' h ↦ ?_
  obtain ⟨hits, hhits, rfl⟩ := each_eq_ok h
  refine ⟨hits, hhits.imp fun n found hfound ↦ ?_, rfl⟩
  obtain ⟨before, after, hfound⟩ := hfound
  exact (ha n).of_ok hfound

theorem findAt_reports (hp : s.pattern.Sound) (hid : id < s.pattern.size) :
    (s.findAt s.pattern.size).Reports hp s.view id := by
  intro ns
  obtain ⟨origin, ho⟩ := Pattern.get?_of_lt hid
  cases hr : origin.rule with
  | literal rule =>
    rw [findAt_size hp ho, apply_of_literal hr]
    refine (each_hits (literal_findsAt hp ho hr) ns).mono fun finds hfinds ↦ ?_
    obtain ⟨hits, hhits, rfl⟩ := hfinds
    exact .literal ho hr hhits
  | search rule => exact (findAt_answers s id ns).mono fun finds hfinds ↦ .search ho hr hfinds

theorem positions_gathers {pairs : List (PatternId × Node)}
    (hf : ∀ pair ∈ pairs, find.Reports hp view pair.1) :
    Ends (positions find pairs captures)
      (fun found ↦ ∀ c ∈ found, ∃ hits,
        List.Forall₂ (fun pair finds ↦ p.FindsAmong hp view pair.1 [pair.2] finds ∧ finds ≠ [])
          pairs hits ∧ c = captures.recordAll hits.flatten) fun _ ↦ True := by
  induction pairs generalizing captures with
  | nil => exact .pure fun c hc ↦ ⟨[], .nil, (Option.some.inj hc).symm⟩
  | cons pair rest ih =>
    refine (hf pair List.mem_cons_self [pair.2]).bind fun finds hfinds ↦ ?_
    cases finds with
    | nil => exact .pure (by simp)
    | cons f fs =>
      refine (ih fun other ho ↦ hf other (.tail _ ho)).mono fun found hfound c hc ↦ ?_
      obtain ⟨hits, hhits, rfl⟩ := hfound c hc
      refine ⟨(f :: fs) :: hits, .cons ⟨hfinds, List.cons_ne_nil f fs⟩ hhits, ?_⟩
      rw [List.flatten_cons, Groups.recordAll_append]

theorem constrain_gathers {constraint : Constraint} {v : Value}
    (hf : ∀ q ∈ constraint.references, find.Reports hp view q) :
    Ends (constrain find v captures constraint)
      (fun found ↦ ∀ c ∈ found, ∃ finds, p.Gathers hp view v constraint finds ∧
        c = captures.recordAll finds) fun _ ↦ True := by
  cases constraint with
  | scalar expected =>
    cases v with
    | scalar actual =>
      refine .pure ?_
      split
      · next heq => exact fun c hc ↦ ⟨[], .scalar heq, (Option.some.inj hc).symm⟩
      · simp
    | node child => exact .pure (by simp)
    | nodes children => exact .pure (by simp)
  | pattern q =>
    refine (hf q (by simp [Constraint.references]) v.nodeList).bind fun finds hfinds ↦ ?_
    cases finds with
    | nil => exact .pure (by simp)
    | cons f fs =>
      refine .pure fun c hc ↦ ⟨f :: fs, .pattern hfinds (List.cons_ne_nil f fs), ?_⟩
      exact (Option.some.inj hc).symm
  | sequence ids =>
    cases v with
    | scalar actual => exact .pure (by simp)
    | node child => exact .pure (by simp)
    | nodes children =>
      unfold constrain
      dsimp only
      split
      · next hlength =>
        have hpairs : ∀ pair ∈ ids.zip children, find.Reports hp view pair.1 :=
          fun pair hpair ↦ hf pair.1 (List.of_mem_zip hpair).1
        refine (positions_gathers hpairs).bind fun found hfound ↦ .pure fun c hc ↦ ?_
        obtain ⟨others, ho, rfl⟩ := Option.map_eq_some_iff.mp hc
        obtain ⟨hits, hhits, rfl⟩ := hfound others ho
        exact ⟨hits.flatten, .sequence hlength hhits, Groups.append_recordAll captures _⟩
      · exact .pure (by simp)

theorem meets_gathers {attributes : List (String × Constraint)}
    (hf : ∀ entry ∈ attributes, ∀ q ∈ entry.2.references, find.Reports hp view q) :
    Ends (s.meets find id n attributes captures)
      (fun found ↦ ∀ c ∈ found, ∃ finds, p.GathersAll hp view n attributes finds ∧
        c = captures.recordAll finds) fun _ ↦ True := by
  induction attributes generalizing captures with
  | nil => exact .pure fun c hc ↦ ⟨[], .nil, (Option.some.inj hc).symm⟩
  | cons entry rest ih =>
    obtain ⟨name, constraint⟩ := entry
    have hlookup : Ends (access (s.view.lookup n name))
        (fun o ↦ ∀ v, o = some v → n.Has name v) fun _ ↦ True :=
      access_ends (fun o ho v hv ↦ (View.has_iff ho).mpr hv) fun _ _ ↦ trivial
    refine hlookup.bind fun o ho ↦ ?_
    cases o with
    | none => exact (note_ends _).bind fun _ _ ↦ .pure (by simp)
    | some v =>
      refine (constrain_gathers (hf _ List.mem_cons_self)).bind fun found hfound ↦ ?_
      cases found with
      | none => exact (note_ends _).bind fun _ _ ↦ .pure (by simp)
      | some first =>
        obtain ⟨finds, hfinds, rfl⟩ := hfound first rfl
        refine (ih fun other hm ↦ hf other (.tail _ hm)).mono fun found hfound c hc ↦ ?_
        obtain ⟨others, hothers, rfl⟩ := hfound c hc
        refine ⟨finds ++ others, .cons (ho v rfl) hfinds hothers, ?_⟩
        rw [Groups.recordAll_append]

theorem literal_gathers {rule : LiteralRule}
    (hf : ∀ q ∈ (Rule.literal rule).references, find.Reports hp view q) :
    Ends (s.literal find id origin rule n)
      (fun finds ↦ ∀ f ∈ finds, ∃ subs, p.GathersAll hp view n rule.attributes subs ∧
        f.captures = Groups.empty.recordAll subs) fun _ ↦ True := by
  refine (Ends.trivial (hasKind rule n)).bind fun b _ ↦ ?_
  cases b with
  | false => exact .pure (by simp)
  | true =>
    have hentry : ∀ entry ∈ rule.attributes, ∀ q ∈ entry.2.references, find.Reports hp view q :=
      fun entry he q hq ↦ hf q (List.mem_flatMap.mpr ⟨entry, he, hq⟩)
    refine (meets_gathers hentry).bind fun found hfound ↦ ?_
    cases found with
    | none => exact .pure (by simp)
    | some captures => exact .pure (by simpa using hfound captures rfl)

/-- What a literal of a sound pattern captures is what its constraints bring. -/
theorem literal_collects (hp : s.pattern.Sound) (ho : s.pattern.get? id = some origin)
    {rule : LiteralRule} (hr : origin.rule = .literal rule) (n : Node) :
    Ends (s.literal (s.findAt s.pattern.size) id origin rule n)
      (fun finds ↦ ∀ f ∈ finds, ∃ subs, s.pattern.GathersAll hp s.view n rule.attributes subs ∧
        f.captures.Collects subs) fun _ ↦ True := by
  have hrefs : ∀ q ∈ (Rule.literal rule).references,
      (s.findAt s.pattern.size).Reports hp s.view q := by
    intro q hq
    have hrefers : s.pattern.Refers id q := ⟨origin, ho, by rwa [PatternNode.references, hr]⟩
    exact findAt_reports hp (hp.valid id q hrefers)
  refine (literal_gathers hrefs).mono fun finds hfinds f hf ↦ ?_
  obtain ⟨subs, hsubs, hcaptures⟩ := hfinds f hf
  refine ⟨subs, hsubs, ?_⟩
  rw [hcaptures]
  exact Groups.collects_recordAll subs

/-- All finds of a sound pattern are rooted in the match without limit. -/
theorem findAt_rooted (hp : s.pattern.Sound) (hid : id < s.pattern.size) (ns : List Node) :
    Ends (s.findAt s.pattern.size id ns)
      (fun finds ↦ ∀ f ∈ finds, f.Rooted ⟨s.view, s.pattern, none, false⟩) fun _ ↦ True := by
  let free : Setting := ⟨s.view, s.pattern, none, false⟩
  refine (findAt_answers s id ns).mono fun finds hfinds f hf ↦ ?_
  have hrun : free.findAt s.pattern.size id ns .zero = (.ok finds, _) :=
    Prod.ext (hfinds false .zero) rfl
  exact ((findAt_grounds (s := free) hp rfl hid ns).of_ok hrun f hf).1

end Setting

/-- What is captured where a literal holds. The constraints of the literal bring finds, one after
the other: a literal each node of the attribute that satisfies it, a search all its finds, a
sequence the finds of its rules in turn. There is one list of these finds, and the captures collect
it: under each name they have what the finds contribute under it, in order, and the names come in
the order in which the finds first contribute under them. So do all captures in an outcome, at
every depth, and the outcome by name collects the finds of the match. -/
theorem RawPattern.compiled_match_collects {raw : RawPattern} {p : Pattern}
    (compiled : raw.compile = .ok p) :
    ∃ hp : p.Sound,
      (∀ s : Setting, s.pattern = p → ∀ id origin rule n tally finds tally',
        p.get? id = some origin → origin.rule = .literal rule →
        s.literal (s.findAt p.size) id origin rule n tally = (.ok finds, tally') →
        ∀ f ∈ finds, ∃ subs, p.GathersAll hp s.view n rule.attributes subs ∧
          (∀ others, p.GathersAll hp s.view n rule.attributes others → others = subs) ∧
          f.captures.Collects subs) ∧
      ∀ (engine : Engine) (tree : SyntaxTree) found, engine.execute tree p = .ok found →
        found.grouped.Collects found.finds ∧
        ∀ f ∈ found.finds, ∀ g, ReflTransGen Find.Captured f g →
          ∀ rule, g.origin.rule = .literal rule → ∃ subs,
            p.GathersAll hp tree.view g.node rule.attributes subs ∧
            (∀ others, p.GathersAll hp tree.view g.node rule.attributes others → others = subs) ∧
            g.captures.Collects subs := by
  have hp := compile_sound compiled
  have hliteral : ∀ s : Setting, s.pattern = p → ∀ id origin rule n tally finds tally',
      p.get? id = some origin → origin.rule = .literal rule →
      s.literal (s.findAt p.size) id origin rule n tally = (.ok finds, tally') →
      ∀ f ∈ finds, ∃ subs, p.GathersAll hp s.view n rule.attributes subs ∧
        (∀ others, p.GathersAll hp s.view n rule.attributes others → others = subs) ∧
        f.captures.Collects subs := by
    intro s hs id origin rule n tally finds tally' ho hr h f hf
    subst hs
    obtain ⟨subs, hsubs, hcollects⟩ := (Setting.literal_collects hp ho hr n).of_ok h f hf
    exact ⟨subs, hsubs, fun others ho ↦ ho.unique hsubs, hcollects⟩
  refine ⟨hp, hliteral, fun engine tree found h ↦ ?_⟩
  obtain ⟨finds, tally, hrun, rfl⟩ := Engine.execute_eq_ok.mp h
  refine ⟨Groups.collects_recordAll finds, fun f hf g hg rule hr ↦ ?_⟩
  let s := engine.setting false tree.view p
  have hgrounded := (Setting.findAt_rooted (s := s) hp hp.nonempty [tree.root]).of_ok hrun f hf g hg
  have hfound := hliteral ⟨tree.view, p, none, false⟩ rfl _ _ _ _ .zero _ _ hgrounded.stored hr
    (Prod.ext (hgrounded.literal rule hr .zero) rfl) _ (List.mem_singleton_self _)
  exact hfound

def Sample.readingTree : SyntaxTree :=
  .ofNode 0 .keyed
    (call "print" [call "read" [stringLit "a"], call "exit" [], call "read" [stringLit "b"]])

theorem RawPattern.compiled_match_collects_nested :
    ∃ (hp : Sample.nestedRules.Sound) (f : Find) (subs : List Find),
      Sample.nestedPattern.compile = .ok Sample.nestedRules ∧
      Engine.execute ⟨some 3⟩ Sample.readingTree Sample.nestedRules =
        .ok ⟨Sample.readingTree, [f]⟩ ∧
      f.captures.names = ["argument"] ∧ (f.captures.get "argument").length = 2 ∧
      Sample.nestedRules.GathersAll hp .keyed f.node [("Args", .pattern 2)] subs ∧
      f.captures.Collects subs := by
  have hrun : ∃ f, Engine.execute ⟨some 3⟩ Sample.readingTree Sample.nestedRules =
      .ok ⟨Sample.readingTree, [f]⟩ ∧ f.captures.names = ["argument"] ∧
        (f.captures.get "argument").length = 2 ∧
        f.origin.rule = .literal ⟨some "CallExpr", [("Args", .pattern 2)]⟩ := by
    refine ⟨_, rfl, ?_⟩
    exact ⟨rfl, rfl, rfl⟩
  obtain ⟨f, hrun, hnames, hlength, hrule⟩ := hrun
  obtain ⟨hp, -, hcollects⟩ := compiled_match_collects Sample.compile_nestedPattern
  obtain ⟨subs, hsubs, -, hcaptures⟩ :=
    (hcollects _ _ _ hrun).2 f (List.mem_singleton_self f) f .refl _ hrule
  exact ⟨hp, f, subs, Sample.compile_nestedPattern, hrun, hnames, hlength, hsubs, hcaptures⟩

end TreePattern

import Mathlib.Data.List.Chain
import TreePattern.Proofs.Match.Invariant

namespace TreePattern

open Relation Find

namespace Pattern

def nameOf (p : Pattern) (id : PatternId) : Option String :=
  (p.get? id).bind (·.name)

/-- Rules from one to another one, each after the first a sub-rule of the search before it. -/
structure Chain (p : Pattern) (first last : PatternId) (chain : List PatternId) : Prop where
  first : chain.head? = some first
  last : chain.getLast? = some last
  linked : chain.IsChain p.SubRule

def innermostName (p : Pattern) (chain : List PatternId) : Option String :=
  chain.reverse.findSome? p.nameOf

/-- Unnamed finds of one literal can be among what another one asks for. They dissolve into what
they captured. -/
def Dissolves (p : Pattern) (id inner : PatternId) : Prop :=
  ∃ q chain, p.Constrains id q ∧ p.Chain q inner chain ∧ p.innermostName chain = none

variable {p : Pattern} {id q l : PatternId} {chain : List PatternId} {origin : PatternNode}

theorem innermostName_singleton (h : p.get? id = some origin) :
    p.innermostName [id] = origin.name := by
  simp [innermostName, nameOf, h]

theorem innermostName_cons (h : p.get? id = some origin) (chain : List PatternId) :
    p.innermostName (id :: chain) = (p.innermostName chain).or origin.name := by
  simp [innermostName, nameOf, h, List.findSome?_append]

theorem innermostName_eq_none_iff : p.innermostName chain = none ↔
    ∀ id ∈ chain, p.nameOf id = none := by
  simp [innermostName, List.findSome?_eq_none_iff]

theorem Chain.singleton (p : Pattern) (id : PatternId) : p.Chain id id [id] :=
  ⟨rfl, rfl, .singleton id⟩

theorem Chain.cons (h : p.Chain q l chain) (hs : p.SubRule id q) : p.Chain id l (id :: chain) := by
  obtain ⟨hfirst, hlast, hlinked⟩ := h
  refine ⟨rfl, ?_, ?_⟩
  · rw [List.getLast?_cons, hlast]
    rfl
  · refine hlinked.cons ?_
    intro other ho
    rw [hfirst] at ho
    exact Option.some.inj ho ▸ hs

theorem Chain.reaches (h : p.Chain q l chain) {a : PatternId} (ha : a ∈ chain) :
    ReflTransGen p.Refers q a := by
  refine h.linked.induction (fun b ↦ ReflTransGen p.Refers q b) chain ?_ ?_ a ha
  · intro b c hs hb
    exact hb.tail hs.refers
  · intro hne
    have hhead : chain.head hne = q := List.head_of_mem_head? h.first
    rw [hhead]

theorem Chain.eq_of_literal (h : p.Chain id l chain) {rule : LiteralRule}
    (ho : p.get? id = some origin) (hr : origin.rule = .literal rule) : chain = [id] ∧ l = id := by
  obtain ⟨hfirst, hlast, hlinked⟩ := h
  match chain with
  | [] => cases hfirst
  | [a] =>
    cases hfirst
    cases hlast
    exact ⟨rfl, rfl⟩
  | a :: b :: rest =>
    cases hfirst
    obtain ⟨origin', rule', ho', hr', -⟩ := (List.isChain_cons_cons.mp hlinked).1
    rw [ho] at ho'
    cases ho'
    rw [hr] at hr'
    cases hr'

theorem reaches_of_dissolves (h : ReflTransGen p.Dissolves id l) : ReflTransGen p.Refers id l := by
  induction h with
  | refl => exact .refl
  | @tail m l _ hd ih =>
    obtain ⟨q, chain, hq, hchain, -⟩ := hd
    have hl : l ∈ chain := List.mem_of_getLast? hchain.last
    exact (ih.tail hq.refers).trans (hchain.reaches hl)

end Pattern

variable {p : Pattern} {id q l : PatternId} {chain : List PatternId}
  {origin : PatternNode} {f r : Find}

structure Find.NamedAlong (p : Pattern) (start : PatternId) (chain : List PatternId) (f : Find) :
    Prop where
  stored : p.get? f.pattern = some f.origin
  along : p.Chain start f.pattern chain
  name : f.name = p.innermostName chain

/-- A find that was captured by a literal: it comes up from a rule that the literal asks for or,
where unnamed finds dissolve, from one that a literal below it asks for. -/
def Find.FiledBy (p : Pattern) (id : PatternId) (r : Find) : Prop :=
  ∃ l q chain, ReflTransGen p.Dissolves id l ∧ p.Constrains l q ∧ r.NamedAlong p q chain

theorem Find.NamedAlong.self {n : Node} {captures : Captures} (ho : p.get? id = some origin) :
    Find.NamedAlong p id [id] ⟨n, id, origin, origin.name, captures⟩ :=
  ⟨ho, .singleton p id, (Pattern.innermostName_singleton ho).symm⟩

theorem Find.NamedAlong.inherit (h : f.NamedAlong p q chain) (hs : p.SubRule id q)
    (ho : p.get? id = some origin) : (f.inherit origin.name).NamedAlong p id (id :: chain) := by
  refine ⟨h.stored, h.along.cons hs, ?_⟩
  rw [Pattern.innermostName_cons ho, ← h.name]
  rfl

theorem Find.NamedAlong.name_eq_none_iff (h : f.NamedAlong p q chain) :
    f.name = none ↔ ∀ id ∈ chain, p.nameOf id = none := by
  rw [h.name, Pattern.innermostName_eq_none_iff]

/-- The name of the literal, and of whatever refers to it, is not among those that the find can
get. -/
theorem Find.FiledBy.not_reaches (h : r.FiledBy p id) (hp : p.Sound) : ∃ l q chain,
    ReflTransGen p.Dissolves id l ∧ p.Constrains l q ∧ r.NamedAlong p q chain ∧
      ∀ a ∈ chain, ¬ ReflTransGen p.Refers a id := by
  obtain ⟨l, q, chain, hd, hq, hr⟩ := h
  refine ⟨l, q, chain, hd, hq, hr, ?_⟩
  intro a ha hback
  have hdown : TransGen p.Refers id a :=
    .trans_left (.tail' (Pattern.reaches_of_dissolves hd) hq.refers) (hr.along.reaches ha)
  exact hp.acyclic a (.trans_right hback hdown)

def Find.Accounted (p : Pattern) (f : Find) : Prop :=
  f.Throughout fun g ↦ ∀ r ∈ g.captures, r.FiledBy p g.pattern

theorem Find.accounted_iff : f.Accounted p ↔
    (∀ r ∈ f.captures, r.FiledBy p f.pattern) ∧ ∀ r ∈ f.captures, r.Accounted p :=
  throughout_iff

theorem Find.FiledBy.of_contributes (hq : p.Constrains id q) (hf : f.NamedAlong p q chain)
    (ha : f.Accounted p) (hr : f.Contributes r) : r.FiledBy p id := by
  unfold Find.Contributes at hr
  cases hn : f.name with
  | some name =>
    rw [hn] at hr
    cases (show r = f from hr)
    exact ⟨id, q, chain, .refl, hq, hf⟩
  | none =>
    rw [hn] at hr
    obtain ⟨l, q', chain', hd, hq', hr'⟩ := (Find.accounted_iff.mp ha).1 r hr
    have hfirst : p.Dissolves id f.pattern := ⟨q, chain, hq, hf.along, hf.name ▸ hn⟩
    exact ⟨l, q', chain', .head hfirst hd, hq', hr'⟩

theorem Pattern.invariant_named (p : Pattern) :
    p.Invariant (fun id f ↦ (∃ chain, f.NamedAlong p id chain) ∧ f.Accounted p) fun id captures ↦
      ∀ r ∈ captures, r.FiledBy p id ∧ r.Accounted p where
  filing id := by
    refine (Find.filing_entries fun r ↦ r.FiledBy p id ∧ r.Accounted p).mono ?_
    rintro f ⟨q, hq, ⟨chain, hf⟩, ha⟩ r hr
    exact ⟨.of_contributes hq hf ha hr, Throughout.contributes ha hr⟩
  literal id origin rule n captures ho _ hc := by
    refine ⟨⟨[id], .self ho⟩, Find.accounted_iff.mpr ⟨?_, ?_⟩⟩
    · exact fun r hr ↦ (hc r hr).1
    · exact fun r hr ↦ (hc r hr).2
  search id origin rule n ho _ := by
    refine ⟨⟨[id], .self ho⟩, Find.accounted_iff.mpr ⟨?_, ?_⟩⟩
    · simp
    · simp
  inherit id origin q f ho hs hf := by
    obtain ⟨⟨chain, hf⟩, ha⟩ := hf
    refine ⟨⟨id :: chain, hf.inherit hs ho⟩, ?_⟩
    exact Find.accounted_iff.mpr (Find.accounted_iff (f := f).mp ha)

/-- The names in a match of a compiled pattern. A find has the innermost name of a chain of
searches that leads from the root of the pattern to its rule, and no name if there is none on the
chain; if the root is a literal, it has the name of the root. What a find has captured, at every
depth, has the innermost name of a chain that begins at a rule that the literal of the find asks
for, or one that a literal asks for of which unnamed finds dissolved; neither that literal nor what
leads to it is on the chain. -/
theorem RawPattern.compiled_match_names {raw : RawPattern} (compiled : raw.compile = .ok p)
    {engine : Engine} {tree : SyntaxTree} {found : Matches}
    (h : engine.execute tree p = .ok found) :
    ∀ f ∈ found.finds,
      (∃ chain, f.NamedAlong p Pattern.root chain ∧
        (f.name = none ↔ ∀ id ∈ chain, p.nameOf id = none)) ∧
      (∀ origin rule, p.get? Pattern.root = some origin → origin.rule = .literal rule →
        f.pattern = Pattern.root ∧ f.name = origin.name) ∧
      ∀ g, ReflTransGen Find.Captured f g → ∀ r ∈ g.captures, ∃ l q chain,
        ReflTransGen p.Dissolves g.pattern l ∧ p.Constrains l q ∧ r.NamedAlong p q chain ∧
          (r.name = none ↔ ∀ id ∈ chain, p.nameOf id = none) ∧
          ∀ a ∈ chain, ¬ ReflTransGen p.Refers a g.pattern := by
  have hp := compile_sound compiled
  intro f hf
  obtain ⟨⟨chain, hnamed⟩, haccounted⟩ := Engine.execute_keeps p.invariant_named h f hf
  refine ⟨⟨chain, hnamed, hnamed.name_eq_none_iff⟩, ?_, ?_⟩
  · intro origin rule ho hr
    obtain ⟨rfl, hl⟩ := hnamed.along.eq_of_literal ho hr
    exact ⟨hl, hnamed.name.trans (Pattern.innermostName_singleton ho)⟩
  · intro g hg r hr
    obtain ⟨l, q, chain, hd, hq, hr, habove⟩ := (haccounted g hg r hr).not_reaches hp
    exact ⟨l, q, chain, hd, hq, hr, hr.name_eq_none_iff, habove⟩

namespace Sample

def nestedPattern : RawPattern :=
  let (literal, b) := Builder.empty.add ⟨none, .literal ⟨some "BasicLit", []⟩⟩
  let (argument, b) := b.add ⟨some "argument", .search ⟨[literal], true, .anyOf⟩⟩
  let (inner, b) := b.add ⟨none, .literal ⟨some "CallExpr", [("Args", .pattern argument)]⟩⟩
  let (outer, b) := b.add ⟨none, .literal ⟨some "CallExpr", [("Args", .pattern inner)]⟩⟩
  let (root, b) := b.add ⟨some "call", .search ⟨[outer], true, .anyOf⟩⟩
  b.build root

def nestedRules : Pattern :=
  ⟨#[⟨some "call", .search ⟨[1], true, .anyOf⟩⟩,
    ⟨none, .literal ⟨some "CallExpr", [("Args", .pattern 2)]⟩⟩,
    ⟨none, .literal ⟨some "CallExpr", [("Args", .pattern 3)]⟩⟩,
    ⟨some "argument", .search ⟨[4], true, .anyOf⟩⟩, ⟨none, .literal ⟨some "BasicLit", []⟩⟩]⟩

def nestedTree : SyntaxTree :=
  .ofNode 0 .keyed (call "print" [call "read" [stringLit "hi"]])

theorem compile_nestedPattern : nestedPattern.compile = .ok nestedRules := by
  have ho : nestedPattern.discoveryOrder = .ok [4, 3, 2, 1, 0] := by
    change RawPattern.discover _ [4] [⟨4, [3]⟩] = _
    rw [RawPattern.discover_new (by decide) (by decide) rfl]
    change RawPattern.discover _ [3, 4] [⟨3, [2]⟩, ⟨4, []⟩] = _
    rw [RawPattern.discover_new (by decide) (by decide) rfl]
    change RawPattern.discover _ [2, 3, 4] [⟨2, [1]⟩, ⟨3, []⟩, ⟨4, []⟩] = _
    rw [RawPattern.discover_new (by decide) (by decide) rfl]
    change RawPattern.discover _ [1, 2, 3, 4] [⟨1, [0]⟩, ⟨2, []⟩, ⟨3, []⟩, ⟨4, []⟩] = _
    rw [RawPattern.discover_new (by decide) (by decide) rfl]
    change RawPattern.discover _ [0, 1, 2, 3, 4] [⟨0, []⟩, ⟨1, []⟩, ⟨2, []⟩, ⟨3, []⟩, ⟨4, []⟩] = _
    simp only [RawPattern.discover]
    rfl
  rw [RawPattern.compile, ho]
  rfl

end Sample

theorem RawPattern.compiled_match_names_nested :
    ∃ f r, Sample.nestedPattern.compile = .ok Sample.nestedRules ∧
      Engine.execute ⟨none⟩ Sample.nestedTree Sample.nestedRules = .ok ⟨Sample.nestedTree, [f]⟩ ∧
      f.captures.groups = [("argument", [r])] ∧ f.name = some "call" ∧ r.name = some "argument" ∧
      (∃ chain, f.NamedAlong Sample.nestedRules Pattern.root chain) ∧
      r.FiledBy Sample.nestedRules f.pattern := by
  have hrun : ∃ f r,
      Engine.execute ⟨none⟩ Sample.nestedTree Sample.nestedRules = .ok ⟨Sample.nestedTree, [f]⟩ ∧
      f.captures.groups = [("argument", [r])] ∧ f.name = some "call" ∧ r.name = some "argument" :=
    ⟨_, _, rfl, rfl, rfl, rfl⟩
  obtain ⟨f, r, hrun, hgroups, hf, hr⟩ := hrun
  refine ⟨f, r, Sample.compile_nestedPattern, hrun, hgroups, hf, hr, ?_⟩
  obtain ⟨⟨chain, hnamed, -⟩, -, hbelow⟩ :=
    compiled_match_names Sample.compile_nestedPattern hrun f List.mem_cons_self
  refine ⟨⟨chain, hnamed⟩, ?_⟩
  have hcaptured : f.Captured r := ⟨("argument", [r]), by simp [hgroups], List.mem_cons_self⟩
  obtain ⟨l, q, chain, hd, hq, hr, -⟩ := hbelow f .refl r hcaptured
  exact ⟨l, q, chain, hd, hq, hr⟩

end TreePattern

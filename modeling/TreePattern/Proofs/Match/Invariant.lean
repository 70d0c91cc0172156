import TreePattern.Proofs.Match.Entries

namespace TreePattern

open Relation MatchM Find

namespace Pattern

def Constrains (p : Pattern) (id q : PatternId) : Prop :=
  ∃ origin rule, p.get? id = some origin ∧ origin.rule = .literal rule ∧
    q ∈ (Rule.literal rule).references

def SubRule (p : Pattern) (id q : PatternId) : Prop :=
  ∃ origin rule, p.get? id = some origin ∧ origin.rule = .search rule ∧ q ∈ rule.rules

variable {p : Pattern} {id q : PatternId}

theorem Constrains.refers (h : p.Constrains id q) : p.Refers id q := by
  obtain ⟨origin, rule, ho, hr, hq⟩ := h
  exact ⟨origin, ho, by rwa [PatternNode.references, hr]⟩

theorem SubRule.refers (h : p.SubRule id q) : p.Refers id q := by
  obtain ⟨origin, rule, ho, hr, hq⟩ := h
  exact ⟨origin, ho, by rwa [PatternNode.references, hr]⟩

/-- `P` says something of the finds of each rule, and `C` of what a literal captures. Both follow
from what `P` says of the finds of the rules that the rule refers to. -/
structure Invariant (p : Pattern) (P : PatternId → Find → Prop) (C : PatternId → Captures → Prop) :
    Prop where
  filing : ∀ id, Filing (fun f ↦ ∃ q, p.Constrains id q ∧ P q f) (C id)
  literal : ∀ id origin rule n captures, p.get? id = some origin → origin.rule = .literal rule →
    C id captures → P id ⟨n, id, origin, origin.name, captures⟩
  search : ∀ id origin rule n, p.get? id = some origin → origin.rule = .search rule →
    P id ⟨n, id, origin, origin.name, .empty⟩
  inherit : ∀ id origin q f, p.get? id = some origin → p.SubRule id q → P q f →
    P id (f.inherit origin.name)

end Pattern

namespace Setting

variable {s : Setting} {find : Finder} {id : PatternId} {origin : PatternNode} {n : Node}
  {attempt : Node → MatchM (List Find)} {P : Node → Find → Prop}

theorem each_finds (ha : ∀ n, Ends (attempt n) (fun finds ↦ ∀ f ∈ finds, P n f) fun _ ↦ True)
    (ns : List Node) :
    Ends (each attempt ns) (fun finds ↦ ∀ f ∈ finds, ∃ n ∈ ns, P n f) fun _ ↦ True := by
  induction ns with
  | nil => exact .pure (by simp)
  | cons n rest ih =>
    refine (ha n).bind fun hits hh ↦ ih.bind fun others ho ↦ .pure ?_
    intro f hf
    cases List.mem_append.mp hf with
    | inl hf => exact ⟨n, List.mem_cons_self, hh f hf⟩
    | inr hf =>
      obtain ⟨m, hm, hp⟩ := ho f hf
      exact ⟨m, .tail _ hm, hp⟩

theorem descend_finds (ha : ∀ n, Ends (attempt n) (fun finds ↦ ∀ f ∈ finds, P n f) fun _ ↦ True)
    (ns : List Node) :
    Ends (s.descend attempt ns) (fun finds ↦ ∀ f ∈ finds, ∃ n ∈ ns, ∃ x, n.Contains x ∧ P x f)
      fun _ ↦ True := by
  induction ns using Node.forest_induction with
  | nil =>
    rw [descend_nil]
    exact .pure (by simp)
  | cons n rest ihc ihr =>
    rw [descend_cons]
    refine (ha n).bind fun hits hh ↦ ?_
    refine (access_ends (Q := (· = n.children)) (fun _ ↦ View.children_eq)
      fun _ _ ↦ trivial).bind fun children hc ↦ ?_
    subst hc
    refine ihc.bind fun below hb ↦ ihr.bind fun others ho ↦ .pure ?_
    intro f hf
    rw [List.mem_append, List.mem_append] at hf
    obtain hf | hf | hf := hf
    · exact ⟨n, List.mem_cons_self, n, .refl n, hh f hf⟩
    · obtain ⟨c, hc, x, hx, hp⟩ := hb f hf
      exact ⟨n, List.mem_cons_self, x, .head hc hx, hp⟩
    · obtain ⟨m, hm, hx⟩ := ho f hf
      exact ⟨m, .tail _ hm, hx⟩

/-- What a rule finds comes from nodes in the trees of the nodes at which it is asked. -/
theorem apply_finds
    (hl : ∀ rule, origin.rule = .literal rule → ∀ n,
      Ends (s.literal find id origin rule n) (fun finds ↦ ∀ f ∈ finds, P n f) fun _ ↦ True)
    (hs : ∀ rule, origin.rule = .search rule → ∀ n,
      Ends (s.visit find id origin rule n) (fun finds ↦ ∀ f ∈ finds, P n f) fun _ ↦ True)
    (ns : List Node) :
    Ends (s.apply find id origin ns) (fun finds ↦ ∀ f ∈ finds, ∃ n ∈ ns, ∃ x, n.Contains x ∧ P x f)
      fun _ ↦ True := by
  have hself : ∀ finds : List Find, (∀ f ∈ finds, ∃ n ∈ ns, P n f) →
      ∀ f ∈ finds, ∃ n ∈ ns, ∃ x, n.Contains x ∧ P x f := by
    intro finds h f hf
    obtain ⟨n, hn, hp⟩ := h f hf
    exact ⟨n, hn, n, .refl n, hp⟩
  cases hr : origin.rule with
  | literal rule =>
    rw [apply_of_literal hr]
    exact (each_finds (hl rule hr) ns).mono hself
  | search rule =>
    rw [apply_of_search hr]
    have hcharged : ∀ n, Ends (s.charged find id origin rule n) (fun finds ↦ ∀ f ∈ finds, P n f)
        fun _ ↦ True :=
      fun n ↦ (charge_ends fun _ _ ↦ trivial).bind fun _ _ ↦ hs rule hr n
    cases he : rule.exact with
    | true =>
      rw [search_of_exact he]
      exact (each_finds hcharged ns).mono hself
    | false =>
      rw [search_of_not_exact he]
      exact descend_finds hcharged ns

variable {R : PatternId → Find → Prop}

theorem outcomes_finds {ids : List PatternId} (hf : ∀ q ∈ ids, find.Brings (R q) q [n]) :
    Ends (outcomes find n ids) (fun found ↦ ∀ f ∈ found.flatten, ∃ q ∈ ids, R q f)
      fun _ ↦ True := by
  induction ids with
  | nil => exact .pure (by simp)
  | cons q rest ih =>
    refine (hf q List.mem_cons_self).bind fun finds hfinds ↦ ?_
    refine (ih fun other ho ↦ hf other (.tail _ ho)).bind fun found hfound ↦ .pure ?_
    intro f hm
    rw [List.flatten_cons, List.mem_append] at hm
    cases hm with
    | inl hm => exact ⟨q, List.mem_cons_self, hfinds f hm⟩
    | inr hm =>
      obtain ⟨r, hr, hp⟩ := hfound f hm
      exact ⟨r, .tail _ hr, hp⟩

/-- A visit finds what the sub-rules find, or the node itself. -/
theorem visit_finds {rule : SearchRule} (hf : ∀ q ∈ rule.rules, find.Brings (R q) q [n]) :
    Ends (s.visit find id origin rule n)
      (fun finds ↦ ∀ f ∈ finds, (∃ q ∈ rule.rules, ∃ g, R q g ∧ f = g.inherit origin.name) ∨
        f = ⟨n, id, origin, origin.name, .empty⟩) fun _ ↦ True := by
  refine (outcomes_finds hf).bind fun found hfound ↦ ?_
  have hhits : ∀ f ∈ found.flatten.map (Find.inherit origin.name),
      ∃ q ∈ rule.rules, ∃ g, R q g ∧ f = g.inherit origin.name := by
    intro f hm
    obtain ⟨g, hg, rfl⟩ := List.mem_map.mp hm
    obtain ⟨q, hq, hp⟩ := hfound g hg
    exact ⟨q, hq, g, hp, rfl⟩
  cases rule.operator with
  | anyOf | allOf | oneOf =>
    dsimp only
    split
    · exact (note_ends _).bind fun _ _ ↦ .pure fun f hm ↦ .inl (hhits f hm)
    · exact .pure (by simp)
  | not =>
    refine .pure ?_
    split
    · simp
    · simp

section Run

variable {P : PatternId → Find → Prop} {C : PatternId → Captures → Prop}

theorem apply_keeps (h : s.pattern.Invariant P C) (ho : s.pattern.get? id = some origin)
    (hf : ∀ q, s.pattern.Refers id q → ∀ ns, find.Brings (P q) q ns) (ns : List Node) :
    Ends (s.apply find id origin ns) (fun finds ↦ ∀ f ∈ finds, P id f) fun _ ↦ True := by
  refine (apply_finds (P := fun _ f ↦ P id f) ?_ ?_ ns).mono fun finds hfinds f hm ↦ ?_
  · intro rule hr n
    have hrules : ∀ q ∈ (Rule.literal rule).references, ∀ ns, ns ⊆ n.children →
        find.Brings (fun f ↦ ∃ q, s.pattern.Constrains id q ∧ P q f) q ns := by
      intro q hq ns _
      have hc : s.pattern.Constrains id q := ⟨origin, rule, ho, hr, hq⟩
      exact (hf q hc.refers ns).mono fun finds hfinds f hm ↦ ⟨q, hc, hfinds f hm⟩
    refine (literal_files (h.filing id) hrules).mono fun finds hfinds f hm ↦ ?_
    obtain ⟨captures, rfl, -, hc⟩ := hfinds f hm
    exact h.literal id origin rule n captures ho hr hc
  · intro rule hr n
    have hsub : ∀ q ∈ rule.rules, s.pattern.SubRule id q := fun q hq ↦ ⟨origin, rule, ho, hr, hq⟩
    have hrules : ∀ q ∈ rule.rules, find.Brings (P q) q [n] :=
      fun q hq ↦ hf q (hsub q hq).refers [n]
    refine (visit_finds hrules).mono fun finds hfinds f hm ↦ ?_
    obtain ⟨q, hq, g, hg, rfl⟩ | rfl := hfinds f hm
    · exact h.inherit id origin q g ho (hsub q hq) hg
    · exact h.search id origin rule n ho hr
  · obtain ⟨_, _, _, _, hp⟩ := hfinds f hm
    exact hp

/-- An invariant holds of whatever a rule finds. -/
theorem findAt_keeps (h : s.pattern.Invariant P C) (depth : ℕ) (id : PatternId) (ns : List Node) :
    (s.findAt depth).Brings (P id) id ns := by
  induction depth generalizing id ns with
  | zero => exact .throw trivial
  | succ depth ih =>
    rw [Finder.Brings, findAt]
    split
    · exact .throw trivial
    · next origin ho => exact apply_keeps h ho (fun q _ ↦ ih q) ns

end Run

end Setting

/-- An invariant holds of the finds of a match, as finds of the root of the pattern. -/
theorem Engine.execute_keeps {engine : Engine} {tree : SyntaxTree} {p : Pattern} {found : Matches}
    {P : PatternId → Find → Prop} {C : PatternId → Captures → Prop} (h : p.Invariant P C)
    (hx : engine.execute tree p = .ok found) : ∀ f ∈ found.finds, P Pattern.root f := by
  obtain ⟨finds, tally, hrun, rfl⟩ := Engine.execute_eq_ok.mp hx
  exact (Setting.findAt_keeps (s := engine.setting false tree.view p) h p.size Pattern.root
    [tree.root]).of_ok hrun

section Throughout

variable {f : Find} {P Q : Find → Prop}

/-- A property of a find and of all that was captured below it, at every depth. -/
def Find.Throughout (P : Find → Prop) (f : Find) : Prop :=
  ∀ g, ReflTransGen Find.Captured f g → P g

theorem Find.throughout_iff : f.Throughout P ↔ P f ∧ ∀ g ∈ f.captures, g.Throughout P := by
  constructor
  · exact fun h ↦ ⟨h f .refl, fun g hg x hx ↦ h x (.head hg hx)⟩
  · rintro ⟨hf, hcaptured⟩ x hx
    cases hx.cases_head with
    | inl heq => exact heq ▸ hf
    | inr htail =>
      obtain ⟨g, hg, hx⟩ := htail
      exact hcaptured g hg x hx

theorem Find.Throughout.contributes {g : Find} (h : f.Throughout P) (hg : f.Contributes g) :
    g.Throughout P := by
  unfold Find.Contributes at hg
  split at hg
  · exact hg ▸ h
  · exact (throughout_iff.mp h).2 g hg

end Throughout

end TreePattern

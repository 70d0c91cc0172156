import TreePattern.Proofs.Match.Invariant
import TreePattern.Proofs.Match.Recursion
import TreePattern.Proofs.Match.Unfolding

namespace TreePattern

open Relation MatchM Setting

section Origins

variable {s : Setting} {f g : Find} {n m : Node}

/-- The rule of a find is the pattern's, and it holds at the node: a literal finds the node there
with the same captures, and a search is one for nodes at which no sub-rule finds anything, which
has no captures. All captures are below the node. -/
structure Find.Grounded (s : Setting) (f : Find) : Prop where
  stored : s.pattern.get? f.pattern = some f.origin
  literal : ∀ rule, f.origin.rule = .literal rule → ∀ tally,
    (s.literal (s.findAt s.pattern.size) f.pattern f.origin rule f.node tally).1 =
      .ok [⟨f.node, f.pattern, f.origin, f.origin.name, f.captures⟩]
  search : ∀ rule, f.origin.rule = .search rule → rule.operator = .not ∧ f.captures = .empty ∧
    ∀ q ∈ rule.rules, ∀ tally, (s.findAt s.pattern.size q [f.node] tally).1 = .ok []
  below : ∀ g, f.Captured g → f.node.Below g.node

def Find.Rooted (s : Setting) (f : Find) : Prop :=
  ∀ g, ReflTransGen Find.Captured f g → g.Grounded s

theorem Find.rooted_iff : f.Rooted s ↔ f.Grounded s ∧ ∀ g, f.Captured g → g.Rooted s :=
  throughout_iff

theorem Find.Rooted.inherit (h : f.Rooted s) (name : Option String) :
    (f.inherit name).Rooted s := by
  obtain ⟨⟨hstored, hliteral, hsearch, hbelow⟩, hcaptured⟩ := Find.rooted_iff.mp h
  exact Find.rooted_iff.mpr ⟨⟨hstored, hliteral, hsearch, hbelow⟩, hcaptured⟩

theorem Find.Rooted.below (h : f.Rooted s) (hg : TransGen Find.Captured f g) :
    f.node.Below g.node := by
  induction hg with
  | single hg => exact (h f .refl).below _ hg
  | @tail x g hx hg ih => exact ih.trans ((h x hx.to_reflTransGen).below g hg)

def Find.Within (s : Setting) (ns : List Node) (f : Find) : Prop :=
  f.Rooted s ∧ ∃ n ∈ ns, n.Contains f.node

/-- A rooted find lies below a node, where a literal at that node may capture it. -/
def Find.Under (s : Setting) (n : Node) (f : Find) : Prop :=
  f.Rooted s ∧ n.Below f.node

theorem Find.Within.mono {ns ms : List Node} (h : f.Within s ns)
    (hn : ∀ n ∈ ns, ∃ m ∈ ms, m.Contains n) : f.Within s ms := by
  obtain ⟨hrooted, n, hm, hcontains⟩ := h
  obtain ⟨m, hm, hn⟩ := hn n hm
  exact ⟨hrooted, m, hm, hn.trans hcontains⟩

theorem Find.Within.under {ns : List Node} (h : f.Within s ns) (hn : ns ⊆ n.children) :
    f.Under s n := by
  obtain ⟨hrooted, m, hm, hcontains⟩ := h
  exact ⟨hrooted, .head' (hn hm) hcontains⟩

theorem Find.Under.contributes (h : f.Under s n) (hg : f.Contributes g) : g.Under s n := by
  unfold Find.Contributes at hg
  split at hg
  · exact hg ▸ h
  · obtain ⟨hrooted, hbelow⟩ := h
    obtain ⟨hgrounded, hcaptured⟩ := Find.rooted_iff.mp hrooted
    exact ⟨hcaptured g hg, hbelow.trans (hgrounded.below g hg)⟩

end Origins

def Finder.Grounds (find : Finder) (s : Setting) (id : PatternId) : Prop :=
  ∀ ns, Ends (find id ns) (fun finds ↦ ∀ f ∈ finds, f.Within s ns) fun _ ↦ True

namespace Setting

variable {s : Setting} {find : Finder} {id : PatternId} {origin : PatternNode} {n : Node}

theorem outcomes_within {ids : List PatternId} (hf : ∀ q ∈ ids, find.Grounds s q)
    (hsame : ∀ q tally tally', (find q [n] tally).1 = (find q [n] tally').1) :
    Ends (outcomes find n ids)
      (fun found ↦ (∀ finds ∈ found, ∀ f ∈ finds, f.Within s [n]) ∧
        List.Forall₂ (fun q finds ↦ ∀ tally, (find q [n] tally).1 = .ok finds) ids found)
      fun _ ↦ True := by
  induction ids with
  | nil => exact .pure ⟨by simp, .nil⟩
  | cons q rest ih =>
    refine ((hf q List.mem_cons_self [n]).and (.again (hsame q))).bind fun finds hfinds ↦ ?_
    refine (ih fun other ho ↦ hf other (.tail _ ho)).bind fun found hfound ↦ .pure ⟨?_, ?_⟩
    · exact List.forall_mem_cons.mpr ⟨hfinds.1, hfound.1⟩
    · exact .cons hfinds.2 hfound.2

theorem silent_of_countP {ids : List PatternId} {found : List (List Find)}
    (h : List.Forall₂ (fun q finds ↦ ∀ tally, (find q [n] tally).1 = .ok finds) ids found)
    (hc : found.countP (fun finds ↦ !finds.isEmpty) = 0) :
    ∀ q ∈ ids, ∀ tally, (find q [n] tally).1 = .ok [] := by
  induction h with
  | nil => simp
  | @cons q finds ids found hfinds _ ih =>
    rw [List.countP_cons] at hc
    cases finds with
    | nil => exact List.forall_mem_cons.mpr ⟨hfinds, ih (by simpa using hc)⟩
    | cons f fs => simp at hc

/-- Without limit, what a rule finds does not depend on the account. -/
theorem findAt_again (hl : s.limit = none) (depth : ℕ) (id : PatternId) (roots : List Node)
    (tally tally' : Tally) :
    (s.findAt depth id roots tally).1 = (s.findAt depth id roots tally').1 := by
  have h : Lockstep (fun _ _ ↦ True) Eq (s.findAt depth id roots) (s.findAt depth id roots) :=
    Comparison.findAt_same (c := .lockstep fun _ _ ↦ True) rfl rfl
      (Lockstep.of_unit (charge_fst hl) (charge_fst hl))
      (fun e ↦ Lockstep.of_unit (note_fst e) (note_fst e)) depth id roots
  exact (h tally tally' trivial).1.eq

theorem visit_within (hl : s.limit = none) (ho : s.pattern.get? id = some origin)
    {rule : SearchRule} (hr : origin.rule = .search rule)
    (hf : ∀ q ∈ rule.rules, (s.findAt s.pattern.size).Grounds s q) :
    Ends (s.visit (s.findAt s.pattern.size) id origin rule n)
      (fun finds ↦ ∀ f ∈ finds, f.Within s [n]) fun _ ↦ True := by
  refine (outcomes_within hf fun q ↦ findAt_again hl _ q [n]).bind fun found hfound ↦ ?_
  obtain ⟨hwithin, houtcomes⟩ := hfound
  have hhits : ∀ f ∈ found.flatten.map (Find.inherit origin.name), f.Within s [n] := by
    intro f hm
    obtain ⟨g, hg, rfl⟩ := List.mem_map.mp hm
    obtain ⟨finds, hfinds, hg⟩ := List.mem_flatten.mp hg
    obtain ⟨hrooted, hcontains⟩ := hwithin finds hfinds g hg
    exact ⟨hrooted.inherit _, hcontains⟩
  cases hop : rule.operator with
  | anyOf | allOf | oneOf =>
    dsimp only
    split
    · exact (note_ends _).bind fun _ _ ↦ .pure hhits
    · exact .pure (by simp)
  | not =>
    refine .pure ?_
    split
    · next hc =>
      have hsilent := silent_of_countP houtcomes hc
      have hgrounded : Find.Grounded s ⟨n, id, origin, origin.name, .empty⟩ := {
        stored := ho
        literal := by
          intro rule' hr'
          rw [hr] at hr'
          cases hr'
        search := by
          intro rule' hr'
          rw [hr] at hr'
          cases hr'
          exact ⟨hop, rfl, hsilent⟩
        below := by simp [Find.Captured] }
      have hrooted : Find.Rooted s ⟨n, id, origin, origin.name, .empty⟩ :=
        Find.rooted_iff.mpr ⟨hgrounded, by simp [Find.Captured]⟩
      intro f hm
      rw [List.mem_singleton.mp hm]
      exact ⟨hrooted, n, List.mem_singleton_self n, .refl n⟩
    · simp

theorem literal_within (hp : s.pattern.Sound) (hl : s.limit = none)
    (ho : s.pattern.get? id = some origin) {rule : LiteralRule} (hr : origin.rule = .literal rule)
    (hf : ∀ q ∈ (Rule.literal rule).references, (s.findAt s.pattern.size).Grounds s q) :
    Ends (s.literal (s.findAt s.pattern.size) id origin rule n)
      (fun finds ↦ ∀ f ∈ finds, f.Within s [n]) fun _ ↦ True := by
  have hsame := findAt_again hl s.pattern.size id [n]
  rw [findAt_literal hp ho hr] at hsame
  have hbelow : ∀ q ∈ (Rule.literal rule).references, ∀ ns, ns ⊆ n.children →
      (s.findAt s.pattern.size).Adds (Find.Under s n) q ns := by
    intro q hq ns hns
    refine (hf q hq ns).mono fun finds hfinds f hm g hg ↦ ?_
    exact ((hfinds f hm).under hns).contributes hg
  refine ((literal_entries hbelow).and (.again hsame)).mono fun finds hfinds f hm ↦ ?_
  obtain ⟨hunder, hagain⟩ := hfinds
  obtain ⟨captures, rfl, rfl, hcaptures⟩ := hunder f hm
  have hgrounded : Find.Grounded s ⟨n, id, origin, origin.name, captures⟩ := {
    stored := ho
    literal := by
      intro rule' hr'
      rw [hr] at hr'
      cases hr'
      exact hagain
    search := by
      intro rule' hr'
      rw [hr] at hr'
      cases hr'
    below := fun g hg ↦ (hcaptures g hg).2 }
  have hrooted : Find.Rooted s ⟨n, id, origin, origin.name, captures⟩ :=
    Find.rooted_iff.mpr ⟨hgrounded, fun g hg ↦ (hcaptures g hg).1⟩
  exact ⟨hrooted, n, List.mem_singleton_self n, .refl n⟩

/-- Without limit, whatever a rule of a sound pattern finds is rooted. -/
theorem findAt_grounds (hp : s.pattern.Sound) (hl : s.limit = none) (hid : id < s.pattern.size) :
    (s.findAt s.pattern.size).Grounds s id := by
  refine hp.induction (P := fun id ↦ (s.findAt s.pattern.size).Grounds s id) ?_ hid
  intro id hid ih
  obtain ⟨origin, ho⟩ := Pattern.get?_of_lt hid
  have hrefs : ∀ q ∈ origin.references, (s.findAt s.pattern.size).Grounds s q :=
    fun q hq ↦ ih q ⟨origin, ho, hq⟩
  unfold PatternNode.references at hrefs
  intro ns
  rw [findAt_size hp ho]
  refine (apply_finds (P := fun n f ↦ f.Within s [n]) ?_ ?_ ns).mono fun finds hfinds f hm ↦ ?_
  · intro rule hr n
    rw [hr] at hrefs
    exact literal_within hp hl ho hr hrefs
  · intro rule hr n
    rw [hr] at hrefs
    exact visit_within hl ho hr hrefs
  · obtain ⟨n, hn, x, hx, hw⟩ := hfinds f hm
    exact hw.mono fun y hy ↦ ⟨n, hn, List.mem_singleton.mp hy ▸ hx⟩

end Setting

/-- What a match without limit finds can be traced back. A find and everything that was captured
below it, at every depth, tells which rule of the pattern held at which node. Asked again at that
node, a literal finds it with the same captures; a search is one for nodes that satisfy none of its
sub-rules, and the node satisfies none. All nodes are in the tree, and what was captured below a
find, at any depth, is below its node. -/
theorem RawPattern.compiled_match_replays {raw : RawPattern} {p : Pattern}
    (compiled : raw.compile = .ok p) {tree : SyntaxTree} {found : Matches}
    (h : (⟨none⟩ : Engine).execute tree p = .ok found) :
    ∀ f ∈ found.finds, tree.root.Contains f.node ∧
      ∀ g, ReflTransGen Find.Captured f g →
        g.Grounded ((⟨none⟩ : Engine).setting false tree.view p) ∧
        (∀ rule, g.origin.rule = .search rule →
          ∀ q ∈ rule.rules, ¬ p.Satisfies (compile_sound compiled) q g.node) ∧
        ∀ x, TransGen Find.Captured g x → g.node.Below x.node := by
  have hp := compile_sound compiled
  let s := (⟨none⟩ : Engine).setting false tree.view p
  obtain ⟨finds, tally, hrun, rfl⟩ := Engine.execute_eq_ok.mp h
  have hfinds : ∀ f ∈ finds, f.Within s [tree.root] :=
    (Setting.findAt_grounds (s := s) hp rfl hp.nonempty [tree.root]).of_ok hrun
  intro f hf
  obtain ⟨hrooted, n, hn, hcontains⟩ := hfinds f hf
  rw [List.mem_singleton.mp hn] at hcontains
  refine ⟨hcontains, fun g hg ↦ ?_⟩
  have hgrounded := hrooted g hg
  have hrooted' : g.Rooted s := fun x hx ↦ hrooted x (hg.trans hx)
  refine ⟨hgrounded, fun rule hr q hq hsat ↦ ?_, fun x hx ↦ hrooted'.below hx⟩
  obtain ⟨-, -, hsilent⟩ := hgrounded.search rule hr
  have hq' : q ∈ g.origin.references := by
    simpa [PatternNode.references, hr, Rule.references] using hq
  have hid : q < s.pattern.size := hp.valid _ q ⟨g.origin, hgrounded.stored, hq'⟩
  have hiff := Setting.findAt_ne_nil_iff (s := s) hp hid le_rfl
    (Prod.ext (hsilent q hq .zero) rfl)
  exact hiff.mpr ⟨g.node, List.mem_singleton_self _, hsat⟩ rfl

namespace Sample

def otherPattern : RawPattern :=
  let (ident, b) := Builder.empty.add ⟨none, .literal ⟨some "Ident", []⟩⟩
  let (other, b) := b.add ⟨some "other", .search ⟨[ident], true, .not⟩⟩
  let (call, b) := b.add ⟨some "call", .literal ⟨some "CallExpr", [("Args", .pattern other)]⟩⟩
  b.build call

def otherRules : Pattern :=
  ⟨#[⟨some "call", .literal ⟨some "CallExpr", [("Args", .pattern 1)]⟩⟩,
    ⟨some "other", .search ⟨[2], true, .not⟩⟩, ⟨none, .literal ⟨some "Ident", []⟩⟩]⟩

theorem compile_otherPattern : otherPattern.compile = .ok otherRules := by
  have ho : otherPattern.discoveryOrder = .ok [2, 1, 0] := by
    change RawPattern.discover _ [2] [⟨2, [1]⟩] = _
    rw [RawPattern.discover_new (by decide) (by decide) rfl]
    change RawPattern.discover _ [1, 2] [⟨1, [0]⟩, ⟨2, []⟩] = _
    rw [RawPattern.discover_new (by decide) (by decide) rfl]
    change RawPattern.discover _ [0, 1, 2] [⟨0, []⟩, ⟨1, []⟩, ⟨2, []⟩] = _
    rw [RawPattern.discover, RawPattern.discover, RawPattern.discover, RawPattern.discover]
    rfl
  rw [RawPattern.compile, ho]
  rfl

def otherFind : Find :=
  ⟨⟨2, .ok "BasicLit", [text "Kind" "STRING", text "Value" "hi"]⟩, 1,
    ⟨some "other", .search ⟨[2], true, .not⟩⟩, some "other", .empty⟩

def callFind : Find :=
  ⟨(callTree "print").root, 0,
    ⟨some "call", .literal ⟨some "CallExpr", [("Args", .pattern 1)]⟩⟩, some "call",
    ⟨[("other", [otherFind])]⟩⟩

theorem execute_otherRules :
    (⟨none⟩ : Engine).execute (callTree "print") otherRules =
      .ok ⟨callTree "print", [callFind]⟩ := by
  rfl

end Sample

theorem RawPattern.compiled_match_replays_other :
    let s := (⟨none⟩ : Engine).setting false .keyed Sample.otherRules
    Sample.otherPattern.compile = .ok Sample.otherRules ∧
      (⟨none⟩ : Engine).execute (Sample.callTree "print") Sample.otherRules =
        .ok ⟨Sample.callTree "print", [Sample.callFind]⟩ ∧
      Sample.callFind.Captured Sample.otherFind ∧
      Sample.callFind.Grounded s ∧ Sample.otherFind.Grounded s ∧
      Sample.callFind.node.Below Sample.otherFind.node := by
  intro s
  have hcaptured : Sample.callFind.Captured Sample.otherFind :=
    ⟨_, List.mem_singleton_self _, List.mem_singleton_self _⟩
  obtain ⟨-, hbelow⟩ := compiled_match_replays Sample.compile_otherPattern Sample.execute_otherRules
    Sample.callFind (List.mem_singleton_self _)
  obtain ⟨hcall, -, hunder⟩ := hbelow _ .refl
  obtain ⟨hother, -, -⟩ := hbelow _ (.single hcaptured)
  exact ⟨Sample.compile_otherPattern, Sample.execute_otherRules, hcaptured, hcall, hother,
    hunder _ (.single hcaptured)⟩

end TreePattern

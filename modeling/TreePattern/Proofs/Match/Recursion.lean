import TreePattern.Proofs.Match.Decision

namespace TreePattern

open Relation

namespace Setting

variable {s : Setting} {find find' : Finder} {id : PatternId} {n : Node}

theorem positions_congr {pairs : List (PatternId × Node)}
    (h : ∀ pair ∈ pairs, find pair.1 = find' pair.1) (captures : Captures) :
    positions find pairs captures = positions find' pairs captures := by
  induction pairs generalizing captures with
  | nil => rfl
  | cons pair rest ih =>
    have hrest := ih fun other ho ↦ h other (.tail _ ho)
    simp only [positions, h pair List.mem_cons_self, hrest]

theorem constrain_congr {constraint : Constraint}
    (h : ∀ q ∈ constraint.references, find q = find' q) (v : Value) (captures : Captures) :
    constrain find v captures constraint = constrain find' v captures constraint := by
  cases constraint with
  | scalar expected => rfl
  | pattern q => simp only [constrain, h q (by simp [Constraint.references])]
  | sequence ids =>
    have hpairs : ∀ ns : List Node, ∀ pair ∈ ids.zip ns, find pair.1 = find' pair.1 :=
      fun ns pair hp ↦ h pair.1 (List.of_mem_zip hp).1
    simp only [constrain, fun ns ↦ positions_congr (hpairs ns)]

theorem meets_congr {attributes : List (String × Constraint)}
    (h : ∀ entry ∈ attributes, ∀ q ∈ entry.2.references, find q = find' q) (captures : Captures) :
    s.meets find id n attributes captures = s.meets find' id n attributes captures := by
  induction attributes generalizing captures with
  | nil => rfl
  | cons entry rest ih =>
    have hrest := ih fun other ho ↦ h other (.tail _ ho)
    simp only [meets, constrain_congr (h entry List.mem_cons_self), hrest]

theorem outcomes_congr {ids : List PatternId} (h : ∀ q ∈ ids, find q = find' q) :
    outcomes find n ids = outcomes find' n ids := by
  induction ids with
  | nil => rfl
  | cons q rest ih =>
    have hrest := ih fun other ho ↦ h other (.tail _ ho)
    simp only [outcomes, h q List.mem_cons_self, hrest]

/-- What a rule finds depends only on what the rules find that it refers to. -/
theorem apply_congr {origin : PatternNode} (h : ∀ q ∈ origin.references, find q = find' q)
    (roots : List Node) : s.apply find id origin roots = s.apply find' id origin roots := by
  unfold PatternNode.references at h
  unfold Setting.apply
  cases hr : origin.rule with
  | literal rule =>
    rw [hr] at h
    have hentry : ∀ entry ∈ rule.attributes, ∀ q ∈ entry.2.references, find q = find' q :=
      fun entry he q hq ↦ h q (List.mem_flatMap.mpr ⟨entry, he, hq⟩)
    have hliteral : s.literal find id origin rule = s.literal find' id origin rule := by
      funext n
      simp only [literal, meets_congr hentry]
    simp only [hliteral]
  | search rule =>
    rw [hr] at h
    have hrules : ∀ q ∈ rule.rules, find q = find' q := h
    have hcharged : s.charged find id origin rule = s.charged find' id origin rule := by
      funext n
      simp only [charged, visit, outcomes_congr hrules]
    simp only [search, hcharged]

end Setting

namespace Pattern

instance (p : Pattern) (i j : PatternId) : Decidable (p.Refers i j) :=
  match h : p.get? i with
  | none => isFalse fun ⟨_, ho, _⟩ ↦ by cases h ▸ ho
  | some origin =>
    decidable_of_iff (j ∈ origin.references) ⟨fun hj ↦ ⟨origin, h, hj⟩, fun ⟨_, ho, hj⟩ ↦ by
      cases h ▸ ho
      exact hj⟩

/-- A rule goes on with a chain of rules, the last one first: the last one refers to it, and it is
not in the chain. -/
def Continues (p : Pattern) (chain : List PatternId) (id : PatternId) : Prop :=
  (∀ last ∈ chain.head?, p.Refers last id) ∧ id ∉ chain

instance (p : Pattern) (chain : List PatternId) (id : PatternId) :
    Decidable (p.Continues chain id) :=
  inferInstanceAs (Decidable (_ ∧ _))

structure Leads (p : Pattern) (chain : List PatternId) (id : PatternId) : Prop where
  last : ∀ last ∈ chain.head?, p.Refers last id
  reaches : ∀ q ∈ chain, TransGen p.Refers q id
  nodup : chain.Nodup
  valid : ∀ q ∈ id :: chain, q < p.size

namespace Leads

variable {p : Pattern} {chain : List PatternId} {id q : PatternId}

theorem nil (h : id < p.size) : p.Leads [] id :=
  ⟨by simp, by simp, .nil, by simpa using h⟩

theorem continues (h : p.Leads chain id) (hp : p.Sound) : p.Continues chain id :=
  ⟨h.last, fun hm ↦ hp.acyclic id (h.reaches id hm)⟩

theorem cons (h : p.Leads chain id) (hp : p.Sound) (hr : p.Refers id q) :
    p.Leads (id :: chain) q where
  last last hl := by
    cases hl
    exact hr
  reaches r hm := by
    rcases List.mem_cons.mp hm with rfl | hm
    · exact .single hr
    · exact (h.reaches r hm).tail hr
  nodup := List.nodup_cons.mpr ⟨(h.continues hp).2, h.nodup⟩
  valid r hm := by
    rcases List.mem_cons.mp hm with rfl | hm
    · exact hp.valid id r hr
    · exact h.valid r hm

theorem length_lt (h : p.Leads chain id) (hp : p.Sound) : chain.length < p.size := by
  have hn : (id :: chain).Nodup := List.nodup_cons.mpr ⟨(h.continues hp).2, h.nodup⟩
  have hs : id :: chain ⊆ List.range p.size := fun q hq ↦ List.mem_range.mpr (h.valid q hq)
  have hle := (List.subperm_of_subset hn hs).length_le
  rw [List.length_range, List.length_cons] at hle
  omega

end Leads

end Pattern

namespace Setting

variable (s : Setting)

/-- A match that is told the chain of the rules being asked, the last one first. Wherever a rule
does not go on with the chain, is missing from the pattern, or is one more than the depth allows,
`stop` takes its place. -/
def follow (stop : Finder) : ℕ → List PatternId → Finder
  | 0, _, id, roots => stop id roots
  | depth + 1, chain, id, roots =>
    if s.pattern.Continues chain id then
      match s.pattern.get? id with
      | none => stop id roots
      | some origin => s.apply (follow stop depth (id :: chain)) id origin roots
    else stop id roots

variable {s} {chain : List PatternId} {id : PatternId}

theorem follow_eq_findAt (hp : s.pattern.Sound) (stop : Finder) {depth depth' : ℕ}
    (h : s.pattern.Leads chain id) (hd : s.pattern.size ≤ chain.length + depth)
    (hd' : s.pattern.size ≤ chain.length + depth') :
    s.follow stop depth chain id = s.findAt depth' id := by
  -- A rule that goes on with the chain makes it longer by as much as the depths drop.
  induction depth generalizing chain id depth' with
  | zero =>
    have hlt := h.length_lt hp
    omega
  | succ depth ih =>
    have hlt := h.length_lt hp
    obtain ⟨depth', rfl⟩ : ∃ k, depth' = k + 1 := ⟨depth' - 1, by omega⟩
    obtain ⟨origin, ho⟩ : ∃ origin, s.pattern.get? id = some origin :=
      ⟨_, Array.getElem?_eq_getElem (h.valid id List.mem_cons_self)⟩
    have hrefs : ∀ q ∈ origin.references,
        s.follow stop depth (id :: chain) q = s.findAt depth' q := by
      intro q hq
      have hr : s.pattern.Refers id q := ⟨origin, ho, hq⟩
      refine ih (h.cons hp hr) ?_ ?_
      · rw [List.length_cons]
        omega
      · rw [List.length_cons]
        omega
    funext roots
    rw [follow, findAt, if_pos (h.continues hp), ho]
    exact apply_congr hrefs roots

/-- A depth as large as the pattern is as good as any larger one. -/
theorem findAt_eq_of_size_le (hp : s.pattern.Sound) {depth depth' : ℕ}
    (hid : id < s.pattern.size) (hd : s.pattern.size ≤ depth) (hd' : s.pattern.size ≤ depth') :
    s.findAt depth id = s.findAt depth' id := by
  have h : ∀ k, s.pattern.size ≤ k →
      s.follow (fun _ _ ↦ throw .tooDeep) depth [] id = s.findAt k id := by
    intro k hk
    exact follow_eq_findAt hp _ (.nil hid) (by simpa using hd) (by simpa using hk)
  rw [← h depth hd, h depth' hd']

/-- A depth as large as the pattern is also enough for the rules that a rule refers to. -/
theorem findAt_size (hp : s.pattern.Sound) {origin : PatternNode}
    (h : s.pattern.get? id = some origin) :
    s.findAt s.pattern.size id = s.apply (s.findAt s.pattern.size) id origin := by
  rw [findAt_eq_of_size_le hp (Array.getElem?_eq_some_iff.mp h).1 le_rfl (Nat.le_succ _)]
  funext roots
  rw [findAt, h]

theorem findAt_literal (hp : s.pattern.Sound) {origin : PatternNode} {rule : LiteralRule}
    (h : s.pattern.get? id = some origin) (hr : origin.rule = .literal rule) (n : Node) :
    s.findAt s.pattern.size id [n] = s.literal (s.findAt s.pattern.size) id origin rule n := by
  rw [findAt_size hp h, apply_of_literal hr]
  exact each_singleton _ n

end Setting

/-- A match of a pattern with a search at its root is that search, started at the root of the
tree. -/
theorem Engine.run_eq_search {p : Pattern} (hp : p.Sound) {origin : PatternNode} {rule : SearchRule}
    (ho : p.get? Pattern.root = some origin) (hr : origin.rule = .search rule) (engine : Engine)
    (traced : Bool) (tree : SyntaxTree) :
    let s := engine.setting traced tree.view p
    engine.run traced tree p = s.search (s.findAt p.size) Pattern.root origin rule
      [tree.root] .zero := by
  intro s
  have hroot := congrFun (Setting.findAt_size (s := s) hp ho) [tree.root]
  rw [Setting.apply_of_search hr] at hroot
  exact congrFun hroot .zero

/-- In a match of a compiled pattern, on any tree and under any limit, the rules being asked at one
time are linked by references and never come back to one of them, no rule is missing, and a depth of
as many rules as the pattern has is enough: whatever would be done in those cases has no influence,
and the match does not fail for them. -/
theorem RawPattern.compiled_match_follows {raw : RawPattern} {p : Pattern}
    (compiled : raw.compile = .ok p) (view : View) (limit : Option Nat) (traced : Bool) :
    let s : Setting := ⟨view, p, limit, traced⟩
    (∀ stop depth id, id < p.size → p.size ≤ depth →
      s.follow stop depth [] id = s.findAt p.size id) ∧
    (∀ stop root, s.findAll root = (s.follow stop p.size [] Pattern.root [root]).run.run .zero) ∧
    ∀ depth id roots tally e tally', id < p.size → p.size ≤ depth →
      s.findAt depth id roots tally = (.error e, tally') →
      e ≠ .tooDeep ∧ ∀ q, e ≠ .missing q := by
  intro s
  have hp : s.pattern.Sound := compile_sound compiled
  have hfollow : ∀ stop depth id, id < p.size → p.size ≤ depth →
      s.follow stop depth [] id = s.findAt p.size id := by
    intro stop depth id hid hd
    exact Setting.follow_eq_findAt hp stop (.nil hid) (by simpa using hd) (by simp [s])
  refine ⟨hfollow, fun stop root ↦ ?_, fun depth id roots tally e tally' hid hd h ↦ ?_⟩
  · rw [hfollow stop p.size Pattern.root hp.nonempty le_rfl]
    rfl
  · obtain ⟨error, rfl⟩ | ⟨limit, -, rfl⟩ := Setting.findAt_error hp hid hd h
    · exact ⟨by simp, by simp⟩
    · exact ⟨by simp, by simp⟩

theorem RawPattern.compiled_match_follows_ident :
    let s : Setting := ⟨.keyed, Sample.identRules, some 2, false⟩
    let stop : Finder := fun _ _ ↦ return []
    Sample.identPattern.compile = .ok Sample.identRules ∧
      s.follow stop 2 [] Pattern.root = s.findAt 2 Pattern.root ∧
      s.follow stop 2 [1] Pattern.root = stop Pattern.root := by
  intro s stop
  have h := (compiled_match_follows Sample.compile_identPattern .keyed (some 2) false).1
  refine ⟨Sample.compile_identPattern, h stop 2 Pattern.root (by decide) (by decide), ?_⟩
  funext roots
  rw [Setting.follow, if_neg (by decide)]

end TreePattern

import TreePattern.Proofs.Pattern.Isomorphism

namespace TreePattern

section Wraps

variable (get? get?' : PatternId → Option PatternNode)

/-- Two slots hold the same but for the numbers of rules, or there is a literal in the first one and
in the second one an exact search around that literal, which has given its name to the search. -/
inductive SameOrWrapped (I : PatternId → PatternId → Prop) : PatternId → PatternId → Prop
  | same {i j : PatternId} : SameSlots get? get?' I i j → SameOrWrapped I i j
  | wrapped {i j k : PatternId} {name : Option String} {rule rule' : LiteralRule} :
      get? i = some ⟨name, .literal rule⟩ →
      get?' j = some ⟨name, .search ⟨[k], true, .anyOf⟩⟩ →
      get?' k = some ⟨none, .literal rule'⟩ →
      Rule.Rel I (fun _ ↦ True) (.literal rule) (.literal rule') → SameOrWrapped I i j

def Wraps (i j : PatternId) : Prop :=
  ∃ I : PatternId → PatternId → Prop, I i j ∧ ∀ i j, I i j → SameOrWrapped get? get?' I i j

variable {get? get?'} {I J : PatternId → PatternId → Prop} {i j : PatternId}

theorem SameOrWrapped.imp (h : ∀ i j, I i j → J i j) (hs : SameOrWrapped get? get?' I i j) :
    SameOrWrapped get? get?' J i j := by
  cases hs with
  | same hs => exact .same (hs.imp h)
  | wrapped hi hj hk hr => exact .wrapped hi hj hk (hr.mono (fun i _ ↦ h i) fun _ _ ↦ id)

theorem wraps_iff : Wraps get? get?' i j ↔
    SameOrWrapped get? get?' (Wraps get? get?') i j := by
  have hstep : ∀ i j, Wraps get? get?' i j → SameOrWrapped get? get?' (Wraps get? get?') i j := by
    rintro i j ⟨I, hij, hI⟩
    exact (hI i j hij).imp fun i j hij ↦ ⟨I, hij, hI⟩
  refine ⟨hstep i j, fun h ↦ ⟨SameOrWrapped get? get?' (Wraps get? get?'), h, ?_⟩⟩
  exact fun i j hs ↦ hs.imp hstep

end Wraps

def PatternNode.wrapped (inner : PatternId) (node : PatternNode) : PatternNode :=
  match node.rule with
  | .literal _ => ⟨node.name, .search ⟨[inner], true, .anyOf⟩⟩
  | .search _ => node

namespace Pattern

/-- The pattern with a search around each of the chosen literals. Behind its rules all rules are
listed a second time, without names, and that is where the searches refer to. -/
def wrap (p : Pattern) (chosen : PatternId → Bool) : RawPattern where
  slots :=
    (p.nodes.mapIdx fun id node ↦
      some (if chosen id then node.wrapped (p.size + id) else node)) ++
    p.nodes.map fun node ↦ some { node with name := none }
  root := root

variable {p : Pattern} {chosen : PatternId → Bool} {id : PatternId} {node : PatternNode}

theorem get?_wrap (chosen : PatternId → Bool) (h : p.get? id = some node) :
    (p.wrap chosen).get? id = some (if chosen id then node.wrapped (p.size + id) else node) := by
  have hid : id < p.nodes.size := (Array.getElem?_eq_some_iff.mp h).1
  have hnode : p.nodes[id]? = some node := h
  rw [RawPattern.get?, wrap]
  dsimp only
  rw [Array.getElem?_append_left (by simpa using hid), Array.getElem?_mapIdx, hnode]
  rfl

theorem get?_wrap_inner (chosen : PatternId → Bool) (h : p.get? id = some node) :
    (p.wrap chosen).get? (p.size + id) = some { node with name := none } := by
  have hnode : p.nodes[id]? = some node := h
  rw [RawPattern.get?, wrap, size]
  dsimp only
  rw [Array.getElem?_append_right (by simp), Array.size_mapIdx, Nat.add_sub_cancel_left,
    Array.getElem?_map, hnode]
  rfl

theorem get?_wrap_cases (chosen : PatternId → Bool) (h : p.get? id = some node) :
    (p.wrap chosen).get? id = some node ∨
      ∃ name rule, node = ⟨name, .literal rule⟩ ∧
        (p.wrap chosen).get? id = some ⟨name, .search ⟨[p.size + id], true, .anyOf⟩⟩ := by
  have hget := get?_wrap chosen h
  obtain ⟨name, rule | rule⟩ := node
  · cases hc : chosen id with
    | false =>
      left
      simpa [hc] using hget
    | true =>
      right
      exact ⟨name, rule, rfl, by simpa [hc, PatternNode.wrapped] using hget⟩
  · left
    simpa [PatternNode.wrapped] using hget

/-- With searches around some literals, a sound pattern is still one that compiles. -/
theorem Sound.cleared_wrap (hp : p.Sound) (hid : id < p.size) :
    RawPattern.Cleared (p.wrap chosen) id := by
  refine hp.induction (P := RawPattern.Cleared (p.wrap chosen)) (fun id hid ih ↦ ?_) hid
  obtain ⟨node, hnode⟩ := get?_of_lt hid
  have hsearches : ∀ rule, node.rule = .search rule → rule.rules ≠ [] :=
    fun rule ↦ hp.searches id node rule hnode
  have hrefs : ∀ q ∈ node.references, RawPattern.Cleared (p.wrap chosen) q :=
    fun q hq ↦ ih q ⟨node, hnode, hq⟩
  rcases get?_wrap_cases chosen hnode with hsame | ⟨name, rule, rfl, hwrapped⟩
  · have henter : (p.wrap chosen).enter id = .ok node.references :=
      RawPattern.enter_eq_ok.mpr ⟨node, hsame, rfl, hsearches⟩
    exact .intro henter hrefs
  · have hinner : RawPattern.Cleared (p.wrap chosen) (p.size + id) := by
      have hget := get?_wrap_inner chosen hnode
      refine .intro (RawPattern.enter_eq_ok.mpr ⟨_, hget, rfl, ?_⟩) hrefs
      intro rule hr
      cases hr
    refine .intro (RawPattern.enter_eq_ok.mpr ⟨_, hwrapped, rfl, ?_⟩) ?_
    · rintro rule ⟨⟩
      simp
    · intro q hq
      obtain rfl : q = p.size + id := by simpa [PatternNode.references, Rule.references] using hq
      exact hinner

theorem Sound.exists_compile_wrap (hp : p.Sound) (chosen : PatternId → Bool) :
    ∃ q, (p.wrap chosen).compile = .ok q := by
  rw [RawPattern.compile_eq_ok_iff, RawPattern.wellFormed_iff_cleared]
  exact hp.cleared_wrap hp.nonempty

theorem Sound.wraps_wrap (hp : p.Sound) {q : Pattern} (hq : (p.wrap chosen).compile = .ok q) :
    Wraps p.get? q.get? root root := by
  let B := Bisimilar (p.wrap chosen).get? q.get?
  refine ⟨fun i j ↦ i < p.size ∧ B i j, ⟨hp.nonempty, RawPattern.compile_bisimilar hq⟩, ?_⟩
  rintro i j ⟨hi, hij⟩
  obtain ⟨node, hnode⟩ := get?_of_lt hi
  have hvalid : ∀ k ∈ node.references, ∀ l, B k l → k < p.size ∧ B k l :=
    fun k hk l hkl ↦ ⟨hp.valid i k ⟨node, hnode, hk⟩, hkl⟩
  obtain ⟨o, o', ho, ho', hr⟩ := hij.sameSlots
  rcases get?_wrap_cases chosen hnode with hsame | ⟨name, rule, rfl, hwrapped⟩
  · obtain rfl : o = node := Option.some.inj (ho.symm.trans hsame)
    exact .same ⟨o, o', hnode, ho', hr.mono hvalid fun _ _ ↦ id⟩
  · obtain rfl : o = _ := Option.some.inj (ho.symm.trans hwrapped)
    obtain ⟨name', rule' | ⟨rules, exact, operator⟩⟩ := o'
    · exact hr.2.elim
    obtain ⟨hname, hrules, hexact, hoperator⟩ := hr
    obtain ⟨k, rfl, hk⟩ : ∃ k, rules = [k] ∧ B (p.size + i) k := by
      cases hrules with
      | cons hk hnil =>
        cases hnil
        exact ⟨_, rfl, hk⟩
    obtain rfl : name = name' := hname
    obtain rfl : true = exact := hexact
    obtain rfl : Operator.anyOf = operator := hoperator
    -- Behind the search stands the literal itself, which has no name.
    obtain ⟨inner, ⟨name'', rule''⟩, hinner, hk', hr⟩ := hk.sameSlots
    obtain rfl : inner = _ :=
      Option.some.inj (hinner.symm.trans (get?_wrap_inner chosen hnode))
    obtain rfl : none = name'' := hr.1
    cases rule'' with
    | search rule'' => exact hr.2.elim
    | literal rule'' => exact .wrapped hnode ho' hk' (hr.2.mono hvalid fun _ _ ↦ id)

end Pattern

end TreePattern

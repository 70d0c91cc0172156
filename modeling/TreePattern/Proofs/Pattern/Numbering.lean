import TreePattern.Proofs.Pattern.Acceptance

namespace TreePattern

open Relation

namespace Pattern

abbrev Refers (p : Pattern) : PatternId → PatternId → Prop :=
  TreePattern.Refers p.get?

/-- There is a rule to start from, every reference leads to a rule, every search has sub-rules, and
no rule refers to itself, directly or not. -/
structure Sound (p : Pattern) : Prop where
  nonempty : 0 < p.size
  valid : ∀ id q, p.Refers id q → q < p.size
  searches : ∀ id origin rule, p.get? id = some origin → origin.rule = .search rule →
    rule.rules ≠ []
  acyclic : ∀ id, ¬ TransGen p.Refers id id

/-- What passes from the rules that a rule refers to to that rule holds of every rule. -/
theorem Sound.induction {p : Pattern} (hp : p.Sound) {P : PatternId → Prop}
    (h : ∀ id < p.size, (∀ q, p.Refers id q → P q) → P id) {id : PatternId} (hid : id < p.size) :
    P id := by
  induction hn : height p.Refers p.size id using Nat.strongRecOn generalizing id with
  | _ n ih =>
    refine h id hid fun q hq ↦ ?_
    have hvalid := hp.valid id q hq
    exact ih _ (hn ▸ height_lt_height hq hvalid (hp.acyclic q)) hvalid rfl

theorem get?_of_lt {p : Pattern} {id : PatternId} (h : id < p.size) :
    ∃ origin, p.get? id = some origin :=
  ⟨_, Array.getElem?_eq_getElem h⟩

end Pattern

namespace RawPattern

variable {raw : RawPattern} {path met met' refs order : List PatternId} {id q k l : PatternId}
  {out : Except CompileError (List PatternId)} {p : Pattern}

structure Extends (raw : RawPattern) (met refs met' : List PatternId) : Prop where
  suffix : met <:+ met'
  covers : ∀ q ∈ refs, q ∈ met'
  closed : ∀ id ∈ met', id ∈ met ∨ ∃ refs, raw.enter id = .ok refs ∧ ∀ q ∈ refs, q ∈ met'
  reached : ∀ id ∈ met', id ∈ met ∨ ∃ q ∈ refs, ReflTransGen raw.Refers q id
  nodup : met.Nodup → met'.Nodup

theorem Explores.extends (h : Explores raw path met refs out) (ho : out = .ok met') :
    Extends raw met refs met' := by
  induction h generalizing met' with
  | done path met =>
    cases ho
    exact ⟨List.suffix_refl _, by simp, fun id hi ↦ .inl hi, fun id hi ↦ .inl hi, id⟩
  | cycle | fault | inner => cases ho
  | @old path met rest child out hp hc _ ih =>
    have h := ih ho
    refine ⟨h.suffix, List.forall_mem_cons.mpr ⟨h.suffix.mem hc, h.covers⟩, h.closed,
      fun id hi ↦ (h.reached id hi).imp_right ?_, h.nodup⟩
    exact fun ⟨q, hq, hr⟩ ↦ ⟨q, .tail _ hq, hr⟩
  | @next path met met₁ rest refs child out hp hc he _ _ ih₁ ih₂ =>
    have h₁ := ih₁ rfl
    have h₂ := ih₂ ho
    have hchild : child ∈ met' := h₂.suffix.mem (h₁.suffix.mem List.mem_cons_self)
    refine ⟨((List.suffix_cons _ _).trans h₁.suffix).trans h₂.suffix,
      List.forall_mem_cons.mpr ⟨hchild, h₂.covers⟩, fun id hi ↦ ?_, fun id hi ↦ ?_, fun hn ↦ ?_⟩
    · rcases h₂.closed id hi with hi | hi
      · rcases h₁.closed id hi with hi | ⟨refs', he', hr'⟩
        · rcases List.mem_cons.mp hi with rfl | hi
          · exact .inr ⟨refs, he, fun q hq ↦ h₂.suffix.mem (h₁.covers q hq)⟩
          · exact .inl hi
        · exact .inr ⟨refs', he', fun q hq ↦ h₂.suffix.mem (hr' q hq)⟩
      · exact .inr hi
    · rcases h₂.reached id hi with hi | ⟨q, hq, hr⟩
      · rcases h₁.reached id hi with hi | ⟨q, hq, hr⟩
        · rcases List.mem_cons.mp hi with rfl | hi
          · exact .inr ⟨id, by simp, .refl⟩
          · exact .inl hi
        · exact .inr ⟨child, by simp, .head ((mem_iff_refers he).mp hq) hr⟩
      · exact .inr ⟨q, .tail _ hq, hr⟩
    · exact h₂.nodup (h₁.nodup (List.nodup_cons.mpr ⟨hc, hn⟩))

/-- A list of slots that can be reached. It starts with the root, lists no slot twice, and has with
each slot the slots that this one refers to. -/
structure Lists (raw : RawPattern) (order : List PatternId) : Prop where
  root : order.head? = some raw.root
  nodup : order.Nodup
  reached : ∀ id ∈ order, raw.Reachable id
  closed : ∀ id ∈ order, ∃ refs, raw.enter id = .ok refs ∧ ∀ q ∈ refs, q ∈ order

theorem discoveryOrder_lists (h : raw.discoveryOrder = .ok order) : Lists raw order := by
  rcases discoveryOrder_cases raw with ⟨e, he, hd⟩ | ⟨refs, he, ⟨e, hx, hd⟩ | ⟨met, hx, hd⟩⟩
  · rw [h] at hd; cases hd
  · rw [h] at hd; cases hd
  · rw [h] at hd
    cases hd
    have hm := hx.extends rfl
    refine ⟨?_, List.nodup_reverse.mpr (hm.nodup (by simp)), fun id hi ↦ ?_, fun id hi ↦ ?_⟩
    · obtain ⟨new, rfl⟩ := hm.suffix
      simp
    · rcases hm.reached id (List.mem_reverse.mp hi) with hi | ⟨q, hq, hr⟩
      · exact List.mem_singleton.mp hi ▸ .refl
      · exact .head ((mem_iff_refers he).mp hq) hr
    · simp only [List.mem_reverse] at hi ⊢
      rcases hm.closed id hi with hi | hi
      · exact ⟨refs, List.mem_singleton.mp hi ▸ he, hm.covers⟩
      · exact hi

theorem Lists.defined (hl : Lists raw order) (hi : id ∈ order) :
    ∃ node, raw.get? id = some node ∧ ∀ rule, node.rule = .search rule → rule.rules ≠ [] := by
  obtain ⟨refs, he, -⟩ := hl.closed id hi
  obtain ⟨node, hg, -, hs⟩ := enter_eq_ok.mp he
  exact ⟨node, hg, hs⟩

theorem getElem?_filterMap_of_isSome {α β : Type} {f : α → Option β} {items : List α}
    (h : ∀ a ∈ items, (f a).isSome) (k : ℕ) :
    (items.filterMap f)[k]? = items[k]?.bind f := by
  induction items generalizing k with
  | nil => simp
  | cons a rest ih =>
    obtain ⟨b, hb⟩ := Option.isSome_iff_exists.mp (h a (by simp))
    rw [List.filterMap_cons_some hb]
    cases k with
    | zero => simp [hb]
    | succ k => simpa using ih (fun c hc ↦ h c (.tail _ hc)) k

/-- The rule at a place of the compiled pattern is the node of the slot listed there, with slots
replaced by their places. -/
theorem compile_eq_ok (h : raw.compile = .ok p) : ∃ order, raw.discoveryOrder = .ok order ∧
    Lists raw order ∧ p.size = order.length ∧
    ∀ k, p.get? k = order[k]?.bind fun id ↦ (raw.get? id).map (PatternNode.map order.idxOf) := by
  cases hd : raw.discoveryOrder with
  | error e => simp [compile, hd, bind, Except.bind] at h
  | ok order =>
    have hl := discoveryOrder_lists hd
    have hnode : ∀ id ∈ order, ((raw.get? id).map (PatternNode.map order.idxOf)).isSome := by
      intro id hi
      obtain ⟨node, hg, -⟩ := hl.defined hi
      simp only [hg, Option.map_some, Option.isSome_some]
    simp only [compile, hd, bind, Except.bind, pure, Except.pure, Except.ok.injEq] at h
    subst h
    refine ⟨order, rfl, hl, ?_, fun k ↦ ?_⟩
    · simpa only [Pattern.size, List.size_toArray] using List.filterMap_length_eq_length.mpr hnode
    · simpa only [Pattern.get?, List.getElem?_toArray] using getElem?_filterMap_of_isSome hnode k

/-- A reference of the compiled pattern is one between the slots listed at its ends. -/
theorem Lists.refers (hl : Lists raw order)
    (hget : ∀ k, p.get? k = order[k]?.bind fun id ↦ (raw.get? id).map (PatternNode.map order.idxOf))
    (h : p.Refers k l) : ∃ i j, order[k]? = some i ∧ order[l]? = some j ∧ raw.Refers i j := by
  obtain ⟨origin, hk, hq⟩ := h
  rw [hget, Option.bind_eq_some_iff] at hk
  obtain ⟨i, hi, hm⟩ := hk
  obtain ⟨node, hg, rfl⟩ := Option.map_eq_some_iff.mp hm
  rw [PatternNode.references_map, List.mem_map] at hq
  obtain ⟨j, hj, rfl⟩ := hq
  obtain ⟨refs, he, hr⟩ := hl.closed i (List.mem_of_getElem? hi)
  have hij : raw.Refers i j := ⟨node, hg, hj⟩
  have hjo : j ∈ order := hr j ((mem_iff_refers he).mpr hij)
  exact ⟨i, j, hi, List.getElem?_idxOf hjo, hij⟩

theorem compile_sound (h : raw.compile = .ok p) : p.Sound := by
  have hw : raw.WellFormed := compile_eq_ok_iff.mp ⟨p, h⟩
  obtain ⟨order, -, hl, hsize, hget⟩ := compile_eq_ok h
  refine ⟨?_, fun k l hkl ↦ ?_, fun k origin rule hk hr ↦ ?_, fun k hc ↦ ?_⟩
  · rw [hsize, List.length_pos_iff]
    rintro rfl
    cases hl.root
  · obtain ⟨i, j, -, hj, -⟩ := hl.refers hget hkl
    rw [hsize]
    exact (List.getElem?_eq_some_iff.mp hj).1
  · rw [hget, Option.bind_eq_some_iff] at hk
    obtain ⟨i, hi, hm⟩ := hk
    obtain ⟨node, hg, rfl⟩ := Option.map_eq_some_iff.mp hm
    obtain ⟨node', hg', hs⟩ := hl.defined (List.mem_of_getElem? hi)
    rw [hg] at hg'
    cases hg'
    obtain ⟨name, rule' | rule'⟩ := node
    · cases hr
    · cases hr
      simpa using hs rule' rfl
  · -- A cycle of the compiled pattern is one of the slots listed along it.
    have hlift : ∀ l, TransGen p.Refers k l →
        ∃ i j, order[k]? = some i ∧ order[l]? = some j ∧ TransGen raw.Refers i j := by
      intro l hl'
      induction hl' with
      | single hkl =>
        obtain ⟨i, j, hi, hj, hij⟩ := hl.refers hget hkl
        exact ⟨i, j, hi, hj, .single hij⟩
      | tail _ hlm ih =>
        obtain ⟨i, j, hi, hj, hij⟩ := ih
        obtain ⟨j', m, hj', hm, hjm⟩ := hl.refers hget hlm
        rw [hj] at hj'
        cases hj'
        exact ⟨i, m, hi, hm, hij.tail hjm⟩
    obtain ⟨i, j, hi, hj, hij⟩ := hlift k hc
    rw [hi] at hj
    cases hj
    exact hw.acyclic i (hl.reached i (List.mem_of_getElem? hi)) hij

/-- Compiling accepts exactly the patterns that are well-formed as far as they can be reached, and
returns a sound pattern. What the slots hold that cannot be reached makes no difference. -/
theorem compile_accepts_wellFormed (raw : RawPattern) :
    ((∃ p, raw.compile = .ok p) ↔ raw.WellFormed) ∧
    (∀ p, raw.compile = .ok p → p.Sound) ∧
    ∀ raw' : RawPattern, raw'.root = raw.root →
      (∀ id, raw.Reachable id → raw'.get? id = raw.get? id) →
      ((∃ p, raw'.compile = .ok p) ↔ ∃ p, raw.compile = .ok p) := by
  refine ⟨compile_eq_ok_iff, fun p ↦ compile_sound, fun raw' hroot hget ↦ ?_⟩
  rw [compile_eq_ok_iff, compile_eq_ok_iff, wellFormed_iff_cleared, wellFormed_iff_cleared, hroot]
  exact cleared_congr hget .refl

end RawPattern

end TreePattern

import TreePattern.Proofs.Pattern.Objects

namespace TreePattern

open Json

def RawPattern.references (raw : RawPattern) : List PatternId :=
  raw.slots.toList.flatMap fun slot ↦ slot.elim [] PatternNode.references

namespace Builder

/-- The slots that `b'` has behind those of `b` are trees in post-order with the given roots: every
node refers to smaller slots, and every new slot is referenced once or is a root. -/
structure Grows (b b' : Builder) (count : ℕ) (roots : List PatternId) : Prop where
  within : b.Within b'
  size : b'.slots.size = b.slots.size + count
  defined : ∀ id, b.slots.size ≤ id → id < b'.slots.size →
    ∃ node, b'.get? id = some node ∧ ∀ q ∈ node.references, q < id
  referenced : ∃ inner, (b'.build 0).references = (b.build 0).references ++ inner ∧
    (inner ++ roots).Perm (List.range' b.slots.size count)
  walks : ∀ later root, b'.Within later → ∃ trace, (later.build root).Walks roots trace ∧
    trace.Perm (List.range' b.slots.size count)

variable {b b' b₁ b₂ : Builder} {count count₁ count₂ : ℕ} {roots roots₁ roots₂ : List PatternId}

theorem Grows.refl (b : Builder) : b.Grows b 0 [] where
  within := .refl b
  size := rfl
  defined id hle hlt := by omega
  referenced := ⟨[], by simp, .nil⟩
  walks later root _ := ⟨[], .nil, .nil⟩

theorem perm_range'_append {a c d e : List ℕ} {start : ℕ}
    (h : (a ++ c).Perm (List.range' start count₁))
    (h' : (d ++ e).Perm (List.range' (start + count₁) count₂)) :
    ((a ++ d) ++ (c ++ e)).Perm (List.range' start (count₁ + count₂)) := by
  have hregroup : ((a ++ d) ++ (c ++ e)).Perm ((a ++ c) ++ (d ++ e)) := by
    have hswap : (d ++ c).Perm (c ++ d) := List.perm_append_comm
    simpa only [List.append_assoc] using (hswap.append_right e).append_left a
  rw [← List.range'_append_1]
  exact hregroup.trans (h.append h')

theorem Grows.trans (h : b.Grows b₁ count₁ roots₁) (h' : b₁.Grows b₂ count₂ roots₂) :
    b.Grows b₂ (count₁ + count₂) (roots₁ ++ roots₂) where
  within := h.within.trans h'.within
  size := by rw [h'.size, h.size, Nat.add_assoc]
  defined id hle hlt := by
    by_cases hid : id < b₁.slots.size
    · obtain ⟨node, hg, hq⟩ := h.defined id hle hid
      exact ⟨node, h'.within id node hg, hq⟩
    · exact h'.defined id (Nat.le_of_not_lt hid) hlt
  referenced := by
    obtain ⟨inner, hinner, hperm⟩ := h.referenced
    obtain ⟨inner', hinner', hperm'⟩ := h'.referenced
    rw [h.size] at hperm'
    refine ⟨inner ++ inner', ?_, perm_range'_append hperm hperm'⟩
    rw [hinner', hinner, List.append_assoc]
  walks later root hl := by
    obtain ⟨trace, hw, hperm⟩ := h.walks later root (h'.within.trans hl)
    obtain ⟨trace', hw', hperm'⟩ := h'.walks later root hl
    rw [h.size] at hperm'
    refine ⟨trace ++ trace', hw.append hw', ?_⟩
    simpa using perm_range'_append (a := trace) (c := []) (d := trace') (e := [])
      (by simpa using hperm) (by simpa using hperm')

/-- A node that is put behind the trees of the slots it refers to is the root of a tree. -/
theorem Grows.add {node : PatternNode} (h : b.Grows b' count node.references) :
    b.Grows (b'.add node).2 (count + 1) [(b'.add node).1] where
  within := h.within.trans (b'.within_add node)
  size := by
    rw [Builder.add, Array.size_push, h.size, Nat.add_assoc]
  defined id hle hlt := by
    rw [Builder.add, Array.size_push] at hlt
    by_cases hid : id < b'.slots.size
    · obtain ⟨other, hg, hq⟩ := h.defined id hle hid
      exact ⟨other, b'.within_add node id other hg, hq⟩
    · obtain rfl : id = (b'.add node).1 := by
        rw [Builder.add]
        omega
      refine ⟨node, b'.get?_add node, fun q hq ↦ ?_⟩
      obtain ⟨inner, -, hperm⟩ := h.referenced
      have hmem := hperm.subset (List.mem_append_right inner hq)
      rw [List.mem_range'_1, ← h.size] at hmem
      exact hmem.2
  referenced := by
    obtain ⟨inner, hinner, hperm⟩ := h.referenced
    refine ⟨inner ++ node.references, ?_, ?_⟩
    · rw [← List.append_assoc, ← hinner]
      simp [RawPattern.references, build, Builder.add]
    · rw [List.range'_1_concat, ← h.size]
      exact hperm.append_right [(b'.add node).1]
  walks later root hl := by
    obtain ⟨trace, hw, hperm⟩ := h.walks later root ((b'.within_add node).trans hl)
    refine ⟨(b'.add node).1 :: trace, .single (hl _ node (b'.get?_add node)) hw, ?_⟩
    rw [List.range'_1_concat, ← h.size]
    exact (hperm.cons _).trans (List.perm_append_singleton _ _).symm

end Builder

namespace Pattern.Loader

variable {α β : Type} {load : Load α} {next : α → Load β} {P : α → List PatternId → Prop}
  {Q : β → List PatternId → Prop}

/-- Whenever loading succeeds, it has grown trees in post-order, with roots as said of its
result. -/
def Plants (load : Load α) (P : α → List PatternId → Prop) : Prop :=
  ∀ b a b', load b = .ok (a, b') → ∃ count roots, b.Grows b' count roots ∧ P a roots

theorem Plants.pure {a : α} (h : P a []) : Plants (Pure.pure a) P := by
  intro b a' b' hload
  cases hload
  exact ⟨0, [], .refl b, h⟩

theorem Plants.fail {error : LoadError} : Plants (Loader.fail error) P := by
  intro b a b' hload
  cases hload

theorem Plants.lift {x : Except LoadError α} (h : ∀ a, x = .ok a → P a []) :
    Plants (StateT.lift x) P := by
  cases x with
  | error error =>
    intro b a b' hload
    cases hload
  | ok a => exact .pure (h a rfl)

theorem bind_eq_ok {b b' : Builder} {c : β} (h : (load >>= next) b = .ok (c, b')) :
    ∃ a b₁, load b = .ok (a, b₁) ∧ next a b₁ = .ok (c, b') := by
  change (load b >>= fun pair ↦ next pair.1 pair.2) = _ at h
  obtain ⟨⟨a, b₁⟩, hload, hnext⟩ := exceptBind_eq_ok.mp h
  exact ⟨a, b₁, hload, hnext⟩

theorem Plants.bind (h : Plants load P)
    (hn : ∀ a roots, P a roots → Plants (next a) fun c more ↦ Q c (roots ++ more)) :
    Plants (load >>= next) Q := by
  intro b c b' hload
  obtain ⟨a, b₁, hfirst, hsecond⟩ := bind_eq_ok hload
  obtain ⟨count, roots, hgrows, hp⟩ := h b a b₁ hfirst
  obtain ⟨count', roots', hgrows', hq⟩ := hn a roots hp b₁ c b' hsecond
  exact ⟨count + count', roots ++ roots', hgrows.trans hgrows', hq⟩

theorem Plants.map {f : α → β} (h : Plants load P) (hf : ∀ a roots, P a roots → Q (f a) roots) :
    Plants (load >>= fun a ↦ Pure.pure (f a)) Q :=
  h.bind fun a roots hp ↦ .pure (by simpa using hf a roots hp)

theorem Plants.add {load : Load PatternNode}
    (h : Plants load fun node roots ↦ roots = node.references) :
    Plants (load >>= Loader.add) fun id roots ↦ roots = [id] := by
  intro b id b' hload
  obtain ⟨node, b₁, hfirst, hadd⟩ := bind_eq_ok hload
  obtain ⟨count, roots, hgrows, rfl⟩ := h b node b₁ hfirst
  cases hadd
  exact ⟨count + 1, _, hgrows.add, rfl⟩

def Sprouts (document : Json) : Prop :=
  ∀ path, Plants (node path document) fun id roots ↦ roots = [id]

variable {items : List Json} {members : List (String × Json)} {value : Json}

theorem nodes_plants (h : ∀ item ∈ items, Sprouts item) (path : Path) (position : Nat) :
    Plants (nodes path position items) fun ids roots ↦ roots = ids := by
  induction items generalizing position with
  | nil =>
    rw [nodes]
    exact .pure rfl
  | cons item rest ih =>
    rw [nodes]
    apply (h item List.mem_cons_self _).bind
    intro id roots hid
    apply (ih (fun other ho ↦ h other (.tail _ ho)) _).map
    intro ids roots' hids
    rw [hid, hids, List.singleton_append]

theorem rulesOf_plants (h : ∀ rules, member? members "Rules" = some (.array rules) →
      ∀ rule ∈ rules, Sprouts rule) (path : Path) :
    Plants (rulesOf path members) fun ids roots ↦ roots = ids := by
  rw [rulesOf_eq]
  cases hm : member? members "Rules" with
  | none => exact .pure rfl
  | some value =>
    cases value with
    | null => exact .pure rfl
    | array rules => exact nodes_plants (h rules hm) _ 0
    | bool | number | string | object => exact .fail

theorem constraint_plants (h : ∀ part, value.Contains part → Sprouts part) (path : Path) :
    Plants (constraint path value) fun found roots ↦ roots = found.references := by
  cases value with
  | null | bool | number | string => exact .pure rfl
  | array items =>
    rw [constraint]
    apply (nodes_plants (fun item hi ↦ h item (.of_mem_parts hi (.refl _))) path 0).map
    intro ids roots hids
    exact hids
  | object members =>
    apply (h _ (.refl _) path).map
    intro id roots hid
    exact hid

def referencesOf (attributes : List (String × Constraint)) : List PatternId :=
  attributes.flatMap fun entry ↦ entry.2.references

theorem memberConstraints_plants {role : String → KeyRole} {entry : String × Json}
    (hv : ∀ part, entry.2.Contains part → Sprouts part)
    (hn : ∀ inner, entry.2 = .object inner → role entry.1 = .nested → ∀ path,
      Plants (constraints path (fun _ ↦ .constraint) inner) fun attributes roots ↦
        roots = referencesOf attributes) (path : Path) :
    Plants (memberConstraints path role entry) fun attributes roots ↦
      roots = referencesOf attributes := by
  obtain ⟨key, value⟩ := entry
  cases hr : role key with
  | kind =>
    simp only [memberConstraints, hr]
    exact .pure rfl
  | reserved =>
    simp only [memberConstraints, hr]
    exact .fail
  | nested =>
    cases value with
    | object inner =>
      simp only [memberConstraints, hr]
      exact hn inner rfl hr _
    | null | bool | number | string | array =>
      simp only [memberConstraints, hr]
      exact .fail
  | constraint =>
    simp only [memberConstraints, hr]
    apply (constraint_plants hv _).map
    intro found roots hfound
    simp [referencesOf, hfound]

theorem constraints_plants {role : String → KeyRole}
    (hv : ∀ entry ∈ members, ∀ part, entry.2.Contains part → Sprouts part)
    (hn : ∀ entry ∈ members, ∀ inner, entry.2 = .object inner → role entry.1 = .nested → ∀ path,
      Plants (constraints path (fun _ ↦ .constraint) inner) fun attributes roots ↦
        roots = referencesOf attributes) (path : Path) :
    Plants (constraints path role members) fun attributes roots ↦
      roots = referencesOf attributes := by
  induction members with
  | nil =>
    rw [constraints]
    exact .pure rfl
  | cons entry rest ih =>
    rw [constraints_cons]
    refine (memberConstraints_plants (hv entry List.mem_cons_self) (hn entry List.mem_cons_self)
      _).bind ?_
    intro found roots hfound
    apply (ih (fun other ho ↦ hv other (.tail _ ho)) fun other ho ↦ hn other (.tail _ ho)).map
    intro others roots' hothers
    rw [hfound, hothers, referencesOf, referencesOf, referencesOf, List.flatMap_append]

theorem search_plants (h : ∀ entry ∈ members, ∀ part, entry.2.Contains part → Sprouts part)
    (path : Path) :
    Plants (do
      let rules ← rulesOf path members
      add (← StateT.lift (searchNode path members rules))) fun id roots ↦ roots = [id] := by
  have hrules : ∀ rules, member? members "Rules" = some (.array rules) →
      ∀ rule ∈ rules, Sprouts rule := by
    intro rules hm rule hr
    exact h _ (mem_of_member? hm) rule (.of_mem_parts hr (.refl _))
  rw [← bind_assoc]
  apply Plants.add
  apply (rulesOf_plants hrules path).bind
  intro ids roots hids
  apply Plants.lift
  intro origin horigin
  obtain ⟨exact, -, horigin⟩ := exceptBind_eq_ok.mp horigin
  obtain ⟨operator, -, horigin⟩ := exceptBind_eq_ok.mp horigin
  obtain ⟨-, -, horigin⟩ := exceptBind_eq_ok.mp horigin
  obtain ⟨name, -, horigin⟩ := exceptBind_eq_ok.mp horigin
  cases horigin
  rw [hids, List.append_nil]
  rfl

theorem literal_plants (h : ∀ entry ∈ members, ∀ part, entry.2.Contains part → Sprouts part)
    (path : Path) (kind : String) :
    Plants (do
      let attributes ← constraints path keyRole members
      add ⟨none, .literal ⟨some kind, attributes⟩⟩) fun id roots ↦ roots = [id] := by
  have hconstraints : Plants (constraints path keyRole members) fun attributes roots ↦
      roots = referencesOf attributes := by
    apply constraints_plants h
    intro entry he inner hi _ path
    apply constraints_plants
    · intro other ho part hp
      exact h entry he part (hi ▸ .of_mem_parts (mem_parts_of_mem ho) hp)
    · intro other _ inner _ hrole
      cases hrole
  have hnode : Plants (do
        let attributes ← constraints path keyRole members
        return (⟨none, .literal ⟨some kind, attributes⟩⟩ : PatternNode))
      fun origin roots ↦ roots = origin.references :=
    hconstraints.map fun attributes roots hroots ↦ hroots
  simpa only [bind_assoc, pure_bind] using hnode.add

theorem node_plants (document : Json) : Sprouts document := by
  induction document using extent_induction with
  | _ document ih =>
    intro path
    cases document with
    | object members =>
      -- Only the parts of the members are smaller, hence the hypothesis on all that they contain.
      have hparts : ∀ entry ∈ members, ∀ part, entry.2.Contains part → Sprouts part := by
        intro entry he part hp
        have hlt := extent_lt_of_mem_parts (mem_parts_of_mem he)
        exact ih part (Nat.lt_of_le_of_lt (extent_le_of_contains hp) hlt)
      rw [node]
      cases hm : member? members "NodeType" with
      | none => exact .fail
      | some value =>
        cases value with
        | null | bool | number | array | object => exact .fail
        | string kind =>
          dsimp only
          split
          · exact search_plants hparts path
          · exact literal_plants hparts path kind
    | null | bool | number | string | array =>
      rw [node_of_not_object (by simp)]
      exact .fail

end Pattern.Loader

end TreePattern

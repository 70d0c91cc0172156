import TreePattern.Proofs.Pattern.Exploration

namespace TreePattern.RawPattern

open Relation

abbrev Refers (raw : RawPattern) : PatternId → PatternId → Prop :=
  TreePattern.Refers raw.get?

def Reachable (raw : RawPattern) (id : PatternId) : Prop :=
  ReflTransGen raw.Refers raw.root id

/-- Of the slots that can be reached, all are filled, the searches have sub-rules, and none can be
reached from itself. -/
structure WellFormed (raw : RawPattern) : Prop where
  defined : ∀ id, raw.Reachable id → ∃ node, raw.get? id = some node
  searches : ∀ id node rule, raw.Reachable id → raw.get? id = some node →
    node.rule = .search rule → rule.rules ≠ []
  acyclic : ∀ id, raw.Reachable id → ¬ TransGen raw.Refers id id

inductive Cleared (raw : RawPattern) : PatternId → Prop
  | intro {id : PatternId} {refs : List PatternId} :
      raw.enter id = .ok refs → (∀ q ∈ refs, Cleared raw q) → Cleared raw id

variable {raw : RawPattern} {path met met' refs : List PatternId} {id q : PatternId}
  {e : CompileError} {out : Except CompileError (List PatternId)}

theorem get?_lt {node : PatternNode} (h : raw.get? id = some node) : id < raw.size := by
  by_contra hb
  rw [get?, Array.getElem?_eq_none (Nat.le_of_not_lt hb)] at h
  cases h

theorem mem_iff_refers (h : raw.enter id = .ok refs) : q ∈ refs ↔ raw.Refers id q := by
  obtain ⟨node, hg, rfl, -⟩ := enter_eq_ok.mp h
  constructor
  · exact fun hq ↦ ⟨node, hg, hq⟩
  · rintro ⟨node', hg', hq⟩
    rw [hg] at hg'
    cases hg'
    exact hq

theorem Cleared.enter (h : Cleared raw id) : ∃ refs, raw.enter id = .ok refs := by
  cases h with
  | intro he hb => exact ⟨_, he⟩

theorem Cleared.of_refers (h : Cleared raw id) (hr : raw.Refers id q) : Cleared raw q := by
  cases h with
  | intro he hb => exact hb q ((mem_iff_refers he).mpr hr)

theorem Cleared.of_reaches (h : Cleared raw id) (hr : ReflTransGen raw.Refers id q) :
    Cleared raw q := by
  induction hr with
  | refl => exact h
  | tail _ hq ih => exact ih.of_refers hq

theorem Cleared.acyclic (h : Cleared raw id) : ¬ TransGen raw.Refers id id := by
  induction h with
  | @intro id refs he hb ih =>
    intro hc
    obtain ⟨q, hq, hr⟩ := TransGen.head'_iff.mp hc
    exact ih q ((mem_iff_refers he).mpr hq) (.tail' hr hq)

theorem WellFormed.cleared (h : raw.WellFormed) (hr : raw.Reachable id) : Cleared raw id := by
  -- The slots that can be reached from a slot get fewer along every reference.
  induction hn : height raw.Refers raw.size id using Nat.strongRecOn generalizing id with
  | _ n ih =>
    obtain ⟨node, hg⟩ := h.defined id hr
    have he : raw.enter id = .ok node.references :=
      enter_eq_ok.mpr ⟨node, hg, rfl, fun rule ↦ h.searches id node rule hr hg⟩
    refine .intro he fun q hq ↦ ?_
    have hiq : raw.Refers id q := ⟨node, hg, hq⟩
    have hrq : raw.Reachable q := hr.tail hiq
    obtain ⟨node', hg'⟩ := h.defined q hrq
    exact ih _ (hn ▸ height_lt_height hiq (get?_lt hg') (h.acyclic q hrq)) hrq rfl

theorem wellFormed_iff_cleared : raw.WellFormed ↔ Cleared raw raw.root := by
  refine ⟨fun h ↦ h.cleared .refl, fun h ↦ ⟨fun id hr ↦ ?_, fun id node rule hr hg ↦ ?_,
    fun id hr ↦ ?_⟩⟩
  · obtain ⟨refs, he⟩ := (h.of_reaches hr).enter
    obtain ⟨node, hg, -⟩ := enter_eq_ok.mp he
    exact ⟨node, hg⟩
  · obtain ⟨refs, he⟩ := (h.of_reaches hr).enter
    obtain ⟨node', hg', -, hs⟩ := enter_eq_ok.mp he
    rw [hg] at hg'
    cases hg'
    exact hs rule
  · exact (h.of_reaches hr).acyclic

/-- Every slot behind a walk that ended well is cleared, but for the slots that it is inside of. -/
theorem Explores.cleared (h : Explores raw path met refs out) (ho : out = .ok met')
    (hm : ∀ id ∈ met, id ∉ path → Cleared raw id) :
    (∀ q ∈ refs, Cleared raw q) ∧ ∀ id ∈ met', id ∉ path → Cleared raw id := by
  induction h generalizing met' with
  | done path met =>
    cases ho
    exact ⟨by simp, hm⟩
  | cycle | fault | inner => cases ho
  | @old path met rest child out hp hc _ ih =>
    obtain ⟨hr, hm'⟩ := ih ho hm
    exact ⟨List.forall_mem_cons.mpr ⟨hm child hc hp, hr⟩, hm'⟩
  | @next path met met₁ rest refs child out hp hc he _ _ ih₁ ih₂ =>
    obtain ⟨hr₁, hm₁⟩ := ih₁ rfl fun id hi hn ↦ by
      rw [List.mem_cons, not_or] at hn
      exact hm id ((List.mem_cons.mp hi).resolve_left hn.1) hn.2
    have hchild : Cleared raw child := .intro he hr₁
    obtain ⟨hr₂, hm₂⟩ := ih₂ ho fun id hi hn ↦ by
      by_cases hid : id = child
      · exact hid ▸ hchild
      · exact hm₁ id hi (by simp only [List.mem_cons, not_or]; exact ⟨hid, hn⟩)
    exact ⟨List.forall_mem_cons.mpr ⟨hchild, hr₂⟩, hm₂⟩

/-- A walk along references to cleared slots ends well. -/
theorem Explores.ne_error (h : Explores raw path met refs out) (hr : ∀ q ∈ refs, Cleared raw q)
    (hp : ∀ p ∈ path, ∀ q ∈ refs, TransGen raw.Refers p q) : out ≠ .error e := by
  induction h with
  | done => simp
  | @cycle path met rest child hc =>
    exact absurd (hp child hc child (by simp)) (hr child (by simp)).acyclic
  | old _ _ _ ih =>
    exact ih (fun q hq ↦ hr q (.tail _ hq)) (fun p hp' q hq ↦ hp p hp' q (.tail _ hq))
  | @fault path met rest child e _ _ he =>
    obtain ⟨refs, he'⟩ := (hr child (by simp)).enter
    rw [he] at he'
    cases he'
  | @inner path met rest refs child e _ _ he _ ih =>
    have hchild : ∀ q ∈ refs, raw.Refers child q := fun q hq ↦ (mem_iff_refers he).mp hq
    refine ih (fun q hq ↦ (hr child (by simp)).of_refers (hchild q hq)) fun p hp' q hq ↦ ?_
    rcases List.mem_cons.mp hp' with rfl | hp'
    · exact .single (hchild q hq)
    · exact (hp p hp' child (by simp)).tail (hchild q hq)
  | next _ _ _ _ _ _ ih =>
    exact ih (fun q hq ↦ hr q (.tail _ hq)) (fun p hp' q hq ↦ hp p hp' q (.tail _ hq))

theorem discoveryOrder_eq_ok_iff :
    (∃ order, raw.discoveryOrder = .ok order) ↔ Cleared raw raw.root := by
  rcases discoveryOrder_cases raw with ⟨e, he, hd⟩ | ⟨refs, he, ⟨e, hx, hd⟩ | ⟨met, hx, hd⟩⟩
  · refine ⟨by simp [hd], fun h ↦ ?_⟩
    obtain ⟨refs, he'⟩ := h.enter
    rw [he] at he'
    cases he'
  · refine ⟨by simp [hd], fun h ↦ ?_⟩
    have hr : ∀ q ∈ refs, raw.Refers raw.root q := fun q hq ↦ (mem_iff_refers he).mp hq
    refine absurd rfl (hx.ne_error (e := e) (fun q hq ↦ h.of_refers (hr q hq)) fun p hp q hq ↦ ?_)
    rw [List.mem_singleton.mp hp]
    exact .single (hr q hq)
  · refine ⟨fun _ ↦ .intro he ?_, fun _ ↦ ⟨_, hd⟩⟩
    exact (hx.cleared rfl fun id hi hn ↦ absurd hi hn).1

theorem compile_eq_ok_iff : (∃ p, raw.compile = .ok p) ↔ raw.WellFormed := by
  rw [wellFormed_iff_cleared, ← discoveryOrder_eq_ok_iff]
  cases hd : raw.discoveryOrder with
  | error e => simp [compile, hd, bind, Except.bind]
  | ok order => simp [compile, hd, bind, Except.bind, pure, Except.pure]

theorem enter_congr {raw' : RawPattern} (h : raw'.get? id = raw.get? id) :
    raw'.enter id = raw.enter id := by
  simp only [enter, h]

/-- What the slots hold that cannot be reached has no part in it. -/
theorem cleared_congr {raw' : RawPattern}
    (hget : ∀ id, raw.Reachable id → raw'.get? id = raw.get? id) (hr : raw.Reachable id) :
    Cleared raw' id ↔ Cleared raw id := by
  constructor
  · intro h
    induction h with
    | @intro id refs he hb ih =>
      rw [enter_congr (hget id hr)] at he
      exact .intro he fun q hq ↦ ih q hq (hr.tail ((mem_iff_refers he).mp hq))
  · intro h
    induction h with
    | @intro id refs he hb ih =>
      have he' := he
      rw [← enter_congr (hget id hr)] at he'
      exact .intro he' fun q hq ↦ ih q hq (hr.tail ((mem_iff_refers he).mp hq))

end TreePattern.RawPattern

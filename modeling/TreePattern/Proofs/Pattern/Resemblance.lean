import Mathlib.Data.List.Forall2
import TreePattern.Proofs.Pattern.Reference

namespace TreePattern

section Resemblance

variable (I : PatternId → PatternId → Prop) (A : String → Prop)

def Constraint.Rel : Constraint → Constraint → Prop
  | .scalar a, .scalar b => a = b
  | .pattern i, .pattern j => I i j
  | .sequence is, .sequence js => List.Forall₂ I is js
  | _, _ => False

/-- The same rule, but for the rules that it refers to. Only attributes with names in `A` are
constrained. -/
def Rule.Rel : Rule → Rule → Prop
  | .literal r, .literal q =>
    r.kind = q.kind ∧ List.Forall₂ (fun a b ↦ a.1 = b.1 ∧ A a.1 ∧ Constraint.Rel I a.2 b.2)
      r.attributes q.attributes
  | .search r, .search q =>
    List.Forall₂ I r.rules q.rules ∧ r.exact = q.exact ∧ r.operator = q.operator
  | _, _ => False

def PatternNode.Rel (o q : PatternNode) : Prop :=
  o.name = q.name ∧ Rule.Rel I A o.rule q.rule

end Resemblance

variable {I J : PatternId → PatternId → Prop} {A B : String → Prop} {k l : Constraint} {r q : Rule}
  {o o' : PatternNode} {f g : PatternId → PatternId}

theorem Constraint.rel_eq_iff : Constraint.Rel Eq k l ↔ k = l := by
  cases k <;> cases l <;> simp [Constraint.Rel, List.forall₂_eq_eq_eq]

theorem Rule.rel_eq_iff : Rule.Rel Eq (fun _ ↦ True) r q ↔ r = q := by
  have hentry : (fun a b : String × Constraint ↦
      a.1 = b.1 ∧ True ∧ Constraint.Rel Eq a.2 b.2) = Eq := by
    funext a b
    simp [Constraint.rel_eq_iff, Prod.ext_iff]
  cases r <;> cases q <;> simp only [Rule.Rel, hentry, List.forall₂_eq_eq_eq, Rule.literal.injEq,
    Rule.search.injEq, LiteralRule.ext_iff, SearchRule.ext_iff, reduceCtorEq]

theorem PatternNode.rel_eq_iff : PatternNode.Rel Eq (fun _ ↦ True) o o' ↔ o = o' := by
  obtain ⟨name, rule⟩ := o
  obtain ⟨name', rule'⟩ := o'
  rw [Rel, Rule.rel_eq_iff, mk.injEq]

theorem Constraint.Rel.imp_of_mem (h : ∀ i ∈ k.references, ∀ j, I i j → J i j)
    (hr : Constraint.Rel I k l) : Constraint.Rel J k l := by
  cases k with
  | scalar expected => cases l <;> exact hr
  | pattern id =>
    cases l <;> try exact hr.elim
    exact h id (by simp [references]) _ hr
  | sequence ids =>
    cases l <;> try exact hr.elim
    have hall := (List.forall₂_and_left ids _).mpr ⟨h, hr⟩
    exact hall.imp fun i j hij ↦ hij.1 j hij.2

theorem Rule.Rel.mono (h : ∀ i ∈ r.references, ∀ j, I i j → J i j)
    (ha : ∀ name ∈ r.constrained, A name → B name) (hr : Rule.Rel I A r q) : Rule.Rel J B r q := by
  cases r with
  | literal rule =>
    cases q <;> try exact hr.elim
    have hentry : ∀ entry ∈ rule.attributes,
        (A entry.1 → B entry.1) ∧ ∀ i ∈ entry.2.references, ∀ j, I i j → J i j := by
      intro entry he
      exact ⟨ha entry.1 (List.mem_map.mpr ⟨entry, he, rfl⟩),
        fun i hi ↦ h i (List.mem_flatMap.mpr ⟨entry, he, hi⟩)⟩
    have hall := (List.forall₂_and_left rule.attributes _).mpr ⟨hentry, hr.2⟩
    exact ⟨hr.1, hall.imp fun a b ⟨hab, hname, hA, hc⟩ ↦ ⟨hname, hab.1 hA, hc.imp_of_mem hab.2⟩⟩
  | search rule =>
    cases q <;> try exact hr.elim
    have hall := (List.forall₂_and_left rule.rules _).mpr ⟨h, hr.1⟩
    exact ⟨hall.imp fun i j hij ↦ hij.1 j hij.2, hr.2⟩

/-- Only the pairs of references have to be related, and only the constrained attributes count. -/
theorem PatternNode.Rel.mono (h : ∀ i ∈ o.references, ∀ j, I i j → J i j)
    (ha : ∀ name ∈ o.rule.constrained, A name → B name) (hr : PatternNode.Rel I A o o') :
    PatternNode.Rel J B o o' :=
  ⟨hr.1, hr.2.mono h ha⟩

theorem PatternNode.Rel.imp (h : ∀ i j, I i j → J i j) (hr : PatternNode.Rel I A o o') :
    PatternNode.Rel J A o o' :=
  hr.mono (fun i _ ↦ h i) fun _ _ ↦ id

theorem PatternNode.rel_self (ha : ∀ name ∈ o.rule.constrained, A name) :
    PatternNode.Rel Eq A o o :=
  (rel_eq_iff.mpr rfl).mono (fun _ _ _ ↦ id) fun name hn _ ↦ ha name hn

theorem PatternNode.Rel.eq (hr : PatternNode.Rel Eq A o o') : o = o' :=
  rel_eq_iff.mp (hr.mono (fun _ _ _ ↦ id) fun _ _ _ ↦ trivial)

theorem Constraint.rel_map (h : ∀ j ∈ k.references, I j (f j)) : Constraint.Rel I k (k.map f) := by
  cases k with
  | scalar expected => exact rfl
  | pattern id => exact h id (by simp [references])
  | sequence ids => exact List.forall₂_map_right_iff.mpr (List.forall₂_same.mpr h)

theorem Rule.rel_map (h : ∀ j ∈ r.references, I j (f j)) :
    Rule.Rel I (fun _ ↦ True) r (r.map f) := by
  cases r with
  | literal rule =>
    refine ⟨rfl, List.forall₂_map_right_iff.mpr (List.forall₂_same.mpr fun entry he ↦ ?_)⟩
    refine ⟨rfl, trivial, Constraint.rel_map fun j hj ↦ h j ?_⟩
    exact List.mem_flatMap.mpr ⟨entry, he, hj⟩
  | search rule =>
    exact ⟨List.forall₂_map_right_iff.mpr (List.forall₂_same.mpr h), rfl, rfl⟩

/-- Replacing the numbers of the rules that a node refers to changes nothing else. -/
theorem PatternNode.rel_map (h : ∀ j ∈ o.references, I j (f j)) :
    PatternNode.Rel I (fun _ ↦ True) o (o.map f) :=
  ⟨rfl, Rule.rel_map h⟩

theorem map_eq_map_of_forall₂ {α β γ : Type} {R : α → β → Prop} {u : α → γ} {v : β → γ}
    {as : List α} {bs : List β} (h : ∀ a b, R a b → u a = v b) (hr : List.Forall₂ R as bs) :
    as.map u = bs.map v := by
  induction hr with
  | nil => rfl
  | cons hab _ ih => rw [List.map_cons, List.map_cons, h _ _ hab, ih]

theorem Constraint.Rel.map_eq (h : ∀ i j, I i j → f i = g j) (hr : Constraint.Rel I k l) :
    k.map f = l.map g := by
  cases k <;> cases l <;> try exact hr.elim
  · exact congrArg scalar hr
  · exact congrArg pattern (h _ _ hr)
  · exact congrArg sequence (map_eq_map_of_forall₂ h hr)

theorem Rule.Rel.map_eq (h : ∀ i j, I i j → f i = g j) (hr : Rule.Rel I A r q) :
    r.map f = q.map g := by
  cases r <;> cases q <;> try exact hr.elim
  · obtain ⟨hk, ha⟩ := hr
    have hattributes := map_eq_map_of_forall₂ (u := fun entry ↦ (entry.1, entry.2.map f))
      (v := fun entry ↦ (entry.1, entry.2.map g))
      (fun a b hab ↦ Prod.ext hab.1 (hab.2.2.map_eq h)) ha
    simp only [map, hk, hattributes]
  · obtain ⟨hrules, he, ho⟩ := hr
    simp only [map, map_eq_map_of_forall₂ h hrules, he, ho]

theorem PatternNode.Rel.map_eq (h : ∀ i j, I i j → f i = g j) (hr : PatternNode.Rel I A o o') :
    o.map f = o'.map g := by
  simp only [map, hr.1, hr.2.map_eq h]

section Bisimilarity

variable {get? get?' : PatternId → Option PatternNode} {i j : PatternId}

/-- Two slots hold the same name and the same rule, and the slots that the rules refer to are
related in pairs. -/
def SameSlots (get? get?' : PatternId → Option PatternNode) (I : PatternId → PatternId → Prop)
    (i j : PatternId) : Prop :=
  ∃ o o', get? i = some o ∧ get?' j = some o' ∧ PatternNode.Rel I (fun _ ↦ True) o o'

/-- Two slots are bisimilar if a relation that relates them relates only pairs of slots that are the
same up to that relation. -/
def Bisimilar (get? get?' : PatternId → Option PatternNode) (i j : PatternId) : Prop :=
  ∃ I : PatternId → PatternId → Prop, I i j ∧ ∀ i j, I i j → SameSlots get? get?' I i j

theorem SameSlots.imp (h : ∀ i j, I i j → J i j) (hs : SameSlots get? get?' I i j) :
    SameSlots get? get?' J i j := by
  obtain ⟨o, o', ho, ho', hr⟩ := hs
  exact ⟨o, o', ho, ho', hr.imp h⟩

theorem Bisimilar.sameSlots (h : Bisimilar get? get?' i j) :
    SameSlots get? get?' (Bisimilar get? get?') i j := by
  obtain ⟨I, hij, hI⟩ := h
  exact (hI i j hij).imp fun i j hij ↦ ⟨I, hij, hI⟩

/-- Bisimilar slots are those with the same name and the same rule, the references of which are
bisimilar in pairs. -/
theorem bisimilar_iff : Bisimilar get? get?' i j ↔
    SameSlots get? get?' (Bisimilar get? get?') i j := by
  refine ⟨Bisimilar.sameSlots, fun h ↦ ⟨SameSlots get? get?' (Bisimilar get? get?'), h, ?_⟩⟩
  exact fun i j hs ↦ hs.imp fun i j h ↦ h.sameSlots

end Bisimilarity

end TreePattern

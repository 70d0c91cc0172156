import TreePattern.Proofs.Json.Example
import TreePattern.Proofs.Pattern.Acceptance
import TreePattern.Proofs.Pattern.Isomorphism
import TreePattern.Proofs.Pattern.Reading

namespace TreePattern

open Json

/-- The rule in a slot depicts a document. -/
inductive Depicts (get? : PatternId → Option PatternNode) : Json → PatternId → Prop
  | literal {members : List (String × Json)} {attributes : List (String × Constraint)}
      {id : PatternId} :
      get? id = some ⟨none, .literal ⟨some (Tree.kindOf members), attributes⟩⟩ →
      List.Forall₂ (Asks (Depicts get?)) (attributesOf members) attributes →
      Depicts get? (.object members) id

section Forall₂

variable {α β γ : Type} {R : α → β → Prop} {S : β → γ → Prop} {T : α → γ → Prop} {as : List α}
  {bs : List β} {cs : List γ} {b : β}

theorem forall₂_comp_of_mem (h : ∀ a ∈ as, ∀ b c, R a b → S b c → T a c) (hr : List.Forall₂ R as bs)
    (hs : List.Forall₂ S bs cs) : List.Forall₂ T as cs := by
  induction hr generalizing cs with
  | nil =>
    cases hs
    exact .nil
  | cons hab _ ih =>
    cases hs with
    | cons hbc hs =>
      exact .cons (h _ List.mem_cons_self _ _ hab hbc) (ih (fun a ha ↦ h a (.tail _ ha)) hs)

theorem exists_of_forall₂_mem_right (hr : List.Forall₂ R as bs) (hb : b ∈ bs) :
    ∃ a ∈ as, R a b := by
  induction hr with
  | nil => cases hb
  | @cons a _ _ _ hab _ ih =>
    rcases List.mem_cons.mp hb with rfl | hb
    · exact ⟨a, List.mem_cons_self, hab⟩
    · obtain ⟨a, ha, hr⟩ := ih hb
      exact ⟨a, .tail _ ha, hr⟩

theorem forall₂_imp_of_mem_right {R' : α → β → Prop} (hr : List.Forall₂ R as bs)
    (h : ∀ a, ∀ b ∈ bs, R a b → R' a b) : List.Forall₂ R' as bs := by
  induction hr with
  | nil => exact .nil
  | cons hab _ ih =>
    exact .cons (h _ _ List.mem_cons_self hab) (ih fun a b hb ↦ h a b (.tail _ hb))

end Forall₂

variable {R R' : Json → PatternId → Prop} {I : PatternId → PatternId → Prop} {key : String}
  {value : Json} {constraint constraint' : Constraint} {q : PatternId}

theorem Asks.imp {name : String} (h : Asks R (key, value) (name, constraint))
    (hi : ∀ part id, value.Contains part → R part id → R' part id) :
    Asks R' (key, value) (name, constraint) := by
  cases h with
  | scalar hs => exact .scalar hs
  | pattern hr => exact .pattern (hi _ _ (.refl _) hr)
  | @sequence _ items ids hr =>
    have hmem := (List.forall₂_and_left _ _).mpr ⟨fun item hitem ↦ hitem, hr⟩
    refine .sequence (hmem.imp ?_)
    rintro item id ⟨hitem, hr⟩
    exact hi item id (.of_mem_parts hitem (.refl _)) hr

theorem Asks.trans {name : String}
    (h : ∀ part i j, value.Contains part → R part i → I i j → R' part j)
    (ha : Asks R (key, value) (name, constraint)) (hc : Constraint.Rel I constraint constraint') :
    Asks R' (key, value) (name, constraint') := by
  cases ha with
  | scalar hs =>
    cases constraint' with
    | scalar expected =>
      cases (show _ = expected from hc)
      exact .scalar hs
    | pattern | sequence => exact hc.elim
  | pattern hr =>
    cases constraint' with
    | pattern id => exact .pattern (h _ _ _ (.refl _) hr hc)
    | scalar | sequence => exact hc.elim
  | @sequence _ items ids hr =>
    cases constraint' with
    | sequence ids' =>
      have hitem : ∀ item ∈ items, (array items).Contains item :=
        fun item hi ↦ .of_mem_parts hi (.refl _)
      exact .sequence (forall₂_comp_of_mem (fun item hi i j ↦ h item i j (hitem item hi)) hr hc)
    | scalar | pattern => exact hc.elim

theorem Asks.of_mem_references {name : String} (h : Asks R (key, value) (name, constraint))
    (hq : q ∈ constraint.references) : ∃ part, value.Contains part ∧ R part q := by
  cases h with
  | scalar => cases hq
  | @pattern _ members id hr =>
    obtain rfl := List.mem_singleton.mp hq
    exact ⟨_, .refl _, hr⟩
  | sequence hr =>
    obtain ⟨item, hi, hr⟩ := exists_of_forall₂_mem_right hr hq
    exact ⟨item, .of_mem_parts hi (.refl _), hr⟩

namespace Depicts

variable {get? get?' : PatternId → Option PatternNode} {document : Json} {i j : PatternId}

theorem isObject (h : Depicts get? document i) : ∃ members, document = .object members := by
  cases h with
  | @literal members => exact ⟨members, rfl⟩

/-- What a rule depicts depends only on what the pattern unfolds to. -/
theorem of_bisimilar (h : Depicts get? document i) (hij : Bisimilar get? get?' i j) :
    Depicts get?' document j := by
  induction document using extent_induction generalizing i j with
  | _ document ih =>
    cases h with
    | @literal members attributes _ hget hasks =>
      obtain ⟨origin, ⟨name, rule⟩, ho, ho', hname, hrule⟩ := hij.sameSlots
      rw [hget] at ho
      cases ho
      cases (show none = name from hname)
      cases rule with
      | search rule => exact hrule.elim
      | literal rule =>
        obtain ⟨hkind, hattributes⟩ := hrule
        obtain ⟨kind, attributes'⟩ := rule
        cases (show some (Tree.kindOf members) = kind from hkind)
        refine .literal ho' (forall₂_comp_of_mem ?_ hasks hattributes)
        rintro ⟨key, value⟩ he ⟨name, constraint⟩ ⟨name', constraint'⟩ ha ⟨hn, -, hc⟩
        cases (show name = name' from hn)
        have hpart : ∀ part i j, value.Contains part → Depicts get? part i →
            Bisimilar get? get?' i j → Depicts get?' part j :=
          fun part i j hp hd hb ↦ ih part (extent_lt_of_mem_attributesOf he hp) hd hb
        exact ha.trans hpart hc

theorem cleared {raw : RawPattern} (h : Depicts raw.get? document i) :
    RawPattern.Cleared raw i := by
  induction document using extent_induction generalizing i with
  | _ document ih =>
    cases h with
    | @literal members attributes _ hget hasks =>
      have henter := RawPattern.enter_eq_ok.mpr ⟨_, hget, rfl, fun rule hr ↦ by cases hr⟩
      refine .intro henter fun q hq ↦ ?_
      obtain ⟨⟨name, constraint⟩, hc, hq⟩ := List.mem_flatMap.mp hq
      obtain ⟨⟨key, value⟩, he, ha⟩ := exists_of_forall₂_mem_right hasks hc
      obtain ⟨part, hp, hd⟩ := ha.of_mem_references hq
      exact ih part (extent_lt_of_mem_attributesOf he hp) hd

end Depicts

namespace Json.Exemplary

variable {document : Json} {members : List (String × Json)}

theorem literalObject (h : (object members).Exemplary) :
    LiteralObject members (Tree.kindOf members) := by
  obtain ⟨⟨kind, hkind, hne⟩, hkeys, hnodup⟩ := h.plainNode
  have hof : Tree.kindOf members = kind := by rw [Tree.kindOf, hkind]
  rw [hof]
  refine ⟨hkind, hne, fun key hk hreserved ↦ hkeys key hk ?_, fun value hv ↦ ?_⟩
  · exact List.mem_append_left ["Attributes"] hreserved
  · exact absurd (by simp) (hkeys "Attributes" (List.mem_map_of_mem hv))

theorem constraintsOf_eq (h : (object members).Exemplary) :
    constraintsOf members = attributesOf members := by
  have hkeys := h.plainNode.keys
  clear h
  induction members with
  | nil => rfl
  | cons entry rest ih =>
    obtain ⟨key, value⟩ := entry
    have hrest := ih fun other ho ↦ hkeys other (.tail _ ho)
    have hplain : key ≠ "Attributes" := by
      rintro rfl
      exact hkeys _ List.mem_cons_self (by simp)
    rw [constraintsOf, List.flatMap_cons, ← constraintsOf, hrest]
    dsimp only
    by_cases hk : key = "NodeType"
    · cases hk
      rw [attributesOf_cons_nodeType, if_pos rfl, List.nil_append]
    · rw [attributesOf_cons_of_ne hk, if_neg hk, if_neg hplain, List.singleton_append]

/-- An exemplary document is in the grammar of patterns. -/
theorem isPattern (h : document.Exemplary) : document.IsPattern := by
  induction document using extent_induction with
  | _ document ih =>
    obtain ⟨members, rfl⟩ := h.isObject
    refine .literal h.literalObject fun entry he ↦ ?_
    obtain ⟨key, value⟩ := entry
    rw [h.constraintsOf_eq] at he
    have hpart := mem_parts_of_mem_attributesOf he
    cases value with
    | null | bool | number | string => exact .scalar (Scalar.denotes_iff.mpr rfl)
    | object part => exact .pattern (ih _ (extent_lt_of_mem_parts hpart) (h.of_mem_parts hpart))
    | array items =>
      refine .sequence fun item hi ↦ ih item ?_ (h.of_mem_items hpart hi)
      exact (extent_lt_of_mem_parts hi).trans (extent_lt_of_mem_parts hpart)

end Json.Exemplary

/-- The rule that an exemplary document describes depicts it. -/
theorem Describes.depicts {get? : PatternId → Option PatternNode} {document : Json} {id : PatternId}
    (h : Describes get? document id) (he : document.Exemplary) : Depicts get? document id := by
  induction document using extent_induction generalizing id with
  | _ document ih =>
    cases h with
    | search h =>
      have hobject := he.literalObject
      have hkind := hobject.nodeType.symm.trans h.nodeType
      simp only [Option.some.injEq, string.injEq] at hkind
      exact absurd hkind hobject.ne
    | literal h hget hasks =>
      cases h.nodeType.symm.trans he.literalObject.nodeType
      rw [he.constraintsOf_eq] at hasks
      refine .literal hget ?_
      have hmem := (List.forall₂_and_left _ _).mpr ⟨fun entry he ↦ he, hasks⟩
      refine hmem.imp ?_
      rintro ⟨key, value⟩ ⟨name, constraint⟩ ⟨hv, ha⟩
      refine ha.imp fun part id hp hd ↦ ih part (extent_lt_of_mem_attributesOf hv hp) hd ?_
      have hcontains := Contains.of_mem_parts (mem_parts_of_mem_attributesOf hv) hp
      exact he.of_contains hcontains hd.isObject

/-- An exemplary document is loaded as a pattern that compiles to one that depicts it. -/
theorem Json.Exemplary.exists_compile {document : Json} (h : document.Exemplary) :
    ∃ raw p, RawPattern.ofJson document = .ok raw ∧ raw.compile = .ok p ∧
      Depicts p.get? document Pattern.root := by
  obtain ⟨raw, hload, hdescribes⟩ := RawPattern.exists_ofJson h.isPattern
  have hraw : Depicts raw.get? document raw.root := hdescribes.depicts h
  have hw : raw.WellFormed := RawPattern.wellFormed_iff_cleared.mpr hraw.cleared
  obtain ⟨p, hp⟩ := RawPattern.compile_eq_ok_iff.mpr hw
  exact ⟨raw, p, hload, hp, hraw.of_bisimilar (RawPattern.compile_bisimilar hp)⟩

end TreePattern

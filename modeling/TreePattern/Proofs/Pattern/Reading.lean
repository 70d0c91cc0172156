import TreePattern.Proofs.Pattern.Grammar
import TreePattern.Proofs.Pattern.Loading
import TreePattern.Proofs.Tree.Attribute

namespace TreePattern

open Json

namespace Pattern.Loader

/-- Whatever its path, a document is taken just if it is a pattern, and then as the rule
described. -/
def Reads (document : Json) : Prop :=
  ∀ path, Accepts (node path document) document.IsPattern fun get? id ↦ Describes get? document id

variable {items : List Json} {members : List (String × Json)}

theorem nodes_accepts (h : ∀ item ∈ items, Reads item) (path : Path) (position : Nat) :
    Accepts (nodes path position items) (∀ item ∈ items, item.IsPattern) fun get? ids ↦
      List.Forall₂ (Describes get?) items ids := by
  induction items generalizing position with
  | nil =>
    rw [nodes]
    exact (Accepts.pure fun get? ↦ .nil).iff (by simp)
  | cons item rest ih =>
    rw [nodes]
    have hrest := ih (fun other ho ↦ h other (.tail _ ho)) (position + 1)
    have hload := (h item List.mem_cons_self (path ++ [.index position])).bind fun _ id ↦
      hrest.map (f := (id :: ·)) fun get? ids hids hid ↦ List.Forall₂.cons hid hids
    exact hload.iff List.forall_mem_cons.symm

theorem rulesOf_eq (path : Path) (members : List (String × Json)) :
    rulesOf path members =
      match member? members "Rules" with
      | none | some .null => Pure.pure []
      | some (.array items) => nodes (path ++ [.key "Rules"]) 0 items
      | some _ => Loader.fail (.invalidField path "Rules" .array) := by
  induction members with
  | nil =>
    rw [rulesOf]
    rfl
  | cons entry rest ih =>
    obtain ⟨key, value⟩ := entry
    by_cases hk : key = "Rules"
    · cases hk
      cases value <;> simp [rulesOf, member?]
    · have hrest : member? ((key, value) :: rest) "Rules" = member? rest "Rules" := by
        simp [member?, hk]
      rw [hrest, ← ih]
      cases value <;> simp [rulesOf, hk]

theorem rulesOf_accepts {rules : List Json} (hg : Gives members "Rules" .array [] rules)
    (hr : ∀ rule ∈ rules, Reads rule) (path : Path) :
    Accepts (rulesOf path members) (∀ rule ∈ rules, rule.IsPattern) fun get? ids ↦
      List.Forall₂ (Describes get?) rules ids := by
  rw [rulesOf_eq]
  rcases hg with hgiven | ⟨hnone | hnull, rfl⟩
  · rw [hgiven]
    exact nodes_accepts hr _ 0
  · rw [hnone]
    exact (Accepts.pure fun get? ↦ .nil).iff (by simp)
  · rw [hnull]
    exact (Accepts.pure fun get? ↦ .nil).iff (by simp)

theorem rulesOf_fails (hg : ∀ rules, ¬ Gives members "Rules" .array [] rules) (path : Path) :
    Accepts (rulesOf path members) False fun _ _ ↦ True := by
  rw [rulesOf_eq]
  cases hm : member? members "Rules" with
  | none => exact absurd (.inr ⟨.inl hm, rfl⟩) (hg [])
  | some value =>
    cases value with
    | null => exact absurd (.inr ⟨.inr hm, rfl⟩) (hg [])
    | array items => exact absurd (.inl hm) (hg items)
    | bool | number | string | object => exact .fail

theorem exactOf_eq_ok_iff {path : Path} {exact : Bool} :
    exactOf path members = .ok exact ↔ Gives members "Exact" .bool false exact := by
  rw [exactOf]
  cases hm : member? members "Exact" with
  | none => simp [gives_iff_of_none hm, eq_comm]
  | some value =>
    cases value with
    | null => simp [gives_iff_of_null hm, eq_comm]
    | bool => simp [gives_iff_of_ne_null hm, eq_comm]
    | number | string | array | object => simp [gives_iff_of_ne_null hm]

theorem nameOf_eq_ok_iff {path : Path} {name : Option String} :
    nameOf path members = .ok name ↔
      Gives members "Name" (Option.elim · .null .string) none name := by
  rw [nameOf]
  cases hm : member? members "Name" with
  | none => simp [gives_iff_of_none hm, eq_comm]
  | some value =>
    cases value with
    | null =>
      rw [gives_iff_of_null hm (by cases name <;> simp)]
      simp [eq_comm]
    | string => cases name <;> simp [gives_iff_of_ne_null hm, eq_comm]
    | bool | number | array | object => cases name <;> simp [gives_iff_of_ne_null hm]

theorem ofName?_eq_some_iff {name : String} {operator : Operator} :
    Operator.ofName? name = some operator ↔ operator.name = name := by
  constructor
  · intro h
    unfold Operator.ofName? at h
    split at h <;> cases h <;> rfl
  · rintro rfl
    cases operator <;> rfl

theorem operatorOf_eq_ok_iff {path : Path} {operator : Operator} :
    operatorOf path members = .ok operator ↔
      Gives members "Operator" (fun operator ↦ .string operator.name) .anyOf operator := by
  rw [operatorOf]
  cases hm : member? members "Operator" with
  | none => simp [gives_iff_of_none hm, eq_comm]
  | some value =>
    cases value with
    | null => simp [gives_iff_of_null hm, eq_comm]
    | string name =>
      rw [gives_iff_of_ne_null hm (by simp), Json.string.injEq, ← ofName?_eq_some_iff]
      dsimp only
      cases Operator.ofName? name <;> simp
    | bool | number | array | object => simp [gives_iff_of_ne_null hm]

theorem checkKeys_eq_ok_iff {path : Path} : checkKeys path members = .ok () ↔
    ∀ key ∈ members.map (·.1), key ∈ ["NodeType", "Name", "Rules", "Exact", "Operator"] := by
  have hkeys : (∀ key ∈ members.map (·.1), key ∈ searchKeys) ↔
      members.find? (fun entry ↦ !searchKeys.contains entry.1) = none := by
    simp
  rw [checkKeys, ← searchKeys, hkeys]
  cases members.find? fun entry ↦ !searchKeys.contains entry.1 <;> simp

theorem searchNode_eq_ok_iff {rules : List Json}
    (hkind : member? members "NodeType" = some (.string "MatchRule"))
    (hrules : Gives members "Rules" .array [] rules) (path : Path) (ids : List PatternId)
    (origin : PatternNode) :
    searchNode path members ids = .ok origin ↔ ∃ name exact operator,
      SearchObject members name rules exact operator ∧
        origin = ⟨name, .search ⟨ids, exact, operator⟩⟩ := by
  constructor
  · intro h
    obtain ⟨exact, hexact, h⟩ := exceptBind_eq_ok.mp h
    obtain ⟨operator, hoperator, h⟩ := exceptBind_eq_ok.mp h
    obtain ⟨⟨⟩, hkeys, h⟩ := exceptBind_eq_ok.mp h
    obtain ⟨name, hname, h⟩ := exceptBind_eq_ok.mp h
    cases h
    exact ⟨name, exact, operator, ⟨hkind, checkKeys_eq_ok_iff.mp hkeys, nameOf_eq_ok_iff.mp hname,
      hrules, exactOf_eq_ok_iff.mp hexact, operatorOf_eq_ok_iff.mp hoperator⟩, rfl⟩
  · rintro ⟨name, exact, operator, h, rfl⟩
    rw [searchNode, exactOf_eq_ok_iff.mpr h.exact, operatorOf_eq_ok_iff.mpr h.operator,
      checkKeys_eq_ok_iff.mpr h.keys, nameOf_eq_ok_iff.mpr h.name]
    rfl

def constraint (path : Path) : Json → Load Constraint
  | .array items => do return .sequence (← nodes path 0 items)
  | single =>
    match Scalar.ofJson? single with
    | some expected => return .scalar expected
    | none => do return .pattern (← node path single)

theorem constraint_accepts {value : Json} (hv : ∀ part, value.Contains part → Reads part)
    (path : Path) (key : String) :
    Accepts (constraint path value) (IsConstraint IsPattern value) fun get? found ↦
      Asks (Describes get?) (key, value) (key, found) := by
  cases value with
  | null | bool | number | string =>
    exact (Accepts.pure fun get? ↦ .scalar (Scalar.denotes_iff.mpr rfl)).iff
      ⟨fun _ ↦ .scalar (Scalar.denotes_iff.mpr rfl), fun _ ↦ trivial⟩
  | array items =>
    have hitems : ∀ item ∈ items, Reads item := fun item hi ↦ hv item (.of_mem_parts hi (.refl _))
    rw [constraint]
    refine ((nodes_accepts hitems path 0).map fun get? ids hids ↦ .sequence hids).iff
      ⟨fun h ↦ .sequence h, fun h ↦ ?_⟩
    cases h with
    | scalar h => cases Scalar.denotes_iff.mp h
    | pattern h => cases h
    | sequence h => exact h
  | object members =>
    refine ((hv _ (.refl _) path).map fun get? id hid ↦ .pattern hid).iff
      ⟨fun h ↦ .pattern h, fun h ↦ ?_⟩
    cases h with
    | scalar h => cases Scalar.denotes_iff.mp h
    | pattern h => exact h

def memberConstraints (path : Path) (role : String → KeyRole) :
    String × Json → Load (List (String × Constraint))
  | (key, value) =>
    match role key, value with
    | .kind, _ => return []
    | .reserved, _ => Loader.fail (.unexpectedField path key .literal)
    | .nested, .object members =>
      constraints (path ++ [.key "Attributes"]) (fun _ ↦ .constraint) members
    | .nested, _ => Loader.fail (.invalidField path "Attributes" .object)
    | .constraint, value => do return [(key, ← constraint (path ++ [.key key]) value)]

theorem constraints_cons (path : Path) (role : String → KeyRole) (entry : String × Json)
    (rest : List (String × Json)) :
    constraints path role (entry :: rest) = (do
      let found ← memberConstraints path role entry
      return found ++ (← constraints path role rest)) := by
  obtain ⟨key, value⟩ := entry
  cases hr : role key <;> cases value <;>
    simp [constraints, memberConstraints, hr, constraint, Scalar.ofJson?]

def roleEntries (role : String → KeyRole) (entry : String × Json) : List (String × Json) :=
  match role entry.1 with
  | .kind | .reserved => []
  | .nested => entry.2.membersOf
  | .constraint => [entry]

def Fits (role : String → KeyRole) (entry : String × Json) : Prop :=
  match role entry.1 with
  | .kind | .constraint => True
  | .reserved => False
  | .nested => ∃ inner, entry.2 = .object inner

variable {entry : String × Json}

theorem memberConstraints_accepts {role : String → KeyRole}
    (hv : role entry.1 = .constraint → ∀ path,
      Accepts (constraint path entry.2) (IsConstraint IsPattern entry.2) fun get? found ↦
        Asks (Describes get?) entry (entry.1, found))
    (hn : ∀ inner, entry.2 = .object inner → role entry.1 = .nested → ∀ path,
      Accepts (constraints path (fun _ ↦ .constraint) inner)
        (∀ entry ∈ inner, IsConstraint IsPattern entry.2) fun get? attributes ↦
          List.Forall₂ (Asks (Describes get?)) inner attributes) (path : Path) :
    Accepts (memberConstraints path role entry)
      (Fits role entry ∧ ∀ inner ∈ roleEntries role entry, IsConstraint IsPattern inner.2)
      fun get? attributes ↦
        List.Forall₂ (Asks (Describes get?)) (roleEntries role entry) attributes := by
  obtain ⟨key, value⟩ := entry
  dsimp only at hv hn
  cases hr : role key with
  | kind =>
    simp only [memberConstraints, Fits, roleEntries, hr]
    exact (Accepts.pure fun get? ↦ .nil).iff (by simp)
  | reserved =>
    simp only [memberConstraints, Fits, roleEntries, hr]
    exact Accepts.fail.iff (by simp)
  | nested =>
    cases value with
    | object inner =>
      simp only [memberConstraints, Fits, roleEntries, hr, membersOf]
      exact (hn inner rfl hr _).iff (by simp)
    | null | bool | number | string | array =>
      simp only [memberConstraints, Fits, roleEntries, hr]
      exact Accepts.fail.iff (by simp)
  | constraint =>
    simp only [memberConstraints, Fits, roleEntries, hr]
    have hload := (hv hr (path ++ [.key key])).map (f := fun found ↦ [(key, found)])
      fun get? found hfound ↦ List.Forall₂.cons hfound .nil
    exact hload.iff (by simp)

theorem constraints_accepts (role : String → KeyRole)
    (hv : ∀ entry ∈ members, role entry.1 = .constraint → ∀ path,
      Accepts (constraint path entry.2) (IsConstraint IsPattern entry.2) fun get? found ↦
        Asks (Describes get?) entry (entry.1, found))
    (hn : ∀ entry ∈ members, ∀ inner, entry.2 = .object inner → role entry.1 = .nested → ∀ path,
      Accepts (constraints path (fun _ ↦ .constraint) inner)
        (∀ entry ∈ inner, IsConstraint IsPattern entry.2) fun get? attributes ↦
          List.Forall₂ (Asks (Describes get?)) inner attributes) (path : Path) :
    Accepts (constraints path role members)
      (∀ entry ∈ members, Fits role entry ∧
        ∀ inner ∈ roleEntries role entry, IsConstraint IsPattern inner.2)
      fun get? attributes ↦
        List.Forall₂ (Asks (Describes get?)) (members.flatMap (roleEntries role)) attributes := by
  induction members with
  | nil =>
    rw [constraints]
    exact (Accepts.pure fun get? ↦ .nil).iff (by simp)
  | cons entry rest ih =>
    have hentry := memberConstraints_accepts (hv entry List.mem_cons_self)
      (hn entry List.mem_cons_self) path
    have hrest := ih (fun other ho ↦ hv other (.tail _ ho)) fun other ho ↦ hn other (.tail _ ho)
    rw [constraints_cons, List.flatMap_cons]
    have hload := hentry.bind fun _ found ↦ hrest.map (f := (found ++ ·))
      fun get? others ho hf ↦ List.rel_append hf ho
    exact hload.iff (by rw [List.forall_mem_cons])

theorem keyRole_cases (key : String) :
    key = "NodeType" ∧ keyRole key = .kind ∨
      key ∈ ["Rules", "Exact", "Operator"] ∧ keyRole key = .reserved ∨
      key = "Attributes" ∧ keyRole key = .nested ∨
      key ∉ ["NodeType", "Rules", "Exact", "Operator", "Attributes"] ∧
        keyRole key = .constraint := by
  unfold keyRole
  split <;> simp_all

theorem fits_keyRole_iff {key : String} {value : Json} : Fits keyRole (key, value) ↔
    key ∉ ["Rules", "Exact", "Operator"] ∧
    (key = "Attributes" → ∃ inner, value = .object inner) := by
  rcases keyRole_cases key with ⟨rfl, hr⟩ | ⟨hk, hr⟩ | ⟨rfl, hr⟩ | ⟨hk, hr⟩
  all_goals simp_all [Fits]

theorem flatMap_roleEntries (h : ∀ entry ∈ members, Fits keyRole entry) :
    members.flatMap (roleEntries keyRole) = constraintsOf members := by
  apply List.flatMap_congr
  rintro ⟨key, value⟩ hm
  have hfits := h _ hm
  rcases keyRole_cases key with ⟨rfl, hr⟩ | ⟨hk, hr⟩ | ⟨rfl, hr⟩ | ⟨hk, hr⟩
  all_goals simp_all [Fits, roleEntries]

theorem plain_accepts {inner : List (String × Json)}
    (hr : ∀ entry ∈ inner, ∀ part, entry.2.Contains part → Reads part) (path : Path) :
    Accepts (constraints path (fun _ ↦ .constraint) inner)
      (∀ entry ∈ inner, IsConstraint IsPattern entry.2) fun get? attributes ↦
        List.Forall₂ (Asks (Describes get?)) inner attributes := by
  have hload := constraints_accepts (fun _ ↦ .constraint)
    (fun entry he _ path ↦ constraint_accepts (hr entry he) path entry.1)
    (fun entry he inner hi hrole ↦ by cases hrole) path
  have hentries : roleEntries (fun _ ↦ .constraint) = fun entry ↦ [entry] := rfl
  rw [hentries, List.flatMap_singleton'] at hload
  exact hload.iff (by simp [Fits])

theorem literalObject_iff {kind : String} : LiteralObject members kind ↔
    member? members "NodeType" = some (.string kind) ∧ kind ≠ "MatchRule" ∧
      ∀ entry ∈ members, Fits keyRole entry := by
  constructor
  · intro h
    refine ⟨h.nodeType, h.ne, fun entry he ↦ ?_⟩
    rw [fits_keyRole_iff]
    refine ⟨h.keys entry.1 (List.mem_map_of_mem he), fun hk ↦ h.attributes entry.2 ?_⟩
    rwa [← hk]
  · rintro ⟨hkind, hne, hfits⟩
    refine ⟨hkind, hne, fun key hk ↦ ?_, fun value hv ↦ ?_⟩
    · obtain ⟨entry, he, rfl⟩ := List.mem_map.mp hk
      exact (fits_keyRole_iff.mp (hfits entry he)).1
    · exact (fits_keyRole_iff.mp (hfits _ hv)).2 rfl

theorem literal_isPattern_iff {kind : String}
    (hkind : member? members "NodeType" = some (.string kind)) (hne : kind ≠ "MatchRule") :
    (object members).IsPattern ↔ ∀ entry ∈ members, Fits keyRole entry ∧
      ∀ inner ∈ roleEntries keyRole entry, IsConstraint IsPattern inner.2 := by
  constructor
  · intro h entry he
    cases h with
    | search h => cases hkind.symm.trans h.nodeType; exact absurd rfl hne
    | literal h hconstraints =>
      have hfits := (literalObject_iff.mp h).2.2
      rw [← flatMap_roleEntries hfits] at hconstraints
      exact ⟨hfits entry he, fun inner hi ↦
        hconstraints inner (List.mem_flatMap.mpr ⟨entry, he, hi⟩)⟩
  · intro h
    have hfits : ∀ entry ∈ members, Fits keyRole entry := fun entry he ↦ (h entry he).1
    refine .literal (literalObject_iff.mpr ⟨hkind, hne, hfits⟩) fun inner hi ↦ ?_
    rw [← flatMap_roleEntries hfits] at hi
    obtain ⟨entry, he, hi⟩ := List.mem_flatMap.mp hi
    exact (h entry he).2 inner hi

theorem literal_accepts {kind : String} (hkind : member? members "NodeType" = some (.string kind))
    (hne : kind ≠ "MatchRule")
    (hr : ∀ entry ∈ members, ∀ part, entry.2.Contains part → Reads part) (path : Path) :
    Accepts (do
      let attributes ← constraints path keyRole members
      add ⟨none, .literal ⟨some kind, attributes⟩⟩) (object members).IsPattern
      fun get? id ↦ Describes get? (.object members) id := by
  have hinner (entry : String × Json) (he : entry ∈ members) (inner : List (String × Json))
      (hi : entry.2 = .object inner) :
      ∀ other ∈ inner, ∀ part, other.2.Contains part → Reads part :=
    fun other ho part hp ↦ hr entry he part (hi ▸ .of_mem_parts (mem_parts_of_mem ho) hp)
  have hload := constraints_accepts keyRole
    (fun entry he _ path ↦ constraint_accepts (hr entry he) path entry.1)
    (fun entry he inner hi _ path ↦ plain_accepts (hinner entry he inner hi) path) path
  rw [literal_isPattern_iff hkind hne]
  refine (hload.bind fun h attributes ↦ ?_).iff (and_iff_left trivial)
  have hobject : LiteralObject members kind :=
    literalObject_iff.mpr ⟨hkind, hne, fun entry he ↦ (h entry he).1⟩
  refine .of_yields ((add_yields _).mono fun get? id hid hasks ↦ ?_)
  rw [flatMap_roleEntries fun entry he ↦ (h entry he).1] at hasks
  exact .literal hobject hid hasks

theorem search_accepts (hkind : member? members "NodeType" = some (.string "MatchRule"))
    (hr : ∀ entry ∈ members, ∀ part, entry.2.Contains part → Reads part) (path : Path) :
    Accepts (do
      let rules ← rulesOf path members
      add (← StateT.lift (searchNode path members rules))) (object members).IsPattern
      fun get? id ↦ Describes get? (.object members) id := by
  by_cases hg : ∃ rules, Gives members "Rules" .array [] rules
  · obtain ⟨rules, hg⟩ := hg
    have hrules : ∀ rule ∈ rules, Reads rule := by
      intro rule hrule
      rcases hg with hgiven | ⟨-, rfl⟩
      · exact hr _ (mem_of_member? hgiven) rule (.of_mem_parts hrule (.refl _))
      · cases hrule
    have hnode (ids : List PatternId) :
        Accepts (do add (← StateT.lift (searchNode path members ids)))
          (∃ name exact operator, SearchObject members name rules exact operator) fun get? id ↦
          List.Forall₂ (Describes get?) rules ids → Describes get? (.object members) id := by
      have hlift := Accepts.lift (searchNode_eq_ok_iff hkind hg path ids)
      refine (hlift.bind fun _ origin ↦ .of_yields ((add_yields origin).mono ?_)).iff ?_
      · rintro get? id hid ⟨name, exact, operator, hobject, rfl⟩ hids
        exact .search hobject hid hids
      · simp
    rw [search_isPattern_iff hkind hg]
    exact (rulesOf_accepts hg hrules path).bind fun _ ↦ hnode
  · have hnot : ¬ (object members).IsPattern := by
      intro h
      cases h with
      | @search _ _ rules _ _ h => exact hg ⟨rules, h.rules⟩
      | literal h =>
        cases hkind.symm.trans h.nodeType
        exact h.ne rfl
    refine Accepts.iff (Accepts.bind (B := True) (rulesOf_fails (not_exists.mp hg) path) ?_) ?_
    · exact fun h ↦ h.elim
    · exact iff_of_false (fun h ↦ h.1) hnot

theorem node_of_not_object {document : Json} (h : ∀ members, document ≠ .object members)
    (path : Path) : node path document = Loader.fail (.notAnObject path) := by
  cases document with
  | object members => exact absurd rfl (h members)
  | null | bool | number | string | array => simp only [node]

theorem node_accepts (document : Json) : Reads document := by
  induction document using extent_induction with
  | _ document ih =>
    intro path
    cases document with
    | object members =>
      have hnot (hm : ∀ kind, member? members "NodeType" ≠ some (.string kind)) :
          ¬ (object members).IsPattern := by
        intro h
        cases h with
        | search h | literal h => exact hm _ h.nodeType
      have hr : ∀ entry ∈ members, ∀ part, entry.2.Contains part → Reads part := by
        intro entry he part hp
        have hlt := extent_lt_of_mem_parts (mem_parts_of_mem he)
        exact ih part (Nat.lt_of_le_of_lt (extent_le_of_contains hp) hlt)
      rw [node]
      cases hm : member? members "NodeType" with
      | none => exact Accepts.fail.iff (iff_of_false id (hnot (by simp [hm])))
      | some value =>
        cases value with
        | null | bool | number | array | object =>
          exact Accepts.fail.iff (iff_of_false id (hnot (by simp [hm])))
        | string kind =>
          dsimp only
          split
          · subst kind
            exact search_accepts hm hr path
          · exact literal_accepts hm ‹_› hr path
    | null | bool | number | string | array =>
      rw [node_of_not_object (by simp)]
      exact Accepts.fail.iff (iff_of_false id fun h ↦ by cases h)

end Pattern.Loader

namespace RawPattern

variable {document : Json}

theorem exists_ofJson (h : document.IsPattern) :
    ∃ raw, ofJson document = .ok raw ∧ Describes raw.get? document raw.root := by
  obtain ⟨root, b, hload, -, hdescribes⟩ :=
    (Pattern.Loader.node_accepts document []).yields h .empty
  refine ⟨b.build root, ?_, hdescribes b (.refl b)⟩
  rw [ofJson, StateT.run, hload]
  rfl

theorem isPattern_of_ofJson {raw : RawPattern} (h : ofJson document = .ok raw) :
    document.IsPattern := by
  by_contra hnot
  obtain ⟨error, hload⟩ := (Pattern.Loader.node_accepts document []).fails hnot .empty
  rw [ofJson, StateT.run, hload] at h
  cases h

/-- The loader takes just the documents of the grammar, and makes the rules that they describe. -/
theorem ofJson_describes (document : Json) :
    ((∃ raw, ofJson document = .ok raw) ↔ document.IsPattern) ∧
      ∀ raw, ofJson document = .ok raw → Describes raw.get? document raw.root := by
  refine ⟨⟨fun ⟨raw, h⟩ ↦ isPattern_of_ofJson h, fun h ↦ ?_⟩, fun raw h ↦ ?_⟩
  · obtain ⟨raw, hload, -⟩ := exists_ofJson h
    exact ⟨raw, hload⟩
  · obtain ⟨raw', hload, hdescribes⟩ := exists_ofJson (isPattern_of_ofJson h)
    cases hload.symm.trans h
    exact hdescribes

end RawPattern

end TreePattern

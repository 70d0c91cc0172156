import TreePattern.Proofs.Pattern.Loaded
import TreePattern.Proofs.Scalar

namespace TreePattern

open Json

namespace Json

def Tidy : Json → Prop
  | .object members => (members.map (·.1)).Nodup
  | .number (.negative n) => n < 0
  | .number (.float x) => x.isNaN = false ∧ x.isInfinite = false
  | .null | .bool _ | .number (.natural _) | .string _ | .array _ => True

def Proper (document : Json) : Prop :=
  ∀ part, document.Contains part → part.Tidy

theorem proper_iff {document : Json} :
    document.Proper ↔ document.Tidy ∧ ∀ part ∈ document.parts, part.Proper :=
  forall_contains_iff

end Json

namespace Scalar

def Finite (scalar : Scalar) : Prop :=
  ∀ x, scalar = .float x → x.isNaN = false ∧ x.isInfinite = false

theorem ofJson?_toJson (scalar : Scalar) : ofJson? scalar.toJson = some scalar := by
  cases scalar with
  | int n =>
    rw [toJson, ofJson?]
    refine congrArg some (ofNumber_eq_int ?_)
    split
    · rfl
    · next hn =>
      have hpos : 0 ≤ n.toInt := by simpa using Int64.le_iff_toInt_le.mp (Int64.not_lt.mp hn)
      have hlt := n.toInt_lt
      have hbound : n.toInt.toNat < UInt64.size := by
        have hsize : UInt64.size = 2 ^ 64 := rfl
        omega
      have hof : (UInt64.ofNat n.toInt.toNat).toNat = n.toInt.toNat :=
        UInt64.toNat_ofNat_of_lt' hbound
      rw [JsonNumber.toInt?, hof, Int.toNat_of_nonneg hpos]
  | null | bool | float | str => rfl

theorem proper_toJson {scalar : Scalar} (h : scalar.Finite) : scalar.toJson.Proper := by
  rw [proper_iff]
  cases scalar with
  | int n =>
    rw [toJson]
    split
    · next hn => exact ⟨hn, by simp [parts]⟩
    · exact ⟨trivial, by simp [parts]⟩
  | float x => exact ⟨h x rfl, by simp [toJson, parts]⟩
  | null | bool | str => exact ⟨trivial, by simp [toJson, parts]⟩

end Scalar

variable {f g : PatternId → Json} {node : PatternNode} {id : PatternId}

namespace Constraint

def toJson (f : PatternId → Json) : Constraint → Json
  | .scalar expected => expected.toJson
  | .pattern id => f id
  | .sequence ids => .array (ids.map f)

theorem toJson_congr {constraint : Constraint} (h : ∀ q ∈ constraint.references, f q = g q) :
    constraint.toJson f = constraint.toJson g := by
  cases constraint with
  | scalar expected => rfl
  | pattern id => exact h id (List.mem_singleton_self id)
  | sequence ids => exact congrArg Json.array (List.map_congr_left h)

end Constraint

namespace PatternNode

def members (f : PatternId → Json) (node : PatternNode) : List (String × Json) :=
  match node.rule with
  | .literal rule => [
      ("NodeType", .string (rule.kind.getD "")),
      ("Attributes", .object (rule.attributes.map fun entry ↦ (entry.1, entry.2.toJson f)))]
  | .search rule => [
      ("NodeType", .string "MatchRule"),
      ("Name", node.name.elim .null .string),
      ("Rules", .array (rule.rules.map f)),
      ("Exact", .bool rule.exact),
      ("Operator", .string rule.operator.name)]

theorem searchObject_members (f : PatternId → Json) (name : Option String) (rule : SearchRule) :
    SearchObject (members f ⟨name, .search rule⟩) name (rule.rules.map f) rule.exact
      rule.operator :=
  ⟨rfl, by simp [members], .inl rfl, .inl rfl, .inl rfl, .inl rfl⟩

theorem members_congr (h : ∀ q ∈ node.references, f q = g q) : node.members f = node.members g := by
  obtain ⟨name, rule | rule⟩ := node
  · have hentries : rule.attributes.map (fun entry ↦ (entry.1, entry.2.toJson f)) =
        rule.attributes.map fun entry ↦ (entry.1, entry.2.toJson g) := by
      apply List.map_congr_left
      intro entry he
      have hrules : ∀ q ∈ entry.2.references, f q = g q :=
        fun q hq ↦ h q (List.mem_flatMap.mpr ⟨entry, he, hq⟩)
      rw [Constraint.toJson_congr hrules]
    simp only [members, hentries]
  · have hrules : rule.rules.map f = rule.rules.map g := List.map_congr_left h
    simp only [members, hrules]

def Expressible (node : PatternNode) : Prop :=
  match node.rule with
  | .literal rule => node.name = none ∧ (∃ kind, rule.kind = some kind ∧ kind ≠ "MatchRule") ∧
      (rule.attributes.map (·.1)).Nodup ∧
      ∀ entry ∈ rule.attributes, ∀ expected, entry.2 = .scalar expected → expected.Finite
  | .search _ => True

theorem proper_members (h : node.Expressible) (hf : ∀ q ∈ node.references, (f q).Proper) :
    (Json.object (node.members f)).Proper := by
  have hstring (s : String) : (Json.string s).Proper := proper_iff.mpr ⟨trivial, by simp [parts]⟩
  obtain ⟨name, rule | rule⟩ := node
  · obtain ⟨-, -, hnodup, hfinite⟩ := h
    have hentries : ∀ entry ∈ rule.attributes, (entry.2.toJson f).Proper := by
      rintro ⟨key, constraint⟩ he
      have hrules : ∀ q ∈ constraint.references, (f q).Proper :=
        fun q hq ↦ hf q (List.mem_flatMap.mpr ⟨_, he, hq⟩)
      cases constraint with
      | scalar expected => exact Scalar.proper_toJson (hfinite _ he expected rfl)
      | pattern id => exact hrules id (List.mem_singleton_self id)
      | sequence ids =>
        refine proper_iff.mpr ⟨trivial, fun part hp ↦ ?_⟩
        obtain ⟨q, hq, rfl⟩ := List.mem_map.mp hp
        exact hrules q hq
    have hattributes : (Json.object (rule.attributes.map fun entry ↦
        (entry.1, entry.2.toJson f))).Proper := by
      refine proper_iff.mpr ⟨?_, fun part hp ↦ ?_⟩
      · simpa [Tidy, Function.comp_def] using hnodup
      · simp only [parts, List.map_map, List.mem_map, Function.comp_apply] at hp
        obtain ⟨entry, he, rfl⟩ := hp
        exact hentries entry he
    refine proper_iff.mpr ⟨by simp [Tidy, members], ?_⟩
    simp [members, parts, hstring, hattributes]
  · have hname : (name.elim Json.null .string).Proper := by
      cases name with
      | none => exact proper_iff.mpr ⟨trivial, by simp [parts]⟩
      | some s => exact hstring s
    have hrules : (Json.array (rule.rules.map f)).Proper := by
      refine proper_iff.mpr ⟨trivial, fun part hp ↦ ?_⟩
      obtain ⟨q, hq, rfl⟩ := List.mem_map.mp hp
      exact hf q hq
    have hexact : (Json.bool rule.exact).Proper := proper_iff.mpr ⟨trivial, by simp [parts]⟩
    refine proper_iff.mpr ⟨by simp [Tidy, members], ?_⟩
    simp [members, parts, hstring, hname, hrules, hexact]

end PatternNode

namespace RawPattern

variable {α β : Type} {raw : RawPattern} {ids others listed : List PatternId} {start count : ℕ}

/-- The recursive walk in post-order, from left to right: it walks through the slots that a slot
refers to before it lists that slot, and then goes on with the rest of the list. -/
inductive Climbs (raw : RawPattern) : List PatternId → List PatternId → Prop
  | nil : Climbs raw [] []
  | cons {id : PatternId} {rest below others : List PatternId} {node : PatternNode} :
      raw.get? id = some node → Climbs raw node.references below → Climbs raw rest others →
      Climbs raw (id :: rest) (below ++ id :: others)

structure Expressible (raw : RawPattern) : Prop where
  climbs : raw.Climbs [raw.root] (List.range raw.size)
  nodes : ∀ id node, raw.get? id = some node → node.Expressible

/-- The document of the rule in a slot. References to later slots, which a tree in post-order does
not have, are left out. -/
def document (raw : RawPattern) (id : PatternId) : Json :=
  match raw.get? id with
  | none => .null
  | some node => .object (node.members fun q ↦ if q < id then raw.document q else .null)
termination_by id

theorem document_eq {id : PatternId} (hg : raw.get? id = some node)
    (hlt : ∀ q ∈ node.references, q < id) :
    raw.document id = .object (node.members raw.document) := by
  rw [document, hg]
  exact congrArg Json.object (PatternNode.members_congr fun q hq ↦ if_pos (hlt q hq))

def below (raw : RawPattern) (count : ℕ) : Builder :=
  ⟨raw.slots.extract 0 count⟩

theorem below_add (hg : raw.get? id = some node) :
    (raw.below id).add node = (id, raw.below (id + 1)) := by
  have hlt : id < raw.slots.size := get?_lt hg
  have hslot : raw.slots[id] = some node := by
    simpa [get?, Array.getElem?_eq_getElem hlt] using hg
  have hpush := Array.push_extract_getElem (i := 0) hlt
  rw [hslot, Nat.zero_min] at hpush
  have hsize : (raw.slots.extract 0 id).size = id := by
    rw [Array.size_extract, Nat.min_eq_left hlt.le, Nat.sub_zero]
  rw [Builder.add, below, below, hsize, hpush]

theorem Climbs.of_append (h : raw.Climbs (ids ++ others) listed) :
    ∃ first second, listed = first ++ second ∧ raw.Climbs ids first ∧ raw.Climbs others second := by
  induction ids generalizing listed with
  | nil => exact ⟨[], listed, rfl, .nil, h⟩
  | cons id rest ih =>
    rw [List.cons_append] at h
    cases h with
    | @cons _ _ inner _ node hg hinner hrest =>
      obtain ⟨first, second, rfl, hfirst, hsecond⟩ := ih hrest
      exact ⟨inner ++ id :: first, second, by simp, .cons hg hinner hfirst, hsecond⟩

theorem Climbs.range_of_nil (h : raw.Climbs [] (List.range' start count)) : count = 0 := by
  generalize hl : List.range' start count = listed at h
  cases h
  simpa using hl

/-- Slots that follow each other without a gap are divided where the list is. -/
theorem Climbs.range_of_append (h : raw.Climbs (ids ++ others) (List.range' start count)) :
    ∃ count₁ count₂, count = count₁ + count₂ ∧ raw.Climbs ids (List.range' start count₁) ∧
      raw.Climbs others (List.range' (start + count₁) count₂) := by
  obtain ⟨first, second, heq, hfirst, hsecond⟩ := h.of_append
  obtain ⟨count₁, hle, rfl, rfl⟩ := List.range'_eq_append_iff.mp heq
  rw [Nat.mul_one] at hsecond
  exact ⟨count₁, count - count₁, by omega, hfirst, hsecond⟩

/-- The slots below a rule come right before it. -/
theorem Climbs.range_of_single (h : raw.Climbs [id] (List.range' start count)) :
    ∃ node, raw.get? id = some node ∧ start ≤ id ∧ count = id - start + 1 ∧
      raw.Climbs node.references (List.range' start (id - start)) := by
  generalize hl : List.range' start count = listed at h
  cases h with
  | @cons _ _ inner _ node hg hinner hrest =>
    cases hrest
    obtain ⟨count₁, hle, rfl, hlast⟩ := List.range'_eq_append_iff.mp hl
    obtain ⟨rfl, hpos, hnil⟩ := List.range'_eq_cons_iff.mp hlast.symm
    have hnone : count - count₁ - 1 = 0 := by simpa using hnil.symm
    refine ⟨node, hg, by omega, by omega, ?_⟩
    simpa using hinner

theorem Climbs.mem_range (h : raw.Climbs ids listed) (hq : id ∈ ids) : id ∈ listed := by
  induction h with
  | nil => cases hq
  | cons _ _ _ _ ih =>
    rcases List.mem_cons.mp hq with rfl | hq
    · simp
    · simp [ih hq]

end RawPattern

namespace Pattern.Loader

open RawPattern

variable {α β : Type} {raw : RawPattern} {load : Load α} {next : α → Load β} {a : α} {c : β}
  {ids : List PatternId} {start middle stop count : ℕ}

/-- When the slots below one number are there, loading adds those below another one. -/
def Refills (raw : RawPattern) (load : Load α) (a : α) (start stop : ℕ) : Prop :=
  load (raw.below start) = .ok (a, raw.below stop)

theorem Refills.pure : Refills raw (Pure.pure a) a start start := rfl

theorem Refills.bind (h : Refills raw load a start middle)
    (hn : Refills raw (next a) c middle stop) : Refills raw (load >>= next) c start stop := by
  change (load (raw.below start) >>= fun pair ↦ next pair.1 pair.2) = _
  rw [h]
  exact hn

theorem Refills.lift {x : Except LoadError α} (h : x = .ok a) :
    Refills raw (StateT.lift x) a start start := by
  rw [h]
  rfl

theorem Refills.map {f : α → β} (h : Refills raw load a start stop) :
    Refills raw (load >>= fun a ↦ Pure.pure (f a)) (f a) start stop :=
  h.bind .pure

theorem add_refills (hg : raw.get? id = some node) : Refills raw (add node) id id (id + 1) :=
  congrArg Except.ok (below_add hg)

def Recovers (raw : RawPattern) (id : PatternId) : Prop :=
  ∀ start count path, raw.Climbs [id] (List.range' start count) →
    Refills raw (Loader.node path (raw.document id)) id start (start + count)

theorem nodes_refills (h : ∀ q ∈ ids, Recovers raw q)
    (hc : raw.Climbs ids (List.range' start count)) (path : Path) (position : ℕ) :
    Refills raw (nodes path position (ids.map raw.document)) ids start (start + count) := by
  induction ids generalizing start count position with
  | nil =>
    obtain rfl := hc.range_of_nil
    rw [List.map_nil, nodes]
    exact .pure
  | cons id rest ih =>
    rw [← List.singleton_append] at hc
    obtain ⟨count₁, count₂, rfl, hfirst, hrest⟩ := hc.range_of_append
    rw [List.map_cons, nodes, ← Nat.add_assoc]
    refine (h id List.mem_cons_self start count₁ _ hfirst).bind ?_
    exact (ih (fun q hq ↦ h q (.tail _ hq)) hrest _).map

theorem constraint_refills {found : Constraint} (h : ∀ q ∈ found.references, Recovers raw q)
    (hc : raw.Climbs found.references (List.range' start count)) (path : Path) :
    Refills raw (constraint path (found.toJson raw.document)) found start (start + count) := by
  cases found with
  | scalar expected =>
    have hload : constraint path expected.toJson = Pure.pure (.scalar expected) := by
      have hscalar := Scalar.ofJson?_toJson expected
      cases expected <;> simp only [Scalar.toJson] at hscalar ⊢ <;> simp only [constraint, hscalar]
    obtain rfl := hc.range_of_nil
    rw [Constraint.toJson, hload]
    exact .pure
  | pattern id =>
    obtain ⟨node, hg, -⟩ := hc.range_of_single
    obtain ⟨members, hdocument⟩ : ∃ members, raw.document id = .object members := by
      rw [document, hg]
      exact ⟨_, rfl⟩
    have hload := h id (List.mem_singleton_self id) start count path hc
    rw [Constraint.toJson, hdocument]
    rw [hdocument] at hload
    exact hload.map
  | sequence ids =>
    rw [Constraint.toJson, constraint]
    exact (nodes_refills h hc path 0).map

theorem constraints_refills {attributes : List (String × Constraint)}
    (h : ∀ q ∈ referencesOf attributes, Recovers raw q)
    (hc : raw.Climbs (referencesOf attributes) (List.range' start count)) (path : Path) :
    Refills raw (constraints path (fun _ ↦ .constraint)
        (attributes.map fun entry ↦ (entry.1, entry.2.toJson raw.document)))
      attributes start (start + count) := by
  induction attributes generalizing start count with
  | nil =>
    obtain rfl := hc.range_of_nil
    rw [List.map_nil, constraints]
    exact .pure
  | cons entry rest ih =>
    obtain ⟨key, found⟩ := entry
    rw [referencesOf, List.flatMap_cons] at h hc
    obtain ⟨count₁, count₂, rfl, hfirst, hrest⟩ := hc.range_of_append
    have hentry := constraint_refills (fun q hq ↦ h q (List.mem_append_left _ hq)) hfirst
      (path ++ [.key key])
    have hothers := ih (fun q hq ↦ h q (List.mem_append_right _ hq)) hrest
    rw [List.map_cons, constraints_cons, ← Nat.add_assoc]
    exact (hentry.map (f := fun found ↦ [(key, found)])).bind hothers.map

theorem literal_refills {kind : String} {attributes : List (String × Constraint)}
    (hg : raw.get? id = some ⟨none, .literal ⟨some kind, attributes⟩⟩) (hne : kind ≠ "MatchRule")
    (h : ∀ q ∈ referencesOf attributes, Recovers raw q)
    (hc : raw.Climbs (referencesOf attributes) (List.range' start count)) (hid : start + count = id)
    (path : Path) :
    Refills raw (Loader.node path (.object (PatternNode.members raw.document
      ⟨none, .literal ⟨some kind, attributes⟩⟩))) id start (id + 1) := by
  have hinner := constraints_refills h hc (path ++ [.key "Attributes"])
  have hattributes : constraints path keyRole (PatternNode.members raw.document
        ⟨none, .literal ⟨some kind, attributes⟩⟩) =
      constraints (path ++ [.key "Attributes"]) (fun _ ↦ .constraint)
        (attributes.map fun entry ↦ (entry.1, entry.2.toJson raw.document)) := by
    simp [PatternNode.members, constraints_cons, memberConstraints, keyRole, constraints]
  have hkind : member? (PatternNode.members raw.document ⟨none, .literal ⟨some kind, attributes⟩⟩)
    "NodeType" = some (.string kind) := rfl
  rw [hid, ← hattributes] at hinner
  simp only [Loader.node, hkind, if_neg hne]
  exact hinner.bind (add_refills hg)

theorem search_refills {name : Option String} {rule : SearchRule}
    (hg : raw.get? id = some ⟨name, .search rule⟩) (h : ∀ q ∈ rule.rules, Recovers raw q)
    (hc : raw.Climbs rule.rules (List.range' start count)) (hid : start + count = id)
    (path : Path) :
    Refills raw (Loader.node path (.object (PatternNode.members raw.document ⟨name, .search rule⟩)))
      id start (id + 1) := by
  have hrules := nodes_refills h hc (path ++ [.key "Rules"]) 0
  have hobject := PatternNode.searchObject_members raw.document name rule
  have hnode := (searchNode_eq_ok_iff hobject.nodeType hobject.rules path rule.rules _).mpr
    ⟨name, rule.exact, rule.operator, hobject, rfl⟩
  have hlisted : rulesOf path (PatternNode.members raw.document ⟨name, .search rule⟩) =
      nodes (path ++ [.key "Rules"]) 0 (rule.rules.map raw.document) := by
    rw [rulesOf_eq]
    rfl
  rw [hid, ← hlisted] at hrules
  simp only [Loader.node, hobject.nodeType, if_pos]
  exact hrules.bind ((Refills.lift hnode).bind (add_refills hg))

theorem node_refills (hr : ∀ id node, raw.get? id = some node → node.Expressible) (id : PatternId) :
    Recovers raw id := by
  induction id using Nat.strong_induction_on with
  | _ id ih =>
    intro start count path hc
    obtain ⟨node, hg, hle, rfl, hinner⟩ := hc.range_of_single
    have hid : start + (id - start) = id := Nat.add_sub_cancel' hle
    have hlt : ∀ q ∈ node.references, q < id := by
      intro q hq
      have hmem := hinner.mem_range hq
      rw [List.mem_range'_1, hid] at hmem
      exact hmem.2
    have hbelow : ∀ q ∈ node.references, Recovers raw q := fun q hq ↦ ih q (hlt q hq)
    have hexpressible := hr id node hg
    rw [document_eq hg hlt, ← Nat.add_assoc, hid]
    obtain ⟨name, rule | rule⟩ := node
    · obtain ⟨rfl, ⟨kind, hkind, hne⟩, -⟩ := hexpressible
      obtain ⟨_, attributes⟩ := rule
      cases hkind
      exact literal_refills hg hne hbelow hinner hid path
    · exact search_refills hg hbelow hinner hid path

end Pattern.Loader

namespace RawPattern

variable {raw : RawPattern}

theorem proper_document (hr : ∀ id node, raw.get? id = some node → node.Expressible)
    (id : PatternId) : (raw.document id).Proper := by
  have hnull : Json.null.Proper := proper_iff.mpr ⟨trivial, by simp [parts]⟩
  induction id using Nat.strong_induction_on with
  | _ id ih =>
    rw [document]
    cases hg : raw.get? id with
    | none => exact hnull
    | some node =>
      refine PatternNode.proper_members (hr id node hg) fun q _ ↦ ?_
      split
      · exact ih q ‹_›
      · exact hnull

/-- Each pattern whose rules are a tree numbered in post-order, with searches of any sort and
literals that ask for a kind, is what some document describes, slot by slot. -/
theorem ofJson_expresses (h : raw.Expressible) :
    ∃ document : Json, document.Proper ∧ ofJson document = .ok raw := by
  refine ⟨raw.document raw.root, proper_document h.nodes raw.root, ?_⟩
  have hc := h.climbs
  rw [List.range_eq_range'] at hc
  have hload : Pattern.Loader.node [] (raw.document raw.root) (raw.below 0) =
      .ok (raw.root, raw.below (0 + raw.size)) := Pattern.Loader.node_refills h.nodes _ _ _ [] hc
  have hempty : raw.below 0 = .empty := by simp [below, Builder.empty]
  have hall : raw.below (0 + raw.size) = ⟨raw.slots⟩ := by simp [below, size]
  rw [hempty, hall] at hload
  rw [ofJson, StateT.run, hload]
  rfl

/-- A literal with constraints on attributes whose names are reserved: a literal that asks that an
attribute is null and that another one is an empty list, a search without sub-rules, and a third. -/
def reservedNames : RawPattern :=
  ⟨#[some ⟨none, .literal ⟨some "", [("Exact", .scalar .null), ("Rules", .sequence [])]⟩⟩,
    some ⟨some "used", .search ⟨[], true, .not⟩⟩,
    some ⟨none, .literal ⟨some "Call", [("Attributes", .pattern 0), ("NodeType", .sequence [1]),
      ("Name", .scalar (.float ⟨0x3FD5555555555555⟩))]⟩⟩], 2⟩

theorem ofJson_expresses_reserved : reservedNames.Expressible ∧
    ∃ document : Json, document.Proper ∧ ofJson document = .ok reservedNames := by
  have hsearch : reservedNames.Climbs [1] ([] ++ 1 :: []) := .cons rfl .nil .nil
  have hparts : reservedNames.Climbs [0, 1] ([] ++ 0 :: [1]) := .cons rfl .nil hsearch
  have hclimbs : reservedNames.Climbs [2] ([0, 1] ++ 2 :: []) := .cons rfl hparts .nil
  have hthird : (⟨0x3FD5555555555555⟩ : Binary64).isNaN = false ∧
      (⟨0x3FD5555555555555⟩ : Binary64).isInfinite = false := by decide
  have hnodes : ∀ id node, reservedNames.get? id = some node → node.Expressible := by
    intro (id : ℕ) node hg
    have hlt : id < 3 := get?_lt hg
    obtain rfl | rfl | rfl : id = 0 ∨ id = 1 ∨ id = 2 := by omega
    all_goals cases hg
    · exact ⟨rfl, ⟨_, rfl, by decide⟩, by decide, by simp [Scalar.Finite]⟩
    · trivial
    · exact ⟨rfl, ⟨_, rfl, by decide⟩, by decide, by simp [Scalar.Finite, hthird]⟩
  have h : reservedNames.Expressible := ⟨hclimbs, hnodes⟩
  exact ⟨h, ofJson_expresses h⟩

end RawPattern

end TreePattern

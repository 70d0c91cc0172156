import TreePattern.Proofs.Json.Example
import TreePattern.Proofs.Scalar
import TreePattern.Proofs.Tree.Arena

namespace TreePattern

namespace Json

def HasKind (document : Json) (kind : String) : Prop :=
  ∃ members, document = .object members ∧ member? members "NodeType" = some (.string kind)

def isNull : Json → Bool
  | .null => true
  | _ => false

def presentOf (members : List (String × Json)) : List (String × Json) :=
  (attributesOf members).filter fun entry ↦ !entry.2.isNull

end Json

namespace Tree

open Json

/-- A field is the one of a member, if the nodes that it holds are related to the objects in the
member. -/
inductive Holds (R : Json → Node → Prop) : String × Json → String × Field → Prop
  | scalar {name : String} {value : Json} {scalar : Scalar} :
      value.StandsFor scalar → Holds R (name, value) (name, .scalar scalar)
  | node {name : String} {members : List (String × Json)} {child : Node} :
      R (.object members) child → Holds R (name, .object members) (name, .node child)
  | nodes {name : String} {items : List Json} {children : List Node} :
      List.Forall₂ R items children → Holds R (name, .array items) (name, .nodes children)
  | brokenObject {name : String} {members : List (String × Json)} :
      (∀ kind, ¬ (object members).HasKind kind) → Holds R (name, .object members)
        (name, .broken ⟨"attribute " ++ name ++ " is an object without a NodeType", none⟩)
  | brokenArray {name : String} {items : List Json} {item : Json} :
      item ∈ items → (∀ kind, ¬ item.HasKind kind) → Holds R (name, .array items)
        (name, .broken
          ⟨"attribute " ++ name ++ " is an array holding values that are not nodes", none⟩)

/-- A node, without regard to its number and those of the nodes below it, is the one that a document
represents: it has the kind of the document and a field for each attribute that is not null. -/
inductive Represents : Json → Node → Prop
  | intro {members : List (String × Json)} {kind : String} {n : Node} :
      member? members "NodeType" = some (.string kind) → n.kind = .ok kind →
      List.Forall₂ (Holds Represents) (presentOf members) n.fields → Represents (.object members) n

/-- A document is refused: its root is no object, or its kind is not there or not a string. -/
inductive Refused : Json → LoadError → Prop
  | notAnObject {document : Json} :
      (∀ members, document ≠ .object members) → Refused document (.notAnObject [])
  | missing {members : List (String × Json)} :
      member? members "NodeType" = none → Refused (.object members) (.missingNodeType [])
  | null {members : List (String × Json)} :
      member? members "NodeType" = some .null → Refused (.object members) (.missingNodeType [])
  | notAString {members : List (String × Json)} {value : Json} :
      member? members "NodeType" = some value → value ≠ .null → (∀ kind, value ≠ .string kind) →
      Refused (.object members) (.invalidField [] "NodeType" .string)

end Tree

open Json

theorem Json.isNode_iff {document : Json} : document.isNode = true ↔
    ∃ kind, document.HasKind kind := by
  constructor
  · intro h
    cases document with
    | object members =>
      rw [isNode, isNodeObject] at h
      split at h
      · exact ⟨_, members, rfl, ‹_›⟩
      · cases h
    | null | bool | number | string | array => cases h
  · rintro ⟨kind, members, rfl, hkind⟩
    rw [isNode, isNodeObject, hkind]

namespace Json

variable {name : String} {value : Json} {rest : List (String × Json)}

theorem presentOf_cons_nodeType : presentOf (("NodeType", value) :: rest) = presentOf rest := by
  simp [presentOf, attributesOf]

theorem presentOf_cons_null : presentOf ((name, .null) :: rest) = presentOf rest := by
  by_cases hname : name = "NodeType" <;> simp [presentOf, attributesOf, hname, isNull]

theorem presentOf_cons_of_ne (hname : name ≠ "NodeType") (hv : value ≠ .null) :
    presentOf ((name, value) :: rest) = (name, value) :: presentOf rest := by
  have hnull : value.isNull = false := by
    cases value with
    | null => exact absurd rfl hv
    | bool | number | string | array | object => rfl
  simp [presentOf, attributesOf, hname, hnull]

end Json

namespace Tree

variable {members : List (String × Json)} {items : List Json} {value : Json} {n : Node}
  {name : String}

theorem member?_kindOf (h : isNodeObject members = true) :
    member? members "NodeType" = some (.string (kindOf members)) := by
  rw [isNodeObject] at h
  split at h
  · rw [kindOf, ‹member? members "NodeType" = _›]
  · cases h

theorem represents_number (h : isNodeObject members = true)
    (hfields : ∀ next, List.Forall₂ (Holds Represents) (presentOf members)
      (Node.numberFields next (fieldsOf members)).1) (next : Nat) :
    Represents (.object members) ((nodeOf members).number next).1 := by
  rw [number_nodeOf]
  exact .intro (member?_kindOf h) rfl (hfields (next + 1))

/-- The field of a member that holds neither a node nor a list of nodes. -/
theorem holds_leafField {R : Json → Node → Prop} (hv : value ≠ .null)
    (ho : ∀ members, value = .object members → isNodeObject members = false)
    (ha : ∀ items, value = .array items → items.all isNode = false) :
    Holds R (name, value) (name, leafField name value) := by
  cases value with
  | null => exact absurd rfl hv
  | bool | number | string => exact .scalar (Scalar.standsFor_iff.mpr ⟨hv, rfl⟩)
  | object members =>
    apply Holds.brokenObject
    intro kind hkind
    have hnode := isNode_iff.mpr ⟨kind, hkind⟩
    rw [isNode, ho members rfl] at hnode
    cases hnode
  | array items =>
    have hitem := ha items rfl
    rw [List.all_eq_false] at hitem
    obtain ⟨item, hi, hnot⟩ := hitem
    exact .brokenArray hi fun kind hkind ↦ hnot (isNode_iff.mpr ⟨kind, hkind⟩)

-- By recursion on the document, as for the conversion.
mutual

theorem represents_members (next : Nat) : (rest : List (String × Json)) →
    List.Forall₂ (Holds Represents) (presentOf rest) (Node.numberFields next (fieldsOf rest)).1
  | [] => by
    rw [fieldsOf, Node.numberFields]
    exact .nil
  | (name, value) :: rest => by
    rw [fieldsOf]
    by_cases hname : name = "NodeType"
    · cases hname
      rw [if_pos rfl, presentOf_cons_nodeType]
      exact represents_members next rest
    · rw [if_neg hname]
      by_cases hv : value = .null
      · cases hv
        rw [fieldOf?, presentOf_cons_null]
        exact represents_members next rest
      · obtain ⟨field, hfield, hholds⟩ := represents_member name value hv
        rw [presentOf_cons_of_ne hname hv, hfield]
        dsimp only
        rw [Node.numberFields_cons]
        exact .cons (hholds next) (represents_members _ rest)

theorem represents_member (name : String) : (value : Json) → value ≠ .null →
    ∃ field, fieldOf? name value = some field ∧
      ∀ next, Holds Represents (name, value) (name, (Node.numberField next field).1)
  | .null, h => absurd rfl h
  | .object members, h => by
    by_cases hnode : isNodeObject members = true
    · refine ⟨_, fieldOf?_object hnode name, fun next ↦ ?_⟩
      rw [Node.numberField]
      exact .node (represents_number hnode (fun next ↦ represents_members next members) next)
    · refine ⟨_, by rw [fieldOf?, if_neg hnode], fun next ↦ ?_⟩
      rw [numberField_leafField]
      exact holds_leafField h (fun _ ho ↦ by cases ho; simpa using hnode) (by simp)
  | .array items, h => by
    by_cases hnodes : items.all isNode = true
    · refine ⟨_, fieldOf?_array hnodes name, fun next ↦ ?_⟩
      rw [Node.numberField]
      exact .nodes (represents_items next items hnodes)
    · refine ⟨_, by rw [fieldOf?, if_neg hnodes], fun next ↦ ?_⟩
      rw [numberField_leafField]
      exact holds_leafField h (by simp) fun _ ha ↦ by cases ha; simpa using hnodes
  | .bool b, h => ⟨_, by rw [fieldOf?], fun next ↦ by
    rw [numberField_leafField]
    exact holds_leafField h (by simp) (by simp)⟩
  | .number n, h => ⟨_, by rw [fieldOf?], fun next ↦ by
    rw [numberField_leafField]
    exact holds_leafField h (by simp) (by simp)⟩
  | .string s, h => ⟨_, by rw [fieldOf?], fun next ↦ by
    rw [numberField_leafField]
    exact holds_leafField h (by simp) (by simp)⟩

theorem represents_items (next : Nat) : (items : List Json) → items.all isNode = true →
    List.Forall₂ Represents items (Node.numberForest next (forestOf items)).1
  | [], _ => by
    rw [forestOf, Node.numberForest]
    exact .nil
  | .object members :: rest, h => by
    rw [List.all_cons, Bool.and_eq_true] at h
    obtain ⟨hfirst, hrest⟩ := h
    rw [forestOf_cons, Node.numberForest_cons]
    exact .cons (represents_number hfirst (fun next ↦ represents_members next members) next)
      (represents_items _ rest hrest)
  | .null :: _, h | .bool _ :: _, h | .number _ :: _, h | .string _ :: _, h | .array _ :: _, h => by
    cases h

end

theorem represents_nodeOf (h : isNodeObject members = true) (next : Nat) :
    Represents (.object members) ((nodeOf members).number next).1 :=
  represents_number h (fun next ↦ represents_members next members) next

theorem Represents.exists_hasKind (h : Represents value n) : ∃ kind, value.HasKind kind := by
  cases h with
  | intro hkind => exact ⟨_, _, rfl, hkind⟩

theorem exists_hasKind_of_mem {item : Json} {ns : List Node} (h : List.Forall₂ Represents items ns)
    (hi : item ∈ items) : ∃ kind, item.HasKind kind := by
  induction h with
  | nil => cases hi
  | cons hfirst _ ih =>
    rcases List.mem_cons.mp hi with rfl | hi
    · exact hfirst.exists_hasKind
    · exact ih hi

theorem numberForest_eq_of_represents {ns ms : List Node}
    (hi : ∀ item ∈ items, ∀ n m, Represents item n → Represents item m →
      ∀ next, n.number next = m.number next)
    (hn : List.Forall₂ Represents items ns) (hm : List.Forall₂ Represents items ms) (next : Nat) :
    Node.numberForest next ns = Node.numberForest next ms := by
  induction hn generalizing ms next with
  | nil =>
    cases hm
    rfl
  | cons hfirst hrest ih =>
    cases hm with
    | cons hfirst' hrest' =>
      rw [Node.numberForest_cons, Node.numberForest_cons,
        hi _ List.mem_cons_self _ _ hfirst hfirst', ih (fun item h ↦ hi item (.tail _ h)) hrest']

/-- Two fields of a member differ in numbers only. -/
theorem numberField_eq_of_holds {entry entry' : String × Field}
    (hv : ∀ part n m, value.Contains part → Represents part n → Represents part m →
      ∀ next, n.number next = m.number next)
    (h : Holds Represents (name, value) entry) (h' : Holds Represents (name, value) entry') :
    entry.1 = entry'.1 ∧
      ∀ next, Node.numberField next entry.2 = Node.numberField next entry'.2 := by
  cases h with
  | scalar hs =>
    cases h' with
    | scalar hs' =>
      have hscalar := (Scalar.standsFor_iff.mp hs).2.symm.trans (Scalar.standsFor_iff.mp hs').2
      cases hscalar
      exact ⟨rfl, fun next ↦ rfl⟩
    | node | nodes | brokenObject | brokenArray => cases hs
  | node hn =>
    cases h' with
    | scalar hs => cases hs
    | node hm =>
      refine ⟨rfl, fun next ↦ ?_⟩
      rw [Node.numberField, Node.numberField, hv _ _ _ (.refl _) hn hm]
    | brokenObject hnot =>
      obtain ⟨kind, hkind⟩ := hn.exists_hasKind
      exact absurd hkind (hnot kind)
  | nodes hn =>
    cases h' with
    | scalar hs => cases hs
    | nodes hm =>
      refine ⟨rfl, fun next ↦ ?_⟩
      have hitem := numberForest_eq_of_represents
        (fun item hi n m ↦ hv item n m (.of_mem_parts hi (.refl _))) hn hm next
      rw [Node.numberField, Node.numberField, hitem]
    | brokenArray hi hnot =>
      obtain ⟨kind, hkind⟩ := exists_hasKind_of_mem hn hi
      exact absurd hkind (hnot kind)
  | brokenObject hnot =>
    cases h' with
    | scalar hs => cases hs
    | node hm =>
      obtain ⟨kind, hkind⟩ := hm.exists_hasKind
      exact absurd hkind (hnot kind)
    | brokenObject => exact ⟨rfl, fun next ↦ rfl⟩
  | brokenArray hi hnot =>
    cases h' with
    | scalar hs => cases hs
    | nodes hm =>
      obtain ⟨kind, hkind⟩ := exists_hasKind_of_mem hm hi
      exact absurd hkind (hnot kind)
    | brokenArray => exact ⟨rfl, fun next ↦ rfl⟩

theorem numberFields_eq_of_holds {entries : List (String × Json)}
    {fields fields' : List (String × Field)}
    (he : ∀ entry ∈ entries, ∀ part n m, entry.2.Contains part → Represents part n →
      Represents part m → ∀ next, n.number next = m.number next)
    (h : List.Forall₂ (Holds Represents) entries fields)
    (h' : List.Forall₂ (Holds Represents) entries fields') (next : Nat) :
    Node.numberFields next fields = Node.numberFields next fields' := by
  induction h generalizing fields' next with
  | nil =>
    cases h'
    rfl
  | @cons entry field _ fields hfirst hrest ih =>
    cases h' with
    | @cons _ field' _ fields' hfirst' hrest' =>
      obtain ⟨name, value⟩ := entry
      obtain ⟨hname, hnumber⟩ := numberField_eq_of_holds (he _ List.mem_cons_self) hfirst hfirst'
      rw [Node.numberFields_cons, Node.numberFields_cons, hname, hnumber,
        ih (fun entry h ↦ he entry (.tail _ h)) hrest']

/-- Two nodes that a document represents differ in numbers only. -/
theorem Represents.number_eq {document : Json} {m : Node} (hn : Represents document n)
    (hm : Represents document m) (next : Nat) : n.number next = m.number next := by
  induction document using extent_induction generalizing n m next with
  | _ document ih =>
    cases hn with
    | @intro members kind n hkind hn hfields =>
      cases hm with
      | @intro _ kind' m hkind' hm hfields' =>
        cases hkind.symm.trans hkind'
        have hpart : ∀ entry ∈ presentOf members, ∀ part n m, entry.2.Contains part →
            Represents part n → Represents part m → ∀ next, n.number next = m.number next := by
          intro entry he part n m hp hn hm next
          have hattribute := (List.mem_filter.mp he).1
          exact ih part (extent_lt_of_mem_attributesOf hattribute hp) hn hm next
        have hnumber := numberFields_eq_of_holds hpart hfields hfields' (next + 1)
        obtain ⟨index, _, fields⟩ := n
        obtain ⟨index', _, fields'⟩ := m
        cases hn
        cases hm
        rw [Node.number, Node.number, hnumber]

theorem ofJson_eq_ok_iff {document : Json} {root : Node} :
    ofJson document = .ok root ↔ Represents document root ∧ root.InPreorder := by
  constructor
  · intro h
    obtain ⟨members, kind, rfl, hkind, rfl⟩ := exists_of_ofJson h
    have hnode : isNodeObject members = true := isNode_iff.mpr ⟨kind, members, rfl, hkind⟩
    exact ⟨represents_nodeOf hnode 0, Node.inPreorder_number (nodeOf members)⟩
  · rintro ⟨hroot, horder⟩
    obtain ⟨kind, members, rfl, hkind⟩ := hroot.exists_hasKind
    have hnode : isNodeObject members = true := isNode_iff.mpr ⟨kind, members, rfl, hkind⟩
    have hnumber := hroot.number_eq (represents_nodeOf hnode 0) 0
    have hroot : root = ((nodeOf members).number 0).1 := by
      rw [← horder.number_eq, hnumber, (Node.inPreorder_number (nodeOf members)).number_eq]
    rw [ofJson_object hkind, hroot]

theorem exists_ofJson_iff {document : Json} :
    (∃ root, ofJson document = .ok root) ↔ ∃ kind, document.HasKind kind := by
  constructor
  · rintro ⟨root, h⟩
    exact (ofJson_eq_ok_iff.mp h).1.exists_hasKind
  · rintro ⟨kind, members, rfl, hkind⟩
    exact ⟨_, ofJson_object hkind⟩

theorem ofJson_eq_error_iff {document : Json} {error : LoadError} :
    ofJson document = .error error ↔ Refused document error := by
  constructor
  · intro h
    unfold ofJson at h
    split at h
    · split at h
      · rw [build_eq] at h
        cases h
      · cases h
        exact .null ‹_›
      · cases h
        exact .missing ‹_›
      · cases h
        exact .notAString ‹_› (by simp_all) (by simp_all)
    · cases h
      exact .notAnObject (by simp_all)
  · intro h
    cases h with
    | notAnObject hnot =>
      unfold ofJson
      split
      · exact absurd rfl (hnot _)
      · rfl
    | missing hkind | null hkind => rw [ofJson, hkind]
    | @notAString members value hkind hnull hstring =>
      rw [ofJson, hkind]
      cases value with
      | null => exact absurd rfl hnull
      | string kind => exact absurd rfl (hstring kind)
      | bool | number | array | object => rfl

/-- A document is converted to the tree that it represents, with the nodes numbered in pre-order.
This fails just for a document whose root is no node, and then the fault is at the root. Putting
the nodes of an object together never fails, and makes what the recursion on the object makes. -/
theorem ofJson_represents (document : Json) :
    (∀ root, ofJson document = .ok root ↔ Represents document root ∧ root.InPreorder) ∧
      ((∃ root, ofJson document = .ok root) ↔ ∃ kind, document.HasKind kind) ∧
      (∀ error, ofJson document = .error error ↔ Refused document error) ∧ Path.render [] = "$" ∧
      ∀ members, document = .object members → build members = .ok (nodeOf members) :=
  ⟨fun _ ↦ ofJson_eq_ok_iff, exists_ofJson_iff, fun _ ↦ ofJson_eq_error_iff, rfl,
    fun members _ ↦ build_eq members⟩

end Tree

end TreePattern

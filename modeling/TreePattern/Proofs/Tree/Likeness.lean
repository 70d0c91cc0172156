import TreePattern.Proofs.Tree.Preorder
import TreePattern.Proofs.Tree.Attribute

namespace TreePattern

variable {R S : Node → Node → Prop} {names : List String} {name : String}

namespace Field

def holdsNodes : Field → Bool
  | .scalar _ | .broken _ => false
  | .node _ | .nodes _ => true

/-- Fields of the same name that hold the same, but for related nodes. -/
inductive Alike (R : Node → Node → Prop) : String × Field → String × Field → Prop
  | scalar (name : String) (value : Scalar) : Alike R (name, .scalar value) (name, .scalar value)
  | node (name : String) {n m : Node} : R n m → Alike R (name, .node n) (name, .node m)
  | nodes (name : String) {ns ms : List Node} :
      List.Forall₂ R ns ms → Alike R (name, .nodes ns) (name, .nodes ms)
  | broken (name : String) (error : AccessError) :
      Alike R (name, .broken error) (name, .broken error)

variable {field field' : String × Field}

theorem Alike.name_eq (h : Alike R field field') : field.1 = field'.1 := by
  cases h <;> rfl

theorem Alike.nodeList (h : Alike R field field') :
    List.Forall₂ R field.2.nodeList field'.2.nodeList := by
  cases h with
  | scalar | broken => exact .nil
  | node name hn => exact .cons hn .nil
  | nodes name hn => exact hn

/-- Only nodes that the fields hold at the same position have to be related. -/
theorem Alike.imp_of_mem_zip (h : Alike R field field')
    (hS : ∀ c d, (c, d) ∈ field.2.nodeList.zip field'.2.nodeList → R c d → S c d) :
    Alike S field field' := by
  cases h with
  | scalar name value => exact .scalar name value
  | broken name error => exact .broken name error
  | node name hn => exact .node name (hS _ _ (by simp [Field.nodeList]) hn)
  | nodes name hn =>
    obtain ⟨hlength, hall⟩ := List.forall₂_iff_zip.mp hn
    exact .nodes name (List.forall₂_iff_zip.mpr ⟨hlength, fun hm ↦ hS _ _ hm (hall hm)⟩)

end Field

/-- Fields that are alike hold alike nodes, if nodes that are held at the same position are. -/
theorem forall₂_alike_imp {fields fields' : List (String × Field)}
    (h : List.Forall₂ (Field.Alike R) fields fields')
    (hS : ∀ c d, (c, d) ∈ (fields.flatMap fun field ↦ field.2.nodeList).zip
      (fields'.flatMap fun field ↦ field.2.nodeList) → R c d → S c d) :
    List.Forall₂ (Field.Alike S) fields fields' := by
  induction h with
  | nil => exact .nil
  | @cons field field' rest rest' hfield hrest ih =>
    rw [List.flatMap_cons, List.flatMap_cons, List.zip_append hfield.nodeList.length_eq] at hS
    refine .cons (hfield.imp_of_mem_zip fun c d hm ↦ ?_) (ih fun c d hm ↦ ?_)
    · exact hS c d (List.mem_append_left _ hm)
    · exact hS c d (List.mem_append_right _ hm)

namespace Node

def seen (names : List String) (n : Node) : List (String × Field) :=
  n.fields.filter fun field ↦ field.2.holdsNodes || names.contains field.1

/-- Two trees are the same but for fields that neither hold nodes nor have one of the given names:
nodes have the same kinds and alike fields in the same order. -/
inductive Alike (names : List String) : Node → Node → Prop
  | intro {n m : Node} : n.kind = m.kind →
      List.Forall₂ (Field.Alike (Alike names)) (n.seen names) (m.seen names) → Alike names n m

variable {n m c d root root' : Node}

theorem children_eq_seen (names : List String) (n : Node) :
    n.children = (n.seen names).flatMap fun field ↦ field.2.nodeList := by
  unfold children seen
  induction n.fields with
  | nil => rfl
  | cons field rest ih =>
    rw [List.flatMap_cons, List.filter_cons, ih]
    split
    · rw [List.flatMap_cons]
    · next h =>
      have hempty : field.2.nodeList = [] := by
        obtain ⟨name, field⟩ := field
        cases field <;> simp_all [Field.holdsNodes, Field.nodeList]
      rw [hempty, List.nil_append]

theorem find?_seen (h : name ∈ names) (n : Node) :
    (n.seen names).find? (fun field ↦ field.1 == name) =
      n.fields.find? fun field ↦ field.1 == name := by
  rw [seen, List.find?_filter]
  congr
  funext field
  by_cases hname : field.1 = name
  · simp [hname, h]
  · simp [hname]

theorem Alike.kind_eq (h : Alike names n m) : n.kind = m.kind := by
  cases h with
  | intro hkind _ => exact hkind

theorem Alike.seen (h : Alike names n m)
    (hS : ∀ c d, (c, d) ∈ n.children.zip m.children → Alike names c d → S c d) :
    List.Forall₂ (Field.Alike S) (n.seen names) (m.seen names) := by
  cases h with
  | intro _ hfields =>
    rw [children_eq_seen names n, children_eq_seen names m] at hS
    exact forall₂_alike_imp hfields hS

theorem Alike.children (h : Alike names n m)
    (hS : ∀ c d, (c, d) ∈ n.children.zip m.children → Alike names c d → S c d) :
    List.Forall₂ S n.children m.children := by
  have hfields := h.seen hS
  rw [children_eq_seen names n, children_eq_seen names m]
  exact List.rel_flatMap hfields fun _ _ hfield ↦ hfield.nodeList

/-- The node that a path of positions among children leads to. -/
def at? (n : Node) : List ℕ → Option Node
  | [] => some n
  | i :: path => n.children[i]?.bind fun c ↦ c.at? path

theorem at?_append_singleton (path : List ℕ) (i : ℕ) :
    n.at? (path ++ [i]) = (n.at? path).bind fun m ↦ m.children[i]? := by
  induction path generalizing n with
  | nil => simp [at?]
  | cons j rest ih =>
    rw [List.cons_append, at?, at?]
    cases n.children[j]? with
    | none => rfl
    | some c => exact ih

def SamePlace (root root' n m : Node) : Prop :=
  ∃ path, root.at? path = some n ∧ root'.at? path = some m

theorem SamePlace.refl (root root' : Node) : SamePlace root root' root root' :=
  ⟨[], rfl, rfl⟩

theorem SamePlace.child (h : SamePlace root root' n m)
    (hm : (c, d) ∈ n.children.zip m.children) : SamePlace root root' c d := by
  obtain ⟨path, hn, hm'⟩ := h
  obtain ⟨i, hi, hcd⟩ := List.getElem_of_mem hm
  rw [List.getElem_zip, Prod.mk.injEq] at hcd
  rw [List.length_zip] at hi
  refine ⟨path ++ [i], ?_, ?_⟩
  · rw [at?_append_singleton, hn, Option.bind_some, List.getElem?_eq_getElem (by omega), hcd.1]
  · rw [at?_append_singleton, hm', Option.bind_some, List.getElem?_eq_getElem (by omega), hcd.2]

end Node

end TreePattern

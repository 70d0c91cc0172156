import Mathlib.Logic.Relation
import TreePattern.Tree.View

namespace TreePattern.Node

open Relation

/-- A node is in the tree of another one: it is that node, or children lead there. -/
def Contains (n x : Node) : Prop :=
  ReflTransGen (fun a b : Node ↦ b ∈ a.children) n x

def Below (n x : Node) : Prop :=
  TransGen (fun a b : Node ↦ b ∈ a.children) n x

variable {n x c : Node}

theorem Contains.refl (n : Node) : n.Contains n := ReflTransGen.refl

theorem contains_iff : n.Contains x ↔ x = n ∨ ∃ c ∈ n.children, c.Contains x := by
  rw [Contains, ReflTransGen.cases_head_iff, eq_comm]
  rfl

theorem exists_contains_iff {P : Node → Prop} :
    (∃ x, n.Contains x ∧ P x) ↔ P n ∨ ∃ c ∈ n.children, ∃ x, c.Contains x ∧ P x := by
  constructor
  · intro ⟨x, hx, hp⟩
    rcases contains_iff.mp hx with rfl | ⟨c, hc, hx⟩
    · exact .inl hp
    · exact .inr ⟨c, hc, x, hx, hp⟩
  · intro h
    rcases h with hp | ⟨c, hc, x, hx, hp⟩
    · exact ⟨n, .refl n, hp⟩
    · exact ⟨x, contains_iff.mpr (.inr ⟨c, hc, hx⟩), hp⟩

theorem weight_le_forestWeight {forest : List Node} (h : n ∈ forest) :
    n.weight ≤ forestWeight forest := by
  obtain ⟨before, after, rfl⟩ := List.append_of_mem h
  rw [forestWeight_append, forestWeight]
  omega

theorem weight_lt_of_mem_children (h : c ∈ n.children) : c.weight < n.weight := by
  have hle := weight_le_forestWeight h
  rw [weight_eq n]
  omega

/-- What passes from the children of every node to the node holds of every node. -/
theorem children_induction {P : Node → Prop} (h : ∀ n, (∀ c ∈ n.children, P c) → P n) (n : Node) :
    P n := by
  induction hw : n.weight using Nat.strongRecOn generalizing n with
  | _ w ih => exact h n fun c hc ↦ ih c.weight (hw ▸ weight_lt_of_mem_children hc) c rfl

/-- What passes to a list of trees from the children of the first tree and from the other trees
holds of every list of trees. -/
theorem forest_induction {P : List Node → Prop} (nil : P [])
    (cons : ∀ n rest, P n.children → P rest → P (n :: rest)) (forest : List Node) : P forest := by
  have htree (n : Node) : ∀ rest, P rest → P (n :: rest) := by
    induction n using children_induction with
    | h n ih =>
      refine fun rest ↦ cons n rest ?_
      generalize n.children = children at ih
      induction children with
      | nil => exact nil
      | cons c others ih' =>
        exact ih c (by simp) others (ih' fun d hd ↦ ih d (.tail _ hd))
  induction forest with
  | nil => exact nil
  | cons n rest ih => exact htree n rest ih

theorem walk_eq_reverse_append (work listed : List Node) :
    walk work listed = listed.reverse ++ walk work [] := by
  induction hw : forestWeight work using Nat.strongRecOn generalizing work listed with
  | _ w ih =>
    cases work with
    | nil => simp only [walk, List.reverse_nil, List.append_nil]
    | cons n rest =>
      have hlt : forestWeight (n.children ++ rest) < w := by
        rw [← hw, forestWeight_append, forestWeight, weight_eq]
        omega
      rw [walk, walk, ih _ hlt _ (n :: listed) rfl, ih _ hlt _ [n] rfl]
      simp only [List.reverse_cons, List.reverse_nil, List.nil_append, List.append_assoc]

theorem walk_cons (n : Node) (rest : List Node) :
    walk (n :: rest) [] = n :: walk (n.children ++ rest) [] := by
  rw [walk, walk_eq_reverse_append]
  rfl

theorem walk_append (a b : List Node) : walk (a ++ b) [] = walk a [] ++ walk b [] := by
  induction hw : forestWeight a using Nat.strongRecOn generalizing a with
  | _ w ih =>
    cases a with
    | nil => simp only [walk, List.reverse_nil, List.nil_append]
    | cons n rest =>
      have hlt : forestWeight (n.children ++ rest) < w := by
        rw [← hw, forestWeight_append, forestWeight, weight_eq]
        omega
      rw [List.cons_append, walk_cons, walk_cons, ← List.append_assoc, ih _ hlt _ rfl,
        List.cons_append]

theorem walk_eq_flatMap (work : List Node) : walk work [] = work.flatMap preorder := by
  induction work with
  | nil => simp only [walk, List.reverse_nil, List.flatMap_nil]
  | cons n rest ih =>
    rw [← List.singleton_append, walk_append, ih, List.flatMap_append, List.flatMap_singleton]
    rfl

theorem preorder_eq (n : Node) : n.preorder = n :: n.children.flatMap preorder := by
  rw [preorder, walk_cons, List.append_nil, walk_eq_flatMap]

theorem mem_preorder : x ∈ n.preorder ↔ n.Contains x := by
  induction n using children_induction with
  | h n ih =>
    rw [preorder_eq, contains_iff, List.mem_cons, List.mem_flatMap]
    exact or_congr_right (exists_congr fun c ↦ and_congr_right fun hc ↦ ih c hc)

theorem length_flatMap_preorder (forest : List Node) :
    (forest.flatMap preorder).length = forestWeight forest := by
  induction forest using forest_induction with
  | nil => simp [forestWeight]
  | cons n rest ihn ihr =>
    rw [List.flatMap_cons, List.length_append, ihr, preorder_eq, List.length_cons, ihn,
      forestWeight, weight_eq]

theorem length_preorder (n : Node) : n.preorder.length = n.weight := by
  rw [preorder_eq, List.length_cons, length_flatMap_preorder, weight_eq]

end TreePattern.Node

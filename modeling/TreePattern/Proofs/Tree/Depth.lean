import Mathlib.Algebra.BigOperators.Group.List.Basic
import Mathlib.Algebra.Ring.Nat
import Mathlib.Data.List.Flatten
import Mathlib.Data.List.Nodup
import Mathlib.Data.List.Perm.Basic
import Mathlib.Data.Nat.Choose.Basic
import TreePattern.Proofs.Tree.Numbering

namespace TreePattern.Node

variable {n : Node} {α : Type}

def levels (n : Node) : List (Node × ℕ) :=
  (n, 0) :: n.children.attach.flatMap fun c ↦ (levels c.1).map (Prod.map id (· + 1))
termination_by n.weight
decreasing_by exact weight_lt_of_mem_children c.2

theorem levels_eq (n : Node) :
    n.levels = (n, 0) :: n.children.flatMap fun c ↦ c.levels.map (Prod.map id (· + 1)) := by
  rw [levels, List.flatMap_subtype, List.unattach_attach]
  intro c hc
  rfl

theorem map_fst_levels (n : Node) : n.levels.map Prod.fst = n.preorder := by
  induction n using children_induction with
  | _ n ih =>
    rw [levels_eq, preorder_eq, List.map_cons, List.map_flatMap]
    refine congrArg (n :: ·) (List.flatMap_congr fun c hc ↦ ?_)
    rw [List.map_map, ← ih c hc]
    rfl

theorem flatMap_levels (n : Node) (g : Node → ℕ → List α) :
    (n.levels.flatMap fun p ↦ g p.1 p.2) =
      g n 0 ++ n.children.flatMap fun c ↦ c.levels.flatMap fun p ↦ g p.1 (p.2 + 1) := by
  rw [levels_eq, List.flatMap_cons, List.flatMap_assoc]
  simp only [List.flatMap_map, Prod.map, id_eq]

/-- Walks that start at each node of a walk meet a node once from each node above it and once from
itself, at all distances up to its depth. -/
theorem preorder_levels_perm (n : Node) (g : Node → ℕ → List α) :
    (n.preorder.flatMap fun x ↦ x.levels.flatMap fun p ↦ g p.1 p.2).Perm
      (n.levels.flatMap fun p ↦ (List.range (p.2 + 1)).flatMap (g p.1)) := by
  induction n using children_induction with
  | _ n ih =>
    have hchild : ∀ c ∈ n.children,
        ((c.levels.flatMap fun p ↦ g p.1 (p.2 + 1)) ++
          c.preorder.flatMap fun x ↦ x.levels.flatMap fun p ↦ g p.1 p.2).Perm
        (c.levels.flatMap fun p ↦ (List.range (p.2 + 1 + 1)).flatMap (g p.1)) := by
      intro c hc
      have hsplit : ∀ p : Node × ℕ, (List.range (p.2 + 1 + 1)).flatMap (g p.1) =
          (List.range (p.2 + 1)).flatMap (g p.1) ++ g p.1 (p.2 + 1) := by
        intro p
        rw [List.range_succ, List.flatMap_append, List.flatMap_singleton]
      simp only [hsplit]
      refine (List.perm_append_comm.trans ((ih c hc).append_right _)).trans ?_
      exact List.flatMap_append_perm _ _ _
    -- The walk from the root itself meets each node below a child one level deeper than the
    -- child's walks.
    rw [preorder_eq, List.flatMap_cons, flatMap_levels, List.append_assoc, List.flatMap_assoc,
      flatMap_levels n fun x d ↦ (List.range (d + 1)).flatMap (g x)]
    refine (List.Perm.of_eq (by simp)).append ?_
    exact (List.flatMap_append_perm _ _ _).trans (List.Perm.flatMap_left _ hchild)

/-- The nodes that a number of walks meet, one inside the other: the last one starts at each node
that the one around it meets. -/
def rewalk : ℕ → Node → List Node
  | 0, n => [n]
  | k + 1, n => n.preorder.flatMap (rewalk k)

def rewalkVisits : ℕ → Node → ℕ
  | 0, _ => 0
  | k + 1, n => (n.preorder.map fun x ↦ rewalkVisits k x + 1).sum

theorem flatMap_range_replicate_choose (k d : ℕ) (x : α) :
    ((List.range (d + 1)).flatMap fun e ↦ List.replicate ((e + k - 1).choose e) x) =
      List.replicate ((d + k).choose d) x := by
  induction d with
  | zero => simp
  | succ d ih =>
    have hpascal : (d + 1 + k).choose (d + 1) = (d + k).choose d + (d + k).choose (d + 1) := by
      rw [Nat.add_right_comm, Nat.choose_succ_succ]
    rw [List.range_succ, List.flatMap_append, ih, List.flatMap_singleton, Nat.add_right_comm d 1 k,
      Nat.add_sub_cancel, ← List.replicate_add, ← hpascal]
    congr 2
    omega

theorem sum_range_choose (k d : ℕ) :
    ((List.range (d + 1)).map fun e ↦ (e + k).choose (e + 1)).sum + 1 =
      (d + (k + 1)).choose (d + 1) := by
  induction d with
  | zero => simp
  | succ d ih =>
    rw [List.range_succ, List.map_append, List.sum_append, List.map_singleton, List.sum_singleton,
      Nat.add_right_comm, ih, ← Nat.add_assoc, Nat.add_right_comm d 1 k, ← Nat.choose_succ_succ]
    congr 1
    omega

/-- The last walk meets a node as often as there are ways to part its depth among the walks. -/
theorem rewalk_perm (k : ℕ) (n : Node) :
    (n.rewalk k).Perm (n.levels.flatMap fun p ↦ List.replicate ((p.2 + k - 1).choose p.2) p.1) := by
  induction k generalizing n with
  | zero =>
    rw [flatMap_levels n fun x d ↦ List.replicate ((d + 0 - 1).choose d) x]
    simp [rewalk]
  | succ k ih =>
    have hwalk := preorder_levels_perm n fun x d ↦ List.replicate ((d + k - 1).choose d) x
    simp only [flatMap_range_replicate_choose] at hwalk
    exact (List.Perm.flatMap_left _ fun x _ ↦ ih x).trans hwalk

theorem sum_preorder_levels (n : Node) (g : Node → ℕ → ℕ) :
    (n.preorder.map fun x ↦ (x.levels.map fun p ↦ g p.1 p.2).sum).sum =
      (n.levels.map fun p ↦ ((List.range (p.2 + 1)).map (g p.1)).sum).sum := by
  have h := (preorder_levels_perm n fun x d ↦ [g x d]).sum_eq
  simpa [List.flatMap, List.sum_flatten, Function.comp_def] using h

theorem rewalkVisits_eq (k : ℕ) (n : Node) :
    n.rewalkVisits k = (n.levels.map fun p ↦ (p.2 + k).choose (p.2 + 1)).sum := by
  induction k generalizing n with
  | zero => simp [rewalkVisits]
  | succ k ih =>
    simp only [rewalkVisits, ih, List.sum_map_add]
    rw [sum_preorder_levels n fun _ d ↦ (d + k).choose (d + 1), ← map_fst_levels, List.map_map,
      ← List.sum_map_add]
    refine congrArg List.sum (List.map_congr_left fun p _ ↦ ?_)
    exact sum_range_choose k p.2

/-- In a tree that is numbered in pre-order, a node is told by its number. -/
theorem InPreorder.countP_levels (h : n.InPreorder) (times : Node × ℕ → ℕ)
    {level : Node × ℕ} (hm : level ∈ n.levels) :
    (n.levels.flatMap fun p ↦ List.replicate (times p) p.1).countP
      (fun x ↦ x.index = level.1.index) = times level := by
  have hnodup : (n.levels.map fun p ↦ p.1.index).Nodup := by
    have hindex : (n.levels.map fun p ↦ p.1.index) = n.preorder.map (·.index) := by
      rw [← map_fst_levels, List.map_map]
      rfl
    rw [hindex, h]
    exact List.nodup_range
  obtain ⟨before, after, hl⟩ := List.append_of_mem hm
  rw [hl, List.map_append, List.map_cons, List.nodup_append'] at hnodup
  obtain ⟨-, hafter, hbefore⟩ := hnodup
  obtain ⟨hfresh, -⟩ := List.nodup_cons.mp hafter
  have hnone : ∀ others : List (Node × ℕ), level.1.index ∉ others.map (fun p ↦ p.1.index) →
      (others.flatMap fun p ↦ List.replicate (times p) p.1).countP
        (fun x ↦ x.index = level.1.index) = 0 := by
    intro others hothers
    apply List.countP_eq_zero.mpr
    intro x hx heq
    obtain ⟨p, hp, hx⟩ := List.mem_flatMap.mp hx
    obtain ⟨-, rfl⟩ := List.mem_replicate.mp hx
    exact hothers (List.mem_map.mpr ⟨p, hp, by simpa using heq⟩)
  have hbefore : level.1.index ∉ before.map (fun p ↦ p.1.index) :=
    fun hm ↦ hbefore hm List.mem_cons_self
  rw [hl, List.flatMap_append, List.flatMap_cons, List.countP_append, List.countP_append,
    hnone _ hbefore, hnone _ hfresh]
  simp [List.countP_replicate]

end TreePattern.Node

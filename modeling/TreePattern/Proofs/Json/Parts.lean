import Mathlib.Data.List.Nodup
import Mathlib.Logic.Relation
import TreePattern.Tree.OfJson

namespace TreePattern.Json

open Relation

def parts : Json → List Json
  | .object members => members.map (·.2)
  | .array items => items
  | .null | .bool _ | .number _ | .string _ => []

/-- A document is in another one: it is that document or a part of it, at any depth. -/
def Contains (document part : Json) : Prop :=
  ReflTransGen (fun a b : Json ↦ b ∈ a.parts) document part

variable {document part x : Json} {members : List (String × Json)} {items : List Json}
  {key : String} {value : Json}

theorem Contains.refl (document : Json) : document.Contains document := ReflTransGen.refl

theorem Contains.of_mem_parts (h : part ∈ document.parts) (hx : part.Contains x) :
    document.Contains x :=
  ReflTransGen.head h hx

theorem contains_iff : document.Contains x ↔ x = document ∨
    ∃ part ∈ document.parts, part.Contains x := by
  rw [Contains, ReflTransGen.cases_head_iff, eq_comm]
  rfl

theorem forall_contains_iff {P : Json → Prop} : (∀ x, document.Contains x → P x) ↔
    P document ∧ ∀ part ∈ document.parts, ∀ x, part.Contains x → P x := by
  constructor
  · exact fun h ↦ ⟨h _ (.refl _), fun part hp x hx ↦ h x (.of_mem_parts hp hx)⟩
  · rintro ⟨hd, hp⟩ x hx
    rcases contains_iff.mp hx with rfl | ⟨part, hm, hx⟩
    · exact hd
    · exact hp part hm x hx

theorem mem_parts_of_mem (h : (key, value) ∈ members) : value ∈ (object members).parts :=
  List.mem_map.mpr ⟨(key, value), h, rfl⟩

theorem contains_array_iff (h : x ≠ .array items) :
    (array items).Contains x ↔ ∃ item ∈ items, item.Contains x := by
  rw [contains_iff, or_iff_right h]
  rfl

theorem contains_object_iff (h : x ≠ .object members) :
    (object members).Contains x ↔ ∃ entry ∈ members, entry.2.Contains x := by
  rw [contains_iff, or_iff_right h]
  simp only [parts, List.mem_map, exists_exists_and_eq_and]

theorem extent_lt_itemsExtent (h : part ∈ items) : part.extent < itemsExtent items := by
  induction items with
  | nil => cases h
  | cons item rest ih =>
    rw [itemsExtent]
    rcases List.mem_cons.mp h with rfl | h
    · omega
    · have hlt := ih h
      omega

theorem extent_lt_membersExtent (h : (key, value) ∈ members) :
    value.extent < membersExtent members := by
  induction members with
  | nil => cases h
  | cons entry rest ih =>
    obtain ⟨name, first⟩ := entry
    rw [membersExtent]
    rcases List.mem_cons.mp h with h | h
    · cases h
      omega
    · have hlt := ih h
      omega

theorem extent_lt_of_mem_parts (h : part ∈ document.parts) : part.extent < document.extent := by
  cases document with
  | object members =>
    obtain ⟨⟨key, value⟩, hm, rfl⟩ := List.mem_map.mp h
    rw [extent]
    exact Nat.lt_succ_of_lt (extent_lt_membersExtent hm)
  | array items =>
    rw [extent]
    exact Nat.lt_succ_of_lt (extent_lt_itemsExtent h)
  | null | bool | number | string => cases h

theorem extent_le_of_contains (h : document.Contains part) : part.extent ≤ document.extent := by
  induction h with
  | refl => exact Nat.le_refl _
  | tail _ hp ih =>
    have hlt := extent_lt_of_mem_parts hp
    omega

theorem extent_induction {P : Json → Prop}
    (h : ∀ document, (∀ part : Json, part.extent < document.extent → P part) → P document)
    (document : Json) : P document :=
  (measure extent).wf.induction document h

theorem member?_of_mem (hn : (members.map (·.1)).Nodup) (h : (key, value) ∈ members) :
    member? members key = some value := by
  induction members with
  | nil => cases h
  | cons entry rest ih =>
    rw [List.map_cons, List.nodup_cons] at hn
    rw [member?, List.find?_cons]
    rcases List.mem_cons.mp h with rfl | h
    · simp
    · have hne : entry.1 ≠ key := by
        rintro rfl
        exact hn.1 (List.mem_map.mpr ⟨_, h, rfl⟩)
      rw [beq_false_of_ne hne]
      exact ih hn.2 h

theorem mem_of_member? (h : member? members key = some value) :
    (key, value) ∈ members := by
  rw [member?, Option.map_eq_some_iff] at h
  obtain ⟨⟨name, _⟩, hfind, rfl⟩ := h
  have hname : name = key := by simpa using List.find?_some hfind
  rw [← hname]
  exact List.mem_of_find?_eq_some hfind

end TreePattern.Json

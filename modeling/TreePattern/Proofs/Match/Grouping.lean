import TreePattern.Proofs.Match.Invariant

namespace TreePattern

open Relation

namespace Groups

variable {α : Type} {g other : Groups α} {a : α} {name : String}
  {groups : List (String × List α)}

def entries (g : Groups α) : List α :=
  g.groups.flatMap (·.2)

structure Valid (g : Groups α) : Prop where
  nodup : g.names.Nodup
  nonempty : ∀ group ∈ g.groups, group.2 ≠ []

theorem mem_names_pushTo {key : String} :
    key ∈ (pushTo name a groups).map (·.1) ↔ key = name ∨ key ∈ groups.map (·.1) := by
  induction groups with
  | nil => simp [pushTo]
  | cons group rest ih =>
    rw [pushTo]
    by_cases h : group.1 = name
    · simp [h]
    · simp only [beq_false_of_ne h, Bool.false_eq_true, if_false, List.map_cons, List.mem_cons, ih]
      tauto

theorem nodup_pushTo (h : (groups.map (·.1)).Nodup) : ((pushTo name a groups).map (·.1)).Nodup := by
  induction groups with
  | nil => simp [pushTo]
  | cons group rest ih =>
    rw [List.map_cons, List.nodup_cons] at h
    rw [pushTo]
    by_cases hk : group.1 = name
    · simpa [hk] using h
    · rw [if_neg (by simpa using hk), List.map_cons, List.nodup_cons, mem_names_pushTo]
      exact ⟨not_or.mpr ⟨hk, h.1⟩, ih h.2⟩

/-- A group after an entry was added is one of before, or the one with the entry at its end. -/
theorem eq_or_mem_of_mem_pushTo {group : String × List α} (h : group ∈ pushTo name a groups) :
    group ∈ groups ∨ ∃ before, group = (name, before ++ [a]) ∧
      (before = [] ∨ (name, before) ∈ groups) := by
  induction groups with
  | nil => exact .inr ⟨[], by simpa [pushTo] using h, .inl rfl⟩
  | cons first rest ih =>
    rw [pushTo] at h
    split at h
    · next hk =>
      cases List.mem_cons.mp h with
      | inl h =>
        have hname : first.1 = name := by simpa using hk
        refine .inr ⟨first.2, by rw [h, hname], .inr ?_⟩
        rw [← hname]
        exact List.mem_cons_self
      | inr h => exact .inl (.tail _ h)
    · cases List.mem_cons.mp h with
      | inl h => exact .inl (h ▸ List.mem_cons_self)
      | inr h =>
        rcases ih h with hg | ⟨before, hg, hb⟩
        · exact .inl (.tail _ hg)
        · exact .inr ⟨before, hg, hb.imp_right (.tail _)⟩

theorem Valid.empty : (empty : Groups α).Valid :=
  ⟨List.nodup_nil, by simp [Groups.empty]⟩

theorem Valid.push (h : g.Valid) (name : String) (a : α) : (g.push name a).Valid := by
  refine ⟨nodup_pushTo h.nodup, ?_⟩
  intro group hg
  rcases eq_or_mem_of_mem_pushTo hg with hg | ⟨before, rfl, -⟩
  · exact h.nonempty group hg
  · simp

/-- What is kept by adding the entries of the groups of another multimap is kept by adding it. -/
theorem append_induction {P : Groups α → Prop}
    (h : ∀ g group, group ∈ other.groups → ∀ a ∈ group.2, P g → P (g.push group.1 a)) (hg : P g) :
    P (g.append other) := by
  refine List.foldlRecOn other.groups pushAll hg fun g hg group hm ↦ ?_
  exact List.foldlRecOn group.2 _ hg fun g hg a ha ↦ h g group hm a ha hg

/-- A name has a group exactly if something is found under it. -/
theorem Valid.contains_iff (h : g.Valid) (name : String) :
    g.contains name = true ↔ g.get name ≠ [] := by
  unfold contains get
  rw [List.any_eq_true, ← List.find?_isSome]
  cases hf : g.groups.find? fun group ↦ group.1 == name with
  | none => simp
  | some group => simpa using h.nonempty group (List.mem_of_find?_eq_some hf)

structure Filed (captures : Captures) : Prop extends captures.Valid where
  named : ∀ group ∈ captures.groups, ∀ f ∈ group.2, f.name = some group.1

variable {captures others : Captures} {f : Find}

theorem Filed.push (h : captures.Filed) (hn : f.name = some name) :
    (captures.push name f).Filed := by
  refine ⟨h.toValid.push name f, ?_⟩
  intro group hg x hx
  rcases eq_or_mem_of_mem_pushTo hg with hg | ⟨before, rfl, hb⟩
  · exact h.named group hg x hx
  · cases List.mem_append.mp hx with
    | inl hx =>
      rcases hb with rfl | hb
      · cases hx
      · exact h.named _ hb x hx
    | inr hx =>
      rw [List.mem_singleton.mp hx]
      exact hn

theorem Filed.append (h : captures.Filed) (ho : others.Filed) : (captures.append others).Filed := by
  refine append_induction (P := Filed) ?_ h
  intro g group hg x hx hf
  exact hf.push (ho.named group hg x hx)

theorem Filed.record (h : captures.Filed) (hf : f.captures.Filed) : (captures.record f).Filed := by
  unfold Groups.record
  split
  · next hn => exact h.push hn
  · exact h.append hf

/-- The group of a name has all entries that carry the name, in order. -/
theorem Filed.get_eq (h : captures.Filed) (name : String) :
    captures.get name = captures.entries.filter fun f ↦ f.name == some name := by
  obtain ⟨groups⟩ := captures
  obtain ⟨⟨hnodup, -⟩, hnamed⟩ := h
  change (groups.map (·.1)).Nodup at hnodup
  unfold get entries
  induction groups with
  | nil => simp
  | cons group rest ih =>
    rw [List.map_cons, List.nodup_cons] at hnodup
    have hrest := ih (fun other ho ↦ hnamed other (.tail _ ho)) hnodup.2
    have hfirst := hnamed group List.mem_cons_self
    rw [List.find?_cons, List.flatMap_cons, List.filter_append, ← hrest]
    by_cases hk : group.1 = name
    · have hall : group.2.filter (fun f ↦ f.name == some name) = group.2 :=
        List.filter_eq_self.mpr fun f hf ↦ by simp [hfirst f hf, hk]
      have hnone : rest.find? (fun other ↦ other.1 == name) = none := by
        rw [List.find?_eq_none]
        intro other ho heq
        have hname : other.1 = group.1 := (beq_iff_eq.mp heq).trans hk.symm
        exact hnodup.1 (List.mem_map.mpr ⟨other, ho, hname⟩)
      rw [hall, hnone]
      simp [hk]
    · have hnil : group.2.filter (fun f ↦ f.name == some name) = [] :=
        List.filter_eq_nil_iff.mpr fun f hf ↦ by simp [hfirst f hf, hk]
      rw [hnil, beq_false_of_ne hk]
      rfl

end Groups

open Groups

def Find.Sorted (f : Find) : Prop :=
  f.Throughout fun g ↦ g.captures.Filed

theorem Find.sorted_iff {f : Find} : f.Sorted ↔ f.captures.Filed ∧ ∀ g ∈ f.captures, g.Sorted :=
  throughout_iff

theorem Find.Sorted.inherit {f : Find} (h : f.Sorted) (name : Option String) :
    (f.inherit name).Sorted :=
  Find.sorted_iff.mpr (Find.sorted_iff (f := f).mp h)

theorem Find.filing_sorted :
    Filing Find.Sorted fun captures ↦ captures.Filed ∧ ∀ g ∈ captures, g.Sorted where
  empty := ⟨⟨.empty, by simp [Groups.empty]⟩, by simp⟩
  record := by
    intro captures f hc hf
    refine ⟨hc.1.record (sorted_iff.mp hf).1, ?_⟩
    intro g hg
    cases mem_record.mp hg with
    | inl hg => exact hc.2 g hg
    | inr hg => exact Throughout.contributes hf hg
  append := by
    intro captures others hc ho
    refine ⟨hc.1.append ho.1, ?_⟩
    intro g hg
    cases mem_append.mp hg with
    | inl hg => exact hc.2 g hg
    | inr hg => exact ho.2 g hg

theorem Pattern.invariant_sorted (p : Pattern) :
    p.Invariant (fun _ f ↦ f.Sorted) fun _ captures ↦
      captures.Filed ∧ ∀ g ∈ captures, g.Sorted where
  filing _ := Find.filing_sorted.mono fun _ ⟨_, _, hf⟩ ↦ hf
  literal _ _ _ _ _ _ _ hc := Find.sorted_iff.mpr hc
  search _ _ _ _ _ _ := Find.sorted_iff.mpr Find.filing_sorted.empty
  inherit _ origin _ _ _ _ hf := hf.inherit origin.name

/-- Captures that a match shows: those of its finds and of all finds below them, at every depth, and
its finds by name. -/
def Matches.Shows (found : Matches) (captures : Captures) : Prop :=
  captures = found.grouped ∨
    ∃ f ∈ found.finds, ∃ g, ReflTransGen Find.Captured f g ∧ captures = g.captures

/-- All captures that a match shows are filed: names are distinct, no group is empty, and every
find has the name of its group. So there is a group for a name exactly if something is found under
it, and what is found under it are all entries that carry the name. -/
theorem Engine.execute_shows_filed {engine : Engine} {tree : SyntaxTree} {p : Pattern}
    {found : Matches} (h : engine.execute tree p = .ok found) :
    ∀ captures, found.Shows captures → captures.Filed ∧
      ∀ name, (captures.contains name = true ↔ captures.get name ≠ []) ∧
        captures.get name = captures.entries.filter fun f ↦ f.name == some name := by
  have hsorted : ∀ f ∈ found.finds, f.Sorted := execute_keeps p.invariant_sorted h
  intro captures hs
  have hf : captures.Filed := by
    rcases hs with rfl | ⟨f, hf, g, hg, rfl⟩
    · exact (Find.filing_sorted.recordAll Find.filing_sorted.empty hsorted).1
    · exact hsorted f hf g hg
  exact ⟨hf, fun name ↦ ⟨hf.contains_iff name, hf.get_eq name⟩⟩

def Sample.partRules : Pattern :=
  ⟨#[⟨none, .literal ⟨some "CallExpr", [("Fun", .pattern 1), ("Args", .pattern 2)]⟩⟩,
    ⟨some "part", .literal ⟨some "Ident", []⟩⟩, ⟨some "part", .literal ⟨some "BasicLit", []⟩⟩]⟩

theorem Engine.execute_shows_filed_parts :
    ∃ found, Engine.execute ⟨some 0⟩ (Sample.callTree "print") Sample.partRules = .ok found ∧
      found.grouped.Filed ∧ (found.grouped.get "part").length = 2 ∧
      found.grouped.get "part" = found.grouped.entries.filter fun f ↦ f.name == some "part" := by
  have hrun : ∃ found,
      Engine.execute ⟨some 0⟩ (Sample.callTree "print") Sample.partRules = .ok found ∧
        (found.grouped.get "part").length = 2 := ⟨_, rfl, rfl⟩
  obtain ⟨found, hrun, hlength⟩ := hrun
  obtain ⟨hf, hnames⟩ := execute_shows_filed hrun _ (.inl rfl)
  exact ⟨found, hrun, hf, hlength, (hnames "part").2⟩

end TreePattern

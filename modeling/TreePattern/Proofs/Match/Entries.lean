import Mathlib.Data.List.Basic
import Mathlib.Tactic.Tauto
import TreePattern.Proofs.Match.Decision

namespace TreePattern

namespace Groups

variable {α : Type} {g h : Groups α} {a b : α} {name : String}

instance : Membership α (Groups α) :=
  ⟨fun g a ↦ ∃ group ∈ g.groups, a ∈ group.2⟩

theorem mem_iff : a ∈ g ↔ ∃ group ∈ g.groups, a ∈ group.2 := Iff.rfl

@[simp]
theorem not_mem_empty : a ∉ (empty : Groups α) := by
  simp [mem_iff, empty]

theorem mem_pushTo {groups : List (String × List α)} :
    (∃ group ∈ pushTo name a groups, b ∈ group.2) ↔ b = a ∨ ∃ group ∈ groups, b ∈ group.2 := by
  induction groups with
  | nil => simp [pushTo]
  | cons group rest ih =>
    obtain ⟨key, entries⟩ := group
    rw [pushTo]
    split
    · simp only [List.exists_mem_cons_iff, List.mem_append, List.mem_singleton]
      tauto
    · simp only [List.exists_mem_cons_iff, ih]
      tauto

@[simp]
theorem mem_push : b ∈ g.push name a ↔ b = a ∨ b ∈ g := mem_pushTo

theorem mem_foldl_push (entries : List α) :
    b ∈ entries.foldl (fun out entry ↦ out.push name entry) g ↔ b ∈ entries ∨ b ∈ g := by
  induction entries generalizing g with
  | nil => simp
  | cons entry rest ih =>
    rw [List.foldl_cons, ih, mem_push, List.mem_cons]
    tauto

@[simp]
theorem mem_append : b ∈ g.append h ↔ b ∈ g ∨ b ∈ h := by
  obtain ⟨groups⟩ := h
  rw [append, mem_iff (g := ⟨groups⟩)]
  induction groups generalizing g with
  | nil => simp
  | cons group rest ih =>
    rw [List.foldl_cons, ih, pushAll, mem_foldl_push, List.exists_mem_cons_iff]
    tauto

end Groups

namespace Find

variable {f g : Find} {finds : List Find} {captures : Captures} {F : Find → Prop}
  {C : Captures → Prop}

def Captured (f g : Find) : Prop :=
  g ∈ f.captures

/-- Filing the one find adds the other: itself if it has a name, or else one that it captured. -/
def Contributes (f g : Find) : Prop :=
  if f.name.isSome then g = f else g ∈ f.captures

theorem mem_record : g ∈ captures.record f ↔ g ∈ captures ∨ f.Contributes g := by
  unfold Groups.record Contributes
  cases f.name with
  | none => simp
  | some name =>
    simp
    tauto

structure Filing (F : Find → Prop) (C : Captures → Prop) : Prop where
  empty : C .empty
  record : ∀ captures f, C captures → F f → C (captures.record f)
  append : ∀ captures others, C captures → C others → C (captures.append others)

theorem Filing.recordAll (h : Filing F C) (hc : C captures) (hf : ∀ f ∈ finds, F f) :
    C (captures.recordAll finds) :=
  List.foldlRecOn finds Groups.record hc fun captures hc f hm ↦ h.record captures f hc (hf f hm)

theorem Filing.mono {F' : Find → Prop} (h : Filing F C) (hf : ∀ f, F' f → F f) : Filing F' C where
  empty := h.empty
  record captures f hc hf' := h.record captures f hc (hf f hf')
  append := h.append

/-- Entries of captures come from the finds that were filed. -/
theorem filing_entries (P : Find → Prop) :
    Filing (fun f ↦ ∀ g, f.Contributes g → P g) fun captures ↦ ∀ g ∈ captures, P g where
  empty := by simp
  record := by
    intro captures f hc hf g hg
    cases mem_record.mp hg with
    | inl hg => exact hc g hg
    | inr hg => exact hf g hg
  append := by
    intro captures others hc ho g hg
    cases Groups.mem_append.mp hg with
    | inl hg => exact hc g hg
    | inr hg => exact ho g hg

end Find

open Find MatchM

def Finder.Brings (find : Finder) (F : Find → Prop) (id : PatternId) (ns : List Node) : Prop :=
  Ends (find id ns) (fun finds ↦ ∀ f ∈ finds, F f) fun _ ↦ True

def Finder.Adds (find : Finder) (P : Find → Prop) (id : PatternId) (ns : List Node) : Prop :=
  Ends (find id ns) (fun finds ↦ ∀ f ∈ finds, ∀ g, f.Contributes g → P g) fun _ ↦ True

namespace Setting

variable {s : Setting} {find : Finder} {id : PatternId} {origin : PatternNode} {n : Node}
  {captures : Captures} {F : Find → Prop} {C : Captures → Prop}

theorem positions_files (h : Filing F C) {pairs : List (PatternId × Node)}
    (hf : ∀ pair ∈ pairs, find.Brings F pair.1 [pair.2]) (hc : C captures) :
    Ends (positions find pairs captures) (fun found ↦ ∀ c ∈ found, C c) fun _ ↦ True := by
  induction pairs generalizing captures with
  | nil => exact .pure (by simpa using hc)
  | cons pair rest ih =>
    refine (hf pair List.mem_cons_self).bind fun finds hfinds ↦ ?_
    cases finds with
    | nil => exact .pure (by simp)
    | cons f fs =>
      apply ih
      · exact fun other ho ↦ hf other (.tail _ ho)
      · exact h.recordAll hc hfinds

theorem constrain_files (h : Filing F C) {constraint : Constraint} {v : Value}
    (hf : ∀ q ∈ constraint.references, ∀ ns, ns ⊆ v.nodeList → find.Brings F q ns)
    (hc : C captures) :
    Ends (constrain find v captures constraint) (fun found ↦ ∀ c ∈ found, C c) fun _ ↦ True := by
  cases constraint with
  | scalar expected =>
    cases v with
    | scalar actual =>
      refine .pure ?_
      split
      · simpa using hc
      · simp
    | node child => exact .pure (by simp)
    | nodes children => exact .pure (by simp)
  | pattern q =>
    have hq : q ∈ (Constraint.pattern q).references := by simp [Constraint.references]
    refine (hf q hq v.nodeList (List.Subset.refl _)).bind fun finds hfinds ↦ ?_
    cases finds with
    | nil => exact .pure (by simp)
    | cons f fs => exact .pure (by simpa using h.recordAll hc hfinds)
  | sequence ids =>
    cases v with
    | scalar actual => exact .pure (by simp)
    | node child => exact .pure (by simp)
    | nodes children =>
      have hpairs : ∀ pair ∈ ids.zip children, find.Brings F pair.1 [pair.2] := by
        intro pair hp
        obtain ⟨hq, hm⟩ := List.of_mem_zip hp
        apply hf
        · exact hq
        · simpa [Value.nodeList] using hm
      unfold constrain
      dsimp only
      split
      · refine (positions_files h hpairs h.empty).bind fun found hfound ↦ .pure ?_
        intro c hm
        obtain ⟨others, ho, rfl⟩ := Option.map_eq_some_iff.mp hm
        exact h.append captures others hc (hfound others ho)
      · exact .pure (by simp)

theorem meets_files (h : Filing F C) {attributes : List (String × Constraint)}
    (hf : ∀ entry ∈ attributes, ∀ q ∈ entry.2.references, ∀ ns, ns ⊆ n.children →
      find.Brings F q ns) (hc : C captures) :
    Ends (s.meets find id n attributes captures) (fun found ↦ ∀ c ∈ found, C c) fun _ ↦ True := by
  induction attributes generalizing captures with
  | nil => exact .pure (by simpa using hc)
  | cons entry rest ih =>
    obtain ⟨name, constraint⟩ := entry
    have hlookup : Ends (access (s.view.lookup n name))
        (fun o ↦ ∀ v, o = some v → n.Has name v) fun _ ↦ True :=
      access_ends (fun o ho v hv ↦ (View.has_iff ho).mpr hv) fun _ _ ↦ trivial
    refine hlookup.bind fun o ho ↦ ?_
    cases o with
    | none => exact (note_ends _).bind fun _ _ ↦ .pure (by simp)
    | some v =>
      have hv : v.nodeList ⊆ n.children := fun m hm ↦ (ho v rfl).mem_children hm
      have hrules : ∀ q ∈ constraint.references, ∀ ns, ns ⊆ v.nodeList → find.Brings F q ns := by
        intro q hq ns hns
        exact hf _ List.mem_cons_self q hq ns (List.Subset.trans hns hv)
      refine (constrain_files h hrules hc).bind fun found hfound ↦ ?_
      cases found with
      | none => exact (note_ends _).bind fun _ _ ↦ .pure (by simp)
      | some captures => exact ih (fun other ho ↦ hf other (.tail _ ho)) (hfound captures rfl)

/-- A literal finds the node, or nothing. -/
theorem literal_files (h : Filing F C) {rule : LiteralRule}
    (hf : ∀ q ∈ (Rule.literal rule).references, ∀ ns, ns ⊆ n.children → find.Brings F q ns) :
    Ends (s.literal find id origin rule n)
      (fun finds ↦ ∀ f ∈ finds, ∃ captures, f = ⟨n, id, origin, origin.name, captures⟩ ∧
        finds = [f] ∧ C captures) fun _ ↦ True := by
  refine (Ends.trivial (hasKind rule n)).bind fun b _ ↦ ?_
  cases b with
  | false => exact .pure (by simp)
  | true =>
    have hrules : ∀ entry ∈ rule.attributes, ∀ q ∈ entry.2.references, ∀ ns, ns ⊆ n.children →
        find.Brings F q ns :=
      fun entry he q hq ↦ hf q (List.mem_flatMap.mpr ⟨entry, he, hq⟩)
    refine (meets_files h hrules h.empty).bind fun found hfound ↦ ?_
    cases found with
    | none => exact .pure (by simp)
    | some captures => exact .pure (by simpa using hfound captures rfl)

theorem literal_entries {rule : LiteralRule} {P : Find → Prop}
    (hf : ∀ q ∈ (Rule.literal rule).references, ∀ ns, ns ⊆ n.children → find.Adds P q ns) :
    Ends (s.literal find id origin rule n)
      (fun finds ↦ ∀ f ∈ finds, ∃ captures, f = ⟨n, id, origin, origin.name, captures⟩ ∧
        finds = [f] ∧ ∀ g ∈ captures, P g) fun _ ↦ True :=
  literal_files (filing_entries P) hf

end Setting

end TreePattern

import TreePattern.Proofs.Match.Grouping

namespace TreePattern

namespace Groups

variable {α : Type} {g h : Groups α} {a b : α} {name key : String}
  {entries others : List (String × α)} {groups : List (String × List α)}

def pairsOf (groups : List (String × List α)) : List (String × α) :=
  groups.flatMap fun group ↦ group.2.map (group.1, ·)

def pairs (g : Groups α) : List (String × α) :=
  pairsOf g.groups

def addAll (g : Groups α) (entries : List (String × α)) : Groups α :=
  entries.foldl (fun out entry ↦ out.push entry.1 entry.2) g

theorem addAll_cons (g : Groups α) (entry : String × α) (rest : List (String × α)) :
    g.addAll (entry :: rest) = (g.push entry.1 entry.2).addAll rest := rfl

theorem addAll_append (g : Groups α) (entries others : List (String × α)) :
    g.addAll (entries ++ others) = (g.addAll entries).addAll others :=
  List.foldl_append

theorem addAll_concat (g : Groups α) (entries : List (String × α)) (entry : String × α) :
    g.addAll (entries ++ [entry]) = (g.addAll entries).push entry.1 entry.2 :=
  addAll_append g entries [entry]

theorem pushAll_eq_addAll (g : Groups α) (group : String × List α) :
    g.pushAll group = g.addAll (group.2.map (group.1, ·)) := by
  rw [pushAll, addAll, List.foldl_map]

theorem append_eq_addAll (g h : Groups α) : g.append h = g.addAll h.pairs := by
  rw [append, pairs, pairsOf, addAll, List.foldl_flatMap]
  exact congrArg (List.foldl · g h.groups)
    (funext fun out ↦ funext fun group ↦ pushAll_eq_addAll out group)

theorem get_push (g : Groups α) (key : String) (a : α) (name : String) :
    (g.push key a).get name = if key = name then g.get name ++ [a] else g.get name := by
  obtain ⟨groups⟩ := g
  induction groups with
  | nil =>
    by_cases hk : key = name
    · simp [push, pushTo, get, hk]
    · simp [push, pushTo, get, hk]
  | cons group rest ih =>
    obtain ⟨first, entries⟩ := group
    simp only [push, get] at ih
    by_cases hfirst : first = key
    · subst hfirst
      by_cases hk : first = name
      · simp [push, pushTo, get, hk]
      · simp [push, pushTo, get, hk]
    · by_cases hn : first = name
      · have hk : key ≠ name := fun hk ↦ hfirst (hn.trans hk.symm)
        simp [push, pushTo, get, hn, hk, Ne.symm hk]
      · simpa [push, pushTo, get, hfirst, hn] using ih

theorem get_addAll (g : Groups α) (entries : List (String × α)) (name : String) :
    (g.addAll entries).get name =
      g.get name ++ (entries.filter fun entry ↦ entry.1 == name).map (·.2) := by
  induction entries generalizing g with
  | nil => simp [addAll]
  | cons entry rest ih =>
    rw [addAll_cons, ih, get_push]
    by_cases hk : entry.1 = name
    · simp [hk]
    · simp [hk]

theorem names_pushTo : (pushTo key a groups).map (·.1) =
    if key ∈ groups.map (·.1) then groups.map (·.1) else groups.map (·.1) ++ [key] := by
  induction groups with
  | nil => simp [pushTo]
  | cons group rest ih =>
    by_cases hfirst : group.1 = key
    · simp [pushTo, hfirst]
    · have hne : key ≠ group.1 := Ne.symm hfirst
      simp only [pushTo, beq_false_of_ne hfirst, Bool.false_eq_true, if_false, List.map_cons, ih,
        List.mem_cons, hne, false_or]
      by_cases hk : key ∈ rest.map (·.1)
      · rw [if_pos hk, if_pos hk]
      · rw [if_neg hk, if_neg hk, List.cons_append]

theorem names_push (g : Groups α) (key : String) (a : α) :
    (g.push key a).names = if key ∈ g.names then g.names else g.names ++ [key] :=
  names_pushTo

theorem mem_names_push (g : Groups α) (key : String) (a : α) :
    name ∈ (g.push key a).names ↔ name = key ∨ name ∈ g.names :=
  mem_names_pushTo

theorem names_addAll (entries : List (String × α)) :
    (empty.addAll entries).names = (entries.map (·.1)).eraseDups := by
  induction entries using List.reverseRecOn with
  | nil => rfl
  | append_singleton entries entry ih =>
    rw [addAll_concat, names_push, ih, List.map_append, List.eraseDups_append]
    by_cases hk : entry.1 ∈ entries.map (·.1)
    · simp [hk, List.removeAll]
    · simp [hk, List.removeAll, List.eraseDups_cons]

/-- Entries of two names can be added in either order, once there is a group for one of them. -/
theorem push_push_comm (hk : key ∈ g.names) (hne : key ≠ name) :
    (g.push key a).push name b = (g.push name b).push key a := by
  obtain ⟨groups⟩ := g
  simp only [push, mk.injEq]
  induction groups with
  | nil => simp [names] at hk
  | cons group rest ih =>
    by_cases hfirst : group.1 = key
    · have hn : group.1 ≠ name := hfirst ▸ hne
      simp [pushTo, hfirst, hne]
    · have hrest : key ∈ (⟨rest⟩ : Groups α).names := by
        simpa [names, Ne.symm hfirst] using hk
      by_cases hn : group.1 = name
      · simp [pushTo, hn, Ne.symm hne]
      · simp [pushTo, hfirst, hn, ih hrest]

theorem addAll_push (hk : key ∈ g.names) (hne : ∀ entry ∈ entries, entry.1 ≠ key) :
    (g.push key a).addAll entries = (g.addAll entries).push key a := by
  induction entries generalizing g with
  | nil => rfl
  | cons entry rest ih =>
    have hfirst : key ≠ entry.1 := Ne.symm (hne entry List.mem_cons_self)
    have hkeep : key ∈ (g.push entry.1 entry.2).names := (mem_names_push g _ _).mpr (.inr hk)
    rw [addAll_cons, push_push_comm hk hfirst]
    exact ih hkeep fun other ho ↦ hne other (.tail _ ho)

theorem mem_names_addAll : name ∈ (g.addAll entries).names ↔
    name ∈ entries.map (·.1) ∨ name ∈ g.names := by
  induction entries generalizing g with
  | nil => simp [addAll]
  | cons entry rest ih =>
    rw [addAll_cons, ih, mem_names_push, List.map_cons, List.mem_cons]
    tauto

theorem addAll_pairsOf_pushTo (hn : (groups.map (·.1)).Nodup)
    (he : ∀ group ∈ groups, group.2 ≠ []) :
    g.addAll (pairsOf (pushTo key a groups)) = (g.addAll (pairsOf groups)).push key a := by
  induction groups generalizing g with
  | nil => rfl
  | cons group rest ih =>
    obtain ⟨first, entries⟩ := group
    rw [List.map_cons, List.nodup_cons] at hn
    rw [pushTo]
    by_cases hk : first = key
    · -- The new entry is pushed past those of the other groups, to the end.
      subst hk
      have hgroup : first ∈ (g.addAll (entries.map (first, ·))).names := by
        rw [mem_names_addAll]
        obtain ⟨entry, hentry⟩ := List.exists_mem_of_ne_nil entries (he _ List.mem_cons_self)
        exact .inl (by simp [List.ne_nil_of_mem hentry])
      have hothers : ∀ entry ∈ pairsOf rest, entry.1 ≠ first := by
        intro entry hm heq
        obtain ⟨group, hg, hm⟩ := List.mem_flatMap.mp hm
        obtain ⟨x, -, rfl⟩ := List.mem_map.mp hm
        exact hn.1 (List.mem_map.mpr ⟨group, hg, heq⟩)
      simp only [pairsOf, List.flatMap_cons, beq_self_eq_true, if_true, List.map_append,
        addAll_append]
      exact addAll_push hgroup hothers
    · have hrest := ih (g := g.addAll (entries.map (first, ·))) hn.2
        fun other ho ↦ he other (.tail _ ho)
      simpa only [pairsOf, beq_false_of_ne hk, Bool.false_eq_true, if_false, List.flatMap_cons,
        addAll_append] using hrest

/-- An entry may be added to a multimap before or after that one is added to another. -/
theorem append_push (hh : h.Valid) (g : Groups α) (key : String) (a : α) :
    g.append (h.push key a) = (g.append h).push key a := by
  rw [append_eq_addAll, append_eq_addAll]
  exact addAll_pairsOf_pushTo hh.nodup hh.nonempty

theorem append_addAll (hh : h.Valid) (g : Groups α) (entries : List (String × α)) :
    g.append (h.addAll entries) = (g.append h).addAll entries := by
  induction entries generalizing h with
  | nil => rfl
  | cons entry rest ih =>
    rw [addAll_cons, addAll_cons, ← append_push hh]
    exact ih (hh.push entry.1 entry.2)

end Groups

/-- What filing a find adds: itself under its name or, without one, the entries of what it
captured. -/
def Find.contributions (f : Find) : List (String × Find) :=
  match f.name with
  | some name => [(name, f)]
  | none => f.captures.pairs

namespace Groups

variable {captures : Captures} {f : Find} {finds : List Find}

theorem record_eq_addAll (captures : Captures) (f : Find) :
    captures.record f = captures.addAll f.contributions := by
  unfold record Find.contributions
  cases f.name with
  | none => exact append_eq_addAll captures f.captures
  | some name => rfl

theorem recordAll_eq_addAll (captures : Captures) (finds : List Find) :
    captures.recordAll finds = captures.addAll (finds.flatMap Find.contributions) := by
  rw [recordAll, addAll, List.foldl_flatMap]
  exact congrArg (List.foldl · captures finds)
    (funext fun out ↦ funext fun f ↦ record_eq_addAll out f)

theorem recordAll_append (captures : Captures) (finds others : List Find) :
    captures.recordAll (finds ++ others) = (captures.recordAll finds).recordAll others :=
  List.foldl_append

/-- Finds may be filed before or after captures are added to others. -/
theorem append_recordAll_comm {others : Captures} (ho : others.Valid) (captures : Captures)
    (finds : List Find) :
    captures.append (others.recordAll finds) = (captures.append others).recordAll finds := by
  rw [recordAll_eq_addAll, recordAll_eq_addAll]
  exact append_addAll ho captures _

/-- Finds may be filed on their own first. -/
theorem append_recordAll (captures : Captures) (finds : List Find) :
    captures.append (empty.recordAll finds) = captures.recordAll finds :=
  append_recordAll_comm .empty captures finds

structure Collects (captures : Captures) (finds : List Find) : Prop where
  get : ∀ name, captures.get name =
    ((finds.flatMap Find.contributions).filter fun entry ↦ entry.1 == name).map (·.2)
  names : captures.names = ((finds.flatMap Find.contributions).map (·.1)).eraseDups

theorem collects_recordAll (finds : List Find) : (empty.recordAll finds).Collects finds := by
  rw [recordAll_eq_addAll]
  exact ⟨get_addAll empty _, names_addAll _⟩

end Groups

end TreePattern

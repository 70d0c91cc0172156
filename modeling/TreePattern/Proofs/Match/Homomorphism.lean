import TreePattern.Proofs.Match.Accumulation

namespace TreePattern

namespace Groups

variable {α : Type} {g h : Groups α} {a : α} {name : String} {entries : List α}
  {groups rest : List (String × List α)}

theorem Valid.addAll (hg : g.Valid) (entries : List (String × α)) : (g.addAll entries).Valid :=
  List.foldlRecOn entries _ hg fun _ hg entry _ ↦ hg.push entry.1 entry.2

theorem Valid.append (hg : g.Valid) (h : Groups α) : (g.append h).Valid := by
  rw [append_eq_addAll]
  exact hg.addAll h.pairs

theorem append_assoc (hh : h.Valid) (g k : Groups α) :
    (g.append h).append k = g.append (h.append k) := by
  rw [append_eq_addAll (g.append h), append_eq_addAll h, append_addAll hh]

theorem append_empty (g : Groups α) : g.append empty = g := rfl

/-- An entry passes by the groups of other names. -/
theorem pushTo_append (hn : name ∉ groups.map (·.1)) :
    pushTo name a (groups ++ rest) = groups ++ pushTo name a rest := by
  induction groups with
  | nil => rfl
  | cons group groups ih =>
    rw [List.map_cons, List.mem_cons, not_or] at hn
    rw [List.cons_append, pushTo, beq_false_of_ne (Ne.symm hn.1), ih hn.2]
    rfl

/-- The entries of a new name make a group at the end. -/
theorem addAll_group (hn : name ∉ groups.map (·.1)) (he : entries ≠ []) :
    (⟨groups⟩ : Groups α).addAll (entries.map (name, ·)) = ⟨groups ++ [(name, entries)]⟩ := by
  induction entries using List.reverseRecOn with
  | nil => exact absurd rfl he
  | append_singleton before entry ih =>
    rw [List.map_append, List.map_singleton, addAll_concat]
    by_cases hb : before = []
    · have hpush : pushTo name entry (groups ++ []) = groups ++ [(name, [entry])] :=
        pushTo_append hn
      rw [List.append_nil] at hpush
      simp [hb, addAll, push, hpush]
    · have hpush : pushTo name entry (groups ++ [(name, before)]) =
          groups ++ pushTo name entry [(name, before)] := pushTo_append hn
      rw [ih hb, push, hpush]
      simp [pushTo]

theorem addAll_pairsOf (hn : ((groups ++ rest).map (·.1)).Nodup)
    (he : ∀ group ∈ rest, group.2 ≠ []) :
    (⟨groups⟩ : Groups α).addAll (pairsOf rest) = ⟨groups ++ rest⟩ := by
  induction rest generalizing groups with
  | nil => simp [pairsOf, addAll]
  | cons group rest ih =>
    have hsplit : groups ++ group :: rest = (groups ++ [group]) ++ rest := by simp
    have hnew : group.1 ∉ groups.map (·.1) := by
      rw [List.map_append, List.nodup_append] at hn
      intro hm
      exact hn.2.2 _ hm _ List.mem_cons_self rfl
    rw [pairsOf, List.flatMap_cons, addAll_append, addAll_group hnew (he group List.mem_cons_self),
      hsplit]
    refine ih ?_ fun other ho ↦ he other (.tail _ ho)
    rwa [← hsplit]

theorem empty_append (hg : g.Valid) : empty.append g = g := by
  have hall : (⟨[]⟩ : Groups α).addAll (pairsOf g.groups) = ⟨[] ++ g.groups⟩ :=
    addAll_pairsOf hg.nodup hg.nonempty
  rwa [append_eq_addAll]

theorem Valid.recordAll {captures : Captures} (hc : captures.Valid) (finds : List Find) :
    (captures.recordAll finds).Valid := by
  rw [recordAll_eq_addAll]
  exact hc.addAll _

end Groups

namespace Setting

variable {find : Finder} {captures others : Captures}

/-- The captures of before may be added when all positions have been asked. -/
theorem positions_append (ho : others.Valid) (pairs : List (PatternId × Node)) :
    positions find pairs (captures.append others) = do
      return (← positions find pairs others).map captures.append := by
  -- What is collected on its own grows along the positions, and stays valid.
  induction pairs generalizing others with
  | nil => rfl
  | cons pair rest ih =>
    rw [positions, positions, bind_assoc]
    refine bind_congr fun finds ↦ ?_
    cases finds with
    | nil => rfl
    | cons f fs =>
      have hrest := ih (ho.recordAll (f :: fs))
      rwa [Groups.append_recordAll_comm ho] at hrest

/-- A sequence of rules files what it finds as if it were filed at once. -/
theorem constrain_sequence (find : Finder) (children : List Node) (captures : Captures)
    (ids : List PatternId) :
    constrain find (.nodes children) captures (.sequence ids) =
      if children.length = ids.length then positions find (ids.zip children) captures
      else return none := by
  have hpositions : positions find (ids.zip children) (captures.append .empty) = do
      return (← positions find (ids.zip children) .empty).map captures.append :=
    positions_append .empty (ids.zip children)
  rw [constrain, ← hpositions, Groups.append_empty]

end Setting

/-- Captures with distinct names and no empty group are a monoid under `append`, and filing is a
homomorphism into it from lists of finds. To file finds in captures is to add what they make on
their own. The finds of two matches, one after the other, are grouped as the sum of their
groupings. A sequence of rules, which collects on its own first, captures what it would capture if
it filed its finds at once. -/
theorem Groups.filing_homomorphism {a b : Captures} (ha : a.Valid) (hb : b.Valid) (c : Captures)
    (finds others : List Find) (tree : SyntaxTree) (find : Finder) (ids : List PatternId)
    (children : List Node) :
    (empty : Captures).Valid ∧ (a.append b).Valid ∧ (a.recordAll finds).Valid ∧
      (a.append b).append c = a.append (b.append c) ∧
      empty.append a = a ∧ a.append empty = a ∧
      a.recordAll finds = a.append (empty.recordAll finds) ∧
      (Matches.mk tree (finds ++ others)).grouped =
        (Matches.mk tree finds).grouped.append (Matches.mk tree others).grouped ∧
      Setting.constrain find (.nodes children) a (.sequence ids) =
        if children.length = ids.length then Setting.positions find (ids.zip children) a
        else return none := by
  have hgrouped : (empty.recordAll (finds ++ others) : Captures) =
      (empty.recordAll finds).append (empty.recordAll others) := by
    rw [recordAll_append, append_recordAll]
  exact ⟨.empty, ha.append b, ha.recordAll finds, append_assoc hb a c, empty_append ha,
    append_empty a, (append_recordAll a finds).symm, hgrouped,
    Setting.constrain_sequence find children a ids⟩

namespace Sample

def namedFind (name : String) : Find :=
  ⟨ident name, 1, ⟨some name, .literal ⟨some "Ident", []⟩⟩, some name, .empty⟩

def outerCaptures : Captures :=
  (Groups.empty.push "fun" (namedFind "fun")).push "argument" (namedFind "argument")

def innerCaptures : Captures :=
  (Groups.empty.push "rest" (namedFind "rest")).push "fun" (namedFind "fun")

def passingFind : Find :=
  ⟨ident "x", 2, ⟨none, .literal ⟨some "Ident", []⟩⟩, none, innerCaptures⟩

end Sample

theorem Groups.filing_homomorphism_interleaved :
    Sample.outerCaptures.Valid ∧ Sample.innerCaptures.Valid ∧
      (Sample.outerCaptures.append Sample.innerCaptures).names = ["fun", "argument", "rest"] ∧
      (Sample.outerCaptures.append Sample.innerCaptures).append Sample.outerCaptures =
        Sample.outerCaptures.append (Sample.innerCaptures.append Sample.outerCaptures) ∧
      empty.append Sample.outerCaptures = Sample.outerCaptures ∧
      Sample.outerCaptures.recordAll [Sample.passingFind, Sample.namedFind "argument"] =
        Sample.outerCaptures.append
          (empty.recordAll [Sample.passingFind, Sample.namedFind "argument"]) ∧
      Setting.constrain (fun _ _ ↦ return [Sample.passingFind])
          (.nodes [Sample.ident "x", Sample.ident "y"]) Sample.outerCaptures (.sequence [2, 3]) =
        Setting.positions (fun _ _ ↦ return [Sample.passingFind])
          [(2, Sample.ident "x"), (3, Sample.ident "y")] Sample.outerCaptures := by
  have houter : Sample.outerCaptures.Valid := (Valid.empty.push "fun" _).push "argument" _
  have hinner : Sample.innerCaptures.Valid := (Valid.empty.push "rest" _).push "fun" _
  obtain ⟨-, -, -, hassoc, hempty, -, hrecord, -, hsequence⟩ :=
    filing_homomorphism houter hinner Sample.outerCaptures
      [Sample.passingFind, Sample.namedFind "argument"] [] (Sample.callTree "print")
      (fun _ _ ↦ return [Sample.passingFind]) [2, 3] [Sample.ident "x", Sample.ident "y"]
  exact ⟨houter, hinner, by decide, hassoc, hempty, hrecord, hsequence⟩

end TreePattern

import TreePattern.Proofs.Pattern.Isomorphism

namespace TreePattern

namespace RawPattern

/-- What can be reached of the first pattern stands in the second one under new numbers, a different
one for each slot. Slots that are empty or missing there are empty or missing here. -/
structure Renames (raw raw' : RawPattern) (s : PatternId → PatternId) : Prop where
  root : raw'.root = s raw.root
  injective : Set.InjOn s {id | raw.Reachable id}
  slots : ∀ id, raw.Reachable id → raw'.get? (s id) = (raw.get? id).map (PatternNode.map s)

def renamed (s : PatternId → PatternId) :
    Except CompileError (List PatternId) → Except CompileError (List PatternId)
  | .ok ids => .ok (ids.map s)
  | .error e => .error ⟨e.fault, s e.slot⟩

def Visit.map (s : PatternId → PatternId) (visit : Visit) : Visit :=
  ⟨s visit.id, visit.rest.map s⟩

variable {raw raw' : RawPattern} {s : PatternId → PatternId} {id child : PatternId}
  {met rest refs ids order : List PatternId} {outer visits : List Visit} {e : CompileError}
  {p : Pattern}

theorem discover_cycle (h : child ∈ id :: outer.map (·.id)) :
    raw.discover met (⟨id, child :: rest⟩ :: outer) = .error ⟨.cycle, child⟩ := by
  rw [discover, if_pos (mem_path_iff.mpr h)]

theorem discover_fault (hp : child ∉ id :: outer.map (·.id)) (hm : child ∉ met)
    (he : raw.enter child = .error e) :
    raw.discover met (⟨id, child :: rest⟩ :: outer) = .error e := by
  rw [discover, if_neg (mt mem_path_iff.mp hp), dif_neg hm]
  split
  · split
    · next e' h =>
      rw [he] at h
      cases h
      rfl
    · next refs h =>
      rw [he] at h
      cases h
  · next hb =>
    rw [enter_of_size_le (Nat.le_of_not_lt hb)] at he
    exact he

/-- The slots that a walk has met, is inside of or still has to follow can be reached. -/
structure Stays (raw : RawPattern) (met : List PatternId) (visits : List Visit) : Prop where
  met : ∀ q ∈ met, raw.Reachable q
  visits : ∀ visit ∈ visits, ∀ q ∈ visit.id :: visit.rest, raw.Reachable q

namespace Stays

theorem tail {visit : Visit} (hs : Stays raw met (visit :: outer)) : Stays raw met outer :=
  ⟨hs.met, fun other ho ↦ hs.visits other (.tail _ ho)⟩

theorem next (hs : Stays raw met (⟨id, child :: rest⟩ :: outer)) : raw.Reachable child :=
  hs.visits _ List.mem_cons_self child (.tail _ List.mem_cons_self)

theorem advance (hs : Stays raw met (⟨id, child :: rest⟩ :: outer)) :
    Stays raw met (⟨id, rest⟩ :: outer) := by
  obtain ⟨hvisit, houter⟩ := List.forall_mem_cons.mp hs.visits
  obtain ⟨hid, hrefs⟩ := List.forall_mem_cons.mp hvisit
  obtain ⟨-, hrest⟩ := List.forall_mem_cons.mp hrefs
  exact ⟨hs.met, List.forall_mem_cons.mpr ⟨List.forall_mem_cons.mpr ⟨hid, hrest⟩, houter⟩⟩

theorem path (hs : Stays raw met (⟨id, rest⟩ :: outer)) :
    ∀ q ∈ id :: outer.map (·.id), raw.Reachable q := by
  refine List.forall_mem_cons.mpr ⟨hs.visits _ List.mem_cons_self id List.mem_cons_self, ?_⟩
  intro q hq
  obtain ⟨visit, hv, rfl⟩ := List.mem_map.mp hq
  exact hs.visits visit (.tail _ hv) visit.id List.mem_cons_self

theorem enter (hs : Stays raw met visits) (hc : raw.Reachable child)
    (he : raw.enter child = .ok refs) : Stays raw (child :: met) (⟨child, refs⟩ :: visits) := by
  have hrefs : ∀ q ∈ refs, raw.Reachable q := fun q hq ↦ hc.tail ((mem_iff_refers he).mp hq)
  refine ⟨List.forall_mem_cons.mpr ⟨hc, hs.met⟩, List.forall_mem_cons.mpr ⟨?_, hs.visits⟩⟩
  exact List.forall_mem_cons.mpr ⟨hc, hrefs⟩

end Stays

namespace Renames

theorem mem_map_iff (h : raw.Renames raw' s) (hids : ∀ q ∈ ids, raw.Reachable q)
    (hid : raw.Reachable id) : s id ∈ ids.map s ↔ id ∈ ids := by
  rw [List.mem_map]
  constructor
  · rintro ⟨q, hq, heq⟩
    exact h.injective (hids q hq) hid heq ▸ hq
  · exact fun hm ↦ ⟨id, hm, rfl⟩

theorem enter (h : raw.Renames raw' s) (hid : raw.Reachable id) :
    raw'.enter (s id) = renamed s (raw.enter id) := by
  unfold RawPattern.enter
  rw [h.slots id hid]
  cases raw.get? id with
  | none => rfl
  | some node =>
    obtain ⟨name, rule | ⟨_ | ⟨q, qs⟩, exact, operator⟩⟩ := node
    · exact congrArg Except.ok (Rule.references_map s (.literal rule))
    · rfl
    · rfl

/-- A walk under new numbers is inside of the new numbers of the slots that it was inside of. -/
theorem mem_path_iff (h : raw.Renames raw' s)
    (hs : Stays raw met (⟨id, child :: rest⟩ :: outer)) :
    s child ∈ s id :: (outer.map (Visit.map s)).map (·.id) ↔ child ∈ id :: outer.map (·.id) := by
  have hpath : s id :: (outer.map (Visit.map s)).map (·.id) = (id :: outer.map (·.id)).map s := by
    simp only [List.map_cons, List.map_map]
    rfl
  rw [hpath, h.mem_map_iff hs.path hs.next]

theorem notMem_path (h : raw.Renames raw' s)
    (hs : Stays raw met (⟨id, child :: rest⟩ :: outer))
    (hc : ¬ ((⟨id, child :: rest⟩ : Visit) :: outer).any (·.id == child) = true) :
    s child ∉ s id :: (outer.map (Visit.map s)).map (·.id) :=
  mt (h.mem_path_iff hs).mp (mt RawPattern.mem_path_iff.mpr hc)

theorem notMem_met (h : raw.Renames raw' s)
    (hs : Stays raw met (⟨id, child :: rest⟩ :: outer)) (hm : child ∉ met) :
    s child ∉ met.map s :=
  mt (h.mem_map_iff hs.met hs.next).mp hm

theorem discover (h : raw.Renames raw' s) (hs : Stays raw met visits) :
    raw'.discover (met.map s) (visits.map (Visit.map s)) = renamed s (raw.discover met visits) := by
  fun_induction RawPattern.discover raw met visits with
  | case1 met => rw [List.map_nil, RawPattern.discover, renamed, List.map_reverse]
  | case2 met id outer ih =>
    rw [List.map_cons, Visit.map, List.map_nil, RawPattern.discover]
    exact ih hs.tail
  | case3 met id child rest outer hc =>
    exact discover_cycle ((h.mem_path_iff hs).mpr (RawPattern.mem_path_iff.mp hc))
  | case4 met id child rest outer hc hm ih =>
    have hmet := (h.mem_map_iff hs.met hs.next).mpr hm
    refine (discover_old (h.notMem_path hs hc) hmet).trans ?_
    exact ih hs.advance
  | case5 met id child rest outer hc hm hb e he =>
    refine discover_fault (h.notMem_path hs hc) (h.notMem_met hs hm) ?_
    rw [h.enter hs.next, he]
    rfl
  | case6 met id child rest outer hc hm hb refs he _ ih =>
    have henter : raw'.enter (s child) = .ok (refs.map s) := by
      rw [h.enter hs.next, he]
      rfl
    refine (discover_new (h.notMem_path hs hc) (h.notMem_met hs hm) henter).trans ?_
    exact ih (hs.advance.enter hs.next he)
  | case7 met id child rest outer hc hm hb =>
    refine discover_fault (h.notMem_path hs hc) (h.notMem_met hs hm) ?_
    rw [h.enter hs.next, enter_of_size_le (Nat.le_of_not_lt hb)]
    rfl

theorem discoveryOrder (h : raw.Renames raw' s) :
    raw'.discoveryOrder = renamed s raw.discoveryOrder := by
  have hroot : raw.Reachable raw.root := .refl
  unfold RawPattern.discoveryOrder
  rw [h.root, h.enter hroot]
  cases he : raw.enter raw.root with
  | error e => rfl
  | ok refs =>
    have hs : Stays raw [] [] := ⟨by simp, by simp⟩
    exact h.discover (hs.enter hroot he)

theorem idxOf_map (h : raw.Renames raw' s) (hids : ∀ q ∈ ids, raw.Reachable q)
    (hid : id ∈ ids) : (ids.map s).idxOf (s id) = ids.idxOf id := by
  induction ids with
  | nil => cases hid
  | cons first rest ih =>
    rw [List.map_cons]
    by_cases heq : first = id
    · rw [heq, List.idxOf_cons_self, List.idxOf_cons_self]
    · have hne : s first ≠ s id :=
        fun hs ↦ heq (h.injective (hids first List.mem_cons_self) (hids id hid) hs)
      have hrest : id ∈ rest := (List.mem_cons.mp hid).resolve_left (Ne.symm heq)
      rw [List.idxOf_cons_ne _ hne, List.idxOf_cons_ne _ heq,
        ih (fun q hq ↦ hids q (.tail _ hq)) hrest]

/-- New numbers give way to the same places. -/
theorem map_idxOf (h : raw.Renames raw' s) (hl : Lists raw order) (hid : id ∈ order) :
    (raw'.get? (s id)).map (PatternNode.map (order.map s).idxOf) =
      (raw.get? id).map (PatternNode.map order.idxOf) := by
  obtain ⟨node, hg, -⟩ := hl.defined hid
  rw [h.slots id (hl.reached id hid), hg, Option.map_some, Option.map_some, Option.map_some]
  have hmap : PatternNode.Rel (fun i j ↦ i ∈ order ∧ j = s i) (fun _ ↦ True) node (node.map s) := by
    refine PatternNode.rel_map fun q hq ↦ ⟨?_, rfl⟩
    exact hl.mem_iff.mpr ((hl.reached id hid).tail ⟨node, hg, hq⟩)
  refine congrArg some (hmap.map_eq ?_).symm
  rintro i j ⟨hi, rfl⟩
  exact (h.idxOf_map hl.reached hi).symm

theorem compile (h : raw.Renames raw' s) :
    raw'.compile = raw.compile.mapError fun e ↦ ⟨e.fault, s e.slot⟩ := by
  unfold RawPattern.compile
  rw [h.discoveryOrder]
  cases hd : raw.discoveryOrder with
  | error e => rfl
  | ok order =>
    have hl := discoveryOrder_lists hd
    have hnodes := List.filterMap_congr fun id hid ↦ h.map_idxOf hl hid
    refine congrArg (fun nodes : List PatternNode ↦ Except.ok (Pattern.mk nodes.toArray)) ?_
    rw [List.filterMap_map]
    exact hnodes

end Renames

end RawPattern

def Pattern.toRaw (p : Pattern) : RawPattern :=
  ⟨p.nodes.map some, Pattern.root⟩

theorem Pattern.get?_toRaw (p : Pattern) (id : PatternId) : p.toRaw.get? id = p.get? id := by
  rw [RawPattern.get?, Pattern.toRaw, Array.getElem?_map, Pattern.get?]
  cases p.nodes[id]? <;> rfl

namespace RawPattern

variable {raw : RawPattern} {p : Pattern}

/-- Compiling gives everything that can be reached the number of its place. -/
theorem renames_toRaw (h : raw.compile = .ok p) : ∃ s, raw.Renames p.toRaw s := by
  obtain ⟨order, -, hl, -, hget⟩ := compile_eq_ok h
  refine ⟨order.idxOf, hl.idxOf_root.symm, hl.bijOn.injOn, fun id hid ↦ ?_⟩
  rw [Pattern.get?_toRaw, hget, List.getElem?_idxOf (hl.mem_iff.mpr hid)]
  rfl

/-- If what can be reached of a pattern stands in another one under new numbers, both compile to
the same, or both have the same fault, the other one at the new number of the slot. So a pattern
that has been compiled compiles to itself. -/
theorem compile_renames (raw : RawPattern) :
    (∀ raw' s, raw.Renames raw' s →
      (∀ p, raw.compile = .ok p → raw'.compile = .ok p) ∧
      ∀ e, raw.compile = .error e → raw'.compile = .error ⟨e.fault, s e.slot⟩) ∧
    ∀ p, raw.compile = .ok p → p.toRaw.compile = .ok p := by
  have hrenames : ∀ raw' s, raw.Renames raw' s →
      (∀ p, raw.compile = .ok p → raw'.compile = .ok p) ∧
      ∀ e, raw.compile = .error e → raw'.compile = .error ⟨e.fault, s e.slot⟩ := by
    intro raw' s h
    refine ⟨fun p hp ↦ ?_, fun e he ↦ ?_⟩
    · rw [h.compile, hp]
      rfl
    · rw [h.compile, he]
      rfl
  refine ⟨hrenames, fun p hp ↦ ?_⟩
  obtain ⟨s, h⟩ := renames_toRaw hp
  exact (hrenames p.toRaw s h).1 p hp

end RawPattern

namespace Sample

def shifted (raw : RawPattern) : RawPattern where
  slots := #[some ⟨none, .search ⟨[0], false, .anyOf⟩⟩] ++
    raw.slots.map (Option.map (PatternNode.map (· + 1)))
  root := raw.root + 1

theorem renames_shifted (raw : RawPattern) : raw.Renames (shifted raw) (· + 1) where
  root := rfl
  injective := (Nat.succ_injective).injOn
  slots id _ := by
    rw [RawPattern.get?, shifted, Array.getElem?_append_right (by simp), Array.getElem?_map,
      RawPattern.get?]
    change (raw.slots[id]?.map _).join = _
    cases raw.slots[id]? <;> rfl

end Sample

theorem RawPattern.compile_renames_shifted :
    Sample.detourPattern.Renames (Sample.shifted Sample.detourPattern) (· + 1) ∧
      (Sample.shifted Sample.detourPattern).compile = .ok Sample.detourRules ∧
      Sample.detourRules.toRaw.compile = .ok Sample.detourRules ∧
      (Sample.shifted ⟨#[none], 0⟩).compile = .error ⟨.dangling, 1⟩ := by
  obtain ⟨hrenames, hagain⟩ := compile_renames Sample.detourPattern
  have hshifted := hrenames _ _ (Sample.renames_shifted Sample.detourPattern)
  have hempty := (compile_renames ⟨#[none], 0⟩).1 _ _ (Sample.renames_shifted ⟨#[none], 0⟩)
  exact ⟨Sample.renames_shifted _, hshifted.1 _ Sample.compile_detourPattern,
    hagain _ Sample.compile_detourPattern, hempty.2 ⟨.dangling, 0⟩ rfl⟩

end TreePattern

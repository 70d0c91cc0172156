import TreePattern.Proofs.Pattern.Reference

namespace TreePattern.RawPattern

/-- Following references from left to right, inside the slots of `path` and with the slots of `met`
behind it, a walk ends in a fault or in the slots met by then. -/
inductive Explores (raw : RawPattern) : List PatternId → List PatternId → List PatternId →
    Except CompileError (List PatternId) → Prop
  | done (path met : List PatternId) : Explores raw path met [] (.ok met)
  | cycle {path met rest : List PatternId} {child : PatternId} :
      child ∈ path → Explores raw path met (child :: rest) (.error ⟨.cycle, child⟩)
  | old {path met rest : List PatternId} {child : PatternId}
      {out : Except CompileError (List PatternId)} :
      child ∉ path → child ∈ met → Explores raw path met rest out →
      Explores raw path met (child :: rest) out
  | fault {path met rest : List PatternId} {child : PatternId} {e : CompileError} :
      child ∉ path → child ∉ met → raw.enter child = .error e →
      Explores raw path met (child :: rest) (.error e)
  | inner {path met rest refs : List PatternId} {child : PatternId} {e : CompileError} :
      child ∉ path → child ∉ met → raw.enter child = .ok refs →
      Explores raw (child :: path) (child :: met) refs (.error e) →
      Explores raw path met (child :: rest) (.error e)
  | next {path met met' rest refs : List PatternId} {child : PatternId}
      {out : Except CompileError (List PatternId)} :
      child ∉ path → child ∉ met → raw.enter child = .ok refs →
      Explores raw (child :: path) (child :: met) refs (.ok met') →
      Explores raw path met' rest out → Explores raw path met (child :: rest) out

/-- The visits of a path are suspended walks: the innermost one is taken up first, and the one
around it when that has ended well. -/
inductive Resumes (raw : RawPattern) : List PatternId → List Visit →
    Except CompileError (List PatternId) → Prop
  | done (met : List PatternId) : Resumes raw met [] (.ok met.reverse)
  | fail {met rest : List PatternId} {id : PatternId} {outer : List Visit} {e : CompileError} :
      Explores raw (id :: outer.map (·.id)) met rest (.error e) →
      Resumes raw met (⟨id, rest⟩ :: outer) (.error e)
  | step {met met' rest : List PatternId} {id : PatternId} {outer : List Visit}
      {out : Except CompileError (List PatternId)} :
      Explores raw (id :: outer.map (·.id)) met rest (.ok met') →
      Resumes raw met' outer out → Resumes raw met (⟨id, rest⟩ :: outer) out

variable {raw : RawPattern} {met rest refs : List PatternId} {id child : PatternId}
  {outer : List Visit} {out : Except CompileError (List PatternId)}

theorem enter_eq_ok : raw.enter id = .ok refs ↔ ∃ node, raw.get? id = some node ∧
    refs = node.references ∧ ∀ rule, node.rule = .search rule → rule.rules ≠ [] := by
  unfold enter
  cases hg : raw.get? id with
  | none => simp
  | some node =>
    obtain ⟨name, rule | ⟨_ | ⟨q, qs⟩, exact, operator⟩⟩ := node <;> simp [eq_comm]

theorem enter_of_size_le (h : raw.size ≤ id) : raw.enter id = .error ⟨.dangling, id⟩ := by
  have hg : raw.get? id = none := by
    rw [get?, Array.getElem?_eq_none (show raw.slots.size ≤ id from h), Option.join_none]
  simp only [enter, hg]

theorem Resumes.old (hp : child ∉ id :: outer.map (·.id)) (hm : child ∈ met)
    (h : Resumes raw met (⟨id, rest⟩ :: outer) out) :
    Resumes raw met (⟨id, child :: rest⟩ :: outer) out := by
  cases h with
  | fail hx => exact .fail (.old hp hm hx)
  | step hx hr => exact .step (.old hp hm hx) hr

/-- Walking through a new slot first and through what is left then is one walk. -/
theorem Resumes.enter (hp : child ∉ id :: outer.map (·.id))
    (hm : child ∉ met) (he : raw.enter child = .ok refs)
    (h : Resumes raw (child :: met) (⟨child, refs⟩ :: ⟨id, rest⟩ :: outer) out) :
    Resumes raw met (⟨id, child :: rest⟩ :: outer) out := by
  cases h with
  | fail hx => exact .fail (.inner hp hm he hx)
  | step hx hr =>
    cases hr with
    | fail hy => exact .fail (.next hp hm he hx hy)
    | step hy hr => exact .step (.next hp hm he hx hy) hr

theorem mem_path_iff : ((⟨id, rest⟩ : Visit) :: outer).any (·.id == child) = true ↔
    child ∈ id :: outer.map (·.id) := by
  rw [← List.map_cons (f := Visit.id) (a := ⟨id, rest⟩)]
  simp only [List.any_eq_true, List.mem_map, beq_iff_eq]

theorem discover_old (hp : child ∉ id :: outer.map (·.id)) (hm : child ∈ met) :
    raw.discover met (⟨id, child :: rest⟩ :: outer) = raw.discover met (⟨id, rest⟩ :: outer) := by
  rw [discover, if_neg (mt mem_path_iff.mp hp), dif_pos hm]

theorem discover_new (hp : child ∉ id :: outer.map (·.id)) (hm : child ∉ met)
    (he : raw.enter child = .ok refs) :
    raw.discover met (⟨id, child :: rest⟩ :: outer) =
      raw.discover (child :: met) (⟨child, refs⟩ :: ⟨id, rest⟩ :: outer) := by
  have hb : child < raw.size := by
    by_contra hb
    rw [enter_of_size_le (Nat.le_of_not_lt hb)] at he
    cases he
  rw [discover, if_neg (mt mem_path_iff.mp hp), dif_neg hm, dif_pos hb]
  split
  · next e h => rw [he] at h; cases h
  · next refs' h => rw [he] at h; cases h; rfl

/-- The walk with an explicit path is the recursive walk. -/
theorem discover_resumes (raw : RawPattern) (met : List PatternId) (visits : List Visit) :
    Resumes raw met visits (raw.discover met visits) := by
  fun_induction discover raw met visits with
  | case1 met => exact .done met
  | case2 met id outer ih => exact .step (.done _ met) ih
  | case3 met id child rest outer hc =>
    exact .fail (.cycle (mem_path_iff.mp hc))
  | case4 met id child rest outer hc hm ih =>
    exact ih.old (mt mem_path_iff.mpr hc) hm
  | case5 met id child rest outer hc hm hb e he =>
    exact .fail (.fault (mt mem_path_iff.mpr hc) hm he)
  | case6 met id child rest outer hc hm hb refs he _ ih =>
    exact ih.enter (mt mem_path_iff.mpr hc) hm he
  | case7 met id child rest outer hc hm hb =>
    exact .fail (.fault (mt mem_path_iff.mpr hc) hm (enter_of_size_le (Nat.le_of_not_lt hb)))

theorem discoveryOrder_cases (raw : RawPattern) :
    (∃ e, raw.enter raw.root = .error e ∧ raw.discoveryOrder = .error e) ∨
    ∃ refs, raw.enter raw.root = .ok refs ∧
      ((∃ e, Explores raw [raw.root] [raw.root] refs (.error e) ∧ raw.discoveryOrder = .error e) ∨
      ∃ met, Explores raw [raw.root] [raw.root] refs (.ok met) ∧
        raw.discoveryOrder = .ok met.reverse) := by
  cases he : raw.enter raw.root with
  | error e => exact .inl ⟨e, rfl, by simp only [discoveryOrder, he]; rfl⟩
  | ok refs =>
    have hd : raw.discoveryOrder = raw.discover [raw.root] [⟨raw.root, refs⟩] := by
      simp only [discoveryOrder, he]
      rfl
    have hr := discover_resumes raw [raw.root] [⟨raw.root, refs⟩]
    refine .inr ⟨refs, rfl, ?_⟩
    rw [hd]
    generalize raw.discover [raw.root] [⟨raw.root, refs⟩] = out at hr ⊢
    cases hr with
    | fail hx => exact .inl ⟨_, hx, rfl⟩
    | step hx hr =>
      cases hr with
      | done => exact .inr ⟨_, hx, rfl⟩

end TreePattern.RawPattern

import TreePattern.Pattern.Sample
import TreePattern.Proofs.Match.Comparison
import TreePattern.Proofs.Match.Decision
import TreePattern.Tree.Sample

namespace TreePattern

open MatchM Setting

/-- A part of a match under a limit follows one without limit. Below the limit both end alike, with
related results. Where the one without limit goes beyond, the other one fails. -/
structure CutOff (limit : ℕ) {α β : Type} (R : α → β → Prop) (free : MatchM α)
    (limited : MatchM β) : Prop where
  total : ∀ {tally a tally'}, free tally = (.ok a, tally') → ∃ b, R a b
  grows : ∀ {tally result tally'}, free tally = (result, tally') → tally.visited ≤ tally'.visited
  ok : ∀ {tally a tally'}, free tally = (.ok a, tally') → tally'.visited ≤ limit →
    ∃ b, limited tally = (.ok b, tally') ∧ R a b
  error : ∀ {tally e tally'}, free tally = (.error e, tally') → tally'.visited ≤ limit →
    limited tally = (.error e, tally')
  beyond : ∀ {tally result tally'}, free tally = (result, tally') → tally.visited ≤ limit →
    limit < tally'.visited → (limited tally).1 = .error (.limitExceeded limit)

namespace CutOff

variable {limit : ℕ} {α β γ δ : Type} {R : α → β → Prop} {S : γ → δ → Prop} {x : MatchM α}
  {y : MatchM β} {f : α → MatchM γ} {g : β → MatchM δ}

/-- Parts that succeed without a visit. -/
theorem of_ok {a : α} {b : β} (after : Tally → Tally)
    (hv : ∀ tally, (after tally).visited = tally.visited)
    (hx : ∀ tally, x tally = (.ok a, after tally))
    (hy : ∀ tally, y tally = (.ok b, after tally)) (hab : R a b) : CutOff limit R x y where
  total {tally a' tally'} h := by
    rw [hx] at h
    cases h
    exact ⟨b, hab⟩
  grows {tally result tally'} h := by
    rw [hx] at h
    cases h
    exact (hv tally).ge
  ok {tally a' tally'} h hle := by
    rw [hx] at h
    cases h
    exact ⟨b, hy tally, hab⟩
  error {tally e tally'} h hle := by
    rw [hx] at h
    cases h
  beyond {tally result tally'} h hle hlt := by
    rw [hx] at h
    cases h
    rw [hv] at hlt
    omega

theorem pure {a : α} {b : β} (h : R a b) : CutOff limit R (Pure.pure a) (Pure.pure b) :=
  of_ok id (fun _ ↦ rfl) (fun _ ↦ rfl) (fun _ ↦ rfl) h

theorem throw (e : MatchError) :
    CutOff limit R (MonadExcept.throw e : MatchM α) (MonadExcept.throw e : MatchM β) where
  total h := by cases h
  grows h := by
    cases h
    exact le_rfl
  ok h hle := by cases h
  error h hle := by
    cases h
    rfl
  beyond h hle hlt := by
    cases h
    omega

theorem bind (h : CutOff limit R x y) (hf : ∀ a b, R a b → CutOff limit S (f a) (g b)) :
    CutOff limit S (x >>= f) (y >>= g) where
  total hc := by
    obtain ⟨a, tally₁, hx, hc⟩ := bind_eq_ok.mp hc
    obtain ⟨b, hab⟩ := h.total hx
    exact (hf a b hab).total hc
  grows {tally result tally'} hr := by
    rcases hx : x tally with ⟨e | a, tally₁⟩
    · rw [bind_apply_of_error hx] at hr
      cases hr
      exact h.grows hx
    · rw [bind_apply_of_ok hx] at hr
      obtain ⟨b, hab⟩ := h.total hx
      exact (h.grows hx).trans ((hf a b hab).grows hr)
  ok hc hle := by
    obtain ⟨a, tally₁, hx, hc⟩ := bind_eq_ok.mp hc
    obtain ⟨b', hab'⟩ := h.total hx
    obtain ⟨b, hy, hab⟩ := h.ok hx (((hf a b' hab').grows hc).trans hle)
    obtain ⟨d, hd, hcd⟩ := (hf a b hab).ok hc hle
    exact ⟨d, by rw [bind_apply_of_ok hy, hd], hcd⟩
  error {tally e tally'} hr hle := by
    rcases hx : x tally with ⟨e' | a, tally₁⟩
    · rw [bind_apply_of_error hx] at hr
      cases hr
      exact bind_apply_of_error (h.error hx hle)
    · rw [bind_apply_of_ok hx] at hr
      obtain ⟨b', hab'⟩ := h.total hx
      obtain ⟨b, hy, hab⟩ := h.ok hx (((hf a b' hab').grows hr).trans hle)
      rw [bind_apply_of_ok hy]
      exact (hf a b hab).error hr hle
  beyond {tally result tally'} hr hle hlt := by
    rcases hx : x tally with ⟨e' | a, tally₁⟩
    · rw [bind_apply_of_error hx] at hr
      cases hr
      exact bind_fst_of_error (h.beyond hx hle hlt)
    · rw [bind_apply_of_ok hx] at hr
      -- The limit is passed in the second part or before it, where the second part is not reached.
      by_cases hle₁ : tally₁.visited ≤ limit
      · obtain ⟨b, hy, hab⟩ := h.ok hx hle₁
        rw [bind_apply_of_ok hy]
        exact (hf a b hab).beyond hr hle₁ hlt
      · exact bind_fst_of_error (h.beyond hx hle (by omega))

def comparison (limit : ℕ) : Comparison where
  rel := CutOff limit
  pure := CutOff.pure
  bind := CutOff.bind
  throw := CutOff.throw

variable {view : View} {p : Pattern} {traced : Bool}

theorem charge : CutOff limit Eq (⟨view, p, none, traced⟩ : Setting).charge
    (⟨view, p, some limit, traced⟩ : Setting).charge where
  total h := ⟨_, rfl⟩
  grows h := by
    cases h
    exact Nat.le_succ _
  ok h hle := by
    cases h
    exact ⟨(), if_neg (by omega), rfl⟩
  error h hle := by cases h
  beyond h hle hlt := by
    cases h
    exact congrArg Prod.fst (if_pos hlt)

theorem note (event : TraceEvent) : CutOff limit Eq
    ((⟨view, p, none, traced⟩ : Setting).note event)
    ((⟨view, p, some limit, traced⟩ : Setting).note event) := by
  refine of_ok (fun tally ↦ if traced then { tally with trace := event :: tally.trace } else tally)
    (fun tally ↦ ?_) (fun tally ↦ rfl) (fun tally ↦ rfl) rfl
  cases traced <;> rfl

theorem findAt (depth : ℕ) (id : PatternId) (roots : List Node) : CutOff limit Eq
    ((⟨view, p, none, traced⟩ : Setting).findAt depth id roots)
    ((⟨view, p, some limit, traced⟩ : Setting).findAt depth id roots) := by
  refine Comparison.findAt_same (c := comparison limit) ?_ ?_ charge note depth id roots
  · rfl
  · rfl

end CutOff

namespace Engine

variable {p : Pattern} {traced : Bool} {tree : SyntaxTree} {limit : ℕ}

theorem cutOff (traced : Bool) (tree : SyntaxTree) (p : Pattern) (limit : ℕ) : CutOff limit Eq
    ((⟨tree.view, p, none, traced⟩ : Setting).findAt p.size Pattern.root [tree.root])
    ((⟨tree.view, p, some limit, traced⟩ : Setting).findAt p.size Pattern.root [tree.root]) :=
  CutOff.findAt p.size Pattern.root [tree.root]

theorem run_eq_of_visited_le (h : (run ⟨none⟩ traced tree p).2.visited ≤ limit) :
    run ⟨some limit⟩ traced tree p = run ⟨none⟩ traced tree p := by
  have hcut := cutOff traced tree p limit
  rcases hrun : run ⟨none⟩ traced tree p with ⟨e | finds, tally⟩
  · rw [hrun] at h
    exact hcut.error hrun h
  · rw [hrun] at h
    obtain ⟨finds', hlimited, rfl⟩ := hcut.ok hrun h
    exact hlimited

theorem run_error_of_lt_visited (h : limit < (run ⟨none⟩ traced tree p).2.visited) :
    (run ⟨some limit⟩ traced tree p).1 = .error (.limitExceeded limit) :=
  (cutOff traced tree p limit).beyond rfl (Nat.zero_le _) h

theorem execute_eq_of_visits_le (h : tree.visits p ≤ limit) :
    execute ⟨some limit⟩ tree p = execute ⟨none⟩ tree p := by
  rw [execute, execute, run_eq_of_visited_le h]

theorem execute_error_of_lt_visits (h : limit < tree.visits p) :
    execute ⟨some limit⟩ tree p = .error (.limitExceeded limit) := by
  rw [execute, run_error_of_lt_visited h]
  rfl

/-- Matching a compiled pattern under a limit gives what matching without limit gives, if this makes
no more visits than the limit allows, and fails for the limit otherwise. Without limit, a match ends
in success or at a part of the tree that cannot be read; both count. So no limit cuts a result
short, and beyond a limit that is enough the outcome stays the same. -/
theorem compiled_limit_threshold {raw : RawPattern} (compiled : raw.compile = .ok p)
    (tree : SyntaxTree) :
    ((∃ found, execute ⟨none⟩ tree p = .ok found) ∨
      ∃ error, execute ⟨none⟩ tree p = .error (.access error)) ∧
    (∀ limit,
      (tree.visits p ≤ limit → execute ⟨some limit⟩ tree p = execute ⟨none⟩ tree p) ∧
      (limit < tree.visits p → execute ⟨some limit⟩ tree p = .error (.limitExceeded limit))) ∧
    ∀ limit larger, limit ≤ larger → execute ⟨some limit⟩ tree p ≠ .error (.limitExceeded limit) →
      execute ⟨some larger⟩ tree p = execute ⟨some limit⟩ tree p := by
  have hp := RawPattern.compile_sound compiled
  refine ⟨?_, fun limit ↦ ⟨execute_eq_of_visits_le, execute_error_of_lt_visits⟩,
    fun limit larger hle hne ↦ ?_⟩
  · rcases h : run ⟨none⟩ false tree p with ⟨e | finds, tally⟩
    · refine .inr ?_
      have he := Setting.findAt_error (s := ⟨tree.view, p, none, false⟩) hp hp.nonempty le_rfl h
      obtain ⟨error, rfl⟩ | ⟨limit, hl, -⟩ := he
      · exact ⟨error, by rw [execute, h]; rfl⟩
      · cases hl
    · exact .inl ⟨⟨tree, finds⟩, execute_eq_ok.mpr ⟨finds, tally, h, rfl⟩⟩
  · have hvisits : tree.visits p ≤ limit :=
      Nat.le_of_not_lt fun hlt ↦ hne (execute_error_of_lt_visits hlt)
    rw [execute_eq_of_visits_le hvisits, execute_eq_of_visits_le (hvisits.trans hle)]

theorem compiled_limit_threshold_ident :
    (Sample.callTree "print").visits Sample.identRules = 3 ∧
      execute ⟨some 2⟩ (Sample.callTree "print") Sample.identRules = .error (.limitExceeded 2) ∧
      execute ⟨some 3⟩ (Sample.callTree "print") Sample.identRules =
        execute ⟨none⟩ (Sample.callTree "print") Sample.identRules := by
  have hvisits : (Sample.callTree "print").visits Sample.identRules = 3 := by decide +kernel
  obtain ⟨-, h, -⟩ := compiled_limit_threshold Sample.compile_identPattern (Sample.callTree "print")
  exact ⟨hvisits, (h 2).2 (by omega), (h 3).1 (by omega)⟩

end Engine

end TreePattern

import TreePattern.Match.Search

namespace TreePattern.MatchM

variable {α β : Type} {x : MatchM α} {f : α → MatchM β} {P Q : α → Prop} {R : β → Prop}
  {E : MatchError → Prop} {tally tally' : Tally}

/-- How parts of a computation with a state and failures run one after the other. -/
theorem bind_apply {ε σ : Type} (x : ExceptT ε (StateM σ) α) (f : α → ExceptT ε (StateM σ) β)
    (state : σ) :
    (x >>= f) state = match x state with
      | (.ok a, state) => f a state
      | (.error e, state) => (.error e, state) := by
  change (match x state with
    | (a, state) => (ExceptT.bindCont f a : StateM σ (Except ε β)) state) = _
  rcases x state with ⟨_ | a, state⟩ <;> rfl

theorem pure_apply (a : α) (tally : Tally) : (pure a : MatchM α) tally = (.ok a, tally) := rfl

theorem bind_eq_ok {b : β} : (x >>= f) tally = (.ok b, tally') ↔
    ∃ a tally₁, x tally = (.ok a, tally₁) ∧ f a tally₁ = (.ok b, tally') := by
  rw [bind_apply]
  constructor
  · rcases x tally with ⟨e | a, tally₁⟩
    · intro h
      cases h
    · exact fun h ↦ ⟨a, tally₁, rfl, h⟩
  · rintro ⟨a, tally₁, hx, h⟩
    rw [hx]
    exact h

theorem access_ok (a : α) : Setting.access (.ok a) = pure a := rfl

theorem bind_apply_of_ok {a : α} (h : x tally = (.ok a, tally')) :
    (x >>= f) tally = f a tally' := by
  rw [bind_apply, h]

theorem bind_apply_of_error {e : MatchError} (h : x tally = (.error e, tally')) :
    (x >>= f) tally = (.error e, tally') := by
  rw [bind_apply, h]

theorem bind_fst_of_error {e : MatchError} (h : (x tally).1 = .error e) :
    ((x >>= f) tally).1 = .error e := by
  rcases hx : x tally with ⟨e' | a, tally'⟩
  · rw [hx] at h
    rw [bind_apply_of_error hx]
    exact congrArg Except.error (Except.error.inj h)
  · rw [hx] at h
    cases h

/-- Whatever the account, a part of a match ends in a result with `Q` or in a failure with `E`. -/
def Ends (x : MatchM α) (Q : α → Prop) (E : MatchError → Prop) : Prop :=
  ∀ tally, match (x tally).1 with
    | .ok a => Q a
    | .error e => E e

theorem Ends.pure {a : α} (h : Q a) : Ends (Pure.pure a) Q E := fun _ ↦ h

theorem Ends.throw {e : MatchError} (h : E e) : Ends (MonadExcept.throw e : MatchM α) Q E :=
  fun _ ↦ h

theorem Ends.trivial (x : MatchM α) : Ends x (fun _ ↦ True) fun _ ↦ True := by
  intro tally
  split <;> exact True.intro

theorem Ends.mono (h : Ends x P E) (hq : ∀ a, P a → Q a) : Ends x Q E := by
  intro tally
  have ht := h tally
  rcases hx : (x tally).1 with e | a
  · rwa [hx] at ht
  · rw [hx] at ht
    exact hq a ht

theorem Ends.bind (h : Ends x P E) (hf : ∀ a, P a → Ends (f a) R E) : Ends (x >>= f) R E := by
  intro tally
  have ht := h tally
  rcases hx : x tally with ⟨e | a, tally'⟩
  · rw [hx] at ht
    rw [bind_apply_of_error hx]
    exact ht
  · rw [hx] at ht
    rw [bind_apply_of_ok hx]
    exact hf a ht tally'

theorem Ends.and (h : Ends x P E) (h' : Ends x Q E) : Ends x (fun a ↦ P a ∧ Q a) E := by
  intro tally
  have ht := h tally
  have ht' := h' tally
  rcases hx : (x tally).1 with e | a
  · rwa [hx] at ht
  · rw [hx] at ht ht'
    exact ⟨ht, ht'⟩

/-- A part that does not depend on the account always ends in the result in which it ends once. -/
theorem Ends.again (h : ∀ tally tally', (x tally).1 = (x tally').1) :
    Ends x (fun a ↦ ∀ tally, (x tally).1 = .ok a) fun _ ↦ True := by
  intro tally
  rcases hx : (x tally).1 with e | a
  · trivial
  · exact fun tally' ↦ (h tally' tally).trans hx

theorem Ends.of_forall_ok (h : ∀ tally a tally', x tally = (.ok a, tally') → Q a) :
    Ends x Q fun _ ↦ True := by
  intro tally
  rcases hx : x tally with ⟨e | a, tally'⟩
  · trivial
  · exact h tally a tally' hx

theorem Ends.of_ok {a : α} (h : Ends x Q E) (hx : x tally = (.ok a, tally')) : Q a := by
  have ht := h tally
  rwa [hx] at ht

theorem Ends.of_error {e : MatchError} (h : Ends x Q E) (hx : x tally = (.error e, tally')) :
    E e := by
  have ht := h tally
  rwa [hx] at ht

end TreePattern.MatchM

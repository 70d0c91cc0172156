import TreePattern.Pattern.OfJson
import TreePattern.Proofs.Pattern.Acceptance

namespace TreePattern

namespace Builder

def get? (b : Builder) : PatternId → Option PatternNode :=
  (b.build 0).get?

def Within (b later : Builder) : Prop :=
  ∀ id node, b.get? id = some node → later.get? id = some node

variable {b b' later : Builder}

theorem Within.refl (b : Builder) : b.Within b := fun _ _ h ↦ h

theorem Within.trans (h : b.Within b') (h' : b'.Within later) : b.Within later :=
  fun id node hg ↦ h' id node (h id node hg)

theorem get?_add (b : Builder) (node : PatternNode) :
    (b.add node).2.get? (b.add node).1 = some node := by
  simp [get?, RawPattern.get?, build, add]

theorem within_add (b : Builder) (node : PatternNode) : b.Within (b.add node).2 := by
  intro id other h
  have hlt : id < b.slots.size := RawPattern.get?_lt h
  simpa [get?, RawPattern.get?, build, add, Array.getElem?_push, hlt.ne] using h

end Builder

namespace Pattern.Loader

variable {α β : Type} {load : Load α} {next : α → Load β} {A A' B : Prop}
  {P Q : (PatternId → Option PatternNode) → α → Prop}
  {R : (PatternId → Option PatternNode) → β → Prop}

/-- Whatever the slots so far, loading succeeds and only adds slots, and its result is as wanted in
all builders that come later. -/
def Yields (load : Load α) (Q : (PatternId → Option PatternNode) → α → Prop) : Prop :=
  ∀ b, ∃ a b', load b = .ok (a, b') ∧ b.Within b' ∧ ∀ later, b'.Within later → Q later.get? a

theorem Yields.pure {a : α} (h : ∀ get?, Q get? a) : Yields (Pure.pure a) Q :=
  fun b ↦ ⟨a, b, rfl, .refl b, fun later _ ↦ h later.get?⟩

theorem Yields.bind (h : Yields load P)
    (hn : ∀ a, Yields (next a) fun get? c ↦ P get? a → R get? c) : Yields (load >>= next) R := by
  intro b
  obtain ⟨a, b₁, hload, hw₁, hp⟩ := h b
  obtain ⟨c, b₂, hnext, hw₂, hr⟩ := hn a b₁
  refine ⟨c, b₂, ?_, hw₁.trans hw₂, fun later hl ↦ hr later hl (hp later (hw₂.trans hl))⟩
  change (load b >>= fun pair ↦ next pair.1 pair.2) = _
  rw [hload]
  exact hnext

theorem Yields.mono (h : Yields load P) (hq : ∀ get? a, P get? a → Q get? a) : Yields load Q := by
  intro b
  obtain ⟨a, b', hload, hw, hp⟩ := h b
  exact ⟨a, b', hload, hw, fun later hl ↦ hq later.get? a (hp later hl)⟩

theorem add_yields (node : PatternNode) : Yields (add node) fun get? id ↦ get? id = some node :=
  fun b ↦ ⟨(b.add node).1, (b.add node).2, rfl, b.within_add node,
    fun _ hl ↦ hl _ node (b.get?_add node)⟩

/-- Loading succeeds just if something holds, whatever the slots so far. It yields what is
wanted. -/
structure Accepts (load : Load α) (A : Prop) (Q : (PatternId → Option PatternNode) → α → Prop) :
    Prop where
  yields : A → Yields load Q
  fails : ¬ A → ∀ b, ∃ error, load b = .error error

namespace Accepts

theorem iff (h : Accepts load A Q) (hA : A ↔ A') : Accepts load A' Q :=
  ⟨fun ha ↦ h.yields (hA.mpr ha), fun ha ↦ h.fails fun ha' ↦ ha (hA.mp ha')⟩

theorem of_yields (h : Yields load Q) : Accepts load True Q :=
  ⟨fun _ ↦ h, fun ha ↦ absurd trivial ha⟩

theorem pure {a : α} (h : ∀ get?, Q get? a) : Accepts (Pure.pure a) True Q :=
  of_yields (.pure h)

theorem fail {error : LoadError} : Accepts (Loader.fail error) False Q :=
  ⟨fun ha ↦ ha.elim, fun _ _ ↦ ⟨error, rfl⟩⟩

theorem lift {x : Except LoadError α} {Q : α → Prop} (h : ∀ a, x = .ok a ↔ Q a) :
    Accepts (StateT.lift x) (∃ a, Q a) fun _ ↦ Q := by
  cases x with
  | error error => exact ⟨fun ⟨a, ha⟩ ↦ (by cases (h a).mpr ha), fun _ b ↦ ⟨error, rfl⟩⟩
  | ok a =>
    have ha := (h a).mp rfl
    exact ⟨fun _ b ↦ ⟨a, b, rfl, .refl b, fun _ _ ↦ ha⟩, fun hnot ↦ absurd ⟨a, ha⟩ hnot⟩

theorem bind (h : Accepts load A P)
    (hn : A → ∀ a, Accepts (next a) B fun get? c ↦ P get? a → R get? c) :
    Accepts (load >>= next) (A ∧ B) R := by
  constructor
  · rintro ⟨ha, hb⟩
    exact (h.yields ha).bind fun a ↦ (hn ha a).yields hb
  · intro hnot b
    by_cases ha : A
    · obtain ⟨a, b', hload, -⟩ := h.yields ha b
      obtain ⟨error, hnext⟩ := (hn ha a).fails (fun hb ↦ hnot ⟨ha, hb⟩) b'
      refine ⟨error, ?_⟩
      change (load b >>= fun pair ↦ next pair.1 pair.2) = _
      rw [hload]
      exact hnext
    · obtain ⟨error, hload⟩ := h.fails ha b
      refine ⟨error, ?_⟩
      change (load b >>= fun pair ↦ next pair.1 pair.2) = _
      rw [hload]
      rfl

theorem map {f : α → β} (h : Accepts load A P) (hf : ∀ get? a, P get? a → R get? (f a)) :
    Accepts (load >>= fun a ↦ Pure.pure (f a)) A R := by
  have hpure (a : α) : Accepts (Pure.pure (f a) : Load β) True fun get? b ↦ P get? a → R get? b :=
    .pure fun get? ↦ hf get? a
  exact (h.bind fun _ ↦ hpure).iff (by simp)

end Accepts

end Pattern.Loader

end TreePattern

import TreePattern.Proofs.Match.Unfolding

namespace TreePattern

open MatchM

section Refines

variable {α β γ δ : Type} {E : MatchError → Prop} {T : Tally → Tally → Prop} {R : α → β → Prop}
  {S : γ → δ → Prop} {x : MatchM α} {y : MatchM β} {f : α → MatchM γ} {g : β → MatchM δ}

/-- Unless the first part of a match fails for a reason in `E`, both parts end alike and keep their
accounts related. -/
def Refines (E : MatchError → Prop) (T : Tally → Tally → Prop) (R : α → β → Prop) (x : MatchM α)
    (y : MatchM β) : Prop :=
  ∀ tally tally', T tally tally' →
    (∃ e, E e ∧ (x tally).1 = .error e) ∨
      SameEnd R (x tally).1 (y tally').1 ∧ T (x tally).2 (y tally').2

theorem Lockstep.refines (h : Lockstep T R x y) : Refines E T R x y :=
  fun tally tally' ht ↦ .inr (h tally tally' ht)

theorem Refines.of_error {e : MatchError} (he : E e) (hx : ∀ tally, (x tally).1 = .error e) :
    Refines E T R x y :=
  fun tally _ _ ↦ .inl ⟨e, he, hx tally⟩

theorem Refines.bind (h : Refines E T R x y) (hf : ∀ a b, R a b → Refines E T S (f a) (g b)) :
    Refines E T S (x >>= f) (y >>= g) := by
  intro tally tally' ht
  obtain ⟨e, he, hx⟩ | ⟨hend, htally⟩ := h tally tally' ht
  · exact .inl ⟨e, he, bind_fst_of_error hx⟩
  · rcases hx : x tally with ⟨result, tally₁⟩
    rcases hy : y tally' with ⟨result', tally₁'⟩
    rw [hx, hy] at hend htally
    cases hend with
    | ok hab =>
      rw [bind_apply_of_ok hx, bind_apply_of_ok hy]
      exact hf _ _ hab tally₁ tally₁' htally
    | error e =>
      rw [bind_apply_of_error hx, bind_apply_of_error hy]
      exact .inr ⟨.error e, htally⟩

def Comparison.refinement (E : MatchError → Prop) (T : Tally → Tally → Prop) : Comparison where
  rel := Refines E T
  pure h := (Lockstep.pure h).refines
  bind := Refines.bind
  throw e := (Lockstep.throw e).refines

theorem Lockstep.refl (x : MatchM α) : Lockstep Eq Eq x x := by
  rintro tally _ rfl
  refine ⟨?_, rfl⟩
  cases (x tally).1 with
  | ok a => exact .ok rfl
  | error e => exact .error e

/-- Parts that end alike and keep equal accounts have the same outcome. -/
theorem Refines.eq_of_not {y : MatchM α} (h : Refines E Eq Eq x y) (tally : Tally)
    (hx : ¬ ∃ e, E e ∧ (x tally).1 = .error e) : y tally = x tally := by
  obtain ⟨hend, htally⟩ := (h tally tally rfl).resolve_left hx
  exact (Prod.ext hend.eq htally).symm

end Refines

section Readings

variable {E : MatchError → Prop} {α : Type}

/-- A reading takes the place of another one, which it equals unless that one fails for a reason
that excuses it. -/
def Supersedes (E : MatchError → Prop) (before after : Except AccessError α) : Prop :=
  (∃ e, E (.access e) ∧ before = .error e) ∨ after = before

theorem Supersedes.access {R : α → α → Prop} {T : Tally → Tally → Prop}
    {before after : Except AccessError α} (h : Supersedes E before after)
    (hR : ∀ a, before = .ok a → R a a) :
    Refines E T R (Setting.access before) (Setting.access after) := by
  obtain ⟨e, he, rfl⟩ | rfl := h
  · exact .of_error he fun _ ↦ rfl
  · exact Comparison.access_same (c := .refinement E T) hR

variable {s t : Setting} {scope : Node → Prop}

/-- A match takes the place of another one of the same pattern on the same tree, if each reading of
a node in a region does that both matches stay in. -/
theorem Setting.findAt_refines (hp : s.pattern = t.pattern) (hl : s.limit = t.limit)
    (htraced : s.traced = t.traced) (hclosed : ∀ n, scope n → ∀ c ∈ n.children, scope c)
    (hlookup : ∀ n name, scope n → Supersedes E (s.view.lookup n name) (t.view.lookup n name))
    (hchildren : ∀ n, scope n → Supersedes E (s.view.children n) (t.view.children n))
    (depth : ℕ) (id : PatternId) {roots : List Node} (hr : ∀ n ∈ roots, scope n) :
    Refines E Eq Eq (s.findAt depth id roots) (t.findAt depth id roots) := by
  let c := Comparison.refinement E Eq
  let N (n m : Node) := n = m ∧ scope n
  have hcharge : s.charge = t.charge := by
    unfold Setting.charge
    rw [hl]
  have hnote (e : TraceEvent) : s.note e = t.note e := by
    unfold Setting.note
    rw [htraced]
  have hreads : c.Reads s t Eq N fun _ ↦ True := {
    kind := by
      rintro n _ ⟨rfl, -⟩
      exact Comparison.access_same fun _ _ ↦ rfl
    lookup := by
      rintro n _ name ⟨rfl, hn⟩ -
      refine (hlookup n name hn).access fun found hfound ↦ ?_
      cases found with
      | none => exact .none
      | some v =>
        have hhas : n.Has name v := (View.has_iff hfound).mpr rfl
        have hscope : ∀ m ∈ v.nodeList, N m m :=
          fun m hm ↦ ⟨rfl, hclosed n hn m (hhas.mem_children hm)⟩
        exact .some (Value.rel_self hscope)
    children := by
      rintro n _ ⟨rfl, hn⟩
      refine (hchildren n hn).access fun children hc ↦ ⟨View.children_eq hc, ?_⟩
      have hscope : ∀ m ∈ children, N m m := by
        intro m hm
        rw [View.children_eq hc] at hm
        exact ⟨rfl, hclosed n hn m hm⟩
      exact List.forall₂_same.mpr hscope
    charge := by
      rw [hcharge]
      exact (Lockstep.refl _).refines
    note := by
      intro e e' he
      rw [TraceEvent.rel_eq_iff.mp he, hnote]
      exact (Lockstep.refl _).refines }
  have hfiled : Find.Filed Eq N (fun _ ↦ True) Eq :=
    Find.filed_eq.mono (fun _ _ h ↦ h) fun _ _ h ↦ h.1
  have hroots : List.Forall₂ N roots roots := List.forall₂_same.mpr fun n hn ↦ ⟨rfl, hr n hn⟩
  have hfinds := Comparison.findAt_rel hreads hfiled (Pattern.rel_of_eq hp fun _ _ ↦ trivial)
    (fun _ _ h _ ↦ h) depth id id roots roots rfl hroots
  rwa [List.forall₂_eq_eq_eq] at hfinds

end Readings

section Views

variable {n : Node}

def MatchError.IsAccess (e : MatchError) : Prop :=
  ∃ error, e = .access error

theorem View.scan_lookup_superseded (n : Node) (name : String) :
    Supersedes MatchError.IsAccess (View.scan.lookup n name) (View.keyed.lookup n name) := by
  cases h : n.readFields with
  | error e =>
    refine .inl ⟨e, ⟨e, rfl⟩, ?_⟩
    rw [View.lookup, h]
    rfl
  | ok fields => exact .inr ((Node.readable_of_readFields h).lookup_eq _ _ name)

theorem View.keyed_children_superseded (n : Node) :
    Supersedes MatchError.IsAccess (View.keyed.children n) (View.lenient.children n) := by
  cases h : n.readFields with
  | error e =>
    refine .inl ⟨e, ⟨e, rfl⟩, ?_⟩
    rw [View.children, h]
    rfl
  | ok fields =>
    have hr : n.Readable := Node.readable_of_readFields h
    exact .inr (by rw [hr.children_eq, hr.children_eq])

end Views

/-- Where each reading of a node does, a whole match takes the place of another one. -/
theorem Engine.run_eq_of_supersedes {engine : Engine} {traced : Bool} {id : ℕ} {root : Node}
    {p : Pattern} {view view' : View} {E : MatchError → Prop} (scope : Node → Prop)
    (hroot : scope root) (hclosed : ∀ n, scope n → ∀ c ∈ n.children, scope c)
    (hlookup : ∀ n name, scope n → Supersedes E (view.lookup n name) (view'.lookup n name))
    (hchildren : ∀ n, scope n → Supersedes E (view.children n) (view'.children n))
    (h : ¬ ∃ e, E e ∧ (engine.run traced ⟨id, view, root⟩ p).1 = .error e) :
    engine.run traced ⟨id, view', root⟩ p = engine.run traced ⟨id, view, root⟩ p := by
  let s := engine.setting traced view p
  let t := engine.setting traced view' p
  have hroots : ∀ n ∈ [root], scope n := by simpa using hroot
  have hrefines : Refines E Eq Eq (s.findAt p.size Pattern.root [root])
      (t.findAt p.size Pattern.root [root]) :=
    Setting.findAt_refines (s := s) (t := t) rfl rfl rfl hclosed hlookup hchildren p.size
      Pattern.root hroots
  exact hrefines.eq_of_not .zero h

/-- A match that looks attributes up by name takes the place of one that scans for them, and a
match that looks for children only in fields that can be read takes the place of one that needs all
fields: unless the other match fails to read a part of the tree, the outcome and the account are
the same. On a tree without a field that cannot be read, the outcome and the account are the same
in all views. -/
theorem Engine.run_views_supersede (engine : Engine) (traced : Bool) (id : ℕ) (root : Node)
    (p : Pattern) :
    let run (view : View) := engine.run traced ⟨id, view, root⟩ p
    ((¬ ∃ e, (run .scan).1 = .error (.access e)) → run .keyed = run .scan) ∧
    ((¬ ∃ e, (run .keyed).1 = .error (.access e)) → run .lenient = run .keyed) ∧
    ((∀ x, root.Contains x → ∀ field ∈ x.fields, ∀ e, field.2 ≠ .broken e) →
      ∀ view view', run view = run view') := by
  intro run
  have hexcused : ∀ view, (¬ ∃ e, (run view).1 = .error (.access e)) →
      ¬ ∃ e, MatchError.IsAccess e ∧ (run view).1 = .error e := by
    rintro view h ⟨_, ⟨error, rfl⟩, he⟩
    exact h ⟨error, he⟩
  refine ⟨fun h ↦ ?_, fun h ↦ ?_, fun h view view' ↦ ?_⟩
  · exact run_eq_of_supersedes (fun _ ↦ True) trivial (fun _ _ _ _ ↦ trivial)
      (fun n name _ ↦ View.scan_lookup_superseded n name) (fun n _ ↦ .inr rfl)
      (hexcused .scan h)
  · exact run_eq_of_supersedes (fun _ ↦ True) trivial (fun _ _ _ _ ↦ trivial)
      (fun n name _ ↦ .inr rfl) (fun n _ ↦ View.keyed_children_superseded n)
      (hexcused .keyed h)
  · have hreadable : ∀ x, root.Contains x → x.Readable := by
      intro x hx field hm
      exact Field.exists_read_iff.mpr (h x hx field hm)
    have hchildren : ∀ n, root.Contains n →
        Supersedes (fun _ ↦ False) (view'.children n) (view.children n) := by
      intro n hn
      rw [(hreadable n hn).children_eq, (hreadable n hn).children_eq]
      exact .inr rfl
    exact run_eq_of_supersedes root.Contains (.refl root) (fun n hn c hc ↦ hn.tail hc)
      (fun n name hn ↦ .inr ((hreadable n hn).lookup_eq view view' name)) hchildren
      fun ⟨_, he, _⟩ ↦ he

namespace Sample

def brokenCall : Node :=
  node "CallExpr" [("Fun", .node (ident "print")), ("Doc", .broken ⟨"lost", none⟩)]

def callRules : Pattern :=
  ⟨#[⟨some "call", .literal ⟨some "CallExpr", [("Fun", .pattern 1)]⟩⟩,
    ⟨some "fun", .literal ⟨some "Ident", []⟩⟩]⟩

end Sample

/-- The broken call is found by name but not by scanning, and an identifier in it only if the
children are looked for in the other fields. -/
theorem Engine.run_views_supersede_broken :
    let run (view : View) (root : Node) (p : Pattern) :=
      (⟨some 3⟩ : Engine).run false ⟨0, view, root⟩ p
    let count (view : View) (root : Node) (p : Pattern) : Option ℕ :=
      (run view root p).1.toOption.map List.length
    run .keyed (Sample.ident "print") Sample.identRules =
        run .scan (Sample.ident "print") Sample.identRules ∧
      count .scan (Sample.ident "print") Sample.identRules = some 1 ∧
      count .scan Sample.brokenCall Sample.callRules = none ∧
      run .lenient Sample.brokenCall Sample.callRules =
        run .keyed Sample.brokenCall Sample.callRules ∧
      count .keyed Sample.brokenCall Sample.callRules = some 1 ∧
      count .keyed Sample.brokenCall Sample.identRules = none ∧
      count .lenient Sample.brokenCall Sample.identRules = some 1 ∧
      run .scan (Sample.ident "print") Sample.callRules =
        run .lenient (Sample.ident "print") Sample.callRules := by
  intro run count
  have hsucceeds : ∀ view root p, count view root p = some 1 →
      ¬ ∃ e, (run view root p).1 = .error (.access e) := by
    rintro view root p h ⟨e, he⟩
    simp [count, he, Except.toOption] at h
  have hscan : count .scan (Sample.ident "print") Sample.identRules = some 1 := by decide +kernel
  have hkeyed : count .keyed Sample.brokenCall Sample.callRules = some 1 := by decide +kernel
  have hwhole : ∀ x, (Sample.ident "print").Contains x →
      ∀ field ∈ x.fields, ∀ e, field.2 ≠ .broken e := by
    intro x hx
    obtain rfl : x = Sample.ident "print" := by
      simpa [Node.preorder_eq, Node.children, Sample.ident, Sample.node, Sample.text,
        Field.nodeList] using Node.mem_preorder.mpr hx
    simp [Sample.ident, Sample.node, Sample.text]
  have hident := run_views_supersede ⟨some 3⟩ false 0 (Sample.ident "print") Sample.identRules
  have hcall := run_views_supersede ⟨some 3⟩ false 0 Sample.brokenCall Sample.callRules
  have hother := run_views_supersede ⟨some 3⟩ false 0 (Sample.ident "print") Sample.callRules
  refine ⟨hident.1 (hsucceeds _ _ _ hscan), hscan, by decide +kernel,
    hcall.2.1 (hsucceeds _ _ _ hkeyed), hkeyed, by decide +kernel, by decide +kernel, ?_⟩
  exact hother.2.2 hwhole .scan .lenient

end TreePattern

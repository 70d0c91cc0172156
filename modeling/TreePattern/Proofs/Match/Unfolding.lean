import TreePattern.Proofs.Match.Comparison
import TreePattern.Proofs.Match.Recursion

namespace TreePattern

namespace Find

mutual

/-- The find without the numbers of rules. -/
def erase : Find → Find
  | ⟨node, _, origin, name, captures⟩ =>
    ⟨node, 0, origin.map fun _ ↦ 0, name, eraseCaptures captures⟩

def eraseCaptures : Groups Find → Groups Find
  | ⟨groups⟩ => ⟨eraseGroups groups⟩

def eraseGroups : List (String × List Find) → List (String × List Find)
  | [] => []
  | (name, finds) :: rest => (name, eraseList finds) :: eraseGroups rest

def eraseList : List Find → List Find
  | [] => []
  | f :: rest => erase f :: eraseList rest

end

theorem eraseList_eq_map (finds : List Find) : eraseList finds = finds.map erase := by
  induction finds with
  | nil => rfl
  | cons f rest ih => rw [eraseList, ih, List.map_cons]

theorem map_erase_eq_iff {finds finds' : List Find} :
    finds.map erase = finds'.map erase ↔
      List.Forall₂ (fun f g ↦ f.erase = g.erase) finds finds' := by
  rw [← List.forall₂_eq_eq_eq, List.forall₂_map_left_iff, List.forall₂_map_right_iff]

theorem eraseCaptures_eq_iff {captures captures' : Captures} :
    eraseCaptures captures = eraseCaptures captures' ↔
      Groups.Rel (fun f g ↦ f.erase = g.erase) captures captures' := by
  obtain ⟨groups⟩ := captures
  obtain ⟨groups'⟩ := captures'
  rw [eraseCaptures, eraseCaptures, Groups.mk.injEq, Groups.Rel]
  dsimp only
  induction groups generalizing groups' with
  | nil => cases groups' <;> simp [eraseGroups]
  | cons group rest ih =>
    cases groups' with
    | nil => simp [eraseGroups]
    | cons group' rest' =>
      simp only [eraseGroups, List.cons.injEq, Prod.mk.injEq, List.forall₂_cons, ih,
        eraseList_eq_map, map_erase_eq_iff]

theorem erase_inherit (name : Option String) (f : Find) :
    (f.inherit name).erase = f.erase.inherit name := by
  obtain ⟨node, id, origin, own, captures⟩ := f
  rfl

theorem filed_erase {I : PatternId → PatternId → Prop} {A : String → Prop} :
    Find.Filed I Eq A fun f g ↦ f.erase = g.erase where
  name {f g} h := by
    obtain ⟨⟩ := f
    obtain ⟨⟩ := g
    simpa only [erase] using congrArg Find.name h
  captures {f g} h := by
    obtain ⟨⟩ := f
    obtain ⟨⟩ := g
    simp only [erase, Find.mk.injEq] at h
    exact eraseCaptures_eq_iff.mp h.2.2.2.2
  inherit name h := by rw [erase_inherit, erase_inherit, h]
  made := by
    rintro n _ i j origin origin' captures captures' rfl hi ho hc
    simp only [erase, ho.1, ho.map_eq fun _ _ _ ↦ rfl, eraseCaptures_eq_iff.mpr hc]

end Find

def Tally.Rel (I : PatternId → PatternId → Prop) (a b : Tally) : Prop :=
  a.visited = b.visited ∧ List.Forall₂ (TraceEvent.Rel I) a.trace b.trace

def Tally.SameVisits (a b : Tally) : Prop :=
  a.visited = b.visited

section Lockstep

variable {α β γ δ : Type}

inductive SameEnd (R : α → β → Prop) : Except MatchError α → Except MatchError β → Prop
  | ok {a : α} {b : β} : R a b → SameEnd R (.ok a) (.ok b)
  | error (e : MatchError) : SameEnd R (.error e) (.error e)

theorem SameEnd.map_eq {R : α → β → Prop} {u : α → γ} {v : β → γ} {x : Except MatchError α}
    {y : Except MatchError β} (hend : SameEnd R x y) (h : ∀ a b, R a b → u a = v b) :
    x.map u = y.map v := by
  cases hend with
  | ok hab => exact congrArg Except.ok (h _ _ hab)
  | error e => rfl

theorem SameEnd.eq {x y : Except MatchError α} (hend : SameEnd Eq x y) : x = y := by
  cases hend with
  | ok hab => exact congrArg Except.ok hab
  | error e => rfl

/-- Two parts of matches keep their accounts related and end alike. -/
def Lockstep (T : Tally → Tally → Prop) (R : α → β → Prop) (x : MatchM α) (y : MatchM β) : Prop :=
  ∀ tally tally', T tally tally' →
    SameEnd R (x tally).1 (y tally').1 ∧ T (x tally).2 (y tally').2

variable {T : Tally → Tally → Prop} {R : α → β → Prop} {S : γ → δ → Prop} {x : MatchM α}
  {y : MatchM β} {f : α → MatchM γ} {g : β → MatchM δ}

theorem Lockstep.pure {a : α} {b : β} (h : R a b) :
    Lockstep T R (Pure.pure a) (Pure.pure b) :=
  fun _ _ ht ↦ ⟨.ok h, ht⟩

theorem Lockstep.throw (e : MatchError) :
    Lockstep T R (MonadExcept.throw e : MatchM α) (MonadExcept.throw e : MatchM β) :=
  fun _ _ ht ↦ ⟨.error e, ht⟩

theorem Lockstep.bind (h : Lockstep T R x y) (hf : ∀ a b, R a b → Lockstep T S (f a) (g b)) :
    Lockstep T S (x >>= f) (y >>= g) := by
  intro tally tally' ht
  obtain ⟨hend, htally⟩ := h tally tally' ht
  rcases hx : x tally with ⟨result, tally₁⟩
  rcases hy : y tally' with ⟨result', tally₁'⟩
  rw [hx, hy] at hend htally
  cases hend with
  | ok hab =>
    rw [MatchM.bind_apply_of_ok hx, MatchM.bind_apply_of_ok hy]
    exact hf _ _ hab tally₁ tally₁' htally
  | error e =>
    rw [MatchM.bind_apply_of_error hx, MatchM.bind_apply_of_error hy]
    exact ⟨.error e, htally⟩

def Comparison.lockstep (T : Tally → Tally → Prop) : Comparison where
  rel := Lockstep T
  pure := Lockstep.pure
  bind := Lockstep.bind
  throw := Lockstep.throw

variable {s t : Setting} {I : PatternId → PatternId → Prop}

theorem Lockstep.charge (h : s.limit = t.limit) : Lockstep (Tally.Rel I) Eq s.charge t.charge := by
  intro tally tally' ht
  have hcharged : Tally.Rel I { tally with visited := tally.visited + 1 }
      { tally' with visited := tally'.visited + 1 } := ⟨congrArg (· + 1) ht.1, ht.2⟩
  unfold Setting.charge
  rw [← h, ← ht.1]
  cases s.limit with
  | none => exact ⟨.ok rfl, ht.1 ▸ hcharged⟩
  | some limit =>
    dsimp only
    split
    · exact ⟨.error _, ht.1 ▸ hcharged⟩
    · exact ⟨.ok rfl, ht.1 ▸ hcharged⟩

theorem Lockstep.note (h : s.traced = t.traced) {e e' : TraceEvent} (he : TraceEvent.Rel I e e') :
    Lockstep (Tally.Rel I) Eq (s.note e) (t.note e') := by
  intro tally tally' ht
  unfold Setting.note
  rw [← h]
  cases s.traced with
  | false => exact ⟨.ok rfl, ht⟩
  | true => exact ⟨.ok rfl, ht.1, .cons he ht.2⟩

/-- Parts that leave nothing but the account behind need not keep it. -/
theorem Lockstep.of_unit {x y : MatchM Unit} (hx : ∀ tally, (x tally).1 = .ok ())
    (hy : ∀ tally, (y tally).1 = .ok ()) : Lockstep (fun _ _ ↦ True) Eq x y := by
  intro tally tally' _
  rw [hx, hy]
  exact ⟨.ok rfl, trivial⟩

theorem Setting.charge_fst (h : s.limit = none) (tally : Tally) : (s.charge tally).1 = .ok () := by
  rw [charge, h]

theorem Setting.note_fst (e : TraceEvent) (tally : Tally) : (s.note e tally).1 = .ok () := rfl

end Lockstep

namespace Setting

variable {s t : Setting} {I : PatternId → PatternId → Prop}

theorem findAt_lockstep (hv : s.view = t.view) (hl : s.limit = t.limit)
    (ht : s.traced = t.traced)
    (hI : ∀ i j, I i j → SameSlots s.pattern.get? t.pattern.get? I i j) (depth : ℕ) :
    (Comparison.lockstep (Tally.Rel I)).Finds I Eq (fun f g ↦ f.erase = g.erase)
      (s.findAt depth) (t.findAt depth) := by
  have hreads : (Comparison.lockstep (Tally.Rel I)).Reads s t I Eq fun _ ↦ True :=
    Comparison.reads_same hv (Lockstep.charge hl) fun e e' he ↦ Lockstep.note ht he
  refine Comparison.findAt_rel hreads Find.filed_erase (fun i j hij ↦ ?_)
    (fun i j hij hm ↦ ?_) depth
  · obtain ⟨o, o', ho, ho', hr⟩ := hI i j hij
    rw [ho, ho']
    exact .some hr
  · obtain ⟨o, o', ho, -⟩ := hI i j hij
    rw [hm] at ho
    cases ho

theorem charge_sameVisits (h : s.limit = t.limit) :
    Lockstep Tally.SameVisits Eq s.charge t.charge := by
  intro ⟨visited, trace⟩ ⟨visited', trace'⟩ ht
  have hvisited : visited = visited' := ht
  subst hvisited
  unfold charge
  rw [← h]
  cases s.limit with
  | none => exact ⟨.ok rfl, rfl⟩
  | some limit =>
    dsimp only
    split
    · exact ⟨.error _, rfl⟩
    · exact ⟨.ok rfl, rfl⟩

theorem note_visited (s : Setting) (e : TraceEvent) (tally : Tally) :
    (s.note e tally).2.visited = tally.visited := by
  unfold note
  cases s.traced <;> rfl

theorem note_sameVisits (s t : Setting) (e e' : TraceEvent) :
    Lockstep Tally.SameVisits Eq (s.note e) (t.note e') := by
  intro tally tally' ht
  refine ⟨.ok rfl, ?_⟩
  rw [Tally.SameVisits, note_visited, note_visited]
  exact ht

/-- A match ends in the same way whether its steps are recorded or not. -/
theorem findAll_traced (s t : Setting) (hp : s.pattern = t.pattern) (hv : s.view = t.view)
    (hl : s.limit = t.limit) (root : Node) : (s.findAll root).1 = (t.findAll root).1 := by
  have h : Lockstep Tally.SameVisits Eq (s.findAt s.pattern.size Pattern.root [root])
      (t.findAt s.pattern.size Pattern.root [root]) :=
    Comparison.findAt_same (c := .lockstep Tally.SameVisits) hp hv (charge_sameVisits hl)
      (fun e ↦ note_sameVisits s t e e) _ _ _
  rw [findAll, findAll, ← hp]
  exact (h .zero .zero rfl).1.eq

end Setting

/-- Compiled patterns with bisimilar roots match alike: on every tree and under every limit, either
both matches fail for the same reason or both find the same things in the same order, up to the
numbers of rules, and they make the same number of visits. -/
theorem RawPattern.compiled_match_bisimilar {raw raw' : RawPattern} {p q : Pattern}
    (compiled : raw.compile = .ok p) (compiled' : raw'.compile = .ok q)
    (h : Bisimilar p.get? q.get? Pattern.root Pattern.root) :
    (∀ i j, Bisimilar p.get? q.get? i j ↔
      SameSlots p.get? q.get? (Bisimilar p.get? q.get?) i j) ∧
    ∀ (engine : Engine) (traced : Bool) (tree : SyntaxTree),
      (engine.run traced tree p).1.map (List.map Find.erase) =
        (engine.run traced tree q).1.map (List.map Find.erase) ∧
      (engine.run traced tree p).2.visited = (engine.run traced tree q).2.visited := by
  refine ⟨fun i j ↦ bisimilar_iff, fun engine traced tree ↦ ?_⟩
  have hp := compile_sound compiled
  have hq := compile_sound compiled'
  let s := engine.setting traced tree.view p
  let t := engine.setting traced tree.view q
  -- Both matches may go on to one depth, which is enough for both patterns.
  have hdepth : s.findAt p.size Pattern.root = s.findAt (max p.size q.size) Pattern.root :=
    Setting.findAt_eq_of_size_le hp hp.nonempty le_rfl (le_max_left _ _)
  have hdepth' : t.findAt q.size Pattern.root = t.findAt (max p.size q.size) Pattern.root :=
    Setting.findAt_eq_of_size_le hq hq.nonempty le_rfl (le_max_right _ _)
  have hfinds := Setting.findAt_lockstep (s := s) (t := t) rfl rfl rfl
    (fun i j hij ↦ Bisimilar.sameSlots hij) (max p.size q.size) Pattern.root Pattern.root
    [tree.root] [tree.root] h (.cons rfl .nil)
  rw [← hdepth, ← hdepth'] at hfinds
  obtain ⟨hend, htally⟩ := hfinds .zero .zero ⟨rfl, .nil⟩
  exact ⟨hend.map_eq fun _ _ hr ↦ Find.map_erase_eq_iff.mpr hr, htally.1⟩

namespace Sample

def sharedPattern : RawPattern :=
  let (ident, b) := Builder.empty.add ⟨some "ident", .literal ⟨some "Ident", []⟩⟩
  let (root, b) := b.add ⟨none, .search ⟨[ident, ident], false, .allOf⟩⟩
  b.build root

def copiedPattern : RawPattern :=
  let (first, b) := Builder.empty.add ⟨some "ident", .literal ⟨some "Ident", []⟩⟩
  let (second, b) := b.add ⟨some "ident", .literal ⟨some "Ident", []⟩⟩
  let (root, b) := b.add ⟨none, .search ⟨[first, second], false, .allOf⟩⟩
  b.build root

def sharedRules : Pattern :=
  ⟨#[⟨none, .search ⟨[1, 1], false, .allOf⟩⟩, ⟨some "ident", .literal ⟨some "Ident", []⟩⟩]⟩

def copiedRules : Pattern :=
  ⟨#[⟨none, .search ⟨[1, 2], false, .allOf⟩⟩, ⟨some "ident", .literal ⟨some "Ident", []⟩⟩,
    ⟨some "ident", .literal ⟨some "Ident", []⟩⟩]⟩

theorem compile_sharedPattern : sharedPattern.compile = .ok sharedRules := by
  have ho : sharedPattern.discoveryOrder = .ok [1, 0] := by
    change RawPattern.discover _ [1] [⟨1, [0, 0]⟩] = _
    rw [RawPattern.discover_new (by decide) (by decide) rfl]
    change RawPattern.discover _ [0, 1] [⟨0, []⟩, ⟨1, [0]⟩] = _
    rw [RawPattern.discover, RawPattern.discover_old (by decide) (by decide),
      RawPattern.discover, RawPattern.discover]
    rfl
  rw [RawPattern.compile, ho]
  rfl

theorem compile_copiedPattern : copiedPattern.compile = .ok copiedRules := by
  have ho : copiedPattern.discoveryOrder = .ok [2, 0, 1] := by
    change RawPattern.discover _ [2] [⟨2, [0, 1]⟩] = _
    rw [RawPattern.discover_new (by decide) (by decide) rfl]
    change RawPattern.discover _ [0, 2] [⟨0, []⟩, ⟨2, [1]⟩] = _
    rw [RawPattern.discover, RawPattern.discover_new (by decide) (by decide) rfl]
    change RawPattern.discover _ [1, 0, 2] [⟨1, []⟩, ⟨2, []⟩] = _
    rw [RawPattern.discover, RawPattern.discover, RawPattern.discover]
    rfl
  rw [RawPattern.compile, ho]
  rfl

theorem bisimilar_shared_copied :
    Bisimilar sharedRules.get? copiedRules.get? Pattern.root Pattern.root := by
  refine ⟨fun i j ↦ (i, j) ∈ [(0, 0), (1, 1), (1, 2)], by decide, fun i j h ↦ ?_⟩
  simp only [List.mem_cons, Prod.mk.injEq, List.not_mem_nil, or_false] at h
  obtain ⟨rfl, rfl⟩ | ⟨rfl, rfl⟩ | ⟨rfl, rfl⟩ := h
  · exact ⟨_, _, rfl, rfl, rfl, .cons (by decide) (.cons (by decide) .nil), rfl, rfl⟩
  · exact ⟨_, _, rfl, rfl, rfl, rfl, .nil⟩
  · exact ⟨_, _, rfl, rfl, rfl, rfl, .nil⟩

end Sample

theorem RawPattern.compiled_match_bisimilar_shared :
    let engine : Engine := ⟨some 3⟩
    let tree := Sample.callTree "print"
    Bisimilar Sample.sharedRules.get? Sample.copiedRules.get? Pattern.root Pattern.root ∧
      (engine.run false tree Sample.sharedRules).1.map (List.map Find.erase) =
        (engine.run false tree Sample.copiedRules).1.map (List.map Find.erase) ∧
      (engine.run false tree Sample.sharedRules).2.visited = 3 ∧
      (engine.run false tree Sample.copiedRules).2.visited = 3 := by
  intro engine tree
  obtain ⟨hfinds, hvisited⟩ := (compiled_match_bisimilar Sample.compile_sharedPattern
    Sample.compile_copiedPattern Sample.bisimilar_shared_copied).2 engine false tree
  have hthree : (engine.run false tree Sample.sharedRules).2.visited = 3 := by decide +kernel
  exact ⟨Sample.bisimilar_shared_copied, hfinds, hthree, hvisited ▸ hthree⟩

end TreePattern

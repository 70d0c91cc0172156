import Mathlib.Data.Fin.Tuple.Basic
import TreePattern.Match.Engine
import TreePattern.Proofs.Match.Walk
import TreePattern.Proofs.Pattern.Satisfaction

namespace TreePattern

section Count

variable {α β : Type} {P : α → Prop} {q : β → Bool} {as : List α} {bs : List β}

theorem existsUnique_fin_succ {k : ℕ} {P : Fin (k + 1) → Prop} :
    (∃! i, P i) ↔ (P 0 ∧ ∀ i : Fin k, ¬ P i.succ) ∨ (¬ P 0 ∧ ∃! i : Fin k, P i.succ) := by
  constructor
  · rintro ⟨i, hi, hu⟩
    cases i using Fin.cases with
    | zero => exact .inl ⟨hi, fun j hj ↦ Fin.succ_ne_zero j (hu _ hj)⟩
    | succ i =>
      refine .inr ⟨fun h0 ↦ Fin.succ_ne_zero i (hu _ h0).symm, i, hi, fun j hj ↦ ?_⟩
      exact Fin.succ_injective _ (hu _ hj)
  · rintro (⟨h0, hs⟩ | ⟨h0, i, hi, hu⟩)
    · refine ⟨0, h0, fun j hj ↦ ?_⟩
      cases j using Fin.cases with
      | zero => rfl
      | succ j => exact (hs j hj).elim
    · refine ⟨i.succ, hi, fun j hj ↦ ?_⟩
      cases j using Fin.cases with
      | zero => exact (h0 hj).elim
      | succ j => exact congrArg Fin.succ (hu j hj)

theorem countP_eq_zero_iff (h : List.Forall₂ (fun a b ↦ q b = true ↔ P a) as bs) :
    bs.countP q = 0 ↔ ∀ i : Fin as.length, ¬ P as[i] := by
  induction h with
  | nil => simp
  | @cons a b as bs hab _ ih =>
    have hsplit : (∀ i : Fin (a :: as).length, ¬ P (a :: as)[i]) ↔
        ¬ P a ∧ ∀ i : Fin as.length, ¬ P as[i] := Fin.forall_fin_succ
    rw [hsplit, ← ih, ← hab, List.countP_cons]
    cases q b <;> simp

theorem countP_eq_length_iff (h : List.Forall₂ (fun a b ↦ q b = true ↔ P a) as bs) :
    bs.countP q = as.length ↔ ∀ i : Fin as.length, P as[i] := by
  induction h with
  | nil => simp
  | @cons a b as bs hab hrest ih =>
    have hsplit : (∀ i : Fin (a :: as).length, P (a :: as)[i]) ↔
        P a ∧ ∀ i : Fin as.length, P as[i] := Fin.forall_fin_succ
    have hle : bs.countP q ≤ as.length := hrest.length_eq ▸ List.countP_le_length
    rw [hsplit, ← ih, ← hab, List.countP_cons, List.length_cons]
    cases q b with
    | true => simp
    | false => simp; omega

theorem countP_eq_one_iff (h : List.Forall₂ (fun a b ↦ q b = true ↔ P a) as bs) :
    bs.countP q = 1 ↔ ∃! i : Fin as.length, P as[i] := by
  induction h with
  | nil => simp
  | @cons a b as bs hab hrest ih =>
    have hsplit : (∃! i : Fin (a :: as).length, P (a :: as)[i]) ↔
        (P a ∧ ∀ i : Fin as.length, ¬ P as[i]) ∨ (¬ P a ∧ ∃! i : Fin as.length, P as[i]) :=
      existsUnique_fin_succ
    rw [hsplit, ← ih, ← countP_eq_zero_iff hrest, ← hab, List.countP_cons]
    cases q b <;> simp

end Count

open MatchM

/-- The failures in `E` are all that charging visits and reading the nodes of a region, which has
with each node its children, can bring, as far as the pattern constrains the attributes. -/
structure Setting.Tolerates (s : Setting) (scope : Node → Prop) (E : MatchError → Prop) : Prop where
  limit : ∀ limit, s.limit = some limit → E (.limitExceeded limit)
  kind : ∀ n, scope n → ∀ e, n.kind = .error e → E (.access e)
  lookup : ∀ n, scope n → ∀ name ∈ s.pattern.constrained, ∀ e,
    s.view.lookup n name = .error e → E (.access e)
  children : ∀ n, scope n → ∀ e, s.view.children n = .error e → E (.access e)
  closed : ∀ n, scope n → ∀ c ∈ n.children, scope c

def Finder.Decides (find : Finder) (known : PatternId → Prop) (sat : PatternId → Node → Prop)
    (scope : Node → Prop) (E : MatchError → Prop) : Prop :=
  ∀ id, known id → ∀ ns, (∀ n ∈ ns, scope n) →
    Ends (find id ns) (fun finds ↦ finds ≠ [] ↔ ∃ n ∈ ns, sat id n) E

namespace Setting

variable {s : Setting} {find : Finder} {known : PatternId → Prop} {sat : PatternId → Node → Prop}
  {scope : Node → Prop} {E : MatchError → Prop} {id : PatternId} {n : Node}

theorem access_ends {α : Type} {result : Except AccessError α} {Q : α → Prop}
    (hok : ∀ a, result = .ok a → Q a) (herr : ∀ e, result = .error e → E (.access e)) :
    Ends (access result) Q E := by
  cases result with
  | ok a => exact .pure (hok a rfl)
  | error e => exact .throw (herr e rfl)

theorem note_ends (event : TraceEvent) : Ends (s.note event) (fun _ ↦ True) E :=
  fun _ ↦ trivial

theorem charge_ends (h : ∀ limit, s.limit = some limit → E (.limitExceeded limit)) :
    Ends s.charge (fun _ ↦ True) E := by
  intro tally
  unfold charge
  cases hl : s.limit with
  | none => trivial
  | some limit =>
    dsimp only
    by_cases hlt : limit < tally.visited + 1
    · rw [if_pos hlt]
      exact h limit hl
    · rw [if_neg hlt]
      trivial

theorem single_decides (hf : find.Decides known sat scope E) (hid : known id) (hn : scope n) :
    Ends (find id [n]) (fun finds ↦ finds ≠ [] ↔ sat id n) E := by
  refine (hf id hid [n] (by simpa using hn)).mono fun finds h ↦ ?_
  simpa using h

theorem positions_ends (hf : find.Decides known sat scope E) {pairs : List (PatternId × Node)}
    (hp : ∀ pair ∈ pairs, known pair.1 ∧ scope pair.2) (captures : Captures) :
    Ends (positions find pairs captures)
      (fun found ↦ found.isSome ↔ ∀ pair ∈ pairs, sat pair.1 pair.2) E := by
  induction pairs generalizing captures with
  | nil => exact .pure (by simp)
  | cons pair rest ih =>
    obtain ⟨hid, hn⟩ := hp pair (by simp)
    refine (single_decides hf hid hn).bind fun finds h ↦ ?_
    cases finds with
    | nil => exact .pure (by simpa using fun hs ↦ (h.mpr hs rfl).elim)
    | cons f fs =>
      refine (ih (fun other ho ↦ hp other (.tail _ ho)) _).mono fun found hfound ↦ ?_
      simpa [h.mp (by simp)] using hfound

theorem constrain_ends (hf : find.Decides known sat scope E) {constraint : Constraint} {v : Value}
    (hk : ∀ q ∈ constraint.references, known q) (hv : ∀ m ∈ v.nodeList, scope m)
    (captures : Captures) :
    Ends (constrain find v captures constraint)
      (fun found ↦ found.isSome ↔ constraint.Holds sat v) E := by
  cases constraint with
  | scalar expected =>
    cases v with
    | scalar actual =>
      refine .pure ?_
      simp [Constraint.Holds]
    | node child => exact .pure (by simp [Constraint.Holds])
    | nodes children => exact .pure (by simp [Constraint.Holds])
  | pattern q =>
    refine (hf q (hk q (by simp [Constraint.references])) _ hv).bind fun finds h ↦ ?_
    cases finds with
    | nil => exact .pure (by simpa [Constraint.Holds] using h)
    | cons f fs => exact .pure (by simpa [Constraint.Holds] using h)
  | sequence ids =>
    cases v with
    | scalar actual => exact .pure (by simp [Constraint.Holds])
    | node child => exact .pure (by simp [Constraint.Holds])
    | nodes children =>
      have hholds : (Constraint.sequence ids).Holds sat (.nodes children) ↔
          ids.length = children.length ∧ ∀ pair ∈ ids.zip children, sat pair.1 pair.2 := by
        simp [Constraint.Holds, List.forall₂_iff_zip]
      unfold constrain
      dsimp only
      split
      · next hl =>
        have hpairs : ∀ pair ∈ ids.zip children, known pair.1 ∧ scope pair.2 := fun pair hp ↦
          ⟨hk _ (List.of_mem_zip hp).1, hv _ (List.of_mem_zip hp).2⟩
        refine (positions_ends hf hpairs .empty).bind fun found h ↦ .pure ?_
        rw [hholds, Option.isSome_map, h]
        exact ⟨fun hs ↦ ⟨hl.symm, hs⟩, fun hs ↦ hs.2⟩
      · next hl =>
        refine .pure ?_
        rw [hholds]
        simpa using fun he ↦ (hl he.symm).elim

theorem meets_ends (hs : s.Tolerates scope E) (hf : find.Decides known sat scope E) (hn : scope n)
    {attributes : List (String × Constraint)}
    (hk : ∀ entry ∈ attributes, ∀ q ∈ entry.2.references, known q)
    (ha : ∀ entry ∈ attributes, entry.1 ∈ s.pattern.constrained) (captures : Captures) :
    Ends (s.meets find id n attributes captures)
      (fun found ↦ found.isSome ↔ ∀ entry ∈ attributes, ∃ v, n.Has entry.1 v ∧ entry.2.Holds sat v)
      E := by
  induction attributes generalizing captures with
  | nil => exact .pure (by simp)
  | cons entry rest ih =>
    obtain ⟨name, constraint⟩ := entry
    have hlookup : Ends (access (s.view.lookup n name))
        (fun o ↦ ∀ v, n.Has name v ↔ o = some v) E :=
      access_ends (fun o ho v ↦ View.has_iff ho) (hs.lookup n hn name (ha _ List.mem_cons_self))
    refine hlookup.bind fun o ho ↦ ?_
    cases o with
    | none =>
      refine (note_ends _).bind fun _ _ ↦ .pure ?_
      simp [ho]
    | some v =>
      have hhas : n.Has name v := (ho v).mpr rfl
      have hv : ∀ m ∈ v.nodeList, scope m := fun m hm ↦ hs.closed n hn m (hhas.mem_children hm)
      refine (constrain_ends hf (hk _ List.mem_cons_self) hv captures).bind fun found hc ↦ ?_
      cases found with
      | none =>
        have hfails : ¬ constraint.Holds sat v := fun h ↦ nomatch hc.mpr h
        refine (note_ends _).bind fun _ _ ↦ .pure ?_
        simp [ho, hfails]
      | some captures =>
        refine (ih (fun other ho ↦ hk other (.tail _ ho)) (fun other ho ↦ ha other (.tail _ ho))
          captures).mono fun found hfound ↦ ?_
        simpa [ho, hc.mp rfl] using hfound

theorem hasKind_ends (hs : s.Tolerates scope E) (hn : scope n) (rule : LiteralRule) :
    Ends (hasKind rule n)
      (fun b ↦ b = true ↔ ∀ kind, rule.kind = some kind → n.kind = .ok kind) E := by
  unfold hasKind
  cases rule.kind with
  | none => exact .pure (by simp)
  | some kind =>
    refine (access_ends (Q := fun actual ↦ n.kind = .ok actual) (fun _ h ↦ h)
      (hs.kind n hn)).bind fun actual h ↦ .pure ?_
    simp [h]

theorem literal_ends (hs : s.Tolerates scope E) (hf : find.Decides known sat scope E) (hn : scope n)
    {rule : LiteralRule} (hk : ∀ q ∈ (Rule.literal rule).references, known q)
    (ha : ∀ name ∈ (Rule.literal rule).constrained, name ∈ s.pattern.constrained)
    (origin : PatternNode) :
    Ends (s.literal find id origin rule n) (fun finds ↦ finds ≠ [] ↔ rule.Holds sat n) E := by
  refine (hasKind_ends hs hn rule).bind fun b hb ↦ ?_
  cases b with
  | false =>
    refine .pure ?_
    simpa using fun h : rule.Holds sat n ↦ Bool.false_ne_true (hb.mpr h.1)
  | true =>
    have hknown : ∀ entry ∈ rule.attributes, ∀ q ∈ entry.2.references, known q :=
      fun entry he q hq ↦ hk q (List.mem_flatMap.mpr ⟨entry, he, hq⟩)
    have hnames : ∀ entry ∈ rule.attributes, entry.1 ∈ s.pattern.constrained :=
      fun entry he ↦ ha entry.1 (List.mem_map.mpr ⟨entry, he, rfl⟩)
    refine (meets_ends hs hf hn hknown hnames .empty).bind fun found hfound ↦ ?_
    have hholds : rule.Holds sat n ↔ found.isSome := by
      rw [hfound]
      exact and_iff_right (hb.mp rfl)
    cases found with
    | none => exact .pure (by simp [hholds])
    | some captures => exact .pure (by simp [hholds])

theorem outcomes_forall₂ {ids : List PatternId} {Q : PatternId → List Find → Prop}
    (hf : ∀ q ∈ ids, Ends (find q [n]) (Q q) E) :
    Ends (outcomes find n ids) (List.Forall₂ Q ids) E := by
  induction ids with
  | nil => exact .pure .nil
  | cons q rest ih =>
    refine (hf q List.mem_cons_self).bind fun finds hfinds ↦ ?_
    refine (ih fun other ho ↦ hf other (.tail _ ho)).bind fun found hfound ↦ .pure ?_
    exact .cons hfinds hfound

theorem outcomes_ends (hf : find.Decides known sat scope E) (hn : scope n) {ids : List PatternId}
    (hk : ∀ q ∈ ids, known q) :
    Ends (outcomes find n ids)
      (fun found ↦ List.Forall₂ (fun q finds ↦ (!finds.isEmpty) = true ↔ sat q n) ids found) E := by
  apply outcomes_forall₂
  intro q hq
  exact (single_decides hf (hk q hq) hn).mono fun finds h ↦ by simpa using h

theorem contribute_ends {hits : List Find} {c Q : Prop} [Decidable c] (hc : c → hits ≠ [])
    (hq : c ↔ Q) (event : TraceEvent) :
    Ends (if c then (do
        s.note event
        return hits)
      else return []) (fun finds ↦ finds ≠ [] ↔ Q) E := by
  rw [← hq]
  by_cases h : c
  · rw [if_pos h]
    exact (note_ends event).bind fun _ _ ↦ .pure (iff_of_true (hc h) h)
  · rw [if_neg h]
    exact .pure (iff_of_false (fun hne ↦ hne rfl) h)

theorem visit_ends (hf : find.Decides known sat scope E) (hn : scope n) {rule : SearchRule}
    (hk : ∀ q ∈ rule.rules, known q) (hr : rule.rules ≠ []) (origin : PatternNode) :
    Ends (s.visit find id origin rule n) (fun finds ↦ finds ≠ [] ↔ rule.HoldsAt sat n) E := by
  refine (outcomes_ends hf hn hk).bind fun found h ↦ ?_
  have hpos : 0 < rule.rules.length := List.length_pos_iff.mpr hr
  have hhits : found.countP (fun finds ↦ !finds.isEmpty) ≠ 0 →
      found.flatten.map (Find.inherit origin.name) ≠ [] := by
    simp [List.countP_eq_zero]
  unfold SearchRule.HoldsAt
  cases rule.operator with
  | anyOf =>
    refine contribute_ends (fun hc ↦ hhits (by omega)) ?_ _
    rw [Nat.pos_iff_ne_zero, ne_eq, countP_eq_zero_iff h]
    simp [Operator.Accepts]
  | allOf => exact contribute_ends (fun hc ↦ hhits (by omega)) (countP_eq_length_iff h) _
  | oneOf => exact contribute_ends (fun hc ↦ hhits (by omega)) (countP_eq_one_iff h) _
  | not =>
    refine .pure (Iff.trans ?_ (countP_eq_zero_iff h))
    simp

variable {attempt : Node → MatchM (List Find)} {P : Node → Prop}

theorem each_ends {ns : List Node}
    (ha : ∀ n ∈ ns, Ends (attempt n) (fun finds ↦ finds ≠ [] ↔ P n) E) :
    Ends (each attempt ns) (fun finds ↦ finds ≠ [] ↔ ∃ n ∈ ns, P n) E := by
  induction ns with
  | nil => exact .pure (by simp)
  | cons n rest ih =>
    refine (ha n (by simp)).bind fun hits hh ↦ ?_
    refine (ih fun m hm ↦ ha m (.tail _ hm)).bind fun others ho ↦ .pure ?_
    rw [List.exists_mem_cons_iff, ← hh, ← ho]
    simp only [ne_eq, List.append_eq_nil_iff, not_and_or]

theorem descend_ends (hs : s.Tolerates scope E)
    (ha : ∀ n, scope n → Ends (attempt n) (fun finds ↦ finds ≠ [] ↔ P n) E) {ns : List Node}
    (hn : ∀ n ∈ ns, scope n) :
    Ends (s.descend attempt ns) (fun finds ↦ finds ≠ [] ↔ ∃ n ∈ ns, ∃ x, n.Contains x ∧ P x) E := by
  induction ns using Node.forest_induction with
  | nil =>
    rw [descend_nil]
    exact .pure (by simp)
  | cons n rest ihc ihr =>
    have hnow : scope n := hn n (by simp)
    rw [descend_cons]
    refine (ha n hnow).bind fun hits hh ↦ ?_
    refine (access_ends (Q := (· = n.children)) (fun _ ↦ View.children_eq)
      (hs.children n hnow)).bind fun children hc ↦ ?_
    subst hc
    refine (ihc (hs.closed n hnow)).bind fun below hb ↦ ?_
    refine (ihr fun m hm ↦ hn m (.tail _ hm)).bind fun others ho ↦ .pure ?_
    rw [List.exists_mem_cons_iff, Node.exists_contains_iff, ← hh, ← hb, ← ho, or_assoc]
    simp only [ne_eq, List.append_eq_nil_iff, not_and_or]

theorem search_ends (hs : s.Tolerates scope E) (hf : find.Decides known sat scope E)
    {rule : SearchRule} (hk : ∀ q ∈ rule.rules, known q) (hr : rule.rules ≠ [])
    (origin : PatternNode) {ns : List Node} (hn : ∀ n ∈ ns, scope n) :
    Ends (s.search find id origin rule ns) (fun finds ↦ finds ≠ [] ↔ ∃ n ∈ ns, rule.Holds sat n)
      E := by
  have hcharged : ∀ n, scope n → Ends (s.charged find id origin rule n)
      (fun finds ↦ finds ≠ [] ↔ rule.HoldsAt sat n) E :=
    fun n hn ↦ (charge_ends hs.limit).bind fun _ _ ↦ visit_ends hf hn hk hr origin
  unfold SearchRule.Holds
  cases he : rule.exact with
  | true =>
    rw [search_of_exact he]
    simpa using each_ends fun n hm ↦ hcharged n (hn n hm)
  | false =>
    rw [search_of_not_exact he]
    simpa using descend_ends hs hcharged hn

theorem apply_ends (hs : s.Tolerates scope E) (hf : find.Decides known sat scope E)
    {origin : PatternNode} (ho : s.pattern.get? id = some origin)
    (hk : ∀ q ∈ origin.references, known q)
    (hr : ∀ rule, origin.rule = .search rule → rule.rules ≠ []) {ns : List Node}
    (hn : ∀ n ∈ ns, scope n) :
    Ends (s.apply find id origin ns) (fun finds ↦ finds ≠ [] ↔ ∃ n ∈ ns, origin.rule.Holds sat n)
      E := by
  unfold PatternNode.references at hk
  cases h : origin.rule with
  | literal rule =>
    rw [apply_of_literal h]
    rw [h] at hk
    have ha : ∀ name ∈ (Rule.literal rule).constrained, name ∈ s.pattern.constrained :=
      fun name hname ↦ Pattern.mem_constrained ho (h ▸ hname)
    exact each_ends fun n hm ↦ literal_ends hs hf (hn n hm) hk ha origin
  | search rule =>
    rw [apply_of_search h]
    rw [h] at hk
    exact search_ends hs hf hk (hr rule h) origin hn

/-- With a depth above the height of the rules, a match of a sound pattern decides satisfaction. -/
theorem findAt_decides (hs : s.Tolerates scope E) (hp : s.pattern.Sound) (depth : ℕ) :
    (s.findAt depth).Decides
      (fun id ↦ id < s.pattern.size ∧ height s.pattern.Refers s.pattern.size id < depth)
      (s.pattern.Satisfies hp) scope E := by
  induction depth with
  | zero => exact fun id hid ↦ absurd hid.2 (Nat.not_lt_zero _)
  | succ depth ih =>
    rintro id ⟨hid, hh⟩ ns hn
    obtain ⟨origin, ho⟩ : ∃ origin, s.pattern.get? id = some origin :=
      ⟨_, Array.getElem?_eq_getElem hid⟩
    have hk : ∀ q ∈ origin.references, q < s.pattern.size ∧
        height s.pattern.Refers s.pattern.size q < depth := by
      intro q hq
      have hr : s.pattern.Refers id q := ⟨origin, ho, hq⟩
      have hlt := height_lt_height hr (hp.valid id q hr) (hp.acyclic q)
      exact ⟨hp.valid id q hr, by omega⟩
    rw [findAt, ho]
    simp only [Pattern.satisfies_iff ho]
    exact apply_ends hs ih ho hk (fun rule ↦ hp.searches id origin rule ho) hn

/-- The failures that a match of a sound pattern can end in. -/
def Expected (s : Setting) (e : MatchError) : Prop :=
  (∃ error, e = .access error) ∨ ∃ limit, s.limit = some limit ∧ e = .limitExceeded limit

theorem tolerates_expected (s : Setting) : s.Tolerates (fun _ ↦ True) s.Expected where
  limit limit h := .inr ⟨limit, h, rfl⟩
  kind _ _ e _ := .inl ⟨e, rfl⟩
  lookup _ _ _ _ e _ := .inl ⟨e, rfl⟩
  children _ _ e _ := .inl ⟨e, rfl⟩
  closed _ _ _ _ := trivial

theorem tolerates_of_reads (h : s.limit = none) :
    s.Tolerates (fun n ↦ ∀ x, n.Contains x → s.view.Reads x) fun _ ↦ False where
  limit limit hl := by
    rw [h] at hl
    cases hl
  kind n hn e he := by
    obtain ⟨kind, hk⟩ := (hn n (.refl n)).kind
    rw [hk] at he
    cases he
  lookup n hn name _ e he := by
    obtain ⟨found, hf⟩ := (hn n (.refl n)).lookup name
    rw [hf] at he
    cases he
  children n hn e he := by
    obtain ⟨children, hc⟩ := (hn n (.refl n)).children
    rw [hc] at he
    cases he
  closed n hn c hc x hx := hn x (Node.contains_iff.mpr (.inr ⟨c, hc, hx⟩))

variable {depth : ℕ} {roots : List Node} {finds : List Find} {tally tally' : Tally}

theorem findAt_ends (hs : s.Tolerates scope E) (hp : s.pattern.Sound) (hid : id < s.pattern.size)
    (hd : s.pattern.size ≤ depth) (hn : ∀ n ∈ roots, scope n) :
    Ends (s.findAt depth id roots)
      (fun finds ↦ finds ≠ [] ↔ ∃ n ∈ roots, s.pattern.Satisfies hp id n) E :=
  findAt_decides hs hp depth id ⟨hid, (height_lt_bound hid (hp.acyclic id)).trans_le hd⟩ roots hn

theorem findAt_ne_nil_iff (hp : s.pattern.Sound) (hid : id < s.pattern.size)
    (hd : s.pattern.size ≤ depth) (h : s.findAt depth id roots tally = (.ok finds, tally')) :
    finds ≠ [] ↔ ∃ n ∈ roots, s.pattern.Satisfies hp id n :=
  (findAt_ends s.tolerates_expected hp hid hd fun _ _ ↦ trivial).of_ok h

theorem findAt_error (hp : s.pattern.Sound) (hid : id < s.pattern.size)
    (hd : s.pattern.size ≤ depth) {e : MatchError}
    (h : s.findAt depth id roots tally = (.error e, tally')) : s.Expected e :=
  (findAt_ends s.tolerates_expected hp hid hd fun _ _ ↦ trivial).of_error h

theorem findAt_succeeds (hp : s.pattern.Sound) (hid : id < s.pattern.size)
    (hd : s.pattern.size ≤ depth) (hl : s.limit = none)
    (hr : ∀ n ∈ roots, ∀ x, n.Contains x → s.view.Reads x) (tally : Tally) :
    ∃ finds tally', s.findAt depth id roots tally = (.ok finds, tally') := by
  rcases h : s.findAt depth id roots tally with ⟨e | finds, tally'⟩
  · exact ((findAt_ends (tolerates_of_reads hl) hp hid hd hr).of_error h).elim
  · exact ⟨finds, tally', rfl⟩

end Setting

variable {engine : Engine} {tree : SyntaxTree} {p : Pattern}

theorem Engine.execute_eq_ok {found : Matches} : engine.execute tree p = .ok found ↔
    ∃ finds tally, engine.run false tree p = (.ok finds, tally) ∧ found = ⟨tree, finds⟩ := by
  unfold execute
  rcases engine.run false tree p with ⟨e | finds, tally⟩
  · simp [Except.map]
  · simp [Except.map, eq_comm]

/-- Matching a compiled pattern decides satisfaction, and satisfaction is what the rules of the
pattern say of it. Whenever asking a rule at some nodes succeeds, it finds something exactly if one
of them satisfies the rule, and it does succeed if there is no limit and all below the nodes can be
read. In particular a whole match finds something exactly if the root of the tree satisfies the root
of the pattern. -/
theorem RawPattern.compiled_match_decides {raw : RawPattern} (compiled : raw.compile = .ok p) :
    ∃ hp : p.Sound,
      (∀ id origin n, p.get? id = some origin →
        (p.Satisfies hp id n ↔ origin.rule.Holds (p.Satisfies hp) n)) ∧
      (∀ s : Setting, s.pattern = p → ∀ depth id roots tally, id < p.size → p.size ≤ depth →
        (∀ finds tally', s.findAt depth id roots tally = (.ok finds, tally') →
          (finds ≠ [] ↔ ∃ n ∈ roots, p.Satisfies hp id n)) ∧
        (s.limit = none → (∀ n ∈ roots, ∀ x, n.Contains x → s.view.Reads x) →
          ∃ finds tally', s.findAt depth id roots tally = (.ok finds, tally'))) ∧
      ∀ (engine : Engine) (tree : SyntaxTree),
        (∀ found, engine.execute tree p = .ok found →
          (found.finds ≠ [] ↔ p.Satisfies hp Pattern.root tree.root)) ∧
        (engine.limit = none → (∀ x, tree.root.Contains x → tree.view.Reads x) →
          ∃ found, engine.execute tree p = .ok found) := by
  have hp := compile_sound compiled
  refine ⟨hp, fun id origin n h ↦ Pattern.satisfies_iff h, ?_, fun engine tree ↦ ⟨?_, ?_⟩⟩
  · rintro s rfl depth id roots tally hid hd
    exact ⟨fun finds tally' h ↦ Setting.findAt_ne_nil_iff hp hid hd h,
      fun hl hr ↦ Setting.findAt_succeeds hp hid hd hl hr tally⟩
  · intro found h
    obtain ⟨finds, tally, hrun, rfl⟩ := Engine.execute_eq_ok.mp h
    have hfinds := Setting.findAt_ne_nil_iff (s := engine.setting false tree.view p) hp hp.nonempty
      le_rfl hrun
    refine hfinds.trans ⟨fun ⟨n, hn, h⟩ ↦ List.mem_singleton.mp hn ▸ h, fun h ↦ ?_⟩
    exact ⟨tree.root, List.mem_singleton_self _, h⟩
  · intro hl hr
    have hroots : ∀ n ∈ [tree.root], ∀ x, n.Contains x → tree.view.Reads x :=
      fun n hn ↦ List.mem_singleton.mp hn ▸ hr
    obtain ⟨finds, tally, h⟩ := Setting.findAt_succeeds (s := engine.setting false tree.view p) hp
      hp.nonempty le_rfl hl hroots .zero
    exact ⟨⟨tree, finds⟩, Engine.execute_eq_ok.mpr ⟨finds, tally, h, rfl⟩⟩

theorem Sample.compile_identPattern : identPattern.compile = .ok identRules := by
  have ho : identPattern.discoveryOrder = .ok [1, 0] := by
    rw [RawPattern.discoveryOrder]
    change RawPattern.discover _ [1] [⟨1, [0]⟩] = _
    rw [RawPattern.discover_new (by decide) (by decide) rfl]
    change RawPattern.discover _ [0, 1] [⟨0, []⟩, ⟨1, []⟩] = _
    rw [RawPattern.discover, RawPattern.discover, RawPattern.discover]
    rfl
  rw [RawPattern.compile, ho]
  rfl

theorem RawPattern.compiled_match_decides_ident :
    ∃ hp : Sample.identRules.Sound,
      (∃ found, Engine.execute ⟨none⟩ (Sample.callTree "print") Sample.identRules = .ok found ∧
        found.finds.length = 1) ∧
      Sample.identRules.Satisfies hp Pattern.root (Sample.callTree "print").root := by
  obtain ⟨hp, -, -, h⟩ := compiled_match_decides Sample.compile_identPattern
  obtain ⟨hiff, hok⟩ := h ⟨none⟩ (Sample.callTree "print")
  have hwhole : (Sample.callTree "print").root.preorder.all Node.whole = true := by decide +kernel
  obtain ⟨found, hfound⟩ := hok rfl fun x hx ↦
    x.reads_of_whole (List.all_eq_true.mp hwhole x (Node.mem_preorder.mpr hx)) _
  have hlength : (Engine.execute ⟨none⟩ (Sample.callTree "print") Sample.identRules).toOption.map
      (·.finds.length) = some 1 := by decide +kernel
  rw [hfound] at hlength
  have hone : found.finds.length = 1 := Option.some.inj hlength
  have hne : found.finds ≠ [] := List.ne_nil_of_length_pos (by omega)
  exact ⟨hp, ⟨found, hfound, hone⟩, (hiff found hfound).mp hne⟩

end TreePattern

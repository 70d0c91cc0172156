import TreePattern.Proofs.Match.Walk
import TreePattern.Proofs.Pattern.Resemblance

namespace TreePattern

section Data

variable {α β : Type} (I : PatternId → PatternId → Prop) (N : Node → Node → Prop)
  (A : String → Prop)

def Value.Rel : Value → Value → Prop
  | .scalar a, .scalar b => a = b
  | .node n, .node m => N n m
  | .nodes ns, .nodes ms => List.Forall₂ N ns ms
  | _, _ => False

def TraceEvent.Rel : TraceEvent → TraceEvent → Prop
  | .attributeAbsent i a, .attributeAbsent j b => I i j ∧ a = b
  | .constraintFailed i a, .constraintFailed j b => I i j ∧ a = b
  | .nodeMatched i k, .nodeMatched j l => I i j ∧ k = l
  | _, _ => False

def Groups.Rel (F : α → β → Prop) (g : Groups α) (h : Groups β) : Prop :=
  List.Forall₂ (fun a b ↦ a.1 = b.1 ∧ List.Forall₂ F a.2 b.2) g.groups h.groups

structure Find.Filed (F : Find → Find → Prop) : Prop where
  name : ∀ {f g}, F f g → f.name = g.name
  captures : ∀ {f g}, F f g → Groups.Rel F f.captures g.captures
  inherit : ∀ {f g} (name : Option String), F f g → F (f.inherit name) (g.inherit name)
  made : ∀ {n m i j origin origin' captures captures'}, N n m → I i j →
    PatternNode.Rel I A origin origin' → Groups.Rel F captures captures' →
    F ⟨n, i, origin, origin.name, captures⟩ ⟨m, j, origin', origin'.name, captures'⟩

variable {I N A} in
theorem Find.Filed.mono {I' : PatternId → PatternId → Prop} {N' : Node → Node → Prop}
    {F : Find → Find → Prop} (h : Find.Filed I N A F) (hi : ∀ i j, I' i j → I i j)
    (hn : ∀ n m, N' n m → N n m) : Find.Filed I' N' A F where
  name := h.name
  captures := h.captures
  inherit := h.inherit
  made hnm hij ho hc := h.made (hn _ _ hnm) (hi _ _ hij) (ho.imp hi) hc

end Data

namespace Groups

variable {α β : Type} {F : α → β → Prop} {g : Groups α} {h : Groups β} {a : α} {b : β}

theorem Rel.empty : Groups.Rel F Groups.empty Groups.empty := .nil

theorem rel_pushTo (name : String) (hab : F a b) {gs : List (String × List α)}
    {hs : List (String × List β)}
    (hr : List.Forall₂ (fun a b ↦ a.1 = b.1 ∧ List.Forall₂ F a.2 b.2) gs hs) :
    List.Forall₂ (fun a b ↦ a.1 = b.1 ∧ List.Forall₂ F a.2 b.2)
      (pushTo name a gs) (pushTo name b hs) := by
  induction hr with
  | nil => exact .cons ⟨rfl, .cons hab .nil⟩ .nil
  | @cons x y gs hs hxy hr ih =>
    obtain ⟨key, entries⟩ := x
    obtain ⟨key', entries'⟩ := y
    obtain ⟨rfl, hentries⟩ := hxy
    rw [pushTo, pushTo]
    split
    · exact .cons ⟨rfl, List.rel_append hentries (.cons hab .nil)⟩ hr
    · exact .cons ⟨rfl, hentries⟩ ih

theorem Rel.push (name : String) (hr : Groups.Rel F g h) (hab : F a b) :
    Groups.Rel F (g.push name a) (h.push name b) :=
  rel_pushTo name hab hr

theorem Rel.append {g' : Groups α} {h' : Groups β} (hr : Groups.Rel F g h)
    (hr' : Groups.Rel F g' h') : Groups.Rel F (g.append g') (h.append h') := by
  refine List.rel_foldl (fun g h hgh x y hxy ↦ ?_) hr hr'
  obtain ⟨name, entries⟩ := x
  obtain ⟨name', entries'⟩ := y
  obtain ⟨rfl, hentries⟩ := hxy
  exact List.rel_foldl (fun g h hgh a b hab ↦ hgh.push name hab) hgh hentries

variable {I : PatternId → PatternId → Prop} {N : Node → Node → Prop} {A : String → Prop}
  {F : Find → Find → Prop} {captures captures' : Captures} {finds finds' : List Find}

theorem Rel.record (hF : Find.Filed I N A F) (hr : Groups.Rel F captures captures') {f g : Find}
    (hfg : F f g) : Groups.Rel F (captures.record f) (captures'.record g) := by
  unfold Groups.record
  rw [← hF.name hfg]
  split
  · exact hr.push _ hfg
  · exact hr.append (hF.captures hfg)

theorem Rel.recordAll (hF : Find.Filed I N A F) (hr : Groups.Rel F captures captures')
    (hfinds : List.Forall₂ F finds finds') :
    Groups.Rel F (captures.recordAll finds) (captures'.recordAll finds') :=
  List.rel_foldl (fun _ _ hgh _ _ hab ↦ hgh.record hF hab) hr hfinds

end Groups

/-- A way to compare parts of two matches, with their results related, that is kept when parts run
one after the other and by a failure of both. -/
structure Comparison where
  rel : {α β : Type} → (α → β → Prop) → MatchM α → MatchM β → Prop
  pure : ∀ {α β : Type} {R : α → β → Prop} {a : α} {b : β}, R a b →
    rel R (Pure.pure a) (Pure.pure b)
  bind : ∀ {α β γ δ : Type} {R : α → β → Prop} {S : γ → δ → Prop} {x : MatchM α} {y : MatchM β}
    {f : α → MatchM γ} {g : β → MatchM δ},
    rel R x y → (∀ a b, R a b → rel S (f a) (g b)) → rel S (x >>= f) (y >>= g)
  throw : ∀ {α β : Type} {R : α → β → Prop} (e : MatchError), rel R (throw e) (throw e)

namespace Comparison

open Setting

variable (c : Comparison) (s s' : Setting) (I : PatternId → PatternId → Prop)
  (N : Node → Node → Prop) (F : Find → Find → Prop) (A : String → Prop)

/-- Two matches read related nodes alike, as far as the attributes with names in `A` go, and keep
comparable accounts. -/
structure Reads : Prop where
  kind : ∀ {n m}, N n m → c.rel Eq (access n.kind) (access m.kind)
  lookup : ∀ {n m name}, N n m → A name →
    c.rel (Option.Rel (Value.Rel N)) (access (s.view.lookup n name))
      (access (s'.view.lookup m name))
  children : ∀ {n m}, N n m → c.rel (fun a b ↦ a = n.children ∧ List.Forall₂ N a b)
    (access (s.view.children n)) (access (s'.view.children m))
  charge : c.rel Eq s.charge s'.charge
  note : ∀ e e', TraceEvent.Rel I e e' → c.rel Eq (s.note e) (s'.note e')

def Finds (find find' : Finder) : Prop :=
  ∀ i j ns ms, I i j → List.Forall₂ N ns ms →
    c.rel (List.Forall₂ F) (find i ns) (find' j ms)

variable {c s s' I N F A} {find find' : Finder} {captures captures' : Captures} {n m : Node}
  {i j : PatternId} {origin origin' : PatternNode}

def Notes (c : Comparison) (s s' : Setting) (i j : PatternId) : Prop :=
  ∀ e e', TraceEvent.Rel (fun a b ↦ a = i ∧ b = j) e e' → c.rel Eq (s.note e) (s'.note e')

theorem Reads.notes (hs : c.Reads s s' I N A) (hi : I i j) : c.Notes s s' i j := by
  intro e e' he
  apply hs.note
  cases e <;> cases e' <;> first | exact he.elim | skip
  all_goals
    obtain ⟨⟨rfl, rfl⟩, he⟩ := he
    exact ⟨hi, he⟩

theorem positions_rel (hF : Find.Filed I N A F) (hf : c.Finds I N F find find')
    {pairs pairs' : List (PatternId × Node)}
    (h : List.Forall₂ (fun p q ↦ I p.1 q.1 ∧ N p.2 q.2) pairs pairs')
    (hr : Groups.Rel F captures captures') :
    c.rel (Option.Rel (Groups.Rel F)) (positions find pairs captures)
      (positions find' pairs' captures') := by
  induction h generalizing captures captures' with
  | nil => exact c.pure (.some hr)
  | @cons p q pairs pairs' hpq _ ih =>
    refine c.bind (hf _ _ _ _ hpq.1 (.cons hpq.2 .nil)) fun finds finds' hfinds ↦ ?_
    cases hfinds with
    | nil => exact c.pure .none
    | cons hfg hrest => exact ih (hr.recordAll hF (.cons hfg hrest))

theorem forall₂_nodeList {v w : Value} (h : Value.Rel N v w) :
    List.Forall₂ N v.nodeList w.nodeList := by
  cases v <;> cases w <;> first | exact h.elim | exact .nil | exact .cons h .nil | exact h

theorem forall₂_zip {is js : List PatternId} {ns ms : List Node} (hi : List.Forall₂ I is js)
    (hn : List.Forall₂ N ns ms) :
    List.Forall₂ (fun p q ↦ I p.1 q.1 ∧ N p.2 q.2) (is.zip ns) (js.zip ms) := by
  induction hi generalizing ns ms with
  | nil => simp
  | cons hij _ ih =>
    cases hn with
    | nil => simp
    | cons hnm hn => exact .cons ⟨hij, hnm⟩ (ih hn)

theorem constrain_rel (hF : Find.Filed I N A F) (hf : c.Finds I N F find find') {v w : Value}
    (hv : Value.Rel N v w) (hr : Groups.Rel F captures captures') {k l : Constraint}
    (hk : Constraint.Rel I k l) :
    c.rel (Option.Rel (Groups.Rel F)) (constrain find v captures k)
      (constrain find' w captures' l) := by
  cases k with
  | scalar a =>
    cases l <;> try exact hk.elim
    cases hk
    cases v <;> cases w <;> try exact hv.elim
    · cases hv
      refine c.pure ?_
      split
      · exact .some hr
      · exact .none
    · exact c.pure .none
    · exact c.pure .none
  | pattern p =>
    cases l <;> try exact hk.elim
    refine c.bind (hf _ _ _ _ hk (forall₂_nodeList hv)) fun finds finds' hfinds ↦ ?_
    cases hfinds with
    | nil => exact c.pure .none
    | cons hfg hrest => exact c.pure (.some (hr.recordAll hF (.cons hfg hrest)))
  | sequence is =>
    cases l <;> try exact hk.elim
    cases v <;> cases w <;> try exact hv.elim
    · exact c.pure .none
    · exact c.pure .none
    · unfold constrain
      simp only [hv.length_eq, hk.length_eq]
      split
      · refine c.bind (positions_rel hF hf (forall₂_zip hk hv) .empty) fun o o' ho ↦ ?_
        cases ho with
        | none => exact c.pure .none
        | some hg => exact c.pure (.some (hr.append hg))
      · exact c.pure .none

theorem meets_rel (hs : c.Reads s s' I N A) (hF : Find.Filed I N A F)
    (hf : c.Finds I N F find find') (hi : c.Notes s s' i j) (hn : N n m)
    {attributes attributes' : List (String × Constraint)}
    (ha : List.Forall₂ (fun a b ↦ a.1 = b.1 ∧ A a.1 ∧ Constraint.Rel I a.2 b.2)
      attributes attributes') (hr : Groups.Rel F captures captures') :
    c.rel (Option.Rel (Groups.Rel F)) (s.meets find i n attributes captures)
      (s'.meets find' j m attributes' captures') := by
  induction ha generalizing captures captures' with
  | nil => exact c.pure (.some hr)
  | @cons a b attributes attributes' hab _ ih =>
    obtain ⟨name, constraint⟩ := a
    obtain ⟨name', constraint'⟩ := b
    obtain ⟨rfl, hname, hc⟩ := hab
    refine c.bind (hs.lookup hn hname) fun v w hv ↦ ?_
    cases hv with
    | none =>
      exact c.bind (hi (.attributeAbsent i name) (.attributeAbsent j name) ⟨⟨rfl, rfl⟩, rfl⟩)
        fun _ _ _ ↦ c.pure .none
    | some hv =>
      refine c.bind (constrain_rel hF hf hv hr hc) fun o o' ho ↦ ?_
      cases ho with
      | none =>
        exact c.bind
          (hi (.constraintFailed i name) (.constraintFailed j name) ⟨⟨rfl, rfl⟩, rfl⟩)
          fun _ _ _ ↦ c.pure .none
      | some hr => exact ih hr

theorem hasKind_rel (hs : c.Reads s s' I N A) (hn : N n m) {rule rule' : LiteralRule}
    (hk : rule.kind = rule'.kind) : c.rel Eq (hasKind rule n) (hasKind rule' m) := by
  unfold hasKind
  rw [← hk]
  split
  · exact c.pure rfl
  · exact c.bind (hs.kind hn) fun a b hab ↦ c.pure (congrArg (· == _) hab)

/-- Literals that ask the same of related nodes find what is related, if this is so of finds with
related captures. -/
theorem literal_rel_of_made (hs : c.Reads s s' I N A) (hF : Find.Filed I N A F)
    (hf : c.Finds I N F find find') (hi : c.Notes s s' i j) {rule rule' : LiteralRule}
    (hr : Rule.Rel I A (.literal rule) (.literal rule')) (hn : N n m) {G : Find → Find → Prop}
    (hG : ∀ captures captures', Groups.Rel F captures captures' →
      G ⟨n, i, origin, origin.name, captures⟩ ⟨m, j, origin', origin'.name, captures'⟩) :
    c.rel (List.Forall₂ G) (s.literal find i origin rule n)
      (s'.literal find' j origin' rule' m) := by
  obtain ⟨hk, ha⟩ := hr
  refine c.bind (hasKind_rel hs hn hk) fun a b hab ↦ ?_
  subst hab
  cases a with
  | false => exact c.pure .nil
  | true =>
    refine c.bind (meets_rel hs hF hf hi hn ha .empty) fun o o' hr ↦ ?_
    cases hr with
    | none => exact c.pure .nil
    | some hr => exact c.pure (.cons (hG _ _ hr) .nil)

theorem literal_rel (hs : c.Reads s s' I N A) (hF : Find.Filed I N A F)
    (hf : c.Finds I N F find find') (hi : I i j) (ho : PatternNode.Rel I A origin origin')
    {rule rule' : LiteralRule} (hr : Rule.Rel I A (.literal rule) (.literal rule')) (hn : N n m) :
    c.rel (List.Forall₂ F) (s.literal find i origin rule n) (s'.literal find' j origin' rule' m) :=
  literal_rel_of_made hs hF hf (hs.notes hi) hr hn fun _ _ hc ↦ hF.made hn hi ho hc

theorem outcomes_rel (hf : c.Finds I N F find find') (hn : N n m) {is js : List PatternId}
    (hr : List.Forall₂ I is js) :
    c.rel (List.Forall₂ (List.Forall₂ F)) (outcomes find n is) (outcomes find' m js) := by
  induction hr with
  | nil => exact c.pure .nil
  | cons hij _ ih =>
    refine c.bind (hf _ _ _ _ hij (.cons hn .nil)) fun finds finds' hfinds ↦ ?_
    exact c.bind ih fun rest rest' hrest ↦ c.pure (.cons hfinds hrest)

theorem countP_isEmpty_eq {found found' : List (List Find)}
    (h : List.Forall₂ (List.Forall₂ F) found found') :
    found.countP (fun finds ↦ !finds.isEmpty) = found'.countP fun finds ↦ !finds.isEmpty := by
  induction h with
  | nil => rfl
  | cons hab _ ih =>
    rw [List.countP_cons, List.countP_cons, ih]
    cases hab <;> rfl

theorem visit_rel (hs : c.Reads s s' I N A) (hF : Find.Filed I N A F)
    (hf : c.Finds I N F find find') (hi : I i j) (ho : PatternNode.Rel I A origin origin')
    {rule rule' : SearchRule} (hr : Rule.Rel I A (.search rule) (.search rule')) (hn : N n m) :
    c.rel (List.Forall₂ F) (s.visit find i origin rule n) (s'.visit find' j origin' rule' m) := by
  obtain ⟨hrules, -, hop⟩ := hr
  refine c.bind (outcomes_rel hf hn hrules) fun found found' hfound ↦ ?_
  have hhits : List.Forall₂ F (found.flatten.map (Find.inherit origin.name))
      (found'.flatten.map (Find.inherit origin'.name)) := by
    rw [← ho.1]
    exact List.rel_map (fun _ _ h ↦ hF.inherit _ h) (List.rel_flatten hfound)
  rw [countP_isEmpty_eq hfound, ← hop, hrules.length_eq]
  have hcontribute : c.rel (List.Forall₂ F)
      (do s.note (.nodeMatched i (found.flatten.map (Find.inherit origin.name)).length)
          return found.flatten.map (Find.inherit origin.name))
      (do s'.note (.nodeMatched j (found'.flatten.map (Find.inherit origin'.name)).length)
          return found'.flatten.map (Find.inherit origin'.name)) :=
    c.bind (hs.note _ _ ⟨hi, hhits.length_eq⟩) fun _ _ _ ↦ c.pure hhits
  cases rule.operator with
  | anyOf | allOf | oneOf =>
    dsimp only
    split
    · exact hcontribute
    · exact c.pure .nil
  | not =>
    refine c.pure ?_
    split
    · exact .cons (hF.made hn hi ho .empty) .nil
    · exact .nil

variable {attempt attempt' : Node → MatchM (List Find)} {ns ms : List Node}

theorem each_rel (ha : ∀ n m, N n m → c.rel (List.Forall₂ F) (attempt n) (attempt' m))
    (hn : List.Forall₂ N ns ms) : c.rel (List.Forall₂ F) (each attempt ns) (each attempt' ms) := by
  induction hn with
  | nil => exact c.pure .nil
  | cons hnm _ ih =>
    refine c.bind (ha _ _ hnm) fun hits hits' hh ↦ ?_
    exact c.bind ih fun others others' ho ↦ c.pure (List.rel_append hh ho)

theorem descend_rel (hs : c.Reads s s' I N A)
    (ha : ∀ n m, N n m → c.rel (List.Forall₂ F) (attempt n) (attempt' m))
    (hn : List.Forall₂ N ns ms) :
    c.rel (List.Forall₂ F) (s.descend attempt ns) (s'.descend attempt' ms) := by
  induction ns using Node.forest_induction generalizing ms with
  | nil =>
    cases hn
    rw [descend_nil, descend_nil]
    exact c.pure .nil
  | cons n rest ihc ihr =>
    cases hn with
    | cons hnm hrest =>
      rw [descend_cons, descend_cons]
      refine c.bind (ha _ _ hnm) fun hits hits' hh ↦ ?_
      refine c.bind (hs.children hnm) fun children children' hc ↦ ?_
      obtain ⟨rfl, hc⟩ := hc
      refine c.bind (ihc hc) fun below below' hb ↦ ?_
      exact c.bind (ihr hrest) fun others others' ho ↦
        c.pure (List.rel_append hh (List.rel_append hb ho))

theorem search_rel (hs : c.Reads s s' I N A) (hF : Find.Filed I N A F)
    (hf : c.Finds I N F find find') (hi : I i j) (ho : PatternNode.Rel I A origin origin')
    {rule rule' : SearchRule} (hr : Rule.Rel I A (.search rule) (.search rule'))
    (hn : List.Forall₂ N ns ms) :
    c.rel (List.Forall₂ F) (s.search find i origin rule ns)
      (s'.search find' j origin' rule' ms) := by
  have hcharged : ∀ n m, N n m → c.rel (List.Forall₂ F) (s.charged find i origin rule n)
      (s'.charged find' j origin' rule' m) :=
    fun n m hn ↦ c.bind hs.charge fun _ _ _ ↦ visit_rel hs hF hf hi ho hr hn
  cases he : rule.exact with
  | true =>
    rw [search_of_exact he, search_of_exact (hr.2.1 ▸ he)]
    exact each_rel hcharged hn
  | false =>
    rw [search_of_not_exact he, search_of_not_exact (hr.2.1 ▸ he)]
    exact descend_rel hs hcharged hn

theorem apply_rel (hs : c.Reads s s' I N A) (hF : Find.Filed I N A F)
    (hf : c.Finds I N F find find') (hi : I i j) (ho : PatternNode.Rel I A origin origin')
    (hn : List.Forall₂ N ns ms) :
    c.rel (List.Forall₂ F) (s.apply find i origin ns) (s'.apply find' j origin' ms) := by
  have hr := ho.2
  cases hrule : origin.rule with
  | literal rule =>
    cases hrule' : origin'.rule with
    | literal rule' =>
      rw [hrule, hrule'] at hr
      rw [apply_of_literal hrule, apply_of_literal hrule']
      exact each_rel (fun n m ↦ literal_rel hs hF hf hi ho hr) hn
    | search rule' =>
      rw [hrule, hrule'] at hr
      exact hr.elim
  | search rule =>
    cases hrule' : origin'.rule with
    | literal rule' =>
      rw [hrule, hrule'] at hr
      exact hr.elim
    | search rule' =>
      rw [hrule, hrule'] at hr
      rw [apply_of_search hrule, apply_of_search hrule']
      exact search_rel hs hF hf hi ho hr hn

/-- Two matches of patterns whose rules are related find related things for related rules. -/
theorem findAt_rel (hs : c.Reads s s' I N A) (hF : Find.Filed I N A F)
    (hp : ∀ i j, I i j →
      Option.Rel (PatternNode.Rel I A) (s.pattern.get? i) (s'.pattern.get? j))
    (hm : ∀ i j, I i j → s.pattern.get? i = none → i = j) (depth : Nat) :
    c.Finds I N F (s.findAt depth) (s'.findAt depth) := by
  induction depth with
  | zero => exact fun i j ns ms _ _ ↦ c.throw _
  | succ depth ih =>
    intro i j ns ms hi hn
    have h := hp i j hi
    have hmissing := hm i j hi
    unfold findAt
    revert h hmissing
    cases s.pattern.get? i <;> cases s'.pattern.get? j <;> intro h hmissing
    · cases hmissing rfl
      exact c.throw _
    · cases h
    · cases h
    · cases h with
      | some ho => exact apply_rel hs hF ih hi ho hn

end Comparison

section Same

variable {I : PatternId → PatternId → Prop} {A : String → Prop}

theorem TraceEvent.rel_eq_iff {e e' : TraceEvent} : TraceEvent.Rel Eq e e' ↔ e = e' := by
  cases e <;> cases e' <;> simp [TraceEvent.Rel]

theorem Value.rel_self {N : Node → Node → Prop} {v : Value} (h : ∀ n ∈ v.nodeList, N n n) :
    Value.Rel N v v := by
  cases v with
  | scalar a => rfl
  | node n => exact h n (List.mem_singleton_self n)
  | nodes ns => exact List.forall₂_same.mpr h

theorem Groups.rel_eq_iff {α : Type} {g h : Groups α} : Groups.Rel Eq g h ↔ g = h := by
  have hgroup : (fun a b : String × List α ↦ a.1 = b.1 ∧ List.Forall₂ Eq a.2 b.2) = Eq := by
    funext a b
    simp [List.forall₂_eq_eq_eq, Prod.ext_iff]
  obtain ⟨groups⟩ := g
  obtain ⟨groups'⟩ := h
  rw [Groups.Rel, hgroup, List.forall₂_eq_eq_eq, Groups.mk.injEq]

theorem Pattern.rel_of_eq {p q : Pattern} (hp : p = q) (ha : ∀ name ∈ p.constrained, A name)
    (i j : PatternId) (h : i = j) : Option.Rel (PatternNode.Rel Eq A) (p.get? i) (q.get? j) := by
  subst hp h
  cases ho : p.get? i with
  | none => exact .none
  | some origin =>
    exact .some (PatternNode.rel_self fun name hn ↦ ha name (Pattern.mem_constrained ho hn))

theorem Find.filed_eq : Find.Filed Eq Eq (fun _ ↦ True) Eq where
  name h := congrArg Find.name h
  captures h := Groups.rel_eq_iff.mpr (congrArg Find.captures h)
  inherit name h := congrArg (Find.inherit name) h
  made := by
    rintro n _ i _ ⟨name, rule⟩ ⟨name', rule'⟩ captures captures' rfl rfl ⟨hname, hrule⟩ hcaptures
    cases hname
    cases Rule.rel_eq_iff.mp hrule
    cases Groups.rel_eq_iff.mp hcaptures
    rfl

namespace Comparison

open Setting

variable {c : Comparison} {s s' : Setting}

theorem access_same {α : Type} {R : α → α → Prop} {result : Except AccessError α}
    (h : ∀ a, result = .ok a → R a a) : c.rel R (access result) (access result) := by
  cases result with
  | ok a => exact c.pure (h a rfl)
  | error e => exact c.throw _

/-- Two matches that read one tree in the same way. -/
theorem reads_same (hv : s.view = s'.view) (hcharge : c.rel Eq s.charge s'.charge)
    (hnote : ∀ e e', TraceEvent.Rel I e e' → c.rel Eq (s.note e) (s'.note e')) :
    c.Reads s s' I Eq A where
  kind h := h ▸ access_same fun _ _ ↦ rfl
  lookup := by
    rintro n _ name rfl -
    rw [← hv]
    refine access_same fun found _ ↦ ?_
    cases found with
    | none => exact .none
    | some v => exact .some (Value.rel_self fun _ _ ↦ rfl)
  children := by
    rintro n _ rfl
    rw [← hv]
    exact access_same fun children h ↦ ⟨View.children_eq h, List.forall₂_same.mpr fun _ _ ↦ rfl⟩
  charge := hcharge
  note := hnote

/-- Two matches of one pattern that read one tree in the same way. -/
theorem findAt_same (hp : s.pattern = s'.pattern) (hv : s.view = s'.view)
    (hcharge : c.rel Eq s.charge s'.charge) (hnote : ∀ e, c.rel Eq (s.note e) (s'.note e))
    (depth : ℕ) (id : PatternId) (roots : List Node) :
    c.rel Eq (s.findAt depth id roots) (s'.findAt depth id roots) := by
  have hreads : c.Reads s s' Eq Eq fun _ ↦ True :=
    reads_same hv hcharge fun e e' h ↦ TraceEvent.rel_eq_iff.mp h ▸ hnote e
  have h := findAt_rel hreads Find.filed_eq (Pattern.rel_of_eq hp fun _ _ ↦ trivial)
    (fun _ _ h _ ↦ h) depth id id roots roots rfl (List.forall₂_same.mpr fun _ _ ↦ rfl)
  rwa [List.forall₂_eq_eq_eq] at h

end Comparison

end Same

end TreePattern

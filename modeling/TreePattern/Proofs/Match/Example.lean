import TreePattern.Proofs.Match.Recursion
import TreePattern.Proofs.Pattern.Depiction
import TreePattern.Proofs.Scalar
import TreePattern.Proofs.Tree.Arena

namespace TreePattern

open Json MatchM TreePattern.Tree

def Passes (blocked : Prop) (captures : Captures) (found : Option Captures) : Prop :=
  (blocked → found = none) ∧ (¬ blocked → found = some captures)

/-- A rule finds just a node itself, unless it is blocked. -/
def FindsItself (blocked : Prop) (n : Node) (id : PatternId) (origin : PatternNode)
    (finds : List Find) : Prop :=
  (blocked → finds = []) ∧ (¬ blocked → finds = [⟨n, id, origin, none, .empty⟩])

namespace Passes

variable {blocked : Prop} {captures : Captures} {found : Option Captures} {α : Type} {P : α → Prop}
  {a : α} {rest : List α}

theorem of_blocked (h : blocked) : Passes blocked captures none :=
  ⟨fun _ ↦ rfl, fun hn ↦ absurd h hn⟩

theorem of_not_blocked (h : ¬ blocked) : Passes blocked captures (some captures) :=
  ⟨fun hb ↦ absurd hb h, fun _ ↦ rfl⟩

theorem cons_of_blocked (h : P a) : Passes (∃ b ∈ a :: rest, P b) captures none :=
  of_blocked ⟨a, List.mem_cons_self, h⟩

theorem cons_of_not_blocked (h : ¬ P a) (hr : Passes (∃ b ∈ rest, P b) captures found) :
    Passes (∃ b ∈ a :: rest, P b) captures found := by
  rwa [Passes, List.exists_mem_cons_iff, or_iff_right h]

end Passes

namespace Setting

/-- Asked at the node of a document, a rule of the pattern finds just that node, unless there is a
null in the document. -/
def Recognizes (s : Setting) (find : Finder) (document : Json) (id : PatternId) : Prop :=
  ∀ members next, document = .object members → ∃ origin, s.pattern.get? id = some origin ∧
    let n := ((nodeOf members).number next).1
    Ends (find id [n]) (FindsItself (document.Contains .null) n id origin) fun _ ↦ False

variable {s : Setting} {find : Finder} {members : List (String × Json)} {items : List Json}
  {key : String} {value document : Json} {constraint : Constraint} {ids : List PatternId}
  {id : PatternId} {n : Node}

theorem positions_passes (h : List.Forall₂ (s.Recognizes find) items ids)
    (hi : ∀ item ∈ items, ∃ members, item = .object members) (next : ℕ) (captures : Captures) :
    Ends (positions find (ids.zip (Node.numberForest next (forestOf items)).1) captures)
      (Passes (∃ item ∈ items, item.Contains .null) captures) fun _ ↦ False := by
  induction h generalizing next with
  | nil => exact .pure (.of_not_blocked (by simp))
  | @cons item id rest ids hfirst _ ih =>
    obtain ⟨members, rfl⟩ := hi item List.mem_cons_self
    have hrest := ih (fun other ho ↦ hi other (.tail _ ho)) ((nodeOf members).number next).2
    obtain ⟨origin, -, hends⟩ := hfirst members next rfl
    rw [forestOf_cons, Node.numberForest_cons, List.zip_cons_cons, positions]
    refine hends.bind fun finds hf ↦ ?_
    by_cases hnull : (object members).Contains .null
    · rw [hf.1 hnull]
      exact .pure (.cons_of_blocked hnull)
    · rw [hf.2 hnull]
      exact hrest.mono fun found hfound ↦ hfound.cons_of_not_blocked hnull

theorem constrain_passes (hm : (object members).Exemplary) (hv : value ∈ (object members).parts)
    {name : String} (ha : Asks (s.Recognizes find) (key, value) (name, constraint)) {field : Field}
    (hf : fieldOf? key value = some field) (place : ℕ) :
    ∃ v, (Node.numberField place field).1.read = .ok v ∧ ∀ captures,
      Ends (constrain find v captures constraint) (Passes (value.Contains .null) captures)
        fun _ ↦ False := by
  cases ha with
  | @scalar _ _ expected hs =>
    have hne : value ≠ .null := by
      rintro rfl
      cases hf
    have hof := Scalar.denotes_iff.mp hs
    rw [fieldOf?_of_ofJson? hof hne] at hf
    cases hf
    have hnan : ∀ x, value = .number (.float x) → x.isNaN = false :=
      fun x hx ↦ hm.isNaN_of_mem_parts (hx ▸ hv)
    refine ⟨.scalar expected, rfl, fun captures ↦ ?_⟩
    rw [constrain, Scalar.eqv_self_of_ofJson? hof hnan]
    exact .pure (.of_not_blocked (not_contains_null_of_ofJson? hof hne))
  | @pattern _ part id hr =>
    have hpart : isNodeObject part = true := (hm.of_mem_parts hv).isNode
    rw [fieldOf?_object hpart] at hf
    cases hf
    obtain ⟨origin, -, hends⟩ := hr part place rfl
    refine ⟨.node ((nodeOf part).number place).1, rfl, fun captures ↦ ?_⟩
    refine hends.bind fun finds hfinds ↦ ?_
    by_cases hnull : (object part).Contains .null
    · rw [hfinds.1 hnull]
      exact .pure (.of_blocked hnull)
    · rw [hfinds.2 hnull]
      exact .pure (.of_not_blocked hnull)
  | @sequence _ items ids hr =>
    have hi : ∀ item ∈ items, item.Exemplary := fun item hi ↦ hm.of_mem_items hv hi
    have hnodes : items.all isNode = true :=
      List.all_eq_true.mpr fun item h ↦ (hi item h).isNode
    have hobjects : ∀ item ∈ items, ∃ members, item = .object members :=
      fun item h ↦ (hi item h).isObject
    rw [fieldOf?_array hnodes] at hf
    cases hf
    refine ⟨.nodes (Node.numberForest place (forestOf items)).1, rfl, fun captures ↦ ?_⟩
    have hlength := (Node.length_numberForest place _).trans
      ((length_forestOf hobjects).trans hr.length_eq)
    rw [constrain, if_pos hlength, contains_array_iff (by simp)]
    refine (positions_passes hr hobjects place .empty).bind fun found hfound ↦ .pure ?_
    exact ⟨fun hnull ↦ by rw [hfound.1 hnull]; rfl, fun hnull ↦ by rw [hfound.2 hnull]; rfl⟩

theorem lookup_number (hv : s.view = .lenient) (hm : (object members).Exemplary)
    (he : (key, value) ∈ attributesOf members) (next : ℕ) : ∃ place,
      s.view.lookup ((nodeOf members).number next).1 key =
        match fieldOf? key value with
        | none => .ok none
        | some field => (Node.numberField place field).1.read.map some := by
  obtain ⟨hmem, hk⟩ := mem_attributesOf.mp he
  obtain ⟨place, hp⟩ := find?_numberFields hm.plainNode.nodup hmem hk (next + 1)
  refine ⟨place, ?_⟩
  rw [hv, number_nodeOf, View.lookup]
  dsimp only
  rw [hp]
  cases fieldOf? key value <;> rfl

theorem meets_passes (hv : s.view = .lenient) (hm : (object members).Exemplary)
    {entries : List (String × Json)} {attributes : List (String × Constraint)}
    (h : List.Forall₂ (Asks (s.Recognizes find)) entries attributes)
    (he : ∀ entry ∈ entries, entry ∈ attributesOf members) (next : ℕ) (captures : Captures) :
    Ends (s.meets find id ((nodeOf members).number next).1 attributes captures)
      (Passes (∃ entry ∈ entries, entry.2.Contains .null) captures) fun _ ↦ False := by
  induction h with
  | nil => exact .pure (.of_not_blocked (by simp))
  | @cons entry asked rest attributes ha _ ih =>
    obtain ⟨key, value⟩ := entry
    obtain ⟨name, constraint⟩ := asked
    have hname : name = key := by cases ha <;> rfl
    subst hname
    have hfirst := he _ List.mem_cons_self
    have hrest := ih fun other ho ↦ he other (.tail _ ho)
    have hpart : value ∈ (object members).parts := mem_parts_of_mem_attributesOf hfirst
    obtain ⟨place, hlookup⟩ := lookup_number hv hm hfirst next
    rw [meets, hlookup]
    cases hf : fieldOf? name value with
    | none =>
      -- The attribute is null, so the tree does not have it.
      have hnull : value.Contains .null := eq_null_of_fieldOf?_eq_none hf ▸ .refl _
      refine (note_ends _).bind fun _ _ ↦ .pure ?_
      exact .cons_of_blocked hnull
    | some field =>
      obtain ⟨v, hread, hends⟩ := constrain_passes hm hpart ha hf place
      dsimp only
      rw [hread]
      refine (hends captures).bind fun found hfound ↦ ?_
      by_cases hnull : value.Contains .null
      · rw [hfound.1 hnull]
        refine (note_ends _).bind fun _ _ ↦ .pure ?_
        exact .cons_of_blocked hnull
      · rw [hfound.2 hnull]
        exact hrest.mono fun found hfound ↦ hfound.cons_of_not_blocked hnull

theorem literal_finds (hv : s.view = .lenient) (hm : (object members).Exemplary)
    {attributes : List (String × Constraint)} {origin : PatternNode} (hn : origin.name = none)
    (h : List.Forall₂ (Asks (s.Recognizes find)) (attributesOf members) attributes) (next : ℕ) :
    let n := ((nodeOf members).number next).1
    Ends (s.literal find id origin ⟨some (kindOf members), attributes⟩ n)
      (FindsItself ((object members).Contains .null) n id origin) fun _ ↦ False := by
  intro n
  have hkind : hasKind ⟨some (kindOf members), attributes⟩ n = pure true := by
    have hof : n.kind = .ok (kindOf members) := by simp only [n, number_nodeOf]
    simp only [hasKind, hof, access_ok, pure_bind, beq_self_eq_true]
  rw [literal, hkind, pure_bind, if_pos rfl, hm.contains_null_iff]
  refine (meets_passes hv hm h (fun _ he ↦ he) next .empty).bind fun found hfound ↦ ?_
  by_cases hb : ∃ entry ∈ attributesOf members, entry.2.Contains .null
  · rw [hfound.1 hb]
    exact .pure ⟨fun _ ↦ rfl, fun h ↦ absurd hb h⟩
  · rw [hfound.2 hb, hn]
    exact .pure ⟨fun h ↦ absurd h hb, fun _ ↦ rfl⟩

theorem findAt_recognizes (hv : s.view = .lenient) {depth : ℕ} (hx : document.Exemplary)
    (hd : Depicts s.pattern.get? document id) (hdepth : document.extent ≤ depth) :
    s.Recognizes (s.findAt depth) document id := by
  induction document using extent_induction generalizing id depth with
  | _ document ih =>
    cases hd with
    | @literal members attributes _ hget hasks =>
      rintro _ next ⟨⟩
      obtain ⟨depth, rfl⟩ : ∃ k, depth = k + 1 := by
        rw [extent] at hdepth
        exact ⟨depth - 1, by omega⟩
      have hrecognizes : List.Forall₂ (Asks (s.Recognizes (s.findAt depth)))
          (attributesOf members) attributes := by
        refine forall₂_comp_of_mem ?_ hasks (List.forall₂_same.mpr fun _ _ ↦ rfl)
        rintro ⟨key, value⟩ he ⟨name, constraint⟩ _ ha rfl
        refine ha.trans ?_ (Constraint.rel_eq_iff.mpr rfl)
        rintro part i _ hp hd rfl
        have hlt := extent_lt_of_mem_attributesOf he hp
        have hc : (object members).Contains part :=
          .of_mem_parts (mem_parts_of_mem_attributesOf he) hp
        exact ih part hlt (hx.of_contains hc hd.isObject) hd (by omega)
      refine ⟨_, hget, ?_⟩
      intro n
      rw [findAt, hget]
      dsimp only [Setting.apply]
      rw [gather_singleton]
      exact literal_finds hv hx rfl hrecognizes next

end Setting

/-- A document that is an example of a tree and of a pattern is read as both, and the pattern
compiles. A match of the pattern on the tree succeeds under every limit. It finds the root of the
tree by the root of the pattern, without a name and without captures, and nothing else, if there is
no null in the document, and nothing at all if there is one. -/
theorem Json.Exemplary.matches_itself {document : Json} (h : document.Exemplary) :
    ∃ root raw p origin, Tree.ofJson document = .ok root ∧ RawPattern.ofJson document = .ok raw ∧
      raw.compile = .ok p ∧ p.get? Pattern.root = some origin ∧
      ∀ (engine : Engine) (id : ℕ),
        let tree : SyntaxTree := ⟨id, .lenient, root⟩
        (¬ document.Contains .null →
          engine.execute tree p = .ok ⟨tree, [⟨root, Pattern.root, origin, none, .empty⟩]⟩) ∧
        (document.Contains .null → engine.execute tree p = .ok ⟨tree, []⟩) := by
  obtain ⟨members, rfl⟩ := h.isObject
  obtain ⟨kind, hkind, -⟩ := h.plainNode.kind
  obtain ⟨raw, p, hraw, hp, hdepicts⟩ := h.exists_compile
  have hsound : p.Sound := RawPattern.compile_sound hp
  obtain ⟨origin, horigin⟩ : ∃ origin, p.get? Pattern.root = some origin :=
    ⟨_, Array.getElem?_eq_getElem hsound.nonempty⟩
  refine ⟨_, raw, p, origin, ofJson_object hkind, hraw, hp, horigin, fun engine id ↦ ?_⟩
  intro tree
  let s := engine.setting false .lenient p
  let depth := max p.size (object members).extent
  have hdepth : s.findAt p.size Pattern.root = s.findAt depth Pattern.root :=
    Setting.findAt_eq_of_size_le hsound hsound.nonempty le_rfl (le_max_left _ _)
  obtain ⟨origin', horigin', hends⟩ := Setting.findAt_recognizes (s := s) rfl h hdepicts
    (le_max_right p.size _) members 0 rfl
  obtain rfl : origin = origin' := Option.some.inj (horigin.symm.trans horigin')
  have hrun : engine.run false tree p = s.findAt depth Pattern.root [tree.root] .zero :=
    congrFun (congrFun hdepth [tree.root]) .zero
  rcases hx : s.findAt depth Pattern.root [tree.root] .zero with ⟨e | finds, tally⟩
  · exact (hends.of_error hx).elim
  · have hfinds := hends.of_ok hx
    have hexecute : engine.execute tree p = .ok ⟨tree, finds⟩ :=
      Engine.execute_eq_ok.mpr ⟨finds, tally, hrun.trans hx, rfl⟩
    rw [hexecute]
    exact ⟨fun hnull ↦ by rw [hfinds.2 hnull], fun hnull ↦ by rw [hfinds.1 hnull]⟩

namespace Sample

def callDocument (line : Json) : Json :=
  .object [("NodeType", .string "Call"), ("keywords", .array []),
    ("args", .array [.object [("NodeType", .string "Ident"), ("line", line)]])]

theorem exemplary_callDocument {line : Json} (hl : ∀ x, line.Contains x → x.Ordinary) :
    (callDocument line).Exemplary := by
  have hstring : ∀ s x, (Json.string s).Contains x → x.Ordinary :=
    fun s ↦ forall_contains_iff.mpr ⟨trivial, by simp [parts]⟩
  have hempty : ∀ x, (Json.array []).Contains x → x.Ordinary :=
    forall_contains_iff.mpr ⟨by simp [Ordinary], by simp [parts]⟩
  have hident : ∀ x, (Json.object [("NodeType", .string "Ident"), ("line", line)]).Contains x →
      x.Ordinary := by
    refine forall_contains_iff.mpr ⟨⟨⟨"Ident", rfl, by decide⟩, ?_, ?_⟩, ?_⟩
    · simp
    · simp
    · simpa [parts] using ⟨hstring "Ident", hl⟩
  have hargs : ∀ x,
      (Json.array [.object [("NodeType", .string "Ident"), ("line", line)]]).Contains x →
      x.Ordinary :=
    forall_contains_iff.mpr ⟨by simp [Ordinary], by simpa [parts] using hident⟩
  refine ⟨⟨_, rfl⟩, forall_contains_iff.mpr ⟨⟨⟨"Call", rfl, by decide⟩, ?_, ?_⟩, ?_⟩⟩
  · simp
  · simp
  · simpa [callDocument, parts] using ⟨hstring "Call", hempty, hargs⟩

theorem contains_null_callDocument (line : Json) :
    (callDocument line).Contains .null ↔ line.Contains .null := by
  have hstring : ∀ s, ¬ (Json.string s).Contains .null :=
    fun s ↦ not_contains_null_of_ofJson? rfl (by simp)
  simp [callDocument, contains_object_iff, contains_array_iff, hstring]

end Sample

/-- An integer that only a double holds is found again, and an attribute that is null is not. -/
theorem Json.Exemplary.matches_itself_call :
    let finds (line : Json) (engine : Engine) : Option ℕ := do
      let root ← (Tree.ofJson (Sample.callDocument line)).toOption
      let raw ← (RawPattern.ofJson (Sample.callDocument line)).toOption
      let p ← raw.compile.toOption
      let found ← (engine.execute ⟨0, .lenient, root⟩ p).toOption
      return found.finds.length
    finds (.number (.natural 0x8000000000000000)) ⟨some 0⟩ = some 1 ∧
    finds .null ⟨some 0⟩ = some 0 := by
  intro finds
  have hlarge : ∀ x, (Json.number (.natural 0x8000000000000000)).Contains x → x.Ordinary :=
    forall_contains_iff.mpr ⟨trivial, by simp [parts]⟩
  have hnull : ∀ x, Json.null.Contains x → x.Ordinary :=
    forall_contains_iff.mpr ⟨trivial, by simp [parts]⟩
  constructor
  · obtain ⟨root, raw, p, origin, htree, hraw, hp, -, hmatch⟩ :=
      matches_itself (Sample.exemplary_callDocument hlarge)
    have hscalar : ¬ (Json.number (.natural 0x8000000000000000)).Contains .null :=
      not_contains_null_of_ofJson? rfl (by simp)
    have hfound := (hmatch ⟨some 0⟩ 0).1 (mt (Sample.contains_null_callDocument _).mp hscalar)
    simp [finds, htree, hraw, hp, hfound, Except.toOption]
  · obtain ⟨root, raw, p, origin, htree, hraw, hp, -, hmatch⟩ :=
      matches_itself (Sample.exemplary_callDocument hnull)
    have hfound := (hmatch ⟨some 0⟩ 0).2 ((Sample.contains_null_callDocument _).mpr (.refl _))
    simp [finds, htree, hraw, hp, hfound, Except.toOption]

end TreePattern

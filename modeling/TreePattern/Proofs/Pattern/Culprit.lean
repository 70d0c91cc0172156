import TreePattern.Proofs.Pattern.Postorder

namespace TreePattern

open Json

inductive Step.Leads : Step → Json → Json → Prop
  | key {members : List (String × Json)} {name : String} {value : Json} :
      (name, value) ∈ members → Leads (.key name) (.object members) value
  | index {items : List Json} {position : ℕ} {item : Json} :
      items[position]? = some item → Leads (.index position) (.array items) item

inductive Path.Leads : Path → Json → Json → Prop
  | refl {document : Json} : Path.Leads [] document document
  | cons {step : Step} {rest : Path} {document part target : Json} : step.Leads document part →
      Path.Leads rest part target → Path.Leads (step :: rest) document target

theorem Path.render_eq (path : Path) : path.render = "$" ++ String.join (path.map fun
    | .key name => "." ++ name
    | .index position => "[" ++ toString position ++ "]") := by
  have hstep : Step.render = fun
      | .key name => "." ++ name
      | .index position => "[" ++ toString position ++ "]" := by
    funext step
    cases step <;> rfl
  have hfold (out : String) : path.foldl (fun out step ↦ out ++ step.render) out =
      out ++ String.join (path.map Step.render) := by
    induction path generalizing out with
    | nil => simp
    | cons step rest ih =>
      rw [List.foldl_cons, ih, List.map_cons, String.join_cons, String.append_assoc]
  rw [← hstep]
  exact hfold "$"

def FieldType.Admits : FieldType → Json → Prop
  | .string, value => ∃ text, value = .string text
  | .boolean, value => ∃ b, value = .bool b
  | .array, value => ∃ items, value = .array items
  | .object, value => ∃ members, value = .object members

/-- A value has the fault that an error names, and the error gives that path for it. -/
inductive LoadError.Blames (path : Path) : LoadError → Json → Prop
  | notAnObject {value : Json} : (∀ members, value ≠ .object members) →
      Blames path (.notAnObject path) value
  | missingNodeType {members : List (String × Json)} :
      member? members "NodeType" = none ∨ member? members "NodeType" = some .null →
      Blames path (.missingNodeType path) (.object members)
  | invalidField {members : List (String × Json)} {field : String} {expected : FieldType}
      {value : Json} : (field, value) ∈ members → (value = .null → field = "Attributes") →
      ¬ expected.Admits value → Blames path (.invalidField path field expected) (.object members)
  | unexpectedInSearch {members : List (String × Json)} {field : String} :
      member? members "NodeType" = some (.string "MatchRule") → field ∈ members.map (·.1) →
      field ∉ ["NodeType", "Name", "Rules", "Exact", "Operator"] →
      Blames path (.unexpectedField path field .search) (.object members)
  | unexpectedInLiteral {members : List (String × Json)} {kind field : String} :
      member? members "NodeType" = some (.string kind) → kind ≠ "MatchRule" →
      field ∈ members.map (·.1) → field ∈ ["Rules", "Exact", "Operator"] →
      Blames path (.unexpectedField path field .literal) (.object members)
  | unknownOperator {members : List (String × Json)} {name : String} :
      member? members "NodeType" = some (.string "MatchRule") →
      member? members "Operator" = some (.string name) →
      name ∉ ["anyOf", "allOf", "oneOf", "not"] →
      Blames path (.unknownOperator path name) (.object members)

/-- The words of an error about a value, with the text that is shown for the path to it. -/
inductive LoadError.Says (shown : String) : LoadError → String → Prop
  | notAnObject {path : Path} : Says shown (.notAnObject path) ("expected an object at " ++ shown)
  | missingNodeType {path : Path} :
      Says shown (.missingNodeType path) ("missing NodeType at " ++ shown)
  | notString {path : Path} {field : String} : Says shown (.invalidField path field .string)
      ("field " ++ field ++ " at " ++ shown ++ " must be " ++ "a string")
  | notBoolean {path : Path} {field : String} : Says shown (.invalidField path field .boolean)
      ("field " ++ field ++ " at " ++ shown ++ " must be " ++ "a boolean")
  | notArray {path : Path} {field : String} : Says shown (.invalidField path field .array)
      ("field " ++ field ++ " at " ++ shown ++ " must be " ++ "an array")
  | notObject {path : Path} {field : String} : Says shown (.invalidField path field .object)
      ("field " ++ field ++ " at " ++ shown ++ " must be " ++ "an object")
  | unexpectedInSearch {path : Path} {field : String} :
      Says shown (.unexpectedField path field .search)
        ("field " ++ field ++ " is not allowed on a " ++ "search" ++ " rule at " ++ shown)
  | unexpectedInLiteral {path : Path} {field : String} :
      Says shown (.unexpectedField path field .literal)
        ("field " ++ field ++ " is not allowed on a " ++ "literal" ++ " rule at " ++ shown)
  | unknownOperator {path : Path} {name : String} : Says shown (.unknownOperator path name)
      ("unknown operator " ++ Text.quoted name ++ " at " ++ shown)

theorem LoadError.Blames.says {path : Path} {error : LoadError} {value : Json}
    (h : error.Blames path value) : error.Says path.render error.message := by
  cases h with
  | notAnObject => exact .notAnObject
  | missingNodeType => exact .missingNodeType
  | @invalidField _ _ expected =>
    cases expected with
    | string => exact .notString
    | boolean => exact .notBoolean
    | array => exact .notArray
    | object => exact .notObject
  | unexpectedInSearch => exact .unexpectedInSearch
  | unexpectedInLiteral => exact .unexpectedInLiteral
  | unknownOperator => exact .unknownOperator

namespace Pattern.Loader

variable {α β : Type} {load : Load α} {next : α → Load β} {F G : LoadError → Prop}

/-- If loading fails, then with an error of which something holds. -/
def FailsWith (load : Load α) (F : LoadError → Prop) : Prop :=
  ∀ b error, load b = .error error → F error

theorem FailsWith.pure {a : α} : FailsWith (Pure.pure a) F := by
  intro b error hload
  cases hload

theorem FailsWith.fail {error : LoadError} (h : F error) :
    FailsWith (Loader.fail error : Load α) F := by
  intro b error' hload
  cases hload
  exact h

theorem FailsWith.lift {x : Except LoadError α} (h : ∀ error, x = .error error → F error) :
    FailsWith (StateT.lift x) F := by
  cases x with
  | error error => exact .fail (h error rfl)
  | ok a => exact .pure

theorem FailsWith.add (origin : PatternNode) : FailsWith (add origin) F := by
  intro b error hload
  cases hload

theorem FailsWith.bind (h : FailsWith load F) (hn : ∀ a, FailsWith (next a) F) :
    FailsWith (load >>= next) F := by
  intro b error hload
  change (load b >>= fun pair ↦ next pair.1 pair.2) = _ at hload
  rcases exceptBind_eq_error.mp hload with hfirst | ⟨pair, -, hsecond⟩
  · exact h b error hfirst
  · exact hn pair.1 pair.2 error hsecond

theorem FailsWith.map {f : α → β} (h : FailsWith load F) :
    FailsWith (load >>= fun a ↦ Pure.pure (f a)) F :=
  h.bind fun _ ↦ .pure

theorem FailsWith.mono (h : FailsWith load F) (hf : ∀ error, F error → G error) :
    FailsWith load G :=
  fun b error hload ↦ hf error (h b error hload)

def BlamesIn (path : Path) (document : Json) (error : LoadError) : Prop :=
  ∃ steps target, Path.Leads steps document target ∧ error.Blames (path ++ steps) target

variable {path : Path} {document part value : Json} {error : LoadError} {step : Step}
  {items : List Json} {members : List (String × Json)}

theorem BlamesIn.here (h : error.Blames path document) : BlamesIn path document error :=
  ⟨[], document, .refl, by rwa [List.append_nil]⟩

theorem BlamesIn.of_step (hs : step.Leads document part)
    (h : BlamesIn (path ++ [step]) part error) : BlamesIn path document error := by
  obtain ⟨steps, target, hleads, hblames⟩ := h
  exact ⟨step :: steps, target, .cons hs hleads, by rwa [List.append_cons]⟩

def Accountable (document : Json) : Prop :=
  ∀ path, FailsWith (node path document) (BlamesIn path document)

theorem nodes_failsWith (h : ∀ item ∈ items, Accountable item) (path : Path) (position : ℕ) :
    FailsWith (nodes path position items) fun error ↦ ∃ index item, items[index]? = some item ∧
      BlamesIn (path ++ [.index (position + index)]) item error := by
  induction items generalizing position with
  | nil =>
    rw [nodes]
    exact .pure
  | cons item rest ih =>
    rw [nodes]
    apply FailsWith.bind
    · exact (h item List.mem_cons_self _).mono fun error he ↦ ⟨0, item, rfl, he⟩
    · intro id
      have hrest := ih (fun other ho ↦ h other (.tail _ ho)) (position + 1)
      refine (hrest.mono fun error he ↦ ?_).map
      obtain ⟨index, other, hi, he⟩ := he
      refine ⟨index + 1, other, hi, ?_⟩
      rwa [Nat.add_right_comm, Nat.add_assoc] at he

theorem array_failsWith (h : ∀ item ∈ items, Accountable item) (path : Path) :
    FailsWith (nodes path 0 items) (BlamesIn path (.array items)) := by
  refine (nodes_failsWith h path 0).mono fun error he ↦ ?_
  obtain ⟨index, item, hi, he⟩ := he
  rw [Nat.zero_add] at he
  exact .of_step (.index hi) he

theorem blames_field {field : String} (expected : FieldType)
    (hm : member? members field = some value) (hnull : value ≠ .null) (hv : ¬ expected.Admits value)
    (path : Path) : (LoadError.invalidField path field expected).Blames path (.object members) :=
  .invalidField (mem_of_member? hm) (fun hn ↦ absurd hn hnull) hv

theorem rulesOf_failsWith (h : ∀ rules, member? members "Rules" = some (.array rules) →
      ∀ rule ∈ rules, Accountable rule) (path : Path) :
    FailsWith (rulesOf path members) (BlamesIn path (.object members)) := by
  rw [rulesOf_eq]
  cases hm : member? members "Rules" with
  | none => exact .pure
  | some value =>
    cases value with
    | null => exact .pure
    | array rules =>
      exact (array_failsWith (h rules hm) _).mono fun error ↦ .of_step (.key (mem_of_member? hm))
    | bool | number | string | object =>
      exact .fail (.here (blames_field .array hm (by simp) (by simp [FieldType.Admits]) path))

theorem constraint_failsWith (h : ∀ part, value.Contains part → Accountable part) (path : Path) :
    FailsWith (constraint path value) (BlamesIn path value) := by
  cases value with
  | null | bool | number | string => exact .pure
  | array items =>
    rw [constraint]
    exact (array_failsWith (fun item hi ↦ h item (.of_mem_parts hi (.refl _))) path).map
  | object members => exact (h _ (.refl _) path).map

theorem constraints_failsWith {role : String → KeyRole}
    (h : ∀ entry ∈ members, FailsWith (memberConstraints path role entry) F) :
    FailsWith (constraints path role members) F := by
  induction members with
  | nil =>
    rw [constraints]
    exact .pure
  | cons entry rest ih =>
    rw [constraints_cons]
    exact (h entry List.mem_cons_self).bind fun found ↦ (ih fun other ho ↦ h other (.tail _ ho)).map

theorem memberConstraint_failsWith {role : String → KeyRole} {key : String}
    (hm : (key, value) ∈ members) (hr : role key = .constraint)
    (h : ∀ part, value.Contains part → Accountable part) :
    FailsWith (memberConstraints path role (key, value)) (BlamesIn path (.object members)) := by
  simp only [memberConstraints, hr]
  exact ((constraint_failsWith h _).mono fun error ↦ .of_step (.key hm)).map

theorem literal_failsWith {kind : String} (hkind : member? members "NodeType" = some (.string kind))
    (hne : kind ≠ "MatchRule")
    (h : ∀ entry ∈ members, ∀ part, entry.2.Contains part → Accountable part) (path : Path) :
    FailsWith (do
      let attributes ← constraints path keyRole members
      add ⟨none, .literal ⟨some kind, attributes⟩⟩) (BlamesIn path (.object members)) := by
  refine (constraints_failsWith ?_).bind fun attributes ↦ .add _
  rintro ⟨key, value⟩ hm
  rcases keyRole_cases key with ⟨-, hr⟩ | ⟨hk, hr⟩ | ⟨rfl, hr⟩ | ⟨-, hr⟩
  · simp only [memberConstraints, hr]
    exact .pure
  · simp only [memberConstraints, hr]
    exact .fail (.here (.unexpectedInLiteral hkind hne (List.mem_map_of_mem hm) hk))
  · cases value with
    | object inner =>
      simp only [memberConstraints, hr]
      refine FailsWith.mono (constraints_failsWith ?_) fun error ↦ .of_step (.key hm)
      exact fun entry he ↦ memberConstraint_failsWith he rfl fun part hp ↦
        h _ hm part (.of_mem_parts (mem_parts_of_mem he) hp)
    | null | bool | number | string | array =>
      simp only [memberConstraints, hr]
      exact .fail (.here (.invalidField hm (fun _ ↦ rfl) (by simp [FieldType.Admits])))
  · exact memberConstraint_failsWith hm hr (h _ hm)

theorem ofName?_eq_none_iff {name : String} :
    Operator.ofName? name = none ↔ name ∉ ["anyOf", "allOf", "oneOf", "not"] := by
  unfold Operator.ofName?
  split <;> simp_all

theorem exactOf_error (h : exactOf path members = .error error) :
    error.Blames path (.object members) := by
  unfold exactOf at h
  cases hm : member? members "Exact" with
  | none => simp [hm] at h
  | some value =>
    cases value with
    | null | bool => simp [hm] at h
    | number | string | array | object =>
      simp only [hm, Except.error.injEq] at h
      exact h ▸ blames_field .boolean hm (by simp) (by simp [FieldType.Admits]) path

theorem nameOf_error (h : nameOf path members = .error error) :
    error.Blames path (.object members) := by
  unfold nameOf at h
  cases hm : member? members "Name" with
  | none => simp [hm] at h
  | some value =>
    cases value with
    | null | string => simp [hm] at h
    | bool | number | array | object =>
      simp only [hm, Except.error.injEq] at h
      exact h ▸ blames_field .string hm (by simp) (by simp [FieldType.Admits]) path

theorem operatorOf_error (hkind : member? members "NodeType" = some (.string "MatchRule"))
    (h : operatorOf path members = .error error) : error.Blames path (.object members) := by
  unfold operatorOf at h
  cases hm : member? members "Operator" with
  | none => simp [hm] at h
  | some value =>
    cases value with
    | null => simp [hm] at h
    | string name =>
      simp only [hm] at h
      cases hname : Operator.ofName? name with
      | some operator => simp [hname] at h
      | none =>
        simp only [hname, Except.error.injEq] at h
        exact h ▸ .unknownOperator hkind hm (ofName?_eq_none_iff.mp hname)
    | bool | number | array | object =>
      simp only [hm, Except.error.injEq] at h
      exact h ▸ blames_field .string hm (by simp) (by simp [FieldType.Admits]) path

theorem checkKeys_error (hkind : member? members "NodeType" = some (.string "MatchRule"))
    (h : checkKeys path members = .error error) : error.Blames path (.object members) := by
  unfold checkKeys at h
  split at h
  · cases h
  · next key value hfind =>
    cases h
    have hm := List.mem_of_find?_eq_some hfind
    have hkey : ¬ searchKeys.contains key := by simpa using List.find?_some hfind
    refine .unexpectedInSearch hkind (List.mem_map_of_mem hm) ?_
    rwa [List.contains_iff_mem] at hkey

theorem searchNode_error (hkind : member? members "NodeType" = some (.string "MatchRule"))
    {ids : List PatternId} (h : searchNode path members ids = .error error) :
    error.Blames path (.object members) := by
  rcases exceptBind_eq_error.mp h with h | ⟨exact, -, h⟩
  · exact exactOf_error h
  rcases exceptBind_eq_error.mp h with h | ⟨operator, -, h⟩
  · exact operatorOf_error hkind h
  rcases exceptBind_eq_error.mp h with h | ⟨-, -, h⟩
  · exact checkKeys_error hkind h
  rcases exceptBind_eq_error.mp h with h | ⟨name, -, h⟩
  · exact nameOf_error h
  · cases h

theorem search_failsWith (hkind : member? members "NodeType" = some (.string "MatchRule"))
    (h : ∀ entry ∈ members, ∀ part, entry.2.Contains part → Accountable part) (path : Path) :
    FailsWith (do
      let rules ← rulesOf path members
      add (← StateT.lift (searchNode path members rules))) (BlamesIn path (.object members)) := by
  have hrules : ∀ rules, member? members "Rules" = some (.array rules) →
      ∀ rule ∈ rules, Accountable rule := by
    intro rules hm rule hr
    exact h _ (mem_of_member? hm) rule (.of_mem_parts hr (.refl _))
  apply (rulesOf_failsWith hrules path).bind
  intro ids
  refine FailsWith.bind (.lift fun error he ↦ ?_) .add
  exact .here (searchNode_error hkind he)

theorem node_failsWith (document : Json) : Accountable document := by
  induction document using extent_induction with
  | _ document ih =>
    intro path
    cases document with
    | object members =>
      have hparts : ∀ entry ∈ members, ∀ part, entry.2.Contains part → Accountable part := by
        intro entry he part hp
        have hlt := extent_lt_of_mem_parts (mem_parts_of_mem he)
        exact ih part (Nat.lt_of_le_of_lt (extent_le_of_contains hp) hlt)
      rw [node]
      cases hm : member? members "NodeType" with
      | none => exact .fail (.here (.missingNodeType (.inl hm)))
      | some value =>
        cases value with
        | null => exact .fail (.here (.missingNodeType (.inr hm)))
        | bool | number | array | object =>
          exact .fail (.here (blames_field .string hm (by simp) (by simp [FieldType.Admits]) path))
        | string kind =>
          dsimp only
          split
          · subst kind
            exact search_failsWith hm hparts path
          · exact literal_failsWith hm ‹_› hparts path
    | null | bool | number | string | array =>
      rw [node_of_not_object (by simp)]
      exact .fail (.here (.notAnObject (by simp)))

end Pattern.Loader

namespace RawPattern

/-- A document that is not a pattern is refused with the path of a value in it that has the fault
named in the error, and the message shows this path. -/
theorem ofJson_blames {document : Json} {error : LoadError} (h : ofJson document = .error error) :
    ∃ path target, Path.Leads path document target ∧ error.Blames path target ∧
      (path.render = "$" ++ String.join (path.map fun
        | .key name => "." ++ name
        | .index position => "[" ++ toString position ++ "]")) ∧
      error.Says path.render error.message := by
  have hload : Pattern.Loader.node [] document .empty = .error error := by
    rcases exceptBind_eq_error.mp h with hload | ⟨pair, -, hbuild⟩
    · exact hload
    · cases hbuild
  obtain ⟨path, target, hleads, hblames⟩ :=
    Pattern.Loader.node_failsWith document [] .empty error hload
  exact ⟨path, target, hleads, hblames, path.render_eq, hblames.says⟩

def kindlessBody : Json :=
  .object [("NodeType", .string "MatchRule"),
    ("Rules", .array
      [.object [("NodeType", .string "Ident")],
        .object [("NodeType", .string "Fn"),
          ("Attributes", .object [("Body", .array [.object [("Name", .string "x")]])])]])]

def kindlessPath : Path :=
  [.key "Rules", .index 1, .key "Attributes", .key "Body", .index 0]

theorem ofJson_blames_kindlessBody : ofJson kindlessBody = .error (.missingNodeType kindlessPath) ∧
    (∃ path target, Path.Leads path kindlessBody target ∧
      (LoadError.missingNodeType kindlessPath).Blames path target ∧
      (path.render = "$" ++ String.join (path.map fun
        | .key name => "." ++ name
        | .index position => "[" ++ toString position ++ "]")) ∧
      (LoadError.missingNodeType kindlessPath).Says path.render
        (LoadError.missingNodeType kindlessPath).message) ∧
    (LoadError.missingNodeType kindlessPath).message =
      "missing NodeType at $.Rules[1].Attributes.Body[0]" := by
  have herror : ofJson kindlessBody = .error (.missingNodeType kindlessPath) := rfl
  exact ⟨herror, ofJson_blames herror, by decide⟩

end RawPattern

end TreePattern

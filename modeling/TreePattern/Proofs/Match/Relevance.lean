import TreePattern.Proofs.Match.Correspondence
import TreePattern.Proofs.Match.Refinement
import TreePattern.Proofs.Tree.Arena
import TreePattern.Proofs.Tree.Likeness

namespace TreePattern

open Setting

section Readings

variable {c : Comparison} {N : Node → Node → Prop} {names : List String} {name : String}
  {field field' : String × Field} {n m : Node}

theorem Comparison.read_rel (h : Field.Alike N field field') :
    c.rel (Option.Rel (Value.Rel N)) (access (field.2.read.map some))
      (access (field'.2.read.map some)) := by
  cases h with
  | scalar name value => exact c.pure (.some rfl)
  | node name hn => exact c.pure (.some hn)
  | nodes name hn => exact c.pure (.some hn)
  | broken name error => exact c.throw _

theorem Comparison.lookup_rel (hfields : List.Forall₂ (Field.Alike N) (n.seen names) (m.seen names))
    (hname : name ∈ names) :
    c.rel (Option.Rel (Value.Rel N)) (access (View.lenient.lookup n name))
      (access (View.lenient.lookup m name)) := by
  unfold View.lookup
  rw [← Node.find?_seen hname n, ← Node.find?_seen hname m]
  generalize n.seen names = fields at hfields ⊢
  generalize m.seen names = fields' at hfields ⊢
  induction hfields with
  | nil => exact c.pure .none
  | @cons field field' _ _ hfield _ ih =>
    rw [List.find?_cons, List.find?_cons, hfield.name_eq]
    cases field'.1 == name with
    | true => exact read_rel hfield
    | false => exact ih

end Readings

/-- Somewhere in a tree a field cannot be read that has a name constrained by the pattern. -/
def Pattern.BlockedOn (p : Pattern) (root : Node) (e : AccessError) : Prop :=
  ∃ n, root.Contains n ∧ ∃ name ∈ p.constrained, (name, Field.broken e) ∈ n.fields

namespace Setting

variable {s : Setting} {root root' : Node}

/-- On trees that look alike to the pattern, a rule finds corresponding things at the same
places. -/
theorem findAt_alike (hv : s.view = .lenient) (h : Node.Alike s.pattern.constrained root root')
    (depth : ℕ) (id : PatternId) :
    Lockstep Eq (List.Forall₂ (Find.Corresponds (Node.SamePlace root root') Eq))
      (s.findAt depth id [root]) (s.findAt depth id [root']) := by
  let A (name : String) := name ∈ s.pattern.constrained
  let N (n m : Node) := Node.Alike s.pattern.constrained n m ∧ Node.SamePlace root root' n m
  have hbelow : ∀ n m, N n m → ∀ c d, (c, d) ∈ n.children.zip m.children →
      Node.Alike s.pattern.constrained c d → N c d :=
    fun n m hn c d hm hcd ↦ ⟨hcd, hn.2.child hm⟩
  have hreads : (Comparison.lockstep Eq).Reads s s Eq N A := {
    kind := fun hn ↦ hn.1.kind_eq ▸ Comparison.access_same fun _ _ ↦ rfl
    lookup := by
      intro n m name hn hname
      rw [hv]
      exact Comparison.lookup_rel (hn.1.seen (hbelow n m hn)) hname
    children := by
      intro n m hn
      rw [hv]
      exact Lockstep.pure ⟨rfl, hn.1.children (hbelow n m hn)⟩
    charge := Lockstep.refl _
    note := by
      intro e e' he
      rw [TraceEvent.rel_eq_iff.mp he]
      exact Lockstep.refl _ }
  have hfiled : Find.Filed Eq N A (Find.Corresponds (Node.SamePlace root root') Eq) := by
    refine Find.filed_corresponds (fun _ _ hn ↦ hn.2) ?_
    intro i j origin origin' hij ho
    rw [hij, ho.eq]
  exact Comparison.findAt_rel hreads hfiled (Pattern.rel_of_eq rfl fun _ hname ↦ hname)
    (fun _ _ h _ ↦ h) depth id id [root] [root'] rfl (.cons ⟨h, .refl root root'⟩ .nil)

theorem lookup_error {n : Node} {name : String} {e : AccessError}
    (h : View.lenient.lookup n name = .error e) : (name, Field.broken e) ∈ n.fields := by
  unfold View.lookup at h
  dsimp only at h
  cases hfind : n.fields.find? fun field ↦ field.1 == name with
  | none => simp [hfind] at h
  | some field =>
    obtain ⟨key, field⟩ := field
    have hname : key = name := by simpa using List.find?_some hfind
    have hmem := List.mem_of_find?_eq_some hfind
    rw [hfind] at h
    cases field <;> cases h
    rwa [hname] at hmem

/-- Where all nodes have kinds, a match can fail to read only a field that the pattern
constrains. -/
theorem findAt_blocked (hv : s.view = .lenient) (hp : s.pattern.Sound)
    (hkind : ∀ n, root.Contains n → ∃ kind, n.kind = .ok kind) {id : PatternId}
    (hid : id < s.pattern.size) {tally tally' : Tally} {e : AccessError}
    (h : s.findAt s.pattern.size id [root] tally = (.error (.access e), tally')) :
    s.pattern.BlockedOn root e := by
  let E (error : MatchError) := ∀ e, error = .access e → s.pattern.BlockedOn root e
  have htolerates : s.Tolerates root.Contains E := {
    limit := by
      intro limit _ e he
      cases he
    kind := by
      intro n hn e he
      obtain ⟨kind, hk⟩ := hkind n hn
      rw [hk] at he
      cases he
    lookup := by
      intro n hn name hname e he _ hsame
      cases hsame
      rw [hv] at he
      exact ⟨n, hn, name, hname, lookup_error he⟩
    children := by
      intro n _ e he
      rw [hv] at he
      cases he
    closed := fun n hn c hc ↦ hn.tail hc }
  have hroots : ∀ n ∈ [root], root.Contains n := by
    intro n hn
    rw [List.mem_singleton.mp hn]
    exact .refl root
  have hends := findAt_ends htolerates hp hid le_rfl hroots
  exact hends.of_error h e rfl

end Setting

/-- Only the attributes that a compiled pattern constrains matter to it, besides the nodes: on
trees that differ in other fields only, which may be scalars or may not be readable, and are read
leniently, matches under any limit fail for the same reason, or find the same at the same places,
and they have the same account. A match with the tree of a document can fail to read only a field
that the pattern constrains. -/
theorem RawPattern.compiled_match_ignores {raw : RawPattern} {p : Pattern}
    (compiled : raw.compile = .ok p) (engine : Engine) (traced : Bool) (id : ℕ) :
    let run (root : Node) := engine.run traced ⟨id, .lenient, root⟩ p
    (∀ root root', Node.Alike p.constrained root root' →
      SameEnd (List.Forall₂ (Find.Corresponds (Node.SamePlace root root') Eq)) (run root).1
          (run root').1 ∧
        (run root).2 = (run root').2) ∧
    ∀ document root, Tree.ofJson document = .ok root →
      ∀ e, (run root).1 = .error (.access e) → p.BlockedOn root e := by
  intro run
  have hp := compile_sound compiled
  let s := engine.setting traced .lenient p
  refine ⟨fun root root' h ↦ ?_, fun document root hroot e he ↦ ?_⟩
  · exact Setting.findAt_alike (s := s) rfl h p.size Pattern.root .zero .zero rfl
  · have hkind : ∀ n, root.Contains n → ∃ kind, n.kind = .ok kind :=
      fun n hn ↦ Tree.kind_of_contains_ofJson hroot hn
    exact Setting.findAt_blocked (s := s) rfl hp hkind hp.nonempty (Prod.ext he rfl)

namespace Sample

def printPattern : RawPattern :=
  let (ident, b) := Builder.empty.add
    ⟨some "fun", .literal ⟨some "Ident", [textConstraint "Name" "print"]⟩⟩
  let (root, b) := b.add ⟨none, .search ⟨[ident], false, .anyOf⟩⟩
  b.build root

def printRules : Pattern :=
  ⟨#[⟨none, .search ⟨[1], false, .anyOf⟩⟩,
    ⟨some "fun", .literal ⟨some "Ident", [textConstraint "Name" "print"]⟩⟩]⟩

theorem compile_printPattern : printPattern.compile = .ok printRules := by
  have ho : printPattern.discoveryOrder = .ok [1, 0] := by
    change RawPattern.discover _ [1] [⟨1, [0]⟩] = _
    rw [RawPattern.discover_new (by decide) (by decide) rfl]
    change RawPattern.discover _ [0, 1] [⟨0, []⟩, ⟨1, []⟩] = _
    rw [RawPattern.discover, RawPattern.discover, RawPattern.discover]
    rfl
  rw [RawPattern.compile, ho]
  rfl

def notedCall : Node :=
  node "CallExpr" [text "Doc" "prints", ("Fun", .node (ident "print"))]

theorem alike_calls : Node.Alike printRules.constrained notedCall brokenCall := by
  have hident : Node.Alike printRules.constrained (ident "print") (ident "print") :=
    .intro rfl (.cons (.scalar _ _) .nil)
  exact .intro rfl (.cons (.node "Fun" hident) .nil)

def namelessDocument : Json :=
  .object [("NodeType", .string "Ident"), ("Name", .array [.null])]

def nameless : Node :=
  ⟨0, .ok "Ident",
    [("Name", .broken ⟨"attribute Name is an array holding values that are not nodes", none⟩)]⟩

theorem ofJson_namelessDocument : Tree.ofJson namelessDocument = .ok nameless := by
  rw [namelessDocument, Tree.ofJson_object rfl]
  rfl

end Sample

/-- The comment of a call makes no difference to a search for `print`, whether or not it can be
read. The name of an identifier does. -/
theorem RawPattern.compiled_match_ignores_comment :
    let run (root : Node) := (⟨some 3⟩ : Engine).run false ⟨0, .lenient, root⟩ Sample.printRules
    Node.Alike Sample.printRules.constrained Sample.notedCall Sample.brokenCall ∧
      SameEnd (List.Forall₂ (Find.Corresponds
        (Node.SamePlace Sample.notedCall Sample.brokenCall) Eq)) (run Sample.notedCall).1
        (run Sample.brokenCall).1 ∧
      (run Sample.notedCall).2 = (run Sample.brokenCall).2 ∧
      (run Sample.brokenCall).1.toOption.map List.length = some 1 ∧
      ∃ e, (run Sample.nameless).1 = .error (.access e) ∧
        Sample.printRules.BlockedOn Sample.nameless e := by
  intro run
  obtain ⟨hsame, hblocked⟩ :=
    compiled_match_ignores Sample.compile_printPattern ⟨some 3⟩ false 0
  have hcounts : (run Sample.nameless).1.map List.length = .error (.access
      ⟨"attribute Name is an array holding values that are not nodes", none⟩) := by decide +kernel
  have hfails : ∃ e, (run Sample.nameless).1 = .error (.access e) := by
    generalize (run Sample.nameless).1 = result at hcounts ⊢
    cases result with
    | ok finds => cases hcounts
    | error e => exact ⟨_, congrArg Except.error (Except.error.inj hcounts)⟩
  obtain ⟨e, he⟩ := hfails
  obtain ⟨hend, htally⟩ := hsame _ _ Sample.alike_calls
  exact ⟨Sample.alike_calls, hend, htally, by decide +kernel, e, he,
    hblocked _ _ Sample.ofJson_namelessDocument e he⟩

end TreePattern

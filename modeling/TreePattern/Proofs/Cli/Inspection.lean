import Mathlib.Control.Monad.Basic
import TreePattern.Proofs.Cli.Sink
import TreePattern.Proofs.Cli.Stage
import TreePattern.Proofs.Match.Limit
import TreePattern.Proofs.Match.Provenance
import TreePattern.Proofs.Tree.Arena

namespace TreePattern

open Relation

theorem exists_exceptBind_iff {ε α β : Type} {x : Except ε α} {f : α → Except ε β} :
    (∃ b, x >>= f = .ok b) ↔ ∃ a, x = .ok a ∧ ∃ b, f a = .ok b := by
  simp only [exceptBind_eq_ok]
  exact exists_comm.trans (exists_congr fun a ↦ exists_and_left)

theorem mapError_eq_ok {ε ε' α : Type} {x : Except ε α} {wrap : ε → ε'} {a : α} :
    x.mapError wrap = .ok a ↔ x = .ok a := by
  cases x <;> simp [Except.mapError]

theorem mapError_eq_error {ε ε' α : Type} {x : Except ε α} {wrap : ε → ε'} {error : ε'} :
    x.mapError wrap = .error error ↔ ∃ reason, x = .error reason ∧ wrap reason = error := by
  cases x <;> simp [Except.mapError]

theorem exists_pure_eq_ok {ε α : Type} (a : α) : ∃ b, (pure a : Except ε α) = .ok b :=
  ⟨a, rfl⟩

def Node.first (n : Node) (name : String) : Option Field :=
  (n.fields.find? fun field ↦ field.1 == name).map (·.2)

/-- What is shown of a node can be read: its name, and its value unless the name is a scalar. -/
def Node.Legible (n : Node) : Prop :=
  (∀ error, n.first "Name" ≠ some (.broken error)) ∧
    ((∃ name, n.first "Name" = some (.scalar name)) ∨
      ∀ error, n.first "Value" ≠ some (.broken error))

def Find.Legible (f : Find) : Prop :=
  (∃ kind, f.node.kind = .ok kind) ∧ f.node.Legible

namespace Cli.Record

variable {n : Node}

theorem summaryOf_cons (n : Node) (name : String) (rest : List String) :
    summaryOf .lenient n (name :: rest) =
      match n.first name with
      | some (.broken error) => .error error
      | some (.scalar value) => .ok (some (name ++ "=" ++ value.display))
      | _ => summaryOf .lenient n rest := by
  rw [summaryOf, View.lookup, Node.first]
  cases n.fields.find? fun field ↦ field.1 == name with
  | none => rfl
  | some field =>
    obtain ⟨name', stored⟩ := field
    cases stored <;> rfl

theorem exists_summaryOf_iff :
    (∃ summary, summaryOf .lenient n ["Name", "Value"] = .ok summary) ↔ n.Legible := by
  rw [summaryOf_cons, summaryOf_cons, Node.Legible]
  rcases n.first "Name" with _ | (_ | _ | _ | _)
  case some.scalar => simp
  case some.broken => simp
  all_goals rcases n.first "Value" with _ | (_ | _ | _ | _)
  all_goals simp [summaryOf]

mutual

theorem exists_ofFind_iff : (f : Find) →
    ((∃ record, ofFind .lenient f = .ok record) ↔ f.Throughout Find.Legible)
  | ⟨node, id, origin, name, ⟨groups⟩⟩ => by
    have hgroups := exists_ofGroups_iff groups
    have hcaptures : (∃ below, ofCaptures .lenient ⟨groups⟩ = .ok below) ↔
        ∀ g ∈ (⟨groups⟩ : Captures), g.Throughout Find.Legible := by
      simp only [ofCaptures, exists_exceptBind_iff, exists_pure_eq_ok, and_true, hgroups]
      exact ⟨fun h g ⟨group, hm, hg⟩ ↦ h group hm g hg, fun h group hm g hg ↦ h g ⟨group, hm, hg⟩⟩
    rw [Find.throughout_iff, Find.Legible, ← exists_summaryOf_iff, ← hcaptures]
    simp only [ofFind, exists_exceptBind_iff, exists_pure_eq_ok, and_true, exists_and_right]
    exact and_comm

theorem exists_ofGroups_iff : (groups : List (String × List Find)) →
    ((∃ records, ofGroups .lenient groups = .ok records) ↔
      ∀ group ∈ groups, ∀ f ∈ group.2, f.Throughout Find.Legible)
  | [] => by simp [ofGroups]
  | (name, finds) :: rest => by
    have hfinds := exists_ofFinds_iff finds
    have hrest := exists_ofGroups_iff rest
    simp only [ofGroups, exists_exceptBind_iff, exists_pure_eq_ok, and_true, exists_and_right,
      hfinds, hrest, List.forall_mem_cons]

theorem exists_ofFinds_iff : (finds : List Find) →
    ((∃ records, ofFinds .lenient finds = .ok records) ↔ ∀ f ∈ finds, f.Throughout Find.Legible)
  | [] => by simp [ofFinds]
  | f :: rest => by
    have hfind := exists_ofFind_iff f
    have hrest := exists_ofFinds_iff rest
    simp only [ofFinds, exists_exceptBind_iff, exists_pure_eq_ok, and_true, exists_and_right, hfind,
      hrest, List.forall_mem_cons]

end

end Cli.Record

section Contained

variable {raw : RawPattern} {p : Pattern} {engine : Engine} {tree : SyntaxTree} {found : Matches}

/-- A match that succeeds under a limit finds what it finds without one. -/
theorem Engine.execute_unlimited (h : engine.execute tree p = .ok found) :
    (⟨none⟩ : Engine).execute tree p = .ok found := by
  obtain ⟨_ | limit⟩ := engine
  · exact h
  · by_cases hle : tree.visits p ≤ limit
    · rwa [execute_eq_of_visits_le hle] at h
    · rw [execute_error_of_lt_visits (Nat.lt_of_not_le hle)] at h
      cases h

/-- Every node that a match shows, at any depth of its captures, is in the tree. -/
theorem RawPattern.compiled_finds_contained (compiled : raw.compile = .ok p)
    (h : engine.execute tree p = .ok found) :
    ∀ f ∈ found.finds, f.Throughout fun g ↦ tree.root.Contains g.node := by
  obtain ⟨finds, tally, hrun, rfl⟩ := Engine.execute_eq_ok.mp (Engine.execute_unlimited h)
  let s := (⟨none⟩ : Engine).setting false tree.view p
  have hp := compile_sound compiled
  have hfinds : ∀ f ∈ finds, f.Within s [tree.root] :=
    (Setting.findAt_grounds (s := s) hp rfl hp.nonempty [tree.root]).of_ok hrun
  intro f hf g hg
  obtain ⟨hrooted, n, hn, hcontains⟩ := hfinds f hf
  rw [List.mem_singleton.mp hn] at hcontains
  rcases reflTransGen_iff_eq_or_transGen.mp hg with rfl | hg
  · exact hcontains
  · exact hcontains.trans (hrooted.below hg).to_reflTransGen

end Contained

namespace Cli

def OutputFormat.texts (format : OutputFormat) (records : List Record) : List String :=
  match format with
  | .human => Record.lines records
  | .json => [Record.jsonText records, "\n"]

theorem Sink.writeAll_endless {sink : Sink} (h : sink.room = none) (texts : List String) :
    sink.writeAll texts =
      ({ sink with written := sink.written ++ texts.flatMap bytesOf }, true) := by
  rw [writeAll_eq_write, write_endless _ _ h, bytesOf_join]

theorem render_endless (format : OutputFormat) (records : List Record) {out : Sink}
    (h : out.room = none) :
    render format records out =
      ({ out with written := out.written ++ (format.texts records).flatMap Sink.bytesOf },
        .ok ()) := by
  cases format with
  | human => rw [render, Sink.writeAll_endless h, OutputFormat.texts]
  | json =>
    have hboth : render .json records out =
        ((out.writeAll (OutputFormat.json.texts records)).1, .ok ()) := by
      obtain ⟨room, written, refusal⟩ := out
      cases h
      rfl
    rw [hboth, Sink.writeAll_endless h]

/-- What a match needs is there. The log does not matter for it. -/
structure Host.Supplies (host : Host) (args : List String) (i : Invocation) (config : Config)
    (pattern : Pattern) (root : Node) : Prop where
  parsed : host.parse args = .ok i
  loaded : host.load i.configWords = .ok config
  patternRead : ∃ text, host.readFile i.pattern = .ok text ∧ Pattern.read text = .ok pattern
  treeRead : ∃ text, host.textIn i.inputFile = .ok text ∧ Tree.read text = .ok root

structure Prepared (host : Host) (args : List String) (i : Invocation) (config : Config)
    (pattern : Pattern) (root : Node) : Prop
    extends Host.Supplies host args i config pattern root where
  listening : ∃ listener, host.listenerFor config = .ok listener

variable {host : Host} {args : List String} {i : Invocation} {config : Config}
  {pattern : Pattern} {root : Node} {id : ℕ} {found : Matches} {output errors : Sink}

theorem Prepared.recordsFor (h : Prepared host args i config pattern root)
    (hx : (⟨config.maxSearchNodes⟩ : Engine).execute ⟨id, .lenient, root⟩ pattern = .ok found) :
    host.recordsFor i = ((Record.ofFinds .lenient found.finds).mapError .inspect).map
      fun records ↦ (config.output, records) := by
  obtain ⟨listener, hlistener⟩ := h.listening
  obtain ⟨patternText, hpatternText, hpattern⟩ := h.patternRead
  obtain ⟨treeText, htreeText, htree⟩ := h.treeRead
  obtain ⟨finds, tally, hrun, rfl⟩ := Engine.execute_eq_ok.mp hx
  have hconfig : host.configFor i = .ok config := by
    rw [Host.configFor, h.loaded]
    change ((host.listenerFor config).mapError _ >>= fun _ ↦ Except.ok config) = _
    rw [hlistener]
    rfl
  have hpattern' : host.patternIn i.pattern = .ok pattern := by
    rw [World.patternIn, hpatternText]
    exact congrArg (Except.mapError _) hpattern
  have hroot (source : String) : host.treeIn source i.inputFile = .ok root := by
    rw [World.treeIn, htreeText]
    exact congrArg (Except.mapError _) htree
  have hfinds : findsIn config.maxSearchNodes pattern root = .ok finds :=
    congrArg (fun ending : Except MatchError (List Find) × Tally ↦
      ending.1.mapError Failure.matching) hrun
  have hok {α β : Type} (a : α) (next : α → Except Failure β) :
      (Except.ok a >>= next) = next a := rfl
  rw [Host.recordsFor, hconfig, hok, hpattern', hok, hroot, hok, hfinds, hok]
  cases Record.ofFinds .lenient finds <;> rfl

/-- The kinds of all nodes in a tree that was read are known, so only the attributes decide. -/
theorem Prepared.legible_iff (h : Prepared host args i config pattern root)
    (hx : (⟨config.maxSearchNodes⟩ : Engine).execute ⟨id, .lenient, root⟩ pattern = .ok found) :
    (∃ records, Record.ofFinds .lenient found.finds = .ok records) ↔
      ∀ f ∈ found.finds, f.Throughout fun g ↦ g.node.Legible := by
  rw [Record.exists_ofFinds_iff]
  obtain ⟨patternText, -, hpattern⟩ := h.patternRead
  obtain ⟨treeText, -, htree⟩ := h.treeRead
  obtain ⟨raw, -, hraw⟩ := exceptBind_eq_ok.mp hpattern
  have hcompiled := mapError_eq_ok.mp hraw
  obtain ⟨document, -, hdocument⟩ := exceptBind_eq_ok.mp htree
  have hcontained := RawPattern.compiled_finds_contained hcompiled hx
  refine forall₂_congr fun f hf ↦ forall₂_congr fun g hg ↦ and_iff_right ?_
  exact Tree.kind_of_contains_ofJson hdocument (hcontained f hf g hg)

/-- A match that succeeds is written in full if what is shown of every find can be read. Otherwise
the run fails and writes nothing, whether or not the pattern asks for the attribute that cannot be
read. -/
theorem run_renders_legible (h : Prepared host args i config pattern root)
    (hx : (⟨config.maxSearchNodes⟩ : Engine).execute ⟨id, .lenient, root⟩ pattern = .ok found)
    (hr : output.room = none) :
    let report := host.run args output errors
    ((∀ f ∈ found.finds, f.Throughout fun g ↦ g.node.Legible) →
      ∃ records, Record.ofFinds .lenient found.finds = .ok records ∧
        report.success = true ∧ report.errors = errors ∧
        report.output = { output with
          written := output.written ++ (config.output.texts records).flatMap Sink.bytesOf }) ∧
    ((¬ ∀ f ∈ found.finds, f.Throughout fun g ↦ g.node.Legible) →
      ∃ error : AccessError, report.success = false ∧ report.output = output ∧
        report.errors = (errors.write ((Failure.inspect error).message ++ "\n")).1) := by
  obtain ⟨log, hrun⟩ := run_eq h.parsed output errors
  rw [hrun, h.recordsFor hx, ← h.legible_iff hx]
  cases Record.ofFinds .lenient found.finds with
  | ok records =>
    refine ⟨fun _ ↦ ⟨records, rfl, ?_⟩, fun hnot ↦ absurd ⟨records, rfl⟩ hnot⟩
    dsimp only [Except.mapError, Except.map]
    rw [render_endless config.output records hr]
    exact ⟨rfl, rfl, rfl⟩
  | error error =>
    exact ⟨fun ⟨_, hrecords⟩ ↦ (by cases hrecords), fun _ ↦ ⟨error, rfl, rfl, rfl⟩⟩

theorem decode_toUTF8 (text : String) : decode text.toUTF8 = .ok text := by
  have hread : String.fromUTF8? text.toUTF8 = some text := by
    rw [String.fromUTF8?, dif_pos (show text.toUTF8.IsValidUTF8 from text.isValidUTF8)]
    rfl
  rw [decode, hread]

end Cli

namespace Sample

open Cli

def identText : String :=
  "\x7b\"NodeType\":\"Ident\"\x7d"

def rootIdentRules : Pattern :=
  ⟨#[⟨none, .literal ⟨some "Ident", []⟩⟩]⟩

theorem read_identText : Pattern.read identText = .ok rootIdentRules := by
  let raw : RawPattern := ⟨#[some ⟨none, .literal ⟨some "Ident", []⟩⟩], 0⟩
  have hraw : RawPattern.read identText = .ok raw := by decide +kernel
  have ho : raw.discoveryOrder = .ok [0] := by
    change RawPattern.discover _ [0] [⟨0, []⟩] = _
    rw [RawPattern.discover, RawPattern.discover]
    rfl
  rw [Pattern.read, hraw]
  change raw.compile.mapError _ = _
  rw [RawPattern.compile, ho]
  rfl

def identWorld (tree : String) : World where
  look path :=
    if path = "p.json" then .ok (path, .file identText.toUTF8)
    else if path = "t.json" then .ok (path, .file tree.toUTF8)
    else .error .missing
  fileCount := 2
  directory := "/"
  environment := []
  input := .ok .empty

def identLine : List String :=
  ["match", "--pattern", "p.json", "--input", "t.json", "--output", "json"]

def identInvocation : Invocation :=
  ⟨none, none, none, "p.json", some "t.json", some .json, none⟩

theorem listenerFor_info (world : World) (output : OutputFormat) :
    world.host.listenerFor { output } = .ok (.own [{ rank := 3 }] .json) := by
  have hread : LogFilter.read "info" = .ok [{ rank := 3 }] := by decide +kernel
  simp only [Host.listenerFor, World.host, hread]
  rfl

theorem prepared_identWorld {tree : String} {root : Node}
    (hload : (identWorld tree).host.load identInvocation.configWords = .ok { output := .json })
    (htree : Tree.read tree = .ok root) :
    Prepared (identWorld tree).host identLine identInvocation { output := .json } rootIdentRules
      root where
  parsed := rfl
  loaded := hload
  listening := ⟨_, listenerFor_info _ _⟩
  patternRead := ⟨identText, decode_toUTF8 identText, read_identText⟩
  treeRead := ⟨tree, decode_toUTF8 tree, htree⟩

def identFind (n : Node) : Find :=
  ⟨n, 0, ⟨none, .literal ⟨some "Ident", []⟩⟩, none, .empty⟩

theorem exists_read_ident (tree : String) (shown : Except AccessError (Option String))
    (h : (Tree.read tree).map (fun n ↦ (n.kind, Record.summaryOf .lenient n ["Name", "Value"])) =
      .ok (.ok "Ident", shown)) :
    ∃ root, Tree.read tree = .ok root ∧ root.kind = .ok "Ident" ∧
      Record.summaryOf .lenient root ["Name", "Value"] = shown ∧
      (⟨none⟩ : Engine).execute ⟨0, .lenient, root⟩ rootIdentRules =
        .ok ⟨⟨0, .lenient, root⟩, [identFind root]⟩ := by
  cases hread : Tree.read tree with
  | error error =>
    rw [hread] at h
    cases h
  | ok root =>
    obtain ⟨index, kind, fields⟩ := root
    rw [hread, Except.map, Except.ok.injEq, Prod.mk.injEq] at h
    obtain ⟨rfl, hshown⟩ := h
    exact ⟨_, rfl, rfl, hshown, rfl⟩

def namedText : String :=
  "\x7b\"NodeType\":\"Ident\",\"Name\":\"x\"\x7d"

def unnamedText : String :=
  "\x7b\"NodeType\":\"Ident\",\"Name\":[1]\x7d"

end Sample

namespace Cli

open Sample

theorem run_renders_legible_named :
    ∃ root, Prepared (identWorld namedText).host identLine identInvocation { output := .json }
        rootIdentRules root ∧
      (⟨none⟩ : Engine).execute ⟨0, .lenient, root⟩ rootIdentRules =
        .ok ⟨⟨0, .lenient, root⟩, [identFind root]⟩ ∧
      let report := run (identWorld namedText) identLine (.empty none) (.empty none)
      ∃ records, Record.ofFinds .lenient [identFind root] = .ok records ∧
        report.success = true ∧ report.errors = .empty none ∧ report.output = { Sink.empty none with
          written := (Sink.empty none).written ++
            (OutputFormat.json.texts records).flatMap Sink.bytesOf } := by
  obtain ⟨root, hread, -, hshown, hx⟩ :=
    exists_read_ident namedText (.ok (some "Name=x")) (by decide +kernel)
  have hprepared : Prepared (identWorld namedText).host identLine identInvocation
      { output := .json } rootIdentRules root := prepared_identWorld (by decide +kernel) hread
  refine ⟨root, hprepared, hx, (run_renders_legible hprepared hx rfl).1 fun f hf ↦ ?_⟩
  rw [List.mem_singleton.mp hf, Find.throughout_iff]
  exact ⟨Record.exists_summaryOf_iff.mp ⟨_, hshown⟩, fun g hg ↦ absurd hg Groups.not_mem_empty⟩

/-- The pattern asks for no attribute, and the match succeeds, but the run fails at the name. -/
theorem run_fails_unnamed :
    ∃ root, Prepared (identWorld unnamedText).host identLine identInvocation { output := .json }
        rootIdentRules root ∧
      (⟨none⟩ : Engine).execute ⟨0, .lenient, root⟩ rootIdentRules =
        .ok ⟨⟨0, .lenient, root⟩, [identFind root]⟩ ∧
      let report := run (identWorld unnamedText) identLine (.empty none) (.empty none)
      report.success = false ∧ report.output = .empty none ∧
        report.errors = ((Sink.empty none).write ("failed to inspect matched node: " ++
          "attribute Name is an array holding values that are not nodes" ++ "\n")).1 := by
  let error : AccessError := ⟨"attribute Name is an array holding values that are not nodes", none⟩
  obtain ⟨root, hread, hkind, hshown, hx⟩ :=
    exists_read_ident unnamedText (.error error) (by decide +kernel)
  have hprepared : Prepared (identWorld unnamedText).host identLine identInvocation
      { output := .json } rootIdentRules root := prepared_identWorld (by decide +kernel) hread
  refine ⟨root, hprepared, hx, ?_⟩
  obtain ⟨log, hrun⟩ := run_eq hprepared.parsed (.empty none) (.empty none)
  have herror : Record.ofFinds .lenient [identFind root] = .error error := by
    simp only [identFind, Record.ofFinds, Record.ofFind, hshown, hkind]
    rfl
  rw [run, hrun, hprepared.recordsFor hx, herror]
  exact ⟨rfl, rfl, rfl⟩

end Cli

end TreePattern

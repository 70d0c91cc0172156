import TreePattern.Proofs.Cli.Inspection

namespace TreePattern

namespace Cli

inductive Phase where
  | usage
  | configuration
  | logging
  | patternFile
  | pattern
  | treeFile
  | tree
  | matching
  | inspection
deriving DecidableEq

def Phase.rank : Phase → ℕ
  | .usage => 0
  | .configuration => 1
  | .logging => 2
  | .patternFile => 3
  | .pattern => 4
  | .treeFile => 5
  | .tree => 6
  | .matching => 7
  | .inspection => 8

/-- A part of a run on the given words has a fault with the given message. A part is judged by what
it needs itself, whatever the others come to: the tree may have a fault in a run without a
pattern. -/
inductive Host.Fault (host : Host) (args : List String) : Phase → String → Prop
  | usage {text : String} : host.parse args = .error ⟨text, false⟩ → Fault host args .usage text
  | configuration {i : Invocation} {report : String} : host.parse args = .ok i →
      host.load i.configWords = .error report →
      Fault host args .configuration ("failed to load configuration: " ++ report)
  | filter {i : Invocation} {config : Config} {reason : String} : host.parse args = .ok i →
      host.load i.configWords = .ok config →
      (∀ filter format, host.listener ≠ .own filter format) →
      host.readFilter config.logFilter = .error reason →
      Fault host args .logging ("failed to initialise logging: invalid log filter " ++
        Text.quoted config.logFilter ++ ": " ++ reason)
  | install {i : Invocation} {config : Config} {filter : LogFilter} {refusal : String} :
      host.parse args = .ok i → host.load i.configWords = .ok config →
      host.listener = .other refusal → host.readFilter config.logFilter = .ok filter →
      Fault host args .logging
        ("failed to initialise logging: failed to install log subscriber: " ++ refusal)
  | patternFile {i : Invocation} {fault : ReadFault} : host.parse args = .ok i →
      host.readFile i.pattern = .error fault →
      Fault host args .patternFile ("failed to read pattern " ++ i.pattern ++ ": " ++ fault.message)
  | pattern {i : Invocation} {text : String} {error : PatternError} :
      host.parse args = .ok i → host.readFile i.pattern = .ok text →
      Pattern.read text = .error error →
      Fault host args .pattern ("invalid pattern " ++ i.pattern ++ ": " ++ error.message)
  | treeFile {i : Invocation} {fault : ReadFault} : host.parse args = .ok i →
      host.textIn i.inputFile = .error fault →
      Fault host args .treeFile ("failed to read syntax tree from " ++
        i.inputFile.getD "<stdin>" ++ ": " ++ fault.message)
  | tree {i : Invocation} {text : String} {error : LoadError} : host.parse args = .ok i →
      host.textIn i.inputFile = .ok text → Tree.read text = .error error →
      Fault host args .tree ("invalid syntax tree from " ++ i.inputFile.getD "<stdin>" ++ ": " ++
        error.message)
  | matching {i : Invocation} {config : Config} {pattern : Pattern} {root : Node}
      {error : MatchError} : host.Supplies args i config pattern root →
      (⟨config.maxSearchNodes⟩ : Engine).execute ⟨0, .lenient, root⟩ pattern = .error error →
      Fault host args .matching ("matching failed: " ++ error.message)
  | inspection {i : Invocation} {config : Config} {pattern : Pattern} {root : Node}
      {found : Matches} {error : AccessError} : host.Supplies args i config pattern root →
      (⟨config.maxSearchNodes⟩ : Engine).execute ⟨0, .lenient, root⟩ pattern = .ok found →
      Record.ofFinds .lenient found.finds = .error error →
      Fault host args .inspection ("failed to inspect matched node: " ++ error.message)

/-- A fault before which there is none. -/
structure Host.FirstFault (host : Host) (args : List String) (phase : Phase) (message : String) :
    Prop where
  fault : host.Fault args phase message
  first : ∀ earlier other, earlier.rank < phase.rank → ¬ host.Fault args earlier other

variable {host : Host} {args : List String} {phase phase' : Phase} {message message' : String}

theorem Phase.rank_injective : Function.Injective Phase.rank := by
  intro a b h
  cases a <;> cases b <;> simp_all [Phase.rank]

theorem Host.Supplies.unique {i i' : Invocation} {config config' : Config}
    {pattern pattern' : Pattern} {root root' : Node} (h : host.Supplies args i config pattern root)
    (h' : host.Supplies args i' config' pattern' root') :
    config = config' ∧ pattern = pattern' ∧ root = root' := by
  cases h.parsed.symm.trans h'.parsed
  cases h.loaded.symm.trans h'.loaded
  obtain ⟨patternText, hpatternText, hpattern⟩ := h.patternRead
  obtain ⟨treeText, htreeText, htree⟩ := h.treeRead
  obtain ⟨patternText', hpatternText', hpattern'⟩ := h'.patternRead
  obtain ⟨treeText', htreeText', htree'⟩ := h'.treeRead
  cases hpatternText.symm.trans hpatternText'
  cases htreeText.symm.trans htreeText'
  cases hpattern.symm.trans hpattern'
  cases htree.symm.trans htree'
  exact ⟨rfl, rfl, rfl⟩

theorem Host.Fault.unique (h : host.Fault args phase message)
    (h' : host.Fault args phase message') : message = message' := by
  cases h with
  | matching hs hx =>
    cases h' with
    | matching hs' hx' =>
      obtain ⟨rfl, rfl, rfl⟩ := hs.unique hs'
      cases hx.symm.trans hx'
      rfl
  | inspection hs hx he =>
    cases h' with
    | inspection hs' hx' he' =>
      obtain ⟨rfl, rfl, rfl⟩ := hs.unique hs'
      cases hx.symm.trans hx'
      cases he.symm.trans he'
      rfl
  | usage | configuration | filter | install | patternFile | pattern | treeFile | tree =>
    cases h' <;> simp_all

theorem Host.FirstFault.unique (h : host.FirstFault args phase message)
    (h' : host.FirstFault args phase' message') : phase = phase' ∧ message = message' := by
  have hrank : phase.rank = phase'.rank := by
    rcases Nat.lt_trichotomy phase.rank phase'.rank with hlt | heq | hlt
    · exact absurd h.fault (h'.first _ _ hlt)
    · exact heq
    · exact absurd h'.fault (h.first _ _ hlt)
  cases Phase.rank_injective hrank
  exact ⟨rfl, h.fault.unique h'.fault⟩

def Host.ClearTo (host : Host) (args : List String) (rank : ℕ) : Prop :=
  ∀ phase message, phase.rank < rank → ¬ host.Fault args phase message

theorem Host.ClearTo.next (phase : Phase) (h : host.ClearTo args phase.rank)
    (hn : ∀ message, ¬ host.Fault args phase message) : host.ClearTo args (phase.rank + 1) := by
  intro other message hlt
  rcases Nat.lt_succ_iff_lt_or_eq.mp hlt with hlt | heq
  · exact h other message hlt
  · cases Phase.rank_injective heq
    exact hn message

theorem Host.clearTo_zero (host : Host) (args : List String) : host.ClearTo args 0 :=
  fun _ _ hlt ↦ absurd hlt (Nat.not_lt_zero _)

/-- What a part of a run comes to: the first fault of the run, or a result with the given
property. -/
def Host.Settles {α : Type} (host : Host) (args : List String) (outcome : Except Failure α)
    (P : α → Prop) : Prop :=
  match outcome with
  | .error failure => ∃ phase, host.FirstFault args phase failure.message
  | .ok a => P a

section Settles

variable {α β ε : Type} {P : α → Prop} {Q : β → Prop} {x : Except ε α}

theorem Host.Settles.bind {outcome : Except Failure α} {next : α → Except Failure β}
    (h : host.Settles args outcome P) (hn : ∀ a, P a → host.Settles args (next a) Q) :
    host.Settles args (outcome >>= next) Q := by
  cases outcome with
  | error failure => exact h
  | ok a => exact hn a h

theorem Host.Settles.mono {P' : α → Prop} {outcome : Except Failure α}
    (h : host.Settles args outcome P) (hp : ∀ a, P a → P' a) : host.Settles args outcome P' := by
  cases outcome with
  | error failure => exact h
  | ok a => exact hp a h

/-- A part that comes after parts without faults, and that has a fault just if it fails. -/
theorem Host.ClearTo.settles (phase : Phase) (wrap : ε → Failure) (h : host.ClearTo args phase.rank)
    (hfault : ∀ error, x = .error error → host.Fault args phase (wrap error).message)
    (hclear : ∀ a, x = .ok a → ∀ message, ¬ host.Fault args phase message) :
    host.Settles args (x.mapError wrap) fun a ↦ x = .ok a ∧ host.ClearTo args (phase.rank + 1) := by
  cases hx : x with
  | error error => exact ⟨phase, hfault error hx, h⟩
  | ok a => exact ⟨rfl, h.next phase (hclear a hx)⟩

end Settles

section Logging

variable {i : Invocation} {config : Config} (hparse : host.parse args = .ok i)
  (hload : host.load i.configWords = .ok config)

include hparse hload

theorem Host.fault_of_listenerFor {fault : LoggingFault}
    (h : host.listenerFor config = .error fault) :
    host.Fault args .logging (Failure.logging fault).message := by
  unfold listenerFor at h
  split at h
  · cases h
  · next hl =>
    rcases exceptBind_eq_error.mp h with h | ⟨filter, -, h⟩
    · obtain ⟨reason, hf, rfl⟩ := mapError_eq_error.mp h
      exact .filter hparse hload (by simp [hl]) hf
    · cases h
  · next refusal hl =>
    rcases exceptBind_eq_error.mp h with h | ⟨filter, hf, h⟩
    · obtain ⟨reason, hf, rfl⟩ := mapError_eq_error.mp h
      exact .filter hparse hload (by simp [hl]) hf
    · cases h
      exact .install hparse hload hl (mapError_eq_ok.mp hf)

theorem Host.not_fault_of_listenerFor {listener : Listener}
    (h : host.listenerFor config = .ok listener) (message : String) :
    ¬ host.Fault args .logging message := by
  intro hf
  cases hf with
  | filter hparse' hload' hown hfilter =>
    cases hparse.symm.trans hparse'
    cases hload.symm.trans hload'
    unfold listenerFor at h
    split at h
    · next hl => exact hown _ _ hl
    · rw [hfilter] at h
      cases h
    · rw [hfilter] at h
      cases h
  | install hparse' hload' hl hfilter =>
    cases hparse.symm.trans hparse'
    cases hload.symm.trans hload'
    simp only [listenerFor, hl, hfilter] at h
    cases h

end Logging

section Parts

variable {i : Invocation} (hparse : host.parse args = .ok i)

include hparse

theorem Host.configFor_settles : host.Settles args (host.configFor i) fun config ↦
    host.load i.configWords = .ok config ∧ (∃ listener, host.listenerFor config = .ok listener) ∧
      host.ClearTo args Phase.patternFile.rank := by
  have husage : host.ClearTo args Phase.configuration.rank := by
    refine (host.clearTo_zero args).next .usage fun message h ↦ ?_
    cases h
    simp_all
  refine (husage.settles .configuration .config (fun report h ↦ .configuration hparse h)
    fun config h message hf ↦ ?_).bind fun config ⟨hload, hconfiguration⟩ ↦ ?_
  · cases hf
    simp_all
  have hlogging := hconfiguration.settles .logging .logging
    (fun fault ↦ Host.fault_of_listenerFor hparse hload)
    fun listener ↦ Host.not_fault_of_listenerFor hparse hload
  exact hlogging.bind fun listener ⟨hlistener, hpattern⟩ ↦ ⟨hload, ⟨listener, hlistener⟩, hpattern⟩

theorem Host.patternIn_settles (h : host.ClearTo args Phase.patternFile.rank) :
    host.Settles args (host.patternIn i.pattern) fun pattern ↦
      (∃ text, host.readFile i.pattern = .ok text ∧ Pattern.read text = .ok pattern) ∧
        host.ClearTo args Phase.treeFile.rank := by
  refine (h.settles .patternFile (.readPattern i.pattern) (fun fault h ↦ .patternFile hparse h)
    fun text h message hf ↦ ?_).bind fun text ⟨htext, hfile⟩ ↦ ?_
  · cases hf
    simp_all
  refine (hfile.settles .pattern (.pattern i.pattern) (fun error h ↦ .pattern hparse htext h)
    fun pattern h message hf ↦ ?_).mono fun pattern ⟨hpattern, hclear⟩ ↦
      ⟨⟨text, htext, hpattern⟩, hclear⟩
  cases hf
  simp_all

theorem Host.treeIn_settles (h : host.ClearTo args Phase.treeFile.rank) :
    host.Settles args (host.treeIn (i.inputFile.getD "<stdin>") i.inputFile) fun root ↦
      (∃ text, host.textIn i.inputFile = .ok text ∧ Tree.read text = .ok root) ∧
        host.ClearTo args Phase.matching.rank := by
  refine (h.settles .treeFile (.readTree _) (fun fault h ↦ .treeFile hparse h)
    fun text h message hf ↦ ?_).bind fun text ⟨htext, hfile⟩ ↦ ?_
  · cases hf
    simp_all
  refine (hfile.settles .tree (.tree _) (fun error h ↦ .tree hparse htext h)
    fun root h message hf ↦ ?_).mono fun root ⟨htree, hclear⟩ ↦ ⟨⟨text, htext, htree⟩, hclear⟩
  cases hf
  simp_all

omit hparse in
theorem Host.findsIn_settles {config : Config} {pattern : Pattern} {root : Node}
    (hs : host.Supplies args i config pattern root) (h : host.ClearTo args Phase.matching.rank) :
    host.Settles args (do
      let finds ← findsIn config.maxSearchNodes pattern root
      let records ← (Record.ofFinds .lenient finds).mapError .inspect
      return (config.output, records)) fun (format, records) ↦ format = config.output ∧
        (∃ found,
          (⟨config.maxSearchNodes⟩ : Engine).execute ⟨0, .lenient, root⟩ pattern = .ok found ∧
          Record.ofFinds .lenient found.finds = .ok records) ∧
        ∀ phase message, ¬ host.Fault args phase message := by
  let setting := (⟨config.maxSearchNodes⟩ : Engine).setting false .lenient pattern
  have hexecute {outcome : Except MatchError (List Find)} (h : (setting.findAll root).1 = outcome) :
      (⟨config.maxSearchNodes⟩ : Engine).execute ⟨0, .lenient, root⟩ pattern =
        outcome.map (Matches.mk ⟨0, .lenient, root⟩) :=
    congrArg (Except.map (Matches.mk ⟨0, .lenient, root⟩)) h
  refine (h.settles .matching .matching (fun error h ↦ .matching hs (hexecute h))
    fun finds h message hf ↦ ?_).bind fun finds ⟨hfinds, hmatching⟩ ↦ ?_
  · cases hf with
    | matching hs' hx =>
      obtain ⟨rfl, rfl, rfl⟩ := hs.unique hs'
      cases (hexecute h).symm.trans hx
  refine (hmatching.settles .inspection .inspect (fun error h ↦ .inspection hs (hexecute hfinds) h)
    fun records h message hf ↦ ?_).bind fun records ⟨hrecords, hinspection⟩ ↦ ?_
  · cases hf with
    | inspection hs' hx he =>
      obtain ⟨rfl, rfl, rfl⟩ := hs.unique hs'
      cases (hexecute hfinds).symm.trans hx
      cases h.symm.trans he
  -- Inspection is the last part, so there is none that has not been cleared.
  refine ⟨rfl, ⟨_, hexecute hfinds, hrecords⟩, fun phase message ↦ hinspection phase message ?_⟩
  cases phase <;> decide

end Parts

structure Completed (host : Host) (args : List String) (i : Invocation) (config : Config)
    (pattern : Pattern) (root : Node) (found : Matches) (records : List Record) : Prop
    extends Prepared host args i config pattern root where
  matched : (⟨config.maxSearchNodes⟩ : Engine).execute ⟨0, .lenient, root⟩ pattern = .ok found
  shown : Record.ofFinds .lenient found.finds = .ok records

/-- Before its results are written, a run of a match comes to its first fault, or has no fault. -/
theorem Host.recordsFor_settles {i : Invocation} (hparse : host.parse args = .ok i) :
    host.Settles args (host.recordsFor i) fun (format, records) ↦
      (∀ phase message, ¬ host.Fault args phase message) ∧ ∃ config pattern root found,
        Completed host args i config pattern root found records ∧ format = config.output := by
  refine (Host.configFor_settles hparse).bind fun config ⟨hload, hlistener, hlogging⟩ ↦ ?_
  refine (Host.patternIn_settles hparse hlogging).bind fun pattern ⟨hpattern, hloaded⟩ ↦ ?_
  refine (Host.treeIn_settles hparse hloaded).bind fun root ⟨htree, hread⟩ ↦ ?_
  have hs : host.Supplies args i config pattern root := ⟨hparse, hload, hpattern, htree⟩
  refine (Host.findsIn_settles hs hread).mono fun (format, records) h ↦ ?_
  obtain ⟨hformat, ⟨found, hx, hrecords⟩, hclear⟩ := h
  exact ⟨hclear, config, pattern, root, found, ⟨⟨hs, hlistener⟩, hx, hrecords⟩, hformat⟩

theorem Record.texts_nil (format : OutputFormat) : format.texts [] =
    match format with
    | .human => ["no matches\n"]
    | .json => ["[]", "\n"] := by
  cases format <;> rfl

/-- A run reports its first fault. If there is none, it writes what was asked for. -/
theorem run_cases (host : Host) (args : List String) (output errors : Sink) :
    let report := host.run args output errors
    (∃ phase message, host.FirstFault args phase message ∧ report.exitCode = 1 ∧
      report.output = output ∧ report.errors = (errors.write (message ++ "\n")).1) ∨
    (∀ phase message, ¬ host.Fault args phase message) ∧
      ((∃ text, host.parse args = .error ⟨text, true⟩ ∧ report.errors = errors ∧
          (report.output, report.success) = output.write text) ∨
        ∃ i config pattern root found records,
          Completed host args i config pattern root found records ∧
          host.recordsFor i = .ok (config.output, records)) := by
  intro report
  cases hparse : host.parse args with
  | error reply =>
    obtain ⟨text, _ | _⟩ := reply
    · have hreport : report =
          ⟨false, output, (errors.write (text ++ "\n")).1, ⟨host.listener, []⟩⟩ := by
        dsimp only [report]
        rw [Host.run, hparse]
      rw [hreport]
      exact .inl ⟨.usage, text, ⟨.usage hparse, host.clearTo_zero args⟩, rfl, rfl, rfl⟩
    · have hreport : report =
          ⟨(output.write text).2, (output.write text).1, errors, ⟨host.listener, []⟩⟩ := by
        dsimp only [report]
        rw [Host.run, hparse]
      -- Faults are those of a usage error or of a run for a match, and this is neither.
      have hclear : ∀ phase message, ¬ host.Fault args phase message := by
        intro phase message h
        cases h with
        | matching hs _ => cases hparse.symm.trans hs.parsed
        | inspection hs _ _ => cases hparse.symm.trans hs.parsed
        | _ => simp_all
      rw [hreport]
      exact .inr ⟨hclear, .inl ⟨text, rfl, rfl, rfl⟩⟩
  | ok i =>
    have hsettles : host.Settles args (host.recordsFor i) _ := Host.recordsFor_settles hparse
    cases hrecords : host.recordsFor i with
    | error failure =>
      rw [hrecords] at hsettles
      obtain ⟨phase, hfirst⟩ := hsettles
      exact .inl ⟨phase, failure.message, hfirst, run_refuses hparse hrecords output errors⟩
    | ok result =>
      obtain ⟨format, records⟩ := result
      rw [hrecords] at hsettles
      obtain ⟨hclear, config, pattern, root, found, hcompleted, rfl⟩ := hsettles
      exact .inr ⟨hclear, .inr ⟨i, config, pattern, root, found, records, hcompleted, hrecords⟩⟩

/-- A run ends with 0 or 1. If it ends with 1, it has written no results, and the error of the run
is that of the first fault that any of its parts has, on a line of its own. If it ends with 0, none
of its parts has a fault, there is no error, and what was asked for is written in full: information
on the program, or the records of everything that the match has found. -/
theorem run_reports_first (host : Host) (args : List String) {output errors : Sink}
    (hr : output.room = none) :
    let report := host.run args output errors
    (report.exitCode = 0 ∨ report.exitCode = 1) ∧
    (report.exitCode = 1 → report.output = output ∧
      ∃ phase message, host.FirstFault args phase message ∧
        (∀ phase' message', host.FirstFault args phase' message' →
          phase' = phase ∧ message' = message) ∧
        report.errors = (errors.write (message ++ "\n")).1 ∧
        ((errors.write (message ++ "\n")).2 = true →
          report.errors.written = errors.written ++ Sink.bytesOf (message ++ "\n"))) ∧
    (report.exitCode = 0 → (∀ phase message, ¬ host.Fault args phase message) ∧
      report.errors = errors ∧
      ((∃ text, host.parse args = .error ⟨text, true⟩ ∧
          report.output = { output with written := output.written ++ Sink.bytesOf text }) ∨
        ∃ i config pattern root found records,
          Completed host args i config pattern root found records ∧
          report.output = { output with
            written := output.written ++ (config.output.texts records).flatMap Sink.bytesOf } ∧
          (found.finds = [] → config.output.texts records = match config.output with
            | .human => ["no matches\n"]
            | .json => ["[]", "\n"]))) := by
  intro report
  have hcode {n m : UInt32} (h : report.exitCode = n) (hne : n ≠ m) : report.exitCode ≠ m :=
    fun hm ↦ hne (h.symm.trans hm)
  rcases run_cases host args output errors with
    ⟨phase, message, hfirst, hexit, houtput, herrors⟩ |
    ⟨hclear, ⟨text, hparse, herrors, hwrite⟩ |
      ⟨i, config, pattern, root, found, records, hcompleted, hrecords⟩⟩
  · refine ⟨.inr hexit, fun _ ↦ ⟨houtput, phase, message, hfirst, ?_, herrors, fun hfits ↦ ?_⟩,
      fun hzero ↦ absurd hzero (hcode hexit (by decide))⟩
    · exact fun phase' message' h ↦ h.unique hfirst
    · exact (congrArg Sink.written herrors).trans (Sink.write_complete _ _ hfits)
  · obtain ⟨houtput, hsuccess⟩ := Prod.mk.inj (hwrite.trans (Sink.write_endless _ _ hr))
    have hexit : report.exitCode = 0 := by rw [Report.exitCode, hsuccess, if_pos rfl]
    exact ⟨.inl hexit, fun hone ↦ absurd hone (hcode hexit (by decide)),
      fun _ ↦ ⟨hclear, herrors, .inl ⟨text, hparse, houtput⟩⟩⟩
  · have hrender := render_endless config.output records hr
    obtain ⟨houtput, hsuccess, -⟩ := run_render hcompleted.parsed hrecords output errors
    obtain ⟨hexit, herrors⟩ := hsuccess (congrArg Prod.snd hrender)
    refine ⟨.inl hexit, fun hone ↦ absurd hone (hcode hexit (by decide)), fun _ ↦ ⟨hclear, herrors,
      .inr ⟨i, config, pattern, root, found, records, hcompleted, ?_, fun hnil ↦ ?_⟩⟩⟩
    · exact houtput.trans (congrArg Prod.fst hrender)
    · have hshown := hcompleted.shown
      rw [hnil] at hshown
      cases hshown
      exact Record.texts_nil config.output

end Cli

namespace Sample

open Cli

def strayWorld : World where
  look path := if path = "p.json" then .ok (path, .file "[]".toUTF8) else .error .missing
  fileCount := 1
  directory := "/"
  environment := []
  input := .ok .empty

theorem read_brackets : Pattern.read "[]" = .error (.load (.notAnObject [])) := by
  have hraw : RawPattern.read "[]" = .error (.notAnObject []) := by decide +kernel
  rw [Pattern.read, hraw]
  rfl

theorem firstFault_strayWorld : strayWorld.host.FirstFault identLine .pattern
    "invalid pattern p.json: expected an object at $" := by
  have hparse : strayWorld.host.parse identLine = .ok identInvocation := rfl
  have hload : strayWorld.host.load identInvocation.configWords = .ok { output := .json } := by
    decide +kernel
  have hlistener := listenerFor_info strayWorld .json
  have htext : strayWorld.readFile identInvocation.pattern = .ok "[]" := decode_toUTF8 "[]"
  refine ⟨.pattern hparse htext read_brackets, fun earlier other hlt h ↦ ?_⟩
  cases h with
  | usage h => cases hparse.symm.trans h
  | configuration h hl =>
    cases hparse.symm.trans h
    cases hload.symm.trans hl
  | filter h hl hown hf =>
    exact Host.not_fault_of_listenerFor hparse hload hlistener _ (.filter h hl hown hf)
  | install h hl ho hf =>
    exact Host.not_fault_of_listenerFor hparse hload hlistener _ (.install h hl ho hf)
  | patternFile h ht =>
    cases hparse.symm.trans h
    cases htext.symm.trans ht
  | pattern | treeFile | tree | matching | inspection => exact absurd hlt (by decide)

end Sample

namespace Cli

open Sample

/-- The missing tree does not hide that there is no pattern. -/
theorem run_reports_first_stray :
    let report := run strayWorld identLine (.empty none) (.empty none)
    strayWorld.host.Fault identLine .treeFile
        "failed to read syntax tree from t.json: No such file or directory (os error 2)" ∧
      report.exitCode = 1 ∧ report.output = .empty none ∧
      report.errors.written = (Sink.empty none).written ++
        Sink.bytesOf "invalid pattern p.json: expected an object at $\n" := by
  intro report
  obtain ⟨hends, hfails, hsucceeds⟩ :=
    @run_reports_first strayWorld.host identLine (.empty none) (.empty none) rfl
  have hexit : report.exitCode = 1 := by
    refine hends.resolve_left fun hzero ↦ ?_
    exact (hsucceeds hzero).1 _ _ firstFault_strayWorld.fault
  obtain ⟨houtput, phase, message, -, hunique, -, hwritten⟩ := hfails hexit
  obtain ⟨-, rfl⟩ := hunique _ _ firstFault_strayWorld
  have hparse : strayWorld.host.parse identLine = .ok identInvocation := rfl
  have htree : strayWorld.textIn identInvocation.inputFile = .error .missing := rfl
  exact ⟨.treeFile hparse htree, hexit, houtput, hwritten rfl⟩

end Cli

end TreePattern

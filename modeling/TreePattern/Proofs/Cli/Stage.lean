import TreePattern.Cli.Run
import TreePattern.Proofs.Match.Unfolding

namespace TreePattern

namespace Cli

variable {α β ε : Type} {stage : Stage α} {next : α → Stage β} {a : α} {result : Except Failure α}
  {outcome : α → Except Failure β}

/-- Whatever the log, the stage ends in the same way. -/
def Stage.Yields (stage : Stage α) (result : Except Failure α) : Prop :=
  ∀ log, (stage.run.run log).1 = result

namespace Stage

theorem Yields.pure (a : α) : Yields (Pure.pure a) (.ok a) := fun _ ↦ rfl

theorem Yields.bind (h : stage.Yields result) (hn : ∀ a, (next a).Yields (outcome a)) :
    (stage >>= next).Yields (result >>= outcome) := by
  intro log
  have hlog : (stage log).1 = result := h log
  change ((stage >>= next) log).1 = _
  rw [MatchM.bind_apply]
  rcases hrun : stage log with ⟨failure | a, log'⟩
  · rw [← hlog, hrun]
    rfl
  · rw [← hlog, hrun]
    exact hn a log'

theorem Yields.after {ending : Except Failure β} (h : stage.Yields (.ok a))
    (hn : (next a).Yields ending) : (stage >>= next).Yields ending := by
  intro log
  have hlog : (stage log).1 = .ok a := h log
  change ((stage >>= next) log).1 = _
  rw [MatchM.bind_apply]
  rcases hrun : stage log with ⟨failure | a', log'⟩
  · rw [hrun] at hlog
    cases hlog
  · rw [hrun] at hlog
    cases hlog
    exact hn log'

theorem Yields.get {next : Log → Stage β} {result : Except Failure β}
    (h : ∀ log, (next log).Yields result) : Yields (MonadState.get >>= next) result :=
  fun log ↦ h log log

theorem take_yields (wrap : ε → Failure) (x : Except ε α) :
    (take wrap x).Yields (x.mapError wrap) := by
  cases x <;> exact fun _ ↦ rfl

theorem emit_yields (level : LogLevel) (target message : String)
    (fields : List (String × LogField)) : (emit level target message fields).Yields (.ok ()) :=
  fun _ ↦ rfl

theorem emitSteps_yields (events : List TraceEvent) : Yields (events.forM emitStep) (.ok ()) := by
  induction events with
  | nil => exact .pure ()
  | cons event rest ih =>
    have hevent : (emitStep event).Yields (.ok ()) := by cases event <;> exact emit_yields _ _ _ _
    exact hevent.after ih

end Stage

open Stage

namespace World

variable (world : World)

def patternIn (file : String) : Except Failure Pattern := do
  let text ← (world.readFile file).mapError (.readPattern file)
  (Pattern.read text).mapError (.pattern file)

def treeIn (source : String) (file : Option String) : Except Failure Node := do
  let text ← (world.textIn file).mapError (.readTree source)
  (Tree.read text).mapError (.tree source)

end World

def Host.configFor (host : Host) (invocation : Invocation) : Except Failure Config := do
  let config ← (host.load invocation.configWords).mapError .config
  let _ ← (host.listenerFor config).mapError .logging
  return config

def findsIn (limit : Option Nat) (pattern : Pattern) (root : Node) : Except Failure (List Find) :=
  (((⟨limit⟩ : Engine).setting false .lenient pattern).findAll root).1.mapError .matching

/-- What comes of a run before the results are written, as far as it does not concern the log. -/
def Host.recordsFor (host : Host) (invocation : Invocation) :
    Except Failure (OutputFormat × List Record) := do
  let config ← host.configFor invocation
  let pattern ← host.patternIn invocation.pattern
  let root ← host.treeIn (invocation.inputFile.getD "<stdin>") invocation.inputFile
  let finds ← findsIn config.maxSearchNodes pattern root
  let records ← (Record.ofFinds .lenient finds).mapError .inspect
  return (config.output, records)

variable {world : World} {host : Host} {invocation : Invocation} {args : List String}

theorem configure_yields : (configure host invocation).Yields (host.configFor invocation) := by
  refine (take_yields _ _).bind fun config ↦ ?_
  refine (take_yields _ _).bind fun listener ↦ ?_
  exact fun log ↦ rfl

theorem loadPattern_yields (file : String) :
    (loadPattern world file).Yields (world.patternIn file) := by
  refine (take_yields _ _).bind fun text ↦ ?_
  have hread : (Pattern.read text).mapError (Failure.pattern file) = (do
      let raw ← (RawPattern.read text).mapError fun error ↦ Failure.pattern file (.load error)
      raw.compile.mapError fun error ↦ Failure.pattern file (.compile error)) := by
    rw [Pattern.read]
    cases RawPattern.read text with
    | error error => rfl
    | ok raw => cases hraw : raw.compile <;> simp [Except.mapError, hraw, bind, Except.bind]
  rw [hread]
  refine (take_yields _ _).bind fun raw ↦ ?_
  cases hraw : raw.compile <;> exact fun log ↦ rfl

theorem loadTree_yields (source : String) (file : Option String) :
    (loadTree world source file).Yields (world.treeIn source file) :=
  (take_yields _ _).bind fun _ ↦ take_yields _ _

theorem findMatches_yields (limit : Option Nat) (source : String) (pattern : Pattern)
    (root : Node) :
    (findMatches limit source pattern root).Yields (findsIn limit pattern root) := by
  refine .get fun log ↦ ?_
  -- Steps are recorded only if the log shows them, which the ending does not depend on.
  have htraced := Setting.findAll_traced ⟨.lenient, pattern, limit, log.filter.reaches .trace⟩
    ⟨.lenient, pattern, limit, false⟩ rfl rfl rfl root
  dsimp only [findsIn, Engine.setting]
  rw [← htraced]
  generalize Setting.findAll ⟨.lenient, pattern, limit, log.filter.reaches .trace⟩ root = ending
  obtain ⟨outcome, tally⟩ := ending
  dsimp only
  refine (emitSteps_yields tally.trace.reverse).after ?_
  cases outcome <;> exact fun log ↦ rfl

/-- The log changes nothing in what a run comes to. -/
theorem prepare_yields (host : Host) (invocation : Invocation) :
    (prepare host invocation).Yields (host.recordsFor invocation) :=
  configure_yields.bind fun _ ↦ (loadPattern_yields _).bind fun _ ↦
    (loadTree_yields _ _).bind fun _ ↦ (findMatches_yields _ _ _ _).bind fun _ ↦
    (take_yields _ _).bind fun _ ↦ .pure _

/-- What a run that is asked for a match leaves behind, up to its log. -/
theorem run_eq (h : host.parse args = .ok invocation) (output errors : Sink) :
    ∃ log, host.run args output errors =
      match host.recordsFor invocation with
      | .ok (format, records) =>
        match render format records output with
        | (output, .ok ()) => ⟨true, output, errors, log⟩
        | (output, .error failure) =>
          ⟨false, output, (errors.write (failure.message ++ "\n")).1, log⟩
      | .error failure => ⟨false, output, (errors.write (failure.message ++ "\n")).1, log⟩ := by
  have hyields := prepare_yields host invocation ⟨host.listener, []⟩
  rcases hrun : (prepare host invocation).run.run ⟨host.listener, []⟩ with ⟨prepared, log⟩
  rw [hrun] at hyields
  dsimp only at hyields
  refine ⟨log, ?_⟩
  rw [Host.run, h]
  dsimp only
  rw [hrun, ← hyields]
  rcases prepared with failure | ⟨format, records⟩
  · rfl
  · dsimp only
    rcases render format records output with ⟨out, failure | ⟨⟩⟩ <;> rfl

/-- A run that has records ends in the way in which they are written. -/
theorem run_render {format : OutputFormat} {records : List Record}
    (h : host.parse args = .ok invocation)
    (hr : host.recordsFor invocation = .ok (format, records)) (output errors : Sink) :
    let ending := render format records output
    let report := host.run args output errors
    report.output = ending.1 ∧
      (ending.2 = .ok () → report.exitCode = 0 ∧ report.errors = errors) ∧
      ∀ failure, ending.2 = .error failure →
        report.exitCode = 1 ∧ report.errors = (errors.write (failure.message ++ "\n")).1 := by
  intro ending report
  obtain ⟨log, hrun⟩ := run_eq h output errors
  rw [hr] at hrun
  dsimp only [report, ending]
  rw [hrun]
  dsimp only
  rcases render format records output with ⟨out, failure | ⟨⟩⟩
  · refine ⟨rfl, fun hok ↦ (by cases hok), fun failure' hf ↦ ⟨rfl, ?_⟩⟩
    cases hf
    rfl
  · exact ⟨rfl, fun _ ↦ ⟨rfl, rfl⟩, fun failure hf ↦ (by cases hf)⟩

/-- A run without records writes nothing but the message. -/
theorem run_refuses {failure : Failure} (h : host.parse args = .ok invocation)
    (hr : host.recordsFor invocation = .error failure) (output errors : Sink) :
    let report := host.run args output errors
    report.exitCode = 1 ∧ report.output = output ∧
      report.errors = (errors.write (failure.message ++ "\n")).1 := by
  intro report
  obtain ⟨log, hrun⟩ := run_eq h output errors
  rw [hr] at hrun
  dsimp only [report]
  rw [hrun]
  exact ⟨rfl, rfl, rfl⟩

end Cli

end TreePattern

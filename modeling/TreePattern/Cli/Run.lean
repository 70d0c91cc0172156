import TreePattern.Cli.Host
import TreePattern.Cli.Record
import TreePattern.Cli.Sink
import TreePattern.Match.Engine
import TreePattern.Tree.OfJson

namespace TreePattern.Cli

inductive Failure where
  | config (report : String)
  | logging (fault : LoggingFault)
  | readPattern (file : String) (fault : ReadFault)
  | pattern (file : String) (error : PatternError)
  | readTree (source : String) (fault : ReadFault)
  | tree (source : String) (error : LoadError)
  | matching (error : MatchError)
  | inspect (error : AccessError)
  | serialise (refusal : String)
  | write (refusal : String)
deriving DecidableEq

def Failure.message : Failure → String
  | .config report => "failed to load configuration: " ++ report
  | .logging fault => "failed to initialise logging: " ++ fault.message
  | .readPattern file fault => "failed to read pattern " ++ file ++ ": " ++ fault.message
  | .pattern file error => "invalid pattern " ++ file ++ ": " ++ error.message
  | .readTree source fault => "failed to read syntax tree from " ++ source ++ ": " ++ fault.message
  | .tree source error => "invalid syntax tree from " ++ source ++ ": " ++ error.message
  | .matching error => "matching failed: " ++ error.message
  | .inspect error => "failed to inspect matched node: " ++ error.message
  | .serialise refusal => "failed to serialise results: " ++ refusal
  | .write refusal => "failed to write results: " ++ refusal

abbrev Stage := ExceptT Failure (StateM Log)

namespace Stage

def take {ε α : Type} (wrap : ε → Failure) : Except ε α → Stage α
  | .ok value => pure value
  | .error error => throw (wrap error)

def emit (level : LogLevel) (target message : String) (fields : List (String × LogField)) :
    Stage Unit :=
  let event : LogEvent := ⟨level, target, message, fields⟩
  modify fun log ↦
    if log.filter.enables target event.fieldNames level then
      { log with events := event :: log.events }
    else log

end Stage

open Stage

def configure (host : Host) (invocation : Invocation) : Stage Config := do
  let config ← take .config (host.load invocation.configWords)
  let listener ← take .logging (host.listenerFor config)
  modify fun log ↦ { log with listener }
  let limit :=
    match config.maxSearchNodes with
    | some limit => "Some(" ++ toString limit ++ ")"
    | none => "None"
  emit .debug "asty::cli" "configuration resolved"
    [("log_format", .text config.logFormat.name), ("output", .text config.output.name),
      ("max_search_nodes", .text limit)]
  return config

def loadPattern (world : World) (file : String) : Stage Pattern := do
  let text ← take (.readPattern file) (world.readFile file)
  let raw ← take (fun error ↦ .pattern file (.load error)) (RawPattern.read text)
  emit .debug "asty::json" "pattern parsed" [("nodes", .count raw.size)]
  let pattern ← take (fun error ↦ .pattern file (.compile error)) raw.compile
  emit .debug "asty::compile" "compiled pattern"
    [("arena", .count raw.size), ("reachable", .count pattern.size)]
  emit .debug "asty::engine" "compiled JSON pattern" [("nodes", .count pattern.size)]
  emit .debug "asty::cli" "pattern loaded" [("nodes", .count pattern.size)]
  return pattern

def loadTree (world : World) (source : String) (file : Option String) : Stage Node := do
  let text ← take (.readTree source) (world.textIn file)
  take (.tree source) (Tree.read text)

def emitStep : TraceEvent → Stage Unit
  | .attributeAbsent id name =>
    emit .trace "asty::matcher" "attribute absent"
      [("pattern", .text id.render), ("attribute", .text name)]
  | .constraintFailed id name =>
    emit .trace "asty::matcher" "constraint failed"
      [("pattern", .text id.render), ("attribute", .text name)]
  | .nodeMatched id hits =>
    emit .trace "asty::matcher" "node matched" [("pattern", .text id.render), ("hits", .count hits)]

def findMatches (limit : Option Nat) (source : String) (pattern : Pattern) (root : Node) :
    Stage (List Find) := do
  let log ← get
  let traced := log.filter.reaches .trace
  let (outcome, tally) := ((⟨limit⟩ : Engine).setting traced .lenient pattern).findAll root
  tally.trace.reverse.forM emitStep
  let finds ← take .matching outcome
  emit .debug "asty::matcher" "match finished"
    [("results", .count finds.length), ("visited", .count tally.visited)]
  emit .info "asty::cli" "match finished"
    [("input", .text source), ("results", .count finds.length)]
  return finds

def prepare (host : Host) (invocation : Invocation) : Stage (OutputFormat × List Record) := do
  let config ← configure host invocation
  let pattern ← loadPattern host.toWorld invocation.pattern
  let file := invocation.inputFile
  let source := file.getD "<stdin>"
  let root ← loadTree host.toWorld source file
  let finds ← findMatches config.maxSearchNodes source pattern root
  let records ← take .inspect (Record.ofFinds .lenient finds)
  return (config.output, records)

def render (format : OutputFormat) (records : List Record) (out : Sink) :
    Sink × Except Failure Unit :=
  match format with
  | .human =>
    match out.writeAll (Record.lines records) with
    | (out, true) => (out, .ok ())
    | (out, false) => (out, .error (.write out.refusal))
  | .json =>
    match out.write (Record.jsonText records) with
    | (out, false) => (out, .error (.serialise out.refusal))
    | (out, true) =>
      match out.write "\n" with
      | (out, true) => (out, .ok ())
      | (out, false) => (out, .error (.write out.refusal))

structure Report where
  success : Bool
  output : Sink
  errors : Sink
  log : Log

def Report.exitCode (report : Report) : UInt32 :=
  if report.success then 0 else 1

/-- Runs the program on the words of a command line, without the program's own name. Requests for
information are answered on standard output; every failure is reported on standard error. -/
def Host.run (host : Host) (args : List String) (output errors : Sink) : Report :=
  let log : Log := ⟨host.listener, []⟩
  match host.parse args with
  | .error ⟨text, true⟩ =>
    let (output, complete) := output.write text
    ⟨complete, output, errors, log⟩
  | .error ⟨text, false⟩ => ⟨false, output, (errors.write (text ++ "\n")).1, log⟩
  | .ok invocation =>
    let (prepared, log) := (prepare host invocation).run.run log
    let (output, outcome) :=
      match prepared with
      | .ok (format, records) => render format records output
      | .error failure => (output, .error failure)
    match outcome with
    | .ok () => ⟨true, output, errors, log⟩
    | .error failure => ⟨false, output, (errors.write (failure.message ++ "\n")).1, log⟩

def run (world : World) (args : List String) (output errors : Sink) : Report :=
  world.host.run args output errors

def Report.logLines (report : Report) : List String :=
  report.log.events.reverse.map (·.line report.log.format)

end TreePattern.Cli

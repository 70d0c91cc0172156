import TreePattern.Cli.Config
import TreePattern.Cli.Log

namespace TreePattern.Cli

inductive LoggingFault where
  | filter (text reason : String)
  | install (reason : String)
deriving DecidableEq

def LoggingFault.message : LoggingFault → String
  | .filter text reason => "invalid log filter " ++ Text.quoted text ++ ": " ++ reason
  | .install reason => "failed to install log subscriber: " ++ reason

/-- A process in which a run takes place. How words, configurations and filters are read is a
matter of libraries, and whether something listens to the log one of earlier runs. -/
structure Host extends World where
  parse : List String → Except Reply Invocation
  load : List String → Except String Config
  readFilter : String → Except String LogFilter
  listener : Listener

/-- A process without earlier runs. Texts of several lines, which the libraries may report, are
given by their first line, and the values in a filter are not checked. -/
def World.host (world : World) : Host :=
  { world with
    parse := fun args ↦ (Invocation.parse args).mapError Stop.reply
    load := fun words ↦ (Config.load world words).mapError ConfigError.message
    readFilter := fun text ↦ (LogFilter.read text).mapError FilterFault.message
    listener := .absent }

namespace Host

/-- What listens to a run with the given configuration. The filter is read only if no run before has
installed anything. -/
def listenerFor (host : Host) (config : Config) : Except LoggingFault Listener :=
  match host.listener with
  | .own filter format => .ok (.own filter format)
  | .absent => do
    let filter ← (host.readFilter config.logFilter).mapError (.filter config.logFilter)
    return .own filter config.logFormat
  | .other refusal => do
    let _ ← (host.readFilter config.logFilter).mapError (.filter config.logFilter)
    throw (.install refusal)

end Host

end TreePattern.Cli

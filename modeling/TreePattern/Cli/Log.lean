import TreePattern.Cli.LogFilter
import TreePattern.Json.Writer

namespace TreePattern.Cli

inductive LogField where
  | text (s : String)
  | count (n : Nat)
deriving DecidableEq

def LogField.toJson : LogField → Json
  | .text s => .string s
  | .count n => .number (.natural (UInt64.ofNat n))

def LogField.render : LogField → String
  | .text s => s
  | .count n => toString n

structure LogEvent where
  level : LogLevel
  target : String
  message : String
  fields : List (String × LogField)
deriving DecidableEq

namespace LogEvent

def fieldNames (e : LogEvent) : List String :=
  "message" :: e.fields.map (·.1)

def toJson (e : LogEvent) : Json :=
  .object ([("level", .string e.level.name), ("message", .string e.message)] ++
    e.fields.map (fun (name, field) ↦ (name, field.toJson)) ++ [("target", .string e.target)])

def compact (e : LogEvent) : String :=
  e.fields.foldl (fun out (name, field) ↦ out ++ " " ++ name ++ "=" ++ field.render)
    (e.level.name ++ " " ++ e.target ++ ": " ++ e.message)

def line (format : LogFormat) (e : LogEvent) : String :=
  match format with
  | .json => e.toJson.compact
  | .compact => e.compact

end LogEvent

/-- What takes the events that are logged in a process. -/
inductive Listener where
  | absent
  /-- What a run has installed. Later runs in the process keep it. -/
  | own (filter : LogFilter) (format : LogFormat)
  /-- What something else has installed, and why nothing can be installed beside it. -/
  | other (refusal : String)

structure Log where
  listener : Listener
  events : List LogEvent

namespace Log

def filter (log : Log) : LogFilter :=
  match log.listener with
  | .own filter _ => filter
  | .absent | .other _ => .silent

def format (log : Log) : LogFormat :=
  match log.listener with
  | .own _ format => format
  | .absent | .other _ => .json

end Log

end TreePattern.Cli

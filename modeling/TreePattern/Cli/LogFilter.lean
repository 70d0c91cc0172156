import TreePattern.Cli.Format
import TreePattern.Text.Alphanumeric
import TreePattern.Text.Space

namespace TreePattern.Cli

inductive LogLevel where
  | error
  | warn
  | info
  | debug
  | trace
deriving DecidableEq

namespace LogLevel

def name : LogLevel → String
  | .error => "ERROR"
  | .warn => "WARN"
  | .info => "INFO"
  | .debug => "DEBUG"
  | .trace => "TRACE"

def rank : LogLevel → Nat
  | .error => 1
  | .warn => 2
  | .info => 3
  | .debug => 4
  | .trace => 5

end LogLevel

structure FieldDemand where
  name : String
  value : Option String
deriving DecidableEq

/-- A directive of a filter. The events that it fits are logged up to the given rank. -/
structure Directive where
  target : Option String := none
  span : Option String := none
  field : Option FieldDemand := none
  rank : Nat := 5
deriving DecidableEq

inductive FilterFault where
  | level
  | directive
deriving DecidableEq

def FilterFault.message : FilterFault → String
  | .level =>
    "error parsing level filter: expected one of \"off\", \"error\", \"warn\", \"info\", " ++
      "\"debug\", \"trace\", or a number 0-5"
  | .directive => "invalid filter directive"

namespace Directive

def rank? (text : String) : Option Nat :=
  match text.map Char.toLower with
  | "off" => some 0
  | "error" => some 1
  | "warn" => some 2
  | "info" => some 3
  | "debug" => some 4
  | "trace" => some 5
  | _ =>
    match readCount text with
    | .ok n => if n ≤ 5 then some n else none
    | .error _ => none

inductive Stage where
  | start
  | levelOrTarget (start : Nat)
  | span (start : Nat)
  | field (start : Nat)
  | afterField
  | afterSpan
  | level (start : Nat)

def mayStart (c : Char) : Bool :=
  c = '-' || c = ':' || c = '_' || Text.isAlphanumeric c

def dropBytes : Nat → List Char → Option (List Char)
  | 0, cs => some cs
  | _ + 1, [] => none
  | n + 1, c :: rest => if c.utf8Size ≤ n + 1 then dropBytes (n + 1 - c.utf8Size) rest else none

def takeBytes : Nat → List Char → Option (List Char)
  | 0, _ => some []
  | _ + 1, [] => none
  | n + 1, c :: rest =>
    if c.utf8Size ≤ n + 1 then (takeBytes (n + 1 - c.utf8Size) rest).map (c :: ·) else none

def piece (part : List Char) (start stop : Nat) : Except FilterFault String :=
  match (dropBytes start part).bind (takeBytes (stop - start)) with
  | some cs => .ok (String.ofList cs)
  | none => .error .directive

def pieceFrom (part : List Char) (start : Nat) : Except FilterFault String :=
  match dropBytes start part with
  | some cs => .ok (String.ofList cs)
  | none => .error .directive

/-- Reads what a directive asks of a field. -/
def readField (text : String) : Except FilterFault FieldDemand :=
  match text.toList.splitOn '=' with
  | [] | [[]] => .error .directive
  | [name] => .ok ⟨String.ofList name, none⟩
  | name :: value :: _ => .ok ⟨String.ofList name, some (String.ofList value)⟩

def step (part : List Char) (stage : Stage) (d : Directive) (offset : Nat) (c : Char) :
    Except FilterFault (Stage × Directive) := do
  match stage with
  | .start =>
    if c = '[' then return (.span (offset + 1), d)
    else if mayStart c then return (.levelOrTarget offset, d)
    else throw .directive
  | .levelOrTarget start =>
    if c = '=' then
      return (.level (offset + 1), { d with target := some (← piece part start offset) })
    else if c = '[' then
      return (.span (offset + 1), { d with target := some (← piece part start offset) })
    else return (stage, d)
  | .span start =>
    if c = ']' then return (.afterSpan, { d with span := some (← piece part start offset) })
    else if c = '{' then
      let name ← piece part start offset
      return (.field (offset + 1), { d with span := if name.isEmpty then none else some name })
    else return (stage, d)
  | .field start =>
    if c = '}' then
      return (.afterField, { d with field := some (← readField (← piece part start offset)) })
    else return (stage, d)
  | .afterField => if c = ']' then return (.afterSpan, d) else throw .directive
  | .afterSpan => if c = '=' then return (.level (offset + 1), d) else throw .directive
  | .level _ => return (stage, d)

def steps (part : List Char) (stage : Stage) (d : Directive) (offset : Nat) :
    List Char → Except FilterFault (Stage × Directive)
  | [] => .ok (stage, d)
  | c :: rest =>
    match step part stage d offset c with
    | .ok (stage, d) => steps part stage d (offset + c.utf8Size) rest
    | .error fault => .error fault

/-- Reads a directive. The blanks around it are left out of account where its pieces are told apart,
but not where the pieces are cut out. -/
def read (part : List Char) : Except FilterFault Directive := do
  let (stage, d) ← steps part .start {} 0 (Text.trim part)
  match stage with
  | .levelOrTarget start =>
    let text ← pieceFrom part start
    match rank? text with
    | some rank => return { d with rank }
    | none => return { d with target := some text }
  | .level start =>
    let text ← pieceFrom part start
    if text.isEmpty then return d
    match rank? text with
    | some rank => return { d with rank }
    | none => throw .level
  | .afterSpan => return d
  | _ => throw .directive

def concernsEvents (d : Directive) : Bool :=
  d.span.isNone && (d.field.bind (·.value)).isNone

def fits (target : String) (fields : List String) (d : Directive) : Bool :=
  (match d.target with
    | none => true
    | some start => start.toList.isPrefixOf target.toList) &&
  (match d.field with
    | none => true
    | some demand => fields.contains demand.name)

/-- How long the target of a directive is, and whether there is a field. A directive without target
gives way to all others. -/
def specificity (d : Directive) : Nat × Nat :=
  (match d.target with | none => 0 | some target => target.utf8ByteSize + 1,
    if d.field.isNone then 0 else 1)

/-- Whether a directive gives way to another one that fits the same events. Of equally specific ones
the one with the later name of a field holds, and of those with the same name the later one. -/
def givesWay (d e : Directive) : Bool :=
  let (a, f) := d.specificity
  let (b, g) := e.specificity
  a < b || a = b && (f < g || f = g &&
    !decide ((e.field.map (·.name)).getD "" < (d.field.map (·.name)).getD ""))

def deciding : List Directive → Option Directive
  | [] => none
  | d :: rest =>
    match deciding rest with
    | none => some d
    | some e => if d.givesWay e then some e else some d

end Directive

/-- Which events are logged. -/
abbrev LogFilter := List Directive

namespace LogFilter

/-- Reads a filter. -/
def read (text : String) : Except FilterFault LogFilter :=
  ((text.toList.splitOn ',').filter fun part ↦ !part.isEmpty).mapM Directive.read

def silent : LogFilter :=
  [{ rank := 0 }]

/-- Whether events of a level with a target and fields are logged. A filter without directives lets
only errors pass. -/
def enables (filter : LogFilter) (target : String) (fields : List String) (level : LogLevel) :
    Bool :=
  if filter.isEmpty then level == .error
  else
    match Directive.deciding (filter.filter fun d ↦ d.concernsEvents && d.fits target fields) with
    | some d => level.rank ≤ d.rank
    | none => false

def reaches (filter : LogFilter) (level : LogLevel) : Bool :=
  filter.any fun d ↦ level.rank ≤ d.rank

end LogFilter

end TreePattern.Cli

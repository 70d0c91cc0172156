import TreePattern.Cli.Format
import TreePattern.Text.Terminal

namespace TreePattern.Cli

inductive OptionName where
  | configPath
  | logFilter
  | logFormat
  | pattern
  | input
  | output
  | maxSearchNodes
deriving DecidableEq

namespace OptionName

def name : OptionName → String
  | .configPath => "config-path"
  | .logFilter => "log-filter"
  | .logFormat => "log-format"
  | .pattern => "pattern"
  | .input => "input"
  | .output => "output"
  | .maxSearchNodes => "max-search-nodes"

end OptionName

inductive ValueFault where
  | absent
  | unknown
  | because (reason : String)
deriving DecidableEq

def OptionName.check (option : OptionName) (value : String) : Except ValueFault Unit :=
  match option with
  | .configPath | .pattern | .input => if value.isEmpty then .error .absent else .ok ()
  | .logFilter => .ok ()
  | .logFormat =>
    match LogFormat.ofAnyCase? value with
    | some _ => .ok ()
    | none => .error (.because "Matching variant not found")
  | .output =>
    match OutputFormat.ofName? value with
    | some _ => .ok ()
    | none => .error (if value.isEmpty then .absent else .unknown)
  | .maxSearchNodes => ((readCount value).mapError (.because ·.message)).map fun _ ↦ ()

inductive Notice where
  | programHelp
  | matchSummary
  | matchHelp
  | configUsage
  | version
deriving DecidableEq

inductive UsageError where
  | nothingGiven
  | noCommand
  | unknownCommand (word : String)
  | unexpected (word : String)
  | unneededValue (flag value : String)
  | requiredMissing
  | valueMissing (option : String)
  | valueRefused (option value : String) (reason : Option String)
  | repeated (option : String)
deriving DecidableEq

/-- The first line of the report of a usage error. What a user gave is shown without what would
control a terminal. -/
def UsageError.headline : UsageError → String
  | .nothingGiven => "Command-line interface for the `asty` structural pattern matcher"
  | .noCommand => "error: 'asty' requires a subcommand but one was not provided"
  | .unknownCommand word => "error: unrecognized subcommand '" ++ Text.withoutControls word ++ "'"
  | .unexpected word => "error: unexpected argument '" ++ Text.withoutControls word ++ "' found"
  | .unneededValue flag value =>
    "error: unexpected value '" ++ Text.withoutControls value ++ "' for '" ++ flag ++
      "' found; no more were expected"
  | .requiredMissing => "error: the following required arguments were not provided:"
  | .valueMissing option =>
    "error: a value is required for '" ++ option ++ "' but none was supplied"
  | .valueRefused option value reason =>
    "error: invalid value '" ++ Text.withoutControls value ++ "' for '" ++ option ++ "'" ++
      (match reason with | some r => ": " ++ r | none => "")
  | .repeated option => "error: the argument '" ++ option ++ "' cannot be used multiple times"

inductive Stop where
  | notice (notice : Notice)
  | usage (error : UsageError)
deriving DecidableEq

structure Grammar where
  options : List (OptionName × String)
  flags : List (String × Notice)
  letters : List (Char × Notice)
  commands : List String

namespace Grammar

def title (g : Grammar) (option : OptionName) : String :=
  "--" ++ option.name ++ " <" ++ ((g.options.lookup option).getD "") ++ ">"

def option? (g : Grammar) (name : String) : Option OptionName :=
  (g.options.find? fun entry ↦ entry.1.name == name).map (·.1)

end Grammar

/-- The options read so far, and the one that is not settled yet. Its value is `none` as long as the
next word may be that value. -/
structure Reading where
  settled : List (OptionName × String)
  pending : Option (OptionName × Option String)

namespace Reading

def start : Reading := ⟨[], none⟩

def settle (g : Grammar) (r : Reading) : Except Stop Reading :=
  match r.pending with
  | none => .ok r
  | some (option, none) => .error (.usage (.valueMissing (g.title option)))
  | some (option, some value) =>
    if (r.settled.lookup option).isSome then .error (.usage (.repeated (g.title option)))
    else
      match option.check value with
      | .ok () => .ok ⟨r.settled ++ [(option, value)], none⟩
      | .error .absent => .error (.usage (.valueMissing (g.title option)))
      | .error .unknown => .error (.usage (.valueRefused (g.title option) value none))
      | .error (.because reason) =>
        .error (.usage (.valueRefused (g.title option) value (some reason)))

def awaits (r : Reading) : Bool :=
  match r.pending with
  | some (_, none) => true
  | _ => false

def long (g : Grammar) (r : Reading) (name : String) (value : Option String) :
    Except Stop Reading :=
  match g.option? name, g.flags.lookup name with
  | some option, _ => do
    let r ← r.settle g
    match value with
    -- A value in a word of its own is judged only when the next option begins or the words end.
    | none => return { r with pending := some (option, none) }
    | some v => settle g { r with pending := some (option, some v) }
  | none, some notice =>
    match value with
    | some v => .error (.usage (.unneededValue ("--" ++ name) v))
    | none => do
      let _ ← r.settle g
      .error (.notice notice)
  | none, none => .error (.usage (.unexpected ("--" ++ name)))

def short (g : Grammar) (r : Reading) (letter : Char) : Except Stop Reading :=
  match g.letters.lookup letter with
  | some notice => do
    let _ ← r.settle g
    .error (.notice notice)
  | none => .error (.usage (.unexpected ("-".push letter)))

def stray (g : Grammar) (word : String) (afterDashes : Bool) : UsageError :=
  if g.commands.isEmpty || afterDashes && g.commands.contains word then .unexpected word
  else .unknownCommand word

def splitEquals : List Char → List Char × Option (List Char)
  | [] => ([], none)
  | c :: rest =>
    if c = '=' then ([], some rest)
    else
      let (name, value) := splitEquals rest
      (c :: name, value)

def words (g : Grammar) (r : Reading) :
    List String → Except Stop (Reading × Option (String × List String))
  | [] => .ok (r, none)
  | word :: rest =>
    if !r.awaits && g.commands.contains word then .ok (r, some (word, rest))
    else
      match word.toList with
      | ['-', '-'] =>
        match rest with
        | [] => .ok (r, none)
        | next :: _ => .error (.usage (stray g next true))
      | '-' :: '-' :: body =>
        let (name, value) := splitEquals body
        match r.long g (String.ofList name) (value.map String.ofList) with
        | .ok r => words g r rest
        | .error stop => .error stop
      | '-' :: letter :: _ =>
        match r.short g letter with
        | .ok r => words g r rest
        | .error stop => .error stop
      | _ =>
        match r.pending with
        | some (option, none) => words g { r with pending := some (option, some word) } rest
        | _ => .error (.usage (stray g word false))

end Reading

def commonOptions : List (OptionName × String) :=
  [(.configPath, "FILE"), (.logFilter, "FILTER"), (.logFormat, "FORMAT")]

def programGrammar : Grammar where
  options := commonOptions
  flags := [("help", .programHelp), ("version", .version)]
  letters := [('h', .programHelp), ('V', .version)]
  commands := ["match"]

def matchGrammar : Grammar where
  options := commonOptions ++
    [(.pattern, "FILE"), (.input, "FILE"), (.output, "OUTPUT"), (.maxSearchNodes, "N")]
  flags := [("help", .matchHelp)]
  letters := [('h', .matchSummary)]
  commands := []

/-- The words that are handed on to the reader of the configuration. They come as options with
values, so no flag among them is followed. It has to be known all the same: a path `--help` is
refused because the value before it is missing, and not as an unknown option. -/
def configGrammar : Grammar where
  options := [(.configPath, "PATH"), (.logFilter, "LOG_FILTER"),
    (.logFormat, "LOG_FORMAT"), (.output, "OUTPUT"), (.maxSearchNodes, "MAX_SEARCH_NODES")]
  flags := [("help", .configUsage)]
  letters := [('h', .configUsage)]
  commands := []

structure Invocation where
  configPath : Option String
  logFilter : Option String
  logFormat : Option LogFormat
  pattern : String
  input : Option String
  output : Option OutputFormat
  maxSearchNodes : Option Nat
deriving DecidableEq

namespace Invocation

/-- The invocation with the given pattern and options. Options after the command win over those
before it. -/
def ofOptions (pattern : String) (before after : List (OptionName × String)) : Invocation :=
  let either (option : OptionName) : Option String :=
    (after.lookup option).or (before.lookup option)
  { configPath := either .configPath
    logFilter := either .logFilter
    logFormat := (either .logFormat).bind LogFormat.ofAnyCase?
    pattern
    input := after.lookup .input
    output := (after.lookup .output).bind OutputFormat.ofName?
    maxSearchNodes := (after.lookup .maxSearchNodes).bind fun value ↦ (readCount value).toOption }

def parse (args : List String) : Except Stop Invocation := do
  let (outer, command) ← Reading.start.words programGrammar args
  match command with
  | none =>
    let outer ← outer.settle programGrammar
    .error (.usage (if outer.settled.isEmpty then .nothingGiven else .noCommand))
  | some (_, rest) =>
    let (inner, _) ← Reading.start.words matchGrammar rest
    let inner ← inner.settle matchGrammar
    match inner.settled.lookup .pattern with
    | none => .error (.usage .requiredMissing)
    | some pattern =>
      let outer ← outer.settle programGrammar
      return ofOptions pattern outer.settled inner.settled

def configWords (i : Invocation) : List String :=
  let word (option : OptionName) : Option String → List String
    | some value => ["--" ++ option.name, value]
    | none => []
  word .configPath i.configPath ++ word .logFilter i.logFilter ++
    word .logFormat (i.logFormat.map (·.name)) ++ word .output (i.output.map (·.name)) ++
    word .maxSearchNodes (i.maxSearchNodes.map toString)

def inputFile (i : Invocation) : Option String :=
  i.input.filter (· ≠ "-")

end Invocation

def readConfigWords (args : List String) : Except Stop (List (OptionName × String)) := do
  let (r, _) ← Reading.start.words configGrammar args
  return (← r.settle configGrammar).settled

end TreePattern.Cli

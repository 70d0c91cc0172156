import TreePattern.Toml.Token

namespace TreePattern.Toml

structure Lexeme where
  quotation : Option Quotation
  text : List Char
  start : Nat
deriving DecidableEq

def Lexeme.absent (start : Nat) : Lexeme := ⟨none, [], start⟩

inductive Term where
  | scalar (lexeme : Lexeme)
  | array (items : List Term)
  | table (members : List (List Lexeme × Term))

inductive Expression where
  | header (ofArray : Bool) (path : List Lexeme)
  | assignment (path : List Lexeme) (value : Term)

namespace Parser

inductive Site where
  | line
  | header (ofArray : Bool)
  | braces (read : List (List Lexeme × Term))

inductive Frame where
  | line (path : List Lexeme)
  | item (read : List Term)
  | member (read : List (List Lexeme × Term)) (path : List Lexeme)

/-- What the tokens read so far leave the machine in. The parts of a key are listed last to
first. -/
inductive Phase where
  | lineStart
  | headerStart
  | key (site : Site) (path : List Lexeme)
  | afterKey (site : Site) (path : List Lexeme)
  | headerEnd (path : List Lexeme)
  | lineEnd
  | value
  | word (text : List Char) (start : Nat)
  | afterDate (text : List Char) (start : Nat)
  | item (read : List Term)
  | afterItem (read : List Term)
  | member (read : List (List Lexeme × Term))
  | afterMember (read : List (List Lexeme × Term))

structure State where
  phase : Phase
  stack : List Frame
  edge : Nat
  done : List Expression

def State.initial : State := ⟨.lineStart, [], 0, []⟩

def maxNesting : Nat := 80

def lexeme? (t : Token) : Option Lexeme :=
  match t.kind with
  | .quoted quotation => some ⟨some quotation, t.text, t.start⟩
  | .word => some ⟨none, t.text, t.start⟩
  | _ => none

def State.deliver (s : State) (value : Term) : State :=
  match s.stack with
  | [] => s
  | .line path :: outer =>
    { s with phase := .lineEnd, stack := outer, done := .assignment path value :: s.done }
  | .item read :: outer => { s with phase := .afterItem (value :: read), stack := outer }
  | .member read path :: outer =>
    { s with phase := .afterMember ((path, value) :: read), stack := outer }

def State.assign (s : State) (frame : Frame) : State :=
  { s with phase := .value, stack := frame :: s.stack }

def isDate (text : List Char) : Bool :=
  match text with
  | [a, b, c, d, '-', e, f, '-', g, h] => [a, b, c, d, e, f, g, h].all Char.isDigit
  | _ => false

def State.stepLineEnd (s : State) (t : Token) : Except Nat State :=
  match t.kind with
  | .blank | .comment => .ok s
  | .newline | .finish => .ok { s with phase := .lineStart }
  | _ => .error t.start

/-- Takes a token where a value has to come. A value that is missing on a line is noted as
absent. -/
def State.stepValue (s : State) (t : Token) : Except Nat State :=
  let opening (phase : Phase) : Except Nat State :=
    if maxNesting < s.stack.length then .error t.start else .ok { s with phase }
  match t.kind with
  | .blank => .ok s
  | .openBracket => opening (.item [])
  | .openBrace => opening (.member [])
  | .quoted quotation => .ok (s.deliver (.scalar ⟨some quotation, t.text, t.start⟩))
  | .word | .dot => .ok { s with phase := .word t.text t.start }
  | .newline | .comment =>
    match s.stack with
    | .line _ :: _ => (s.deliver (.scalar (.absent t.start))).stepLineEnd t
    | _ => .ok s
  | .finish =>
    match s.stack with
    | .line _ :: _ => (s.deliver (.scalar (.absent t.start))).stepLineEnd t
    | _ => .error t.start
  | _ => .error t.start

def State.stepAfterKey (s : State) (site : Site) (path : List Lexeme) (t : Token) :
    Except Nat State :=
  let stay : Except Nat State := .ok { s with phase := .afterKey site path }
  match t.kind, site with
  | .blank, _ => stay
  | .dot, _ => .ok { s with phase := .key site path }
  | .equals, .line => .ok (s.assign (.line path.reverse))
  | .equals, .braces read => .ok (s.assign (.member read path.reverse))
  | .newline, .braces _ | .comment, .braces _ => stay
  | .closeBracket, .header false =>
    .ok { s with phase := .lineEnd, done := .header false path.reverse :: s.done }
  | .closeBracket, .header true => .ok { s with phase := .headerEnd path }
  | _, .header _ => .error s.edge
  | _, _ => .error t.start

/-- Takes a token where a part of a key has to come. A part that is missing is noted as absent, but
a header has to start with one. -/
def State.stepKey (s : State) (site : Site) (path : List Lexeme) (t : Token) : Except Nat State :=
  match lexeme? t with
  | some lexeme => .ok { s with phase := .afterKey site (lexeme :: path) }
  | none =>
    match t.kind, site, path with
    | .blank, _, _ => .ok { s with phase := .key site path }
    | .dot, _, _ => .ok { s with phase := .key site (.absent t.start :: path) }
    | _, .header _, [] => .error t.start
    | _, _, _ => s.stepAfterKey site (.absent t.start :: path) t

def State.stepLineStart (s : State) (t : Token) : Except Nat State :=
  match t.kind with
  | .blank | .comment | .newline | .finish => .ok s
  | .openBracket => .ok { s with phase := .headerStart }
  | .equals => .ok (s.assign (.line [.absent t.start]))
  | .dot => .ok { s with phase := .key .line [.absent t.start] }
  | _ =>
    match lexeme? t with
    | some lexeme => .ok { s with phase := .afterKey .line [lexeme] }
    | none => .error t.start

def State.stepInside (s : State) (t : Token) : Except Nat State :=
  match s.phase, t.kind with
  | _, .blank | _, .comment | _, .newline => .ok s
  | .item read, .closeBracket => .ok (s.deliver (.array read.reverse))
  | .item _, .comma => .error t.start
  | .item read, _ =>
    { s with stack := .item read :: s.stack }.stepValue t
  | .afterItem read, .comma => .ok { s with phase := .item read }
  | .afterItem read, .closeBracket => .ok (s.deliver (.array read.reverse))
  | .member read, .closeBrace | .afterMember read, .closeBrace =>
    .ok (s.deliver (.table read.reverse))
  | .afterMember read, .comma => .ok { s with phase := .member read }
  | .member read, .equals => .ok (s.assign (.member read [.absent t.start]))
  | .member read, .dot => .ok { s with phase := .key (.braces read) [.absent t.start] }
  | .member read, _ =>
    match lexeme? t with
    | some lexeme => .ok { s with phase := .afterKey (.braces read) [lexeme] }
    | none => .error t.start
  | _, _ => .error t.start

def State.stepBetween (s : State) (t : Token) : Except Nat State :=
  match s.phase, t.kind with
  | .lineStart, _ => s.stepLineStart t
  | .headerStart, .openBracket => .ok { s with phase := .key (.header true) [] }
  | .headerStart, _ => s.stepKey (.header false) [] t
  | .key site path, _ => s.stepKey site path t
  | .afterKey site path, _ => s.stepAfterKey site path t
  | .headerEnd path, .closeBracket =>
    .ok { s with phase := .lineEnd, done := .header true path.reverse :: s.done }
  | .headerEnd _, _ => .error t.start
  | .lineEnd, _ => s.stepLineEnd t
  | .value, _ => s.stepValue t
  | _, _ => s.stepInside t

def State.stepOutside (s : State) (t : Token) : Except Nat State :=
  let ended (text : List Char) (start : Nat) : Except Nat State :=
    (s.deliver (.scalar ⟨none, text, start⟩)).stepBetween t
  match s.phase, t.kind with
  | .word text start, .word | .word text start, .dot =>
    .ok { s with phase := .word (text ++ t.text) start }
  | .word text start, .blank =>
    if t.text = [' '] && isDate text then .ok { s with phase := .afterDate text start }
    else ended text start
  | .word text start, _ => ended text start
  | .afterDate text start, .word =>
    if t.text.head?.any Char.isDigit then
      .ok { s with phase := .word (text ++ ' ' :: t.text) start }
    else ended text start
  | .afterDate text start, _ => ended text start
  | _, _ => s.stepBetween t

def isCommentChar (c : Char) : Bool :=
  c = '\t' || ' ' ≤ c && c ≠ '\x7f'

/-- Refuses a comment with a control character in it, and an end of a line without a line feed. -/
def check (t : Token) : Except Nat Unit :=
  match t.kind with
  | .comment =>
    let fine := t.text.takeWhile isCommentChar
    if fine.length < t.text.length then .error (t.start + fine.length) else .ok ()
  | .newline => if t.text = ['\r'] then .error (t.start + 1) else .ok ()
  | _ => .ok ()

def State.step (s : State) (t : Token) : Except Nat State := do
  let s ← s.stepOutside t
  check t
  return if t.kind = .blank then s else { s with edge := t.start + t.text.length }

def State.run (s : State) : List Token → Except Nat State
  | [] => .ok s
  | t :: rest =>
    match s.step t with
    | .ok s => s.run rest
    | .error offset => .error offset

end Parser

def expressions (document : List Char) : Except Nat (List Expression) := do
  return (← Parser.State.initial.run (Token.ofDocument document)).done.reverse

end TreePattern.Toml

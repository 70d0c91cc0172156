import TreePattern.Number.Digits
import TreePattern.Toml.Syntax

namespace TreePattern.Toml

namespace Quotation

def mark : Quotation → Char
  | .literal | .longLiteral => '\x27'
  | .basic | .longBasic => '"'

def width : Quotation → Nat
  | .literal | .basic => 1
  | .longLiteral | .longBasic => 3

def isLong : Quotation → Bool
  | .literal | .basic => false
  | .longLiteral | .longBasic => true

def hasEscapes : Quotation → Bool
  | .literal | .longLiteral => false
  | .basic | .longBasic => true

end Quotation

namespace Unquoting

inductive Phase where
  | plain
  | carriage
  | escape
  /-- Inside the code of a character, with the number of digits that are still to come. -/
  | code (left : Nat) (read : Nat) (start : Nat)
  | gap (start : Nat)
  | hidden

structure State where
  phase : Phase
  read : List Char

def isPlain (q : Quotation) (c : Char) : Bool :=
  (c = '\t' || ' ' ≤ c && c ≠ '\x7f') && (q.isLong || c ≠ q.mark)

def State.push (s : State) (c : Char) : State := ⟨.plain, c :: s.read⟩

def State.stepPlain (q : Quotation) (s : State) (offset : Nat) (c : Char) : Except Nat State :=
  if q.hasEscapes && c = '\\' then .ok { s with phase := .escape }
  else if q.isLong && c = '\r' then .ok { s with phase := .carriage }
  else if q.isLong && c = '\n' || isPlain q c then .ok (s.push c)
  else .error offset

def ofCode? (code : Nat) : Option Char :=
  if code.isValidChar then some (Char.ofNat code) else none

def State.stepEscape (q : Quotation) (s : State) (offset : Nat) (c : Char) : Except Nat State :=
  let code (digits : Nat) : Except Nat State :=
    .ok { s with phase := .code digits 0 (offset + 1) }
  match c with
  | '"' => .ok (s.push '"')
  | '\\' => .ok (s.push '\\')
  | 'b' => .ok (s.push '\x08')
  | 'e' => .ok (s.push '\x1b')
  | 'f' => .ok (s.push '\x0c')
  | 'n' => .ok (s.push '\n')
  | 'r' => .ok (s.push '\r')
  | 't' => .ok (s.push '\t')
  | 'x' => code 2
  | 'u' => code 4
  | 'U' => code 8
  | '\n' => if q.isLong then .ok { s with phase := .hidden } else .error offset
  | _ =>
    if q.isLong && (Token.isBlank c || c = '\r') then .ok { s with phase := .gap offset }
    else .error offset

def State.step (q : Quotation) (s : State) (offset : Nat) (c : Char) : Except Nat State :=
  match s.phase with
  | .plain => s.stepPlain q offset c
  | .carriage => if c = '\n' then .ok (s.push '\n') else .error offset
  | .escape => s.stepEscape q offset c
  | .code left read start =>
    match hexDigit? c with
    | none => .error offset
    | some digit =>
      if 1 < left then .ok { s with phase := .code (left - 1) (16 * read + digit) start }
      else
        match ofCode? (16 * read + digit) with
        | some d => .ok (s.push d)
        | none => .error start
  | .gap start =>
    if c = '\n' then .ok { s with phase := .hidden }
    else if Token.isBlank c || c = '\r' then .ok s
    else .error start
  | .hidden =>
    if Token.isBlank c || c = '\r' || c = '\n' then .ok s else s.stepPlain q offset c

def State.run (q : Quotation) (s : State) (offset : Nat) : List Char → Except Nat (List Char)
  | [] =>
    match s.phase with
    | .plain | .hidden => .ok s.read.reverse
    | .gap start => .error start
    | _ => .error offset
  | c :: rest =>
    match s.step q offset c with
    | .ok s => s.run q (offset + 1) rest
    | .error fault => .error fault

def afterFirstLineEnd (offset : Nat) : List Char → Nat × List Char
  | '\n' :: rest => (offset + 1, rest)
  | '\r' :: '\n' :: rest => (offset + 2, rest)
  | cs => (offset, cs)

end Unquoting

/-- The text that a quoted lexeme stands for. Closing quotes that are missing are missed at its
end. -/
def Quotation.unquote (q : Quotation) (start : Nat) (text : List Char) : Except Nat String :=
  let opened := (start + q.width, text.drop q.width)
  let (offset, body) :=
    if q.isLong then Unquoting.afterFirstLineEnd opened.1 opened.2 else opened
  let inside := body.take (body.length - q.width)
  if body.length < q.width || body.drop inside.length ≠ List.replicate q.width q.mark then
    .error (start + text.length)
  else
    ((⟨.plain, []⟩ : Unquoting.State).run q offset inside).map String.ofList

end TreePattern.Toml

namespace TreePattern.Toml

inductive Quotation where
  | literal
  | basic
  | longLiteral
  | longBasic
deriving DecidableEq

inductive TokenKind where
  | dot
  | equals
  | comma
  | openBracket
  | closeBracket
  | openBrace
  | closeBrace
  | blank
  | comment
  | newline
  | quoted (quotation : Quotation)
  | word
  | finish
deriving DecidableEq

structure Token where
  kind : TokenKind
  text : List Char
  start : Nat
deriving DecidableEq

namespace Token

def isBlank (c : Char) : Bool :=
  c = ' ' || c = '\t'

def endsWord (c : Char) : Bool :=
  c = '.' || c = '=' || c = ',' || c = '[' || c = ']' || c = '{' || c = '}' || isBlank c ||
    c = '#' || c = '\r' || c = '\n'

def reach (stop : Char → Bool) (cs : List Char) : Nat :=
  (cs.takeWhile fun c ↦ !stop c).length

/-- How many characters are left of a text between single quotes after the first quote. The end of a
line ends it, too. -/
def literalReach : List Char → Nat
  | [] => 0
  | c :: rest => if c = '\x27' then 1 else if c = '\n' then 0 else 1 + literalReach rest

def basicReach : List Char → Nat
  | [] => 0
  | '\\' :: '\\' :: rest => 2 + basicReach rest
  | '\\' :: '"' :: rest => 2 + basicReach rest
  | c :: rest => if c = '"' then 1 else if c = '\n' then 0 else 1 + basicReach rest

/-- The same for a text between three single quotes. Up to two more quotes belong to it; `run` is
the number of quotes just before. -/
def longLiteralReach (run : Nat) : List Char → Nat
  | [] => 0
  | c :: rest =>
    if c = '\x27' then if run = 4 then 1 else 1 + longLiteralReach (run + 1) rest
    else if 3 ≤ run then 0
    else 1 + longLiteralReach 0 rest

def longBasicReach (run : Nat) : List Char → Nat
  | [] => 0
  | [c] => if c = '"' || run < 3 then 1 else 0
  | c :: d :: rest =>
    if c = '"' then if run = 4 then 1 else 1 + longBasicReach (run + 1) (d :: rest)
    else if 3 ≤ run then 0
    else if c = '\\' && (d = '\\' || d = '"') then 2 + longBasicReach 0 rest
    else 1 + longBasicReach 0 (d :: rest)

/-- The kind of the token that starts with a character, and how many of the characters after it
belong to the token. -/
def kindAndReach (c : Char) (rest : List Char) : TokenKind × Nat :=
  match c with
  | '.' => (.dot, 0)
  | '=' => (.equals, 0)
  | ',' => (.comma, 0)
  | '[' => (.openBracket, 0)
  | ']' => (.closeBracket, 0)
  | '{' => (.openBrace, 0)
  | '}' => (.closeBrace, 0)
  | '\n' => (.newline, 0)
  | '\r' => (.newline, if rest.head? = some '\n' then 1 else 0)
  | '#' => (.comment, reach (fun d ↦ d = '\r' || d = '\n') rest)
  | '\x27' =>
    match rest with
    | '\x27' :: '\x27' :: inside => (.quoted .longLiteral, 2 + longLiteralReach 0 inside)
    | _ => (.quoted .literal, literalReach rest)
  | '"' =>
    match rest with
    | '"' :: '"' :: inside => (.quoted .longBasic, 2 + longBasicReach 0 inside)
    | _ => (.quoted .basic, basicReach rest)
  | _ =>
    if isBlank c then (.blank, reach (fun d ↦ !isBlank d) rest)
    else (.word, reach endsWord rest)

def scan (start : Nat) : List Char → List Token
  | [] => [⟨.finish, [], start⟩]
  | c :: rest =>
    let n := (kindAndReach c rest).2
    ⟨(kindAndReach c rest).1, c :: rest.take n, start⟩ ::
      scan (start + 1 + (rest.take n).length) (rest.drop n)
termination_by cs => cs.length
decreasing_by simp only [List.length_drop, List.length_cons]; omega

def ofDocument (document : List Char) : List Token :=
  match document with
  | '\uFEFF' :: rest => scan 1 rest
  | _ => scan 0 document

end Token

end TreePattern.Toml

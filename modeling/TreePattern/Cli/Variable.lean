import TreePattern.Cli.Format
import TreePattern.Json.Value
import TreePattern.Number.Digits
import TreePattern.Text.Space

namespace TreePattern.Cli.Variable

def isSeparator (c : Char) : Bool :=
  c = ',' || c = '{' || c = '}' || c = '[' || c = ']'

def isNameChar (c : Char) : Bool :=
  c.isAlphanum || c = '_' || c = '-'

def skipBlanks (cs : List Char) : List Char :=
  cs.dropWhile Text.isPlainSpace

def plainValue (cs : List Char) : Json :=
  let float : Option Json :=
    if cs.contains '.' then
      (DecimalText.ofList? cs).map fun d ↦
        match d.toBinary64? with
        | some x => .number (.float x)
        | none => .null
    else none
  let natural : Option Json :=
    (readCount (String.ofList cs)).toOption.map fun n ↦ .number (.natural (UInt64.ofNat n))
  let negative : Option Json :=
    match cs with
    | '-' :: digits =>
      match readCount (String.ofList digits) with
      | .ok n =>
        if digits.head? = some '+' || 0x8000000000000000 < n then none
        else if n = 0 then some (.number (.natural 0))
        else some (.number (.negative (Int64.ofInt (-(n : Int)))))
      | .error _ => none
    | _ => none
  ((float.or natural).or negative).getD (.string (String.ofList cs))

def quotedPart : List Char → Option (List Char × List Char)
  | [] => none
  | '"' :: rest => some ([], rest)
  | '\\' :: c :: rest => (quotedPart rest).map fun (inside, after) ↦ ('\\' :: c :: inside, after)
  | c :: rest => (quotedPart rest).map fun (inside, after) ↦ (c :: inside, after)

def ofCode? (digits : List Char) : Option Char := do
  let code ← ofDigits? 16 digits
  if code.isValidChar then some (Char.ofNat code) else none

def unescape : List Char → Option (List Char)
  | [] => some []
  | '\\' :: 'b' :: rest => (unescape rest).map ('\x08' :: ·)
  | '\\' :: 'f' :: rest => (unescape rest).map ('\x0c' :: ·)
  | '\\' :: 'n' :: rest => (unescape rest).map ('\n' :: ·)
  | '\\' :: 'r' :: rest => (unescape rest).map ('\r' :: ·)
  | '\\' :: 't' :: rest => (unescape rest).map ('\t' :: ·)
  | '\\' :: '"' :: rest => (unescape rest).map ('"' :: ·)
  | '\\' :: '\\' :: rest => (unescape rest).map ('\\' :: ·)
  | '\\' :: 'u' :: a :: b :: c :: d :: rest => do
    return (← ofCode? [a, b, c, d]) :: (← unescape rest)
  | '\\' :: 'U' :: a :: b :: c :: d :: e :: f :: g :: h :: rest => do
    return (← ofCode? [a, b, c, d, e, f, g, h]) :: (← unescape rest)
  | c :: rest =>
    if c ≠ '\\' && (c = '\t' || ' ' ≤ c && c ≠ '\x7f') then (unescape rest).map (c :: ·) else none

def quoted (cs : List Char) : Option (String × List Char) := do
  let (inside, rest) ← quotedPart cs
  return (String.ofList (← unescape inside), rest)

def name : List Char → Option (String × List Char)
  | '"' :: rest => quoted rest
  | cs =>
    let name := cs.takeWhile isNameChar
    if name.isEmpty then none else some (String.ofList name, cs.dropWhile isNameChar)

mutual

/-- Reads a value. Every call takes up fuel, of which twice the length of the text is enough. -/
def value : Nat → List Char → Option (Json × List Char)
  | 0, _ => none
  | fuel + 1, cs =>
    let found : Option (Json × List Char) :=
      match skipBlanks cs with
      | 't' :: 'r' :: 'u' :: 'e' :: rest => some (.bool true, rest)
      | 'f' :: 'a' :: 'l' :: 's' :: 'e' :: rest => some (.bool false, rest)
      | '{' :: rest => members fuel [] rest
      | '[' :: rest => items fuel [] rest
      | '"' :: rest => (quoted rest).map fun (s, after) ↦ (.string s, after)
      | '\x27' :: c :: '\x27' :: rest => some (.string (String.singleton c), rest)
      | '\x27' :: _ => none
      | plain =>
        some (plainValue (Text.trim (plain.takeWhile fun c ↦ !isSeparator c)),
          plain.dropWhile fun c ↦ !isSeparator c)
    found.map fun (v, rest) ↦ (v, skipBlanks rest)

def items : Nat → List Json → List Char → Option (Json × List Char)
  | 0, _, _ => none
  | _ + 1, read, ']' :: rest => some (.array read.reverse, rest)
  | fuel + 1, read, cs => do
    let (item, rest) ← value fuel cs
    match rest with
    | ',' :: rest => items fuel (item :: read) rest
    | ']' :: rest => some (.array (item :: read).reverse, rest)
    | _ => none

def members : Nat → List (String × Json) → List Char → Option (Json × List Char)
  | 0, _, _ => none
  | _ + 1, read, '}' :: rest => some (.object read.reverse, rest)
  | fuel + 1, read, cs => do
    let (key, rest) ← name (skipBlanks cs)
    match skipBlanks rest with
    | '=' :: rest =>
      let (v, rest) ← value fuel rest
      match rest with
      | ',' :: rest => members fuel (Json.addMember read key v) rest
      | '}' :: rest => some (.object (Json.addMember read key v).reverse, rest)
      | _ => none
    | _ => none

end

def startsEnclosed (cs : List Char) : Bool :=
  match cs with
  | c :: _ => c = '[' || c = '{' || c = '"' || c = '\x27'
  | [] => false

/-- The value of a variable, without regard to blanks around it. -/
def read (text : String) : Json :=
  let cs := Text.trim text.toList
  if cs.contains ',' && !startsEnclosed cs then
    .array ((cs.splitOn ',').map fun part ↦ .string (String.ofList (Text.trim part)))
  else
    match value (2 * cs.length + 2) cs with
    | some (v, []) => v
    | _ => .string (String.ofList cs)

/-- The keys that a variable leads through, if its name has the given beginning in any mixture of
cases. Two underscores or a point stand between keys. -/
def path? (start name : String) : Option (List String) :=
  let cs := name.toList.map Char.toLower
  let start := start.toList.map Char.toLower
  if start.isPrefixOf cs then
    let parts := (splitKeys (cs.drop start.length)).map String.ofList
    if parts.any String.isEmpty then none else some parts
  else none
where
  splitKeys : List Char → List (List Char)
    | [] => [[]]
    | '_' :: '_' :: rest => [] :: splitKeys rest
    | '.' :: rest => [] :: splitKeys rest
    | c :: rest =>
      match splitKeys rest with
      | [] => [[c]]
      | part :: parts => (c :: part) :: parts

end TreePattern.Cli.Variable

import TreePattern.Toml.Number
import TreePattern.Toml.Quoted
import TreePattern.Toml.Value

namespace TreePattern.Toml

namespace DateTime

def twoDigits (low high : Nat) (a b : Char) : Bool :=
  match ofDigits? 10 [a, b] with
  | some n => low ≤ n && n ≤ high
  | none => false

def isLeapYear (year : Nat) : Bool :=
  year % 4 = 0 && (year % 100 ≠ 0 || year % 400 = 0)

def daysInMonth (year month : Nat) : Nat :=
  if month = 2 then if isLeapYear year then 29 else 28
  else if month = 4 || month = 6 || month = 9 || month = 11 then 30
  else 31

def afterDate? : List Char → Option (List Char)
  | a :: b :: c :: d :: '-' :: e :: f :: '-' :: g :: h :: rest => do
    let year ← ofDigits? 10 [a, b, c, d]
    let month ← ofDigits? 10 [e, f]
    let day ← ofDigits? 10 [g, h]
    if 1 ≤ month && month ≤ 12 && 1 ≤ day && day ≤ daysInMonth year month then some rest else none
  | _ => none

def afterSeconds? : List Char → Option (List Char)
  | ':' :: a :: b :: rest =>
    if twoDigits 0 60 a b then
      match rest with
      | '.' :: fraction =>
        if (fraction.takeWhile Char.isDigit).isEmpty then none
        else some (fraction.dropWhile Char.isDigit)
      | _ => some rest
    else none
  | cs => some cs

def afterTime? : List Char → Option (List Char)
  | a :: b :: ':' :: c :: d :: rest =>
    if twoDigits 0 23 a b && twoDigits 0 59 c d then afterSeconds? rest else none
  | _ => none

/-- Whether a text is the distance of a local time from the world time. -/
def isOffset : List Char → Bool
  | [] => true
  | ['Z'] | ['z'] => true
  | [sign, a, b, ':', c, d] =>
    (sign = '+' || sign = '-') && twoDigits 0 23 a b && twoDigits 0 59 c d
  | _ => false

def isValid (cs : List Char) : Bool :=
  match afterDate? cs with
  | none => afterTime? cs = some []
  | some [] => true
  | some (c :: rest) =>
    (c = 'T' || c = 't' || c = ' ') && (afterTime? rest).any isOffset

end DateTime

namespace Lexeme

def piece (l : Lexeme) : Piece := ⟨l.start, l.text⟩

def stop (l : Lexeme) : Nat := l.start + l.text.length

def integer (l : Lexeme) (negative : Bool) (base : Nat) (digits : List Char) : Value :=
  match ofDigits? base (digits.filter (· ≠ '_')) with
  | none => .outOfRange l.start
  | some n =>
    if negative then
      if n ≤ 0x8000000000000000 then .integer (Int64.ofInt (-(n : Int))) else .outOfRange l.start
    else if n < 0x8000000000000000 then .integer (Int64.ofNat n)
    else .outOfRange l.start

def float (l : Lexeme) : Value :=
  match (DecimalText.ofList? (l.text.filter (· ≠ '_'))).bind (·.toBinary64?) with
  | some x => .float x
  | none => .outOfRange l.start

def number (l : Lexeme) (negative : Bool) (p : Piece) : Except Nat Value := do
  let rest := p.text.dropWhile Char.isDigit
  match rest.head? with
  | none =>
    p.checkLeadingZero
    return l.integer negative 10 p.text
  | some c =>
    if c = '-' || c = ':' then
      if DateTime.isValid l.text then return .dateTime (String.ofList l.text) else throw l.start
    else if rest.contains ' ' then throw l.start
    else if rest.any fun d ↦ d = '.' || d = 'e' || d = 'E' then
      p.checkFloat
      p.checkUnderscores Char.isDigit l.start l.stop
      return l.float
    else if c = '_' then
      p.checkLeadingZero
      p.checkUnderscores (fun d ↦ (hexDigit? d).isSome) l.start l.stop
      return l.integer negative 10 p.text
    else throw l.start

def inBase (l : Lexeme) (base : Nat) (p : Piece) : Except Nat Value := do
  let fits (c : Char) : Bool := (hexDigit? c).any (· < base) || c = '_'
  let fine := p.text.takeWhile fits
  if fine.length < p.text.length then throw (p.start + fine.length)
  p.checkUnderscores (fun d ↦ (hexDigit? d).isSome) l.start l.stop
  return l.integer false base p.text

def afterZero (l : Lexeme) (signed negative : Bool) (p : Piece) : Except Nat Value :=
  let inBase (base : Nat) : Except Nat Value :=
    if signed then .error l.start else l.inBase base (p.drop 2)
  match p.text with
  | _ :: 'x' :: _ => inBase 16
  | _ :: 'o' :: _ => inBase 8
  | _ :: 'b' :: _ => inBase 2
  | [_] => .ok (l.integer negative 10 p.text)
  | _ :: c :: _ =>
    if c = 'X' || c = 'O' || c = 'B' || c = 'd' || c = 'D' then .error l.start
    else l.number negative p
  | [] => .error l.start

def startsNumber (c : Char) : Bool :=
  '1' ≤ c && c ≤ '9' || c = '_' || c = '.'

def notANumber : Binary64 := ⟨0x7FF8000000000000⟩

def afterSign (l : Lexeme) (negative : Bool) (p : Piece) : Except Nat Value :=
  let named (name : List Char) (x : Binary64) : Except Nat Value :=
    if p.text = name then .ok (.float x) else .error p.start
  match p.text.head? with
  | none => .error l.start
  | some c =>
    if c = '+' || c = '-' then .error p.start
    else if c = '0' then l.afterZero true negative p
    else if c = 'i' || c = 'I' then
      named ['i', 'n', 'f'] (.ofMagnitude negative Binary64.infinityBits)
    else if c = 'n' || c = 'N' then named ['n', 'a', 'n'] notANumber
    else if startsNumber c then l.number negative p
    else .error l.start

def unquotedValue (l : Lexeme) : Except Nat Value :=
  match l.text with
  | ['t', 'r', 'u', 'e'] => .ok (.bool true)
  | ['f', 'a', 'l', 's', 'e'] => .ok (.bool false)
  | ['i', 'n', 'f'] => .ok (.float (.ofMagnitude false Binary64.infinityBits))
  | ['n', 'a', 'n'] => .ok (.float notANumber)
  | [] => .error l.start
  | c :: _ =>
    if c = '+' || c = '-' then l.afterSign (c = '-') (l.piece.drop 1)
    else if c = '0' then l.afterZero false false l.piece
    else if startsNumber c then l.number false l.piece
    else .error l.start

def value (l : Lexeme) : Except Nat Value :=
  match l.quotation with
  | some quotation => (quotation.unquote l.start l.text).map .text
  | none => l.unquotedValue

def isNameChar (c : Char) : Bool :=
  c.isAlphanum || c = '-' || c = '_'

def name (l : Lexeme) : Except Nat String :=
  match l.quotation with
  | some .longLiteral | some .longBasic => .error l.start
  | some quotation => quotation.unquote l.start l.text
  | none =>
    let fine := l.text.takeWhile isNameChar
    if l.text.isEmpty || fine.length < l.text.length then .error (l.start + fine.length)
    else .ok (String.ofList l.text)

end Lexeme

end TreePattern.Toml

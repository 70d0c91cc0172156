import TreePattern.Json.Value
import TreePattern.Number.Digits

namespace TreePattern.Json

/-- A place in a text: the line, from one, and the number of bytes before it on that line. -/
structure Position where
  line : Nat
  column : Nat
deriving DecidableEq, Inhabited

namespace Position

def start : Position := ⟨1, 0⟩

def within (p : Position) (c : Char) (bytes : Nat) : Position :=
  if c = '\n' then ⟨p.line + 1, 0⟩ else ⟨p.line, p.column + bytes⟩

def after (p : Position) (c : Char) : Position :=
  p.within c c.utf8Size

end Position

inductive Fault where
  | endInValue
  | endInList
  | endInObject
  | endInString
  | expectedValue
  | expectedColon
  | expectedListEnd
  | expectedObjectEnd
  | expectedKey
  | expectedWord
  | trailingComma
  | trailingCharacters
  | tooDeep
  | invalidNumber
  | numberOutOfRange
  | invalidEscape
  | controlCharacter
  | endOfSurrogates
  | loneSurrogate
  | rejected (reason : String)
deriving DecidableEq

def Fault.message : Fault → String
  | .endInValue => "EOF while parsing a value"
  | .endInList => "EOF while parsing a list"
  | .endInObject => "EOF while parsing an object"
  | .endInString => "EOF while parsing a string"
  | .expectedValue => "expected value"
  | .expectedColon => "expected `:`"
  | .expectedListEnd => "expected `,` or `]`"
  | .expectedObjectEnd => "expected `,` or `\x7d`"
  | .expectedKey => "key must be a string"
  | .expectedWord => "expected ident"
  | .trailingComma => "trailing comma"
  | .trailingCharacters => "trailing characters"
  | .tooDeep => "recursion limit exceeded"
  | .invalidNumber => "invalid number"
  | .numberOutOfRange => "number out of range"
  | .invalidEscape => "invalid escape"
  | .controlCharacter => "control character (\\u0000-\\u001F) found while parsing a string"
  | .endOfSurrogates => "unexpected end of hex escape"
  | .loneSurrogate => "lone leading surrogate in hex escape"
  | .rejected reason => reason

structure ReadError where
  fault : Fault
  position : Option Position
deriving DecidableEq

def ReadError.message (e : ReadError) : String :=
  match e.position with
  | none => e.fault.message
  | some p => e.fault.message ++ " at line " ++ toString p.line ++ " column " ++ toString p.column

structure Demands (α : Type) where
  nesting : Option Nat
  /-- What the whole document stands for. This is settled as soon as the last character of the
  document is known to be read, before the rest of the text is looked at. -/
  accept : Position → Json → Except ReadError α

def Demands.none : Demands Json where
  nesting := Option.none
  accept _ document := .ok document

/-- Any document in which at most 127 brackets are open at once. -/
def Demands.shallow : Demands Json where
  nesting := some 127
  accept _ document := .ok document

namespace Reader

inductive Frame where
  | item (read : List Json)
  | member (read : List (String × Json)) (key : String)

inductive Role where
  | value
  | key (read : List (String × Json))

/-- The part of a number before its exponent: `digits / 10 ^ places`. -/
structure Numeral where
  negative : Bool
  digits : Nat
  places : Nat

def Numeral.push (n : Numeral) (digit : Nat) : Numeral :=
  { n with digits := 10 * n.digits + digit }

inductive Phase (α : Type) where
  | value
  | firstItem
  | nextItem (read : List Json)
  | afterItem (read : List Json)
  | firstKey
  | nextKey (read : List (String × Json))
  | afterKey (read : List (String × Json)) (key : String)
  | afterMember (read : List (String × Json))
  | word (rest : List Char) (value : Json)
  | text (role : Role) (read : String)
  | escape (role : Role) (read : String)
  /-- Inside `\uXXXX`, after the given number of bytes; the code is lost once a byte is no digit.
  The high surrogate is the one that this escape has to complete. -/
  | hex (role : Role) (read : String) (high : Option Nat) (bytes : Nat) (code : Option Nat)
  | lowEscape (role : Role) (read : String) (high : Nat)
  | lowMark (role : Role) (read : String) (high : Nat)
  | minus
  | zero (negative : Bool)
  | integer (number : Numeral)
  | point (number : Numeral)
  | fraction (number : Numeral)
  | mark (number : Numeral)
  | sign (number : Numeral) (down : Bool)
  | exponent (number : Numeral) (down : Bool) (magnitude : Nat)
  /-- Inside an exponent that is too long to matter, of a number that is zero in any case. -/
  | vanishing (negative : Bool)
  | finished (result : α)

structure State (α : Type) where
  phase : Phase α
  stack : List Frame
  position : Position

variable {α : Type}

def State.initial : State α := ⟨.value, [], .start⟩

def isBlank (c : Char) : Bool :=
  c = ' ' || c = '\t' || c = '\n' || c = '\r'

def State.failAt {β : Type} (s : State α) (c : Char) (fault : Fault) : Except ReadError β :=
  .error ⟨fault, some (s.position.within c 1)⟩

def State.failHere {β : Type} (s : State α) (fault : Fault) : Except ReadError β :=
  .error ⟨fault, some s.position⟩

def State.deliver (demands : Demands α) (s : State α) (value : Json) : Except ReadError (State α) :=
  match s.stack with
  | [] => do
    return { s with phase := .finished (← demands.accept s.position value) }
  | .item read :: outer => return { s with phase := .afterItem (value :: read), stack := outer }
  | .member read key :: outer =>
    return { s with phase := .afterMember (addMember read key value), stack := outer }

def State.begin (demands : Demands α) (s : State α) (c : Char) : Except ReadError (State α) :=
  let enter (phase : Phase α) : Except ReadError (State α) :=
    return { s with phase, position := s.position.after c }
  let opening (phase : Phase α) : Except ReadError (State α) :=
    match demands.nesting with
    | some limit => if limit ≤ s.stack.length then s.failAt c .tooDeep else enter phase
    | none => enter phase
  match c with
  | 'n' => enter (.word "ull".toList .null)
  | 't' => enter (.word "rue".toList (.bool true))
  | 'f' => enter (.word "alse".toList (.bool false))
  | '"' => enter (.text .value "")
  | '-' => enter .minus
  | '0' => enter (.zero false)
  | '[' => opening .firstItem
  | '{' => opening .firstKey
  | _ =>
    match digit? c with
    | some d => enter (.integer ⟨false, d, 0⟩)
    | none => s.failAt c .expectedValue

def State.stepBetween (demands : Demands α) (s : State α) (c : Char) : Except ReadError (State α) :=
  let next : State α := { s with position := s.position.after c }
  match s.phase with
  | .afterItem read =>
    if isBlank c then return next
    else if c = ',' then return { next with phase := .nextItem read }
    else if c = ']' then next.deliver demands (.array read.reverse)
    else s.failAt c .expectedListEnd
  | .afterMember read =>
    if isBlank c then return next
    else if c = ',' then return { next with phase := .nextKey read }
    else if c = '}' then next.deliver demands (.object read.reverse)
    else s.failAt c .expectedObjectEnd
  | _ => if isBlank c then return next else s.failAt c .trailingCharacters

def State.endNumber (demands : Demands α) (s : State α) (number : Option JsonNumber) :
    Except ReadError (State α) :=
  match number with
  | some n => s.deliver demands (.number n)
  | none => s.failHere .numberOutOfRange

/-- Ends the number that the phase is inside of. In any other phase there is none to end. -/
def State.settle (demands : Demands α) (s : State α) : Except ReadError (State α) :=
  let decimal (n : Numeral) (exponent : Int) : Option JsonNumber :=
    (Binary64.ofDecimal? n.negative n.digits (exponent - n.places)).map .float
  match s.phase with
  | .zero negative => s.endNumber demands (JsonNumber.ofInteger? negative 0)
  | .integer n => s.endNumber demands (JsonNumber.ofInteger? n.negative n.digits)
  | .fraction n => s.endNumber demands (decimal n 0)
  | .exponent n down magnitude =>
    s.endNumber demands (decimal n (if down then -(magnitude : Int) else magnitude))
  | .vanishing negative => s.endNumber demands (some (.float (Binary64.ofMagnitude negative 0)))
  | _ => return s

def surrogatePair (high low : Nat) : Char :=
  Char.ofNat (0x10000 + (high - 0xD800) * 0x400 + (low - 0xDC00))

def State.stepText (demands : Demands α) (s : State α) (role : Role) (read : String) (c : Char) :
    Except ReadError (State α) :=
  let next : State α := { s with position := s.position.after c }
  if c = '"' then
    match role with
    | .value => next.deliver demands (.string read)
    | .key members => return { next with phase := .afterKey members read }
  else if c = '\\' then return { next with phase := .escape role read }
  else if c < ' ' then s.failAt c .controlCharacter
  else return { next with phase := .text role (read.push c) }

def State.stepEscape (s : State α) (role : Role) (read : String) (c : Char) :
    Except ReadError (State α) :=
  let next : State α := { s with position := s.position.after c }
  let put (d : Char) : Except ReadError (State α) :=
    return { next with phase := .text role (read.push d) }
  match c with
  | '"' => put '"'
  | '\\' => put '\\'
  | '/' => put '/'
  | 'b' => put '\x08'
  | 'f' => put '\x0c'
  | 'n' => put '\n'
  | 'r' => put '\r'
  | 't' => put '\t'
  | 'u' => return { next with phase := .hex role read none 0 (some 0) }
  | _ => s.failAt c .invalidEscape

/-- Takes a character of a `\uXXXX` escape. The escape is judged only when its fourth byte is
there. -/
def State.stepHex (s : State α) (role : Role) (read : String) (high : Option Nat) (bytes : Nat)
    (code : Option Nat) (c : Char) : Except ReadError (State α) :=
  let next : State α := { s with position := s.position.after c }
  let extended : Option Nat := do return 16 * (← code) + (← hexDigit? c)
  if bytes + c.utf8Size < 4 then
    return { next with phase := .hex role read high (bytes + c.utf8Size) extended }
  else
    let fail (fault : Fault) : Except ReadError (State α) :=
      .error ⟨fault, some (s.position.within c (4 - bytes))⟩
    match extended, high with
    | none, _ => fail .invalidEscape
    | some n, some h =>
      if 0xDC00 ≤ n ∧ n ≤ 0xDFFF then
        return { next with phase := .text role (read.push (surrogatePair h n)) }
      else fail .loneSurrogate
    | some n, none =>
      if 0xDC00 ≤ n ∧ n ≤ 0xDFFF then fail .loneSurrogate
      else if 0xD800 ≤ n ∧ n ≤ 0xDBFF then return { next with phase := .lowEscape role read n }
      else return { next with phase := .text role (read.push (Char.ofNat n)) }

/-- Takes a character at which a number may go on. Any other character ends the number and is then
taken as what follows it. -/
def State.stepNumber (demands : Demands α) (s : State α) (c : Char) : Except ReadError (State α) :=
  let enter (phase : Phase α) : Except ReadError (State α) :=
    return { s with phase, position := s.position.after c }
  let ended : Except ReadError (State α) := do (← s.settle demands).stepBetween demands c
  let isMark : Bool := c = 'e' || c = 'E'
  match s.phase, digit? c with
  | .zero _, some _ => s.failAt c .invalidNumber
  | .zero negative, none =>
    if c = '.' then enter (.point ⟨negative, 0, 0⟩)
    else if isMark then enter (.mark ⟨negative, 0, 0⟩)
    else ended
  | .integer n, some d => enter (.integer (n.push d))
  | .integer n, none =>
    if c = '.' then enter (.point n) else if isMark then enter (.mark n) else ended
  | .fraction n, some d => enter (.fraction { n.push d with places := n.places + 1 })
  | .fraction n, none => if isMark then enter (.mark n) else ended
  | .exponent n down magnitude, some d =>
    if 10 * magnitude + d < 2147483648 then enter (.exponent n down (10 * magnitude + d))
    else if n.digits ≠ 0 ∧ down = false then s.failAt c .numberOutOfRange
    else enter (.vanishing n.negative)
  | .vanishing negative, some _ => enter (.vanishing negative)
  | _, _ => ended

def State.step (demands : Demands α) (s : State α) (c : Char) : Except ReadError (State α) :=
  let enter (phase : Phase α) : Except ReadError (State α) :=
    return { s with phase, position := s.position.after c }
  let skip : Except ReadError (State α) := return { s with position := s.position.after c }
  match s.phase with
  | .value => if isBlank c then skip else s.begin demands c
  | .firstItem =>
    if isBlank c then skip
    else if c = ']' then
      { s with position := s.position.after c }.deliver demands (.array [])
    else { s with stack := .item [] :: s.stack }.begin demands c
  | .nextItem read =>
    if isBlank c then skip
    else if c = ']' then s.failAt c .trailingComma
    else { s with stack := .item read :: s.stack }.begin demands c
  | .firstKey =>
    if isBlank c then skip
    else if c = '}' then
      { s with position := s.position.after c }.deliver demands (.object [])
    else if c = '"' then enter (.text (.key []) "")
    else s.failAt c .expectedKey
  | .nextKey read =>
    if isBlank c then skip
    else if c = '}' then s.failAt c .trailingComma
    else if c = '"' then enter (.text (.key read) "")
    else s.failAt c .expectedKey
  | .afterKey read key =>
    if isBlank c then skip
    else if c = ':' then
      return {
        phase := .value
        stack := .member read key :: s.stack
        position := s.position.after c }
    else s.failAt c .expectedColon
  | .word [] _ => s.failAt c .expectedWord
  | .word [last] value =>
    if c = last then { s with position := s.position.after c }.deliver demands value
    else s.failAt c .expectedWord
  | .word (expected :: rest) value =>
    if c = expected then enter (.word rest value) else s.failAt c .expectedWord
  | .text role read => s.stepText demands role read c
  | .escape role read => s.stepEscape role read c
  | .hex role read high bytes code => s.stepHex role read high bytes code c
  | .lowEscape role read high =>
    if c = '\\' then enter (.lowMark role read high) else s.failAt c .endOfSurrogates
  | .lowMark role read high =>
    if c = 'u' then enter (.hex role read (some high) 0 (some 0)) else s.failAt c .endOfSurrogates
  | .minus =>
    match digit? c with
    | some 0 => enter (.zero true)
    | some d => enter (.integer ⟨true, d, 0⟩)
    | none => s.failAt c .invalidNumber
  | .point n =>
    match digit? c with
    | some d => enter (.fraction { n.push d with places := n.places + 1 })
    | none => s.failAt c .invalidNumber
  | .mark n =>
    match digit? c with
    | some d => enter (.exponent n false d)
    | none =>
      if c = '+' then enter (.sign n false)
      else if c = '-' then enter (.sign n true)
      else s.failAt c .invalidNumber
  | .sign n down =>
    match digit? c with
    | some d => enter (.exponent n down d)
    | none => s.failAt c .invalidNumber
  | .zero _ | .integer _ | .fraction _ | .exponent _ _ _ | .vanishing _ => s.stepNumber demands c
  | .afterItem _ | .afterMember _ | .finished _ => s.stepBetween demands c

def State.conclude (s : State α) : Except ReadError α :=
  match s.phase with
  | .finished result => return result
  | .firstItem | .afterItem _ => s.failHere .endInList
  | .firstKey | .afterKey _ _ | .afterMember _ => s.failHere .endInObject
  | .text _ _ | .escape _ _ | .hex _ _ _ _ _ | .lowEscape _ _ _ | .lowMark _ _ _ =>
    s.failHere .endInString
  | _ => s.failHere .endInValue

def State.run (demands : Demands α) (s : State α) : List Char → Except ReadError (State α)
  | [] => .ok s
  | c :: rest =>
    match s.step demands c with
    | .ok t => t.run demands rest
    | .error e => .error e

end Reader

/-- Reads a whole text as one document, and gives what the document stands for. -/
def read {α : Type} (demands : Demands α) (text : String) : Except ReadError α := do
  let s ← Reader.State.initial.run demands text.toList
  (← s.settle demands).conclude

end TreePattern.Json

namespace TreePattern.Cli

inductive OutputFormat where
  | human
  | json
deriving DecidableEq, Inhabited

namespace OutputFormat

def name : OutputFormat → String
  | .human => "human"
  | .json => "json"

def ofName? : String → Option OutputFormat
  | "human" => some .human
  | "json" => some .json
  | _ => none

end OutputFormat

inductive LogFormat where
  | json
  | compact
deriving DecidableEq, Inhabited

namespace LogFormat

def name : LogFormat → String
  | .json => "json"
  | .compact => "compact"

def ofName? : String → Option LogFormat
  | "json" => some .json
  | "compact" => some .compact
  | _ => none

def ofAnyCase? (name : String) : Option LogFormat :=
  ofName? (name.map Char.toLower)

end LogFormat

inductive NumeralFault where
  | empty
  | invalidDigit
  | tooLarge
deriving DecidableEq

def NumeralFault.message : NumeralFault → String
  | .empty => "cannot parse integer from empty string"
  | .invalidDigit => "invalid digit found in string"
  | .tooLarge => "number too large to fit in target type"

def readDigits (bound : Nat) : Nat → List Char → Except NumeralFault Nat
  | n, [] => .ok n
  | n, c :: rest =>
    if c.isDigit then
      let extended := 10 * n + (c.toNat - '0'.toNat)
      if extended < bound then readDigits bound extended rest else .error .tooLarge
    else .error .invalidDigit

def readCount (text : String) : Except NumeralFault Nat :=
  match text.toList with
  | [] => .error .empty
  | ['+'] => .error .invalidDigit
  | '+' :: digits => readDigits UInt64.size 0 digits
  | digits => readDigits UInt64.size 0 digits

end TreePattern.Cli

import TreePattern.Number.Binary64

namespace TreePattern

def digit? (c : Char) : Option Nat :=
  if '0' ≤ c ∧ c ≤ '9' then some (c.toNat - '0'.toNat) else none

def hexDigit? (c : Char) : Option Nat :=
  if '0' ≤ c ∧ c ≤ '9' then some (c.toNat - '0'.toNat)
  else if 'a' ≤ c ∧ c ≤ 'f' then some (c.toNat - 'a'.toNat + 10)
  else if 'A' ≤ c ∧ c ≤ 'F' then some (c.toNat - 'A'.toNat + 10)
  else none

def ofDigits? (base : Nat) (cs : List Char) : Option Nat :=
  let push (n : Nat) (c : Char) : Option Nat := do
    let digit ← hexDigit? c
    if digit < base then some (base * n + digit) else none
  if cs.isEmpty then none else cs.foldlM push 0

structure DecimalText where
  negative : Bool
  whole : List Char
  fraction : List Char
  exponent : Int

namespace DecimalText

def exponent? : List Char → Option Int
  | [] => some 0
  | c :: rest =>
    if c = 'e' || c = 'E' then
      match rest with
      | '-' :: digits => (ofDigits? 10 digits).map fun n ↦ -(n : Int)
      | '+' :: digits => (ofDigits? 10 digits).map Int.ofNat
      | digits => (ofDigits? 10 digits).map Int.ofNat
    else none

def ofUnsigned? (negative : Bool) (cs : List Char) : Option DecimalText :=
  let whole := cs.takeWhile Char.isDigit
  let rest := cs.dropWhile Char.isDigit
  let (fraction, rest) :=
    match rest with
    | '.' :: after => (after.takeWhile Char.isDigit, after.dropWhile Char.isDigit)
    | _ => ([], rest)
  if whole.isEmpty && fraction.isEmpty then none
  else (exponent? rest).map fun exponent ↦ ⟨negative, whole, fraction, exponent⟩

def ofList? : List Char → Option DecimalText
  | '-' :: rest => ofUnsigned? true rest
  | '+' :: rest => ofUnsigned? false rest
  | cs => ofUnsigned? false cs

def toBinary64? (d : DecimalText) : Option Binary64 :=
  Binary64.ofDecimal? d.negative ((ofDigits? 10 (d.whole ++ d.fraction)).getD 0)
    (d.exponent - d.fraction.length)

end DecimalText

end TreePattern

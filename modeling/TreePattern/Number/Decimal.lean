import TreePattern.Number.Binary64

namespace TreePattern

structure Decimal where
  digits : Nat
  exponent : Int
deriving DecidableEq

inductive Tie where
  | toEven
  | awayFromZero
deriving DecidableEq

namespace Binary64

def parts (x : Binary64) : Nat × Int :=
  let biased : Nat := x.magnitude / exponentBit
  let fraction : Nat := x.magnitude % exponentBit
  if biased = 0 then (fraction, -1074) else (exponentBit + fraction, (biased : Int) - 1075)

def narrowBelow (x : Binary64) : Bool :=
  x.magnitude % exponentBit = 0 && 1 < x.magnitude / exponentBit

end Binary64

namespace Decimal

def compareScaled (a : Nat) (i : Int) (n : Nat) (j : Int) : Ordering :=
  compare (a * power 10 i * power 2 (-j)) (n * power 2 j * power 10 (-i))

/-- Whether `d` lies among the reals for which `x` is the nearest double. They reach half way to
each neighbour of `x`, and the end points belong to them when the significand of `x` is even. -/
def readsBack (x : Binary64) (d : Decimal) : Bool :=
  let (m, q) := x.parts
  let low := if x.narrowBelow then 4 * m - 1 else 4 * m - 2
  let closed := m % 2 == 0
  let below := compareScaled d.digits d.exponent low (q - 2)
  let above := compareScaled d.digits d.exponent (4 * m + 2) (q - 2)
  (below == .gt || closed && below == .eq) && (above == .lt || closed && above == .eq)

def leastPower (m : Nat) (q : Int) : Nat → Int → Int
  | 0, start => start
  | steps + 1, start =>
    if compareScaled 1 start m q == .gt then start else leastPower m q steps (start + 1)

/-- The least `k` with `m * 2 ^ q < 10 ^ k`, for a positive `m`. The search starts at a lower bound
taken from the binary logarithm. -/
def magnitudePower (m : Nat) (q : Int) : Int :=
  let bits : Int := (m.log2 : Int) + q
  leastPower m q 8 (bits * 30103 / 100000 - 2)

/-- Of the two neighbours of `x` on the grid of multiples of `10 ^ unit`, the one to print: it has
to read back, and the nearer one is preferred. -/
def onGrid? (tie : Tie) (x : Binary64) (unit : Int) : Option Decimal :=
  let (m, q) := x.parts
  let num := m * power 2 q * power 10 (-unit)
  let den := power 2 (-q) * power 10 unit
  let lower : Decimal := ⟨num / den, unit⟩
  let upper : Decimal := ⟨num / den + 1, unit⟩
  match readsBack x lower, readsBack x upper with
  | false, false => none
  | true, false => some lower
  | false, true => some upper
  | true, true =>
    match compare (2 * (num % den)) den, tie with
    | .lt, _ => some lower
    | .gt, _ => some upper
    | .eq, .awayFromZero => some upper
    | .eq, .toEven => some (if lower.digits % 2 = 0 then lower else upper)

def stripZeros : Nat → Decimal → Decimal
  | 0, d => d
  | fuel + 1, d =>
    if d.digits ≠ 0 ∧ d.digits % 10 = 0 then stripZeros fuel ⟨d.digits / 10, d.exponent + 1⟩ else d

def exact (x : Binary64) : Decimal :=
  let (m, q) := x.parts
  ⟨m * power 2 q * power 5 (-q), min q 0⟩

/-- The shortest decimal that reads back as the finite non-zero double `x`. -/
def shortest (tie : Tie) (x : Binary64) : Decimal :=
  let (m, q) := x.parts
  let power := magnitudePower m q
  let found := (List.range 17).findSome? fun n ↦ onGrid? tie x (power - (n + 1 : Nat))
  stripZeros 400 (found.getD (exact x))

end Decimal

/-- How a double is written once its digits are known. -/
structure NumberLayout where
  tie : Tie
  /-- The exponents of the leading digit that are written without an exponent part, as a closed
  range. Without a range no exponent part is ever written. -/
  plain : Option (Int × Int)
  pointZero : Bool

namespace NumberLayout

def display : NumberLayout where
  tie := .awayFromZero
  plain := none
  pointZero := false

def json : NumberLayout where
  tie := .toEven
  plain := some (-5, 15)
  pointZero := true

def leadingExponent (digits : String) (d : Decimal) : Int :=
  d.exponent + digits.length - 1

def positional (layout : NumberLayout) (digits : String) (exponent : Int) : String :=
  if 0 ≤ exponent then
    digits ++ "".pushn '0' exponent.toNat ++ (if layout.pointZero then ".0" else "")
  else
    let fractional := (-exponent).toNat
    if fractional < digits.length then
      (digits.take (digits.length - fractional)).toString ++ "." ++
        (digits.drop (digits.length - fractional)).toString
    else
      "0." ++ "".pushn '0' (fractional - digits.length) ++ digits

def scientific (digits : String) (leading : Int) : String :=
  let head := (digits.take 1).toString
  let tail := (digits.drop 1).toString
  let sign := if 0 ≤ leading then "+" else "-"
  head ++ (if tail.isEmpty then "" else "." ++ tail) ++ "e" ++ sign ++ toString leading.natAbs

def unsigned (layout : NumberLayout) (x : Binary64) : String :=
  if x.isNaN then "NaN"
  else if x.isInfinite then "inf"
  else if x.isZero then if layout.pointZero then "0.0" else "0"
  else
    let d := Decimal.shortest layout.tie x
    let digits := toString d.digits
    let leading := leadingExponent digits d
    match layout.plain with
    | none => layout.positional digits d.exponent
    | some (low, high) =>
      if low ≤ leading ∧ leading ≤ high then layout.positional digits d.exponent
      else scientific digits leading

def render (layout : NumberLayout) (x : Binary64) : String :=
  (if x.isNegative && !x.isNaN then "-" else "") ++ layout.unsigned x

end NumberLayout

end TreePattern

namespace TreePattern

/-- The power `base ^ e`, or one if the exponent is negative. Multiplying by `base ^ e` is
multiplying by the power with exponent `e` and dividing by the one with exponent `-e`. -/
def power (base : Nat) (e : Int) : Nat :=
  Nat.pow base e.toNat

structure Binary64 where
  bits : UInt64
deriving DecidableEq, Inhabited

namespace Binary64

def signBit : Nat := 0x8000000000000000

def exponentBit : Nat := 0x0010000000000000

def infinityBits : Nat := 0x7FF0000000000000

def magnitude (x : Binary64) : Nat :=
  x.bits.toNat % signBit

def isNegative (x : Binary64) : Bool :=
  signBit ≤ x.bits.toNat

def isNaN (x : Binary64) : Bool :=
  infinityBits < x.magnitude

def isInfinite (x : Binary64) : Bool :=
  x.magnitude = infinityBits

def isZero (x : Binary64) : Bool :=
  x.magnitude = 0

def eqv (x y : Binary64) : Bool :=
  !x.isNaN && !y.isNaN && (x.bits == y.bits || x.isZero && y.isZero)

def ofMagnitude (negative : Bool) (magnitude : Nat) : Binary64 :=
  ⟨UInt64.ofNat (magnitude + if negative then signBit else 0)⟩

def roundHalfEven (num den : Nat) : Nat :=
  let quotient := num / den
  let twice := 2 * (num % den)
  if twice < den then quotient
  else if den < twice then quotient + 1
  else quotient + quotient % 2

/-- The magnitude of the double nearest to the positive rational `num / den`. The value is scaled
so that its integer part has 53 bits, or to the finest scale there is, and rounded there; a carry
out of the significand moves into the exponent by itself. -/
def nearestMagnitude (num den : Nat) : Nat :=
  let estimate : Int := (num.log2 : Int) - den.log2
  let reached : Bool := den * power 2 estimate ≤ num * power 2 (-estimate)
  let leading : Int := if reached then estimate else estimate - 1
  let scale : Int := max (leading - 52) (-1074)
  let significand := roundHalfEven (num * power 2 (-scale)) (den * power 2 scale)
  (scale + 1074).toNat * exponentBit + significand

/-- The double nearest to `digits * 10 ^ exponent`, or `none` when that is too large for a double.
Exponents far outside the range of doubles are settled without computing the power. -/
def ofDecimal? (negative : Bool) (digits : Nat) (exponent : Int) : Option Binary64 :=
  if digits = 0 then some (ofMagnitude negative 0)
  else if 400 < exponent then none
  else if exponent < -(401 + digits.log2 : Int) then some (ofMagnitude negative 0)
  else
    let magnitude := nearestMagnitude (digits * power 10 exponent) (power 10 (-exponent))
    if magnitude < infinityBits then some (ofMagnitude negative magnitude) else none

def ofNat (negative : Bool) (n : Nat) : Binary64 :=
  ofMagnitude negative (if n = 0 then 0 else nearestMagnitude n 1)

end Binary64

end TreePattern

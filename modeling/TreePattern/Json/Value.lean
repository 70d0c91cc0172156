import TreePattern.Number.Binary64

namespace TreePattern

/-- A number of a JSON document. Integers are exact as far as 64 bits reach; every other number is
a double. -/
inductive JsonNumber where
  | natural (n : UInt64)
  | negative (n : Int64)
  | float (x : Binary64)
deriving DecidableEq

inductive Json where
  | null
  | bool (b : Bool)
  | number (n : JsonNumber)
  | string (s : String)
  | array (items : List Json)
  | object (members : List (String × Json))
deriving Inhabited

namespace Json

def member? (members : List (String × Json)) (key : String) : Option Json :=
  (members.find? fun entry ↦ entry.1 == key).map (·.2)

/-- Adds a member in front of the members read so far, which are listed last to first. A key that is
there already keeps its place and takes the new value. -/
def addMember (read : List (String × Json)) (key : String) (value : Json) : List (String × Json) :=
  if read.any (·.1 == key) then
    read.map fun entry ↦ if entry.1 == key then (key, value) else entry
  else (key, value) :: read

end Json

namespace JsonNumber

/-- The number written as an integer without fraction and exponent. Zero with a minus sign and
integers beyond 64 bits are doubles; `none` means that not even a double reaches that far. -/
def ofInteger? (negative : Bool) (magnitude : Nat) : Option JsonNumber :=
  if negative then
    if magnitude ≠ 0 ∧ magnitude ≤ 0x8000000000000000 then
      some (.negative (Int64.ofInt (-(magnitude : Int))))
    else (Binary64.ofDecimal? true magnitude 0).map .float
  else
    if magnitude < UInt64.size then some (.natural (UInt64.ofNat magnitude))
    else (Binary64.ofDecimal? false magnitude 0).map .float

end JsonNumber

end TreePattern

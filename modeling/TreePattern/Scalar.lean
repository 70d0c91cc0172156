import TreePattern.Json.Reader
import TreePattern.Json.Writer

namespace TreePattern

inductive Scalar where
  | null
  | bool (b : Bool)
  | int (n : Int64)
  | float (x : Binary64)
  | str (s : String)
deriving DecidableEq, Inhabited

namespace Scalar

/-- Equality of scalars. Values of different kinds differ, and doubles are compared as numbers. -/
def eqv : Scalar → Scalar → Bool
  | .null, .null => true
  | .bool a, .bool b => a == b
  | .int a, .int b => a == b
  | .float a, .float b => a.eqv b
  | .str a, .str b => a == b
  | _, _ => false

def str? : Scalar → Option String
  | .str s => some s
  | _ => none

def display : Scalar → String
  | .null => "null"
  | .bool b => if b then "true" else "false"
  | .int n => toString n.toInt
  | .float x => NumberLayout.display.render x
  | .str s => s

/-- The scalar of a number: an integer where 64 bits with a sign hold it, else a double. -/
def ofNumber : JsonNumber → Scalar
  | .natural n =>
    if n < 0x8000000000000000 then .int (Int64.ofNat n.toNat) else .float (.ofNat false n.toNat)
  | .negative n => .int n
  | .float x => .float x

def ofJson? : Json → Option Scalar
  | .null => some .null
  | .bool b => some (.bool b)
  | .number n => some (ofNumber n)
  | .string s => some (.str s)
  | .array _ => none
  | .object _ => none

def toJson : Scalar → Json
  | .null => .null
  | .bool b => .bool b
  | .int n => .number (if n < 0 then .negative n else .natural (UInt64.ofNat n.toInt.toNat))
  | .float x => .number (.float x)
  | .str s => .string s

def demands : Json.Demands Scalar where
  nesting := some 127
  accept _ document :=
    match ofJson? document with
    | some scalar => .ok scalar
    | none => .error ⟨.rejected "data did not match any variant of untagged enum Scalar", none⟩

def read (text : String) : Except Json.ReadError Scalar :=
  Json.read demands text

end Scalar

end TreePattern

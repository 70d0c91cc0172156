import TreePattern.Json.Value

namespace TreePattern.Toml

inductive Value where
  | text (s : String)
  | bool (b : Bool)
  | integer (n : Int64)
  | float (x : Binary64)
  /-- An integer or a float that is out of range, with the offset at which it stands. -/
  | outOfRange (start : Nat)
  | dateTime (s : String)
  | array (items : List Value)
  | table (entries : List (String × Value))
deriving Inhabited

namespace Value

mutual

def outOfRange? : Value → Option Nat
  | .outOfRange start => some start
  | .array items => itemsOutOfRange? items
  | .table entries => entriesOutOfRange? entries
  | _ => none

def itemsOutOfRange? : List Value → Option Nat
  | [] => none
  | item :: rest => (outOfRange? item).or (itemsOutOfRange? rest)

def entriesOutOfRange? : List (String × Value) → Option Nat
  | [] => none
  | (_, value) :: rest => (outOfRange? value).or (entriesOutOfRange? rest)

end

mutual

def toJson : Value → Json
  | .text s => .string s
  | .bool b => .bool b
  | .integer n => .number (if n < 0 then .negative n else .natural (UInt64.ofNat n.toInt.toNat))
  | .float x => if x.isNaN || x.isInfinite then .null else .number (.float x)
  | .outOfRange _ => .null
  | .dateTime s => .object [("$__toml_private_datetime", .string s)]
  | .array items => .array (itemsToJson items)
  | .table entries => .object (entriesToJson entries)

def itemsToJson : List Value → List Json
  | [] => []
  | item :: rest => toJson item :: itemsToJson rest

def entriesToJson : List (String × Value) → List (String × Json)
  | [] => []
  | (key, value) :: rest => (key, toJson value) :: entriesToJson rest

end

def typeName : Value → String
  | .text _ => "string"
  | .bool _ => "boolean"
  | .integer _ | .float _ | .outOfRange _ => "number"
  | .dateTime _ | .table _ => "object"
  | .array _ => "array"

end Value

end TreePattern.Toml

import TreePattern.Json.Writer
import TreePattern.Text.Quoted

namespace TreePattern

def JsonNumber.describe : JsonNumber → String
  | .natural n => "integer `" ++ toString n.toNat ++ "`"
  | .negative n => "integer `" ++ toString n.toInt ++ "`"
  | .float x => "floating point `" ++ NumberLayout.json.render x ++ "`"

namespace Json

def describe : Json → String
  | .null => "null"
  | .bool b => "boolean `" ++ (if b then "true" else "false") ++ "`"
  | .number n => n.describe
  | .string s => "string " ++ Text.quoted s
  | .array _ => "sequence"
  | .object _ => "map"

def wrongType (expected : String) (document : Json) : String :=
  "invalid type: " ++ document.describe ++ ", expected " ++ expected

def wrongValue (expected : String) (document : Json) : String :=
  "invalid value: " ++ document.describe ++ ", expected " ++ expected

def asText : Json → Except String String
  | .string s => .ok s
  | document => .error (document.wrongType "a string")

def asCount : Json → Except String Nat
  | .number (.natural n) => .ok n.toNat
  | .number (.negative n) => .error (wrongValue "usize" (.number (.negative n)))
  | document => .error (document.wrongType "usize")

def asUnit : Json → Except String Unit
  | .null => .ok ()
  | document => .error (document.wrongType "unit")

/-- One of several choices, given by its name or by an object with that name as its only key. -/
def asChoice {α : Type} (ofName? : String → Option α) (choices : String) :
    Json → Except String α
  | .string name => named name
  | .object [(name, value)] => do
    let choice ← named name
    value.asUnit
    return choice
  | .object members => .error (wrongValue "map with a single key" (.object members))
  | document => .error (document.wrongType "string or map")
where
  named (name : String) : Except String α :=
    match ofName? name with
    | some choice => .ok choice
    | none => .error ("unknown variant `" ++ name ++ "`, expected " ++ choices)

end Json

end TreePattern

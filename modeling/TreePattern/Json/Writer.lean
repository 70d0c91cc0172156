import TreePattern.Json.Value
import TreePattern.Number.Decimal

namespace TreePattern

namespace JsonNumber

def render : JsonNumber → String
  | .natural n => toString n.toNat
  | .negative n => toString n.toInt
  | .float x => NumberLayout.json.render x

end JsonNumber

namespace Json

/-- A character inside a JSON string. Only quotes, backslashes and the control characters below the
blank are escaped. -/
def escapeChar (c : Char) : String :=
  match c with
  | '"' => "\\\""
  | '\\' => "\\\\"
  | '\x08' => "\\b"
  | '\x0c' => "\\f"
  | '\n' => "\\n"
  | '\r' => "\\r"
  | '\t' => "\\t"
  | _ =>
    if c < ' ' then
      "\\u00" ++ String.ofList [Nat.digitChar (c.toNat / 16), Nat.digitChar (c.toNat % 16)]
    else String.singleton c

def quote (s : String) : String :=
  (s.foldl (fun out c ↦ out ++ escapeChar c) "\"").push '"'

mutual

def compact : Json → String
  | .null => "null"
  | .bool b => if b then "true" else "false"
  | .number n => n.render
  | .string s => quote s
  | .array items => "[" ++ String.intercalate "," (compactItems items) ++ "]"
  | .object members => "\x7b" ++ String.intercalate "," (compactMembers members) ++ "\x7d"

def compactItems : List Json → List String
  | [] => []
  | item :: rest => compact item :: compactItems rest

def compactMembers : List (String × Json) → List String
  | [] => []
  | (key, value) :: rest => (quote key ++ ":" ++ compact value) :: compactMembers rest

end

def indentation (depth : Nat) : String :=
  "".pushn ' ' (2 * depth)

def spread (opening closing : String) (depth : Nat) (entries : List String) : String :=
  let line (entry : String) : String := indentation (depth + 1) ++ entry
  opening ++ "\n" ++ String.intercalate ",\n" (entries.map line) ++ "\n" ++
    indentation depth ++ closing

mutual

def pretty (depth : Nat) : Json → String
  | .null => "null"
  | .bool b => if b then "true" else "false"
  | .number n => n.render
  | .string s => quote s
  | .array [] => "[]"
  | .array (item :: rest) =>
    spread "[" "]" depth (pretty (depth + 1) item :: prettyItems (depth + 1) rest)
  | .object [] => "\x7b\x7d"
  | .object ((key, value) :: rest) =>
    spread "\x7b" "\x7d" depth
      ((quote key ++ ": " ++ pretty (depth + 1) value) :: prettyMembers (depth + 1) rest)

def prettyItems (depth : Nat) : List Json → List String
  | [] => []
  | item :: rest => pretty depth item :: prettyItems depth rest

def prettyMembers (depth : Nat) : List (String × Json) → List String
  | [] => []
  | (key, value) :: rest =>
    (quote key ++ ": " ++ pretty depth value) :: prettyMembers depth rest

end

end Json

end TreePattern

import TreePattern.Text.Invisible

namespace TreePattern.Text

def hexDigits (n : Nat) : String :=
  String.ofList (Nat.toDigits 16 n)

/-- A character inside a quoted text. -/
def quotedChar (c : Char) : String :=
  match c with
  | '"' => "\\\""
  | '\\' => "\\\\"
  | '\n' => "\\n"
  | '\r' => "\\r"
  | '\t' => "\\t"
  | '\x00' => "\\0"
  | _ => if isInvisible c then "\\u\x7b" ++ hexDigits c.toNat ++ "\x7d" else String.singleton c

def quoted (s : String) : String :=
  (s.foldl (fun out c ↦ out ++ quotedChar c) "\"").push '"'

end TreePattern.Text

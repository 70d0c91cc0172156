import TreePattern.Pattern.Compile

namespace TreePattern.Sample

def textConstraint (name value : String) : String × Constraint :=
  (name, .scalar (.str value))

def callPattern : RawPattern :=
  let (function, b) := Builder.empty.add
    ⟨some "fun", .literal ⟨some "Ident", [textConstraint "Name" "print"]⟩⟩
  let (constant, b) := b.add
    ⟨some "constant", .literal ⟨some "BasicLit", [textConstraint "Kind" "STRING"]⟩⟩
  let (arguments, b) := b.add ⟨none, .search ⟨[constant], false, .anyOf⟩⟩
  let (call, b) := b.add
    ⟨some "call", .literal
      ⟨some "CallExpr", [("Fun", .pattern function), ("Args", .pattern arguments)]⟩⟩
  let (root, b) := b.add ⟨none, .search ⟨[call], false, .anyOf⟩⟩
  b.build root

def identPattern : RawPattern :=
  let (ident, b) := Builder.empty.add ⟨some "ident", .literal ⟨some "Ident", []⟩⟩
  let (root, b) := b.add ⟨none, .search ⟨[ident], false, .anyOf⟩⟩
  b.build root

def identRules : Pattern :=
  ⟨#[⟨none, .search ⟨[1], false, .anyOf⟩⟩, ⟨some "ident", .literal ⟨some "Ident", []⟩⟩]⟩

end TreePattern.Sample

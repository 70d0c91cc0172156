import TreePattern.Tree.View

namespace TreePattern.Sample

def node (kind : String) (fields : List (String × Field)) : Node :=
  ⟨0, .ok kind, fields⟩

def text (name value : String) : String × Field :=
  (name, .scalar (.str value))

def ident (name : String) : Node :=
  node "Ident" [text "Name" name]

def stringLit (value : String) : Node :=
  node "BasicLit" [text "Kind" "STRING", text "Value" value]

def intLit (value : String) : Node :=
  node "BasicLit" [text "Kind" "INT", text "Value" value]

def call (function : String) (arguments : List Node) : Node :=
  node "CallExpr" [("Fun", .node (ident function)), ("Args", .nodes arguments)]

def callTree (function : String) : SyntaxTree :=
  .ofNode 0 .keyed (call function [stringLit "hi"])

end TreePattern.Sample

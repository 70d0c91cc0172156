import TreePattern.Match.Search
import TreePattern.Pattern.OfJson

namespace TreePattern

structure Engine where
  limit : Option Nat := none
deriving DecidableEq

namespace Engine

def setting (engine : Engine) (traced : Bool) (view : View) (pattern : Pattern) : Setting :=
  ⟨view, pattern, engine.limit, traced⟩

def run (engine : Engine) (traced : Bool) (tree : SyntaxTree) (pattern : Pattern) :
    Except MatchError (List Find) × Tally :=
  (engine.setting traced tree.view pattern).findAll tree.root

def execute (engine : Engine) (tree : SyntaxTree) (pattern : Pattern) :
    Except MatchError Matches :=
  (engine.run false tree pattern).1.map (⟨tree, ·⟩)

end Engine

def SyntaxTree.visits (tree : SyntaxTree) (pattern : Pattern) : Nat :=
  ((⟨none⟩ : Engine).run false tree pattern).2.visited

end TreePattern

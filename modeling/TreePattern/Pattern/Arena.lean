import TreePattern.Pattern.Rule

namespace TreePattern

structure RawPattern where
  slots : Array (Option PatternNode)
  root : PatternId
deriving DecidableEq

namespace RawPattern

def get? (raw : RawPattern) (id : PatternId) : Option PatternNode :=
  raw.slots[id]?.join

def size (raw : RawPattern) : Nat :=
  raw.slots.size

def eqv (a b : RawPattern) : Bool :=
  a.root == b.root && a.size == b.size &&
    (a.slots.zip b.slots).all fun
      | (none, none) => true
      | (some x, some y) => x.eqv y
      | _ => false

end RawPattern

structure Builder where
  slots : Array (Option PatternNode)
deriving DecidableEq

namespace Builder

def empty : Builder := ⟨#[]⟩

def add (b : Builder) (node : PatternNode) : PatternId × Builder :=
  (b.slots.size, ⟨b.slots.push (some node)⟩)

def reserve (b : Builder) : PatternId × Builder :=
  (b.slots.size, ⟨b.slots.push none⟩)

/-- Puts a node into the given slot. Slots up to that one are made if they are not there yet. -/
def define (b : Builder) (id : PatternId) (node : PatternNode) : Builder :=
  ⟨(b.slots ++ Array.replicate (id + 1 - b.slots.size) none).setIfInBounds id (some node)⟩

def build (b : Builder) (root : PatternId) : RawPattern :=
  ⟨b.slots, root⟩

end Builder

end TreePattern

namespace TreePattern.Text

abbrev CodePoints := Array (Nat × Nat)

def CodePoints.contains (points : CodePoints) (c : Char) : Bool :=
  points.any fun range ↦ range.1 ≤ c.toNat && c.toNat ≤ range.2

end TreePattern.Text

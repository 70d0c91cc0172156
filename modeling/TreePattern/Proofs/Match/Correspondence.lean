import TreePattern.Proofs.Match.Comparison

namespace TreePattern

inductive Groups.Alike {α β : Type} (F : α → β → Prop) : String × List α → String × List β → Prop
  | intro {name : String} {as : List α} {bs : List β} :
      List.Forall₂ F as bs → Alike F (name, as) (name, bs)

theorem Groups.rel_iff_alike {α β : Type} {F : α → β → Prop} {g : Groups α} {h : Groups β} :
    Groups.Rel F g h ↔ List.Forall₂ (Groups.Alike F) g.groups h.groups := by
  constructor
  · intro hr
    refine List.Forall₂.imp ?_ hr
    rintro ⟨name, as⟩ ⟨name', bs⟩ ⟨rfl, hab⟩
    exact .intro hab
  · intro hr
    refine List.Forall₂.imp ?_ hr
    rintro _ _ ⟨hab⟩
    exact ⟨rfl, hab⟩

namespace Find

/-- Two finds have the same name and related nodes and rules, and so have the finds captured below
them, which are filed under the same names in the same order. -/
inductive Corresponds (N : Node → Node → Prop)
    (O : PatternId × PatternNode → PatternId × PatternNode → Prop) : Find → Find → Prop
  | intro {f g : Find} : N f.node g.node → O (f.pattern, f.origin) (g.pattern, g.origin) →
      f.name = g.name →
      List.Forall₂ (Groups.Alike (Corresponds N O)) f.captures.groups g.captures.groups →
      Corresponds N O f g

variable {N : Node → Node → Prop} {O : PatternId × PatternNode → PatternId × PatternNode → Prop}
  {f g : Find}

theorem Corresponds.name_eq (h : Corresponds N O f g) : f.name = g.name := by
  cases h with
  | intro _ _ hname _ => exact hname

theorem Corresponds.captures (h : Corresponds N O f g) :
    Groups.Rel (Corresponds N O) f.captures g.captures := by
  cases h with
  | intro _ _ _ hcaptures => exact Groups.rel_iff_alike.mpr hcaptures

theorem Corresponds.inherit (name : Option String) (h : Corresponds N O f g) :
    Corresponds N O (f.inherit name) (g.inherit name) := by
  cases h with
  | intro hn ho hname hcaptures =>
    have hinherited : (f.inherit name).name = (g.inherit name).name :=
      congrArg (Option.or · name) hname
    exact .intro hn ho hinherited hcaptures

/-- What a match makes of related nodes and rules corresponds. -/
theorem filed_corresponds {I : PatternId → PatternId → Prop} {M : Node → Node → Prop}
    {A : String → Prop} (hn : ∀ n m, M n m → N n m)
    (ho : ∀ i j origin origin', I i j → PatternNode.Rel I A origin origin' →
      O (i, origin) (j, origin')) :
    Find.Filed I M A (Corresponds N O) where
  name := Corresponds.name_eq
  captures := Corresponds.captures
  inherit := Corresponds.inherit
  made hnm hij hr hc :=
    .intro (hn _ _ hnm) (ho _ _ _ _ hij hr) hr.1 (Groups.rel_iff_alike.mp hc)

end Find

end TreePattern

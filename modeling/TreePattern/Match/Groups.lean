namespace TreePattern

structure Groups (α : Type) where
  groups : List (String × List α)
deriving Inhabited

namespace Groups

variable {α : Type}

def empty : Groups α := ⟨[]⟩

def get (g : Groups α) (name : String) : List α :=
  match g.groups.find? fun group ↦ group.1 == name with
  | some group => group.2
  | none => []

def contains (g : Groups α) (name : String) : Bool :=
  g.groups.any fun group ↦ group.1 == name

def names (g : Groups α) : List String :=
  g.groups.map (·.1)

def size (g : Groups α) : Nat :=
  g.groups.length

def isEmpty (g : Groups α) : Bool :=
  g.groups.isEmpty

def pushTo (name : String) (entry : α) : List (String × List α) → List (String × List α)
  | [] => [(name, [entry])]
  | (key, entries) :: rest =>
    if key == name then (key, entries ++ [entry]) :: rest
    else (key, entries) :: pushTo name entry rest

def push (g : Groups α) (name : String) (entry : α) : Groups α :=
  ⟨pushTo name entry g.groups⟩

def pushAll (g : Groups α) (group : String × List α) : Groups α :=
  group.2.foldl (fun out entry ↦ out.push group.1 entry) g

def append (g other : Groups α) : Groups α :=
  other.groups.foldl pushAll g

end Groups

end TreePattern

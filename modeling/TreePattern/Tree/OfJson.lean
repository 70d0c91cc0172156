import TreePattern.LoadError
import TreePattern.Tree.Renumber
import TreePattern.Tree.View

namespace TreePattern

def Json.isNodeObject (members : List (String × Json)) : Bool :=
  match member? members "NodeType" with
  | some (.string _) => true
  | _ => false

def Json.isNode : Json → Bool
  | .object members => isNodeObject members
  | _ => false

mutual

/-- The size of a document, which bounds the work of converting it. -/
def Json.extent : Json → Nat
  | .array items => Json.itemsExtent items + 1
  | .object members => Json.membersExtent members + 1
  | _ => 0

def Json.itemsExtent : List Json → Nat
  | [] => 0
  | item :: rest => Json.extent item + Json.itemsExtent rest + 1

def Json.membersExtent : List (String × Json) → Nat
  | [] => 0
  | (_, value) :: rest => Json.extent value + Json.membersExtent rest + 1

end

namespace Tree

def kindOf (members : List (String × Json)) : String :=
  match Json.member? members "NodeType" with
  | some (.string kind) => kind
  | _ => ""

def leafField (name : String) (value : Json) : Field :=
  match Scalar.ofJson? value, value with
  | some scalar, _ => .scalar scalar
  | none, .object _ => .broken ⟨"attribute " ++ name ++ " is an object without a NodeType", none⟩
  | none, _ =>
    .broken ⟨"attribute " ++ name ++ " is an array holding values that are not nodes", none⟩

/-- What an entry holds under a name: a field, or the places of nodes. -/
inductive Slot where
  | ready (field : Field)
  | node (place : Nat)
  | nodes (places : List Nat)

structure Entry where
  kind : String
  fields : List (String × Slot)

def Entry.blank : Entry :=
  ⟨"", []⟩

/-- The entries made so far, and the objects whose entries are still blank, the last one first. -/
structure Arena where
  entries : Array Entry
  work : List (Nat × List (String × Json))

namespace Arena

def reserve (members : List (String × Json)) : Arena → Arena
  | ⟨entries, work⟩ =>
    let place := entries.size
    ⟨entries.push .blank, (place, members) :: work⟩

def reserveAll : List Json → List Nat → Arena → List Nat × Arena
  | [], places, a => (places.reverse, a)
  | .object members :: rest, places, a =>
    reserveAll rest (a.entries.size :: places) (a.reserve members)
  | _ :: rest, places, a => reserveAll rest places a

def slot? (name : String) (value : Json) (a : Arena) : Option Slot × Arena :=
  match value with
  | .null => (none, a)
  | .object members =>
    if Json.isNodeObject members then (some (.node a.entries.size), a.reserve members)
    else (some (.ready (leafField name (.object members))), a)
  | .array items =>
    if items.all Json.isNode then
      let (places, a) := reserveAll items [] a
      (some (.nodes places), a)
    else (some (.ready (leafField name (.array items))), a)
  | .bool b => (some (.ready (leafField name (.bool b))), a)
  | .number n => (some (.ready (leafField name (.number n))), a)
  | .string s => (some (.ready (leafField name (.string s))), a)

def slots : List (String × Json) → List (String × Slot) → Arena → List (String × Slot) × Arena
  | [], found, a => (found.reverse, a)
  | (name, value) :: rest, found, a =>
    if name = "NodeType" then slots rest found a
    else
      match slot? name value a with
      | (none, a) => slots rest found a
      | (some slot, a) => slots rest ((name, slot) :: found) a

def workExtent : List (Nat × List (String × Json)) → Nat
  | [] => 0
  | (_, members) :: rest => Json.membersExtent members + 1 + workExtent rest

def extent (a : Arena) : Nat :=
  workExtent a.work

theorem extent_reserve (a : Arena) (members : List (String × Json)) :
    (a.reserve members).extent = a.extent + Json.membersExtent members + 1 := by
  simp only [extent, reserve, workExtent]
  omega

theorem extent_reserveAll (items : List Json) (places : List Nat) (a : Arena) :
    (reserveAll items places a).2.extent ≤ a.extent + Json.itemsExtent items := by
  induction items generalizing places a with
  | nil => simp [reserveAll]
  | cons item rest ih =>
    cases item with
    | object members =>
      have hle := ih (a.entries.size :: places) (a.reserve members)
      rw [extent_reserve] at hle
      simp only [reserveAll, Json.itemsExtent, Json.extent]
      omega
    | null | bool | number | string | array =>
      have hle := ih places a
      simp only [reserveAll, Json.itemsExtent]
      omega

theorem extent_slot? (name : String) (value : Json) (a : Arena) :
    (slot? name value a).2.extent ≤ a.extent + Json.extent value := by
  cases value with
  | object members =>
    rw [slot?]
    split
    · have heq := extent_reserve a members
      simp only [Json.extent]
      omega
    · exact Nat.le_add_right _ _
  | array items =>
    rw [slot?]
    split
    · have hle := extent_reserveAll items [] a
      rw [Json.extent]
      exact Nat.le_succ_of_le hle
    · exact Nat.le_add_right _ _
  | null | bool | number | string => exact Nat.le_add_right _ _

theorem extent_slots (members : List (String × Json)) (found : List (String × Slot)) (a : Arena) :
    (slots members found a).2.extent ≤ a.extent + Json.membersExtent members := by
  induction members generalizing found a with
  | nil => simp [slots]
  | cons entry rest ih =>
    obtain ⟨name, value⟩ := entry
    have hslot := extent_slot? name value a
    rw [slots, Json.membersExtent]
    split
    · have hle := ih found a
      omega
    · split <;> rename_i h <;> rw [h] at hslot
      · have hle := ih found ‹Arena›
        dsimp only at hslot
        omega
      · have hle := ih ((name, ‹Slot›) :: found) ‹Arena›
        dsimp only at hslot
        omega

def fill : Arena → Array Entry
  | ⟨entries, []⟩ => entries
  | ⟨entries, (place, members) :: rest⟩ =>
    match _h : slots members [] ⟨entries, rest⟩ with
    | (found, ⟨later, work⟩) => fill ⟨later.setIfInBounds place ⟨kindOf members, found⟩, work⟩
termination_by a => a.extent
decreasing_by
  have hle := extent_slots members [] ⟨entries, rest⟩
  rw [_h] at hle
  simp only [extent, workExtent] at hle ⊢
  omega

end Arena

abbrev Built := Array (Option Node)

namespace Built

def take (built : Built) (place : Nat) : Option Node × Built :=
  match built[place]? with
  | some (some n) => (some n, built.setIfInBounds place none)
  | _ => (none, built)

def takeAll : List Nat → List Node → Built → List Node × Built
  | [], nodes, built => (nodes.reverse, built)
  | place :: rest, nodes, built =>
    match built.take place with
    | (none, built) => takeAll rest nodes built
    | (some n, built) => takeAll rest (n :: nodes) built

def field? (slot : Slot) (built : Built) : Option Field × Built :=
  match slot with
  | .ready field => (some field, built)
  | .node place =>
    match built.take place with
    | (none, built) => (none, built)
    | (some n, built) => (some (.node n), built)
  | .nodes places =>
    let (nodes, built) := takeAll places [] built
    (some (.nodes nodes), built)

def fields : List (String × Slot) → List (String × Field) → Built → List (String × Field) × Built
  | [], found, built => (found.reverse, built)
  | (name, slot) :: rest, found, built =>
    match field? slot built with
    | (none, built) => fields rest found built
    | (some field, built) => fields rest ((name, field) :: found) built

/-- Puts the nodes of the first entries together, from the last of them to the first. -/
def assemble (entries : Array Entry) : Nat → Built → Built
  | 0, built => built
  | place + 1, built =>
    let entry := entries[place]?.getD .blank
    let (found, built) := fields entry.fields [] built
    assemble entries place (built.setIfInBounds place (some ⟨0, .ok entry.kind, found⟩))

end Built

def build (members : List (String × Json)) : Except LoadError Node :=
  let entries := Arena.fill ⟨#[.blank], [(0, members)]⟩
  let built := Built.assemble entries entries.size (Array.replicate entries.size none)
  match built[0]? with
  | some (some root) => .ok root
  | _ => .error (.missingNodeType [])

def ofJson (document : Json) : Except LoadError Node :=
  match document with
  | .object members =>
    match Json.member? members "NodeType" with
    | some (.string _) => (build members).map Node.numbered
    | some .null | none => .error (.missingNodeType [])
    | some _ => .error (.invalidField [] "NodeType" .string)
  | _ => .error (.notAnObject [])

def read (text : String) : Except LoadError Node := do
  ofJson (← (Json.read .none text).mapError .json)

end Tree

end TreePattern

import TreePattern.Json.Writer
import TreePattern.Match.Result

namespace TreePattern.Cli

structure Record where
  capture : Option String
  kind : String
  rule : String
  /-- An attribute that tells the node from others of its kind. It is shown to readers only. -/
  summary : Option String
  captures : Groups Record

namespace Record

def summaryOf (view : View) (n : Node) : List String → Except AccessError (Option String)
  | [] => .ok none
  | name :: rest => do
    match ← view.lookup n name with
    | some (.scalar value) => return some (name ++ "=" ++ value.display)
    | _ => summaryOf view n rest

mutual

def ofFind (view : View) : Find → Except AccessError Record
  | ⟨node, _, origin, name, captures⟩ => do
    let below ← ofCaptures view captures
    let kind ← node.kind
    let summary ← summaryOf view node ["Name", "Value"]
    return ⟨name, kind, origin.rule.describe, summary, below⟩

def ofCaptures (view : View) : Groups Find → Except AccessError (Groups Record)
  | ⟨groups⟩ => do return ⟨← ofGroups view groups⟩

def ofGroups (view : View) : List (String × List Find) →
    Except AccessError (List (String × List Record))
  | [] => .ok []
  | (name, finds) :: rest => do
    let records ← ofFinds view finds
    return (name, records) :: (← ofGroups view rest)

def ofFinds (view : View) : List Find → Except AccessError (List Record)
  | [] => .ok []
  | f :: rest => do
    let record ← ofFind view f
    return record :: (← ofFinds view rest)

end

def inner (r : Record) : List Record :=
  r.captures.groups.flatMap (·.2)

def line (depth : Nat) (r : Record) : String :=
  Json.indentation depth ++ r.capture.getD "-" ++ " " ++ r.kind ++
    (match r.summary with | some summary => " " ++ summary | none => "") ++ "\n"

mutual

def weight : Record → Nat
  | ⟨_, _, _, _, captures⟩ => capturesWeight captures + 1

def capturesWeight : Groups Record → Nat
  | ⟨groups⟩ => groupsWeight groups

def groupsWeight : List (String × List Record) → Nat
  | [] => 0
  | (_, records) :: rest => listWeight records + groupsWeight rest

def listWeight : List Record → Nat
  | [] => 0
  | r :: rest => weight r + listWeight rest

end

theorem listWeight_append (a b : List Record) :
    listWeight (a ++ b) = listWeight a + listWeight b := by
  induction a with
  | nil => simp [listWeight]
  | cons r rest ih => simp only [List.cons_append, listWeight, ih, Nat.add_assoc]

theorem groupsWeight_eq (groups : List (String × List Record)) :
    groupsWeight groups = listWeight (groups.flatMap (·.2)) := by
  induction groups with
  | nil => rfl
  | cons group rest ih => rw [List.flatMap_cons, listWeight_append, groupsWeight, ih]

/-- A tree of records is its root and the trees right below it. -/
theorem weight_eq (r : Record) : r.weight = listWeight r.inner + 1 := by
  obtain ⟨capture, kind, rule, summary, ⟨groups⟩⟩ := r
  rw [weight, capturesWeight, groupsWeight_eq, inner]

/-- Puts records that stand at a depth on a stack, the last one first, so that the first one ends
up on top. -/
def push (depth : Nat) (records : List Record) (stack : List (Nat × Record)) :
    List (Nat × Record) :=
  records.reverse.foldl (fun stack r ↦ (depth, r) :: stack) stack

def pushInner (depth : Nat) (r : Record) (stack : List (Nat × Record)) : List (Nat × Record) :=
  r.captures.groups.reverse.foldl (fun stack group ↦ push (depth + 1) group.2 stack) stack

theorem push_eq (depth : Nat) (records : List Record) (stack : List (Nat × Record)) :
    push depth records stack = records.map (depth, ·) ++ stack := by
  rw [push, List.foldl_reverse]
  induction records with
  | nil => rfl
  | cons r rest ih => rw [List.foldr_cons, ih, List.map_cons, List.cons_append]

/-- Reversed twice, the groups and the records in them are in their own order again. -/
theorem pushInner_eq (depth : Nat) (r : Record) (stack : List (Nat × Record)) :
    r.pushInner depth stack = r.inner.map (depth + 1, ·) ++ stack := by
  rw [pushInner, inner, List.foldl_reverse]
  induction r.captures.groups with
  | nil => rfl
  | cons group rest ih =>
    rw [List.foldr_cons, ih, push_eq, List.flatMap_cons, List.map_append, List.append_assoc]

/-- The lines of the records on a stack, which stand at the given depths, and of everything below
them, behind the lines listed already, last to first. -/
def list : List (Nat × Record) → List String → List String
  | [], listed => listed.reverse
  | (depth, r) :: rest, listed => list (r.pushInner depth rest) (r.line depth :: listed)
termination_by stack => listWeight (stack.map (·.2))
decreasing_by
  simp only [pushInner_eq, List.map_append, List.map_map, Function.comp_def, List.map_id',
    List.map_cons, listWeight_append, listWeight, weight_eq]
  omega

def lines (records : List Record) : List String :=
  if records.isEmpty then ["no matches\n"] else list (push 0 records []) []

mutual

def toJson : Record → Json
  | ⟨capture, kind, rule, _, captures⟩ =>
    .object [
      ("capture", match capture with | some name => .string name | none => .null),
      ("kind", .string kind),
      ("rule", .string rule),
      ("captures", .object (capturesJson captures))]

def capturesJson : Groups Record → List (String × Json)
  | ⟨groups⟩ => groupsJson groups

def groupsJson : List (String × List Record) → List (String × Json)
  | [] => []
  | (name, records) :: rest => (name, .array (listJson records)) :: groupsJson rest

def listJson : List Record → List Json
  | [] => []
  | r :: rest => toJson r :: listJson rest

end

def jsonText (records : List Record) : String :=
  (Json.array (listJson records)).pretty 0

end Record

end TreePattern.Cli

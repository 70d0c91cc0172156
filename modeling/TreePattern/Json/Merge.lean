import TreePattern.Json.Value

namespace TreePattern.Json

def putMember (members : List (String × Json)) (key : String) (value : Json) :
    List (String × Json) :=
  match members with
  | [] => [(key, value)]
  | (other, old) :: rest =>
    if other = key then (key, value) :: rest else (other, old) :: putMember rest key value

mutual

def merge (base : Json) : Json → Json
  | .object changes =>
    match base with
    | .object members => .object (mergeMembers members changes)
    | _ => .object changes
  | change => change

def mergeMembers (members : List (String × Json)) : List (String × Json) → List (String × Json)
  | [] => members
  | (key, change) :: rest =>
    let value :=
      match member? members key with
      | some old => merge old change
      | none => change
    mergeMembers (putMember members key value) rest

end

end TreePattern.Json

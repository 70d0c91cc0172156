import TreePattern.Json.Reader

namespace TreePattern.Json

structure Cursor where
  position : Position
  rest : List Char

namespace Cursor

def next? (s : Cursor) : Option Char :=
  s.rest.head?

def advance (s : Cursor) : Cursor :=
  match s.rest with
  | [] => s
  | c :: rest => ⟨s.position.after c, rest⟩

def skipBlanksFrom (position : Position) : List Char → Cursor
  | [] => ⟨position, []⟩
  | c :: rest =>
    if Reader.isBlank c then skipBlanksFrom (position.after c) rest else ⟨position, c :: rest⟩

def skipBlanks (s : Cursor) : Cursor :=
  skipBlanksFrom s.position s.rest

def failHere {β : Type} (s : Cursor) (fault : Fault) : Except ReadError β :=
  .error ⟨fault, some s.position⟩

/-- A failure right after the first byte of the next character. -/
def failAtNext {β : Type} (s : Cursor) (fault : Fault) : Except ReadError β :=
  .error ⟨fault, some (match s.rest with | [] => s.position | c :: _ => s.position.within c 1)⟩

def feed {α : Type} (demands : Demands α) (s : Reader.State α) :
    List Char → Except ReadError (α × Cursor)
  | [] => do return (← (← s.settle demands).conclude, ⟨s.position, []⟩)
  | c :: rest =>
    match s.phase with
    | .finished value => .ok (value, ⟨s.position, c :: rest⟩)
    | _ =>
      match s.step demands c with
      | .ok t => feed demands t rest
      | .error e => .error e

def readValue {α : Type} (demands : Demands α) (s : Cursor) : Except ReadError (α × Cursor) :=
  feed demands { Reader.State.initial with position := s.position } s.rest

def finish (s : Cursor) : Except ReadError Unit :=
  match s.skipBlanks.next? with
  | none => .ok ()
  | some _ => s.skipBlanks.failAtNext .trailingCharacters

end Cursor

end TreePattern.Json

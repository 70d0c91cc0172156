import TreePattern.Text.Space

namespace TreePattern.Text.Terminal

inductive State where
  | ground
  | escape
  | escapeMarks
  | sequence
  | command
  | deviceString
deriving DecidableEq

namespace State

def afterPrintable (s : State) (c : Char) : State :=
  match s with
  | .ground => .ground
  | .escape =>
    if c < '0' then .escapeMarks
    else if c = '[' then .sequence
    else if c = ']' then .command
    else if c = 'P' || c = 'X' || c = '^' || c = '_' then .deviceString
    else .ground
  | .escapeMarks => if c < '0' then .escapeMarks else .ground
  | .sequence => if c < '@' then .sequence else .ground
  | .command => .command
  | .deviceString => .deviceString

/-- The state after a character, and what is shown of it. A character beyond ASCII breaks off a
sequence that it stands in, and only traces of it are left. -/
def step (s : State) (c : Char) : State × List Char :=
  if c = '\x1b' then (.escape, [])
  else if c = '\x18' || c = '\x1a' then (.ground, [])
  else if c = '\x7f' then (s, [])
  else if '\x7f' < c then
    (.ground, if s = .ground then [c] else List.replicate (c.utf8Size - 1) '\uFFFD')
  else if ' ' ≤ c then (s.afterPrintable c, if s = .ground then [c] else [])
  else if s = .command then (if c = '\x07' then .ground else s, [])
  else if s = .deviceString then (s, [])
  else if isPlainSpace c then (.ground, [c])
  else (s, [])

def shown (s : State) : List Char → List Char
  | [] => []
  | c :: rest => (s.step c).2 ++ (s.step c).1.shown rest

end State

end TreePattern.Text.Terminal

namespace TreePattern.Text

/-- What a text shows on a terminal. -/
def withoutControls (text : String) : String :=
  String.ofList (Terminal.State.ground.shown text.toList)

end TreePattern.Text

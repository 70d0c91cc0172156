import TreePattern.Number.Digits

namespace TreePattern.Toml

structure Piece where
  start : Nat
  text : List Char

namespace Piece

def drop (p : Piece) (n : Nat) : Piece := ⟨p.start + n, p.text.drop n⟩

def digits (p : Piece) : List Char := p.text.takeWhile Char.isDigit

def checkLeadingZero (p : Piece) : Except Nat Unit :=
  if p.text.head? = some '0' then .error p.start else .ok ()

/-- Reads over digits and the underscores between them, of which there has to be one digit at least.
Unless zeros may lead, the first of several digits is none. -/
def skipDigits (zeros : Bool) (p : Piece) : Except Nat Piece :=
  let run := p.text.takeWhile fun c ↦ c.isDigit || c = '_'
  let count := (run.filter Char.isDigit).length
  if count = 0 then .error p.start
  else if 1 < count && !zeros && p.text.head? = some '0' then .error p.start
  else .ok (p.drop run.length)

def checkFloat (p : Piece) : Except Nat Unit := do
  let p ← p.skipDigits false
  let p ← if p.text.head? = some '.' then (p.drop 1).skipDigits true else pure p
  let p ←
    match p.text with
    | 'e' :: c :: _ | 'E' :: c :: _ =>
      (p.drop (if c = '+' || c = '-' then 2 else 1)).skipDigits true
    | ['e'] | ['E'] => (p.drop 1).skipDigits true
    | _ => pure p
  if p.text.isEmpty then return () else throw p.start

def splitUnderscores (start : Nat) : List (List Char) → List Piece
  | [] => []
  | part :: rest => ⟨start, part⟩ :: splitUnderscores (start + part.length + 1) rest

/-- Makes sure that underscores stand between digits only. `first` and `last` are the offsets of
both ends of the scalar. -/
def checkUnderscores (isDigit : Char → Bool) (first last : Nat) (p : Piece) : Except Nat Unit :=
  let ends (c : Option Char) : Bool := !isDigit (c.getD '0')
  let check (part : Piece) : Except Nat Unit :=
    let stop := part.start + part.text.length
    if first < part.start && ends part.text.head? then .error (part.start - 1)
    else if 1 < part.text.length && stop < last && ends part.text.getLast? then .error stop
    else if part.text.isEmpty && part.start ≠ first && stop ≠ last then .error part.start
    else .ok ()
  if !p.text.contains '_' then .ok ()
  else if p.text.head? = some '_' then .error p.start
  else if p.text.getLast? = some '_' then .error (p.start + p.text.length - 1)
  else (splitUnderscores p.start (p.text.splitOn '_')).forM check

end Piece

end TreePattern.Toml

import TreePattern.Toml.Scalar

namespace TreePattern.Toml

inductive Origin where
  | stated
  | implied
  | dotted
deriving DecidableEq

inductive Item where
  | value (value : Value)
  | table (origin : Origin) (entries : List (String × Item))
  /-- An array of tables, which headers extend. The last table comes first. -/
  | tables (rows : List (List (String × Item)))

abbrev Entries := List (String × Item)

structure Name where
  text : String
  start : Nat
deriving DecidableEq

namespace Lexeme

def names (path : List Lexeme) : Except Nat (List Name) :=
  path.mapM fun l ↦ do return ⟨← l.name, l.start⟩

end Lexeme

namespace Entries

def update (key : String) (change : Option Item → Except Nat Item) : Entries → Except Nat Entries
  | [] => do return [(key, ← change none)]
  | (other, item) :: rest =>
    if other = key then do return (key, ← change (some item)) :: rest
    else if key < other then do return (key, ← change none) :: (other, item) :: rest
    else do return (other, item) :: (← update key change rest)

/-- Changes the table that a path leads to. Tables that are missing on the way come about by it. A
key with dots may not lead through a table that was stated, and no path leads through a value. -/
def within (made : Origin) (change : Origin → Entries → Except Nat Entries) :
    List Name → Origin → Entries → Except Nat Entries
  | [], origin, entries => change origin entries
  | name :: rest, _, entries =>
    entries.update name.text fun
      | none => do return .table made (← within made change rest made [])
      | some (.table origin inner) =>
        if made = .dotted && origin = .stated then .error name.start
        else do return .table origin (← within made change rest origin inner)
      | some (.tables (row :: rows)) => do
        return .tables ((← within made change rest .stated row) :: rows)
      | some _ => .error name.start

/-- Gives a value to a key of a table. The last table on the way has to come about by keys with
dots, too, and the key has to be new. -/
def assign (path : List Name) (item : Item) (entries : Entries) : Except Nat Entries :=
  match path.getLast? with
  | none => .ok entries
  | some last =>
    within .dotted (fun origin inner ↦
      if path.length ≠ 1 && origin ≠ .dotted then .error last.start
      else
        inner.update last.text fun
          | none => .ok item
          | some _ => .error last.start) path.dropLast .stated entries

def start (ofArray : Bool) (path : List Name) (entries : Entries) : Except Nat Entries :=
  match path.getLast? with
  | none => .ok entries
  | some last =>
    within .implied (fun _ inner ↦
      inner.update last.text fun found ↦
        match ofArray, found with
        | true, none => .ok (.tables [[]])
        | true, some (.tables rows) => .ok (.tables ([] :: rows))
        | false, none => .ok (.table .stated [])
        | false, some (.table .implied inner) => .ok (.table .stated inner)
        | _, some _ => .error last.start) path.dropLast .stated entries

def inside (change : Entries → Except Nat Entries) : List Name → Entries → Except Nat Entries
  | [], entries => change entries
  | name :: rest, entries =>
    entries.update name.text fun
      | some (.table origin inner) => do return .table origin (← inside change rest inner)
      | some (.tables (row :: rows)) => do return .tables ((← inside change rest row) :: rows)
      | _ => .error name.start

end Entries

mutual

def Item.toValue : Item → Value
  | .value value => value
  | .table _ entries => .table (entriesToValues entries)
  | .tables rows => .array (rowsToValues rows).reverse

def entriesToValues : List (String × Item) → List (String × Value)
  | [] => []
  | (key, item) :: rest => (key, item.toValue) :: entriesToValues rest

def rowsToValues : List (List (String × Item)) → List Value
  | [] => []
  | row :: rest => .table (entriesToValues row) :: rowsToValues rest

end

mutual

def Term.toValue : Term → Except Nat Value
  | .scalar lexeme => lexeme.value
  | .array items => do return .array (← termsToValues items)
  | .table members => do return .table (entriesToValues (← membersToEntries [] members))

def termsToValues : List Term → Except Nat (List Value)
  | [] => .ok []
  | item :: rest => do return (← item.toValue) :: (← termsToValues rest)

def membersToEntries (read : List (String × Item)) :
    List (List Lexeme × Term) → Except Nat (List (String × Item))
  | [] => .ok read
  | (path, term) :: rest => do
    let names ← Lexeme.names path
    let value ← term.toValue
    membersToEntries (← Entries.assign names (.value value) read) rest

end

namespace Document

structure State where
  entries : Entries
  current : List Name

def State.step (s : State) : Expression → Except Nat State
  | .header ofArray path => do
    let names ← Lexeme.names path
    return ⟨← s.entries.start ofArray names, names⟩
  | .assignment path term => do
    let names ← Lexeme.names path
    let value ← term.toValue
    return { s with entries := ← s.entries.inside (·.assign names (.value value)) s.current }

def State.run (s : State) : List Expression → Except Nat State
  | [] => .ok s
  | expression :: rest =>
    match s.step expression with
    | .ok s => s.run rest
    | .error offset => .error offset

end Document

structure Place where
  line : Nat
  column : Nat
deriving DecidableEq

namespace Place

def lastLine (cs : List Char) : List Char :=
  (cs.reverse.takeWhile (· ≠ '\n')).reverse

/-- The place of an offset. At an ASCII character, the characters before it on its line count; at
any other, their bytes. The end of the text counts as the place after its last character, even if
that is the end of a line. -/
def ofOffset (document : List Char) (offset : Nat) : Place :=
  match document.drop offset with
  | c :: _ =>
    let before := document.take offset
    let line := lastLine before
    let bytes := line.foldl (fun n c ↦ n + c.utf8Size) 0
    ⟨before.count '\n' + 1, (if c.toNat < 128 then line.length else bytes) + 1⟩
  | [] =>
    let before := document.dropLast
    let last := document.length - before.length
    ⟨before.count '\n' + 1, (lastLine before).length + last + 1⟩

end Place

def entriesOf (document : List Char) : Except Nat (List (String × Value)) := do
  let s ← (⟨[], []⟩ : Document.State).run (← expressions document)
  let entries := entriesToValues s.entries
  match Value.entriesOutOfRange? entries with
  | some offset => throw offset
  | none => return entries

def read (text : String) : Except Place (List (String × Value)) :=
  (entriesOf text.toList).mapError (Place.ofOffset text.toList)

end TreePattern.Toml

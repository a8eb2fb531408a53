/-
TOML documents: fields line by line, and `[[name]]` headers, each of which
starts a further table in the array `name`. Other headers are no part of this
reading, since no setting is a table.
-/
import FormDesk.Toml.Item

namespace FormDesk.Toml

/-- A document as far as it is read: its own fields, and the tables that headers started, the latest
first. -/
structure Draft where
  fields : List Field := []
  rows : List (String × List Field) := []

namespace Draft

/-- Adds a field to the table that is being read. -/
def add (d : Draft) (path : List String) (value : Value) : Option Draft :=
  match d.rows with
  | [] => (addField d.fields path value).map fun fields => { d with fields }
  | (name, row) :: rows =>
    (addField row path value).map fun row => { d with rows := (name, row) :: rows }

/-- Starts a table in an array, which may not be a field already. -/
def start (d : Draft) (name : String) : Option Draft :=
  if d.fields.any (·.1.head? == some name) then none
  else some { d with rows := (name, []) :: d.rows }

/-- The arrays of the tables that headers started. -/
def arrays (d : Draft) : List Field :=
  let rows := d.rows.reverse
  (rows.map (·.1)).eraseDups.map fun name =>
    ([name], .list ((rows.filter (·.1 == name)).map fun row => tableOf row.2))

/-- The document as one table. -/
def table (d : Draft) : Value := tableOf (d.fields ++ d.arrays)

end Draft

/-- What is left after the end of a line, before which a comment may stand. -/
def endLine? (cs : List Char) : Option (List Char) :=
  match cs.dropWhile isSpace with
  | [] => some []
  | '\n' :: r => some r
  | '\r' :: '\n' :: r => some r
  | '#' :: r => skipGaps true r
  | _ => none

/-- Reads a header, after its two opening brackets. -/
def header? (cs : List Char) : Option (String × List Char) := do
  let (name, rest) ← key? (cs.dropWhile isSpace)
  match rest.dropWhile isSpace with
  | ']' :: ']' :: rest => some (name, rest)
  | _ => none

/-- Reads lines; `fuel` bounds their number, and `room` that of the parts of what stands on each. -/
def lines? (room : Nat) : Nat → Draft → List Char → Option Draft
  | 0, _, _ => none
  | fuel + 1, d, cs => do
    match ← skipGaps false cs with
    | [] => some d
    | '[' :: '[' :: r =>
      let (name, rest) ← header? r
      lines? room fuel (← d.start name) (← endLine? rest)
    | cs =>
      let ((path, v), rest) ← assignment? room cs
      lines? room fuel (← d.add path v) (← endLine? rest)

/-- Reads a document, before which a byte order mark may stand. None when it is not well formed. -/
def parse? (text : String) : Option Value :=
  let cs := match text.toList with
    | '\ufeff' :: cs => cs
    | cs => cs
  (lines? (cs.length + 1) (cs.length + 1) {} cs).map Draft.table

end FormDesk.Toml

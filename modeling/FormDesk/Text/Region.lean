/-
Regions of a document's text, given by byte offsets: the indentation in
front of an offset (`indent_at_offset`), the range to hand to a formatter
(`format_range`), and the text of a region (`region_text`). Every offset is
allowed; those past the end or inside a character are answered as "nothing
there" or are moved back to the nearest boundary.
-/
import FormDesk.Notice
import FormDesk.Text.Blank
import FormDesk.Text.Offset

namespace FormDesk

/-- The byte offset at which the line that ends the given characters starts. -/
def lineOffset (before : List Char) : Nat :=
  byteSize before - byteSize (lastLine before)

/-- The indentation in front of byte `offset`: the blanks that start its line, read no further than
the offset. None when the text cannot be cut there. -/
def indent? (text : String) (offset : Nat) : Option String :=
  (cutAt? text.toList offset).map fun (before, _) =>
    String.ofList ((lastLine before).takeWhile isBlank)

/-- The indentation in front of byte `offset`, empty when the text cannot be cut there; that is worth a
notice. -/
def indentAt (text : String) (offset : Nat) : String × List Notice :=
  match indent? text offset with
  | some indent => (indent, [])
  | none => ("", [.noIndentation])

/-- The range to reformat when `start` to `stop` changed, clamped to the text. A start inside a line
moves back to where the line starts; a start in column 0 takes in the newline before it, without
which the formatter would leave the element unindented. -/
def reformatRange (text : String) (start stop : Nat) : Nat × Nat :=
  let cs := text.toList
  let stop := lastCut cs stop
  let start := lastCut cs (min start stop)
  let line := match cutAt? cs start with
    | some (before, _) => lineOffset before
    | none => 0
  (if line ≠ start then line else start - 1, stop)

/-- The text of a region; none when the region is empty, reversed or cannot be cut out. -/
def region? (text : String) (start stop : Nat) : Option String :=
  if stop ≤ start then none
  else do
    let (before, _) ← cutAt? text.toList stop
    let (_, region) ← cutAt? before start
    return String.ofList region

end FormDesk

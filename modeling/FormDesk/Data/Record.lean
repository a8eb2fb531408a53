/-
Records: values with named fields. A record is written as a table, in which
fields may be missing but no other keys may occur, or as a list of its fields
in order, of which the last ones may be missing. Whether such a list may be
longer than the record has fields depends on the notation it comes from.
-/
import FormDesk.Data.Value

namespace FormDesk

/-- What becomes of the items of a list beyond the last field of a record. -/
inductive Surplus where
  | ignored
  | refused
  deriving DecidableEq, Repr

/-- The fields of a record, where present, in the order of their names. -/
def Value.record? (surplus : Surplus) (names : List String) : Value → Option (List (Option Value))
  | .table fields =>
    if fields.all fun f => names.contains f.1 then
      some (names.map fun name => List.lookup name fields)
    else none
  | .list items =>
    if surplus = .ignored || items.length ≤ names.length then
      some ((List.range names.length).map fun i => items[i]?)
    else none
  | _ => none

/-- Reads a field that has a default. -/
def field? {α : Type} (read : Value → Option α) (default : α) : Option Value → Option α
  | none => some default
  | some v => read v

end FormDesk

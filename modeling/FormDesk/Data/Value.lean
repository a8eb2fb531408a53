/-
Plain data: what a configuration file or a message holds before it is known
what it is for.
-/
import FormDesk.Data.Limit

namespace FormDesk

/-- A piece of plain data. -/
inductive Value where
  | null
  | bool (b : Bool)
  | int (n : Int)
  | text (s : String)
  /-- A value of a kind that nothing here reads, such as a date or a fractional number, as it was
  written. -/
  | unread (written : String)
  | list (items : List Value)
  | table (fields : List (String × Value))
  deriving Inhabited

namespace Value

/-- The text that a value is. -/
def text? : Value → Option String
  | text s => some s
  | _ => none

/-- The truth value that a value is. -/
def bool? : Value → Option Bool
  | bool b => some b
  | _ => none

/-- The number that a value is, if it is a whole number from 0 to 2^64 - 1. -/
def natural? : Value → Option Nat
  | int (.ofNat n) => if n < sizeLimit then some n else none
  | _ => none

/-- Reads an optional value, for which null stands when it is absent. -/
def optional? {α : Type} (read : Value → Option α) : Value → Option (Option α)
  | null => some none
  | v => (read v).map some

/-- Reads a list of which each item is read the same way. -/
def items? {α : Type} (read : Value → Option α) : Value → Option (List α)
  | list items => items.mapM read
  | _ => none

end Value

end FormDesk

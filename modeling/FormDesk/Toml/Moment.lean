/-
Dates and times in TOML: a date, a time of day, or a date and a time with or
without their offset from universal time. No setting is a moment, so only the
form is read, with the limits of the calendar and the clock.
-/
import FormDesk.Toml.Character

namespace FormDesk.Toml

/-- Whether a year has a 29th of February. -/
def isLeapYear (year : Nat) : Bool := year % 4 == 0 && (year % 100 != 0 || year % 400 == 0)

/-- The number of days in a month of a year. -/
def daysIn (year month : Nat) : Nat :=
  if month == 2 then (if isLeapYear year then 29 else 28)
  else if [4, 6, 9, 11].contains month then 30 else 31

/-- Reads a number of exactly `width` decimal digits. -/
def fixed? (width : Nat) (cs : List Char) : Option (Nat × List Char) := do
  if (cs.take width).length = width then some (← natural? 10 (cs.take width), cs.drop width) else none

/-- Reads a number of two digits that stands after a mark. -/
def after? (mark : Char) : List Char → Option (Nat × List Char)
  | c :: r => if c == mark then fixed? 2 r else none
  | [] => none

/-- What follows a date. -/
def date? (cs : List Char) : Option (List Char) := do
  let (year, rest) ← fixed? 4 cs
  let (month, rest) ← after? '-' rest
  let (day, rest) ← after? '-' rest
  if 1 ≤ month ∧ month ≤ 12 ∧ 1 ≤ day ∧ day ≤ daysIn year month then some rest else none

/-- What follows hours and minutes, which are the time of a day or an offset. -/
def hours? (cs : List Char) : Option (List Char) := do
  let (hour, rest) ← fixed? 2 cs
  let (minute, rest) ← after? ':' rest
  if hour ≤ 23 ∧ minute ≤ 59 then some rest else none

/-- What follows the seconds, if any, of a time of day; they may have a fraction. -/
def seconds? : List Char → Option (List Char)
  | ':' :: r => do
    let (second, rest) ← fixed? 2 r
    if second ≤ 60 then
      match rest with
      | '.' :: c :: r => if c.isDigit then some (r.dropWhile Char.isDigit) else none
      | rest => some rest
    else none
  | rest => some rest

/-- What follows a time of day. -/
def timeOfDay? (cs : List Char) : Option (List Char) := do seconds? (← hours? cs)

/-- What follows an offset, if any. -/
def offset? : List Char → Option (List Char)
  | '+' :: r => hours? r
  | '-' :: r => hours? r
  | 'Z' :: r => some r
  | 'z' :: r => some r
  | rest => some rest

/-- What follows a time of day and its offset, if any, after a date. -/
def timeAfterDate? : List Char → Option (List Char)
  | [] => some []
  | c :: r => do
    if ['T', 't', ' '].contains c then offset? (← timeOfDay? r) else none

/-- Whether a word is a date, a time of day, or both. -/
def isMoment (cs : List Char) : Bool :=
  timeOfDay? cs == some [] || ((date? cs).bind timeAfterDate?) == some []

end FormDesk.Toml

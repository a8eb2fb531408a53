/-
Numbers in TOML. A whole number has a value; a fractional one is only known
to be well formed. Underscores stand between digits. Apart from that, what
follows the first underscore of a whole number without a base mark is looked
at only for its value: the word is well formed as long as there is no blank in
it, tabs apart, but it has a value only if the rest are digits too.
-/
import FormDesk.Data.Value
import FormDesk.Toml.Character

namespace FormDesk.Toml

/-- Whether each underscore stands between two digits; `after` says whether a digit stands before
the text. -/
def spaced (isDigit : Char → Bool) (after : Bool) : List Char → Bool
  | [] => true
  | ['_'] => false
  | '_' :: c :: r => after && isDigit c && spaced isDigit true r
  | c :: r => spaced isDigit (isDigit c) r

/-- The number that digits write, between which underscores may stand. -/
def spacedNatural? (base : Nat) (cs : List Char) : Option Nat :=
  match cs.filter (· != '_') with
  | [] => none
  | digits => natural? base digits

/-- A whole number after the mark of its base. There may be no digits, but then it has no value. -/
def based? (base : Nat) (cs : List Char) : Option (Option Nat) :=
  if cs.all (fun c => isDigitIn base c || c == '_') && spaced (isDigitIn base) false cs then
    some (spacedNatural? base cs)
  else none

/-- Whether a number starts with a needless zero. -/
def hasLeadingZero : List Char → Bool
  | '0' :: _ :: _ => true
  | _ => false

/-- What follows decimal digits and underscores, if there is a digit. -/
def skipDigits? (cs : List Char) : Option (List Char) :=
  if (cs.takeWhile fun c => c.isDigit || c == '_').any Char.isDigit then
    some (cs.dropWhile fun c => c.isDigit || c == '_')
  else none

/-- What follows the fraction, if any. -/
def skipFraction? : List Char → Option (List Char)
  | '.' :: r => skipDigits? r
  | cs => some cs

/-- What follows the exponent, if any. -/
def skipExponent? : List Char → Option (List Char)
  | c :: s :: r =>
    if c == 'e' || c == 'E' then skipDigits? (if s == '+' || s == '-' then r else s :: r)
    else some (c :: s :: r)
  | cs => some cs

/-- Whether a word without a sign is a number with a fraction or an exponent. -/
def isFractional (cs : List Char) : Bool :=
  let whole := (cs.takeWhile fun c => c.isDigit || c == '_').filter Char.isDigit
  !hasLeadingZero whole && spaced Char.isDigit false cs &&
    ((skipDigits? cs).bind skipFraction?).bind skipExponent? == some []

/-- The number that a word without a sign and a base mark is. -/
def decimal? (cs : List Char) : Option (Option Nat) :=
  let tail := cs.dropWhile Char.isDigit
  if tail.any ['.', 'e', 'E'].contains then
    if isFractional cs then some none else none
  else if tail.contains ' ' || hasLeadingZero cs || !spaced (isDigitIn 16) false cs then none
  else
    match cs, tail with
    | [], _ => none
    | _, [] => some (natural? 10 cs)
    | _, '_' :: _ => some (spacedNatural? 10 cs)
    | _, _ => none

/-- The number that a word is. A number that is no whole number has no value. -/
def number? : List Char → Option (Option Int)
  | '0' :: 'x' :: r => (based? 16 r).map (Option.map (Int.ofNat ·))
  | '0' :: 'o' :: r => (based? 8 r).map (Option.map (Int.ofNat ·))
  | '0' :: 'b' :: r => (based? 2 r).map (Option.map (Int.ofNat ·))
  | '+' :: r => (decimal? r).map (Option.map (Int.ofNat ·))
  | '-' :: r => (decimal? r).map (Option.map (-Int.ofNat ·))
  | cs => (decimal? cs).map (Option.map (Int.ofNat ·))

end FormDesk.Toml

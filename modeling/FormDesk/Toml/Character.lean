/-
Classes of characters in TOML. All of them are about ASCII characters, except
that a text or a comment may hold any character that is no control character.
-/
namespace FormDesk.Toml

/-- Whether a character may stand in a comment or a text: a tab, or no control character. -/
def isPrintable (c : Char) : Bool :=
  c == '\t' || (c.toNat ≥ 0x20 && c.toNat != 0x7F)

/-- Whether a character separates tokens on one line. -/
def isSpace (c : Char) : Bool := c == ' ' || c == '\t'

/-- Whether a character may stand in a key without quotes. -/
def isKeyChar (c : Char) : Bool := c.isAlphanum || c == '_' || c == '-'

/-- Whether a character belongs to a word: it is no blank, line end or mark, and starts no comment. -/
def isWordChar (c : Char) : Bool :=
  !(isSpace c || ['\n', '\r', '#', '=', ',', '[', ']', '\x7b', '\x7d'].contains c)

/-- The value of a digit in a base up to 16. -/
def digit? (base : Nat) (c : Char) : Option Nat :=
  let value :=
    if c.isDigit then some (c.toNat - '0'.toNat)
    else if 'a' ≤ c && c ≤ 'f' then some (c.toNat - 'a'.toNat + 10)
    else if 'A' ≤ c && c ≤ 'F' then some (c.toNat - 'A'.toNat + 10)
    else none
  value.filter (· < base)

/-- Whether a character is a digit in a base up to 16. -/
def isDigitIn (base : Nat) (c : Char) : Bool := (digit? base c).isSome

/-- The number that digits of a base write; none when a character is no such digit. -/
def natural? (base : Nat) (digits : List Char) : Option Nat :=
  digits.foldlM (fun n c => (digit? base c).map (base * n + ·)) 0

end FormDesk.Toml

/-
Quoted text in TOML, in four forms: basic (`"…"`) and literal (`'…'`) text on
one line, and long text in three quotes, which may hold newlines. A basic text
has escapes; in a long one, a backslash at the end of a line also takes out
the newline and the blanks after it.

A text is read in two steps: `take…` finds the closing quotes and answers the
raw text before them, `unescape` replaces the escapes in it.
-/
import FormDesk.Toml.Character

namespace FormDesk.Toml

/-- The character whose code point is written in hexadecimal digits. -/
def scalar? (digits : List Char) : Option Char := do
  let code ← natural? 16 digits
  if code.isValidChar then some (Char.ofNat code) else none

/-- Whether only blanks are left on the line, and the line is not the last one. -/
def endsLine (cs : List Char) : Bool :=
  match cs.dropWhile isSpace with
  | '\n' :: _ => true
  | '\r' :: '\n' :: _ => true
  | _ => false

/-- Whether a character belongs to the gap after a backslash at the end of a line. -/
def isGap (c : Char) : Bool := isSpace c || c == '\n' || c == '\r'

/-- A text with its escapes replaced; none when there is a wrong one. A backslash at the end of a
line goes, with the gap after it, in which `inGap` says that the text starts. An escape is read as a
whole before the next character is looked at, so that no gap can stand inside one. -/
def unescape (inGap : Bool) : List Char → Option (List Char)
  | [] => some []
  | '\\' :: 'b' :: r => ('\x08' :: ·) <$> unescape false r
  | '\\' :: 't' :: r => ('\t' :: ·) <$> unescape false r
  | '\\' :: 'n' :: r => ('\n' :: ·) <$> unescape false r
  | '\\' :: 'f' :: r => ('\x0c' :: ·) <$> unescape false r
  | '\\' :: 'r' :: r => ('\r' :: ·) <$> unescape false r
  | '\\' :: 'e' :: r => ('\x1b' :: ·) <$> unescape false r
  | '\\' :: '"' :: r => ('"' :: ·) <$> unescape false r
  | '\\' :: '\\' :: r => ('\\' :: ·) <$> unescape false r
  | '\\' :: 'x' :: a :: b :: r => do return (← scalar? [a, b]) :: (← unescape false r)
  | '\\' :: 'u' :: a :: b :: c :: d :: r => do
    return (← scalar? [a, b, c, d]) :: (← unescape false r)
  | '\\' :: 'U' :: a :: b :: c :: d :: e :: f :: g :: h :: r => do
    return (← scalar? [a, b, c, d, e, f, g, h]) :: (← unescape false r)
  | '\\' :: r => if endsLine r then unescape true r else none
  | c :: r => if inGap && isGap c then unescape true r else (c :: ·) <$> unescape false r

/-- A long text without a newline at its start. -/
def dropNewline : List Char → List Char
  | '\n' :: r => r
  | '\r' :: '\n' :: r => r
  | cs => cs

/-- The raw basic text up to the closing quote, and what follows the quote. -/
def takeBasic : List Char → Option (List Char × List Char)
  | [] => none
  | '"' :: r => some ([], r)
  | '\\' :: '"' :: r => (takeBasic r).map fun (raw, rest) => ('\\' :: '"' :: raw, rest)
  | '\\' :: '\\' :: r => (takeBasic r).map fun (raw, rest) => ('\\' :: '\\' :: raw, rest)
  | c :: r => if isPrintable c then (takeBasic r).map fun (raw, rest) => (c :: raw, rest) else none

/-- The literal text up to the closing quote, and what follows the quote. -/
def takeLiteral : List Char → Option (List Char × List Char)
  | [] => none
  | '\'' :: r => some ([], r)
  | c :: r => if isPrintable c then (takeLiteral r).map fun (raw, rest) => (c :: raw, rest) else none

/-- The raw long basic text up to the closing quotes, before which two more quotes may stand. -/
def takeLongBasic : List Char → Option (List Char × List Char)
  | [] => none
  | '"' :: '"' :: '"' :: '"' :: '"' :: r => some (['"', '"'], r)
  | '"' :: '"' :: '"' :: '"' :: r => some (['"'], r)
  | '"' :: '"' :: '"' :: r => some ([], r)
  | '\\' :: '"' :: r => (takeLongBasic r).map fun (raw, rest) => ('\\' :: '"' :: raw, rest)
  | '\\' :: '\\' :: r => (takeLongBasic r).map fun (raw, rest) => ('\\' :: '\\' :: raw, rest)
  | '\r' :: '\n' :: r => (takeLongBasic r).map fun (raw, rest) => ('\r' :: '\n' :: raw, rest)
  | c :: r =>
    if isPrintable c || c == '\n' then (takeLongBasic r).map fun (raw, rest) => (c :: raw, rest)
    else none

/-- The long literal text up to the closing quotes, before which two more quotes may stand. -/
def takeLongLiteral : List Char → Option (List Char × List Char)
  | [] => none
  | '\'' :: '\'' :: '\'' :: '\'' :: '\'' :: r => some (['\'', '\''], r)
  | '\'' :: '\'' :: '\'' :: '\'' :: r => some (['\''], r)
  | '\'' :: '\'' :: '\'' :: r => some ([], r)
  | '\r' :: '\n' :: r => (takeLongLiteral r).map fun (raw, rest) => ('\r' :: '\n' :: raw, rest)
  | c :: r =>
    if isPrintable c || c == '\n' then (takeLongLiteral r).map fun (raw, rest) => (c :: raw, rest)
    else none

/-- Reads a text on one line, in either kind of quotes. -/
def line? : List Char → Option (String × List Char)
  | '"' :: r => do
    let (raw, rest) ← takeBasic r
    return (String.ofList (← unescape false raw), rest)
  | '\'' :: r => do
    let (raw, rest) ← takeLiteral r
    return (String.ofList raw, rest)
  | _ => none

/-- Reads a text in any of the four forms. -/
def quoted? : List Char → Option (String × List Char)
  | '"' :: '"' :: '"' :: r => do
    let (raw, rest) ← takeLongBasic r
    return (String.ofList (← unescape false (dropNewline raw)), rest)
  | '\'' :: '\'' :: '\'' :: r => do
    let (raw, rest) ← takeLongLiteral r
    return (String.ofList (dropNewline raw), rest)
  | cs => line? cs

end FormDesk.Toml

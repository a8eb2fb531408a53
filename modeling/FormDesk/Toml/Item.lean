/-
Values in TOML: texts, words (truth values, numbers, moments), arrays and
inline tables. A value that no setting can be, such as a moment, is kept as
it was written.

Arrays and inline tables may go over several lines and hold comments. A key may
have several parts with dots between them: all but the last name tables inside
each other. How deep values may be nested, and how many parts a key may have,
is limited.
-/
import FormDesk.Toml.Moment
import FormDesk.Toml.Number
import FormDesk.Toml.Quoted

namespace FormDesk.Toml

/-- What is left after blanks, line ends and comments. -/
def skipGaps (inComment : Bool) : List Char → Option (List Char)
  | [] => some []
  | '\n' :: r => skipGaps false r
  | '\r' :: '\n' :: r => skipGaps false r
  | c :: r =>
    if inComment then if isPrintable c then skipGaps true r else none
    else if isSpace c then skipGaps false r
    else if c == '#' then skipGaps true r
    else some (c :: r)

/-! ## Words -/

/-- Whether a word goes on after blanks: it does so unless the line ends, or a mark, a dot, a comment
or a text follows. -/
def goesOn : List Char → Bool
  | [] => false
  | c :: _ => isWordChar c && !(['.', '"', '\''].contains c)

/-- A word with the blanks inside it, and what follows it. Few words may hold blanks, such as a date
with a time. -/
def takeWord : List Char → List Char × List Char
  | [] => ([], [])
  | c :: r =>
    if isWordChar c || (isSpace c && goesOn (r.dropWhile isSpace)) then
      let (word, rest) := takeWord r
      (c :: word, rest)
    else ([], c :: r)

/-- The words for numbers that are not finite. -/
def unboundedWords : List String := ["inf", "+inf", "-inf", "nan", "+nan", "-nan"]

/-- The value of a word that is no text. -/
def word? (cs : List Char) : Option Value :=
  let word := String.ofList cs
  if word == "true" then some (.bool true)
  else if word == "false" then some (.bool false)
  else if unboundedWords.contains word || isMoment cs then some (.unread word)
  else (number? cs).map fun n => n.elim (.unread word) .int

/-! ## Keys and fields -/

/-- Reads a key of one part, bare or quoted. -/
def key? (cs : List Char) : Option (String × List Char) :=
  match cs with
  | c :: _ =>
    if isKeyChar c then some (String.ofList (cs.takeWhile isKeyChar), cs.dropWhile isKeyChar)
    else line? cs
  | [] => none

/-- How deep arrays and inline tables may be nested, and how many parts a key may have. -/
def nestingLimit : Nat := 80

/-- Reads the parts of a key, of which there are `levels` at most, with dots and blanks between
them. -/
def keyPath? : Nat → List Char → Option (List String × List Char)
  | 0, _ => none
  | levels + 1, cs => do
    let (part, rest) ← key? cs
    match rest.dropWhile isSpace with
    | '.' :: rest =>
      let (path, rest) ← keyPath? levels (rest.dropWhile isSpace)
      return (part :: path, rest)
    | rest => return ([part], rest)

/-- Reads a key and the equals sign after it; `skip` takes out what may stand around the sign. -/
def assign? (skip : List Char → Option (List Char)) (cs : List Char) :
    Option (List String × List Char) := do
  let (path, rest) ← keyPath? nestingLimit cs
  match ← skip rest with
  | '=' :: rest => return (path, ← skip rest)
  | _ => none

/-- A field as it is written: the parts of its key, and its value. -/
abbrev Field := List String × Value

/-- Adds a field, unless its key goes through a value that is there, or to a table that is there. So
the keys of a table are never the beginnings of each other. -/
def addField (fields : List Field) (path : List String) (value : Value) : Option (List Field) :=
  if fields.any fun f => f.1.isPrefixOf path || path.isPrefixOf f.1 then none
  else some (fields ++ [(path, value)])

/-- Puts a value under the parts of a key into a table, and the tables between them where needed. -/
def putAt (table : List (String × Value)) : List String → Value → List (String × Value)
  | [], _ => table
  | [key], value => table ++ [(key, value)]
  | key :: path, value =>
    match List.lookup key table with
    | some (.table inner) =>
      table.map fun f => if f.1 == key then (key, .table (putAt inner path value)) else f
    | _ => table ++ [(key, .table (putAt [] path value))]

/-- The table that fields make up. -/
def tableOf (fields : List Field) : Value :=
  .table (fields.foldl (fun table (path, value) => putAt table path value) [])

/-! ## Values -/

/-- Reads the rest of an array after the items `items`; `read` reads an item, and `room` bounds the
number of items to come. -/
def array? (read : List Char → Option (Value × List Char)) :
    Nat → List Value → List Char → Option (Value × List Char)
  | 0, _, _ => none
  | _ + 1, items, ']' :: r => some (.list items, r)
  | room + 1, items, cs => do
    let (v, rest) ← read cs
    match ← skipGaps false rest with
    | ',' :: rest => array? read room (items ++ [v]) (← skipGaps false rest)
    | ']' :: rest => some (.list (items ++ [v]), rest)
    | _ => none

/-- Reads the rest of an inline table after the fields `fields`; `read` reads a value, and `room`
bounds the number of fields to come. -/
def inline? (read : List Char → Option (Value × List Char)) :
    Nat → List Field → List Char → Option (Value × List Char)
  | 0, _, _ => none
  | _ + 1, fields, '\x7d' :: r => some (tableOf fields, r)
  | room + 1, fields, cs => do
    let (path, rest) ← assign? (skipGaps false) cs
    let (v, rest) ← read rest
    let fields ← addField fields path v
    match ← skipGaps false rest with
    | ',' :: rest => inline? read room fields (← skipGaps false rest)
    | '\x7d' :: rest => some (tableOf fields, rest)
    | _ => none

/-- Reads a value in which arrays and inline tables are nested `levels` deep at most; `room` bounds
how many items and fields each may have. -/
def value? (room : Nat) : Nat → List Char → Option (Value × List Char)
  | _, '"' :: r => do
    let (s, rest) ← quoted? ('"' :: r)
    return (.text s, rest)
  | _, '\'' :: r => do
    let (s, rest) ← quoted? ('\'' :: r)
    return (.text s, rest)
  | levels + 1, '[' :: r => do array? (value? room levels) room [] (← skipGaps false r)
  | levels + 1, '\x7b' :: r => do inline? (value? room levels) room [] (← skipGaps false r)
  | _, cs => do
    let (word, rest) := takeWord cs
    return (← word? word, rest)

/-- Reads a field on a line of its own: a key, an equals sign and a value. -/
def assignment? (room : Nat) (cs : List Char) : Option (Field × List Char) := do
  let (path, rest) ← assign? (fun cs => some (cs.dropWhile isSpace)) cs
  let (v, rest) ← value? room nestingLimit rest
  return ((path, v), rest)

end FormDesk.Toml

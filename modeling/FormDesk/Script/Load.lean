/-
Loading scripts and settings from files (`ScriptError`, `ConfigError`). A file that
cannot be read, or whose bytes are no text, is one kind of failure; a text that is
no well-formed script or settings file is the other.
-/
import FormDesk.Script.Basic

namespace FormDesk

/-- Why a file cannot be read. -/
inductive FileFault where
  | notFound
  | isDirectory
  | notUtf8
  deriving DecidableEq, Repr

/-- The wording of a fault with a file. -/
def FileFault.message : FileFault → String
  | .notFound => "No such file or directory (os error 2)"
  | .isDirectory => "Is a directory (os error 21)"
  | .notUtf8 => "stream did not contain valid UTF-8"

/-- Why a script or settings could not be loaded. -/
inductive LoadError where
  | unreadable (path : String) (fault : FileFault)
  | malformed
  deriving DecidableEq, Repr

/-- The wording of a file that could not be read. -/
def FileFault.report (path : String) (fault : FileFault) : String :=
  "I/O error reading " ++ path ++ ": " ++ fault.message

/-- What a file holds, or why it cannot be read. -/
abbrev FileText := Except FileFault String

/-- The text that bytes encode. -/
def FileText.ofBytes (bytes : ByteArray) : FileText :=
  match String.fromUTF8? bytes with
  | some text => .ok text
  | none => .error .notUtf8

/-- Reads the text of a file with `read`. -/
def loadWith {α : Type} (read : String → Option α) (path : String) : FileText → Except LoadError α
  | .error fault => .error (.unreadable path fault)
  | .ok text =>
    match read text with
    | some a => .ok a
    | none => .error .malformed

/-- The script in a file. -/
def Script.load (path : String) (text : FileText) : Except LoadError Script :=
  loadWith Script.ofToml? path text

/-- The settings in a file. -/
def Settings.load (path : String) (text : FileText) : Except LoadError Settings :=
  loadWith Settings.ofToml? path text

end FormDesk

/-
The settings of a form editor (`EditorConfig`), and the key under which its active
page is remembered (`page_memory_key`).
-/
namespace FormDesk

/-- The tag in diagnostics for a resource outside every project. -/
def standardTag : String := "XML Editor"

/-- The settings of a form editor. -/
structure Settings where
  /-- The kind of editor; the active page is remembered per kind. -/
  kind : String := "FormEditor"
  textTitle : String := "Source"
  remembers : Bool := true
  /-- The page to show when none is remembered: an index or an id. -/
  defaultPage : Option String := none
  fallbackTag : String := standardTag
  deriving DecidableEq, Repr, Inhabited

/-- What stands between kind and resource in a memory key. -/
def memoryKeySeparator : String := "_current_page@"

/-- The key under which the active page of a resource is remembered. -/
def Settings.memoryKey (s : Settings) (resource : String) : String :=
  s.kind ++ memoryKeySeparator ++ resource

end FormDesk

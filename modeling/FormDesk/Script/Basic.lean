/-
Scripts (`Script`, with steps `Step`): a document and a list of steps to replay on
it. Scripts and settings are records, which a configuration file or a message may
hold; this module reads both from plain data.
-/
import FormDesk.Data.Record
import FormDesk.Settings
import FormDesk.Toml.Document

namespace FormDesk

/-- A step of a script: an edit, or an undo. -/
structure ScriptStep where
  /-- Text to append to the document. -/
  append : Option String := none
  /-- The undo label; a step with one is undoable. -/
  label : Option String := none
  /-- How many further sessions to nest the edit in. -/
  nested : Nat := 0
  /-- Whether the edit fails in the end. -/
  fail : Bool := false
  /-- Whether to undo the last recorded edit instead. -/
  undo : Bool := false
  deriving DecidableEq, Repr, Inhabited

/-- A script to replay. -/
structure Script where
  document : String := ""
  resource : Option String := none
  project : Option String := none
  steps : List ScriptStep := []
  deriving DecidableEq, Repr, Inhabited

/-- Reads a step from plain data. -/
def ScriptStep.ofValue? (surplus : Surplus) (v : Value) : Option ScriptStep := do
  let fields ← v.record? surplus ["append", "label", "nested", "fail", "undo"]
  match fields with
  | [append, label, nested, fail, undo] =>
    return {
      append := ← field? (Value.optional? Value.text?) none append
      label := ← field? (Value.optional? Value.text?) none label
      nested := ← field? Value.natural? 0 nested
      fail := ← field? Value.bool? false fail
      undo := ← field? Value.bool? false undo }
  | _ => none

/-- Reads a script from plain data. -/
def Script.ofValue? (surplus : Surplus) (v : Value) : Option Script := do
  let fields ← v.record? surplus ["document", "resource", "project", "steps"]
  match fields with
  | [document, resource, project, steps] =>
    return {
      document := ← field? Value.text? "" document
      resource := ← field? (Value.optional? Value.text?) none resource
      project := ← field? (Value.optional? Value.text?) none project
      steps := ← field? (Value.items? (ScriptStep.ofValue? surplus)) [] steps }
  | _ => none

/-- Reads settings from plain data. -/
def Settings.ofValue? (surplus : Surplus) (v : Value) : Option Settings := do
  let fields ← v.record? surplus
    ["editor_kind", "text_page_title", "remember_active_page", "default_page", "fallback_project_tag"]
  let usual : Settings := {}
  match fields with
  | [kind, title, remember, page, tag] =>
    return {
      kind := ← field? Value.text? usual.kind kind
      textTitle := ← field? Value.text? usual.textTitle title
      remembers := ← field? Value.bool? usual.remembers remember
      defaultPage := ← field? (Value.optional? Value.text?) usual.defaultPage page
      fallbackTag := ← field? Value.text? usual.fallbackTag tag }
  | _ => none

/-- Reads a script from the text of a TOML file. -/
def Script.ofToml? (text : String) : Option Script :=
  (Toml.parse? text).bind (Script.ofValue? .ignored)

/-- Reads settings from the text of a TOML file. -/
def Settings.ofToml? (text : String) : Option Settings :=
  (Toml.parse? text).bind (Settings.ofValue? .ignored)

end FormDesk

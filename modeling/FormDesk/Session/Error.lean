/-
Why an edit is skipped (`SessionError`), and the wording of each reason.
-/
import FormDesk.Model.Error

namespace FormDesk

/-- Why an edit is skipped. -/
inductive SessionError where
  /-- The model could not be shared or prepared for change. -/
  | modelUnavailable (source : ModelError)
  /-- Undo recording could not start; `project` and `label` tell the edit that was given up. -/
  | recordingStart (project label : String) (source : ModelError)
  deriving DecidableEq, Repr

/-- The wording of the reason for a skip. -/
def SessionError.message : SessionError → String
  | .modelUnavailable source => "XML editor failed to get model to edit: " ++ source.message
  | .recordingStart project label _ =>
    "[" ++ project ++ "] action '" ++ label ++
      "' failed: could not start an undo session, document might be corrupt"

end FormDesk

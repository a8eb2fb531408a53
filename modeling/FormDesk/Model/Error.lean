/-
Why the model refuses an operation (`ModelError`), and the wording of each refusal.
-/
import FormDesk.Model.Share

namespace FormDesk

/-- Why no undo recording can start. -/
inductive RecordingObstacle where
  | disabled
  | noDocument
  deriving DecidableEq, Repr

/-- The wording of an obstacle to recording. -/
def RecordingObstacle.message : RecordingObstacle → String
  | .disabled => "undo recording disabled"
  | .noDocument => "no structured document"

/-- Why the model refuses an operation. -/
inductive ModelError where
  /-- There is no model to share, or it holds no document. -/
  | unavailable
  | notRecordable (obstacle : RecordingObstacle)
  /-- The share was taken for another access than the operation needs. -/
  | wrongAccess (needed got : Access)
  /-- The share was given back, or never handed out. -/
  | staleShare (id : Nat)
  /-- A mutation outside every change bracket. -/
  | notChanging
  deriving DecidableEq, Repr

/-- The wording of a refusal by the model. -/
def ModelError.message : ModelError → String
  | .unavailable => "no document model is available"
  | .notRecordable obstacle => "document is not recordable: " ++ obstacle.message
  | .wrongAccess needed got => needed.word ++ " handle required, got " ++ got.word ++ " handle"
  | .staleShare id => "stale model handle #" ++ toString id
  | .notChanging => "model is not inside a change bracket"

end FormDesk

/-
Undoable edits (`run_undoable_edit`, here `undoableEdit`): an edit session inside
one undo recording. The recording is started before the session opens and ended
after it has closed, however the mutation ends (`UndoGuard`). An undoable edit
inside another one of the same coordinator joins its recording. When no recording
can start, the edit is skipped, so that no change goes unrecorded.
-/
import FormDesk.Session.Edit

namespace FormDesk

/-- The desk with another count of open undoable edits at one coordinator. -/
def Desk.withUndoDepth {σ : Type} (d : Desk σ) (id : CoordinatorId) (f : Nat → Nat) : Desk σ :=
  d.withCoordinator id fun c => { c with undoDepth := f c.undoDepth }

namespace Act

variable {σ ε α : Type}

/-- Changes the count of open undoable edits. -/
def changeUndoDepth (id : CoordinatorId) (f : Nat → Nat) : Act σ Unit := change (·.withUndoDepth id f)

/-- Starts a recording for a coordinator, with a share of its own. -/
def startRecording (id : CoordinatorId) (label : Option String) : Act σ (Except ModelError Unit) := do
  match ← withShare .edit fun share => beginRecording share (.coordinator id) label with
  | .error e => return .error e
  | .ok started => return started

/-- Ends a coordinator's recording, with a share of its own. -/
def finishRecording (id : CoordinatorId) : Act σ Unit := do
  did (.finished id (← look (·.model.available)))
  match ← withShare .edit fun share => endRecording share (.coordinator id) with
  | .error e => note (.recordingNotEnded e)
  | .ok () => pure ()

/-- Runs a mutation as one entry of the undo stack. -/
def undoableEdit (id : CoordinatorId) (label : Option String)
    (mutation : Scope → Act σ (Except ε α)) : Act σ (Except ε (Edited α)) := do
  if (← look fun d => (d.coordinator id).undoDepth) > 0 then
    changeUndoDepth id (· + 1)
    ensure (edit id mutation) (changeUndoDepth id (· - 1))
  else
    let before ← look (·.model)
    match ← startRecording id label with
    | .error source =>
      let reason := SessionError.recordingStart (← look fun d => (d.coordinator id).tag)
        (label.getD "") source
      note (.recordingNotStarted reason)
      return .ok (.skipped reason)
    | .ok () =>
      did (.began id label before.document before.recording.isSome)
      changeUndoDepth id (· + 1)
      ensure (between (.edits id) (.edited id) (edit id mutation)) do
        changeUndoDepth id (· - 1)
        finishRecording id

end Act

end FormDesk

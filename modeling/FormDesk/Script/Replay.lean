/-
Replaying a script (`run`): a model with the script's document, an editor on it
whose one page is a console (`ConsolePage`), and the script's steps as edits made
through the editor (`replayStep` is `run_step`, `nestedEdit` is `nest`). The console
shows every document that it is given; what it has shown, what became of each step
and what the model counted make up the report (`Report`).
-/
import FormDesk.Editor
import FormDesk.Script.Load

namespace FormDesk

/-! ## The console -/

/-- What the console has shown and logged. -/
structure Console where
  displayed : Array String := #[]
  notices : Array Notice := #[]
  deriving Inhabited

/-- The console as the host of a desk: its page shows every document. -/
def Console.host : Host Console where
  answer
    | .pageChanged _ document, d =>
      let text := document.getD "<no document>"
      (.returned (), { d with client := { d.client with displayed := d.client.displayed.push text } })
    | _, d => (.returned (), d)
  note n c := { c with notices := c.notices.push n }

/-! ## Steps -/

/-- Why the mutation of a step fails. -/
inductive StepFault where
  /-- The script asks for it. -/
  | requested
  | model (cause : ModelError)
  deriving DecidableEq, Repr

/-- The wording of a step's failure. -/
def StepFault.message : StepFault → String
  | .requested => "step failed on request"
  | .model cause => cause.message

/-- What became of a step. -/
inductive StepOutcome where
  | applied
  | skipped (reason : SessionError)
  | failed (cause : StepFault)
  | undone (label : Option String)
  | nothingToUndo
  deriving DecidableEq, Repr

/-- What became of a step that is an edit. -/
def StepOutcome.ofEdit : Except StepFault (Edited Unit) → StepOutcome
  | .ok (.applied ()) => .applied
  | .ok (.skipped reason) => .skipped reason
  | .error cause => .failed cause

/-- The line on a step in the report. -/
def StepOutcome.text : StepOutcome → String
  | .applied => "applied"
  | .skipped reason => "skipped: " ++ reason.message
  | .failed cause => "failed: " ++ cause.message
  | .undone label => "undone '" ++ label.getD "" ++ "'"
  | .nothingToUndo => "nothing to undo"

namespace Act

variable {σ : Type}

/-- Appends text to the document, through the session of a scope. -/
def appendText (scope : Scope) (text : String) : Act σ (Except ModelError Unit) := do
  mutate (← scopeShare scope) fun document => return ((), document ++ text)

/-- The change that a step makes in its innermost session. -/
def editOf (step : ScriptStep) (scope : Scope) : Act σ (Except StepFault Unit) := do
  let ended := if step.fail then Except.error StepFault.requested else .ok ()
  match step.append with
  | none => return ended
  | some text =>
    match ← appendText scope text with
    | .error e => return .error (.model e)
    | .ok () => return ended

/-- The change that a step makes, inside so many further sessions. -/
def nestedEdit (step : ScriptStep) : Nat → Scope → Act σ (Except StepFault Unit)
  | 0, scope => editOf step scope
  | n + 1, scope => do
    match ← edit scope.coordinator (nestedEdit step n) with
    | .error e => return .error e
    | .ok _ => return .ok ()

/-- Runs one step through a coordinator. -/
def replayStep (id : CoordinatorId) (step : ScriptStep) : Act σ StepOutcome := do
  if step.undo then
    match ← undo with
    | some entry => return .undone entry.label
    | none => return .nothingToUndo
  else
    let edited ← match step.label with
      | some label => undoableEdit id (some label) (nestedEdit step step.nested)
      | none => edit id (nestedEdit step step.nested)
    return .ofEdit edited

/-- Runs steps in order. -/
def replaySteps (id : CoordinatorId) : List ScriptStep → Act σ (List StepOutcome)
  | [] => return []
  | step :: rest => do
    let result ← replayStep id step
    return result :: (← replaySteps id rest)

/-- Replays a script on a desk that holds its document, with page 0 as the console and memory 0 to
remember the active page. -/
def replay (script : Script) (settings : Settings) : Act σ (Except PageError (List StepOutcome)) := do
  let editor ← makeEditor (script.resource.getD "untitled.xml") script.project settings 0
  match ← openEditor editor [] 0 with
  | .error e => return .error e
  | .ok () =>
    let results ← replaySteps (← look fun d => (d.editor editor).coordinator) script.steps
    disposeEditor editor
    return .ok results

end Act

/-! ## Reports -/

/-- The report on a replay. -/
structure Report where
  refreshes : List String
  steps : List StepOutcome
  tally : Tally
  undoLabels : List (Option String)
  document : Document
  notices : List Notice
  deriving DecidableEq, Repr

/-- The desk that a replay starts from. -/
def Script.desk (script : Script) : Desk Console where
  model := { document := some script.document }
  pages := [⟨"console", "console", false⟩]
  memories := [{}]
  client := {}

/-- The report on steps that ended with a desk. -/
def Report.ofDesk (d : Desk Console) (steps : List StepOutcome) : Report where
  refreshes := d.client.displayed.toList
  steps
  tally := d.model.tally
  undoLabels := d.model.undoLabels
  document := d.model.document.getD ""
  notices := d.client.notices.toList

/-- Replays a script and reports on it. -/
def Script.run (script : Script) (settings : Settings) : Outcome (Except PageError Report) :=
  let (outcome, d) := Act.replay script settings Console.host script.desk
  outcome.map fun results => results.map (Report.ofDesk d)

/-- The lines of numbered texts. -/
def numberedLines (caption : String) (first : Nat) (texts : List String) : String :=
  String.join ((texts.zipIdx first).map fun (text, n) =>
    caption ++ toString n ++ ": " ++ text ++ "\n")

/-- The text of a report. -/
def Report.text (r : Report) : String :=
  numberedLines "refresh #" 0 r.refreshes ++
  numberedLines "step " 1 (r.steps.map (·.text)) ++
  "model: " ++ toString r.tally.aboutToChange ++ " about_to_change, " ++
  toString r.tally.changed ++ " changed, " ++
  toString r.tally.acquiredEdit ++ " edit / " ++ toString r.tally.acquiredRead ++ " read acquired, " ++
  toString r.tally.released ++ " released\n" ++
  "undo: " ++ toString r.tally.endRecording ++ " recorded, stack [" ++
  ", ".intercalate (r.undoLabels.map (·.getD "<unlabeled>")) ++ "]\n" ++
  "document: " ++ r.document

end FormDesk

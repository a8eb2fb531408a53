/-
Running scenarios. `runAll` runs a list of steps in order and ends early with
the result of a strict step that answers an error. A block runs its steps
inside its frame, and whatever the frame opened is closed again, also when the
steps fail or are interrupted.

The steps of a reaction run outside every session. How deep reactions may nest
is bounded by a number far beyond what a scenario reaches.
-/
import FormDesk.Desk.Guard
import FormDesk.Scenario.Perform

namespace FormDesk.Scenario

/-- A scenario: the document to start with, where its resource lies, and the steps. -/
structure Program where
  document : Option Document := none
  location : String := ""
  steps : List Step := []

/-- What running a scenario answers. -/
structure Transcript where
  trace : List Entry
  tally : Tally
  journal : List Call

namespace Play

open Act

variable {β : Type}

/-! ## Blocks -/

/-- Runs steps and catches their failures and interruptions. -/
def catching (body : Play β (Except Failure Unit)) : Play β (Except Failure Result) := do
  match ← attempt body with
  | .ok (.ok ()) => return .ok .ok
  | .ok (.error cause) => return .ok (.caughtFailure cause)
  | .error message => return .ok (.caughtInterrupt message)

/-- Runs steps with a share that is given back after them, unless it is to be kept. A share to be kept
is given back all the same when the steps do not come to their end. -/
def holdingShare (access : Access) (called : String) (keep : Bool) (body : Play β (Except Failure Unit)) :
    Play β (Except Failure Result) := do
  let held ← guarding access (fun (_, ended) => keep && ended.isOk) fun share => do
    set fun s => { s with shares := s.shares.put called share }
    return (share.id, ← body)
  match held with
  | .error e => return .ok (.modelError e)
  | .ok (_, .error cause) => return .error cause
  | .ok (id, .ok ()) => return .ok (if keep then .kept id else .released id)

/-- Runs steps and then gives a share back. -/
def adopting (choice : ShareChoice) (body : Play β (Except Failure Unit)) :
    Play β (Except Failure Result) := do
  match ← findShare? choice with
  | none => return .ok .noSuch
  | some share => return (← guarded share (fun _ => false) body).map fun _ => .ok

/-- Changes the document and runs steps while it is in hand. The change stands when the steps fail. -/
def editing (scope : Option Scope) (choice : ShareChoice) (replacement extension : Option String)
    (body : Play β (Except Failure Unit)) : Play β (Except Failure Result) := do
  let edited ← withChosen scope choice fun share =>
    mutate share fun document => do
      let document := replacement.getD document ++ extension.getD ""
      let ended ← body
      return (ended.map fun _ => Result.length document.utf8ByteSize, document)
  match edited with
  | .error r => return .ok r
  | .ok (.error e) => return .ok (.modelError e)
  | .ok (.ok ended) => return ended

/-- Runs a mutation inside so many further sessions of the scope's coordinator. -/
def nestSessions (undoable : Bool) (mutation : Scope → Play β (Except Failure Value)) :
    Nat → Scope → Play β (Except Failure Value)
  | 0, scope => mutation scope
  | n + 1, scope => do
    let inner := nestSessions undoable mutation n
    let ended ←
      if undoable then undoableEdit scope.coordinator (some "nested") inner
      else edit scope.coordinator inner
    match ended with
    | .error cause => return .error cause
    | .ok (.applied value) => return .ok value
    | .ok (.skipped _) => return .ok (.text "skipped")

/-- Runs steps as the mutation of a session through a coordinator. -/
def sessionThrough (id : CoordinatorId) (spec : SessionSpec)
    (body : Option Scope → Play β (Except Failure Unit)) : Play β Result := do
  let mutation (scope : Scope) : Play β (Except Failure Value) := do
    match ← body (some scope), spec.fail with
    | .error cause, _ => return .error cause
    | .ok (), some value => return .error (.value value)
    | .ok (), none => return .ok spec.value
  let nested := nestSessions spec.nestUndo mutation spec.nest
  let ended ← match spec.undoable with
    | some label => undoableEdit id label nested
    | none => edit id nested
  match ended with
  | .error cause => return .mutationFailed cause
  | .ok (.applied value) => return .applied value
  | .ok (.skipped reason) => return .skipped reason

/-- Runs steps in a session. -/
def inSession (scope : Option Scope) (spec : SessionSpec)
    (body : Option Scope → Play β (Except Failure Unit)) : Play β Result :=
  match spec.through with
  | .editor name =>
    withEditor name fun id => do
      sessionThrough (← Act.look fun d => (d.editor id).coordinator) spec body
  | .coordinator name => withNamed (·.coordinators) name fun id => sessionThrough id spec body
  | .ambient =>
    match scope with
    | some scope => sessionThrough scope.coordinator spec body
    | none => return .noSuch

/-- Runs the steps of a block inside its frame. -/
def sameAudience (scope : Option Scope) (body : Option Scope → Play β (Except Failure Unit)) :
    Frame → Play β (Except Failure Result)
  | .catching => catching (body scope)
  | .share access called keep => holdingShare access called keep (body scope)
  | .adopt share => adopting share (body scope)
  | .edit share replacement extension => editing scope share replacement extension (body scope)
  | .session spec => return .ok (← inSession scope spec body)

/-! ## Lists of steps -/

/-- Ends a step: writes its result down, and fails with it if the step is strict and it is an error. A
step that fails itself leaves nothing in the trace. -/
def conclude (name : String) (strict : Bool) : Except Failure Result → Play β (Except Failure Unit)
  | .error cause => return .error cause
  | .ok r => do
    write (.finished name r)
    if strict && r.isError then return .error (.result r)
    return .ok ()

mutual

/-- Runs a step. -/
def runStep (scope : Option Scope) : Step → Play (List Step) (Except Failure Unit)
  | .plain name strict operation => do conclude name strict (← carryOut scope operation)
  | .block name strict frame body => do
    conclude name strict (← sameAudience scope (fun inner => runAll inner body) frame)

/-- Runs steps in order, up to the first failure. -/
def runAll (scope : Option Scope) : List Step → Play (List Step) (Except Failure Unit)
  | [] => return .ok ()
  | step :: rest => do
    match ← runStep scope step with
    | .error cause => return .error cause
    | .ok () => runAll scope rest

end

/-- Runs a step at the top of a scenario: its failure or interruption ends there, and is followed by
the state it leaves. -/
def runTop (step : Step) : Play (List Step) Unit := do
  match ← attempt (runStep none step) with
  | .ok (.ok ()) => pure ()
  | .ok (.error cause) => write (.failed cause)
  | .error message => write (.interrupted message)
  write (.state (← Act.look snapshot))

end Play

/-! ## Whole scenarios -/

/-- How deep reactions may nest. -/
def maxReactionDepth : Nat := 1000000

/-- The clients of a scenario, of which reactions nest at most so deep. -/
def Program.host (depth : Nat) : Host (Stage (List Step)) := Play.host (Play.runAll none) depth

/-- The desk that a scenario starts with. -/
def Program.desk (s : Program) : Desk (Stage (List Step)) where
  model := { document := s.document, location := s.location }
  client := {}

/-- Runs a scenario. -/
def Program.run (s : Program) : Transcript :=
  let (_, d) := Act.each s.steps Play.runTop (Program.host maxReactionDepth) s.desk
  ⟨d.client.trace.toList, d.model.tally, d.model.journal.toList⟩

end FormDesk.Scenario

/-
Edit sessions (`run_edit_session` of `EditCoordinator`, here `edit`). A coordinator
puts every change made through it into one change bracket: the outermost session
takes an edit share and opens the bracket, sessions inside it only count, and
leaving the outermost one closes the bracket and gives the share back. That
happens however the session's mutation ends. When the share or the bracket cannot
be had, the mutation does not run and the edit is skipped.

* `openSession` is `enter_session`, `leaveSession` is `exit_session`.
* A mutation works through its `Scope` (`EditScope`), whose `with_handle` gets the
  share from `scopeShare`. What became of the edit is `Edited` (`EditOutcome`).
* `Deed.runs` and `Deed.ran` stand around the mutation itself, whatever the
  counter of sessions says.
-/
import FormDesk.Desk.Change

namespace FormDesk

/-- What became of an edit whose mutation did not fail. -/
inductive Edited (α : Type) where
  /-- The mutation ran. -/
  | applied (value : α)
  /-- The mutation did not run. -/
  | skipped (reason : SessionError)
  deriving DecidableEq, Repr

/-- What a mutation works through: the coordinator that runs its session. -/
structure Scope where
  coordinator : CoordinatorId
  deriving DecidableEq, Repr, Inhabited

namespace Desk

variable {σ : Type}

/-- The desk with one coordinator changed. -/
def withCoordinator (d : Desk σ) (id : CoordinatorId) (f : Coordinator → Coordinator) : Desk σ :=
  { d with coordinators := d.coordinators.modify id f }

/-- The desk with one coordinator's session in another state. -/
def withSession (d : Desk σ) (id : CoordinatorId) (s : Sessions) : Desk σ :=
  d.withCoordinator id fun c => { c with session := s }

end Desk

namespace Act

variable {σ ε α : Type}

/-- Sets the state of a coordinator's session. -/
def setSession (id : CoordinatorId) (s : Sessions) : Act σ Unit :=
  change fun d => d.withSession id s

/-- Opens the bracket of a new session with its share. The share goes back when the bracket cannot be
opened. -/
def startWith (id : CoordinatorId) (share : Share) : Act σ (Except SessionError Unit) := do
  match ← onInterrupt (openBracket share) (release share) with
  | .error e =>
    release share
    return .error (.modelUnavailable e)
  | .ok () =>
    setSession id (.opened share)
    did (.opened id share.id)
    return .ok ()

/-- Opens the outermost session: takes the share and opens the bracket. -/
def startSession (id : CoordinatorId) : Act σ (Except SessionError Unit) := do
  match ← acquire .edit with
  | .error e => return .error (.modelUnavailable e)
  | .ok share =>
    did (.starting id share.id)
    startWith id share

/-- Enters a session, nested in the open one if there is one. -/
def openSession (id : CoordinatorId) : Act σ (Except SessionError Unit) := do
  match (← look fun d => (d.coordinator id).session).nest? with
  | some deeper =>
    did (.entered id ((← look fun d => (d.coordinator id).session).depth + 1))
    setSession id deeper
    return .ok ()
  | none => startSession id

/-- Leaves a session. The outermost one counts as closed before its bracket closes, so listeners that
hear of the change find the coordinator idle. -/
def leaveSession (id : CoordinatorId) : Act σ Unit := do
  did (.left id)
  let (exit, after) := (← look fun d => (d.coordinator id).session).leave
  setSession id after
  match exit with
  | .outermost share => ensure (closeBracket share) (release share)
  | .nested _ => pure ()
  | .underflow => pure ()

/-- Runs a mutation in an edit session. What the mutation fails with is passed on. -/
def edit (id : CoordinatorId) (mutation : Scope → Act σ (Except ε α)) :
    Act σ (Except ε (Edited α)) := do
  match ← openSession id with
  | .error e =>
    note (.editAborted e)
    return .ok (.skipped e)
  | .ok () =>
    match ← ensure (between (.runs id) (.ran id) (mutation ⟨id⟩)) (leaveSession id) with
    | .error e => return .error e
    | .ok value => return .ok (.applied value)

/-- The edit share of a scope's session. A scope lives no longer than its session. -/
def scopeShare (s : Scope) : Act σ Share := do
  match (← look fun d => (d.coordinator s.coordinator).session).share? with
  | some share => return share
  | none => interrupt "edit scope outlived its session"

end Act

end FormDesk

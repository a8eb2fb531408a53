/-
What a scenario answers: the result of each step, and the trace into which
results, calls to clients and notices are written in the order in which they
happen.
-/
import FormDesk.Data.Value
import FormDesk.Model.Basic
import FormDesk.Session.Depth
import FormDesk.Tabs.Basic

namespace FormDesk.Scenario

/-- The observable state of the model and of the named coordinators. -/
structure Snapshot where
  document : Option Document
  dirty : Bool
  changing : Bool
  recording : Bool
  shares : Nat
  listeners : Nat
  undoLabels : List (Option String)
  location : String
  /-- Name, session depth and whether an undoable edit is open. -/
  coordinators : List (String × Nat × Bool)
  deriving Repr

/-- Who an undone segment belonged to, as far as a name is known. -/
inductive OwnerName where
  | client (n : Nat)
  | coordinator (name : String)
  | unknown
  deriving Repr

/-- What is shown of an editor. -/
structure EditorInfo where
  creating : Bool
  following : Bool
  active : Option Nat
  text : Option Nat
  /-- The ids of the pages, in order. -/
  ids : List String
  session : Bool
  name : String
  project : Option String
  key : String
  document : Option Document
  deriving Repr

mutual

/-- The result of a step. -/
inductive Result where
  | ok
  | nothing
  /-- A name that nothing is kept under. -/
  | noSuch
  | badStep
  | badSettings
  | modelError (e : ModelError)
  | pageError (e : PageError)
  | sessionError (e : SessionError)
  | flag (b : Bool)
  | number (n : Nat)
  | text (s : String)
  | snapshot (s : Snapshot)
  | acquired (share : Share)
  | kept (id : Nat)
  | released (id : Nat)
  | token (n : Token)
  | document (document : Option Document)
  | length (bytes : Nat)
  | undone (label : Option String) (owner : OwnerName) (before : Option Document)
  | journal (calls : List Call)
  | tally (t : Tally)
  /-- The steps in a catching block failed. -/
  | caughtFailure (cause : Failure)
  /-- The steps in a catching block were interrupted. -/
  | caughtInterrupt (message : String)
  | applied (value : Value)
  | skipped (reason : SessionError)
  | mutationFailed (cause : Failure)
  | coordinator (active : Bool) (depth : Nat) (recording : Bool) (tag : String)
  | attached (attached : Bool)
  | index (n : Nat)
  | tab (id title : Option String) (kind : Option TabKind) (page : Option String)
  | pages (pages : List (String × String × Bool))
  | tabsInfo (count : Nat) (active text : Option Nat)
  | remembered (value : Option String)
  | committed (count : Nat)
  | editorInfo (info : EditorInfo)

/-- What a list of steps fails with: a value that a step was given, or the result of a strict step. -/
inductive Failure where
  | value (v : Value)
  | result (r : Result)

end

instance : Inhabited Result := ⟨.ok⟩
instance : Inhabited Failure := ⟨.result .ok⟩

/-- Whether a result ends a list in which its step is strict. -/
def Result.isError : Result → Bool
  | noSuch | badStep | badSettings | modelError _ | pageError _ | sessionError _ | mutationFailed _ => true
  | _ => false

/-- A call to a page. -/
inductive PageCall where
  | changed (document : Option Document)
  | commit (onSave : Bool)
  | reveal (start stop : Nat)
  deriving Repr

/-- An entry of the trace. -/
inductive Entry where
  | finished (step : String) (result : Result)
  | listener (name : String) (event : Event)
  | observer (name : String) (event : Event)
  | page (name : String) (call : PageCall)
  | notice (n : Notice)
  | reactionFailed (cause : Failure)
  /-- A step at the top of the scenario failed. -/
  | failed (cause : Failure)
  /-- A step at the top of the scenario was interrupted. -/
  | interrupted (message : String)
  | state (s : Snapshot)

end FormDesk.Scenario

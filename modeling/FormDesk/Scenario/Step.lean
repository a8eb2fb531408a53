/-
Scenarios: small programs that work a desk through its operations. A scenario
is a list of steps. A plain step is one operation; a block runs steps of its
own inside something that is opened before them and closed after them, such as
an edit session.

Listeners, views and pages that a scenario puts up carry reactions: steps to
run when they are called. What those steps are is left open in `Operation`, so
that carrying out an operation does not depend on it.
-/
import FormDesk.Data.Value
import FormDesk.Model.Share

namespace FormDesk.Scenario

/-- What to do, at most `times` times, when an event arrives. -/
structure Reaction (β : Type) where
  event : String
  times : Nat
  body : β

/-- A page to use: one that is there under the name `ref`, or else a new one. -/
structure PageSpec (β : Type) where
  ref : Option String := none
  id : String := ""
  /-- The name that a new page is kept under; its id, if none is given. -/
  called : Option String := none
  title : Option String := none
  dirty : Bool := false
  /-- A plain page has no title of its own, never has changes, and does not commit or reveal. -/
  plain : Bool := false
  reactions : List (Reaction β) := []
  deriving Inhabited

/-- Which share of the model an operation uses. -/
inductive ShareChoice where
  /-- One that is made up. -/
  | madeUp (share : Share)
  /-- The one kept under a name. -/
  | named (name : String)
  /-- The share of the session around the step; outside every session, a new one. -/
  | ambient (access : Access)

/-- Which subscription is ended. -/
inductive TokenChoice where
  | number (token : Nat)
  | named (name : String)

/-- What an operation acts on when it starts a session. -/
inductive SessionChoice where
  | editor (name : String)
  | coordinator (name : String)
  /-- The coordinator of the session around the step. -/
  | ambient

/-- What a relay serves. -/
inductive ObserverChoice where
  | view (name : String)
  | tabs (name : String)

/-- An operation without steps of its own; `β` is what its reactions run. -/
inductive Operation (β : Type) where
  -- Control
  | interrupt (message : String)
  | fail (value : Value)
  | snapshot
  | unknown
  -- The model
  | acquire (access : Access) (called : String)
  | release (share : ShareChoice)
  | aboutToChange (share : ShareChoice)
  | changed (share : ShareChoice)
  | beginRecording (share : ShareChoice) (owner : Nat) (label : Option String)
  | endRecording (share : ShareChoice) (owner : Nat)
  | subscribe (share : ShareChoice) (called : String) (reactions : List (Reaction β))
  | unsubscribe (share : ShareChoice) (token : TokenChoice)
  | document (share : ShareChoice)
  | undo
  | save
  | deleteResource
  | moveResource (target : String)
  | rebuild (document : String)
  | setAvailable (available : Bool)
  | setRecordable (recordable : Bool)
  | journal
  | clearJournal
  | tally
  -- Coordinators
  | coordinator (called : String) (project : Option String) (tag : Option String)
  | depth
  | scopeDocument
  | query (coordinator : String)
  -- Relays
  | view (called : String) (plain : Bool) (reactions : List (Reaction β))
  | dropView (name : String)
  | attach (called : String) (observer : ObserverChoice)
  | detach (relay : String)
  | isAttached (relay : String)
  | dropRelay (relay : String)
  -- Tabs and pages
  | tabs (called : String)
  | addForm (tabs : String) (page : PageSpec β)
  | addText (tabs : String) (page : PageSpec β) (title : String)
  | indexOf (tabs : String) (id : String)
  | activate (tabs : String) (index : Nat)
  | clear (tabs : String)
  | tabAt (tabs : String) (index : Nat)
  | pagesOf (tabs : String) (text : Bool)
  | tabsInfo (tabs : String)
  | notify (tabs : String) (document : Option String)
  | setDirty (page : String) (dirty : Bool)
  | memory (called : String) (entry : Option (String × String))
  | load (memory : String) (key : String)
  | store (memory : String) (key value : String)
  | setReadOnly (memory : String) (readOnly : Bool)
  -- Editors
  | editor (called name : String) (project : Option String) (settings : Option Value) (memory : String)
  | openEditor (editor : String) (forms : List (PageSpec β)) (text : PageSpec β)
  | select (editor : String) (page : Option String)
  | setPage (editor : String) (id : String)
  | setIndex (editor : String) (index : Nat)
  | dropPages (editor : String)
  | dispose (editor : String)
  | commit (editor : String) (onSave : Bool)
  | reveal (editor : String) (start stop : Nat)
  | dropEditor (editor : String)
  | editorInfo (editor : String)

/-- An edit session that a step runs. -/
structure SessionSpec where
  through : SessionChoice
  /-- For an undoable edit, its label. -/
  undoable : Option (Option String) := none
  /-- How many further sessions are nested in it. -/
  nest : Nat := 0
  /-- Whether those are undoable edits. -/
  nestUndo : Bool := false
  /-- What its mutation fails with in the end, if it fails. -/
  fail : Option Value := none
  /-- What its mutation returns otherwise. -/
  value : Value := .null

/-- What is opened around the steps of a block. -/
inductive Frame where
  /-- Failures and interruptions end here. -/
  | catching
  /-- A share is held meanwhile, and given back unless it is to be kept. -/
  | share (access : Access) (called : String) (keep : Bool)
  /-- A share is given back in the end. -/
  | adopt (share : ShareChoice)
  /-- The document is being changed: set to a text, extended by one, or both. -/
  | edit (share : ShareChoice) (set append : Option String)
  | session (spec : SessionSpec)

/-- A step of a scenario. `name` is what the trace calls it; a strict step ends the list that it
stands in when it answers an error. -/
inductive Step where
  | plain (name : String) (strict : Bool) (operation : Operation (List Step))
  | block (name : String) (strict : Bool) (frame : Frame) (body : List Step)

instance : Inhabited Step := ⟨.plain "" false .unknown⟩

end FormDesk.Scenario

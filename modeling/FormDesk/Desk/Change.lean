/-
The model's operations as actions (the methods of `MemoryModel`, and
`with_handle` as `withShare`): the transitions of `FormDesk.Model` together with
what the listeners are told meanwhile.

An event goes to the listeners that are subscribed when it is emitted, in the
order of their subscriptions; who subscribes or leaves during the emission
makes no difference to it. A listener may call the model back.
-/
import FormDesk.Desk.Basic

namespace FormDesk

namespace Act

variable {σ α : Type}

/-! ## Events -/

/-- Tells an observer of an event. A set of tabs passes a changed document on to its pages and cares
for nothing else. -/
def notify (o : Observer) (event : Event) : Act σ Unit :=
  match o, event with
  | .view id, event => call (.view id event)
  | .tabs id, .changed document => do
    each (← look fun d => (d.tabsOf id).pages) fun page => call (.pageChanged page document)
  | .tabs _, _ => pure ()

/-- Tells an observer of an event if it is still there, and keeps it in use meanwhile. -/
def notifyPresent (o : Observer) (event : Event) : Act σ Unit := do
  if ← look (·.present o) then
    hold o.ref
    ensure (notify o event) (unhold o.ref)

/-- Tells one listener of an event. -/
def deliver (event : Event) : Listener → Act σ Unit
  | .client id => call (.listener id event)
  | .relay target => notifyPresent target event

/-- Tells the listeners of an event. -/
def emit (event : Event) : Act σ Unit := do
  did (.emitted event)
  each (← look (·.model.subscriptions)) fun s => deliver event s.listener

/-! ## Shares -/

/-- Takes a share of the model. -/
def acquire (access : Access) : Act σ (Except ModelError Share) := do
  match (← look (·.model)).acquire access with
  | .error e => return .error e
  | .ok (share, m) =>
    accept share (.acquire access) m
    return .ok share

/-- Gives a share back. -/
def release (share : Share) : Act σ Unit := do
  match (← look (·.model)).release? share with
  | some (access, m) => accept share (.release access) m
  | none => note .unknownShareReleased

/-- Takes a share, runs an action with it and gives it back, however the action ended. -/
def withShare (access : Access) (f : Share → Act σ α) : Act σ (Except ModelError α) := do
  match ← acquire access with
  | .error e => return .error e
  | .ok share => return .ok (← ensure (f share) (release share))

/-! ## Changes -/

/-- Opens a change bracket; the outermost one is announced. -/
def openBracket (share : Share) : Act σ (Except ModelError Unit) := do
  match (← look (·.model)).openBracket share with
  | .error e => return .error e
  | .ok m =>
    accept share .aboutToChange m
    if m.changing = 1 then emit .aboutToChange
    return .ok ()

/-- Closes a change bracket; the outermost one is announced, with the document there is then. -/
def closeBracket (share : Share) : Act σ Unit := do
  match (← look (·.model)).closeBracket share with
  | .error n => note n
  | .ok m =>
    accept share .changed m
    if m.changing = 0 then emit (.changed m.document)

/-- Changes the document by `f`, which has it in hand while it runs: until `f` is done the model has
none. If `f` is interrupted, the document is lost. -/
def mutate (share : Share) (f : Document → Act σ (α × Document)) : Act σ (Except ModelError α) := do
  match (← look (·.model)).takeDocument share with
  | .error e => return .error e
  | .ok (document, m) =>
    accept share .mutate m
    let (a, document) ← onInterrupt (f document) (did (.mutated false))
    let wasDirty ← look (·.model.dirty)
    change fun d => { d.enter (.mutated true) with model := d.model.putDocument document }
    if !wasDirty then emit (.dirtyChanged true)
    return .ok a

/-! ## Undo -/

/-- Begins a recording. -/
def beginRecording (share : Share) (owner : Owner) (label : Option String) :
    Act σ (Except ModelError Unit) := do
  match (← look (·.model)).beginRecording share owner label with
  | .error e => return .error e
  | .ok m =>
    accept share (.beginRecording label) m
    return .ok ()

/-- Ends a recording. -/
def endRecording (share : Share) (owner : Owner) : Act σ Unit := do
  match (← look (·.model)).endRecording share owner with
  | .error n => note n
  | .ok m => accept share .endRecording m

/-- Takes back the latest undo segment: the document becomes the one from before it. Answers the
segment, which then keeps the document from before the undo. -/
def undo : Act σ (Option Segment) := do
  let m ← look (·.model)
  if m.undoBarred then
    note .undoRefused
    return none
  match m.popUndo? with
  | none => return none
  | some (entry, m) =>
    setModel m
    emit .aboutToChange
    let (undone, m) := (← look (·.model)).restore entry
    setModel m
    emit (.changed m.document)
    return some undone

/-! ## Subscriptions -/

/-- Registers a listener. -/
def subscribe (share : Share) (listener : Listener) : Act σ (Except ModelError Token) := do
  match (← look (·.model)).subscribe share listener with
  | .error e => return .error e
  | .ok (token, m) =>
    accept share .subscribe m
    return .ok token

/-- Removes a subscription, and says whether there was one. -/
def unsubscribe (share : Share) (token : Token) : Act σ Bool := do
  match (← look (·.model)).unsubscribe share token with
  | .error n =>
    note n
    return false
  | .ok (removed, m) =>
    if removed then accept share .unsubscribe m
    return removed

/-! ## The resource -/

/-- Hands out shares from now on, or no longer does. -/
def setAvailable (available : Bool) : Act σ Unit := do
  did (.availability available (← look (·.undoing)))
  change fun d => { d with model := { d.model with available } }

/-- Lets recordings start from now on, or no longer does. -/
def setRecordable (recordable : Bool) : Act σ Unit :=
  change fun d => { d with model := { d.model with recordable } }

/-- Clears the journal; what was counted stays counted. -/
def clearJournal : Act σ Unit := do
  did .cleared
  change fun d => { d with model := { d.model with journal := #[] } }

/-- The document was saved. -/
def save : Act σ Unit := do
  let wasDirty ← look (·.model.dirty)
  change fun d => { d with model := { d.model with dirty := false } }
  if wasDirty then emit (.dirtyChanged false)

/-- The resource was deleted. -/
def resourceDeleted : Act σ Unit := emit .resourceDeleted

/-- The resource was moved. -/
def resourceMoved (target : String) : Act σ Unit := do
  let source ← look (·.model.location)
  change fun d => { d with model := { d.model with location := target } }
  emit (.resourceMoved source target)

/-- Rebuilds the model around a document. -/
def rebuild (document : Document) : Act σ Unit := do
  emit .aboutToRebuild
  change fun d => { d with model := d.model.rebuild document }
  emit .rebuilt

end Act

end FormDesk

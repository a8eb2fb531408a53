/-
The desk: the document model and everything that works on it, in one value.
Coordinators (`EditCoordinator`), relays (`ModelChangeFanout`), tabs (`PageSet`),
pages (`EditorPage`), memories (`PageMemory`) and editors (`FormEditor`) are kept
in lists and are known by their place in them; `held` lists what is still in use,
so that a relay can tell whether the observer it serves is there.

Around the desk stands a host, which plays the clients. When the model or an
editor calls a listener, a view or a page, the host answers, and its answer is
an action of its own: it may call the model back, open sessions or be
interrupted. An action is a function of the host, so that nothing about the
desk depends on how deep such calls go.

`Act` is the monad of actions. `ensure` runs an action and then a second one,
however the first ended; `attempt` catches an interruption.
-/
import FormDesk.Desk.Outcome
import FormDesk.Model.Basic
import FormDesk.Session.Depth
import FormDesk.Settings
import FormDesk.Tabs.Basic
import FormDesk.Tabs.Memory

namespace FormDesk

/-! ## What is on the desk -/

/-- An edit coordinator: it puts every change that is made through it into one change bracket. -/
structure Coordinator where
  project : Option String := none
  fallbackTag : String := standardTag
  session : Sessions := .idle
  /-- How many undoable edits are open; only the outermost one records. -/
  undoDepth : Nat := 0
  deriving DecidableEq, Repr, Inhabited

/-- The tag in diagnostics: the project's name or the fallback. -/
def Coordinator.tag (c : Coordinator) : String := c.project.getD c.fallbackTag

abbrev RelayId := Nat

/-- A relay passes the model's events on to one observer, while it holds a subscription. -/
structure Relay where
  subscription : Option Token := none
  deriving DecidableEq, Repr, Inhabited

/-- A page, as its client made it: its own id and title, and whether it has changes that are not yet
in the document. -/
structure Page where
  id : String
  title : String
  dirty : Bool := false
  deriving DecidableEq, Repr, Inhabited

abbrev TabsId := Nat
abbrev MemoryId := Nat
abbrev EditorId := Nat

/-- A multi-page editor of one resource. -/
structure Editor where
  name : String
  project : Option String := none
  settings : Settings := {}
  coordinator : CoordinatorId
  tabs : TabsId
  memory : MemoryId
  relay : Option RelayId := none
  /-- Set while the pages are being created. -/
  creating : Bool := false
  deriving DecidableEq, Repr, Inhabited

/-- What can be in use. -/
inductive Ref where
  | view (id : Nat)
  | tabs (id : TabsId)
  | editor (id : EditorId)
  deriving DecidableEq, Repr

/-- The thing that an observer is. -/
def Observer.ref : Observer → Ref
  | .view id => .view id
  | .tabs id => .tabs id

/-- A call from the desk to a client. -/
inductive Callback where
  | listener (id : ListenerId) (event : Event)
  | view (id : Nat) (event : Event)
  /-- A page is shown the document. -/
  | pageChanged (page : PageId) (document : Option Document)
  /-- A page is to write its changes into the document. -/
  | pageCommit (page : PageId) (onSave : Bool)
  /-- A page is to show a range of the document's text. -/
  | pageReveal (page : PageId) (start stop : Nat)
  deriving DecidableEq, Repr

/-- What happens on a desk. -/
inductive Deed where
  /-- The model accepts a call that is made with a share. -/
  | call (share : Nat) (call : Call)
  /-- A mutation of the document ends; `kept` tells whether the document came back. -/
  | mutated (kept : Bool)
  /-- An event goes out to the listeners. -/
  | emitted (event : Event)
  /-- A client is called; `document` is the one that the model holds then. -/
  | told (callback : Callback) (document : Option Document)
  /-- A client that was called interrupts. -/
  | threw (callback : Callback)
  /-- A coordinator has taken a share and is about to open a session around it. -/
  | starting (id : CoordinatorId) (share : Nat)
  /-- An idle coordinator opens a session around a share. -/
  | opened (id : CoordinatorId) (share : Nat)
  /-- A session is entered that is so deep inside the open ones. -/
  | entered (id : CoordinatorId) (depth : Nat)
  /-- A session is left: its mutation has ended. -/
  | left (id : CoordinatorId)
  /-- A mutation starts to run. -/
  | runs (id : CoordinatorId)
  /-- A mutation that was running ends. -/
  | ran (id : CoordinatorId)
  /-- The recording of an undoable edit starts. Before it the model held `document`, and `recording`
  tells whether it was recording already. -/
  | began (id : CoordinatorId) (label : Option String) (document : Option Document) (recording : Bool)
  /-- The recording of an undoable edit is to end; `available` tells whether shares are handed out. -/
  | finished (id : CoordinatorId) (available : Bool)
  /-- The edit of an undoable edit starts to run. -/
  | edits (id : CoordinatorId)
  /-- The edit of an undoable edit ends. -/
  | edited (id : CoordinatorId)
  /-- A relay lets go of its subscription, which has this token and is to be removed; `available` tells
  whether shares are handed out. -/
  | detaching (id : RelayId) (token : Token) (available : Bool)
  /-- An observer interrupts as it is shown the document because it was just subscribed: the subscription,
  which has this token, stays and becomes no relay's. -/
  | unclaimed (observer : Observer) (token : Token)
  /-- From now on shares are handed out, or they no longer are; `undoing` tells whether an undoable
  edit is running. -/
  | availability (available undoing : Bool)
  /-- The model's journal is cleared. -/
  | cleared
  deriving DecidableEq, Repr

/-- The model and all that works on it; `client` is the host's own state. Nothing reads the history:
it is there for what is said about runs. -/
structure Desk (σ : Type) where
  model : Model
  coordinators : List Coordinator := []
  relays : List Relay := []
  tabs : List Tabs := []
  pages : List Page := []
  memories : List TabMemory := []
  editors : List Editor := []
  /-- What is in use, once for each use. -/
  held : List Ref := []
  /-- What has happened, the latest last. -/
  history : Array Deed := #[]
  client : σ

namespace Desk

variable {σ : Type}

/-- The coordinator with a number. -/
def coordinator (d : Desk σ) (id : CoordinatorId) : Coordinator :=
  d.coordinators[id]?.getD {}

/-- The relay with a number. -/
def relay (d : Desk σ) (id : RelayId) : Relay := d.relays[id]?.getD {}

/-- The tabs with a number. -/
def tabsOf (d : Desk σ) (id : TabsId) : Tabs := d.tabs[id]?.getD {}

/-- The page with a number. -/
def page (d : Desk σ) (id : PageId) : Page := d.pages[id]?.getD { id := "", title := "" }

/-- The page memory with a number. -/
def memory (d : Desk σ) (id : MemoryId) : TabMemory := d.memories[id]?.getD {}

/-- The editor with a number. -/
def editor (d : Desk σ) (id : EditorId) : Editor :=
  d.editors[id]?.getD { name := "", coordinator := 0, tabs := 0, memory := 0 }

/-- The desk with one more deed in its history. -/
def enter (d : Desk σ) (e : Deed) : Desk σ := { d with history := d.history.push e }

/-- The desk with the model that a call made with a share led to. -/
def accepted (d : Desk σ) (s : Share) (c : Call) (m : Model) : Desk σ :=
  { d.enter (.call s.id c) with model := m }

/-- Whether an undoable edit is running. -/
def undoing (d : Desk σ) : Bool := d.coordinators.any (·.undoDepth > 0)

/-- Whether an observer is still there. -/
def present (d : Desk σ) (o : Observer) : Bool := d.held.contains o.ref

end Desk

/-! ## Hosts and actions -/

/-- The clients around a desk: how they answer calls, and how they keep notices. -/
structure Host (σ : Type) where
  answer : Callback → Desk σ → Outcome Unit × Desk σ
  note : Notice → σ → σ

/-- An action on a desk. -/
def Act (σ α : Type) : Type := Host σ → Desk σ → Outcome α × Desk σ

namespace Act

variable {σ α β : Type}

instance : Monad (Act σ) where
  pure a := fun _ d => (.returned a, d)
  bind x f := fun h d =>
    match x h d with
    | (.returned a, d) => f a h d
    | (.interrupted message, d) => (.interrupted message, d)
    | (.fatal, d) => (.fatal, d)

instance : LawfulMonad (Act σ) := LawfulMonad.mk' _
  (fun x => by
    funext h d
    simp only [Functor.map]
    cases x h d with
    | mk outcome d => cases outcome <;> rfl)
  (fun _ _ => rfl)
  (fun x f g => by
    funext h d
    simp only [bind]
    cases x h d with
    | mk outcome d => cases outcome <;> rfl)

/-- What the desk looks like. -/
def look (f : Desk σ → α) : Act σ α := fun _ d => (.returned (f d), d)

/-- Changes the desk. -/
def change (f : Desk σ → Desk σ) : Act σ Unit := fun _ d => (.returned (), f d)

/-- Changes the model. -/
def setModel (m : Model) : Act σ Unit := change fun d => { d with model := m }

/-- Goes on with the model that a call made with a share led to. -/
def accept (s : Share) (c : Call) (m : Model) : Act σ Unit := change (·.accepted s c m)

/-- Enters a deed into the history. -/
def did (e : Deed) : Act σ Unit := change (·.enter e)

/-- Writes a notice. -/
def note (n : Notice) : Act σ Unit := fun h d =>
  (.returned (), { d with client := h.note n d.client })

/-- Calls a client. -/
def call (c : Callback) : Act σ Unit := fun h d =>
  match h.answer c (d.enter (.told c d.model.document)) with
  | (.returned (), d) => (.returned (), d)
  | (ended, d) => (ended, d.enter (.threw c))

/-- Interrupts whatever is going on. -/
def interrupt (message : String) : Act σ α := fun _ d => (.interrupted message, d)

/-- Runs `act` and then `last`, however `act` ended; an interruption of both is fatal. -/
def ensure (act : Act σ α) (last : Act σ Unit) : Act σ α := fun h d =>
  match act h d with
  | (.returned a, d) =>
    match last h d with
    | (.returned _, d) => (.returned a, d)
    | (.interrupted message, d) => (.interrupted message, d)
    | (.fatal, d) => (.fatal, d)
  | (.interrupted message, d) =>
    match last h d with
    | (.returned _, d) => (.interrupted message, d)
    | (.interrupted _, d) => (.fatal, d)
    | (.fatal, d) => (.fatal, d)
  | (.fatal, d) => (.fatal, d)

/-- Runs an action between two entries of the history, the second one however the action ended. -/
def between (first last : Deed) (act : Act σ α) : Act σ α := do
  did first
  ensure act (did last)

/-- Runs `act`, and runs `last` after it if it was interrupted. -/
def onInterrupt (act : Act σ α) (last : Act σ Unit) : Act σ α := fun h d =>
  match act h d with
  | (.interrupted message, d) =>
    match last h d with
    | (.returned _, d) => (.interrupted message, d)
    | (.interrupted _, d) => (.fatal, d)
    | (.fatal, d) => (.fatal, d)
  | ended => ended

/-- Runs `act` and answers the message of an interruption as an error. -/
def attempt (act : Act σ α) : Act σ (Except String α) := fun h d =>
  match act h d with
  | (.returned a, d) => (.returned (.ok a), d)
  | (.interrupted message, d) => (.returned (.error message), d)
  | (.fatal, d) => (.fatal, d)

/-- Runs an action for each member of a list, in order. -/
def each (xs : List α) (f : α → Act σ Unit) : Act σ Unit :=
  match xs with
  | [] => pure ()
  | x :: rest => do
    f x
    each rest f

/-- Keeps a thing in use. -/
def hold (r : Ref) : Act σ Unit := change fun d => { d with held := r :: d.held }

/-- Gives up one use of a thing. -/
def unhold (r : Ref) : Act σ Unit := change fun d => { d with held := d.held.erase r }

end Act

end FormDesk

/-
The document model (`MemoryModel`): one text document that several clients share.

A client holds shares of the model. Change brackets nest, and only the
outermost one is observable; recordings nest as well, and only the outermost
one leaves a segment (`UndoEntry`) on the undo stack. This module holds the
state and the transitions that call nobody: each says which state follows, or
why the request is refused. What the listeners are told in between is added by
`FormDesk.Desk.Change`.

A refused request leaves the model as it is: a transition answers either the
refusal or the next state, never both.

* `openBracket`, `closeBracket`: what `about_to_change` and `changed` do before
  they tell anybody; `takeDocument` and `putDocument` are the two halves of
  `mutate`, `popUndo?` and `restore` those of `undo`.
* `objection?` is `check`, `documentFor` is `document`, `rebuild` is
  `reinitialize`.
-/
import FormDesk.Model.Event
import FormDesk.Model.Ledger
import FormDesk.Notice

namespace FormDesk

/-- The number of a listener that a client put up. -/
abbrev ListenerId := Nat

/-- Who is told of changed documents through a relay: a view of a client's, or a set of tabs. -/
inductive Observer where
  | view (id : Nat)
  | tabs (id : Nat)
  deriving DecidableEq, Repr, Inhabited

/-- Who receives the model's events. -/
inductive Listener where
  | client (id : ListenerId)
  | relay (target : Observer)
  deriving DecidableEq, Repr, Inhabited

/-- A subscription to the model's events. -/
structure Subscription where
  token : Token
  listener : Listener
  deriving DecidableEq, Repr, Inhabited

/-- A completed undo segment: who recorded it, under which label, and the document before it. An
entry that was undone holds the document before the undo instead. -/
structure Segment where
  label : Option String
  owner : Owner
  before : Option Document
  deriving DecidableEq, Repr, Inhabited

/-- A recording in progress: the segment as its outermost begin gave it, and how many further begins
are open inside it. -/
structure Recording where
  entry : Segment
  inner : Nat := 0
  deriving DecidableEq, Repr, Inhabited

/-- The state of the model. -/
structure Model where
  /-- The document; none when there is none, or while a mutation has it in hand. -/
  document : Option Document
  location : String := ""
  /-- Whether shares are handed out. -/
  available : Bool := true
  /-- Whether recordings may start. -/
  recordable : Bool := true
  dirty : Bool := false
  nextShare : Nat := 1
  /-- The shares handed out and not given back. -/
  live : List Share := []
  nextToken : Token := 1
  /-- How many change brackets are open. -/
  changing : Nat := 0
  recording : Option Recording := none
  /-- Completed undo segments, the latest first. -/
  undoStack : List Segment := []
  tally : Tally := {}
  journal : Array Call := #[]
  /-- The subscriptions, in the order in which they were made. -/
  subscriptions : List Subscription := []
  deriving Repr, Inhabited

namespace Model

/-- Enters an accepted call into the ledger. -/
def enter (m : Model) (call : Call) : Model :=
  { m with tally := m.tally.count call, journal := m.journal.push call }

/-- The access that a live share was taken for. -/
def accessOf? (m : Model) (id : Nat) : Option Access :=
  (m.live.find? (·.id == id)).map (·.access)

/-- Why a share does not serve for an access: it is not live, or was taken for reading only. What a
share claims about itself does not count. -/
def objection? (m : Model) (s : Share) (needed : Access) : Option ModelError :=
  match m.accessOf? s.id, needed with
  | none, _ => some (.staleShare s.id)
  | some .read, .edit => some (.wrongAccess .edit .read)
  | some _, _ => none

/-! ## Shares -/

/-- Hands out a share. -/
def acquire (m : Model) (access : Access) : Except ModelError (Share × Model) :=
  if m.available then
    let s : Share := ⟨m.nextShare, access⟩
    .ok (s, { m.enter (.acquire access) with nextShare := m.nextShare + 1, live := s :: m.live })
  else .error .unavailable

/-- Takes a share back, and answers what it was taken for; none when it is not live. -/
def release? (m : Model) (s : Share) : Option (Access × Model) :=
  (m.accessOf? s.id).map fun access =>
    (access, { m.enter (.release access) with live := m.live.filter (·.id != s.id) })

/-! ## Change brackets -/

/-- Opens a change bracket. -/
def openBracket (m : Model) (s : Share) : Except ModelError Model :=
  match m.objection? s .edit with
  | some e => .error e
  | none =>
    if m.document.isNone then .error .unavailable
    else .ok { m.enter .aboutToChange with changing := m.changing + 1 }

/-- Closes a change bracket. -/
def closeBracket (m : Model) (s : Share) : Except Notice Model :=
  match m.objection? s .edit with
  | some e => .error (.changedIgnored e)
  | none =>
    match m.changing with
    | 0 => .error .changedUnmatched
    | n + 1 => .ok { m.enter .changed with changing := n }

/-- Takes the document out for a mutation. -/
def takeDocument (m : Model) (s : Share) : Except ModelError (Document × Model) :=
  match m.objection? s .edit with
  | some e => .error e
  | none =>
    if m.changing = 0 then .error .notChanging
    else match m.document with
      | none => .error .unavailable
      | some document => .ok (document, { m.enter .mutate with document := none })

/-- Puts the document back after a mutation; the model is dirty from then on. -/
def putDocument (m : Model) (document : Document) : Model :=
  { m with document := some document, dirty := true }

/-! ## Undo recordings -/

/-- Begins a recording, or a nested part of the one in progress. -/
def beginRecording (m : Model) (s : Share) (owner : Owner) (label : Option String) :
    Except ModelError Model :=
  match m.objection? s .edit with
  | some e => .error e
  | none =>
    if !m.recordable then .error (.notRecordable .disabled)
    else if m.document.isNone then .error (.notRecordable .noDocument)
    else
      let recording := match m.recording with
        | some r => { r with inner := r.inner + 1 }
        | none => { entry := { label, owner, before := m.document } }
      .ok { m.enter (.beginRecording label) with recording := some recording }

/-- Ends the recording in progress, or a nested part of it; the outermost end puts the segment on the
undo stack. Who ends a recording need not be who began it. -/
def endRecording (m : Model) (s : Share) (_owner : Owner) : Except Notice Model :=
  match m.objection? s .edit with
  | some e => .error (.endRecordingIgnored e)
  | none =>
    match m.recording with
    | none => .error .endRecordingUnmatched
    | some r =>
      let m := m.enter .endRecording
      match r.inner with
      | 0 => .ok { m with recording := none, undoStack := r.entry :: m.undoStack }
      | n + 1 => .ok { m with recording := some { r with inner := n } }

/-- Whether an undo is refused because an edit or a recording is going on. -/
def undoBarred (m : Model) : Bool :=
  m.changing > 0 || m.recording.isSome

/-- Takes the latest undo segment off the stack. -/
def popUndo? (m : Model) : Option (Segment × Model) :=
  match m.undoStack with
  | [] => none
  | entry :: rest => some (entry, { m with undoStack := rest })

/-- Exchanges the document with the one that an undo segment kept. -/
def restore (m : Model) (entry : Segment) : Segment × Model :=
  ({ entry with before := m.document }, { m with document := entry.before, dirty := true })

/-- The labels of the undo stack, oldest first. -/
def undoLabels (m : Model) : List (Option String) :=
  (m.undoStack.map (·.label)).reverse

/-! ## Subscriptions -/

/-- Registers a listener under a new token. -/
def subscribe (m : Model) (s : Share) (listener : Listener) : Except ModelError (Token × Model) :=
  match m.objection? s .read with
  | some e => .error e
  | none =>
    .ok (m.nextToken, { m.enter .subscribe with
      nextToken := m.nextToken + 1
      subscriptions := m.subscriptions ++ [⟨m.nextToken, listener⟩] })

/-- Removes the subscription with a token, and says whether there was one. -/
def unsubscribe (m : Model) (s : Share) (token : Token) : Except Notice (Bool × Model) :=
  match m.objection? s .read with
  | some e => .error (.unsubscribeIgnored e)
  | none =>
    if m.subscriptions.any (·.token == token) then
      .ok (true, { m.enter .unsubscribe with
        subscriptions := m.subscriptions.filter (·.token != token) })
    else .ok (false, m)

/-! ## The resource -/

/-- The document as a live share sees it. -/
def documentFor (m : Model) (s : Share) : Option Document :=
  match m.objection? s .read with
  | some _ => none
  | none => m.document

/-- The model rebuilt around a document: clean, and with nothing to undo. -/
def rebuild (m : Model) (document : Document) : Model :=
  { m with document := some document, dirty := false, undoStack := [] }

end Model

end FormDesk

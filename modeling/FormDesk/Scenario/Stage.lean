/-
The stage: what a scenario keeps beside the desk. Everything it puts up has a
name, one table of names per kind; listeners, views and pages also have the
reactions that are left to them, and everything that happens goes into the
trace.

The stage is the client's state on a desk, and `host` plays the clients: a call
is written into the trace and then sets off the reactions to it, each of which
runs through `perform`.
-/
import FormDesk.Desk.Basic
import FormDesk.Scenario.Step
import FormDesk.Scenario.Trace

namespace FormDesk.Scenario

/-- What is kept under names. -/
abbrev Names (α : Type) := List (String × α)

namespace Names

variable {α : Type}

/-- What is kept under a name. -/
def find? (t : Names α) (name : String) : Option α := t.lookup name

/-- Keeps a thing under a name, in place of what was there. -/
def put (t : Names α) (name : String) (a : α) : Names α := (name, a) :: t.filter (·.1 != name)

/-- Forgets a name. -/
def drop (t : Names α) (name : String) : Names α := t.filter (·.1 != name)

end Names

/-- A listener, view or page of the scenario. -/
structure Player (β : Type) where
  name : String
  /-- A plain view hears of changed documents only; a plain page neither commits nor reveals. -/
  plain : Bool := false
  /-- The reactions, with the number of times left to each. -/
  reactions : List (Reaction β) := []

/-- What a scenario keeps. -/
structure Stage (β : Type) where
  shares : Names Share := []
  tokens : Names Token := []
  coordinators : Names CoordinatorId := []
  views : Names Nat := []
  relays : Names RelayId := []
  tabs : Names TabsId := []
  pages : Names PageId := []
  memories : Names MemoryId := []
  editors : Names EditorId := []
  /-- The players, by kind and number. -/
  listenerPlayers : List (Player β) := []
  viewPlayers : List (Player β) := []
  pagePlayers : List (Player β) := []
  trace : Array Entry := #[]

/-- A kind of player. -/
inductive Role where
  | listener
  | view
  | page

namespace Stage

variable {β : Type}

/-- The players of a kind. -/
def players (s : Stage β) : Role → List (Player β)
  | .listener => s.listenerPlayers
  | .view => s.viewPlayers
  | .page => s.pagePlayers

/-- The stage with other players of a kind. -/
def setPlayers (s : Stage β) (players : List (Player β)) : Role → Stage β
  | .listener => { s with listenerPlayers := players }
  | .view => { s with viewPlayers := players }
  | .page => { s with pagePlayers := players }

/-- Puts a player of a kind on the stage. -/
def enlist (s : Stage β) (role : Role) (p : Player β) : Stage β :=
  s.setPlayers (s.players role ++ [p]) role

/-- The player with a number. -/
def player (s : Stage β) (role : Role) (id : Nat) : Player β :=
  (s.players role)[id]?.getD { name := "" }

/-- The body of a player's reaction at an index, if it is to an event and has times left. -/
def ready? (s : Stage β) (role : Role) (id i : Nat) (event : String) : Option β :=
  match (s.player role id).reactions[i]? with
  | some r => if r.event = event && r.times > 0 then some r.body else none
  | none => none

/-- The stage with one time less left to a reaction. -/
def spend (s : Stage β) (role : Role) (id i : Nat) : Stage β :=
  let once (p : Player β) : Player β :=
    { p with reactions := p.reactions.modify i fun r => { r with times := r.times - 1 } }
  s.setPlayers ((s.players role).modify id once) role

end Stage

/-- Actions of a scenario. -/
abbrev Play (β α : Type) := Act (Stage β) α

namespace Play

variable {β : Type}

/-- Changes the stage. -/
def set (f : Stage β → Stage β) : Play β Unit := Act.change fun d => { d with client := f d.client }

/-- Writes into the trace. -/
def write (e : Entry) : Play β Unit := set fun s => { s with trace := s.trace.push e }

/-- Lets one reaction of a player run, if it is ready. A reaction that fails is written down, and what
goes on is not disturbed. -/
def reactOnce (perform : β → Play β (Except Failure Unit)) (role : Role) (id : Nat) (event : String)
    (i : Nat) : Play β Unit := do
  match ← Act.look fun d => d.client.ready? role id i event with
  | none => pure ()
  | some body =>
    set (·.spend role id i)
    match ← perform body with
    | .ok () => pure ()
    | .error cause => write (.reactionFailed cause)

/-- Lets the reactions of a player to an event run, in order. -/
def react (perform : β → Play β (Except Failure Unit)) (role : Role) (id : Nat) (event : String) :
    Play β Unit := do
  let count ← Act.look fun d => (d.client.player role id).reactions.length
  Act.each (List.range count) (reactOnce perform role id event)

/-- What a view calls an event. -/
def hook : Event → String
  | .changed _ => "document_changed"
  | event => event.kind

/-- Whether an event reaches a plain view. -/
def reachesPlain : Event → Bool
  | .changed _ => true
  | _ => false

/-- Plays the receiver of a call. -/
def answer (perform : β → Play β (Except Failure Unit)) : Callback → Play β Unit
  | .listener id event => do
    write (.listener (← Act.look fun d => (d.client.player .listener id).name) event)
    react perform .listener id event.kind
  | .view id event => do
    let p ← Act.look fun d => d.client.player .view id
    if p.plain && !reachesPlain event then return
    write (.observer p.name event)
    react perform .view id (hook event)
  | .pageChanged page document => do
    write (.page (← Act.look fun d => (d.client.player .page page).name) (.changed document))
    react perform .page page "changed"
  | .pageCommit page onSave => do
    let p ← Act.look fun d => d.client.player .page page
    if p.plain then return
    Act.change fun d => { d with pages := d.pages.modify page fun p => { p with dirty := false } }
    write (.page p.name (.commit onSave))
    react perform .page page "commit"
  | .pageReveal page start stop => do
    let p ← Act.look fun d => d.client.player .page page
    if p.plain then return
    write (.page p.name (.reveal start stop))
    react perform .page page "reveal"

/-- Writes a notice into the trace. -/
def writeNotice (n : Notice) (s : Stage β) : Stage β :=
  { s with trace := s.trace.push (.notice n) }

/-- The host of a desk that a scenario works, for calls that nest at most so deep: reactions run under
the host for one level less, and the last one does not answer. -/
def host (perform : β → Play β (Except Failure Unit)) : Nat → Host (Stage β)
  | 0 => {
    answer := fun _ d => (.returned (), d)
    note := writeNotice }
  | depth + 1 => {
    answer := fun c d => answer perform c (host perform depth) d
    note := writeNotice }

end Play

end FormDesk.Scenario

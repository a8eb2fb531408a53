/-
What the model tells its listeners (`ModelEvent`).
-/
namespace FormDesk

/-- A text document; none stands for a model without one. -/
abbrev Document := String

/-- A notification by the model. -/
inductive Event where
  /-- The outermost change bracket opened, or an undo begins. -/
  | aboutToChange
  /-- The outermost change bracket closed, or an undo ended; with the document there is now. -/
  | changed (document : Option Document)
  /-- The model became dirty, or clean by a save. -/
  | dirtyChanged (dirty : Bool)
  | resourceDeleted
  | resourceMoved (source target : String)
  /-- The model is about to be rebuilt from its resource. -/
  | aboutToRebuild
  | rebuilt
  deriving DecidableEq, Repr, Inhabited

/-- The word for an event. -/
def Event.kind : Event → String
  | .aboutToChange => "about_to_change"
  | .changed _ => "changed"
  | .dirtyChanged _ => "dirty_state_changed"
  | .resourceDeleted => "resource_deleted"
  | .resourceMoved .. => "resource_moved"
  | .aboutToRebuild => "about_to_reinitialize"
  | .rebuilt => "reinitialized"

end FormDesk

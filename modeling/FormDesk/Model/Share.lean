/-
Shares of the document model (`ModelHandle`). Whoever reads or edits the model
holds a share of it, taken for reading or for editing (`Access`) and given back
once; the model knows a share by its number alone. Recordings name their owner
(`OwnerId`), and listeners are known by the token of their subscription
(`SubscriptionToken`).
-/
namespace FormDesk

/-- What a share is taken for. -/
inductive Access where
  | read
  | edit
  deriving DecidableEq, Repr, Inhabited

/-- The word for an access in messages. -/
def Access.word : Access → String
  | .read => "read"
  | .edit => "edit"

/-- One share of the model. -/
structure Share where
  id : Nat
  access : Access
  deriving DecidableEq, Repr, Inhabited

/-- The number of an edit coordinator. -/
abbrev CoordinatorId := Nat

/-- The number of a subscription to the model's events. -/
abbrev Token := Nat

/-- Who an undo segment belongs to. -/
inductive Owner where
  | client (n : Nat)
  | coordinator (id : CoordinatorId)
  deriving DecidableEq, Repr, Inhabited

end FormDesk

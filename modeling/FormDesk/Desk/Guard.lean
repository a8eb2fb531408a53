/-
Guards on shares (`ScopedHandle`). A guard gives its share back when the action
under it ends, however that ends; only when the action answers that the share is to
be handed on (`into_inner`) is it taken out of its guard, and then it stays with
whoever gets the answer. A guard may be set up around a share that it takes itself
(`acquire`, here `guarding`), around one that was taken before, or around any other
(`adopt`, here `guarded`): the model alone knows which shares are live.
-/
import FormDesk.Desk.Change

namespace FormDesk.Act

variable {σ α : Type}

/-- Runs an action under a guard on a share. The share is taken out of the guard when the action returns
an answer with `out`. -/
def guarded (share : Share) (out : α → Bool) (act : Act σ α) : Act σ α := do
  let a ← onInterrupt act (release share)
  if out a then return a
  release share
  return a

/-- Takes a share and runs an action with it under a guard. -/
def guarding (access : Access) (out : α → Bool) (f : Share → Act σ α) : Act σ (Except ModelError α) := do
  match ← acquire access with
  | .error e => return .error e
  | .ok share => return .ok (← guarded share out (f share))

end FormDesk.Act

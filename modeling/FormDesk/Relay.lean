/-
Relays (`ModelChangeFanout`). A relay subscribes to the model once and passes
every event on to its observer (`DocumentObserver`), as long as the observer is
there. Attaching it also shows the observer the document there is, so that it
starts out consistent with the model. Detaching it removes the subscription.
-/
import FormDesk.Desk.Change

namespace FormDesk

/-- The desk with one relay's subscription changed. -/
def Desk.withSubscription {σ : Type} (d : Desk σ) (id : RelayId) (s : Option Token) : Desk σ :=
  { d with relays := d.relays.modify id fun r => { r with subscription := s } }

namespace Act

variable {σ : Type}

/-- Subscribes with a share on behalf of an observer and shows it the document. -/
def subscribeWith (o : Observer) (share : Share) : Act σ (Except ModelError Token) := do
  match ← subscribe share (.relay o) with
  | .error e => return .error e
  | .ok token =>
    let document ← look fun d => d.model.documentFor share
    onInterrupt (notifyPresent o (.changed document)) (did (.unclaimed o token))
    return .ok token

/-- Subscribes on behalf of an observer and shows it the document. -/
def subscribeObserver (o : Observer) : Act σ (Except ModelError Token) := do
  match ← withShare .read (subscribeWith o) with
  | .error e => return .error e
  | .ok answer => return answer

/-- Makes a relay to an observer. -/
def attach (o : Observer) : Act σ (Except SessionError RelayId) := do
  match ← subscribeObserver o with
  | .error e => return .error (.modelUnavailable e)
  | .ok token =>
    let id ← look (·.relays.length)
    change fun d => { d with relays := d.relays ++ [⟨some token⟩] }
    return .ok id

/-- Ends a relay; one that is not attached stays as it is. -/
def detach (id : RelayId) : Act σ Unit := do
  match (← look fun d => (d.relay id).subscription) with
  | none => pure ()
  | some token =>
    did (.detaching id token (← look (·.model.available)))
    change (·.withSubscription id none)
    match ← withShare .read fun share => unsubscribe share token with
    | .ok true => pure ()
    | .ok false => note .nothingToUnsubscribe
    | .error e => note (.unsubscribeFailed e)

end Act

end FormDesk

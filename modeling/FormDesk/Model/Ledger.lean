/-
The model's ledger: every call that the model accepts is written into a
journal (`ModelCall`) and counted (`ModelStats`). `Tally.count` says which
counter a call moves, so that the counters are the numbers of the journal's
entries as long as the journal is not cleared.
-/
import FormDesk.Model.Share

namespace FormDesk

/-- A call that the model accepted. -/
inductive Call where
  | acquire (access : Access)
  | release (access : Access)
  | aboutToChange
  | changed
  | beginRecording (label : Option String)
  | endRecording
  | subscribe
  | unsubscribe
  | mutate
  deriving DecidableEq, Repr, Inhabited

/-- How many calls of each kind the model accepted, nested ones included. -/
structure Tally where
  acquiredRead : Nat := 0
  acquiredEdit : Nat := 0
  released : Nat := 0
  aboutToChange : Nat := 0
  changed : Nat := 0
  beginRecording : Nat := 0
  endRecording : Nat := 0
  subscribed : Nat := 0
  unsubscribed : Nat := 0
  mutations : Nat := 0
  deriving DecidableEq, Repr, Inhabited

/-- The counters after one more call. -/
def Tally.count (t : Tally) : Call → Tally
  | .acquire .read => { t with acquiredRead := t.acquiredRead + 1 }
  | .acquire .edit => { t with acquiredEdit := t.acquiredEdit + 1 }
  | .release _ => { t with released := t.released + 1 }
  | .aboutToChange => { t with aboutToChange := t.aboutToChange + 1 }
  | .changed => { t with changed := t.changed + 1 }
  | .beginRecording _ => { t with beginRecording := t.beginRecording + 1 }
  | .endRecording => { t with endRecording := t.endRecording + 1 }
  | .subscribe => { t with subscribed := t.subscribed + 1 }
  | .unsubscribe => { t with unsubscribed := t.unsubscribed + 1 }
  | .mutate => { t with mutations := t.mutations + 1 }

end FormDesk

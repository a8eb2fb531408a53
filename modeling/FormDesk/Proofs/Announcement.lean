/-
Announcements. A list of deeds announces the change brackets in it when an
event goes out for every bracket that opens the outermost level and for every
one that closes it, directly after the call, and for no other. `Announced n w m`
says so of deeds `w` that find `n` brackets open and leave `m`.

Whatever clients do announces its brackets (`Clients.announced`), however it ends.
-/
import FormDesk.Proofs.Client
import FormDesk.Proofs.Transition

namespace FormDesk

variable {σ : Type}

namespace Deed

/-- Whether a deed has to do with change brackets: it opens or closes one, or announces that. -/
def ofBracket : Deed → Bool
  | call _ .aboutToChange | call _ .changed => true
  | emitted .aboutToChange | emitted (.changed _) => true
  | _ => false

/-- A client interrupts that was told of a bracket that opens. -/
def breaks : Deed → Bool
  | told .. => false
  | threw (.listener _ .aboutToChange) | threw (.view _ .aboutToChange) => true
  | _ => false

/-- The call that a deed is. -/
def call? : Deed → Option Call
  | call _ c => some c
  | _ => none

/-- The deeds `w` find `n` change brackets open and leave `m` open, and the outermost ones among them
are announced: once as they open and once as they close. -/
inductive Announced : Nat → List Deed → Nat → Prop
  | nil (n) : Announced n [] n
  | first {s w m} : Announced 1 w m →
      Announced 0 (call s .aboutToChange :: emitted .aboutToChange :: w) m
  | inner {n s w m} : Announced (n + 2) w m → Announced (n + 1) (call s .aboutToChange :: w) m
  | last {s document w m} : Announced 0 w m →
      Announced 1 (call s .changed :: emitted (.changed document) :: w) m
  | outer {n s w m} : Announced (n + 1) w m → Announced (n + 2) (call s .changed :: w) m
  | other {n e w m} : e.ofBracket = false → Announced n w m → Announced n (e :: w) m

theorem Announced.append {n m k : Nat} {w v : List Deed} (h : Announced n w m) (h' : Announced m v k) :
    Announced n (w ++ v) k := by
  induction h with
  | nil => exact h'
  | first _ ih => exact .first (ih h')
  | inner _ ih => exact .inner (ih h')
  | last _ ih => exact .last (ih h')
  | outer _ ih => exact .outer (ih h')
  | other he _ ih => exact .other he (ih h')

end Deed

open Deed (Announced)

namespace Desk

/-- What was done between two desks announces its brackets, and its calls are in the model's journal. -/
def Announces (d e : Desk σ) : Prop :=
  ∃ w, e.history.toList = d.history.toList ++ w ∧
    e.model.journal.toList = d.model.journal.toList ++ w.filterMap Deed.call? ∧
    Announced d.model.changing w e.model.changing

theorem Announces.path : Path (Announces (σ := σ)) where
  refl d := ⟨[], by simp, by simp, .nil _⟩
  trans := by
    rintro d e f ⟨w, hw, hj, ha⟩ ⟨v, hv, hk, hb⟩
    exact ⟨w ++ v, by rw [hv, hw, List.append_assoc],
      by rw [hk, hj, List.filterMap_append, List.append_assoc], ha.append hb⟩

/-- One deed that is no call and has nothing to do with brackets. -/
theorem Announces.other {d e : Desk σ} {deed : Deed} (hw : e.history.toList = d.history.toList ++ [deed])
    (hj : e.model.journal = d.model.journal) (hm : e.model.changing = d.model.changing)
    (hc : deed.call? = none) (ho : deed.ofBracket = false) : Announces d e :=
  ⟨[deed], hw, by simp [hj, hc], by rw [hm]; exact .other ho (.nil _)⟩

/-- One call that has nothing to do with brackets. -/
theorem Announces.call {d : Desk σ} {s : Share} {c : Call} {m : Model}
    (hj : m.journal = d.model.journal.push c)
    (hm : m.changing = d.model.changing) (ho : (Deed.call s.id c).ofBracket = false) :
    Announces d (d.accepted s c m) :=
  ⟨[.call s.id c], d.toList_accepted s c m, by simp [hj, Deed.call?],
    by rw [model_accepted, hm]; exact .other ho (.nil _)⟩

/-- No deed, and no bracket. -/
theorem Announces.still {d e : Desk σ} (hw : e.history = d.history)
    (hj : e.model.journal = d.model.journal) (hm : e.model.changing = d.model.changing) : Announces d e :=
  ⟨[], by simp [hw], by simp [hj], by rw [hm]; exact .nil _⟩

theorem Step.announces {d e : Desk σ} (h : Step d e) : Announces d e := by
  cases h with
  | acquire h =>
    obtain ⟨-, rfl, rfl⟩ := Model.acquire_ok h
    exact .call rfl rfl rfl
  | release h =>
    obtain ⟨-, rfl⟩ := Model.release?_some h
    exact .call rfl rfl rfl
  | @openBracket s m h =>
    obtain ⟨-, -, rfl⟩ := Model.openBracket_ok h
    refine ⟨_, by rw [toList_announced, toList_accepted, List.append_assoc], ?_, ?_⟩
    all_goals rw [model_announced, model_accepted]
    · cases hn : d.model.changing <;> simp [Model.enter, Deed.call?]
    · cases hn : d.model.changing with
      | zero => exact .first (.nil _)
      | succ n => exact .inner (.nil _)
  | @closeBracket s m h =>
    obtain ⟨-, n, hn, rfl⟩ := Model.closeBracket_ok h
    refine ⟨_, by rw [toList_announced, toList_accepted, List.append_assoc], ?_, ?_⟩
    all_goals rw [model_announced, model_accepted]
    · cases n <;> simp [Model.enter, Deed.call?]
    · rw [hn]
      cases n with
      | zero => exact .last (.nil _)
      | succ n => exact .outer (.nil _)
  | takeDocument h =>
    obtain ⟨-, -, -, rfl⟩ := Model.takeDocument_ok h
    exact .call rfl rfl rfl
  | putDocument | lost | dirtied | told | threw | starting | entered | left | runs | ran | opened =>
    exact .other (toList_enter ..) rfl rfl rfl rfl
  | client | session => exact .still rfl rfl rfl

theorem Recorded.announces {d e : Desk σ} (h : Recorded d e) : Announces d e := by
  cases h with
  | beginRecording h =>
    obtain ⟨-, -, -, rfl⟩ := Model.beginRecording_ok h
    exact .call rfl rfl rfl
  | @endRecording s owner m h =>
    obtain ⟨-, r, -, rfl⟩ := Model.endRecording_ok h
    unfold Model.recordingEnded
    split <;> exact .call rfl rfl rfl
  | began | finished | edits | edited => exact .other (toList_enter ..) rfl rfl rfl rfl
  | depth => exact .still rfl rfl rfl

end Desk

theorem Act.SwitchOp.announces (h : Host σ) {α : Type} {a : Act σ α} (ha : Act.SwitchOp a) :
    a.Within Desk.Announces h := by
  cases ha with
  | look f => exact Act.Within.look Desk.Announces.path f
  | interrupt message => exact Act.Within.interrupt Desk.Announces.path message
  | own f => exact fun d => .still rfl rfl rfl
  | setAvailable available =>
    exact fun d => Desk.Announces.path.trans
      (.other (d.toList_enter (.availability available d.undoing)) rfl rfl rfl rfl) (.still rfl rfl rfl)
  | setRecordable recordable => exact fun d => .still rfl rfl rfl

/-- **Announcements.** Whatever clients do announces its change brackets, when the operations do. -/
theorem Host.Clients.announces {n : Nat} {Op : Act.Actions σ} {h : Host σ} (hh : h.Clients n Op)
    (hop : ∀ (h : Host σ) {α : Type} {a : Act σ α}, Op a → a.Within Desk.Announces h)
    {α : Type} {a : Act σ α} (ha : Act.Client n Op a) : a.Within Desk.Announces h :=
  (hh.within Desk.Announces.path (fun _ _ => Desk.Step.announces) (fun _ _ => Desk.Recorded.announces)
    (fun _ _ => .still rfl rfl rfl) hop).2 ha

end FormDesk

/-
Undoing what was recorded. With listeners that only watch, an undo takes the
latest segment off the stack and exchanges its document with the one there is.
So undoing a whole stack restores the documents from before its segments, the
latest first (`undoes_run`), and after clients have edited those are the
documents from before the undoable edits that recorded (`undo_entries`).
-/
import FormDesk.Proofs.Recording

namespace FormDesk

variable {σ α : Type}

/-- Undoes so many times, and answers each entry with the document there is afterwards. -/
def Act.undoes : Nat → Act σ (List (Option Segment × Option Document))
  | 0 => pure []
  | k + 1 => do
    let entry ← undo
    let document ← look (·.model.document)
    return (entry, document) :: (← undoes k)

/-- What it comes to when segments are undone one by one: each is answered with the document that it
replaces, and leaves its own. -/
def Segment.takenBack (document : Option Document) : List Segment → List (Option Segment × Option Document)
  | [] => []
  | s :: rest => (some { s with before := document }, s.before) :: takenBack s.before rest

namespace Desk

/-- Nothing that an undo depends on is changed, and no client interrupts. -/
structure Unedited (d e : Desk σ) : Prop where
  calm : Calm d e
  document : e.model.document = d.model.document
  changing : e.model.changing = d.model.changing
  recording : e.model.recording = d.model.recording
  stack : e.model.undoStack = d.model.undoStack

theorem Unedited.path : Path (Unedited (σ := σ)) where
  refl d := ⟨.refl d, rfl, rfl, rfl, rfl⟩
  trans h h' := ⟨h.calm.trans h'.calm, h'.document.trans h.document, h'.changing.trans h.changing,
    h'.recording.trans h.recording, h'.stack.trans h.stack⟩

end Desk

open Desk (Unedited)

/-- The clients only watch: they return, and change nothing that an undo depends on. -/
def Host.Watches (h : Host σ) : Prop :=
  ∀ c d, (h.answer c d).1 = .returned () ∧ Unedited d (h.answer c d).2

namespace Act

variable {h : Host σ}

theorem emit_unedited (hh : h.Watches) (event : Event) (d : Desk σ) :
    ∃ d', emit event h d = (.returned (), d') ∧ Unedited d d' := by
  have hR := Unedited.path (σ := σ)
  have hdeed (d : Desk σ) (e : Deed) (he : ∀ c, .threw c ≠ e) : Unedited d (d.enter e) :=
    ⟨⟨[e], d.toList_enter e, by simpa using he⟩, rfl, rfl, rfl, rfl⟩
  have hcall : ∀ c, Within Unedited h (call c) := by
    intro c d
    obtain ⟨hreturned, hsame⟩ := hh c (d.enter (.told c d.model.document))
    unfold call
    rcases hans : h.answer c (d.enter (.told c d.model.document)) with ⟨outcome, e⟩
    rw [hans] at hreturned hsame
    simp only at hreturned
    subst hreturned
    exact hR.trans (hdeed d _ (by simp)) hsame
  have hheld (d : Desk σ) (l : List Ref) : Unedited d { d with held := l } := ⟨.refl d, rfl, rfl, rfl, rfl⟩
  have hrun := emit_within hR (deliver_within hR hcall hheld) (hdeed d (.emitted event) (by simp))
  have hgrows : ∀ c d, Desk.Grows d (h.answer c d).2 := fun c d =>
    have ⟨w, hw, _⟩ := (hh c d).2.calm
    ⟨w, hw.symm⟩
  obtain ⟨u, hu⟩ := (emit_returns hgrows event).returned d hrun.calm
  exact ⟨_, Prod.ext hu rfl, hrun⟩

/-- An undo exchanges the document with the one of the latest segment. -/
theorem undo_run (hh : h.Watches) {d : Desk σ} {s : Segment} {rest : List Segment}
    (hchanging : d.model.changing = 0) (hrecording : d.model.recording = none)
    (hstack : d.model.undoStack = s :: rest) :
    ∃ d', undo h d = (.returned (some { s with before := d.model.document }), d') ∧
      d'.model.document = s.before ∧ d'.model.changing = 0 ∧ d'.model.recording = none ∧
      d'.model.undoStack = rest := by
  obtain ⟨d₁, hfirst, hsame₁⟩ := emit_unedited hh .aboutToChange
    { d with model := { d.model with undoStack := rest } }
  obtain ⟨d₂, hsecond, hsame₂⟩ := emit_unedited hh (.changed s.before)
    { d₁ with model := (d₁.model.restore s).2 }
  have hbarred : d.model.undoBarred = false := by simp [Model.undoBarred, hchanging, hrecording]
  have hrun : undo h d = (.returned (some { s with before := d₁.model.document }), d₂) := by
    simp only [undo, look_bind, hbarred, Bool.false_eq_true, if_false, Model.popUndo?, hstack, setModel, change_bind,
      bind_run hfirst, Model.restore]
    exact bind_run hsecond
  rw [hrun, hsame₁.document]
  exact ⟨d₂, rfl, hsame₂.document, hsame₂.changing.trans (hsame₁.changing.trans hchanging),
    hsame₂.recording.trans (hsame₁.recording.trans hrecording), hsame₂.stack.trans hsame₁.stack⟩

theorem undoes_run (hh : h.Watches) {d : Desk σ} (hchanging : d.model.changing = 0)
    (hrecording : d.model.recording = none) :
    ∃ d', undoes d.model.undoStack.length h d =
        (.returned (Segment.takenBack d.model.document d.model.undoStack), d') ∧
      d'.model.undoStack = [] := by
  generalize hstack : d.model.undoStack = stack
  induction stack generalizing d with
  | nil => exact ⟨d, rfl, hstack⟩
  | cons s rest ih =>
    obtain ⟨d₁, hundo, hdocument, hchanging₁, hrecording₁, hstack₁⟩ := undo_run hh hchanging hrecording hstack
    obtain ⟨d₂, hrest, hempty⟩ := ih hchanging₁ hrecording₁ hstack₁
    rw [hdocument] at hrest
    refine ⟨d₂, ?_, hempty⟩
    have hlook : undoes (rest.length + 1) h d =
        (look (·.model.document) >>= fun document => undoes rest.length >>= fun more =>
          pure ((some { s with before := d.model.document }, document) :: more)) h d₁ := bind_run hundo
    rw [List.length_cons, hlook, look_bind, hdocument, bind_run hrest]
    rfl

end Act

/-- **Undo entries.** Let clients do what they will with sessions and undoable edits on an idle desk with an
empty undo stack. Unless a client interrupts or the model is made unavailable while an undoable edit runs, the
stack has one entry for each undoable edit that started to record while the model did not, in order; and undoing
them under clients that only watch restores the documents from before, the latest first. -/
theorem Host.Clients.undo_entries {n : Nat} {h : Host σ} (hh : h.Clients n Act.SwitchOp) {a : Act σ α}
    (ha : Act.Client n Act.SwitchOp a) {d : Desk σ} (hn : d.coordinators.length = n)
    (hidle : ∀ c, (d.coordinator c).session = .idle) (hchanging : d.model.changing = 0)
    (hnumbered : d.model.Numbered) (hrecording : d.model.recording = none) (hstack : d.model.undoStack = []) :
    ∃ w, (a h d).2.history.toList = d.history.toList ++ w ∧ (Deed.Steady w →
      (a h d).1 ≠ .fatal ∧
      (a h d).2.model.undoStack.reverse = Deed.segments w ∧
      ∀ h' : Host σ, h'.Watches → ∃ e, Act.undoes (Deed.segments w).length h' (a h d).2 =
        (.returned (Segment.takenBack (a h d).2.model.document (Deed.segments w).reverse), e) ∧
        e.model.undoStack = []) := by
  obtain ⟨hnoFatal, hstacking⟩ := hh.stacking ha
  obtain ⟨w, hw, hstacks⟩ := hstacking d
  refine ⟨w, hw, fun hsteady => ?_⟩
  have hcalm : d.Calm (a h d).2 := ⟨w, hw, hsteady.1⟩
  have hrest : d.AtRest n := ⟨hn, hidle, hchanging, hnumbered⟩
  obtain ⟨_, -, hkept⟩ := ((hh.balanced ha).2 d).2 hcalm hrest.sound
  have hst := hstacks hsteady hn
  have hentries : (a h d).2.model.undoStack = (Deed.segments w).reverse := by
    rw [hst.stack, hstack, List.append_nil]
  refine ⟨hnoFatal.sound d hcalm, by rw [hentries, List.reverse_reverse], fun h' hwatches => ?_⟩
  have hundone := Act.undoes_run hwatches (hrest.again hkept).closed (hst.recording.trans hrecording)
  rwa [hentries, List.length_reverse] at hundone

/-- An undoable edit with a failing one of another coordinator inside, and then a third one while a listener
answers each announcement with a session of its own: two entries, for the first and the third. -/
theorem Host.Clients.undo_entries_nested :
    let append (s : Scope) : Act Unit (Except ModelError Unit) :=
      Act.mutateIn s fun document => pure ((), document ++ "x")
    let h : Host Unit := .answering do let _ ← Act.edit 1 append
    let a : Act Unit Unit := do
      let _ ← Act.undoableEdit 0 (some "first") fun s => do
        let _ ← append s
        let _ ← Act.attempt (Act.undoableEdit 1 (some "second") fun _ =>
          (Act.interrupt "stop" : Act Unit (Except ModelError Unit)))
        return (.ok () : Except ModelError Unit)
      let _ ← Act.undoableEdit 1 (some "third") append
    let d : Desk Unit :=
      { model := { document := some "", subscriptions := [⟨0, .client 0⟩] }, coordinators := [{}, {}],
        client := () }
    d.coordinators.length = 2 ∧ d.model.changing = 0 ∧ d.model.recording = none ∧ d.model.undoStack = [] ∧
    (a h d).2.model.undoLabels = [some "first", some "third"] ∧
    ∃ w, (a h d).2.history.toList = d.history.toList ++ w ∧
      (a h d).1 ≠ .fatal ∧
      (a h d).2.model.undoStack.reverse = Deed.segments w ∧
      ∀ h' : Host Unit, h'.Watches → ∃ e, Act.undoes (Deed.segments w).length h' (a h d).2 =
        (.returned (Segment.takenBack (a h d).2.model.document (Deed.segments w).reverse), e) ∧
        e.model.undoStack = [] := by
  intro append h a d
  have happend (s : Scope) : Act.Client 2 Act.SwitchOp (append s) := .mutate s fun _ => .pure _
  have hh : h.Clients 2 Act.SwitchOp := .answering (.bind (.edit (by decide) (happend _)) fun _ => .pure _)
  have ha : Act.Client 2 Act.SwitchOp a :=
    .bind (.undoable _ (by decide) (.bind (happend _) fun _ =>
      .bind (.attempt (.undoable _ (by decide) (.op (.interrupt "stop")))) fun _ => .pure _)) fun _ =>
    .bind (.undoable _ (by decide) (happend _)) fun _ => .pure _
  have hidle : ∀ c, (d.coordinator c).session = .idle := fun c => by
    match c with
    | 0 | 1 | c + 2 => rfl
  have hsteady : ∀ e ∈ (a h d).2.history.toList,
      (match e with | .threw _ | .availability _ _ => false | _ => true) = true := by
    rw [← List.all_eq_true]
    decide +kernel
  obtain ⟨w, hw, hrest⟩ := hh.undo_entries ha rfl hidle rfl ⟨by simp [d], by simp [d]⟩ rfl rfl
  refine ⟨rfl, rfl, rfl, rfl, by decide +kernel, w, hw, hrest ⟨fun c hc => ?_, fun hc => ?_⟩⟩
  · exact absurd (hsteady (.threw c) (hw ▸ List.mem_append_right _ hc)) Bool.false_ne_true
  · exact absurd (hsteady (.availability false true) (hw ▸ List.mem_append_right _ hc)) Bool.false_ne_true

end FormDesk

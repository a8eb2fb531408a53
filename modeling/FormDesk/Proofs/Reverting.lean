/-
Undoing under clients that interrupt. An undo takes its entry off the stack, tells
the clients that the document is about to change, puts the entry's document in
place and tells them that it has changed. As long as no client edits the model
meanwhile (`Host.LeavesDocument`) the entry is gone from the stack afterwards, however the
undo ends. Its document is in place unless a client interrupted the first of the two
rounds (`undo_reverts`); so an undo is all or nothing for clients that may interrupt
the second round only, and a client that interrupts the first one costs the
entry (`Host.undo_lost`).
-/
import FormDesk.Proofs.Enclosing
import FormDesk.Proofs.Undoing

namespace FormDesk

variable {σ : Type}

namespace Desk

/-- The history goes on, and the document and what can be undone are what they were. -/
structure Unrevised (d e : Desk σ) : Prop where
  grows : Grows d e
  document : e.model.document = d.model.document
  stack : e.model.undoStack = d.model.undoStack

theorem Unrevised.path : Path (Unrevised (σ := σ)) where
  refl d := ⟨Grows.path.refl d, rfl, rfl⟩
  trans h h' := ⟨Grows.path.trans h.grows h'.grows, h'.document.trans h.document, h'.stack.trans h.stack⟩

theorem Unrevised.enter (d : Desk σ) (e : Deed) : Unrevised d (d.enter e) := ⟨d.grows_enter e, rfl, rfl⟩

theorem OffBooks.grows {d e : Desk σ} (h : OffBooks d e) : Grows d e := by
  obtain ⟨w, hw, -⟩ := h.deeds
  exact ⟨w, hw.symm⟩

/-- The desk with its latest entry taken off the undo stack. -/
def popped (d : Desk σ) (rest : List Segment) : Desk σ := { d with model := { d.model with undoStack := rest } }

end Desk

open Desk (Unrevised Grows)

/-- The clients do not edit the model. They may interrupt, and work with the rest of the desk. -/
def Host.LeavesDocument (h : Host σ) : Prop := ∀ c d, Unrevised d (h.answer c d).2

namespace Act

variable {h : Host σ}

/-- An event changes neither the document nor what can be undone, however its round ends. -/
theorem emit_unrevised (hh : h.LeavesDocument) (event : Event) : Within Unrevised h (emit event) := by
  have hR := Unrevised.path (σ := σ)
  have hcall (c : Callback) : Within Unrevised h (call c) :=
    call_within hR (fun _ _ => .enter _ _) (fun _ _ => .enter _ _) hh c
  have hheld (d : Desk σ) (l : List Ref) : Unrevised d { d with held := l } := ⟨Grows.path.refl d, rfl, rfl⟩
  exact fun d => emit_within hR (deliver_within hR hcall hheld) (.enter d (.emitted event))

/-- A round that tells of a coming change is interrupted by a client that was told. -/
theorem emit_broken (hh : h.LeavesDocument) {d e : Desk σ} {message : String}
    (hrun : emit .aboutToChange h d = (.interrupted message, e)) :
    ∃ w c, e.history.toList = d.history.toList ++ w ∧ .threw c ∈ w ∧ Deed.breaks (.threw c) = true := by
  have hfree : (Grows.path (σ := σ)).contract.Free := Desk.OffBooks.free (fun hoff => hoff.grows)
    fun hcut hoff => Grows.path.trans hcut hoff.grows
  have hc (c : Callback) : Keeps (Grows.path (σ := σ)).contract h fun _ => h.answer c :=
    keeps_contract.2 fun d => (hh c d).grows
  obtain ⟨f, c, held, ⟨w, hw⟩, hbreaks, rfl⟩ := emit_threw hfree hc hrun
  refine ⟨w ++ [.threw c], c, ?_, by simp, hbreaks⟩
  rw [← List.append_assoc, hw]
  exact f.toList_enter (.threw c)

/-- The two rounds of an undo. -/
theorem undo_rounds {d : Desk σ} {s : Segment} {rest : List Segment} (hchanging : d.model.changing = 0)
    (hrecording : d.model.recording = none) (hstack : d.model.undoStack = s :: rest) :
    undo h d = (emit .aboutToChange >>= fun _ => look (·.model) >>= fun m => setModel (m.restore s).2 >>= fun _ =>
      emit (.changed (m.restore s).2.document) >>= fun _ => pure (some (m.restore s).1)) h (d.popped rest) := by
  have hbarred : d.model.undoBarred = false := by simp [Model.undoBarred, hchanging, hrecording]
  simp only [undo, look_bind, hbarred, Bool.false_eq_true, if_false, Model.popUndo?, hstack, setModel, change_bind]
  rfl

/-- When the first round is through the entry's document is put in place, and no second round takes it away. -/
theorem undo_second (hh : h.LeavesDocument) {d d₁ : Desk σ} {s : Segment} {rest : List Segment}
    (hchanging : d.model.changing = 0) (hrecording : d.model.recording = none)
    (hstack : d.model.undoStack = s :: rest)
    (hfirst : emit .aboutToChange h (d.popped rest) = (.returned (), d₁)) :
    Grows d (undo h d).2 ∧ (undo h d).2.model.undoStack = rest ∧ (undo h d).2.model.document = s.before ∧
      ∀ answer, (undo h d).1 = .returned answer → answer = some { s with before := d.model.document } := by
  have hround := emit_unrevised hh .aboutToChange (d.popped rest)
  rw [hfirst] at hround
  have hrun : undo h d = (emit (.changed s.before) >>= fun _ => pure (some (d₁.model.restore s).1)) h
      { d₁ with model := (d₁.model.restore s).2 } := (undo_rounds hchanging hrecording hstack).trans (bind_run hfirst)
  have hsecond := emit_unrevised hh (.changed s.before) { d₁ with model := (d₁.model.restore s).2 }
  have hanswered : (d₁.model.restore s).1 = { s with before := d.model.document } :=
    congrArg (fun document => { s with before := document }) hround.document
  rw [hrun]
  rcases bind_cases (h := h) (emit (.changed s.before)) (fun _ => pure (some (d₁.model.restore s).1))
    { d₁ with model := (d₁.model.restore s).2 } with ⟨_, e, he, hb⟩ | ⟨_, e, he, hb⟩ | ⟨e, he, hb⟩
  all_goals
    rw [he] at hsecond
    rw [hb]
    refine ⟨Grows.path.trans hround.grows hsecond.grows, hsecond.stack.trans hround.stack, hsecond.document, ?_⟩
    rintro answer ⟨⟩
  exact congrArg some hanswered

/-- When the first round is not through, that is the end of the undo. -/
theorem undo_first (hh : h.LeavesDocument) {d : Desk σ} {s : Segment} {rest : List Segment}
    (hchanging : d.model.changing = 0) (hrecording : d.model.recording = none)
    (hstack : d.model.undoStack = s :: rest)
    (hfirst : (emit .aboutToChange h (d.popped rest)).1 ≠ .returned ()) :
    (undo h d).2 = (emit .aboutToChange h (d.popped rest)).2 ∧ (∀ answer, (undo h d).1 ≠ .returned answer) ∧
      ((undo h d).1 ≠ .fatal → ∃ w c, (undo h d).2.history.toList = d.history.toList ++ w ∧ .threw c ∈ w ∧
        Deed.breaks (.threw c) = true) := by
  rw [undo_rounds hchanging hrecording hstack]
  cases hrun : emit .aboutToChange h (d.popped rest) with
  | mk outcome e =>
    rw [hrun] at hfirst
    cases outcome with
    | returned _ => exact absurd rfl hfirst
    | interrupted message =>
      rw [bind_interrupted hrun]
      exact ⟨rfl, nofun, fun _ => emit_broken (d := d.popped rest) hh hrun⟩
    | fatal =>
      rw [bind_fatal hrun]
      exact ⟨rfl, nofun, fun hnot => absurd rfl hnot⟩

/-- **An undo reverts the document or loses its entry**, under clients that do not edit the model but may interrupt at
any time. Afterwards the entry is gone from the stack. When the first round is through its document is in place,
however the second one ends, and what is answered is the entry with the document from before. Otherwise the document
is what it was, although the entry is gone. So an undo that is not cut off is all or nothing as long as no client
interrupts that is told of the coming change. -/
theorem undo_reverts (hh : h.LeavesDocument) {d : Desk σ} {s : Segment} {rest : List Segment}
    (hchanging : d.model.changing = 0) (hrecording : d.model.recording = none)
    (hstack : d.model.undoStack = s :: rest) :
    ∃ w, (undo h d).2.history.toList = d.history.toList ++ w ∧ (undo h d).2.model.undoStack = rest ∧
      ((emit .aboutToChange h (d.popped rest)).1 = .returned () → (undo h d).2.model.document = s.before ∧
        ∀ answer, (undo h d).1 = .returned answer → answer = some { s with before := d.model.document }) ∧
      ((emit .aboutToChange h (d.popped rest)).1 ≠ .returned () →
        (undo h d).2.model.document = d.model.document ∧ ∀ answer, (undo h d).1 ≠ .returned answer) ∧
      ((undo h d).1 ≠ .fatal → (∀ c, .threw c ∈ w → Deed.breaks (.threw c) = false) →
        (undo h d).2.model.document = s.before) := by
  by_cases hfirst : (emit .aboutToChange h (d.popped rest)).1 = .returned ()
  · obtain ⟨⟨w, hw⟩, hgone, hdocument, hanswer⟩ :=
      undo_second hh hchanging hrecording hstack (Prod.ext hfirst rfl)
    exact ⟨w, hw.symm, hgone, fun _ => ⟨hdocument, hanswer⟩, fun hnot => absurd hfirst hnot, fun _ _ => hdocument⟩
  · obtain ⟨hend, hnone, hbroken⟩ := undo_first hh hchanging hrecording hstack hfirst
    have hround := emit_unrevised hh .aboutToChange (d.popped rest)
    rw [← hend] at hround
    obtain ⟨w, hw⟩ := hround.grows
    refine ⟨w, hw.symm, hround.stack, fun hyes => absurd hyes hfirst, fun _ => ⟨hround.document, hnone⟩, ?_⟩
    intro hfatal hunbroken
    obtain ⟨v, c, hv, hc, hbreaks⟩ := hbroken hfatal
    obtain rfl : w = v := List.append_cancel_left (hw.trans hv)
    rw [hunbroken c hc] at hbreaks
    cases hbreaks

/-- A listener that interrupts when it is told that the document has changed: the undo is interrupted, and has taken
back what was done. -/
theorem undo_reverts_interrupted :
    let h : Host Unit := .interfering (Act.interrupt "stop")
    let d : Desk Unit :=
      { model := { document := some "d1", subscriptions := [⟨0, .client 0⟩]
                   undoStack := [⟨some "two", .coordinator 0, some "d"⟩, ⟨some "one", .coordinator 0, some ""⟩] }
        coordinators := [{}]
        client := () }
    h.LeavesDocument ∧ d.model.changing = 0 ∧ d.model.recording = none ∧
      (undo h d).1 = .interrupted "stop" ∧ (undo h d).2.model.document = some "d" ∧
      (undo h d).2.model.undoStack = [⟨some "one", .coordinator 0, some ""⟩] := by
  intro h d
  have hh : h.LeavesDocument := by
    intro c e
    change Unrevised e (Act.onChange (Act.interrupt "stop") c .silent e).2
    unfold Act.onChange
    split <;> exact Unrevised.path.refl e
  obtain ⟨w, -, hstack, hthrough, -, -⟩ := undo_reverts hh (d := d) rfl rfl rfl
  have hfirst : (emit .aboutToChange h (d.popped [⟨some "one", .coordinator 0, some ""⟩])).1 = .returned () := by
    decide +kernel
  exact ⟨hh, rfl, rfl, by decide +kernel, (hthrough hfirst).1, hstack⟩

end Act

/-- A listener that interrupts when it is told that an undo is about to change the document: the document is what it
was, but the entry that would restore the one from before the edit is gone, and nothing is left to undo. -/
theorem Host.undo_lost :
    let h : Host Unit := .answering (Act.interrupt "stop")
    let edit : Act Unit Unit := do
      let _ ← Act.undoableEdit 0 (some "one") fun s => Act.mutateIn s fun document => pure ((), document ++ "1")
    let d : Desk Unit :=
      { model := { document := some "d", subscriptions := [⟨0, .client 0⟩] }, coordinators := [{}], client := () }
    let e := (edit .silent d).2
    let f := (Act.undo h e).2
    h.LeavesDocument ∧ e.model.changing = 0 ∧ e.model.recording = none ∧ e.model.document = some "d1" ∧
      e.model.undoStack = [⟨some "one", .coordinator 0, some "d"⟩] ∧
      (Act.undo h e).1 = .interrupted "stop" ∧ f.model.document = some "d1" ∧ f.model.undoStack = [] ∧
      (Act.undo .silent f).1 = .returned none ∧
      ¬((f.model.document = e.model.document ∧ f.model.undoStack = e.model.undoStack) ∨
        f.model.document = some "d" ∧ f.model.undoStack = []) := by
  intro h edit d e f
  exact ⟨fun _ e => Unrevised.path.refl e, by decide +kernel, by decide +kernel, by decide +kernel, by decide +kernel,
    by decide +kernel, by decide +kernel, by decide +kernel, by decide +kernel, by decide +kernel⟩

end FormDesk

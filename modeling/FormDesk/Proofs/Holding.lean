/-
Holding the document. The model holds its document but while a mutation has it
in hand; and a mutation that is interrupted loses it. Nothing else takes it
away: whatever callers do, undoing and rebuilding and recording included, where
the model is without a document a mutation is being executed or one has been
interrupted (`Deed.MayBeMissing`). So undo entries always keep a document, and unless a
mutation was interrupted, changes are announced without a document only while
one is being executed, and no edit is skipped for lack of one
(`Callers.document_held`).
-/
import FormDesk.Proofs.Caller
import FormDesk.Proofs.Recording

namespace FormDesk

variable {σ ε α : Type}

/-! ## Deeds in order -/

namespace Deed

/-- Every deed stands as `P` says to the deeds before it. -/
def Orderly (P : List Deed → Deed → Prop) (w : List Deed) : Prop := ∀ u e v, w = u ++ e :: v → P u e

variable {P : List Deed → Deed → Prop} {w u v : List Deed} {e e' : Deed}

/-- Where a deed stands among deeds that have gone on with one more. -/
theorem stands_snoc (h : w ++ [e] = u ++ e' :: v) :
    (w = u ∧ e = e' ∧ v = []) ∨ ∃ v', v = v' ++ [e] ∧ w = u ++ e' :: v' := by
  rcases List.eq_nil_or_concat v with rfl | ⟨v, e'', rfl⟩
  · obtain ⟨rfl, rfl⟩ : w = u ∧ e = e' := by simpa using List.append_inj' h rfl
    exact .inl ⟨rfl, rfl, rfl⟩
  · have heq : w ++ [e] = (u ++ e' :: v) ++ [e''] := by simpa using h
    obtain ⟨rfl, hlast⟩ := List.append_inj' heq rfl
    obtain rfl : e = e'' := by simpa using hlast
    exact .inr ⟨v, by simp, rfl⟩

theorem Orderly.nil (P : List Deed → Deed → Prop) : Orderly P [] := fun u e v h => by simp at h

theorem Orderly.snoc (hw : Orderly P w) (he : P w e) : Orderly P (w ++ [e]) := by
  intro u e' v heq
  obtain ⟨rfl, rfl, -⟩ | ⟨v, -, rfl⟩ := stands_snoc heq
  · exact he
  · exact hw u e' v rfl

theorem Orderly.append (hw : Orderly P w) (hv : ∀ e ∈ v, ∀ u, P u e) : Orderly P (w ++ v) := by
  induction v generalizing w with
  | nil => simpa using hw
  | cons e v ih =>
    rw [List.append_cons]
    exact ih (hw.snoc (hv e List.mem_cons_self w)) fun e he => hv e (List.mem_cons_of_mem _ he)

/-- How many mutations are being executed, counted on by one deed. -/
def inHand (k : Nat) : Deed → Nat
  | call _ .mutate => k + 1
  | mutated _ => k - 1
  | _ => k

/-- How many mutations are being executed after the deeds `w`. -/
def executing (w : List Deed) : Nat := w.foldl inHand 0

@[simp] theorem executing_snoc (w : List Deed) (e : Deed) : executing (w ++ [e]) = inHand (executing w) e := by
  simp [executing]

/-- After the deeds `w` a mutation is being executed, or one has been interrupted with the document in hand, or
no bracket has been opened yet, where it is not known that there `had` been a document at first. -/
def MayBeMissing (had : Bool) (w : List Deed) : Prop :=
  .mutated false ∈ w ∨ 0 < executing w ∨ had = false ∧ ∀ i, .call i .aboutToChange ∉ w

theorem MayBeMissing.snoc {had : Bool} {w : List Deed} {e : Deed} (hw : MayBeMissing had w)
    (he : ∀ k, e.inHand k = k)
    (hopen : ∀ i, e ≠ .call i .aboutToChange) : MayBeMissing had (w ++ [e]) := by
  rcases hw with hlost | hpos | ⟨hnot, hnever⟩
  · exact .inl (List.mem_append_left _ hlost)
  · exact .inr (.inl (by rwa [executing_snoc, he]))
  · refine .inr (.inr ⟨hnot, fun i hmem => ?_⟩)
    rcases List.mem_append.1 hmem with hmem | hmem
    · exact hnever i hmem
    · exact hopen i (List.mem_singleton.1 hmem).symm

/-- A deed announces a change without a document only where there is a reason for that. -/
def MissingForReason (had : Bool) (w : List Deed) (e : Deed) : Prop :=
  e = .emitted (.changed none) → MayBeMissing had w

end Deed

open Deed (Orderly MayBeMissing MissingForReason executing)

/-! ## Steps -/

namespace Desk

/-- The model holds its document, but for a reason that the history tells, and so do all entries for undoing
and the recording in progress. -/
structure Held (had : Bool) (d : Desk σ) : Prop where
  document : d.model.document = none → MayBeMissing had d.history.toList
  stack : ∀ s ∈ d.model.undoStack, s.before.isSome = true
  recording : ∀ r, d.model.recording = some r → r.entry.before.isSome = true
  announced : Orderly (MissingForReason had) d.history.toList

variable {had : Bool} {d e : Desk σ}

/-- Before anything was done, with nothing to undo. -/
theorem Held.of_fresh (hdocument : had = true → d.model.document.isSome = true) (hstack : d.model.undoStack = [])
    (hrecording : d.model.recording = none) (hhistory : d.history = #[]) : d.Held had where
  document hnone := by
    cases had with
    | true => simp [hnone] at hdocument
    | false => exact .inr (.inr ⟨rfl, by simp [hhistory]⟩)
  stack s hs := by simp [hstack] at hs
  recording r hr := by simp [hrecording] at hr
  announced := by simpa [hhistory] using Orderly.nil _

theorem Held.enter (hd : d.Held had) (deed : Deed) (hinHand : ∀ k, deed.inHand k = k)
    (hopen : ∀ i, deed ≠ .call i .aboutToChange) (hreason : MissingForReason had d.history.toList deed) :
    (d.enter deed).Held had where
  document hnone := by
    rw [toList_enter]
    exact (hd.document hnone).snoc hinHand hopen
  stack := hd.stack
  recording := hd.recording
  announced := by
    rw [toList_enter]
    exact hd.announced.snoc hreason

/-- The model goes on to another with a document, or with the same one. -/
theorem Held.goes (hd : d.Held had) {m : Model} (hdocument : m.document = d.model.document ∨ m.document.isSome = true)
    (hstack : ∀ s ∈ m.undoStack, s.before.isSome = true)
    (hrecording : ∀ r, m.recording = some r → r.entry.before.isSome = true) :
    Held had { d with model := m } where
  document hnone := by
    rcases hdocument with hsame | hsome
    · exact hd.document (hsame.symm.trans hnone)
    · have hnone : m.document = none := hnone
      rw [hnone] at hsome
      cases hsome
  stack := hstack
  recording := hrecording
  announced := hd.announced

/-- The desk is the same in all that matters to the document. -/
theorem Held.of_eq (hd : d.Held had) (hm : e.model.document = d.model.document)
    (hstack : e.model.undoStack = d.model.undoStack) (hrecording : e.model.recording = d.model.recording)
    (hh : e.history = d.history) : e.Held had where
  document := by
    rw [hm, hh]
    exact hd.document
  stack := by
    rw [hstack]
    exact hd.stack
  recording := by
    rw [hrecording]
    exact hd.recording
  announced := by
    rw [hh]
    exact hd.announced

/-- A call that leaves the document and what is kept for undoing alone. -/
theorem Held.accepted (hd : d.Held had) (s : Share) {c : Call} {m : Model} (hc : c ≠ .mutate)
    (hopen : c ≠ .aboutToChange) (hdocument : m.document = d.model.document)
    (hstack : m.undoStack = d.model.undoStack) (hrecording : m.recording = d.model.recording) :
    (d.accepted s c m).Held had := by
  have hinHand : ∀ k, (Deed.call s.id c).inHand k = k := fun k => by
    cases c with
    | mutate => exact absurd rfl hc
    | _ => rfl
  have hcalled := hd.enter (.call s.id c) hinHand (fun i heq => hopen (Deed.call.inj heq).2) nofun
  exact hcalled.goes (.inl hdocument) (hstack ▸ hd.stack) (hrecording ▸ hd.recording)

/-- The document goes out with the event that tells of it. -/
theorem Held.announced_by (hd : d.Held had) (b : Bool) {event : Event}
    (hevent : ∀ document, event = .changed document → document = d.model.document) :
    (d.announced b event).Held had := by
  cases b with
  | false => exact hd
  | true =>
    refine hd.enter _ (fun _ => rfl) nofun fun heq => hd.document ?_
    exact (hevent none (Deed.emitted.inj heq)).symm

theorem Step.holds (h : Step d e) (hd : d.Held had) : e.Held had := by
  cases h with
  | acquire h =>
    obtain ⟨-, rfl, rfl⟩ := Model.acquire_ok h
    exact hd.accepted _ nofun nofun rfl rfl rfl
  | release h =>
    obtain ⟨-, rfl⟩ := Model.release?_some h
    exact hd.accepted _ nofun nofun rfl rfl rfl
  | openBracket h =>
    obtain ⟨-, hsome, rfl⟩ := Model.openBracket_ok h
    refine Held.announced_by ?_ _ nofun
    refine ⟨fun hnone => ?_, hd.stack, hd.recording, ?_⟩
    · have hnone : d.model.document = none := hnone
      simp [hnone] at hsome
    · rw [toList_accepted]
      exact hd.announced.snoc nofun
  | closeBracket h =>
    obtain ⟨-, n, -, rfl⟩ := Model.closeBracket_ok h
    refine Held.announced_by ?_ _ fun _ heq => (Event.changed.inj heq).symm
    exact hd.accepted _ nofun nofun rfl rfl rfl
  | @takeDocument s document m h =>
    obtain ⟨-, -, -, rfl⟩ := Model.takeDocument_ok h
    refine ⟨fun _ => .inr (.inl ?_), hd.stack, hd.recording, ?_⟩
    · rw [toList_accepted, Deed.executing_snoc]
      exact Nat.succ_pos _
    · rw [toList_accepted]
      exact hd.announced.snoc nofun
  | putDocument document =>
    refine ⟨nofun, hd.stack, hd.recording, ?_⟩
    have hdeeds : ({ d.enter (.mutated true) with model := d.model.putDocument document } : Desk σ).history.toList =
        d.history.toList ++ [.mutated true] := d.toList_enter _
    rw [hdeeds]
    exact hd.announced.snoc nofun
  | lost =>
    refine ⟨fun _ => .inl ?_, hd.stack, hd.recording, ?_⟩
    · rw [toList_enter]
      exact List.mem_append_right _ List.mem_cons_self
    · rw [toList_enter]
      exact hd.announced.snoc nofun
  | dirtied | told | threw | starting | entered | left | runs | ran | opened =>
    exact hd.enter _ (fun _ => rfl) nofun nofun
  | client | session => exact hd.of_eq rfl rfl rfl rfl

theorem Recorded.holds (h : Recorded d e) (hd : d.Held had) : e.Held had := by
  cases h with
  | @beginRecording s owner label m h =>
    obtain ⟨-, -, hsome, rfl⟩ := Model.beginRecording_ok h
    refine (hd.enter (.call s.id (.beginRecording label)) (fun _ => rfl) nofun nofun).goes (.inl rfl) hd.stack ?_
    rintro r ⟨⟩
    unfold Model.recordingFrom
    cases hr : d.model.recording with
    | some r => exact hd.recording r hr
    | none => exact hsome
  | @endRecording s owner m h =>
    obtain ⟨-, r, hr, rfl⟩ := Model.endRecording_ok h
    have hentry := hd.recording r hr
    have hcalled := hd.enter (.call s.id .endRecording) (fun _ => rfl) nofun nofun
    unfold Model.recordingEnded
    split
    · refine hcalled.goes (.inl rfl) (fun t ht => ?_) nofun
      rcases List.mem_cons.1 ht with rfl | ht
      · exact hentry
      · exact hd.stack t ht
    · exact hcalled.goes (.inl rfl) hd.stack fun _ heq => by cases heq; exact hentry
  | began | finished | edits | edited => exact hd.enter _ (fun _ => rfl) nofun nofun
  | depth => exact hd.of_eq rfl rfl rfl rfl

theorem ModelStep.holds (h : ModelStep d e) (hd : d.Held had) : e.Held had := by
  cases h with
  | held l => exact hd.of_eq rfl rfl rfl rfl
  | emitted event hevent => exact hd.announced_by true hevent
  | available a =>
    exact (hd.enter (.availability a d.undoing) (fun _ => rfl) nofun nofun).of_eq rfl rfl rfl rfl
  | recordable | saved | moved => exact hd.of_eq rfl rfl rfl rfl
  | rebuilt document => exact hd.goes (.inr rfl) (by simp [Model.rebuild]) hd.recording
  | popped h =>
    obtain ⟨rest, hstack, rfl⟩ := Model.popUndo?_some h
    refine hd.goes (.inl rfl) (fun s hs => hd.stack s ?_) hd.recording
    rw [hstack]
    exact List.mem_cons_of_mem _ hs
  | subscribe h =>
    obtain ⟨-, rfl⟩ := Model.subscribe_ok h
    exact hd.accepted _ nofun nofun rfl rfl rfl
  | unsubscribe h =>
    obtain rfl := Model.unsubscribe_ok h
    exact hd.accepted _ nofun nofun rfl rfl rfl

/-- An entry for undoing that was popped keeps a document, whatever was done before it is restored. -/
theorem Held.restored {entry : Segment} {m : Model} (h : d.model.popUndo? = some (entry, m)) (hd : d.Held had)
    (he : e.Held had) : Held had { e with model := (e.model.restore entry).2 } := by
  obtain ⟨rest, hstack, -⟩ := Model.popUndo?_some h
  have hentry : entry.before.isSome = true := hd.stack entry (by rw [hstack]; exact List.mem_cons_self)
  exact he.goes (.inr hentry) he.stack he.recording

/-- Going on holding the document. -/
theorem holding_path (had : Bool) : Path fun d e : Desk σ => d.Held had → e.Held had where
  refl _ := id
  trans h h' := h' ∘ h

theorem holding_free : (holding_path (σ := σ) had).contract.Free where
  clientStep _ _ h := h.step.holds
  modelStep _ _ h := h.holds
  restored h hd hheld := hheld.restored h (hd hheld)
  threw _ _ c hd hheld := (Step.threw c).holds (hd hheld)

/-! ## Mutations end -/

/-- As many mutations are being executed on one desk as on the other. -/
def Idle (d e : Desk σ) : Prop := executing e.history.toList = executing d.history.toList

theorem idle_enter (d : Desk σ) (deed : Deed) (hinHand : ∀ k, deed.inHand k = k) : Idle d (d.enter deed) := by
  simp [Idle, hinHand]

theorem idle_accepted (d : Desk σ) (s : Share) {c : Call} (m : Model) (hc : c ≠ .mutate) :
    Idle d (d.accepted s c m) := by
  cases c with
  | mutate => exact absurd rfl hc
  | _ => exact d.idle_enter (.call s.id _) fun _ => rfl

theorem idle_announced (d : Desk σ) (b : Bool) (event : Event) : Idle d (d.announced b event) := by
  cases b with
  | false => rfl
  | true => exact d.idle_enter _ fun _ => rfl

theorem ClientStep.idle (h : ClientStep d e) : Idle d e := by
  cases h with
  | told | threw => exact d.idle_enter _ fun _ => rfl
  | client s => rfl

theorem ModelStep.idle (h : ModelStep d e) : Idle d e := by
  cases h with
  | emitted => exact d.idle_enter _ fun _ => rfl
  | available a => exact d.idle_enter (.availability a d.undoing) fun _ => rfl
  | subscribe | unsubscribe => exact d.idle_accepted _ _ nofun
  | held | recordable | saved | moved | rebuilt | popped => rfl

theorem Passage.idle (h : Passage d e) : Idle d e := by
  cases h with
  | visit h =>
    cases h with
    | acquire | release => exact d.idle_accepted _ _ nofun
    | client s => rfl
  | openBracket | closeBracket => exact (idle_announced _ _ _).trans (d.idle_accepted _ _ nofun)
  | starting | entered | left | runs | ran | opened => exact d.idle_enter _ fun _ => rfl
  | session => rfl

theorem Recorded.idle (h : Recorded d e) : Idle d e := by
  cases h with
  | beginRecording | endRecording => exact d.idle_accepted _ _ nofun
  | began | finished | edits | edited => exact d.idle_enter _ fun _ => rfl
  | depth => rfl

/-- The contract that every mutation that is begun comes to its end, unless the run is cut off. -/
def idling (σ : Type) : Contract σ where
  ended := Idle
  cut _ _ := True
  refl _ := rfl
  trans h h' := h'.trans h
  halt _ := trivial
  stop _ _ := trivial

theorem idling_free : (idling σ).Free where
  clientStep _ _ h := h.idle
  modelStep _ _ h := h.idle
  restored _ h := h
  threw _ _ _ _ := trivial

end Desk

namespace Act

open Desk (Idle idling)

variable {h : Host σ}

/-- A mutation is being executed while `f` runs, and no longer. -/
theorem mutate_idle (hc : ∀ c, Keeps (idling σ) h fun _ => h.answer c) (s : Share)
    {f : Document → Act σ (α × Document)} (hf : ∀ document, Keeps (idling σ) h (f document)) :
    Keeps (idling σ) h (mutate s f) := by
  intro d
  unfold KeepsFrom
  simp only [mutate, look_bind]
  cases htake : d.model.takeDocument s with
  | error e => rfl
  | ok taken =>
    obtain ⟨document, m⟩ := taken
    have hran := hf document (d.accepted s .mutate m)
    unfold KeepsFrom at hran
    simp only [accept_bind]
    rcases hrun : f document h (d.accepted s .mutate m) with ⟨outcome, d₂⟩
    rw [hrun] at hran
    -- However the mutation ends, that it ended is entered.
    have hend (kept : Bool) (hidle : Idle (d.accepted s .mutate m) d₂) : Idle d (d₂.enter (.mutated kept)) := by
      rw [Idle, Desk.toList_accepted, Deed.executing_snoc] at hidle
      rw [Idle, Desk.toList_enter, Deed.executing_snoc, hidle]
      rfl
    cases outcome with
    | returned result =>
      rw [bind_run (onInterrupt_run hrun)]
      simp only [look_bind, change_bind]
      cases d₂.model.dirty with
      | true => exact hend true hran
      | false =>
        have hemitted : KeepsFrom (idling σ) h (emit (.dirtyChanged true)) d
            { d₂.enter (.mutated true) with model := d₂.model.putDocument result.2 } :=
          .emit Desk.idling_free hc (by simp) (hend true hran)
        exact hemitted.bind fun _ => .pure _
    | interrupted message =>
      have hlost : onInterrupt (f document) (did (.mutated false)) h (d.accepted s .mutate m) =
          (.interrupted message, d₂.enter (.mutated false)) := by
        simp only [onInterrupt, hrun, did_run]
      rw [bind_interrupted hlost]
      exact hend false hran
    | fatal =>
      have hcut : onInterrupt (f document) (did (.mutated false)) h (d.accepted s .mutate m) = (.fatal, d₂) := by
        simp only [onInterrupt, hrun]
      simp only [bind, hcut]
      trivial

/-! ## Edits that are skipped -/

variable {id : CoordinatorId} {label : Option String} {d d' : Desk σ}

theorem openSession_error {e : SessionError} (hrun : openSession id h d = (.returned (.error e), d')) :
    d.model.available = false ∨ d.model.document = none := by
  cases hs : (d.coordinator id).session with
  | active inner s =>
    rw [openSession_nested hs] at hrun
    cases hrun
  | idle =>
    rw [openSession_idle hs, startSession] at hrun
    cases hacquire : d.model.acquire .edit with
    | error e => exact .inl (Model.acquire_error hacquire)
    | ok taken =>
      rw [bind_run (acquire_run hacquire)] at hrun
      obtain ⟨e', hopen⟩ := startWith_error hrun
      have hnone := Model.openBracket_error (Model.accessOf?_acquire hacquire) hopen
      obtain ⟨-, -, hm⟩ := Model.acquire_ok hacquire
      rw [hm] at hnone
      exact .inr hnone

theorem startRecording_error {e : ModelError} (hrun : startRecording id label h d = (.returned (.error e), d')) :
    d.model.available = false ∨ d.model.recordable = false ∨ d.model.document = none := by
  rcases startRecording_ends (h := h) id label d with
    ⟨_, hacquire, -⟩ | ⟨s, m, hacquire, ⟨_, hbegin, -⟩ | ⟨_, -, hstarted⟩⟩
  · exact .inl (Model.acquire_error hacquire)
  · have hwhy := Model.beginRecording_error (Model.accessOf?_acquire hacquire) hbegin
    obtain ⟨-, -, rfl⟩ := Model.acquire_ok hacquire
    exact .inr hwhy
  · rw [hstarted] at hrun
    cases hrun

/-- An edit is skipped only when shares are not to be had or there is no document. -/
theorem edit_skipped {mutation : Scope → Act σ (Except ε α)} {reason : SessionError}
    (hskip : (edit id mutation h d).1 = .returned (.ok (.skipped reason))) :
    d.model.available = false ∨ d.model.document = none := by
  unfold edit at hskip
  obtain ⟨entered, d₁, hopen, hskip⟩ := bind_answer hskip
  cases entered with
  | error e => exact openSession_error hopen
  | ok _ =>
    -- The mutation has run, so the answer is its own.
    obtain ⟨ended, _, -, hskip⟩ := bind_answer hskip
    cases ended <;> cases hskip

/-- An undoable edit is also skipped when recordings may not start. -/
theorem undoableEdit_skipped {mutation : Scope → Act σ (Except ε α)} {reason : SessionError}
    (hskip : (undoableEdit id label mutation h d).1 = .returned (.ok (.skipped reason))) :
    d.model.available = false ∨ d.model.recordable = false ∨ d.model.document = none := by
  have hedit {last : Act σ Unit} {e : Desk σ}
      (hrun : (ensure (edit id mutation) last h e).1 = .returned (.ok (.skipped reason))) :
      e.model.available = false ∨ e.model.document = none := edit_skipped (ensure_answer hrun)
  unfold undoableEdit at hskip
  by_cases hdeep : (d.coordinator id).undoDepth > 0
  · simp only [look_bind, hdeep, if_true] at hskip
    exact (hedit hskip).imp_right .inr
  simp only [look_bind, hdeep, if_false] at hskip
  rcases startRecording_cases (h := h) id label d with ⟨e, d₁, hstart, -⟩ | ⟨-, d₁, hstart, halike⟩
  · exact startRecording_error hstart
  · simp only [bind_run hstart, did_bind, changeUndoDepth, change_bind, ensure_between] at hskip
    rcases hedit hskip with hnot | hnone
    · exact .inl (halike.available.symm.trans hnot)
    · exact .inr (.inr (halike.document.symm.trans hnone))

end Act

/-! ## Whatever callers do -/

open Act (Public)

variable {n : Nat} {h : Host σ}

/-- Whatever callers do keeps the document held, and brings each mutation to its end. -/
theorem Host.Callers.holds (hh : h.Callers n Public) {a : Act σ α} (ha : Act.Caller n Public a) (d : Desk σ) :
    (∀ had, d.Held had → (a h d).2.Held had) ∧ ((a h d).1 ≠ .fatal → Desk.Idle d (a h d).2) := by
  have hheld (had : Bool) : a.Keeps (Desk.holding_path had).contract h := hh.keeps (fun h hc =>
    have hs := fun d e (hpass : Desk.Passage d e) => hpass.step.holds
    have hr := fun d e (hrecorded : Desk.Recorded d e) => hrecorded.holds
    .passing Desk.holding_free hs hr hc (Act.Public.keeps Desk.holding_free hs hc hr)
      (Act.Keeps.mutate Desk.holding_free hc fun _ _ hinHand => hinHand.step.holds)) ha
  have hidle : a.Keeps (Desk.idling σ) h := hh.keeps (fun h hc =>
    have hs := fun d e (hpass : Desk.Passage d e) => hpass.idle
    have hr := fun d e (hrecorded : Desk.Recorded d e) => hrecorded.idle
    .passing Desk.idling_free hs hr hc (Act.Public.keeps Desk.idling_free hs hc hr) (Act.mutate_idle hc)) ha
  exact ⟨fun had => Act.keeps_contract.1 (hheld had) d, (hidle d).ended⟩

/-- **The document is held.** Let the model have a document, and nothing to undo and no recording that it
had before, and let callers do what they will with it and its coordinators. Then whatever is kept for
undoing keeps a document, and every mutation comes to its end, unless the run is cut off. If no mutation was
interrupted, the model holds a document while none is being executed, it announces a change without a
document only while one is being executed, and an edit is not skipped for lack of one. -/
theorem Host.Callers.document_held (hh : h.Callers n Public) {a : Act σ α} (ha : Act.Caller n Public a)
    {d : Desk σ} (hdocument : d.model.document.isSome = true) (hstack : d.model.undoStack = [])
    (hrecording : d.model.recording = none) (hhistory : d.history = #[]) :
    ∃ e w, (a h d).2 = e ∧ e.history.toList = w ∧
      (∀ s ∈ e.model.undoStack, s.before.isSome = true) ∧
      (∀ r, e.model.recording = some r → r.entry.before.isSome = true) ∧
      ((a h d).1 ≠ .fatal → executing w = 0) ∧
      (.mutated false ∉ w →
        (∀ u v, w = u ++ .emitted (.changed none) :: v → 0 < executing u) ∧
        (executing w = 0 → e.model.document.isSome = true ∧
          ∀ (later : Host σ) id {ε β : Type} (mutation : Scope → Act σ (Except ε β)) reason,
            ((Act.edit id mutation later e).1 = .returned (.ok (.skipped reason)) →
              e.model.available = false) ∧
            ∀ label, (Act.undoableEdit id label mutation later e).1 = .returned (.ok (.skipped reason)) →
              e.model.available = false ∨ e.model.recordable = false)) := by
  have hheld : d.Held true := .of_fresh (fun _ => hdocument) hstack hrecording hhistory
  obtain ⟨hholds, hidle⟩ := hh.holds ha d
  have hheld' := hholds true hheld
  refine ⟨_, _, rfl, rfl, hheld'.stack, hheld'.recording, fun hfatal => ?_, fun hlost => ⟨fun u v heq => ?_,
    fun hnone => ?_⟩⟩
  · exact (hidle hfatal).trans (by simp [hhistory, executing])
  · have hmissing : MayBeMissing true u := hheld'.announced u _ v heq rfl
    rcases hmissing with hmem | hpos | ⟨hnever, -⟩
    · exact absurd (heq ▸ List.mem_append_left _ hmem) hlost
    · exact hpos
    · cases hnever
  · have hsome : (a h d).2.model.document ≠ none := fun hno => by
      rcases hheld'.document hno with hmem | hpos | ⟨hnever, -⟩
      · exact hlost hmem
      · exact absurd hnone (Nat.ne_of_gt hpos)
      · cases hnever
    refine ⟨Option.isSome_iff_ne_none.2 hsome, fun later id ε β mutation reason => ⟨fun hskip => ?_,
      fun label hskip => ?_⟩⟩
    · exact (Act.edit_skipped hskip).resolve_right hsome
    · exact (Act.undoableEdit_skipped hskip).imp_right fun hwhy => hwhy.resolve_right hsome

/-- A mutation that rebuilds the model while it has the document in hand, and an undoable edit that is
interrupted after it. -/
theorem Host.Callers.document_held_rebuilt :
    let h : Host Unit := .answering do let _ ← Act.edit 1 fun s => Act.mutateIn s fun _ => pure ((), "inner")
    let a : Act Unit (Except String (Except ModelError (Edited Unit))) :=
      Act.attempt <| Act.undoableEdit 0 (some "type") fun s => do
        let _ ← Act.mutateIn s fun document => do
          Act.rebuild "rebuilt"
          return ((), document ++ "x")
        Act.interrupt "stop"
    let d : Desk Unit :=
      { model := { document := some "", subscriptions := [⟨0, .client 0⟩] }, coordinators := [{}, {}],
        client := () }
    d.model.document.isSome = true ∧ d.model.undoStack = [] ∧ d.model.recording = none ∧ d.history = #[] ∧
    ∃ e w, (a h d).2 = e ∧ e.history.toList = w ∧
      (∀ s ∈ e.model.undoStack, s.before.isSome = true) ∧
      (∀ r, e.model.recording = some r → r.entry.before.isSome = true) ∧
      executing w = 0 ∧
      (∀ u v, w = u ++ .emitted (.changed none) :: v → 0 < executing u) ∧
      e.model.document.isSome = true ∧
      ∀ (later : Host Unit) id {ε β : Type} (mutation : Scope → Act Unit (Except ε β)) reason,
        ((Act.edit id mutation later e).1 = .returned (.ok (.skipped reason)) → e.model.available = false) ∧
        ∀ label, (Act.undoableEdit id label mutation later e).1 = .returned (.ok (.skipped reason)) →
          e.model.available = false ∨ e.model.recordable = false := by
  intro h a d
  have hoffBooks {α : Type} {a : Act Unit α} (ha : Act.OffBooksOp a) : Act.Caller 2 Public a :=
    .op (.offBooks ha)
  have hmutate (s : Scope) {f : Document → Act Unit (Unit × Document)}
      (hf : ∀ document, Act.Caller 2 Public (f document)) : Act.Caller 2 Public (Act.mutateIn s f) :=
    .mutateIn (fun ha => .offBooks ha) s hf
  have hh : h.Callers 2 Public :=
    .answering (.bind (.edit (by decide) (hmutate _ fun _ => .pure _)) fun _ => .pure _)
  have ha : Act.Caller 2 Public a :=
    .attempt <| .undoable _ (by decide) <| .bind
      (hmutate _ fun _ => .bind (hoffBooks (.rebuild "rebuilt")) fun _ => .pure _) fun _ =>
      hoffBooks (.interrupt "stop")
  have hended : .mutated false ∉ (a h d).2.history.toList := by decide +kernel
  have hreturned : (a h d).1.map (fun _ => ()) = .returned () := by decide +kernel
  obtain ⟨e, w, rfl, rfl, hstack, hrecording, hidle, hheld⟩ := hh.document_held ha (d := d) rfl rfl rfl rfl
  have hnone := hidle fun hfatal => by simp [hfatal, Outcome.map] at hreturned
  obtain ⟨hannounced, hafter⟩ := hheld hended
  exact ⟨rfl, rfl, rfl, rfl, _, _, rfl, rfl, hstack, hrecording, hnone, hannounced, hafter hnone⟩

/-- A mutation that is interrupted loses the document: no mutation is being executed any more, the change
is announced without a document, and the next edit is skipped although shares are to be had. -/
theorem Host.document_lost :
    let h : Host Unit := .silent
    let a : Act Unit (Except String (Except ModelError (Edited Unit))) :=
      Act.attempt <| Act.edit 0 fun s => Act.mutateIn s fun _ => Act.interrupt "stop"
    let d : Desk Unit := { model := { document := some "d" }, coordinators := [{}], client := () }
    let e := (a h d).2
    h.Callers 1 Public ∧ Act.Caller 1 Public a ∧
    e.history.toList = [.call 1 (.acquire .edit), .starting 0 1, .call 1 .aboutToChange, .emitted .aboutToChange,
      .opened 0 1, .runs 0, .call 1 .mutate, .mutated false, .ran 0, .left 0, .call 1 .changed,
      .emitted (.changed none), .call 1 (.release .edit)] ∧
    executing e.history.toList = 0 ∧ e.model.document = none ∧ e.model.available = true ∧
    (Act.edit 0 (fun _ => pure (.ok ()) : Scope → Act Unit (Except ModelError Unit)) h e).1 =
      .returned (.ok (.skipped (.modelUnavailable .unavailable))) := by
  refine ⟨.silent fun _ _ => rfl, ?_, by decide +kernel, by decide +kernel, rfl, rfl, rfl⟩
  exact .attempt <| .edit (by decide) <| .mutateIn (fun ha => .offBooks ha) _ fun _ =>
    .op (.offBooks (.interrupt _))

end FormDesk

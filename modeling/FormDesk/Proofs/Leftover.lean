/-
Recordings that are left over. An undoable edit begins a recording with a
share that it gives back at once, and needs another one to end it. If the
model hands out no shares by then, nobody ends the recording.

Let recording be left to coordinators, and let callers do all else with the
model, the switching of it at any moment included. Where every undoable edit
that has started is through, the model still records exactly when one of them
found it unavailable in the end (`Callers.recordings_end`).
-/
import FormDesk.Proofs.Enclosing
import FormDesk.Proofs.Transition

namespace FormDesk

variable {σ ε α : Type}

namespace Deed

/-- A recording is begun. -/
def begins : Deed → Bool
  | call _ (.beginRecording _) => true
  | _ => false

/-- A recording is ended. -/
def ends : Deed → Bool
  | call _ .endRecording => true
  | _ => false

/-- An undoable edit has started. -/
def starts : Deed → Bool
  | began .. => true
  | _ => false

/-- An undoable edit is through. -/
def finishes : Deed → Bool
  | finished .. => true
  | _ => false

/-- An undoable edit is through, and no shares are handed out to end its recording with. -/
def strands : Deed → Bool
  | finished _ false => true
  | _ => false

/-- A deed that has nothing to do with recordings. -/
def offRecordings : Deed → Bool
  | call _ (.beginRecording _) | call _ .endRecording | began .. | finished .. => false
  | _ => true

theorem of_offRecordings {e : Deed} (h : e.offRecordings = true) :
    e.begins = false ∧ e.ends = false ∧ e.starts = false ∧ e.finishes = false ∧ e.strands = false := by
  cases e with
  | call s c => cases c <;> simp_all [offRecordings, begins, ends, starts, finishes, strands]
  | _ => simp_all [offRecordings, begins, ends, starts, finishes, strands]

theorem offRecordings_of_offBooks {e : Deed} (h : e.offBooks = true) : e.offRecordings = true := by
  cases e with
  | call s c => cases c <;> simp_all [offRecordings, offBooks]
  | _ => simp_all [offRecordings, offBooks]

end Deed

open Deed (begins ends starts finishes strands offRecordings)

/-- How many recordings are open. -/
def Model.recordings (m : Model) : Nat := (m.recording.map (·.inner + 1)).getD 0

/-- Recordings in numbers: how many are open, how many were begun and ended, and how many undoable edits have
started, are through, and found no shares handed out when they were through. -/
structure RecordingCounts where
  recordings : Nat
  begun : Nat
  ended : Nat
  started : Nat
  finished : Nat
  stranded : Nat
  deriving DecidableEq, Repr

/-- Every recording that is open was begun by an undoable edit. Those that are through have ended theirs, but
for those that found no share. -/
structure RecordingCounts.Sound (r : RecordingCounts) : Prop where
  recordings : r.recordings + r.ended = r.begun
  begun : r.begun = r.started
  ended : r.ended + r.stranded = r.finished
  finished_le : r.finished ≤ r.started

namespace Desk

/-! ## What has to do with recordings -/

/-- The recordings of a desk. -/
def counts (d : Desk σ) : RecordingCounts where
  recordings := d.model.recordings
  begun := d.history.toList.countP begins
  ended := d.history.toList.countP ends
  started := d.history.toList.countP starts
  finished := d.history.toList.countP finishes
  stranded := d.history.toList.countP strands

variable {d e f : Desk σ}

/-- Between two desks nothing is done that has to do with recordings. -/
def OffRecordings (d e : Desk σ) : Prop :=
  ∃ w, e.history.toList = d.history.toList ++ w ∧ (∀ x ∈ w, x.offRecordings = true) ∧
    e.model.recording = d.model.recording

theorem OffRecordings.path : Path (OffRecordings (σ := σ)) where
  refl _ := ⟨[], by simp, by simp, rfl⟩
  trans := by
    rintro d e f ⟨w, hw, ha, hr⟩ ⟨v, hv, ha', hr'⟩
    refine ⟨w ++ v, by rw [hv, hw, List.append_assoc], fun x hx => ?_, hr'.trans hr⟩
    rcases List.mem_append.1 hx with hx | hx
    · exact ha x hx
    · exact ha' x hx

theorem OffRecordings.same (hw : e.history = d.history) (hr : e.model.recording = d.model.recording) :
    OffRecordings d e :=
  ⟨[], by simp [hw], by simp, hr⟩

theorem OffRecordings.enter {x : Deed} (hw : e.history.toList = d.history.toList ++ [x])
    (hx : x.offRecordings = true)
    (hr : e.model.recording = d.model.recording) : OffRecordings d e := ⟨[x], hw, by simpa using hx, hr⟩

theorem OffBooks.offRecordings (h : OffBooks d e) : OffRecordings d e :=
  have ⟨w, hw, hoff⟩ := h.deeds
  ⟨w, hw, fun x hx => Deed.offRecordings_of_offBooks (hoff x hx), h.recording⟩

theorem Visit.offRecordings (h : Visit d e) : OffRecordings d e := by
  cases h with
  | acquire h =>
    obtain ⟨-, rfl, rfl⟩ := Model.acquire_ok h
    exact .enter (d.toList_accepted ..) rfl rfl
  | release h =>
    obtain ⟨-, rfl⟩ := Model.release?_some h
    exact .enter (d.toList_accepted ..) rfl rfl
  | client s => exact .same rfl rfl

theorem Passage.offRecordings (h : Passage d e) : OffRecordings d e := by
  cases h with
  | visit h => exact h.offRecordings
  | openBracket h =>
    obtain ⟨-, -, rfl⟩ := Model.openBracket_ok h
    refine ⟨_, by rw [toList_announced, toList_accepted, List.append_assoc], ?_, by rw [model_announced]; rfl⟩
    split <;> simp [offRecordings]
  | closeBracket h =>
    obtain ⟨-, n, -, rfl⟩ := Model.closeBracket_ok h
    refine ⟨_, by rw [toList_announced, toList_accepted, List.append_assoc], ?_, by rw [model_announced]; rfl⟩
    split <;> simp [offRecordings]
  | starting | entered | left | runs | ran | opened => exact .enter (d.toList_enter _) rfl rfl
  | session => exact .same rfl rfl

theorem OffRecordings.counts (h : OffRecordings d e) : e.counts = d.counts := by
  obtain ⟨w, hw, ha, hr⟩ := h
  have hcount (p : Deed → Bool) (hp : ∀ x, x.offRecordings = true → p x = false) :
      e.history.toList.countP p = d.history.toList.countP p := by
    have hzero : w.countP p = 0 := List.countP_eq_zero.2 fun x hx => by simp [hp x (ha x hx)]
    rw [hw, List.countP_append, hzero, Nat.add_zero]
  unfold Desk.counts Model.recordings
  rw [hr, hcount begins fun x hx => (Deed.of_offRecordings hx).1,
    hcount ends fun x hx => (Deed.of_offRecordings hx).2.1,
    hcount starts fun x hx => (Deed.of_offRecordings hx).2.2.1,
    hcount finishes fun x hx => (Deed.of_offRecordings hx).2.2.2.1,
    hcount strands fun x hx => (Deed.of_offRecordings hx).2.2.2.2]

/-! ## Recordings in numbers -/

section

variable {s : Share} {owner : Owner} {label : Option String} {m : Model} {c : CoordinatorId}

theorem counts_begin (h : d.model.beginRecording s owner label = .ok m) :
    (d.accepted s (.beginRecording label) m).counts =
      { d.counts with recordings := d.counts.recordings + 1, begun := d.counts.begun + 1 } := by
  have hrecordings : m.recordings = d.model.recordings + 1 := by
    obtain ⟨-, -, -, rfl⟩ := Model.beginRecording_ok h
    cases hr : d.model.recording <;> simp [Model.recordings, Model.recordingFrom, hr]
  simp [counts, accepted, enter, hrecordings, begins, ends, starts, finishes, strands]

theorem counts_end (h : d.model.endRecording s owner = .ok m) :
    (d.accepted s .endRecording m).counts =
      { d.counts with recordings := d.counts.recordings - 1, ended := d.counts.ended + 1 } := by
  have hrecordings : m.recordings = d.model.recordings - 1 := by
    obtain ⟨-, r, hr, rfl⟩ := Model.endRecording_ok h
    cases hinner : r.inner <;> simp [Model.recordings, Model.recordingEnded, hr, hinner]
  simp [counts, accepted, enter, hrecordings, begins, ends, starts, finishes, strands]

theorem counts_began (d : Desk σ) (c : CoordinatorId) (label : Option String) (document : Option Document)
    (recording : Bool) : (d.enter (.began c label document recording)).counts =
      { d.counts with started := d.counts.started + 1 } := by
  simp [counts, enter, begins, ends, starts, finishes, strands]

theorem counts_finished (d : Desk σ) (c : CoordinatorId) : (d.enter (.finished c true)).counts =
    { d.counts with finished := d.counts.finished + 1 } := by
  simp [counts, enter, begins, ends, starts, finishes, strands]

theorem counts_stranded (d : Desk σ) (c : CoordinatorId) : (d.enter (.finished c false)).counts =
    { d.counts with finished := d.counts.finished + 1, stranded := d.counts.stranded + 1 } := by
  simp [counts, enter, begins, ends, starts, finishes, strands]

theorem counts_editing (d : Desk σ) (c : CoordinatorId) : (d.editing c).counts = d.counts :=
  OffRecordings.counts (.enter (d.toList_editing c) rfl rfl)

theorem counts_edited (d : Desk σ) (c : CoordinatorId) : (d.edited c).counts = d.counts :=
  OffRecordings.counts (.enter (d.toList_edited c) rfl rfl)

@[simp] theorem counts_client (d : Desk σ) (s : σ) : counts { d with client := s } = d.counts := rfl

/-- There is a recording to end as long as more are open than none. -/
theorem recording_of_pos (h : 0 < d.counts.recordings) : ∃ r, d.model.recording = some r := by
  cases hr : d.model.recording with
  | none => simp [counts, Model.recordings, hr] at h
  | some r => exact ⟨r, rfl⟩

end

/-- From a desk with its recordings in order, `k` more undoable edits are running. -/
def MoreUndoable (k : Nat) (d e : Desk σ) : Prop :=
  d.counts.Sound → e.counts.Sound ∧ e.counts.started + d.counts.finished = d.counts.started + e.counts.finished + k

theorem MoreUndoable.trans {j k : Nat} (h : MoreUndoable j d e) (h' : MoreUndoable k e f) :
    MoreUndoable (j + k) d f := by
  intro hd
  obtain ⟨he, hrunning⟩ := h hd
  obtain ⟨hf, hrunning'⟩ := h' he
  exact ⟨hf, by omega⟩

theorem OffRecordings.moreUndoable (h : OffRecordings d e) : MoreUndoable 0 d e := fun hd => by
  rw [h.counts]
  exact ⟨hd, rfl⟩

/-- The contract that every undoable edit that starts comes to its end, with recordings in order. -/
def undoableEnding (σ : Type) : Contract σ where
  ended := MoreUndoable 0
  cut d e := d.counts.Sound → e.counts.Sound
  refl d := (OffRecordings.path.refl d).moreUndoable
  trans h h' := h.trans h'
  halt _ := id
  stop h h' hd := h' (h hd).1

theorem undoableEnding_free : (undoableEnding σ).Free :=
  OffBooks.free (fun h => h.offRecordings.moreUndoable) fun hcut h hd => (h.offRecordings.moreUndoable (hcut hd)).1

end Desk

namespace Act

open Desk (OffRecordings MoreUndoable undoableEnding)

variable {h : Host σ} {c : CoordinatorId} {label : Option String}

/-! ## Undoable edits -/

theorem release_offRecordings (s : Share) (d : Desk σ) : OffRecordings d (release s h d).2 :=
  keeps_contract.1 (release_keeps (K := OffRecordings.path.contract) (fun _ _ hvisit => hvisit.offRecordings) s) d

theorem startRecording_refused {d e : Desk σ} {reason : ModelError}
    (hstart : startRecording c label h d = (.returned (.error reason), e)) : OffRecordings d e := by
  rcases startRecording_ends (h := h) c label d with
    ⟨_, -, hrun⟩ | ⟨s, m, hacquire, ⟨_, -, hrun⟩ | ⟨_, -, hrun⟩⟩
  all_goals
    rw [hrun] at hstart
    cases hstart
  · exact OffRecordings.path.refl d
  · exact OffRecordings.path.trans (Desk.Visit.acquire hacquire).offRecordings (release_offRecordings s _)

/-- A recording that starts is begun. -/
theorem startRecording_counts {d e : Desk σ} (hstart : startRecording c label h d = (.returned (.ok ()), e)) :
    e.counts = { d.counts with recordings := d.counts.recordings + 1, begun := d.counts.begun + 1 } := by
  rcases startRecording_ends (h := h) c label d with
    ⟨_, -, hrun⟩ | ⟨s, m, hacquire, ⟨_, -, hrun⟩ | ⟨_, hbegin, hrun⟩⟩
  all_goals
    rw [hrun] at hstart
    cases hstart
  rw [(release_offRecordings s _).counts, Desk.counts_begin hbegin,
    (Desk.Visit.acquire hacquire).offRecordings.counts]

/-- A recording that is open is ended, unless no shares are handed out. -/
theorem finishRecording_counts {d : Desk σ} (hopen : 0 < d.counts.recordings) :
    (finishRecording c h d).2.counts = if d.model.available then
        { d.counts with
          recordings := d.counts.recordings - 1, ended := d.counts.ended + 1, finished := d.counts.finished + 1 }
      else { d.counts with finished := d.counts.finished + 1, stranded := d.counts.stranded + 1 } := by
  rcases finishRecording_ends (h := h) c d with
    ⟨_, hacquire, hrun⟩ | ⟨s, m, hacquire, ⟨_, hend, hrun⟩ | ⟨m', hend, hrun⟩⟩
  all_goals rw [hrun]
  · simp only [Model.acquire_error hacquire, Desk.counts_client, Desk.counts_stranded, Bool.false_eq_true, if_false]
  · obtain ⟨r, hr⟩ := Desk.recording_of_pos hopen
    have hsame : m.recording = some r := by
      obtain ⟨-, -, rfl⟩ := Model.acquire_ok hacquire
      exact hr
    rw [Model.endRecording_of_live _ (Model.accessOf?_acquire hacquire) hsame] at hend
    cases hend
  · have hvisit : Desk.Visit (d.enter (.finished c true)) _ := .acquire hacquire
    rw [(Model.acquire_ok hacquire).1, (release_offRecordings s _).counts, Desk.counts_end hend,
      hvisit.offRecordings.counts, Desk.counts_finished, if_pos rfl]

/-- An undoable edit ends the recording that it began, if it finds a share. -/
theorem spanning_moreUndoable : Spanning (undoableEnding σ) h c label (MoreUndoable 1) where
  skipped _ hstart := (startRecording_refused hstart).moreUndoable
  started {d e} _ hstart := by
    rintro ⟨h₁, h₂, h₃, h₄⟩
    rw [Desk.counts_editing, Desk.counts_began, startRecording_counts hstart]
    refine ⟨⟨?_, ?_, ?_, ?_⟩, ?_⟩
    all_goals simp only
    all_goals omega
  inside hin hcut hd := hcut (hin hd).1
  finished {d e f} hin hran hd := by
    obtain ⟨⟨h₁, h₂, h₃, h₄⟩, hrunning⟩ := hin.trans hran hd
    have hstarted := hd.finished_le
    -- What has started and is not through has its recording open.
    have hopen : 0 < (f.edited c).counts.recordings := by
      rw [Desk.counts_edited]
      omega
    rw [finishRecording_counts hopen, Desk.counts_edited]
    cases (f.edited c).model.available
    all_goals
      refine ⟨⟨?_, ?_, ?_, ?_⟩, ?_⟩
      all_goals simp only [if_true, Bool.false_eq_true, if_false]
      all_goals omega
  joined _ hran := hran
  joining _ hcut := hcut

end Act

open Act (NoRecordingOp)

variable {n : Nat} {h : Host σ}

/-- Whatever callers do, recordings by hand left out, brings each undoable edit to its end, and keeps
recordings in order. -/
theorem Host.Callers.moreUndoable (hh : h.Callers n NoRecordingOp) {a : Act σ α}
    (ha : Act.Caller n NoRecordingOp a) : a.Keeps (Desk.undoableEnding σ) h := by
  refine hh.keeps (fun h hc => ?_) ha
  have hK := Desk.undoableEnding_free (σ := σ)
  have hs (d e : Desk σ) (hpass : Desk.Passage d e) : (Desk.undoableEnding σ).ended d e :=
    hpass.offRecordings.moreUndoable
  have hd := Act.Keeps.deliver hK hc
  exact {
    op := fun hop => by
      cases hop with
      | offBooks ha => exact ha.keeps hK hc
      | shareOp ha => exact ha.keeps hK hs hc
    mutate := Act.Keeps.mutate hK hc fun _ _ hinHand => hinHand.offBooks.offRecordings.moreUndoable
    withShare := fun access _ hf => Act.withShare_keeps (fun _ _ hvisit => hs _ _ (.visit hvisit)) access hf
    edit := fun _ hm => Act.edit_keeps hs hd _ hm
    undoable := fun _ _ _ hm => Act.spanning_moreUndoable.undoableEdit_keeps hK (Act.edit_keeps hs hd _ hm) }

/-- **Recordings end.** Let there be no recording at first, and let callers record in undoable edits only and
do all else as they will, with any ending. Every undoable edit that has started is through in the end, unless
the run is cut off. Wherever all of them are through, the model has ended as many recordings as were begun,
but for one for each that found no shares handed out when it was through; it records exactly when there was
such a one; and if there was none, nothing but an open bracket bars an undo. -/
theorem Host.Callers.recordings_end (hh : h.Callers n NoRecordingOp) {a : Act σ α}
    (ha : Act.Caller n NoRecordingOp a)
    {d : Desk σ} (hrecording : d.model.recording = none) (hhistory : d.history = #[]) :
    ∃ e w, (a h d).2 = e ∧ e.history.toList = w ∧
      ((a h d).1 ≠ .fatal → w.countP starts = w.countP finishes) ∧
      (w.countP starts = w.countP finishes →
        w.countP begins = w.countP ends + w.countP strands ∧
        (e.model.recording = none ↔ ∀ c, .finished c false ∉ w) ∧
        ((∀ c, .finished c false ∉ w) → e.model.undoBarred = decide (0 < e.model.changing))) := by
  have hd : d.counts = ⟨0, 0, 0, 0, 0, 0⟩ := by simp [Desk.counts, Model.recordings, hrecording, hhistory]
  have hsound : d.counts.Sound := by
    rw [hd]
    exact ⟨rfl, rfl, rfl, Nat.le_refl 0⟩
  have hkept := hh.moreUndoable ha d
  have hafter : (a h d).2.counts.Sound := hkept.elim (fun hended => (hended hsound).1) fun hcut => hcut hsound
  have hthrough : (a h d).1 ≠ .fatal → (a h d).2.counts.started = (a h d).2.counts.finished := fun hfatal => by
    simpa [hd] using (hkept.ended hfatal hsound).2
  refine ⟨_, _, rfl, rfl, hthrough, fun hall => ?_⟩
  generalize (a h d).2 = e at hafter hall ⊢
  obtain ⟨hopen, hbegun, hended, -⟩ := hafter
  have hall : e.counts.started = e.counts.finished := hall
  have hstrands : e.counts.stranded = 0 ↔ ∀ c, .finished c false ∉ e.history.toList := by
    refine List.countP_eq_zero.trans ⟨fun hnot c hmem => hnot _ hmem rfl, fun hnot x hx hstrands => ?_⟩
    cases x with
    | finished c available => cases available <;> first | exact hnot c hx | cases hstrands
    | _ => cases hstrands
  have hrecords : e.model.recording = none ↔ e.counts.recordings = 0 := by
    cases hr : e.model.recording <;> simp [Desk.counts, Model.recordings, hr]
  refine ⟨?_, ?_, fun hnot => ?_⟩
  · change e.counts.begun = e.counts.ended + e.counts.stranded
    omega
  · rw [hrecords, ← hstrands]
    omega
  · have hnone : e.model.recording = none := by
      have := hstrands.2 hnot
      rw [hrecords]
      omega
    simp [Model.undoBarred, hnone]

/-- A listener that hands out no shares for a while and interrupts when it hears of the change: the recording
of the undoable edit ends. -/
theorem Host.Callers.recordings_end_interrupted :
    let h : Host Unit := .interfering do
      Act.setAvailable false
      Act.setAvailable true
      Act.interrupt "stop"
    let append (s : Scope) : Act Unit (Except ModelError Unit) :=
      Act.mutateIn s fun document => pure ((), document ++ "x")
    let a : Act Unit (Except String (Except ModelError (Edited Unit))) :=
      Act.attempt (Act.undoableEdit 0 (some "type") append)
    let d : Desk Unit :=
      { model := { document := some "d", subscriptions := [⟨0, .client 0⟩] }, coordinators := [{}], client := () }
    d.model.recording = none ∧ d.history = #[] ∧
    ∃ e w, (a h d).2 = e ∧ e.history.toList = w ∧ w.countP starts = w.countP finishes ∧
      .threw (.listener 0 (.changed (some "dx"))) ∈ w ∧ w.countP begins = w.countP ends ∧
      e.model.recording = none ∧ e.model.undoBarred = decide (0 < e.model.changing) := by
  intro h append a d
  have hoffBooks {α : Type} {a : Act Unit α} (ha : Act.OffBooksOp a) : Act.Caller 1 NoRecordingOp a :=
    .op (.offBooks ha)
  have hh : h.Callers 1 NoRecordingOp := .interfering <| .bind (hoffBooks (.setAvailable false)) fun _ =>
    .bind (hoffBooks (.setAvailable true)) fun _ => hoffBooks (.interrupt "stop")
  have ha : Act.Caller 1 NoRecordingOp a := .attempt <| .undoable _ (by decide) <|
    .mutateIn (fun ha => .offBooks ha) _ fun _ => .pure _
  have hended : (a h d).1.map (fun _ => ()) = .returned () := by decide +kernel
  obtain ⟨e, w, rfl, rfl, hthrough, hrest⟩ := hh.recordings_end ha (d := d) rfl rfl
  have hall := hthrough fun hfatal => by simp [hfatal, Outcome.map] at hended
  obtain ⟨hcount, hnone, hbarred⟩ := hrest hall
  have hstrands : (a h d).2.history.toList.countP strands = 0 := by decide +kernel
  have hnever : ∀ c, .finished c false ∉ (a h d).2.history.toList := fun c hmem =>
    List.countP_eq_zero.1 hstrands _ hmem rfl
  exact ⟨rfl, rfl, _, _, rfl, rfl, hall, by decide +kernel, by simpa [hstrands] using hcount, hnone.2 hnever,
    hbarred hnever⟩

/-- A mutation after which no shares are handed out for a while: the undoable edit is through, but its recording
stays open. From then on undoing is refused, though shares are to be had again and no bracket is open. -/
theorem Host.recording_left_over :
    let h : Host Unit := .silent
    let a : Act Unit Unit := do
      let _ ← Act.undoableEdit 0 (some "type") fun s => do
        let _ ← Act.mutateIn s fun document => pure ((), document ++ "x")
        Act.setAvailable false
        return (.ok () : Except ModelError Unit)
      Act.setAvailable true
    let d : Desk Unit := { model := { document := some "d" }, coordinators := [{}], client := () }
    let e := (a h d).2
    h.Callers 1 NoRecordingOp ∧ Act.Caller 1 NoRecordingOp a ∧
    e.history.toList = [.call 1 (.acquire .edit), .call 1 (.beginRecording (some "type")), .call 1 (.release .edit),
      .began 0 (some "type") (some "d") false, .edits 0, .call 2 (.acquire .edit), .starting 0 2,
      .call 2 .aboutToChange, .emitted .aboutToChange, .opened 0 2, .runs 0, .call 2 .mutate, .mutated true,
      .emitted (.dirtyChanged true), .availability false true, .ran 0, .left 0, .call 2 .changed,
      .emitted (.changed (some "dx")), .call 2 (.release .edit), .edited 0, .finished 0 false,
      .availability true false] ∧
    e.model.recording.isSome = true ∧ e.model.available = true ∧ e.model.changing = 0 ∧
    (Act.undo h e).1 = .returned none := by
  intro h a d
  have hoffBooks {α : Type} {a : Act Unit α} (ha : Act.OffBooksOp a) : Act.Caller 1 NoRecordingOp a :=
    .op (.offBooks ha)
  refine ⟨.silent fun _ _ => rfl, .bind (.undoable _ (by decide) ?_) fun _ => hoffBooks (.setAvailable true),
    by decide +kernel, by decide +kernel, by decide +kernel, by decide +kernel, by decide +kernel⟩
  exact .bind (.mutateIn (fun ha => .offBooks ha) _ fun _ => .pure _) fun _ =>
    .bind (hoffBooks (.setAvailable false)) fun _ => .pure _

end FormDesk

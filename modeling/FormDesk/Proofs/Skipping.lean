/-
Edits that are skipped. An edit is skipped when its session cannot be opened, and
an undoable edit that records when its recording cannot start. What may be in the
way is little: shares are not handed out, there is no document, or recordings may
not start (`Desk.Skips`, `Desk.SkipsRecording`).

A skipped edit leaves no trace but a notice, and in the ledger a share that was
taken and given back (`Desk.lent`); its mutation does not run. An edit that is not
skipped runs its mutation once, in its session. In particular an undoable edit
whose recording has started is not skipped: nobody is called between the start of
the recording and the opening of the session, and what the first one asks for the
second one finds.
-/
import FormDesk.Proofs.Bystander
import FormDesk.Proofs.Holding
import FormDesk.Proofs.Inlining
import FormDesk.Proofs.Refusal

namespace FormDesk

variable {σ ε α : Type}

/-! ## Shares that are only taken and given back -/

/-- The model after an edit share was taken and given back: the ledger tells, and the number of the next share. -/
def Model.lent (m : Model) : Model :=
  { (m.enter (.acquire .edit)).enter (.release .edit) with nextShare := m.nextShare + 1 }

theorem Model.Numbered.release?_acquire {m m' : Model} {s : Share} (hm : m.Numbered)
    (hacquire : m.acquire .edit = .ok (s, m')) : m'.release? s = some (.edit, m.lent) := by
  have hlive := Model.release?_of_live (s := s) (Model.accessOf?_acquire hacquire)
  obtain ⟨-, rfl, rfl⟩ := Model.acquire_ok hacquire
  have hothers : m.live.filter (·.id != m.nextShare) = m.live :=
    List.filter_eq_self.2 fun t ht => by simpa using Nat.ne_of_lt (hm.below t ht)
  rw [hlive]
  simp [Model.lent, Model.enter, hothers]

namespace Desk

/-- The desk after an edit share was taken and given back, with these deeds in between. -/
def lent (d : Desk σ) (w : List Deed) : Desk σ :=
  { d.later (.call d.model.nextShare (.acquire .edit) :: w ++ [.call d.model.nextShare (.release .edit)]) d.client with
    model := d.model.lent }

/-- Why an edit is skipped, and what is left of it. -/
inductive Skips (h : Host σ) (c : CoordinatorId) (d : Desk σ) : SessionError → Desk σ → Prop
  | unavailable : (d.coordinator c).session = .idle → d.model.available = false →
      Skips h c d (.modelUnavailable .unavailable) (d.noted h (.editAborted (.modelUnavailable .unavailable)))
  | document : (d.coordinator c).session = .idle → d.model.available = true → d.model.document = none →
      Skips h c d (.modelUnavailable .unavailable)
        ((d.lent [.starting c d.model.nextShare]).noted h (.editAborted (.modelUnavailable .unavailable)))

/-- What an undoable edit reports when its recording cannot start. -/
def notRecorded (d : Desk σ) (c : CoordinatorId) (label : Option String) (source : ModelError) : SessionError :=
  .recordingStart (d.coordinator c).tag (label.getD "") source

/-- Why an undoable edit that records is skipped, and what is left of it. -/
inductive SkipsRecording (h : Host σ) (c : CoordinatorId) (label : Option String) (d : Desk σ) :
    SessionError → Desk σ → Prop
  | unavailable : d.model.available = false → SkipsRecording h c label d (d.notRecorded c label .unavailable)
      (d.noted h (.recordingNotStarted (d.notRecorded c label .unavailable)))
  | obstacle {source : ModelError} : d.model.available = true → d.model.NoRecording source →
      SkipsRecording h c label d (d.notRecorded c label source)
        ((d.lent []).noted h (.recordingNotStarted (d.notRecorded c label source)))

end Desk

namespace Act

variable {h : Host σ} {c : CoordinatorId} {label : Option String} {d : Desk σ} {s : Share} {m : Model}

theorem release_lent (hm : d.model.Numbered) (hacquire : d.model.acquire .edit = .ok (s, m)) (w : List Deed) :
    release s h ((d.accepted s (.acquire .edit) m).later w d.client) = (.returned (), d.lent w) := by
  have hrelease := hm.release?_acquire hacquire
  obtain ⟨-, rfl, -⟩ := Model.acquire_ok hacquire
  rw [release_run hrelease]
  simp [Desk.accepted, Desk.enter, Desk.later, Desk.lent]

/-! ## Sessions that cannot be opened -/

theorem startSession_unavailable (havailable : d.model.available = false) :
    startSession c h d = (.returned (.error (.modelUnavailable .unavailable)), d) :=
  bind_run (acquire_refused (Model.acquire_of_unavailable havailable _))

/-- The share that was just taken serves for editing. -/
theorem edits_acquire (hm : d.model.Numbered) (hacquire : d.model.acquire .edit = .ok (s, m)) :
    m.Numbered ∧ m.Edits s.id :=
  ⟨hm.acquire hacquire, (hm.acquire hacquire).accessOf?_some.1 (Model.accessOf?_acquire hacquire)⟩

theorem startSession_empty (hm : d.model.Numbered) (havailable : d.model.available = true)
    (hdocument : d.model.document = none) : startSession c h d =
      (.returned (.error (.modelUnavailable .unavailable)), d.lent [.starting c d.model.nextShare]) := by
  obtain ⟨s, m, hacquire⟩ : ∃ s m, d.model.acquire .edit = .ok (s, m) :=
    ⟨_, _, Model.acquire_of_available havailable .edit⟩
  obtain ⟨hnumbered, hedits⟩ := edits_acquire hm hacquire
  have hrelease := release_lent (h := h) hm hacquire [.starting c s.id]
  obtain ⟨-, hs, hm'⟩ := Model.acquire_ok hacquire
  -- Taking the share leaves the document as it was, so the bracket is refused for want of it.
  have hnone : m.document = none := by
    rw [hm']
    exact hdocument
  have hbarred : m.openBracket s = .error .unavailable :=
    hnumbered.openBracket_error_iff.2 (.inr ⟨hedits, .document hnone⟩)
  have hopen : onInterrupt (openBracket s) (release s) h ((d.accepted s (.acquire .edit) m).enter (.starting c s.id)) =
      (.returned (.error .unavailable), _) := onInterrupt_run (openBracket_refused hbarred)
  rw [startSession, bind_run (acquire_run hacquire)]
  simp only [did_bind, startWith]
  rw [bind_run hopen, Desk.enter_eq_later]
  have hid : s.id = d.model.nextShare := by rw [hs]
  rw [← hid]
  exact bind_run hrelease

theorem Ends.release (s : Share) : Ends h (release s) := fun d => ⟨(), _, release_returned s d, trivial⟩

theorem Ends.openSession (hh : h.ClientsReturn) (c : CoordinatorId) : Ends h (openSession c) := by
  have hacquire : Ends h (acquire .edit) := (Ends.look _).bind fun m => by
    cases m.acquire .edit with
    | error r => exact .pure _
    | ok taken => exact (Ends.change _).bind fun _ => .pure _
  refine (Ends.look _).bind fun session => ?_
  cases session.nest? with
  | some deeper => exact (Ends.look _).bind fun _ => (Ends.change _).bind fun _ => (Ends.change _).bind fun _ => .pure _
  | none =>
    refine hacquire.bind fun taken => ?_
    cases taken with
    | error r => exact .pure _
    | ok share =>
      refine (Ends.change _).bind fun _ => ((Ends.openBracket hh share).onInterrupt _).bind fun opened => ?_
      cases opened with
      | error r => exact (Ends.release share).bind fun _ => .pure _
      | ok _ => exact (Ends.change _).bind fun _ => (Ends.change _).bind fun _ => .pure _

/-- A session that can be opened is opened, unless a client interrupts. -/
theorem openSession_opens (hh : h.ClientsReturn) (hfree : (d.coordinator c).session = .idle →
    d.model.available = true ∧ d.model.document ≠ none) : ∃ e, openSession c h d = (.returned (.ok ()), e) := by
  cases hs : (d.coordinator c).session with
  | active inner s => exact ⟨_, openSession_nested hs⟩
  | idle =>
    obtain ⟨havailable, hdocument⟩ := hfree hs
    obtain ⟨answer, e, hrun⟩ := (Ends.openSession hh c).run d
    cases answer with
    | ok _ => exact ⟨e, hrun⟩
    | error r =>
      obtain hnot | hnone := openSession_error hrun
      · rw [havailable] at hnot
        cases hnot
      · exact absurd hnone hdocument

/-! ## Edits -/

section

variable {mutation : Scope → Act σ (Except ε α)} {reason : SessionError} {e : Desk σ}

theorem edit_refused {d₁ : Desk σ} (hopen : openSession c h d = (.returned (.error reason), d₁)) :
    edit c mutation h d = (.returned (.ok (.skipped reason)), d₁.noted h (.editAborted reason)) :=
  bind_run hopen

/-- A mutation that has run was not skipped. -/
theorem inSession_applied : (inSession c mutation h d).1 ≠ .returned (.ok (.skipped reason)) := by
  intro hskip
  obtain ⟨ended, _, -, hskip⟩ := bind_answer hskip
  cases ended <;> cases hskip

theorem edit_skips (hm : d.model.Numbered) (hskip : d.Skips h c reason e) :
    edit c mutation h d = (.returned (.ok (.skipped reason)), e) := by
  cases hskip with
  | unavailable hs havailable => exact edit_refused ((openSession_idle hs).trans (startSession_unavailable havailable))
  | document hs havailable hdocument =>
    exact edit_refused ((openSession_idle hs).trans (startSession_empty hm havailable hdocument))

/-- An edit that is skipped is skipped for one of the reasons that there are. -/
theorem edit_skipped_for (hskip : (edit c mutation h d).1 = .returned (.ok (.skipped reason))) :
    ∃ reason e, d.Skips h c reason e := by
  cases hs : (d.coordinator c).session with
  | active inner s =>
    rw [edit_nested hs] at hskip
    exact absurd hskip inSession_applied
  | idle =>
    cases havailable : d.model.available with
    | false => exact ⟨_, _, .unavailable hs havailable⟩
    | true =>
      have hwhy := edit_skipped hskip
      rw [havailable] at hwhy
      exact ⟨_, _, .document hs havailable (hwhy.resolve_left nofun)⟩

/-- **When an edit is skipped**, and what is left of it. -/
theorem edit_skips_iff (hm : d.model.Numbered) :
    edit c mutation h d = (.returned (.ok (.skipped reason)), e) ↔ d.Skips h c reason e := by
  refine ⟨fun hrun => ?_, edit_skips hm⟩
  obtain ⟨reason', e', hskip⟩ := edit_skipped_for (congrArg Prod.fst hrun)
  rw [edit_skips hm hskip] at hrun
  cases hrun
  exact hskip

/-- An edit that is not skipped runs its mutation once, in its session. -/
theorem edit_runs (hh : h.ClientsReturn) (hfree : (d.coordinator c).session = .idle →
    d.model.available = true ∧ d.model.document ≠ none) :
    ∃ e, openSession c h d = (.returned (.ok ()), e) ∧ ∀ mutation : Scope → Act σ (Except ε α),
      edit c mutation h d = inSession c mutation h e := by
  obtain ⟨e, hopen⟩ := openSession_opens hh hfree
  exact ⟨e, hopen, fun _ => bind_run hopen⟩

/-! ## Undoable edits -/

/-- Cleaning up goes by what the action came to. -/
theorem ensure_congr {β : Type} {act act' : Act σ β} {last : Act σ Unit} {d d' : Desk σ} (hact : act h d = act' h d') :
    ensure act last h d = ensure act' last h d' := by
  simp only [ensure, hact]

theorem startRecording_unavailable (havailable : d.model.available = false) :
    startRecording c label h d = (.returned (.error .unavailable), d) :=
  bind_run (withShare_refused (Model.acquire_of_unavailable havailable _))

theorem startRecording_barred (hm : d.model.Numbered) (havailable : d.model.available = true) {source : ModelError}
    (hsource : d.model.NoRecording source) :
    startRecording c label h d = (.returned (.error source), d.lent []) := by
  obtain ⟨s, m, hacquire⟩ : ∃ s m, d.model.acquire .edit = .ok (s, m) :=
    ⟨_, _, Model.acquire_of_available havailable .edit⟩
  obtain ⟨hnumbered, hedits⟩ := edits_acquire hm hacquire
  have hrelease : release s h (d.accepted s (.acquire .edit) m) = (.returned (), d.lent []) :=
    (congrArg (release s h) (Desk.later_nil (d := d.accepted s (.acquire .edit) m)).symm).trans
      (release_lent hm hacquire [])
  obtain ⟨-, -, hm'⟩ := Model.acquire_ok hacquire
  have hbarred : m.NoRecording source := by
    rw [hm']
    cases hsource with
    | disabled hrecordable => exact .disabled hrecordable
    | document hrecordable hdocument => exact .document hrecordable hdocument
  have hbegin : m.beginRecording s (.coordinator c) label = .error source :=
    hnumbered.beginRecording_error_iff.2 (.inr ⟨hedits, hbarred⟩)
  have hshare := withShare_run (h := h) (f := fun share => beginRecording share (.coordinator c) label) hacquire
    (beginRecording_refused hbegin)
  rw [hrelease] at hshare
  exact bind_run hshare

/-- A recording that nothing stands in the way of starts, and leaves a model that can be edited. -/
theorem startRecording_starts (c : CoordinatorId) (label : Option String) (havailable : d.model.available = true)
    (hrecordable : d.model.recordable = true) (hdocument : d.model.document ≠ none) :
    ∃ e, startRecording c label h d = (.returned (.ok ()), e) ∧
      e.model.available = true ∧ e.model.document ≠ none := by
  obtain ⟨r, e, hrun, -⟩ | ⟨-, e, hrun, halike⟩ := startRecording_cases (h := h) c label d
  · obtain hnot | hnot | hnone := startRecording_error hrun
    · rw [havailable] at hnot
      cases hnot
    · rw [hrecordable] at hnot
      cases hnot
    · exact absurd hnone hdocument
  · refine ⟨e, hrun, halike.available.trans havailable, ?_⟩
    rw [halike.document]
    exact hdocument

theorem recorded_refused {source : ModelError} {d₁ : Desk σ}
    (hstart : startRecording c label h d = (.returned (.error source), d₁)) : recorded c label mutation h d =
      (.returned (.ok (.skipped (d₁.notRecorded c label source))),
        d₁.noted h (.recordingNotStarted (d₁.notRecorded c label source))) :=
  bind_run hstart

theorem undoableEdit_skips (hm : d.model.Numbered) (hdepth : (d.coordinator c).undoDepth = 0)
    (hskip : d.SkipsRecording h c label reason e) :
    undoableEdit c label mutation h d = (.returned (.ok (.skipped reason)), e) := by
  rw [undoableEdit_recorded hdepth]
  cases hskip with
  | unavailable havailable => exact recorded_refused (startRecording_unavailable havailable)
  | obstacle havailable hsource => exact recorded_refused (startRecording_barred hm havailable hsource)

/-- An undoable edit whose recording can start runs its mutation once, in its session. -/
theorem undoableEdit_runs (hh : h.ClientsReturn) (hdepth : (d.coordinator c).undoDepth = 0)
    (havailable : d.model.available = true) (hrecordable : d.model.recordable = true)
    (hdocument : d.model.document ≠ none) :
    ∃ e, ∀ mutation : Scope → Act σ (Except ε α), undoableEdit c label mutation h d =
      ensure (inSession c mutation) (do did (.edited c); changeUndoDepth c (· - 1); finishRecording c) h e := by
  obtain ⟨d₁, hstart, havailable₁, hdocument₁⟩ :=
    startRecording_starts (h := h) c label havailable hrecordable hdocument
  obtain ⟨e, -, hrun⟩ := edit_runs (ε := ε) (α := α) hh (c := c)
    (d := ((d₁.enter (.began c label d.model.document d.model.recording.isSome)).withUndoDepth c (· + 1)).enter
      (.edits c))
    fun _ => ⟨havailable₁, hdocument₁⟩
  refine ⟨e, fun mutation => ?_⟩
  rw [undoableEdit_recorded hdepth, recorded, look_bind, bind_run hstart]
  exact (ensure_between ..).trans (ensure_congr (hrun mutation))

/-- **When an undoable edit that records is skipped**, and what is left of it. -/
theorem undoableEdit_skips_iff (hm : d.model.Numbered) (hdepth : (d.coordinator c).undoDepth = 0) :
    undoableEdit c label mutation h d = (.returned (.ok (.skipped reason)), e) ↔
      d.SkipsRecording h c label reason e := by
  refine ⟨fun hrun => ?_, undoableEdit_skips hm hdepth⟩
  have hwhy : ∃ reason e, d.SkipsRecording h c label reason e := by
    cases havailable : d.model.available with
    | false => exact ⟨_, _, .unavailable havailable⟩
    | true =>
      cases hrecordable : d.model.recordable with
      | false => exact ⟨_, _, .obstacle havailable (.disabled hrecordable)⟩
      | true =>
        have hnone := undoableEdit_skipped (congrArg Prod.fst hrun)
        simp only [havailable, hrecordable, Bool.true_eq_false, false_or] at hnone
        exact ⟨_, _, .obstacle havailable (.document hrecordable hnone)⟩
  obtain ⟨reason', e', hskip⟩ := hwhy
  rw [undoableEdit_skips hm hdepth hskip] at hrun
  cases hrun
  exact hskip

/-! ### Undoable edits that join another one -/

theorem withUndoDepth_back (d : Desk σ) (c : CoordinatorId) :
    (d.withUndoDepth c (· + 1)).withUndoDepth c (· - 1) = d := by
  have hsame (cs : List Coordinator) : (cs.modify c fun x => { x with undoDepth := x.undoDepth + 1 }).modify c
      (fun x => { x with undoDepth := x.undoDepth - 1 }) = cs := by
    rw [List.modify_modify_eq]
    exact List.modify_id c cs
  simp only [Desk.withUndoDepth, Desk.withCoordinator, hsame]

theorem session_withUndoDepth (d : Desk σ) (c : CoordinatorId) (f : Nat → Nat) :
    ((d.withUndoDepth c f).coordinator c).session = (d.coordinator c).session := by
  simp only [Desk.withUndoDepth, Desk.withCoordinator, Desk.coordinator, List.getElem?_modify_eq]
  cases d.coordinators[c]? <;> rfl

/-- How many undoable edits are open makes no difference to why an edit is skipped. -/
theorem skips_withUndoDepth (f : Nat → Nat) (hskip : d.Skips h c reason e) :
    (d.withUndoDepth c f).Skips h c reason (e.withUndoDepth c f) := by
  have hsession := session_withUndoDepth d c f
  cases hskip with
  | unavailable hs havailable => exact .unavailable (hsession.trans hs) havailable
  | document hs havailable hdocument => exact .document (hsession.trans hs) havailable hdocument

theorem undoableEdit_joined_skips (hm : d.model.Numbered) (hdepth : 0 < (d.coordinator c).undoDepth)
    (hskip : d.Skips h c reason e) :
    undoableEdit c label mutation h d = (.returned (.ok (.skipped reason)), e) := by
  have hedit : edit c mutation h (d.withUndoDepth c (· + 1)) = (.returned (.ok (.skipped reason)), _) :=
    edit_skips hm (skips_withUndoDepth (· + 1) hskip)
  rw [undoableEdit_joined hdepth, counted, changeUndoDepth, change_bind]
  refine (ensure_run hedit rfl).trans ?_
  exact congrArg (Prod.mk _) (withUndoDepth_back e c)

/-- **An undoable edit that joins another one is skipped** as an edit is. -/
theorem undoableEdit_joined_skips_iff (hm : d.model.Numbered) (hdepth : 0 < (d.coordinator c).undoDepth) :
    undoableEdit c label mutation h d = (.returned (.ok (.skipped reason)), e) ↔ d.Skips h c reason e := by
  refine ⟨fun hrun => ?_, undoableEdit_joined_skips hm hdepth⟩
  have hedit : (edit c mutation h (d.withUndoDepth c (· + 1))).1 = .returned (.ok (.skipped reason)) := by
    rw [undoableEdit_joined hdepth] at hrun
    exact ensure_answer (congrArg Prod.fst hrun)
  obtain ⟨reason', e', hskip⟩ := edit_skipped_for hedit
  have hskip := withUndoDepth_back d c ▸ skips_withUndoDepth (· - 1) hskip
  rw [undoableEdit_joined_skips hm hdepth hskip] at hrun
  cases hrun
  exact hskip

end

end Act

namespace Host.Callers

variable {n : Nat} {h : Host σ}

/-- **A skipped edit leaves no trace, and edits are skipped for their reasons alone.** At every moment of
whatever is done with a new model, an edit is skipped exactly as `Desk.Skips` says, and so is an undoable edit
that joins another one; an undoable edit that records is skipped exactly as `Desk.SkipsRecording` says.
Otherwise, if the clients that are called return, it runs its mutation once, in its session. -/
theorem skips_untraced (hh : h.Callers n (Act.DeskOp Act.PublicOrClear)) {a : Act σ α}
    (ha : Act.Caller n (Act.DeskOp Act.PublicOrClear) a) {document : Option Document} {location : String}
    {d e : Desk σ} (hmodel : d.model = { document, location }) (hhistory : d.history = #[]) (hrun : (a h d).2 = e)
    (k : Host σ) (c : CoordinatorId) {ε β : Type} :
    (∀ (mutation : Scope → Act σ (Except ε β)) reason f,
      Act.edit c mutation k e = (.returned (.ok (.skipped reason)), f) ↔ e.Skips k c reason f) ∧
    (k.ClientsReturn → ((e.coordinator c).session = .idle → e.model.available = true ∧ e.model.document ≠ none) →
      ∃ f, Act.openSession c k e = (.returned (.ok ()), f) ∧
        ∀ mutation : Scope → Act σ (Except ε β), Act.edit c mutation k e = Act.inSession c mutation k f) ∧
    ((e.coordinator c).undoDepth = 0 → ∀ label,
      (∀ (mutation : Scope → Act σ (Except ε β)) reason f,
        Act.undoableEdit c label mutation k e = (.returned (.ok (.skipped reason)), f) ↔
          e.SkipsRecording k c label reason f) ∧
      (k.ClientsReturn → e.model.available = true → e.model.recordable = true → e.model.document ≠ none →
        ∃ f, ∀ mutation : Scope → Act σ (Except ε β), Act.undoableEdit c label mutation k e =
          Act.ensure (Act.inSession c mutation)
            (do Act.did (.edited c); Act.changeUndoDepth c (· - 1); Act.finishRecording c) k f)) ∧
    (0 < (e.coordinator c).undoDepth → ∀ label (mutation : Scope → Act σ (Except ε β)) reason f,
      Act.undoableEdit c label mutation k e = (.returned (.ok (.skipped reason)), f) ↔ e.Skips k c reason f) := by
  have he : e.Audited := hrun ▸ hh.audited ha d (.new hmodel hhistory)
  have hm := he.numbering.live
  refine ⟨fun _ _ _ => Act.edit_skips_iff hm, Act.edit_runs, fun hdepth label => ⟨fun _ _ _ =>
    Act.undoableEdit_skips_iff hm hdepth, fun hk => Act.undoableEdit_runs hk hdepth⟩, fun hdepth _ _ _ _ =>
      Act.undoableEdit_joined_skips_iff hm hdepth⟩

/-- While a mutation has the document in hand, another coordinator's edits are skipped; one inside its own session is
not. -/
theorem skips_untraced_midway :
    let h : Host Unit := .silent
    let a : Act Unit (Except ModelError (Edited Unit)) := Act.edit 0 fun s => Act.mutateIn s fun _ => Act.halt
    let d : Desk Unit := { model := { document := some "d", location := "f" }, coordinators := [{}, {}], client := () }
    let e := (a h d).2
    let aborted : SessionError := .modelUnavailable .unavailable
    let barred : SessionError := .recordingStart standardTag "x" (.notRecordable .noDocument)
    e.model.document = none ∧
      (∀ mutation : Scope → Act Unit (Except Unit Unit), Act.edit 1 mutation h e =
        (.returned (.ok (.skipped aborted)), (e.lent [.starting 1 2]).noted h (.editAborted aborted))) ∧
      (∀ mutation : Scope → Act Unit (Except Unit Unit), Act.undoableEdit 1 (some "x") mutation h e =
        (.returned (.ok (.skipped barred)), (e.lent []).noted h (.recordingNotStarted barred))) ∧
      ∃ f, ∀ mutation : Scope → Act Unit (Except Unit Unit), Act.edit 0 mutation h e = Act.inSession 0 mutation h f := by
  intro h a d e aborted barred
  have hh : h.Callers 1 (Act.DeskOp Act.PublicOrClear) := .silent fun _ _ => rfl
  have ha : Act.Caller 1 (Act.DeskOp Act.PublicOrClear) a :=
    .edit (by decide) <| .mutateIn (fun ha => .hand (.hand (.offBooks ha))) _ fun _ =>
      .op (.hand (.hand (.offBooks .halt)))
  have hdocument : e.model.document = none := by decide +kernel
  have havailable : e.model.available = true := by decide +kernel
  have hrecordable : e.model.recordable = true := by decide +kernel
  obtain ⟨hedit, -, hundoable, -⟩ := hh.skips_untraced ha (d := d) rfl rfl rfl h 1 (ε := Unit) (β := Unit)
  obtain ⟨-, hruns, -⟩ := hh.skips_untraced ha (d := d) rfl rfl rfl h 0 (ε := Unit) (β := Unit)
  obtain ⟨f, -, hinside⟩ := hruns .silent fun hidle => absurd hidle (by decide +kernel)
  exact ⟨hdocument, fun _ => (hedit _ _ _).2 (.document (by decide +kernel) havailable hdocument),
    fun _ => ((hundoable (by decide +kernel) (some "x")).1 _ _ _).2
      (.obstacle havailable (.document hrecordable hdocument)), f, hinside⟩

end Host.Callers

end FormDesk

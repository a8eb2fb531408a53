/-
Replays on paper. What a replay reports can be told with a document and a
stack of earlier documents alone: an edit appends its text, whatever it is
nested in and however it ends, and shows the document once; an undo shows the
document from before the latest labelled edit. Every step takes the desk from
where the paper stands to where it stands after the step (`replayStep_leads`),
so the whole replay comes to the report on paper (`run_on_paper`).
-/
import FormDesk.Proofs.Opening

namespace FormDesk

/-! ## On paper -/

/-- The document after the text of a step. -/
def ScriptStep.write (step : ScriptStep) (document : Document) : Document :=
  step.append.elim document (document ++ ·)

/-- What an edit answers. -/
def ScriptStep.ending (step : ScriptStep) : Except StepFault Unit :=
  if step.fail then .error .requested else .ok ()

/-- The document, and for each labelled edit that can be taken back its label and the document before it,
the latest first. -/
structure Paper where
  document : Document
  saved : List (String × Document) := []
  deriving DecidableEq, Repr

namespace Paper

/-- A step on paper: what becomes of it, the documents that are shown, and the paper after it. -/
def step (p : Paper) (step : ScriptStep) : StepOutcome × List Document × Paper :=
  if step.undo then
    match p.saved with
    | [] => (.nothingToUndo, [], p)
    | (label, before) :: rest => (.undone (some label), [before], ⟨before, rest⟩)
  else
    let document := step.write p.document
    let saved := match step.label with
      | none => p.saved
      | some label => (label, p.document) :: p.saved
    (if step.fail then .failed .requested else .applied, [document], ⟨document, saved⟩)

/-- Steps on paper, one after another. -/
def steps (p : Paper) : List ScriptStep → List StepOutcome × List Document × Paper
  | [] => ([], [], p)
  | step :: rest =>
    let (outcome, shown, p) := p.step step
    let (outcomes, later, p) := p.steps rest
    (outcome :: outcomes, shown ++ later, p)

end Paper

/-- The counters after a replay of steps: each edit takes one share and opens one bracket, and a labelled one
takes two more shares for its recording. -/
def Tally.replayed (t : Tally) (steps : List ScriptStep) : Tally :=
  let edits := steps.countP fun step => !step.undo
  let recorded := steps.countP fun step => !step.undo && step.label.isSome
  let written := steps.countP fun step => !step.undo && step.append.isSome
  { t with
    acquiredEdit := t.acquiredEdit + (edits + 2 * recorded)
    released := t.released + (edits + 2 * recorded)
    aboutToChange := t.aboutToChange + edits
    changed := t.changed + edits
    beginRecording := t.beginRecording + recorded
    endRecording := t.endRecording + recorded
    mutations := t.mutations + written }

/-- The report on a script, on paper. -/
def Script.report (script : Script) (settings : Settings) : Report :=
  let (outcomes, shown, paper) := Paper.steps { document := script.document } script.steps
  { refreshes := script.document :: shown
    steps := outcomes
    tally :=
      Tally.replayed { acquiredRead := 2, released := 2, subscribed := 1, unsubscribed := 1 } script.steps
    undoLabels := (paper.saved.map fun entry => some entry.1).reverse
    document := paper.document
    notices := settings.openingNotices }

/-! ## Steps -/

/-- The console after documents were shown. -/
def Console.show (c : Console) (documents : List Document) : Console :=
  { c with displayed := c.displayed ++ documents.toArray }

@[simp] theorem Console.show_nil (c : Console) : c.show [] = c := by simp [Console.show]

theorem Console.show_show (c : Console) (documents later : List Document) :
    (c.show documents).show later = c.show (documents ++ later) := by simp [Console.show]

theorem Tally.replayed_cons (t : Tally) (step : ScriptStep) (rest : List ScriptStep) :
    (t.replayed [step]).replayed rest = t.replayed (step :: rest) := by
  simp only [Tally.replayed, List.countP_cons, List.countP_nil, Tally.mk.injEq, true_and]
  omega

/-- What disposing of the editor counts is the same before and after steps. -/
theorem Tally.replayed_disposed (t : Tally) (steps : List ScriptStep) :
    (((t.replayed steps).count (.acquire .read)).count .unsubscribe).count (.release .read) =
      (((t.count (.acquire .read)).count .unsubscribe).count (.release .read)).replayed steps := by
  simp only [Tally.replayed, Tally.count, Nat.add_right_comm]

theorem Console.hear_changed (c : Console) (document : Document) :
    c.hear (.changed (some document)) = c.show [document] := by
  simp [Console.hear, Console.show]

/-- The standing between steps; its shares are numbered from `n` on. -/
def Paper.standing (p : Paper) (n : Nat) (t : Tally) (c : Console) : Standing where
  document := some p.document
  nextShare := n
  stack := p.saved.map fun entry => ⟨some entry.1, .coordinator 0, some entry.2⟩
  tally := t
  console := c

/-- The standing with the text of a step in the document. -/
def Standing.written (b : Standing) (step : ScriptStep) : Standing :=
  { b with
    document := b.document.map step.write
    tally := if step.append.isSome then b.tally.count .mutate else b.tally }

namespace Act

variable {s b : Standing} (step : ScriptStep)

theorem editOf_leads {document : Document} (hdocument : b.document = some document) (k : Nat) :
    Leads (b.deep (k + 1)) (editOf step ⟨0⟩) step.ending ((b.written step).deep (k + 1)) := by
  cases happend : step.append with
  | none =>
    have hsame : b.written step = b := by
      simp [Standing.written, ScriptStep.write, happend, hdocument]
      rw [← hdocument]
    rw [hsame]
    simp only [editOf, happend]
    exact .pure _
  | some text =>
    have hwritten : b.written step =
        { b with document := some (document ++ text), tally := b.tally.count .mutate } := by
      simp [Standing.written, ScriptStep.write, happend, hdocument]
    have hmutate := mutate_leads (s := b.deep (k + 1)) rfl rfl rfl hdocument (· ++ text)
    have happended :
        Leads (b.deep (k + 1)) (appendText ⟨0⟩ text) (.ok ()) ((b.written step).deep (k + 1)) := by
      rw [hwritten]
      exact (scopeShare_leads rfl).bind hmutate
    simp only [editOf, happend]
    exact happended.bind (.pure _)

/-- Nested or not, the edit is made once, and no session is left open that was not open before. -/
theorem nestedEdit_leads {document : Document} (hdocument : b.document = some document) :
    ∀ n k, ∃ k' ≤ k + 1, Leads (b.deep (k + 1)) (nestedEdit step n ⟨0⟩) step.ending ((b.written step).deep k')
  | 0, k => ⟨k + 1, Nat.le_refl _, editOf_leads step hdocument k⟩
  | n + 1, k => by
    obtain ⟨k', hk', hinner⟩ := nestedEdit_leads hdocument n (min (k + 1) (maxDepth - 1))
    refine ⟨k' - 1, by omega, (edit_leads (openSession_leads k) hinner).bind ?_⟩
    cases step.ending <;> exact .pure _

/-- An edit at rest makes one change, however deep its sessions are nested. -/
theorem edit_rest_leads (hb : b.Rest) {document : Document} (hdocument : b.document = some document) :
    Leads b (edit 0 (nestedEdit step step.nested)) (step.ending.map .applied) ((b.written step).deep 0) := by
  have hopen := openSession_rest_leads hb (by rw [hdocument]; rfl)
  obtain ⟨k, hk, hnested⟩ := nestedEdit_leads step hdocument step.nested 0
  have hedit := edit_leads hopen hnested
  rw [Nat.sub_eq_zero_of_le hk] at hedit
  exact hedit

theorem ofEdit_ending : StepOutcome.ofEdit (step.ending.map .applied) =
    if step.fail then .failed .requested else .applied := by
  unfold ScriptStep.ending
  cases step.fail <;> rfl

variable (p : Paper) (n : Nat) (t : Tally) (c : Console)

theorem replayStep_undo_leads (hundo : step.undo = true) :
    Leads (p.standing n t c) (replayStep 0 step) (p.step step).1
      ((p.step step).2.2.standing n (t.replayed [step]) (c.show (p.step step).2.1)) := by
  obtain ⟨document, saved⟩ := p
  have hcount : t.replayed [step] = t := by simp [Tally.replayed, hundo]
  rw [hcount]
  simp only [replayStep, Paper.step, hundo, if_true]
  cases saved with
  | nil =>
    rw [Console.show_nil]
    exact (undo_nothing_leads rfl rfl rfl).bind (.pure _)
  | cons latest rest =>
    rw [← Console.hear_changed]
    exact (undo_leads rfl rfl rfl).bind (.pure _)

theorem replayStep_edit_leads (hundo : step.undo = false) (hlabel : step.label = none) :
    Leads (p.standing n t c) (replayStep 0 step) (p.step step).1
      ((p.step step).2.2.standing (n + 1) (t.replayed [step]) (c.show (p.step step).2.1)) := by
  have hedit := edit_rest_leads step (b := p.standing n t c) ⟨rfl, rfl, rfl⟩ rfl
  have hend : ((p.standing n t c).written step).deep 0 =
      Paper.standing ⟨step.write p.document, p.saved⟩ (n + 1) (t.replayed [step])
        (c.show [step.write p.document]) := by
    cases happend : step.append <;>
      simp [Standing.written, Standing.deep, Paper.standing, Tally.replayed, Tally.count,
        Console.hear_changed, hundo, hlabel, happend]
  rw [hend] at hedit
  simp only [replayStep, Paper.step, hundo, hlabel, Bool.false_eq_true, if_false, ← ofEdit_ending]
  exact hedit.bind (.pure _)

theorem replayStep_labelled_leads (hundo : step.undo = false) {label : String}
    (hlabel : step.label = some label) :
    Leads (p.standing n t c) (replayStep 0 step) (p.step step).1
      ((p.step step).2.2.standing (n + 3) (t.replayed [step]) (c.show (p.step step).2.1)) := by
  have hedit :=
    edit_rest_leads step (b := { (p.standing n t c).begun label with undoDepth := 1 }) ⟨rfl, rfl, rfl⟩ rfl
  have hundoable := undoableEdit_leads (s := p.standing n t c) rfl rfl rfl rfl hedit rfl rfl
  have hend : ({
      (({ (p.standing n t c).begun label with undoDepth := 1 } : Standing).written step).deep 0 with
      undoDepth := 1 - 1 } : Standing).ended ⟨some label, .coordinator 0, some p.document⟩ =
      Paper.standing ⟨step.write p.document, (label, p.document) :: p.saved⟩ (n + 3) (t.replayed [step])
        (c.show [step.write p.document]) := by
    cases happend : step.append <;>
      simp [Standing.begun, Standing.written, Standing.deep, Standing.ended, Paper.standing, Tally.replayed,
        Tally.count, Console.hear_changed, hundo, hlabel, happend]
  have hreached := hend ▸ hundoable
  simp only [replayStep, Paper.step, hundo, hlabel, Bool.false_eq_true, if_false, ← ofEdit_ending]
  exact hreached.bind (.pure _)

theorem replayStep_leads : ∃ n', Leads (p.standing n t c) (replayStep 0 step) (p.step step).1
    ((p.step step).2.2.standing n' (t.replayed [step]) (c.show (p.step step).2.1)) := by
  cases hundo : step.undo with
  | true => exact ⟨n, replayStep_undo_leads step p n t c hundo⟩
  | false =>
    cases hlabel : step.label with
    | none => exact ⟨n + 1, replayStep_edit_leads step p n t c hundo hlabel⟩
    | some label => exact ⟨n + 3, replayStep_labelled_leads step p n t c hundo hlabel⟩

/-- **Steps lead where they lead on paper.** -/
theorem replaySteps_leads : ∀ (steps : List ScriptStep) (p : Paper) (n : Nat) (t : Tally) (c : Console),
    ∃ n', Leads (p.standing n t c) (replaySteps 0 steps) (p.steps steps).1
      ((p.steps steps).2.2.standing n' (t.replayed steps) (c.show (p.steps steps).2.1))
  | [], p, n, t, c => ⟨n, by rw [Paper.steps, Console.show_nil]; exact .pure _⟩
  | step :: rest, p, n, t, c => by
    obtain ⟨n₁, hstep⟩ := replayStep_leads step p n t c
    obtain ⟨n₂, hrest⟩ :=
      replaySteps_leads rest (p.step step).2.2 n₁ (t.replayed [step]) (c.show (p.step step).2.1)
    rw [Tally.replayed_cons, Console.show_show] at hrest
    exact ⟨n₂, hstep.bind (hrest.bind (.pure _))⟩

end Act

/-- The report tells where the replay stands in the end. -/
theorem Report.ofDesk_standing (d : Desk Console) (steps : List StepOutcome) :
    Report.ofDesk d steps = {
      refreshes := d.standing.console.displayed.toList
      steps
      tally := d.standing.tally
      undoLabels := (d.standing.stack.map (·.label)).reverse
      document := d.standing.document.getD ""
      notices := d.standing.console.notices.toList } := rfl

/-- **Replays go as on paper.** Whatever the script and the settings, the replay returns, and its report is the
one that is told on paper. -/
theorem Script.run_on_paper (script : Script) (settings : Settings) :
    script.run settings = .returned (.ok (script.report settings)) := by
  obtain ⟨d₁, hopen, hd₁⟩ := Act.openEditor_at script settings
  obtain ⟨n, hleads⟩ := Act.replaySteps_leads script.steps { document := script.document } 2
    { acquiredRead := 1, released := 1, subscribed := 1 }
    { displayed := #[script.document], notices := settings.openingNotices.toArray }
  obtain ⟨d₂, hsteps, hd₂⟩ := hleads d₁ hd₁
  obtain ⟨d₃, hdispose, hd₃⟩ := Act.disposeEditor_at hd₂ rfl
  have hreplay : Act.replay script settings Console.host script.desk =
      (.returned (.ok (Paper.steps { document := script.document } script.steps).1), d₃) := by
    refine (Act.bind_run (Act.makeEditor_staffs script settings)).trans ((Act.bind_run hopen).trans ?_)
    simp only [Act.look_bind, hd₁.attended.coordinator]
    exact (Act.bind_run hsteps).trans (Act.bind_run hdispose)
  have hreport : Report.ofDesk d₃ (Paper.steps { document := script.document } script.steps).1 =
      script.report settings := by
    have htally : (((Tally.replayed { acquiredRead := 1, released := 1, subscribed := 1 } script.steps).count
        (.acquire .read)).count .unsubscribe).count (.release .read) =
          Tally.replayed { acquiredRead := 2, released := 2, subscribed := 1, unsubscribed := 1 }
            script.steps :=
      Tally.replayed_disposed _ _
    rw [Report.ofDesk_standing, hd₃]
    simpa [Script.report, Paper.standing, Console.show] using htally
  simp only [Script.run, hreplay, Outcome.map, Except.map, hreport]

example :
    let script : Script :=
      { steps := [{ append := some "x", label := some "Add x", fail := true }, { undo := true },
        { undo := true }] }
    (script.report {}).steps = [.failed .requested, .undone (some "Add x"), .nothingToUndo] ∧
      (script.report {}).refreshes = ["", "x", ""] := by
  decide

end FormDesk

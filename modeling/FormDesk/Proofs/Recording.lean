/-
Recordings. An undoable edit that starts to record while the model does not
leaves one segment on the undo stack; one that joins a recording leaves none,
and neither does any other step of editing. So what clients do adds to the
stack the segments that its deeds tell of, the latest first
(`Stacks`), and undoing takes these back one by one (`takenBack`).

For this the model must hand out the share with which a recording ends: it may
not be made unavailable while an undoable edit is running.
-/
import FormDesk.Proofs.Balance

namespace FormDesk

variable {σ ε α : Type}

/-- The segment that an undoable edit leaves when it starts to record and the model was not recording. -/
def Deed.segment? : Deed → Option Segment
  | began id label document false => some ⟨label, .coordinator id, document⟩
  | _ => none

/-- The segments that deeds tell of, the earliest first. -/
def Deed.segments (w : List Deed) : List Segment := w.filterMap Deed.segment?

/-- No client interrupts, and the model is not made unavailable while an undoable edit is running. -/
def Deed.Steady (w : List Deed) : Prop := (∀ c, .threw c ∉ w) ∧ .availability false true ∉ w

open Deed (segments Steady)

@[simp] theorem Deed.segments_append (w v : List Deed) : segments (w ++ v) = segments w ++ segments v :=
  List.filterMap_append

theorem Deed.Steady.split {w v : List Deed} (h : Steady (w ++ v)) : Steady w ∧ Steady v := by
  simp only [Steady, List.mem_append, not_or] at h
  exact ⟨⟨fun c => (h.1 c).1, h.2.1⟩, ⟨fun c => (h.1 c).2, h.2.2⟩⟩

namespace Desk

/-- The deeds `w` put their segments on the undo stack, and leave what recordings depend on. -/
structure Stacks (w : List Deed) (d e : Desk σ) : Prop where
  size : e.coordinators.length = d.coordinators.length
  depth : ∀ c, (e.coordinator c).undoDepth = (d.coordinator c).undoDepth
  available : d.undoing = true → d.model.available = true → e.model.available = true
  recording : e.model.recording = d.model.recording
  stack : e.model.undoStack = (segments w).reverse ++ d.model.undoStack
  joined : d.model.recording.isSome = true → segments w = []

/-- What `undoing` looks at. -/
theorem undoing_iff (d : Desk σ) : d.undoing = true ↔ ∃ c, 0 < (d.coordinator c).undoDepth := by
  simp only [undoing, List.any_eq_true, decide_eq_true_eq, coordinator]
  constructor
  · rintro ⟨x, hx, hpos⟩
    obtain ⟨c, hc⟩ := List.mem_iff_getElem?.1 hx
    exact ⟨c, by rw [hc]; exact hpos⟩
  · rintro ⟨c, hpos⟩
    cases hget : d.coordinators[c]? with
    | none => simp [hget] at hpos
    | some x => exact ⟨x, List.mem_of_getElem? hget, by simpa [hget] using hpos⟩

theorem undoing_congr {d e : Desk σ} (h : ∀ c, (e.coordinator c).undoDepth = (d.coordinator c).undoDepth) :
    e.undoing = d.undoing := by
  rw [Bool.eq_iff_iff, undoing_iff, undoing_iff]
  simp only [h]

theorem Stacks.trans {d e f : Desk σ} {w v : List Deed} (h : Stacks w d e) (h' : Stacks v e f) :
    Stacks (w ++ v) d f where
  size := h'.size.trans h.size
  depth c := (h'.depth c).trans (h.depth c)
  available hundoing havailable :=
    h'.available (by rw [undoing_congr h.depth]; exact hundoing) (h.available hundoing havailable)
  recording := h'.recording.trans h.recording
  stack := by rw [h'.stack, h.stack]; simp
  joined hrecording := by
    rw [Deed.segments_append, h.joined hrecording, h'.joined (by rw [h.recording]; exact hrecording)]
    rfl

/-- Steps that change nothing of what recordings depend on. -/
theorem Stacks.still {d e : Desk σ} {w : List Deed} (hw : segments w = [])
    (hsize : e.coordinators.length = d.coordinators.length)
    (hdepth : ∀ c, (e.coordinator c).undoDepth = (d.coordinator c).undoDepth)
    (havailable : e.model.available = d.model.available) (hrecording : e.model.recording = d.model.recording)
    (hstack : e.model.undoStack = d.model.undoStack) : Stacks w d e :=
  ⟨hsize, hdepth, fun _ h => havailable.trans h, hrecording, by rw [hw, hstack]; rfl, fun _ => hw⟩

/-- Between two desks with `n` coordinators the undo stack grows by the segments of steady deeds. -/
def Stacking (n : Nat) (d e : Desk σ) : Prop :=
  ∃ w, e.history.toList = d.history.toList ++ w ∧ (Steady w → d.coordinators.length = n → Stacks w d e)

theorem Stacking.path (n : Nat) : Path (Stacking (σ := σ) n) where
  refl d := ⟨[], by simp, fun _ _ => .still rfl rfl (fun _ => rfl) rfl rfl rfl⟩
  trans := by
    rintro d e f ⟨w, hw, h⟩ ⟨v, hv, h'⟩
    refine ⟨w ++ v, by rw [hv, hw, List.append_assoc], fun hsteady hn => ?_⟩
    obtain ⟨hsw, hsv⟩ := hsteady.split
    have hstacks := h hsw hn
    exact hstacks.trans (h' hsv (hstacks.size.trans hn))

/-! ## Steps -/

/-- Deeds without a segment that leave the coordinators and what recordings depend on in the model. -/
theorem Stacking.other {n : Nat} {d e : Desk σ} {w : List Deed}
    (hw : e.history.toList = d.history.toList ++ w)
    (hs : segments w = []) (hc : e.coordinators = d.coordinators)
    (havailable : e.model.available = d.model.available) (hrecording : e.model.recording = d.model.recording)
    (hstack : e.model.undoStack = d.model.undoStack) : Stacking n d e :=
  ⟨w, hw, fun _ _ => .still hs (by rw [hc]) (fun c => by rw [coordinator, hc, coordinator]) havailable
    hrecording hstack⟩

theorem undoDepth_withSession (d : Desk σ) (id c : CoordinatorId) (s : Sessions) :
    ((d.withSession id s).coordinator c).undoDepth = (d.coordinator c).undoDepth := by
  simp only [coordinator, withSession, withCoordinator, List.getElem?_modify]
  cases d.coordinators[c]? with
  | none => rfl
  | some x => by_cases hid : id = c <;> simp [hid]

/-- The count of undoable edits of a coordinator changes, and no other. -/
theorem undoDepth_withUndoDepth {d : Desk σ} {id : CoordinatorId} (hid : id < d.coordinators.length)
    (f : Nat → Nat) (c : CoordinatorId) :
    ((d.withUndoDepth id f).coordinator c).undoDepth =
      if id = c then f (d.coordinator c).undoDepth else (d.coordinator c).undoDepth := by
  simp only [coordinator, withUndoDepth, withCoordinator, List.getElem?_modify]
  by_cases hc : id = c
  · subst hc
    simp [hid]
  · cases d.coordinators[c]? <;> simp [hc]

theorem Step.stacking {n : Nat} {d e : Desk σ} (h : Step d e) : Stacking n d e := by
  cases h with
  | acquire h =>
    obtain ⟨-, rfl, rfl⟩ := Model.acquire_ok h
    exact .other (toList_accepted ..) rfl rfl rfl rfl rfl
  | release h =>
    obtain ⟨-, rfl⟩ := Model.release?_some h
    exact .other (toList_accepted ..) rfl rfl rfl rfl rfl
  | openBracket h =>
    obtain ⟨-, -, rfl⟩ := Model.openBracket_ok h
    refine .other (by rw [toList_announced, toList_accepted, List.append_assoc]) ?_ ?_ ?_ ?_ ?_
    all_goals cases hn : d.model.changing <;> simp [announced] <;> rfl
  | closeBracket h =>
    obtain ⟨-, n, -, rfl⟩ := Model.closeBracket_ok h
    refine .other (by rw [toList_announced, toList_accepted, List.append_assoc]) ?_ ?_ ?_ ?_ ?_
    all_goals cases n <;> rfl
  | takeDocument h =>
    obtain ⟨-, -, -, rfl⟩ := Model.takeDocument_ok h
    exact .other (toList_accepted ..) rfl rfl rfl rfl rfl
  | putDocument | lost | dirtied | told | threw | starting | entered | left | runs | ran | opened =>
    exact .other (toList_enter ..) rfl rfl rfl rfl rfl
  | client => exact .other (List.append_nil _).symm rfl rfl rfl rfl rfl
  | session id s =>
    refine ⟨[], (List.append_nil _).symm, fun _ _ =>
      .still rfl ?_ (d.undoDepth_withSession id · s) rfl rfl rfl⟩
    exact List.length_modify ..

/-- Desks that only shares and the ledger tell apart. -/
structure Alike (d e : Desk σ) : Prop where
  deeds : ∃ w, e.history.toList = d.history.toList ++ w ∧ segments w = []
  coordinators : e.coordinators = d.coordinators
  document : e.model.document = d.model.document
  available : e.model.available = d.model.available
  recording : e.model.recording = d.model.recording
  stack : e.model.undoStack = d.model.undoStack

theorem Alike.refl (d : Desk σ) : Alike d d :=
  ⟨⟨[], (List.append_nil _).symm, rfl⟩, rfl, rfl, rfl, rfl, rfl⟩

theorem Alike.trans {d e f : Desk σ} (h : Alike d e) (h' : Alike e f) : Alike d f := by
  obtain ⟨w, hw, hs⟩ := h.deeds
  obtain ⟨v, hv, hs'⟩ := h'.deeds
  refine ⟨⟨w ++ v, by rw [hv, hw, List.append_assoc], by simp [hs, hs']⟩, ?_, ?_, ?_, ?_, ?_⟩
  · exact h'.coordinators.trans h.coordinators
  · exact h'.document.trans h.document
  · exact h'.available.trans h.available
  · exact h'.recording.trans h.recording
  · exact h'.stack.trans h.stack

/-- The desk after a call that leaves what recordings depend on in the model. -/
theorem Alike.accepted {d : Desk σ} (s : Share) (c : Call) {m : Model}
    (hdocument : m.document = d.model.document)
    (havailable : m.available = d.model.available) (hrecording : m.recording = d.model.recording)
    (hstack : m.undoStack = d.model.undoStack) : Alike d (d.accepted s c m) :=
  ⟨⟨_, d.toList_accepted s c m, rfl⟩, rfl, hdocument, havailable, hrecording, hstack⟩

theorem Alike.stacking {n : Nat} {d e : Desk σ} (h : Alike d e) : Stacking n d e := by
  obtain ⟨w, hw, hs⟩ := h.deeds
  exact .other hw hs h.coordinators h.available h.recording h.stack

end Desk

/-! ## Starting and ending a recording -/

namespace Act

open Desk (Alike)

variable {h : Host σ}

theorem release_alike (s : Share) (d : Desk σ) : ∃ d', release s h d = (.returned (), d') ∧ Alike d d' := by
  cases heq : d.model.release? s with
  | none =>
    exact ⟨_, release_refused heq, ⟨⟨[], (List.append_nil _).symm, rfl⟩, rfl, rfl, rfl, rfl, rfl⟩⟩
  | some taken =>
    obtain ⟨access, m⟩ := taken
    have hrun := release_run (h := h) heq
    obtain ⟨-, rfl⟩ := Model.release?_some heq
    exact ⟨_, hrun, .accepted s _ rfl rfl rfl rfl⟩

/-- A share is to be had exactly when the model is available, and leaves the desk alike. -/
theorem acquire_alike (access : Access) (d : Desk σ) :
    (d.model.available = false ∧ ∃ e, acquire access h d = (.returned (.error e), d)) ∨
    (d.model.available = true ∧ ∃ s d', acquire access h d = (.returned (.ok s), d') ∧ Alike d d' ∧
      d'.model.accessOf? s.id = some access) := by
  cases heq : d.model.acquire access with
  | error e =>
    refine .inl ⟨?_, e, acquire_refused heq⟩
    unfold Model.acquire at heq
    split at heq
    · cases heq
    · next hnot => simpa using hnot
  | ok taken =>
    obtain ⟨s, m⟩ := taken
    have hrun := acquire_run (h := h) heq
    have hlive := Model.accessOf?_acquire heq
    obtain ⟨havailable, rfl, rfl⟩ := Model.acquire_ok heq
    exact .inr ⟨havailable, _, _, hrun, .accepted _ _ rfl rfl rfl rfl, hlive⟩

/-- Giving the share back at the end leaves the desk alike. -/
theorem withShare_alike {access : Access} {f : Share → Act σ α} {d d₁ d₂ : Desk σ} {s : Share} {a : α}
    (hacquire : acquire access h d = (.returned (.ok s), d₁)) (hf : f s h d₁ = (.returned a, d₂)) :
    ∃ d₃, withShare access f h d = (.returned (.ok a), d₃) ∧ Alike d₂ d₃ := by
  obtain ⟨d₃, hrelease, halike⟩ := release_alike (h := h) s d₂
  exact ⟨d₃, (bind_run hacquire).trans (bind_run (ensure_run hf hrelease)), halike⟩

/-- A recording starts or does not; either way only it tells the desks apart. -/
theorem startRecording_cases (id : CoordinatorId) (label : Option String) (d : Desk σ) :
    (∃ e d', startRecording id label h d = (.returned (.error e), d') ∧ Alike d d') ∨
    (d.model.available = true ∧ ∃ d', startRecording id label h d = (.returned (.ok ()), d') ∧
      Alike { d with model := { d.model with
        recording := some (d.model.recordingFrom (.coordinator id) label) } } d') := by
  rcases acquire_alike (h := h) .edit d with ⟨-, e, hacquire⟩ | ⟨havailable, s, d₁, hacquire, halike, hlive⟩
  · have hshare : withShare .edit (fun s => beginRecording s (.coordinator id) label) h d =
        (.returned (.error e), d) := bind_run hacquire
    exact .inl ⟨e, d, bind_run hshare, .refl d⟩
  cases heq : d₁.model.beginRecording s (.coordinator id) label with
  | error e =>
    have hbegin : beginRecording s (.coordinator id) label h d₁ = (.returned (.error e), d₁) := by
      simp [beginRecording, heq]
    obtain ⟨d₃, hshare, hlast⟩ :=
      withShare_alike (f := fun s => beginRecording s (.coordinator id) label) hacquire hbegin
    exact .inl ⟨e, d₃, bind_run hshare, halike.trans hlast⟩
  | ok m =>
    obtain ⟨d₃, hshare, hlast⟩ :=
      withShare_alike (f := fun s => beginRecording s (.coordinator id) label) hacquire
        (beginRecording_run heq)
    obtain ⟨-, -, -, rfl⟩ := Model.beginRecording_ok heq
    have hfrom : d₁.model.recordingFrom (.coordinator id) label =
        d.model.recordingFrom (.coordinator id) label := by
      simp only [Model.recordingFrom, halike.recording, halike.document]
    obtain ⟨w, hw, hs⟩ := halike.deeds
    refine .inr ⟨havailable, d₃, bind_run hshare, Alike.trans
      ⟨⟨w ++ [.call s.id (.beginRecording label)], ?_, ?_⟩, ?_, ?_, ?_, ?_, ?_⟩ hlast⟩
    · rw [Desk.toList_accepted, hw, List.append_assoc]
    · simp [hs]
      rfl
    · exact halike.coordinators
    · exact halike.document
    · exact halike.available
    · exact congrArg some hfrom
    · exact halike.stack

/-- When the model is available, the recording that is in progress ends, and only that tells the desks
apart. -/
theorem finishRecording_run {id : CoordinatorId} {d : Desk σ} {r : Recording}
    (havailable : d.model.available = true) (hr : d.model.recording = some r) :
    ∃ d', finishRecording id h d = (.returned (), d') ∧
      Alike { d with model := d.model.recordingEnded r } d' := by
  have hfinished : Alike d (d.enter (.finished id d.model.available)) :=
    ⟨⟨_, d.toList_enter _, rfl⟩, rfl, rfl, rfl, rfl, rfl⟩
  rcases acquire_alike (h := h) .edit (d.enter (.finished id d.model.available)) with
    ⟨hnot, -⟩ | ⟨-, s, d₁, hacquire, halike, hlive⟩
  · rw [Desk.model_enter, havailable] at hnot
    cases hnot
  have halike := hfinished.trans halike
  have hr₁ : d₁.model.recording = some r := halike.recording.trans hr
  have heq := Model.endRecording_of_live (.coordinator id) hlive hr₁
  obtain ⟨d₃, hshare, hlast⟩ :=
    withShare_alike (f := fun s => endRecording s (.coordinator id)) hacquire (endRecording_run heq)
  have hrun : finishRecording id h d = (.returned (), d₃) := by
    simp only [finishRecording, look_bind, did_bind]
    exact bind_run hshare
  refine ⟨d₃, hrun, Alike.trans ?_ hlast⟩
  obtain ⟨w, hw, hs⟩ := halike.deeds
  refine ⟨⟨w ++ [.call s.id .endRecording], by rw [Desk.toList_accepted, hw, List.append_assoc],
    by simp [hs]; rfl⟩,
    halike.coordinators, ?_, ?_, ?_, ?_⟩
  all_goals
    simp only [Desk.model_accepted, Model.recordingEnded]
    cases r.inner
  · exact halike.document
  · exact halike.document
  · exact halike.available
  · exact halike.available
  · rfl
  · rfl
  · exact congrArg (r.entry :: ·) halike.stack
  · exact halike.stack

end Act

/-! ## Undoable edits -/

/-- Stacking between changes of a coordinator's count of undoable edits that undo each other. While the
count is raised the model stays available. -/
theorem Desk.Stacks.raised {c : CoordinatorId} {w : List Deed} {d e : Desk σ} (hc : c < d.coordinators.length)
    (h : Stacks w (d.withUndoDepth c (· + 1)) e) :
    Stacks w d (e.withUndoDepth c (· - 1)) ∧
      (d.model.available = true → e.model.available = true) := by
  have hsize : e.coordinators.length = d.coordinators.length := h.size.trans (List.length_modify ..)
  have hraised := Desk.undoDepth_withUndoDepth hc (· + 1)
  have hlowered := Desk.undoDepth_withUndoDepth (hsize.symm ▸ hc) (· - 1)
  have hundoing : (d.withUndoDepth c (· + 1)).undoing = true := by
    refine (Desk.undoing_iff _).2 ⟨c, ?_⟩
    rw [hraised, if_pos rfl]
    exact Nat.succ_pos _
  refine ⟨⟨(List.length_modify ..).trans hsize, fun c' => ?_, fun _ => h.available hundoing,
    h.recording, h.stack, h.joined⟩, h.available hundoing⟩
  rw [hlowered, h.depth, hraised]
  split <;> rfl

theorem Desk.Stacking.raised {n : Nat} {c : CoordinatorId} {d e : Desk σ} (hcn : c < n)
    (h : Stacking n (d.withUndoDepth c (· + 1)) e) : Stacking n d (e.withUndoDepth c (· - 1)) := by
  obtain ⟨w, hw, hstacks⟩ := h
  exact ⟨w, hw, fun hsteady hn => ((hstacks hsteady ((List.length_modify ..).trans hn)).raised (hn ▸ hcn)).1⟩

/-- A recording between whose ends deeds `w` were stacked adds its own segment, unless it is nested: then it
adds none, as the deeds in it do not either. -/
theorem Desk.Stacks.recorded {c : CoordinatorId} {label : Option String} {u w v : List Deed} {d d₁ d₂ d₃ : Desk σ}
    (hstart : Alike { d with model := { d.model with
      recording := some (d.model.recordingFrom (.coordinator c) label) } } d₁)
    (hu : segments u = []) (havailable : d₂.model.available = true) (hrun : Stacks w d₁ d₂)
    (hend : Alike { d₂ with
      model := d₂.model.recordingEnded (d.model.recordingFrom (.coordinator c) label) } d₃)
    (hv : segments v = []) :
    Stacks (u ++ [.began c label d.model.document d.model.recording.isSome] ++ (w ++ v)) d d₃ := by
  obtain ⟨hrecording, hstack, hstill⟩ := d.model.recordingEnded_from d₂.model (.coordinator c) label
  have hw : segments w = [] := hrun.joined (by rw [hstart.recording]; rfl)
  have hsame : d₂.model.undoStack = d.model.undoStack := by
    have hsame := hrun.stack
    rw [hw] at hsame
    exact hsame.trans hstart.stack
  have hsegments : segments (u ++ [.began c label d.model.document d.model.recording.isSome] ++ (w ++ v)) =
      if d.model.recording.isSome then [] else [⟨label, .coordinator c, d.model.document⟩] := by
    simp only [Deed.segments_append, hu, hw, hv, List.nil_append, List.append_nil]
    cases d.model.recording <;> rfl
  refine ⟨?_, fun c' => ?_, fun _ _ => ?_, ?_, ?_, fun hsome => ?_⟩
  · rw [hend.coordinators]
    exact hrun.size.trans (congrArg List.length hstart.coordinators)
  · rw [Desk.coordinator, hend.coordinators]
    refine (hrun.depth c').trans ?_
    rw [Desk.coordinator, hstart.coordinators]
    rfl
  · exact hend.available.trans (hstill.trans havailable)
  · exact hend.recording.trans hrecording
  · rw [hend.stack, hsegments]
    refine hstack.trans ?_
    rw [hsame]
    cases d.model.recording <;> rfl
  · rw [hsegments, if_pos hsome]

namespace Act

open Desk (Grows Calm Stacks Stacking Alike)

variable {n : Nat} {h : Host σ} (hc : ∀ c d, Stacking n d (h.answer c d).2) {c : CoordinatorId}

include hc

theorem deliver_stacking (event : Event) (l : Listener) : Within (Stacking n) h (deliver event l) :=
  deliver_within_steps (Stacking.path n) (fun _ _ => Desk.Step.stacking)
    (fun _ _ => .other (List.append_nil _).symm rfl rfl rfl rfl rfl) hc event l

omit hc in
/-- In a steady run cleaning up comes last. -/
theorem ensure_stacking {act : Act σ α} {last : Act σ Unit} (ha : NoFatal h act) (hl : Within Grows h last)
    {d e : Desk σ} (hfirst : Grows d e) (hend : Stacking n d (last h (act h e).2).2) :
    Stacking n d (ensure act last h e).2 := by
  have hensured := Within.ensure Grows.path ha.grows hl e
  obtain ⟨w, hw⟩ := hfirst.trans hensured
  refine ⟨w, hw.symm, fun hsteady hn => ?_⟩
  have hcalm : Calm d (ensure act last h e).2 := ⟨w, hw.symm, hsteady.1⟩
  obtain ⟨hdesk, -, -⟩ := ha.ensure_desk hl (hcalm.split hfirst hensured).2
  obtain ⟨w', hw', hstacks⟩ := hend
  rw [hdesk] at hw ⊢
  obtain rfl : w = w' := List.append_cancel_left (hw.trans hw')
  exact hstacks hsteady hn

omit hc in
/-- The count is lowered and the recording ends: it was in progress until the session was over, and the
model is available then. -/
theorem finishRecording_stacking (hcn : c < n) {label : Option String} {d d₁ e : Desk σ}
    (havailable : d.model.available = true)
    (hstart : Alike { d with model := { d.model with
      recording := some (d.model.recordingFrom (.coordinator c) label) } } d₁)
    (hrun : Stacking n
      ((d₁.enter (.began c label d.model.document d.model.recording.isSome)).withUndoDepth c (· + 1)) e) :
    Stacking n d ((do changeUndoDepth c (· - 1); finishRecording c : Act σ Unit) h e).2 := by
  have hlower : Returns h (changeUndoDepth c (· - 1)) := Returns.change fun _ => rfl
  obtain ⟨u, hu, hu'⟩ := hstart.deeds
  obtain ⟨w, hw, hstacks⟩ := hrun
  obtain ⟨v, hv⟩ := (hlower.bind fun _ => finishRecording_returns (h := h) c).grows e
  refine ⟨u ++ [.began c label d.model.document d.model.recording.isSome] ++ (w ++ v), ?_, fun hsteady hn => ?_⟩
  · have hbegan : (d₁.enter (.began c label d.model.document d.model.recording.isSome)).history.toList =
        d.history.toList ++ (u ++ [.began c label d.model.document d.model.recording.isSome]) := by
      rw [d₁.toList_enter, hu, List.append_assoc]
    rw [← hv, hw, ← List.append_assoc, ← List.append_assoc]
    exact congrArg (· ++ w ++ v) hbegan
  have hn₁ : d₁.coordinators.length = n := (congrArg List.length hstart.coordinators).trans hn
  obtain ⟨hstacks, hstill⟩ :=
    (hstacks hsteady.split.2.split.1 ((List.length_modify ..).trans hn₁)).raised (hn₁ ▸ hcn)
  have havailable₂ : (e.withUndoDepth c (· - 1)).model.available = true :=
    hstill (hstart.available.trans havailable)
  obtain ⟨d₃, hfinish, hend⟩ :=
    finishRecording_run (h := h) havailable₂ (hstacks.recording.trans hstart.recording)
  have hdone : (do changeUndoDepth c (· - 1); finishRecording c : Act σ Unit) h e = (.returned (), d₃) := hfinish
  rw [hdone] at hv ⊢
  obtain ⟨v', hv', hnone⟩ := hend.deeds
  obtain rfl : v = v' := List.append_cancel_left (hv.trans hv')
  have hbetween : Stacks w d₁ (e.withUndoDepth c (· - 1)) := { hstacks with }
  exact .recorded hstart hu' havailable₂ hbetween hend hnone

theorem undoableEdit_stacking (hcn : c < n) (label : Option String) {mutation : Scope → Act σ (Except ε α)}
    (hnoFatal : NoFatal h (mutation ⟨c⟩)) (hm : Within (Stacking n) h (mutation ⟨c⟩)) :
    Within (Stacking n) h (undoableEdit c label mutation) := by
  have hg : ∀ c d, Grows d (h.answer c d).2 := fun c d => have ⟨w, hw, _⟩ := hc c d; ⟨w, hw.symm⟩
  have hedit := edit_within (Stacking.path n) (fun _ _ => Desk.Step.stacking) (deliver_stacking hc) c hm
  have hran : Within (Stacking n) h (between (.edits c) (.edited c) (edit c mutation)) :=
    .between (Stacking.path n) hedit (fun d => .other (d.toList_enter _) rfl rfl rfl rfl rfl)
      fun d => .other (d.toList_enter _) rfl rfl rfl rfl rfl
  have hsound := edit_noFatal hg c hnoFatal
  have hdepth (f : Nat → Nat) : Returns h (changeUndoDepth c f) := Returns.change fun _ => rfl
  intro d
  by_cases hdeep : (d.coordinator c).undoDepth > 0
  · have hrun : undoableEdit c label mutation h d =
        ensure (edit c mutation) (changeUndoDepth c (· - 1)) h (d.withUndoDepth c (· + 1)) := by
      simp [undoableEdit, hdeep, changeUndoDepth]
    rw [hrun]
    exact ensure_stacking hsound (hdepth _).grows (Grows.path.refl d) ((hedit _).raised hcn)
  rcases startRecording_cases (h := h) c label d with ⟨e, d₁, hstart, halike⟩ |
    ⟨havailable, d₁, hstart, halike⟩
  · have hrun : ∃ notice,
        (undoableEdit c label mutation h d).2 = { d₁ with client := h.note notice d₁.client } := by
      simp only [undoableEdit, look_bind, hdeep, if_false, bind_run hstart, note_bind, pure_run]
      exact ⟨_, rfl⟩
    obtain ⟨notice, hrun⟩ := hrun
    obtain ⟨w, hw, hstacks⟩ := halike.stacking (n := n)
    rw [hrun]
    refine ⟨w, hw, fun hsteady hn => ?_⟩
    have hst := hstacks hsteady hn
    exact ⟨hst.size, hst.depth, hst.available, hst.recording, hst.stack, hst.joined⟩
  · have hrun : undoableEdit c label mutation h d =
        ensure (between (.edits c) (.edited c) (edit c mutation))
          (do changeUndoDepth c (· - 1); finishRecording c) h
          ((d₁.enter (.began c label d.model.document d.model.recording.isSome)).withUndoDepth c
          (· + 1)) := by
      simp only [undoableEdit, look_bind, hdeep, if_false, bind_run hstart, did_bind]
      rfl
    obtain ⟨u, hu, -⟩ := halike.deeds
    have hfirst : Grows d d₁ := ⟨u, hu.symm⟩
    rw [hrun]
    exact ensure_stacking hsound.between ((hdepth _).bind fun _ => finishRecording_returns c).grows
      (hfirst.trans (d₁.grows_enter _)) (finishRecording_stacking hcn havailable halike (hran _))

/-- Editing passes on that it stacks segments and is not fatal. -/
theorem Passed.stacking : Passed n (fun a => NoFatal h a ∧ Within (Stacking n) h a) := by
  have hR := Stacking.path (σ := σ) n
  have hs : ∀ d e : Desk σ, Desk.Step d e → Stacking n d e := fun _ _ => Desk.Step.stacking
  have hnoFatal := Passed.noFatal (fun c d => have ⟨w, hw, _⟩ := hc c d; ⟨w, hw.symm⟩) n
  exact {
    pure := fun a => ⟨hnoFatal.pure a, Within.pure hR a⟩
    bind := fun hx hf => ⟨hnoFatal.bind hx.1 fun a => (hf a).1, Within.bind hR hx.2 fun a => (hf a).2⟩
    attempt := fun hx => ⟨hnoFatal.attempt hx.1, Within.attempt hx.2⟩
    mutate := fun s _ hf => ⟨hnoFatal.mutate s fun document => (hf document).1,
      mutateIn_within hR hs (deliver_stacking hc) s fun document => (hf document).2⟩
    edit := fun hid hm =>
      ⟨hnoFatal.edit hid hm.1, edit_within hR hs (deliver_stacking hc) _ hm.2⟩
    undoable := fun label _ hid hm =>
      ⟨hnoFatal.undoable label hid hm.1, undoableEdit_stacking hc hid label hm.1 hm.2⟩ }

omit hc in
theorem SwitchOp.stacking {a : Act σ α} (ha : SwitchOp a) : NoFatal h a ∧ Within (Stacking n) h a := by
  refine ⟨ha.balanced (n := n).1, ?_⟩
  cases ha with
  | look f => exact Within.look (Stacking.path n) f
  | interrupt message => exact Within.interrupt (Stacking.path n) message
  | own f => exact fun d => .other (List.append_nil _).symm rfl rfl rfl rfl rfl
  | setRecordable recordable => exact fun d => .other (List.append_nil _).symm rfl rfl rfl rfl rfl
  | setAvailable available =>
    refine fun d => ⟨[.availability available d.undoing], d.toList_enter _, fun hsteady _ => ?_⟩
    refine ⟨rfl, fun _ => rfl, fun hundoing havailable => ?_, rfl, rfl, fun _ => rfl⟩
    -- While an undoable edit is running the model is not made unavailable.
    cases available with
    | true => rfl
    | false =>
      rw [hundoing] at hsteady
      exact absurd List.mem_cons_self hsteady.2

end Act

/-- Whatever clients do adds the segments of its deeds to the undo stack, in a steady run. -/
theorem Host.Clients.stacking {n : Nat} {h : Host σ} (hh : h.Clients n Act.SwitchOp) {a : Act σ α}
    (ha : Act.Client n Act.SwitchOp a) : a.NoFatal h ∧ a.Within (Desk.Stacking n) h :=
  (hh.passed (P := fun h _ a => a.NoFatal h ∧ a.Within (Desk.Stacking n) h) (Desk.Stacking.path n)
    (fun _ hc => ⟨.stacking hc, fun ha => ha.stacking⟩) fun _ _ _ => And.right).2 ha

end FormDesk

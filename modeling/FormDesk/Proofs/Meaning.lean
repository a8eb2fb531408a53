/-
What the state of a coordinator means. Its depth is the number of its mutations
that are running, and it counts undoable edits while the edit of one of them
runs, from the start of its recording to its end. An open session has its share
and its bracket, so its scope serves, the session ends as it is to, and a
mutation in it can fail only for want of the document, which another mutation
has in hand or has lost (`Callers.state_means`).
-/
import FormDesk.Proofs.Engaging

namespace FormDesk

variable {σ ε α : Type}

namespace Deed

/-- How many undoable edits of the coordinator `c` that record are running their edit, counted on by one deed. -/
def span (c : CoordinatorId) (k : Nat) : Deed → Nat
  | edits c' => if c' = c then k + 1 else k
  | edited c' => if c' = c then k - 1 else k
  | _ => k

/-- How many undoable edits of the coordinator `c` that record are running their edit after the deeds `w`. -/
def spanning (c : CoordinatorId) (w : List Deed) : Nat := w.foldl (span c) 0

/-- The edit of an undoable edit that records runs as soon as the recording has started, and the recording ends as
soon as the edit has run. -/
def AroundEdit (w : List Deed) : Deed → Prop
  | edits c => ∃ u label before nested, w = u ++ [began c label before nested]
  | edited c => 0 < spanning c w
  | finished c _ => ∃ u, w = u ++ [edited c]
  | _ => True

/-- A deed about the edit of an undoable edit, or the end of its recording. -/
def ofUndoable : Deed → Bool
  | edits _ | edited _ | finished .. => true
  | _ => false

variable {w v : List Deed} {x : Deed} {c : CoordinatorId}

@[simp] theorem spanning_snoc (c : CoordinatorId) (w : List Deed) (x : Deed) :
    spanning c (w ++ [x]) = span c (spanning c w) x := by
  simp [spanning]

theorem of_ofUndoable (hx : x.ofUndoable = false) : (∀ c k, span c k x = k) ∧ ∀ w, AroundEdit w x := by
  cases x with
  | edits | edited | finished => cases hx
  | _ => exact ⟨fun _ _ => rfl, fun _ => trivial⟩

theorem ofUndoable_of_offBooks (hx : x.offBooks = true) : x.ofUndoable = false := by
  cases x with
  | edits | edited | finished => cases hx
  | _ => rfl

theorem spanning_append (hv : ∀ x ∈ v, x.ofUndoable = false) : spanning c (w ++ v) = spanning c w :=
  foldl_append_still fun x hx => (of_ofUndoable (hv x hx)).1 c

end Deed

open Deed (AroundEdit AroundMutation Closing Orderly Shallow executing running span spanning)

namespace Desk

/-! ## Undoable edits -/

/-- Each coordinator counts undoable edits while the edit of one of them runs that records. -/
structure Spans (n : Nat) (d : Desk σ) : Prop where
  size : d.coordinators.length = n
  spanning : ∀ c, spanning c d.history.toList = if 0 < (d.coordinator c).undoDepth then 1 else 0
  around : Orderly AroundEdit d.history.toList

/-- Between two desks the edit of no undoable edit starts or ends. -/
structure Spanless (d e : Desk σ) : Prop where
  deeds : ∃ w, e.history.toList = d.history.toList ++ w ∧ ∀ x ∈ w, x.ofUndoable = false
  size : e.coordinators.length = d.coordinators.length
  depth : ∀ c, (e.coordinator c).undoDepth = (d.coordinator c).undoDepth

variable {n : Nat} {c : CoordinatorId} {d e f : Desk σ} {x : Deed} {w : List Deed}

theorem Spanless.of_same (hw : e.history.toList = d.history.toList ++ w) (hx : ∀ x ∈ w, x.ofUndoable = false)
    (hc : e.coordinators = d.coordinators) : Spanless d e :=
  ⟨⟨w, hw, hx⟩, by rw [hc], fun c => by rw [coordinator, hc, coordinator]⟩

theorem Spanless.path : Path (Spanless (σ := σ)) where
  refl d := .of_same (List.append_nil _).symm (by simp) rfl
  trans := by
    rintro d e f ⟨⟨w, hw, hspan⟩, hsize, hdepth⟩ ⟨⟨v, hv, hspan'⟩, hsize', hdepth'⟩
    refine ⟨⟨w ++ v, by rw [hv, hw, List.append_assoc], fun x hx => ?_⟩, hsize'.trans hsize,
      fun c => (hdepth' c).trans (hdepth c)⟩
    exact (List.mem_append.1 hx).elim (hspan x) (hspan' x)

theorem OffBooks.spanless (h : OffBooks d e) : Spanless d e :=
  have ⟨_, hw, hoff⟩ := h.deeds
  .of_same hw (fun x hx => Deed.ofUndoable_of_offBooks (hoff x hx)) h.coordinators

theorem Visit.spanless (h : Visit d e) : Spanless d e := by
  cases h with
  | acquire | release => exact .of_same (d.toList_accepted ..) (by simp [Deed.ofUndoable]) rfl
  | client s => exact .of_same (List.append_nil _).symm (by simp) rfl

theorem Passage.spanless (h : Passage d e) : Spanless d e := by
  cases h with
  | visit h => exact h.spanless
  | openBracket | closeBracket =>
    refine .of_same (by rw [toList_announced, toList_accepted, List.append_assoc]) ?_ ?_
    · split <;> simp [Deed.ofUndoable]
    · unfold announced
      split <;> rfl
  | starting | entered | left | opened | runs | ran =>
    exact .of_same (d.toList_enter _) (by simp [Deed.ofUndoable]) rfl
  | session id s =>
    refine ⟨⟨[], (List.append_nil _).symm, by simp⟩, by simp [withSession, withCoordinator], fun c => ?_⟩
    exact d.undoDepth_withSession id c s

/-- From counts that are right, they are right in the end, and each is what it was. -/
def Joins (n : Nat) (d e : Desk σ) : Prop :=
  d.Spans n → e.Spans n ∧ ∀ c, (e.coordinator c).undoDepth = (d.coordinator c).undoDepth

/-- The edit of an undoable edit of the coordinator runs, and its recording has started. -/
def InRecording (n : Nat) (c : CoordinatorId) (d e : Desk σ) : Prop :=
  d.Spans n → e.Spans n ∧ (d.coordinator c).undoDepth = 0 ∧ (e.coordinator c).undoDepth = 1 ∧
    ∀ c' ≠ c, (e.coordinator c').undoDepth = (d.coordinator c').undoDepth

theorem Spanless.joins (h : Spanless d e) : Joins n d e := by
  obtain ⟨⟨w, hw, hspan⟩, hsize, hdepth⟩ := h
  refine fun hd => ⟨⟨hsize.trans hd.size, fun c => ?_, ?_⟩, hdepth⟩
  · rw [hw, Deed.spanning_append hspan, hd.spanning, hdepth]
  · rw [hw]
    exact hd.around.append fun x hx => (Deed.of_ofUndoable (hspan x hx)).2

/-- The contract that counts of undoable edits are right, and are what they were when a run is over. -/
def joining (σ : Type) (n : Nat) : Contract σ where
  ended := Joins n
  cut d e := d.Spans n → e.Spans n
  refl d := (Spanless.path.refl d).joins
  trans h h' hd :=
    have ⟨he, hdepth⟩ := h hd
    have ⟨hf, hdepth'⟩ := h' he
    ⟨hf, fun c => (hdepth' c).trans (hdepth c)⟩
  halt _ := id
  stop h h' hd := h' (h hd).1

theorem joining_free : (joining σ n).Free :=
  OffBooks.free (fun h => h.spanless.joins) fun hcut h hd => (h.spanless.joins (hcut hd)).1

/-- The count of undoable edits of one coordinator goes on with a deed. -/
theorem Spans.move (hd : d.Spans n) (hc : c < n) (f : Nat → Nat) (hx : AroundEdit d.history.toList x)
    (hself : Deed.span c (Deed.spanning c d.history.toList) x = if 0 < f (d.coordinator c).undoDepth then 1 else 0)
    (hothers : ∀ c' ≠ c, ∀ k, Deed.span c' k x = k) : ((d.enter x).withUndoDepth c f).Spans n := by
  have hdepth := undoDepth_withUndoDepth (d := d.enter x) (hd.size.symm ▸ hc) f
  have hdeeds : ((d.enter x).withUndoDepth c f).history.toList = d.history.toList ++ [x] := d.toList_enter x
  refine ⟨by simpa [withUndoDepth, withCoordinator, enter] using hd.size, fun c' => ?_, hdeeds ▸ hd.around.snoc hx⟩
  rw [hdeeds, Deed.spanning_snoc, hdepth]
  by_cases hcc : c = c'
  · subst hcc
    rw [if_pos rfl]
    exact hself
  · rw [if_neg hcc, hothers c' (Ne.symm hcc)]
    exact hd.spanning c'

/-- An undoable edit joins another one, or leaves it. -/
theorem Spans.join (hd : d.Spans n) (hc : c < n) (f : Nat → Nat) (hpos : 0 < (d.coordinator c).undoDepth)
    (hpos' : 0 < f (d.coordinator c).undoDepth) : (d.withUndoDepth c f).Spans n := by
  have hdepth := undoDepth_withUndoDepth (hd.size.symm ▸ hc) f
  refine ⟨by simpa [withUndoDepth, withCoordinator] using hd.size, fun c' => ?_, hd.around⟩
  have hdeeds : (d.withUndoDepth c f).history = d.history := rfl
  rw [hdeeds, hd.spanning, hdepth]
  by_cases hcc : c = c'
  · subst hcc
    rw [if_pos hpos, if_pos rfl, if_pos hpos']
  · rw [if_neg hcc]

/-- The recording of an undoable edit ends whose edit has run. -/
theorem Spans.finish (hd : d.Spans n) {u : List Deed} (hu : d.history.toList = u ++ [.edited c]) (ended : Bool) :
    (d.enter (.finished c ended)).Spans n where
  size := hd.size
  spanning c' := by
    rw [toList_enter, Deed.spanning_snoc]
    exact hd.spanning c'
  around := by
    rw [toList_enter]
    exact hd.around.snoc ⟨u, hu⟩

end Desk

namespace Act

open Desk (InRecording Joins Spanless joining)

variable {n : Nat} {h : Host σ} {c : CoordinatorId} {label : Option String}

theorem release_spanless (s : Share) (d : Desk σ) : Spanless d (release s h d).2 :=
  keeps_contract.1 (release_keeps (K := Spanless.path.contract) (fun _ _ hvisit => hvisit.spanless) s) d

theorem startRecording_spanless (c : CoordinatorId) (label : Option String) (d : Desk σ) :
    Spanless d (startRecording c label h d).2 := by
  rcases startRecording_ends (h := h) c label d with
    ⟨_, -, hrun⟩ | ⟨s, m, hacquire, ⟨_, -, hrun⟩ | ⟨m', -, hrun⟩⟩
  all_goals rw [hrun]
  · exact Spanless.path.refl d
  · exact Spanless.path.trans (Desk.Visit.acquire hacquire).spanless (release_spanless s _)
  · have hbegun : Spanless (d.accepted s (.acquire .edit) m)
        ((d.accepted s (.acquire .edit) m).accepted s (.beginRecording label) m') :=
      .of_same (Desk.toList_accepted ..) (by simp [Deed.ofUndoable]) rfl
    exact Spanless.path.trans (Desk.Visit.acquire hacquire).spanless
      (Spanless.path.trans hbegun (release_spanless s _))

theorem finishRecording_spanless (d : Desk σ) :
    Spanless (d.enter (.finished c d.model.available)) (finishRecording c h d).2 := by
  have hnoted (d : Desk σ) (s : σ) : Spanless d { d with client := s } := (Desk.Visit.client s).spanless
  rcases finishRecording_ends (h := h) c d with
    ⟨_, -, hrun⟩ | ⟨s, m, hacquire, ⟨_, -, hrun⟩ | ⟨m', -, hrun⟩⟩
  all_goals rw [hrun]
  · exact hnoted _ _
  all_goals
    have hvisit : Desk.Visit (d.enter (.finished c d.model.available)) _ := .acquire hacquire
    refine Spanless.path.trans hvisit.spanless (Spanless.path.trans ?_ (release_spanless s _))
  · exact hnoted _ _
  · exact .of_same (Desk.toList_accepted ..) (by simp [Deed.ofUndoable]) rfl

theorem spanning_joins (hcn : c < n) : Spanning (joining σ n) h c label (InRecording n c) where
  skipped {d e reason} _ hstart := by
    have hspanless := startRecording_spanless (h := h) c label d
    rw [hstart] at hspanless
    exact hspanless.joins
  started {d e} hnone hstart hd := by
    have hspanless := startRecording_spanless (h := h) c label d
    rw [hstart] at hspanless
    obtain ⟨he, hdepth⟩ := hspanless.joins hd
    -- The start of the recording is entered right before the edit runs.
    obtain ⟨began, hbegan⟩ : ∃ f, f = e.enter (.began c label d.model.document d.model.recording.isSome) := ⟨_, rfl⟩
    have hentered : Spanless e began := hbegan ▸ .of_same (e.toList_enter _) (by simp [Deed.ofUndoable]) rfl
    obtain ⟨hf, hsame⟩ := hentered.joins he
    have hzero : (began.coordinator c).undoDepth = 0 := (hsame c).trans ((hdepth c).trans hnone)
    have hdepth' := Desk.undoDepth_withUndoDepth (hf.size.symm ▸ hcn) (· + 1)
    rw [← hbegan]
    refine ⟨hf.move (x := .edits c) hcn (· + 1) ⟨_, _, _, _, hbegan ▸ e.toList_enter _⟩ ?_
      fun c' hne k => by simp [span, Ne.symm hne], hnone, ?_, fun c' hne => ?_⟩
    · simp [span, hf.spanning, hzero]
    · exact (hdepth' c).trans (by simp [hzero])
    · exact (hdepth' c').trans (by simp [Ne.symm hne, hsame, hdepth])
  inside hin hcut hd := hcut (hin hd).1
  finished {d e f} hin hran hd := by
    obtain ⟨he, hnone, hone, hothers⟩ := hin hd
    obtain ⟨hf, hdepth⟩ := hran he
    have hself : (f.coordinator c).undoDepth = 1 := (hdepth c).trans hone
    have hdepth' := Desk.undoDepth_withUndoDepth (hf.size.symm ▸ hcn) (· - 1)
    have hspans : (f.edited c).Spans n := hf.move (x := .edited c) hcn (· - 1)
      (by simp [AroundEdit, hf.spanning, hself]) (by simp [span, hf.spanning, hself])
      fun c' hne k => by simp [span, Ne.symm hne]
    obtain ⟨hg, hdepth''⟩ := (finishRecording_spanless (h := h) (c := c) (f.edited c)).joins
      (hspans.finish (f.toList_edited c) _)
    refine ⟨hg, fun c' => (hdepth'' c').trans ((hdepth' c').trans ?_)⟩
    by_cases hcc : c = c'
    · subst hcc
      simp [hself, hnone]
    · rw [if_neg hcc, hdepth, hothers c' (Ne.symm hcc)]
  joined {d f} hpos hran hd := by
    obtain ⟨hf, hdepth⟩ := hran (hd.join hcn (· + 1) hpos (Nat.succ_pos _))
    have hraised := Desk.undoDepth_withUndoDepth (hd.size.symm ▸ hcn) (· + 1)
    have hlowered := Desk.undoDepth_withUndoDepth (hf.size.symm ▸ hcn) (· - 1)
    have hself : (f.coordinator c).undoDepth = (d.coordinator c).undoDepth + 1 := by
      rw [hdepth, hraised, if_pos rfl]
    refine ⟨hf.join hcn (· - 1) (by omega) (by omega), fun c' => (hlowered c').trans ?_⟩
    by_cases hcc : c = c'
    · subst hcc
      simp [hself]
    · rw [if_neg hcc, hdepth, hraised, if_neg hcc]
  joining {d f} hpos hcut hd := hcut (hd.join hcn (· + 1) hpos (Nat.succ_pos _))

/-- Recordings by hand are no undoable edits. -/
theorem RecordingOp.joins {a : Act σ α} (ha : RecordingOp a) : Keeps (joining σ n) h a := by
  have hK := Desk.joining_free (σ := σ) (n := n)
  intro d
  unfold KeepsFrom
  cases ha with
  | beginRecording s owner label =>
    cases hbegin : d.model.beginRecording s owner label with
    | error e =>
      rw [beginRecording_refused hbegin]
      exact (joining σ n).refl d
    | ok m =>
      rw [beginRecording_run hbegin]
      exact (Spanless.of_same (d.toList_accepted ..) (by simp [Deed.ofUndoable]) rfl).joins
  | endRecording s owner =>
    cases hend : d.model.endRecording s owner with
    | error notice =>
      rw [endRecording_refused hend]
      exact hK.clientStep _ _ (.client _)
    | ok m =>
      rw [endRecording_run hend]
      exact (Spanless.of_same (d.toList_accepted ..) (by simp [Deed.ofUndoable]) rfl).joins

/-- What a mutation fails with is why the document cannot be taken in hand. -/
theorem mutate_error {s : Share} {f : Document → Act σ (α × Document)} {d : Desk σ} {e : ModelError}
    (hrun : (mutate s f h d).1 = .returned (.error e)) : d.model.takeDocument s = .error e := by
  simp only [mutate, look_bind] at hrun
  cases htake : d.model.takeDocument s with
  | error e' =>
    rw [htake] at hrun
    cases hrun
    rfl
  | ok taken =>
    obtain ⟨document, m⟩ := taken
    simp only [htake, accept_bind] at hrun
    obtain ⟨⟨v, document⟩, d₁, -, hrun⟩ := bind_answer hrun
    simp only [look_bind, change_bind] at hrun
    cases hdirty : d₁.model.dirty with
    | true =>
      simp [hdirty] at hrun
    | false =>
      simp only [hdirty, Bool.not_false, if_true] at hrun
      obtain ⟨_, _, -, hrun⟩ := bind_answer hrun
      cases hrun

end Act

/-- Whatever callers do keeps count of undoable edits. -/
theorem Host.Callers.joins {n : Nat} {h : Host σ} (hh : h.Callers n Act.Public) {a : Act σ α}
    (ha : Act.Caller n Act.Public a) : a.Keeps (Desk.joining σ n) h := by
  refine hh.keeps (fun h hc => ?_) ha
  have hK := Desk.joining_free (σ := σ) (n := n)
  have hs (d e : Desk σ) (hpass : Desk.Passage d e) : (Desk.joining σ n).ended d e := hpass.spanless.joins
  have hdeliver := Act.Keeps.deliver hK hc
  exact {
    op := fun hop => by
      cases hop with
      | offBooks ha => exact ha.keeps hK hc
      | shareOp ha => exact ha.keeps hK hs hc
      | recordingOp ha => exact ha.joins
    mutate := Act.Keeps.mutate hK hc fun _ _ hinHand => hinHand.offBooks.spanless.joins
    withShare := fun access _ hf => Act.withShare_keeps (fun _ _ hvisit => hs _ _ (.visit hvisit)) access hf
    edit := fun _ hm => Act.edit_keeps hs hdeliver _ hm
    undoable := fun _ _ hcn hm =>
      (Act.spanning_joins hcn).undoableEdit_keeps hK (Act.edit_keeps hs hdeliver _ hm) }

/-! ## Sessions -/

namespace Desk

variable {n : Nat} {c : CoordinatorId} {inner : Nat} {s : Share} {d : Desk σ}

/-- At rest, with nothing done yet, the books are engaged. -/
theorem AtRest.engaged (hd : d.AtRest n) (hhistory : d.history = #[]) : d.Engaged n 0 := by
  unfold Engaged
  simp only [hhistory, List.toList_toArray]
  have hactive := Books.active_of_idle hd.session_books
  exact {
    sound := hd.sound
    depth c := by
      rw [hd.session_books]
      rfl
    fresh := nofun
    adopted := nofun
    held hs := by
      rw [hd.session_books] at hs
      cases hs
    brackets := by simp [hactive, Books.pending, Deed.Awaits, Deed.reserved]
    around := .nil _
    closing := .nil }

theorem Engaged.depth_running (hd : d.Engaged n 0) (c : CoordinatorId) :
    (d.coordinator c).session.depth = running c d.history.toList := by
  rw [← d.session_books]
  exact hd.depth c

/-- The share of an open session is live, and was taken for editing. -/
theorem Engaged.share (hd : d.Engaged n 0) (hs : (d.coordinator c).session = .active inner s) :
    s ∈ d.model.live ∧ d.model.accessOf? s.id = some .edit := by
  obtain ⟨hlive, hedit⟩ := hd.sound.held ((d.session_books c).trans hs)
  exact ⟨hlive, hedit ▸ (numbered_of_sound hd.sound).accessOf? hlive⟩

theorem Engaged.bracketed (hd : d.Engaged n 0) :
    d.coordinators.countP (·.session.isActive) ≤ d.model.changing := by
  have hactive := hd.sound.active_le
  rwa [Books.active, books, List.countP_map] at hactive

/-- A session of the coordinator is open while a mutation of its is running. -/
theorem Engaged.active (hd : d.Engaged n 0) (hrunning : 0 < running c d.history.toList) :
    ∃ inner s, (d.coordinator c).session = .active inner s := by
  rw [← hd.depth_running] at hrunning
  cases hs : (d.coordinator c).session with
  | idle =>
    rw [hs] at hrunning
    cases hrunning
  | active inner s => exact ⟨inner, s, rfl⟩

/-- A mutation in an open session fails only for want of the document, and only while another has it in hand
or after one has lost it. -/
theorem Engaged.mutateIn_error {f : Document → Act σ (α × Document)} {h : Host σ} {reason : ModelError}
    (hd : d.Engaged n 0) (hheld : d.Held false) (hs : (d.coordinator c).session = .active inner s)
    (hrun : (Act.mutateIn ⟨c⟩ f h d).1 = .returned (.error reason)) :
    reason = .unavailable ∧ (.mutated false ∈ d.history.toList ∨ 0 < executing d.history.toList) := by
  unfold Act.mutateIn at hrun
  rw [Act.bind_run (Act.scopeShare_run (s := ⟨c⟩) hs)] at hrun
  have hsession := (d.session_books c).trans hs
  obtain ⟨rfl, hnone⟩ :=
    Model.takeDocument_error (hd.share hs).2 (hd.sound.changing_pos hsession) (Act.mutate_error hrun)
  refine ⟨rfl, ?_⟩
  rcases hheld.document hnone with hlost | hpos | ⟨-, hnever⟩
  · exact .inl hlost
  · exact .inr hpos
  · -- The share of the session has opened a bracket.
    exact absurd (hd.adopted _ (hd.held hsession)).2 (hnever s.id)

end Desk

/-! ## The state of coordinators -/

/-- **What the state of a coordinator means.** Let callers do what they will on a desk at rest, cut off
anywhere, as long as they leave the shares and the brackets of sessions alone. At every moment a coordinator is
as deep in sessions as mutations of its are running, and it counts undoable edits exactly while the edit of one
runs that records. While a mutation runs, its scope serves and fails only for want of the document. When the run
is over, every session is, and every undoable edit. -/
theorem Host.Callers.state_means {n : Nat} {h : Host σ} (hh : h.Callers n Act.LeavesSessions) {a : Act σ α}
    (ha : Act.Caller n Act.LeavesSessions a) {d : Desk σ} (hd : d.AtRest n)
    (hdepth : ∀ c, (d.coordinator c).undoDepth = 0) (hstack : d.model.undoStack = [])
    (hrecording : d.model.recording = none) (hhistory : d.history = #[]) :
    ∃ o e w, a h d = (o, e) ∧ e.history.toList = w ∧
      (∀ c, 0 < (e.coordinator c).undoDepth ↔ 0 < spanning c w) ∧ Orderly AroundEdit w ∧
      (o ≠ .fatal → ∀ c, (e.coordinator c).undoDepth = 0 ∧ spanning c w = 0) ∧
      (Shallow w →
        (∀ c, (e.coordinator c).session.depth = running c w) ∧ Orderly AroundMutation w ∧ Closing w ∧
        (o ≠ .fatal → ∀ c, (e.coordinator c).session = .idle ∧ running c w = 0) ∧
        (∀ c inner s, (e.coordinator c).session = .active inner s →
          s ∈ e.model.live ∧ e.model.accessOf? s.id = some .edit) ∧
        e.coordinators.countP (·.session.isActive) ≤ e.model.changing ∧
        ∀ c, 0 < running c w → (e.coordinator c).session.leave.1 ≠ .underflow ∧
          ∀ later : Host σ, (∃ s, Act.scopeShare ⟨c⟩ later e = (.returned s, e)) ∧
            ∀ {β : Type} (f : Document → Act σ (β × Document)) reason,
              (Act.mutateIn ⟨c⟩ f later e).1 = .returned (.error reason) →
              reason = .unavailable ∧ (.mutated false ∈ w ∨ 0 < executing w)) := by
  have hh' : h.Callers n Act.Public := hh.mono Act.LeavesSessions.public
  have ha' : Act.Caller n Act.Public a := ha.mono Act.LeavesSessions.public
  have hspans : d.Spans n := ⟨hd.size, fun c => by simp [hhistory, hdepth, spanning], by simpa [hhistory] using .nil _⟩
  have hjoins := hh'.joins ha' d
  have hspans' : (a h d).2.Spans n := hjoins.elim (fun hended => (hended hspans).1) fun hcut => hcut hspans
  have hheld : d.Held false := .of_fresh nofun hstack hrecording hhistory
  have hheld' := (hh'.holds ha' d).1 false hheld
  have hengages := hh.engages ha d
  have hengaged : Shallow (a h d).2.history.toList → (a h d).2.Engaged n 0 := fun hshallow =>
    hengages.elim (fun hended => (hended.2 hshallow (hd.engaged hhistory)).engaged)
      fun hcut => hcut.2 hshallow (hd.engaged hhistory)
  refine ⟨_, _, _, rfl, rfl, fun c => ?_, hspans'.around, fun hover c => ?_, fun hshallow => ?_⟩
  · rw [hspans'.spanning]
    split <;> simp_all
  · obtain ⟨-, hsame⟩ := hjoins.ended hover hspans
    have hnone : ((a h d).2.coordinator c).undoDepth = 0 := (hsame c).trans (hdepth c)
    exact ⟨hnone, by simp [hspans'.spanning, hnone]⟩
  have he := hengaged hshallow
  refine ⟨he.depth_running, he.around, he.closing, fun hover c => ?_, fun c inner s hs => he.share hs, he.bracketed,
    fun c hrunning => ?_⟩
  · have hsame := ((hengages.ended hover).2 hshallow (hd.engaged hhistory)).same c
    have hidle : ((a h d).2.coordinator c).session = .idle := by
      rw [← Desk.session_books, hsame, Desk.session_books, hd.idle]
    refine ⟨hidle, ?_⟩
    rw [← he.depth_running, hidle]
    rfl
  · obtain ⟨inner, s, hs⟩ := he.active hrunning
    refine ⟨?_, fun later => ⟨⟨s, Act.scopeShare_run hs⟩, fun f reason => he.mutateIn_error hheld' hs⟩⟩
    rw [hs]
    cases inner <;> simp [Sessions.leave]

/-- An undoable edit that enters a session of its coordinator while it has the document in hand, and is cut off
there. A listener has had a session of the same coordinator when it heard that a change was about to begin. -/
theorem Host.Callers.state_means_nested :
    let h : Host Unit := .answering do let _ ← Act.edit 0 fun s => Act.mutateIn s fun _ => pure ((), "inner")
    let a : Act Unit (Except ModelError (Edited Unit)) := Act.undoableEdit 0 (some "type") fun s =>
      Act.mutateIn s fun document => do
        let _ ← Act.edit 0 fun _ => (Act.halt : Act Unit (Except ModelError Unit))
        return ((), document ++ "x")
    let d : Desk Unit :=
      { model := { document := some "", subscriptions := [⟨0, .client 0⟩] }, coordinators := [{}], client := () }
    d.AtRest 1 ∧ (∀ c, (d.coordinator c).undoDepth = 0) ∧ d.model.undoStack = [] ∧ d.model.recording = none ∧
    d.history = #[] ∧
    ∃ e w, (a h d).2 = e ∧ e.history.toList = w ∧ Shallow w ∧ running 0 w = 2 ∧ executing w = 1 ∧
      spanning 0 w = 1 ∧ 0 < (e.coordinator 0).undoDepth ∧ (e.coordinator 0).session.depth = 2 ∧
      (∀ inner s, (e.coordinator 0).session = .active inner s →
        s ∈ e.model.live ∧ e.model.accessOf? s.id = some .edit) ∧
      e.coordinators.countP (·.session.isActive) ≤ e.model.changing ∧
      ∀ later : Host Unit, (∃ s, Act.scopeShare ⟨0⟩ later e = (.returned s, e)) ∧
        ∀ {β : Type} (f : Document → Act Unit (β × Document)) reason,
          (Act.mutateIn ⟨0⟩ f later e).1 = .returned (.error reason) →
          reason = .unavailable ∧ (.mutated false ∈ w ∨ 0 < executing w) := by
  intro h a d
  have hmutate (s : Scope) {f : Document → Act Unit (Unit × Document)}
      (hf : ∀ document, Act.Caller 1 Act.LeavesSessions (f document)) :
      Act.Caller 1 Act.LeavesSessions (Act.mutateIn s f) :=
    .mutateIn (fun ha => .offBooks ha) s hf
  have hh : h.Callers 1 Act.LeavesSessions :=
    .answering (.bind (.edit (by decide) (hmutate _ fun _ => .pure _)) fun _ => .pure _)
  have ha : Act.Caller 1 Act.LeavesSessions a := .undoable _ (by decide) <| hmutate _ fun _ =>
    .bind (.edit (by decide) (.op (.offBooks .halt))) fun _ => .pure _
  have hnew : ∀ x ∈ d.coordinators, x = {} := by simp [d]
  have hd : d.AtRest 1 := .of_new rfl hnew rfl rfl
  have hnone (c : CoordinatorId) : (d.coordinator c).undoDepth = 0 := by rw [Desk.coordinator_new hnew]
  have hdeeds : (a h d).2.history.toList.filter Deed.ofSession = [.starting 0 2, .starting 0 3, .opened 0 3, .runs 0,
      .ran 0, .left 0, .opened 0 2, .runs 0, .entered 0 2, .runs 0] := by decide +kernel
  have hshallow : Shallow (a h d).2.history.toList := fun id depth hmem => by
    have hentered := hdeeds ▸ List.mem_filter.2 ⟨hmem, rfl⟩
    obtain ⟨-, rfl⟩ : id = 0 ∧ depth = 2 := by simpa using hentered
    decide
  have hrunning : running 0 (a h d).2.history.toList = 2 := by decide +kernel
  have hspanning : spanning 0 (a h d).2.history.toList = 1 := by decide +kernel
  obtain ⟨_, e, w, hrun, rfl, hspans, -, -, hrest⟩ := hh.state_means ha hd hnone rfl rfl rfl
  obtain rfl : (a h d).2 = e := congrArg Prod.snd hrun
  obtain ⟨hdepth, -, -, -, hheld, hbrackets, hserves⟩ := hrest hshallow
  exact ⟨hd, hnone, rfl, rfl, rfl, _, _, rfl, rfl, hshallow, hrunning, by decide +kernel, hspanning,
    (hspans 0).2 (by rw [hspanning]; decide), (hdepth 0).trans hrunning, hheld 0, hbrackets,
    (hserves 0 (by rw [hrunning]; decide)).2⟩

end FormDesk

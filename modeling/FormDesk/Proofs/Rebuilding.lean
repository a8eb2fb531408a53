/-
Rebuilding the model while others work with it. A run is taken apart into the desks
that it passes through (`Desk.Timeline`), whatever is done and whoever is called
meanwhile (`Host.Callers.timeline`). One step of it adds to what is kept for undoing
at most the document that the model holds at that step (`Desk.Ages`), and a
rebuilding drops all that is on the undo stack. So what is on the stack later was
taken at the rebuilding or after it (`Host.Callers.rebuilding_forgets`), but for the
one segment that was being recorded when the model was rebuilt: it keeps the document
from before, and an undo brings that document back (`Host.snapshot_kept`).
-/
import FormDesk.Proofs.Deskwork

namespace FormDesk

variable {σ α : Type}

/-- What is kept for undoing: the segment that is being recorded, and those that were completed. -/
def Model.kept (m : Model) : List Segment := (m.recording.map (·.entry)).toList ++ m.undoStack

namespace Model

variable {m m' : Model}

theorem kept_congr (hstack : m'.undoStack = m.undoStack) (hrecording : m'.recording = m.recording) :
    m'.kept = m.kept := by rw [kept, kept, hstack, hrecording]

theorem mem_kept_of_stack {s : Segment} (hs : s ∈ m.undoStack) : s ∈ m.kept := List.mem_append_right _ hs

/-- A recording that begins keeps the document that the model holds; one that goes on keeps what it kept. -/
theorem kept_beginRecording {s : Share} {owner : Owner} {label : Option String}
    (h : m.beginRecording s owner label = .ok m') :
    ∀ x ∈ m'.kept, x ∈ m.kept ∨ x.before = m.document := by
  obtain ⟨-, -, -, rfl⟩ := beginRecording_ok h
  intro x hx
  unfold kept recordingFrom enter at *
  cases hr : m.recording with
  | none =>
    rw [hr] at hx
    obtain rfl | hx := List.mem_cons.1 hx
    · exact .inr rfl
    · exact .inl hx
  | some r =>
    rw [hr] at hx
    exact .inl hx

/-- A recording that ends moves its segment onto the stack. -/
theorem kept_endRecording {s : Share} {owner : Owner} (h : m.endRecording s owner = .ok m') : m'.kept = m.kept := by
  obtain ⟨-, r, hr, rfl⟩ := endRecording_ok h
  unfold kept recordingEnded enter
  rw [hr]
  cases r.inner <;> rfl

theorem kept_popUndo {entry : Segment} (h : m.popUndo? = some (entry, m')) : ∀ x ∈ m'.kept, x ∈ m.kept := by
  obtain ⟨rest, hstack, rfl⟩ := popUndo?_some h
  intro x hx
  unfold kept at *
  rw [hstack]
  rcases List.mem_append.1 hx with hx | hx
  · exact List.mem_append_left _ hx
  · exact List.mem_append_right _ (List.mem_cons_of_mem _ hx)

/-- Of what was kept, a rebuilt model keeps the segment that is being recorded. -/
theorem kept_rebuild (m : Model) (document : Document) :
    (m.rebuild document).kept = (m.recording.map (·.entry)).toList := List.append_nil _

end Model

namespace Desk

/-! ## Timelines -/

/-- The desk with its model rebuilt and that told. -/
def rebuilt (d : Desk σ) (document : Document) : Desk σ :=
  { d with model := d.model.rebuild document }.enter (.emitted .rebuilt)

/-- One step of what is done at a desk, but for the document that an undo puts in place. The event of a
rebuilt model goes out with the rebuilding. -/
inductive RunStep : Desk σ → Desk σ → Prop
  | passage {d e} : Passage d e → RunStep d e
  | recorded {d e} : Recorded d e → RunStep d e
  | inHand {d e} : InHand d e → RunStep d e
  | clientStep {d e} : ClientStep d e → RunStep d e
  | offDocument {d e} : OffDocument d e → RunStep d e
  | popped {d entry m} : d.model.popUndo? = some (entry, m) → RunStep d { d with model := m }
  | left {d s token m} : d.model.unsubscribe s token = .ok (true, m) → RunStep d (d.accepted s .unsubscribe m)
  | held {d} (l : List Ref) : RunStep d { d with held := l }
  | emitted {d event} : event ≠ .rebuilt → RunStep d (d.enter (.emitted event))
  | unclaimed {d} (o : Observer) (token : Token) : RunStep d (d.enter (.unclaimed o token))
  | detaching {d} (id : RelayId) (token : Token) (available : Bool) :
      RunStep d (d.enter (.detaching id token available))
  | relays {d} (l : List Relay) : RunStep d { d with relays := l }
  | offModel {d e} : OffModel d e → RunStep d e
  | rebuilt {d} (document : Document) : RunStep d (d.rebuilt document)

/-- A run from `d`, step by step: the desks that it passes through after `d`, in order, and the last one. An
undo puts in place what it has taken off the stack at a desk of the run. -/
inductive Timeline (d : Desk σ) : List (Desk σ) → Desk σ → Prop
  | start : Timeline d [] d
  | step {l e f} : Timeline d l e → RunStep e f → Timeline d (l ++ [f]) f
  | restored {l e x entry m} : Timeline d l e → x ∈ d :: l → x.model.popUndo? = some (entry, m) →
      Timeline d (l ++ [{ e with model := (e.model.restore entry).2 }])
        { e with model := (e.model.restore entry).2 }

namespace Timeline

variable {d e f : Desk σ} {l k : List (Desk σ)}

theorem mem_last (h : d.Timeline l e) : e ∈ d :: l := by
  cases h with
  | start => exact List.mem_cons_self
  | step | restored => exact List.mem_cons_of_mem _ (List.mem_append_right _ List.mem_cons_self)

theorem append (h : d.Timeline l e) (h' : e.Timeline k f) : d.Timeline (l ++ k) f := by
  induction h' with
  | start => rwa [List.append_nil]
  | step _ hstep ih =>
    rw [← List.append_assoc]
    exact ih.step hstep
  | @restored k _ x _ _ _ hx hpop ih =>
    rw [← List.append_assoc]
    refine ih.restored ?_ hpop
    rcases List.mem_cons.1 hx with rfl | hx
    · exact List.mem_append_left k h.mem_last
    · exact List.mem_append_right (d :: l) hx

theorem of_step (h : RunStep d e) : d.Timeline [e] e := start.step h

theorem path : Path fun d e : Desk σ => ∃ l, d.Timeline l e where
  refl _ := ⟨[], start⟩
  trans := fun ⟨_, h⟩ ⟨_, h'⟩ => ⟨_, h.append h'⟩

end Timeline

/-- The contract that a run is done step by step. -/
def timing (σ : Type) : Contract σ := Timeline.path.contract

/-! ## What one step adds -/

/-- The model was not rebuilt, and what is kept for undoing is what was kept, or the document of this moment. -/
structure Ages (d e : Desk σ) : Prop where
  deeds : ∃ w, e.history.toList = d.history.toList ++ w ∧ .emitted .rebuilt ∉ w
  kept : ∀ s ∈ e.model.kept, s ∈ d.model.kept ∨ s.before = d.model.document

namespace Ages

variable {d e f : Desk σ}

theorem refl (d : Desk σ) : Ages d d := ⟨⟨[], by simp, by simp⟩, fun _ hs => .inl hs⟩

theorem enter (h : Ages d e) {x : Deed} (hx : x ≠ .emitted .rebuilt) : Ages d (e.enter x) := by
  obtain ⟨w, hw, hno⟩ := h.deeds
  refine ⟨⟨w ++ [x], by rw [toList_enter, hw, List.append_assoc], ?_⟩, h.kept⟩
  simp only [List.mem_append, List.mem_singleton, not_or]
  exact ⟨hno, hx.symm⟩

theorem announced (h : Ages d e) (b : Bool) (event : Event) (hevent : event ≠ .rebuilt) :
    Ages d (e.announced b event) := by
  cases b with
  | false => exact h
  | true => exact h.enter fun heq => hevent (Deed.emitted.inj heq)

/-- Nothing happened that the history tells, and what is kept is the same. -/
theorem goes (h : Ages d e) (hhistory : f.history = e.history) (hstack : f.model.undoStack = e.model.undoStack)
    (hrecording : f.model.recording = e.model.recording) : Ages d f where
  deeds := by
    rw [hhistory]
    exact h.deeds
  kept := by
    rw [Model.kept_congr hstack hrecording]
    exact h.kept

theorem accepted (d : Desk σ) (s : Share) (c : Call) {m : Model}
    (hkept : ∀ x ∈ m.kept, x ∈ d.model.kept ∨ x.before = d.model.document) : Ages d (d.accepted s c m) :=
  ⟨⟨[.call s.id c], d.toList_accepted s c m, by simp⟩, hkept⟩

/-- A call that has to do with neither recordings nor the undo stack. -/
theorem called (d : Desk σ) (s : Share) (c : Call) {m : Model} (hstack : m.undoStack = d.model.undoStack)
    (hrecording : m.recording = d.model.recording) : Ages d (d.accepted s c m) :=
  .accepted d s c fun _ hx => .inl (Model.kept_congr hstack hrecording ▸ hx)

end Ages

section

variable {d e : Desk σ}

theorem Passage.ages (h : Passage d e) : Ages d e := by
  cases h with
  | visit h =>
    cases h with
    | acquire h =>
      obtain ⟨-, rfl, rfl⟩ := Model.acquire_ok h
      exact .called d _ _ rfl rfl
    | release h =>
      obtain ⟨-, rfl⟩ := Model.release?_some h
      exact .called d _ _ rfl rfl
    | client s => exact (Ages.refl d).goes rfl rfl rfl
  | openBracket h =>
    obtain ⟨-, -, rfl⟩ := Model.openBracket_ok h
    refine Ages.announced ?_ _ .aboutToChange nofun
    exact .called d _ _ rfl rfl
  | closeBracket h =>
    obtain ⟨-, n, -, rfl⟩ := Model.closeBracket_ok h
    refine Ages.announced ?_ _ (.changed _) nofun
    exact .called d _ _ rfl rfl
  | starting | entered | left | runs | ran | opened => exact (Ages.refl d).enter nofun
  | session => exact (Ages.refl d).goes rfl rfl rfl

theorem Recorded.ages (h : Recorded d e) : Ages d e := by
  cases h with
  | beginRecording h => exact .accepted d _ _ (Model.kept_beginRecording h)
  | endRecording h => exact .accepted d _ _ fun _ hx => .inl (Model.kept_endRecording h ▸ hx)
  | began | finished | edits | edited => exact (Ages.refl d).enter nofun
  | depth => exact (Ages.refl d).goes rfl rfl rfl

theorem InHand.ages (h : InHand d e) : Ages d e := by
  cases h with
  | take h =>
    obtain ⟨-, -, -, rfl⟩ := Model.takeDocument_ok h
    exact .called d _ _ rfl rfl
  | put => exact ((Ages.refl d).enter (x := .mutated true) nofun).goes rfl rfl rfl
  | lose => exact (Ages.refl d).enter nofun

theorem OffDocument.ages (h : OffDocument d e) : Ages d e := by
  cases h with
  | available available =>
    exact ((Ages.refl d).enter (x := .availability available d.undoing) nofun).goes rfl rfl rfl
  | subscribe h =>
    obtain ⟨-, rfl⟩ := Model.subscribe_ok h
    exact .called d _ _ rfl rfl
  | client | recordable | saved | moved => exact (Ages.refl d).goes rfl rfl rfl

/-- One step keeps what was kept and the document of the moment at most, or it rebuilds the model. -/
theorem RunStep.ages (h : RunStep d e) : Ages d e ∨ ∃ document, e = d.rebuilt document := by
  cases h with
  | rebuilt document => exact .inr ⟨document, rfl⟩
  | passage h => exact .inl h.ages
  | recorded h => exact .inl h.ages
  | inHand h => exact .inl h.ages
  | offDocument h => exact .inl h.ages
  | clientStep h =>
    cases h with
    | told | threw => exact .inl ((Ages.refl d).enter nofun)
    | client s => exact .inl ((Ages.refl d).goes rfl rfl rfl)
  | popped h => exact .inl ⟨⟨[], by simp, by simp⟩, fun s hs => .inl (Model.kept_popUndo h s hs)⟩
  | left h =>
    obtain rfl := Model.unsubscribe_ok h
    exact .inl (.called d _ _ rfl rfl)
  | emitted hevent => exact .inl ((Ages.refl d).enter fun heq => hevent (Deed.emitted.inj heq))
  | unclaimed | detaching => exact .inl ((Ages.refl d).enter nofun)
  | held | relays => exact .inl ((Ages.refl d).goes rfl rfl rfl)
  | offModel h =>
    exact .inl ((Ages.refl d).goes h.history (congrArg Model.undoStack h.model) (congrArg Model.recording h.model))

end

end Desk

/-! ## What is kept since the model was rebuilt -/

/-- The segment keeps a document that the model held at one of these desks. -/
def Segment.TakenIn (s : Segment) (l : List (Desk σ)) : Prop := ∃ y ∈ l, s.before = y.model.document

namespace Desk

/-- From `d` the run came by the deeds `w` to `f`, where the model was rebuilt around the document, and by the
desks `since` to `e`: whatever is kept at one of these was taken at one of these, or belongs to the recording
that was going on at `f`. -/
structure Anew (d : Desk σ) (w : List Deed) (before : List (Desk σ)) (f : Desk σ) (document : Document)
    (since : List (Desk σ)) (e : Desk σ) : Prop where
  earlier : d.Timeline before f
  deeds : f.history.toList = d.history.toList ++ w
  here : e ∈ f.rebuilt document :: since
  kept : ∀ y ∈ f.rebuilt document :: since, ∀ s ∈ y.model.kept,
    s.TakenIn (f.rebuilt document :: since) ∨ ∃ r, f.model.recording = some r ∧ s = r.entry

variable {d e f g : Desk σ} {w v : List Deed} {l before since : List (Desk σ)} {document : Document}

theorem recording_of_kept_rebuilt {s : Segment} (hs : s ∈ (f.rebuilt document).model.kept) :
    ∃ r, f.model.recording = some r ∧ s = r.entry := by
  have hs : s ∈ (f.model.rebuild document).kept := hs
  rw [Model.kept_rebuild] at hs
  cases hr : f.model.recording with
  | none => simp [hr] at hs
  | some r => exact ⟨r, rfl, by simpa [hr] using hs⟩

/-- At the moment itself. -/
theorem Anew.start (hearlier : d.Timeline before f) (hdeeds : f.history.toList = d.history.toList ++ w) :
    Anew d w before f document [] (f.rebuilt document) where
  earlier := hearlier
  deeds := hdeeds
  here := List.mem_cons_self
  kept y hy s hs := by
    obtain rfl := List.mem_singleton.1 hy
    exact .inr (recording_of_kept_rebuilt hs)

/-- One desk later, where what is kept was kept before or holds the document from before. -/
theorem Anew.snoc (h : Anew d w before f document since e)
    (hkept : ∀ s ∈ g.model.kept, s ∈ e.model.kept ∨ s.before = e.model.document) :
    Anew d w before f document (since ++ [g]) g where
  earlier := h.earlier
  deeds := h.deeds
  here := List.mem_cons_of_mem _ (List.mem_append_right _ List.mem_cons_self)
  kept y hy s hs := by
    have hlater {s : Segment} (hs : s.TakenIn (f.rebuilt document :: since)) :
        s.TakenIn (f.rebuilt document :: (since ++ [g])) := by
      obtain ⟨z, hz, htaken⟩ := hs
      exact ⟨z, List.mem_append_left [g] hz, htaken⟩
    rcases List.mem_append.1 (show y ∈ (f.rebuilt document :: since) ++ [g] from hy) with hy | hy
    · exact (h.kept y hy s hs).imp_left hlater
    · obtain rfl := List.mem_singleton.1 hy
      rcases hkept s hs with hold | hnow
      · exact (h.kept e h.here s hold).imp_left hlater
      · exact .inl (hlater ⟨e, h.here, hnow⟩)

/-- Where a deed stands among deeds that have gone on without it. -/
theorem stands_append {w u p v : List Deed} {x : Deed} (h : w ++ u = p ++ x :: v) (hx : x ∉ u) :
    ∃ v', w = p ++ x :: v' := by
  rcases List.append_eq_append_iff.1 h with ⟨a, -, rfl⟩ | ⟨c, rfl, hc⟩
  · exact absurd (List.mem_append_right a List.mem_cons_self) hx
  · cases c with
    | nil =>
      obtain rfl : x :: v = u := hc
      exact absurd List.mem_cons_self hx
    | cons y c =>
      obtain ⟨rfl, -⟩ := List.cons_eq_cons.1 hc
      exact ⟨c, rfl⟩

/-- A timeline passes through each rebuilding that the history tells. -/
theorem Timeline.anew (h : d.Timeline l e) :
    ∀ {v}, e.history.toList = d.history.toList ++ w ++ .emitted .rebuilt :: v →
      ∃ before f document since, l = before ++ f.rebuilt document :: since ∧
        Anew d w before f document since e := by
  have hgo {l : List (Desk σ)} {e g : Desk σ} (hages : Ages e g)
      (ih : ∀ {v}, e.history.toList = d.history.toList ++ w ++ .emitted .rebuilt :: v →
        ∃ before f document since, l = before ++ f.rebuilt document :: since ∧
          Anew d w before f document since e) {v : List Deed}
      (hg : g.history.toList = d.history.toList ++ w ++ .emitted .rebuilt :: v) :
      ∃ before f document since, l ++ [g] = before ++ f.rebuilt document :: since ∧
        Anew d w before f document since g := by
    obtain ⟨u, hu, hno⟩ := hages.deeds
    obtain ⟨v', hv'⟩ := stands_append (hu.symm.trans hg) hno
    obtain ⟨before, f, document, since, rfl, hanew⟩ := ih hv'
    exact ⟨before, f, document, since ++ [g], by simp, hanew.snoc hages.kept⟩
  induction h with
  | start =>
    intro v hv
    rw [List.append_assoc, List.self_eq_append_right] at hv
    simp at hv
  | @step l e g hl hstep ih =>
    intro v hv
    rcases hstep.ages with hages | ⟨document, rfl⟩
    · exact hgo hages ih hv
    -- The rebuilding in question is this one or an earlier one.
    have hdeeds : (e.rebuilt document).history.toList = e.history.toList ++ [.emitted .rebuilt] :=
      toList_enter _ _
    rcases List.eq_nil_or_concat v with rfl | ⟨v, x, rfl⟩
    · exact ⟨l, e, document, [], rfl, .start hl (List.append_inj' (hdeeds.symm.trans hv) rfl).1⟩
    · have heq : e.history.toList ++ [.emitted .rebuilt] = d.history.toList ++ w ++ .emitted .rebuilt :: v ++ [x] := by
        rw [← hdeeds, hv]
        simp
      obtain ⟨before, f, document', since, rfl, hanew⟩ := ih (List.append_inj' heq rfl).1
      refine ⟨before, f, document', since ++ [e.rebuilt document], by simp, hanew.snoc fun s hs => .inl ?_⟩
      obtain ⟨r, hr, rfl⟩ := recording_of_kept_rebuilt hs
      exact List.mem_append_left _ (by simp [hr])
  | @restored l e _ _ _ _ _ _ ih =>
    intro v hv
    exact hgo ((Ages.refl e).goes rfl rfl rfl) ih hv

end Desk

/-! ## Whatever is done at a desk -/

namespace Act

open Desk (RunStep timing)

variable {h : Host σ}

/-- One step is a run. -/
theorem ended_of_step {d e : Desk σ} (h : RunStep d e) : (timing σ).ended d e := ⟨_, .of_step h⟩

section

variable (hc : ∀ c, Keeps (timing σ) h fun _ => h.answer c)

include hc

theorem call_timeline (c : Callback) : Keeps (timing σ) h (call c) :=
  call_keeps (fun _ c => ended_of_step (.clientStep (.told c))) (fun _ c => ended_of_step (.clientStep (.threw c)))
    (fun _ _ c hcut => Desk.Timeline.path.trans hcut (ended_of_step (.clientStep (.threw c)))) hc c

theorem deliver_timeline (event : Event) (l : Listener) : Keeps (timing σ) h (deliver event l) :=
  deliver_keeps (call_timeline hc) (fun _ l => ended_of_step (.held l)) event l

theorem emit_timeline (event : Event) (hevent : event ≠ .rebuilt) : Keeps (timing σ) h (emit event) := fun _ =>
  emit_keeps (deliver_timeline hc) (ended_of_step (.emitted hevent))

theorem undo_timeline : Keeps (timing σ) h undo := by
  refine undo_keeps_of (fun _ _ => ended_of_step (.clientStep (.client _)))
    (fun hpop => ended_of_step (.popped hpop)) ?_
    (emit_timeline hc .aboutToChange nofun) fun e => emit_timeline hc (.changed e.model.document) nofun e
  rintro d e entry m hpop ⟨l, hl⟩
  exact ⟨_, hl.restored List.mem_cons_self hpop⟩

theorem rebuild_timeline (document : Document) : Keeps (timing σ) h (rebuild document) := by
  refine (emit_timeline hc .aboutToRebuild nofun).bind fun _ d => ?_
  simp only [KeepsFrom, change_bind]
  exact emit_keeps (deliver_timeline hc) (ended_of_step (.rebuilt document))

theorem Public.timeline {a : Act σ α} (ha : Public a) : Keeps (timing σ) h a := by
  have hs : ∀ d e : Desk σ, Desk.Passage d e → (timing σ).ended d e := fun _ _ hpass =>
    ended_of_step (.passage hpass)
  have hv : ∀ d e : Desk σ, Desk.Visit d e → (timing σ).ended d e := fun _ _ hvisit => hs _ _ (.visit hvisit)
  have hoffDocument {β : Type} {a : Act σ β} (ha : OffDocumentOp a) : Keeps (timing σ) h a :=
    ha.keeps (fun _ _ htend => ended_of_step (.offDocument htend)) fun event _ _ hevent =>
      emit_timeline hc event hevent
  have hnoUnsubscribe {β : Type} {a : Act σ β} (ha : NoUnsubscribe a) : Keeps (timing σ) h a :=
    ha.visiting hv (fun _ _ hrecorded => ended_of_step (.recorded hrecorded)) hoffDocument (undo_timeline hc)
      (rebuild_timeline hc) (openBracket_keeps hs (deliver_timeline hc)) (closeBracket_keeps hs (deliver_timeline hc))
  exact ha.elim hnoUnsubscribe fun s token d => unsubscribe_keeps (note_keeps hv) fun _ hleft =>
    ended_of_step (.left hleft)

theorem DeskPart.timeline {a : Act σ α} (ha : DeskPart Public a) : Keeps (timing σ) h a := by
  have hv : ∀ d e : Desk σ, Desk.Visit d e → (timing σ).ended d e :=
    fun _ _ hvisit => ended_of_step (.passage (.visit hvisit))
  cases ha with
  | hand ha => exact ha.timeline hc
  | look f => exact .look f
  | note n => exact note_keeps hv n
  | arrange hf => exact .change fun d => ended_of_step (.offModel (hf d))
  | attach o =>
    exact attach_keeps hv (fun _ _ _ _ hsubscribe => ended_of_step (.offDocument (.subscribe hsubscribe)))
      (fun _ token => ended_of_step (.unclaimed o token)) (fun _ l => ended_of_step (.relays l))
      fun document => deliver_timeline hc (.changed document) (.relay o)
  | detach id =>
    exact detach_keeps hv (fun _ token available => ended_of_step (.detaching id token available))
      (fun _ l => ended_of_step (.relays l)) fun _ _ _ _ hleft => ended_of_step (.left hleft)
  | ask => exact call_timeline hc _

theorem Trusts.timeline (n : Nat) : Trusts n (DeskPart Public) (timing σ) h := by
  refine .visiting (fun _ _ hvisit => ended_of_step (.passage (.visit hvisit)))
    (fun _ _ hrecorded => ended_of_step (.recorded hrecorded)) (fun ha => ha.timeline hc) (fun s _ hf _ => ?_)
    fun id => edit_keeps (fun _ _ hpass => ended_of_step (.passage hpass)) (deliver_timeline hc) id
  exact mutate_keeps (fun _ _ htake => ended_of_step (.inHand (.take htake)))
    (fun _ document => ended_of_step (.inHand (.put document))) (fun _ => ended_of_step (.inHand .lose))
    (emit_timeline hc (.dirtyChanged true) nofun) hf

end

end Act

open Act (DeskOp Public)

variable {n : Nat} {h : Host σ}

/-- Whatever is done at a desk is done step by step. -/
theorem Host.Callers.timeline (hh : h.Callers n (DeskOp Public)) {a : Act σ α} (ha : Act.Caller n (DeskOp Public) a)
    (d : Desk σ) : ∃ l, d.Timeline l (a h d).2 :=
  Act.keeps_contract.1 ((hh.mono DeskOp.deskParts).keeps (fun _ hc => Act.Trusts.timeline hc n)
    (ha.mono DeskOp.deskParts)) d

/-- **Rebuilding forgets what can be undone**, but for the segment that is being recorded. Let callers do whatever
they will, and take the run apart into its steps in any way. When the history tells that the model was rebuilt,
the run went by a desk `f` and had the model rebuilt there around a document. From that moment on whatever is on the
undo stack keeps a document that the model held at that moment or later, or it is the segment that was being recorded
at `f`. So when nothing was being recorded, no undo brings back a document from before. -/
theorem Host.Callers.rebuilding_forgets (hh : h.Callers n (DeskOp Public)) {a : Act σ α}
    (ha : Act.Caller n (DeskOp Public) a) (d : Desk σ) :
    (∃ l, d.Timeline l (a h d).2) ∧ ∀ l, d.Timeline l (a h d).2 → ∀ w v,
      (a h d).2.history.toList = d.history.toList ++ w ++ .emitted .rebuilt :: v →
      ∃ before f document since, d.Timeline before f ∧ f.history.toList = d.history.toList ++ w ∧
        l = before ++ f.rebuilt document :: since ∧ (f.rebuilt document).model.document = some document ∧
        ∀ y ∈ f.rebuilt document :: since, ∀ s ∈ y.model.undoStack,
          s.TakenIn (f.rebuilt document :: since) ∨ ∃ r, f.model.recording = some r ∧ s = r.entry := by
  refine ⟨hh.timeline ha d, fun l hl w v hw => ?_⟩
  obtain ⟨before, f, document, since, rfl, hanew⟩ := hl.anew hw
  exact ⟨before, f, document, since, hanew.earlier, hanew.deeds, rfl, rfl, fun y hy s hs =>
    hanew.kept y hy s (Model.mem_kept_of_stack hs)⟩

/-- A model that is rebuilt in the middle of an edit, between two undoable ones: of these the second one can be taken
back. -/
theorem Host.Callers.rebuilding_forgets_editing :
    let h : Host Unit := .silent
    let write (text : String) (s : Scope) : Act Unit (Except ModelError Unit) :=
      Act.mutateIn s fun document => pure ((), document ++ text)
    let a : Act Unit (Except ModelError (Edited Unit)) := do
      let _ ← Act.undoableEdit 0 (some "one") (write "1")
      let _ ← Act.edit 0 fun s => do
        Act.rebuild "r"
        write "2" s
      Act.undoableEdit 0 (some "three") (write "3")
    let d : Desk Unit := { model := { document := some "d" }, coordinators := [{}], client := () }
    h.Callers 1 (DeskOp Public) ∧ Act.Caller 1 (DeskOp Public) a ∧
      (a h d).2.model.undoStack = [⟨some "three", .coordinator 0, some "r2"⟩] ∧
      ∃ l before f document since, d.Timeline l (a h d).2 ∧ d.Timeline before f ∧
        l = before ++ f.rebuilt document :: since ∧ (f.rebuilt document).model.document = some document ∧
        ∀ y ∈ f.rebuilt document :: since, ∀ s ∈ y.model.undoStack,
          s.TakenIn (f.rebuilt document :: since) ∨ ∃ r, f.model.recording = some r ∧ s = r.entry := by
  intro h write a d
  have hwrite (text : String) (s : Scope) : Act.Caller 1 (DeskOp Public) (write text s) :=
    .mutateIn (fun ha => .hand (.offBooks ha)) s fun _ => .pure _
  have hh : h.Callers 1 (DeskOp Public) := .silent fun _ _ => rfl
  have ha : Act.Caller 1 (DeskOp Public) a :=
    .bind (.undoable _ (by decide) (hwrite "1" _)) fun _ =>
      .bind (.edit (by decide) (.bind (.op (.hand (.offBooks (.rebuild "r")))) fun _ => hwrite "2" _)) fun _ =>
        .undoable _ (by decide) (hwrite "3" _)
  have hdeeds : (a h d).2.history.toList =
      d.history.toList ++ (a h d).2.history.toList.takeWhile (· != .emitted .rebuilt) ++
        .emitted .rebuilt :: ((a h d).2.history.toList.dropWhile (· != .emitted .rebuilt)).tail := by decide +kernel
  obtain ⟨⟨l, hl⟩, hforgets⟩ := hh.rebuilding_forgets ha d
  obtain ⟨before, f, document, since, hbefore, -, hsplit, hdocument, hkept⟩ := hforgets l hl _ _ hdeeds
  exact ⟨hh, ha, by decide +kernel, l, before, f, document, since, hl, hbefore, hsplit, hdocument, hkept⟩

/-- A model that is rebuilt in the middle of an undoable edit. None of the documents that it holds from then on is the
one from before the edit; but that one is kept, and an undo brings it back. -/
theorem Host.snapshot_kept :
    let h : Host Unit := .silent
    let write (text : String) (s : Scope) : Act Unit (Except ModelError Unit) :=
      Act.mutateIn s fun document => pure ((), document ++ text)
    let a : Act Unit (Except ModelError (Edited Unit)) := Act.undoableEdit 0 (some "type") fun s => do
      let _ ← write "1" s
      Act.rebuild "r"
      write "2" s
    let d : Desk Unit :=
      { model := { document := some "d", subscriptions := [⟨0, .client 0⟩] }, coordinators := [{}], client := () }
    let e := (a h d).2
    let since := e.history.toList.dropWhile (· != .emitted .rebuilt)
    h.Callers 1 (DeskOp Public) ∧ Act.Caller 1 (DeskOp Public) a ∧ d.model.undoStack = [] ∧
      .emitted .rebuilt ∈ e.history.toList ∧
      (since.filterMap fun | .told _ document => some document | _ => none) = [some "r", some "r2", some "r2"] ∧
      e.model.changing = 0 ∧ e.model.recording = none ∧ e.model.document = some "r2" ∧
      e.model.undoStack = [⟨some "type", .coordinator 0, some "d"⟩] ∧
      (Act.undo h e).1 = .returned (some ⟨some "type", .coordinator 0, some "r2"⟩) ∧
      (Act.undo h e).2.model.document = some "d" := by
  intro h write a d e since
  have hwrite (text : String) (s : Scope) : Act.Caller 1 (DeskOp Public) (write text s) :=
    .mutateIn (fun ha => .hand (.offBooks ha)) s fun _ => .pure _
  have ha : Act.Caller 1 (DeskOp Public) a :=
    .undoable _ (by decide) <| .bind (hwrite "1" _) fun _ =>
      .bind (.op (.hand (.offBooks (.rebuild "r")))) fun _ => hwrite "2" _
  exact ⟨.silent fun _ _ => rfl, ha, rfl, by decide +kernel, by decide +kernel, by decide +kernel, by decide +kernel,
    by decide +kernel, by decide +kernel, by decide +kernel, by decide +kernel⟩

end FormDesk

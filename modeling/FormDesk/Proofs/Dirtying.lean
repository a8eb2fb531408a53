/-
Whether the model is dirty, and what listeners hear of it. A listener may keep a
flag: set as it hears that the model became dirty or clean, and lowered as it
hears that the model was rebuilt (`Event.mark`). Mutations, saves and rebuilding
announce what they do to the model. An undo does not: it leaves the model dirty
and says nothing of it.

So the model is dirty when the flag is up, or when an undo was made since the
listeners last heard that it is clean (`Deed.undone`): an undo's document is the
one whose announcement does not follow the call that closes a bracket. Where
none was made the flag tells the truth, and every announcement is of a change
(`dirty_announced`); and an undo on a clean model goes unheard
(`undo_unannounced`).
-/
import FormDesk.Proofs.Bystander
import FormDesk.Proofs.Holding
import FormDesk.Proofs.Deskwork

namespace FormDesk

variable {σ α : Type}

/-- What an event makes of a flag that tells whether the model is dirty. -/
def Event.mark (flag : Bool) : Event → Bool
  | dirtyChanged dirty => dirty
  | rebuilt => false
  | _ => flag

/-- Hearing an event again makes no difference. -/
theorem Event.mark_replicate (event : Event) (flag : Bool) :
    ∀ k, (List.replicate (k + 1) event).foldl mark flag = event.mark flag
  | 0 => rfl
  | k + 1 => by
    rw [List.replicate_succ, List.foldl_cons, mark_replicate event _ k]
    cases event <;> rfl

/-- The way up to some deed, as far as undos go. -/
structure Trail where
  /-- The last deed is the call that closes a bracket. -/
  closing : Bool := false
  /-- An undo was made since the listeners last heard that the model is clean. -/
  undone : Bool := false
  deriving DecidableEq, Repr

/-- The way up to the next deed. -/
def Trail.step (t : Trail) : Deed → Trail
  | .call _ .changed => { t with closing := true }
  | .emitted (.changed _) => { closing := false, undone := t.undone || !t.closing }
  | .emitted (.dirtyChanged false) | .emitted .rebuilt => { closing := false, undone := false }
  | _ => { t with closing := false }

namespace Deed

/-- The way through deeds. -/
def trail (w : List Deed) : Trail := w.foldl Trail.step {}

/-- Whether an undo was made since the listeners last heard that the model is clean. -/
def undone (w : List Deed) : Bool := (trail w).undone

/-- The flag of a listener that heard of these deeds from the first one on. -/
def flag (id : ListenerId) (w : List Deed) : Bool := (w.filterMap (hears? id)).foldl Event.mark false

/-- Whether the model is dirty, for all that these deeds tell. -/
def toldDirty (id : ListenerId) (w : List Deed) : Bool := flag id w || undone w

/-- An event that tells of a model that became dirty or clean tells of a change. -/
def TellsChange (id : ListenerId) (w : List Deed) (x : Deed) : Prop :=
  ∀ dirty, x = .emitted (.dirtyChanged dirty) → toldDirty id w = !dirty

variable {id : ListenerId} {w u : List Deed}

theorem trail_append : trail (w ++ u) = u.foldl Trail.step (trail w) := List.foldl_append

theorem flag_append : flag id (w ++ u) = (u.filterMap (hears? id)).foldl Event.mark (flag id w) := by
  simp [flag]

theorem hears?_of_unheard {x : Deed} (hx : x.unheard = true) : x.hears? id = none := by
  cases x <;> first | rfl | cases hx

theorem undone_of_unheard {t : Trail} {x : Deed} (hx : x.unheard = true) : (t.step x).undone = t.undone := by
  cases x with
  | call s c => cases c <;> rfl
  | emitted event => cases hx
  | _ => rfl

theorem flag_unheard (hu : ∀ x ∈ u, x.unheard = true) : flag id (w ++ u) = flag id w := by
  rw [flag_append, List.filterMap_eq_nil_iff.2 fun x hx => hears?_of_unheard (hu x hx)]
  rfl

/-- Deeds that tell nobody anything have nothing to do with whether the model is dirty. -/
theorem toldDirty_unheard (hu : ∀ x ∈ u, x.unheard = true) : toldDirty id (w ++ u) = toldDirty id w := by
  have hundone : ∀ t : Trail, (u.foldl Trail.step t).undone = t.undone := by
    induction u with
    | nil => exact fun _ => rfl
    | cons x u ih =>
      intro t
      rw [List.foldl_cons, ih fun y hy => hu y (List.mem_cons_of_mem _ hy),
        undone_of_unheard (hu x List.mem_cons_self)]
  rw [toldDirty, flag_unheard hu, undone, trail_append, hundone]
  rfl

theorem TellsChange.of_unheard {x : Deed} (hx : x.unheard = true) : TellsChange id w x := fun _ h => by
  rw [h] at hx
  cases hx

end Deed

namespace Desk

/-- The listener is there, and what was done after the deeds `v` tells whether the model is dirty. -/
structure DirtyTold (id : ListenerId) (v : List Deed) (d : Desk σ) : Prop where
  listening : 0 < d.listening id
  since : ∃ w, d.history.toList = v ++ w ∧ d.model.dirty = Deed.toldDirty id w ∧
    Deed.Orderly (Deed.TellsChange id) w

variable {id : ListenerId} {v w : List Deed} {d e : Desk σ}

theorem Unheard.listening (h : Unheard d e) (hd : 0 < d.listening id) : 0 < e.listening id := by
  unfold Desk.listening at *
  rcases h.subscriptions with ⟨hs, -⟩ | ⟨listener, hs, -⟩
  · rwa [hs]
  · rw [hs, List.countP_append]
    omega

/-- What tells nobody anything and leaves the model as clean or dirty as it was. -/
theorem DirtyTold.unheard (hd : d.DirtyTold id v) (h : Unheard d e) (hdirty : e.model.dirty = d.model.dirty) :
    e.DirtyTold id v := by
  obtain ⟨w, hw, htold, horderly⟩ := hd.since
  obtain ⟨u, hu, hunheard⟩ := h.deeds
  refine ⟨h.listening hd.listening, w ++ u, by rw [hu, hw, List.append_assoc], ?_, ?_⟩
  · rw [hdirty, htold, Deed.toldDirty_unheard hunheard]
  · exact horderly.append fun x hx _ => .of_unheard (hunheard x hx)

end Desk

theorem foldl_trail_told {u : List Deed} (hu : ∀ x ∈ u, ∃ c document, x = .told c document) {t : Trail}
    (ht : t.closing = false) : u.foldl Trail.step t = t := by
  induction u with
  | nil => rfl
  | cons x u ih =>
    obtain ⟨c, document, rfl⟩ := hu x List.mem_cons_self
    have hstep : t.step (.told c document) = t := by
      cases t
      exact congrArg (Trail.mk · _) ht.symm
    rw [List.foldl_cons, hstep]
    exact ih fun y hy => hu y (List.mem_cons_of_mem _ hy)

/-- The flag of a listener and the way of undos after an event went out to it. -/
theorem Act.emit_marks {h : Host σ} (hh : h.Bystander) (event : Event) {id : ListenerId} {d : Desk σ}
    (hd : 0 < d.listening id) {v w : List Deed} (hw : d.history.toList = v ++ w)
    (horderly : Deed.Orderly (Deed.TellsChange id) w) (htells : Deed.TellsChange id w (.emitted event)) :
    ∃ e u, emit event h d = (.returned (), e) ∧ e.model = d.model ∧ e.history.toList = v ++ u ∧
      Deed.flag id u = event.mark (Deed.flag id w) ∧ Deed.trail u = (Deed.trail w).step (.emitted event) ∧
      Deed.Orderly (Deed.TellsChange id) u := by
  obtain ⟨s, hrun⟩ := emit_run hh event d
  have htold (x : Deed) (hx : x ∈ d.tellings event) : ∃ c document, x = .told c document :=
    have ⟨c, hc⟩ := Desk.tellings_told hx
    ⟨c, _, hc⟩
  refine ⟨_, w ++ .emitted event :: d.tellings event, hrun, rfl, by simp [hw], ?_, ?_, ?_⟩
  · obtain ⟨k, hk⟩ : ∃ k, d.listening id = k + 1 := ⟨_, (Nat.sub_add_cancel hd).symm⟩
    rw [Deed.flag_append, List.filterMap_cons_none rfl, Desk.tellings_heard, hk, Event.mark_replicate]
  · rw [Deed.trail_append, List.foldl_cons]
    exact foldl_trail_told htold (by cases event with | dirtyChanged dirty => cases dirty <;> rfl | _ => rfl)
  · rw [List.append_cons]
    refine (horderly.snoc htells).append fun x hx _ dirty heq => ?_
    obtain ⟨c, document, rfl⟩ := htold x hx
    cases heq

/-! ## What is done with the model -/

namespace Desk

theorem DirtyTold.path (id : ListenerId) (v : List Deed) :
    Path fun d e : Desk σ => d.DirtyTold id v → e.DirtyTold id v :=
  ⟨fun _ hd => hd, fun h h' hd => h' (h hd)⟩

/-- The contract that a listener goes on being there, and what was done tells whether the model is dirty. -/
def dirtyTelling (σ : Type) (id : ListenerId) (v : List Deed) : Contract σ :=
  (DirtyTold.path (σ := σ) id v).contract

variable {id : ListenerId} {v : List Deed} {d e : Desk σ}

theorem Motion.dirty (h : Motion d e) : e.model.dirty = d.model.dirty := by
  cases h with
  | visit h =>
    cases h with
    | acquire h =>
      obtain ⟨-, -, rfl⟩ := Model.acquire_ok h
      rfl
    | release h =>
      obtain ⟨-, rfl⟩ := Model.release?_some h
      rfl
    | client => rfl
  | starting | entered | left | runs | ran | session | opened => rfl

theorem Recorded.dirty (h : Recorded d e) : e.model.dirty = d.model.dirty := by
  cases h with
  | beginRecording h =>
    obtain ⟨-, -, -, rfl⟩ := Model.beginRecording_ok h
    rfl
  | endRecording h =>
    obtain ⟨-, r, -, rfl⟩ := Model.endRecording_ok h
    unfold Model.recordingEnded
    split <;> rfl
  | began | finished | edits | edited | depth => rfl

theorem Motion.dirtyTold (h : Motion d e) : (dirtyTelling σ id v).ended d e :=
  fun hd => hd.unheard h.unheard h.dirty

theorem Recorded.dirtyTold (h : Recorded d e) : (dirtyTelling σ id v).ended d e :=
  fun hd => hd.unheard h.unheard h.dirty

end Desk

namespace Act

open Desk (DirtyTold dirtyTelling)

variable {h : Host σ} (hh : h.Bystander) {id : ListenerId} {v : List Deed}

include hh

/-- An event that goes out after the model came to be as clean or dirty as the event makes the deeds say. -/
theorem emit_dirtyTold (event : Event) {d : Desk σ} (hd : 0 < d.listening id) {w : List Deed}
    (hw : d.history.toList = v ++ w) (horderly : Deed.Orderly (Deed.TellsChange id) w)
    (htells : Deed.TellsChange id w (.emitted event)) (hdirty : d.model.dirty =
      (event.mark (Deed.flag id w) || ((Deed.trail w).step (.emitted event)).undone)) :
    (emit event h d).2.DirtyTold id v := by
  obtain ⟨e, u, hrun, hmodel, hu, hflag, htrail, horderly⟩ := emit_marks hh event hd hw horderly htells
  rw [hrun]
  refine ⟨by rwa [Desk.listening, hmodel], u, hu, ?_, horderly⟩
  rw [hmodel, hdirty, Deed.toldDirty, hflag, Deed.undone, htrail]

/-- Events that have nothing to do with whether the model is dirty. -/
theorem emit_other_dirtyTold {event : Event} (hmark : ∀ flag, event.mark flag = flag)
    (hundone : ∀ t : Trail, (t.step (.emitted event)).undone = t.undone) :
    Keeps (dirtyTelling σ id v) h (emit event) :=
  keeps_contract.2 fun d hd => by
    obtain ⟨w, hw, htold, horderly⟩ := hd.since
    refine emit_dirtyTold hh event hd.listening hw horderly (fun dirty heq => ?_) ?_
    · cases heq
      exact absurd (hmark (!dirty)) (Bool.eq_not_self dirty).1
    · rw [hmark, hundone]
      exact htold

theorem save_dirtyTold : Keeps (dirtyTelling σ id v) h save :=
  keeps_contract.2 fun d hd => by
    obtain ⟨w, hw, htold, horderly⟩ := hd.since
    simp only [save, look_bind, change_bind]
    cases hdirty : d.model.dirty with
    | false =>
      simp only [Bool.false_eq_true, if_false, pure_run]
      exact hd.unheard (.still rfl rfl rfl rfl) hdirty.symm
    | true =>
      simp only [if_true]
      refine emit_dirtyTold hh _ hd.listening hw horderly (fun dirty heq => ?_) rfl
      cases heq
      exact htold.symm.trans hdirty

theorem rebuild_dirtyTold (document : Document) : Keeps (dirtyTelling σ id v) h (rebuild document) := by
  have hfirst : Keeps (dirtyTelling σ id v) h (emit .aboutToRebuild) :=
    emit_other_dirtyTold hh (fun _ => rfl) fun _ => rfl
  refine hfirst.bind fun _ => keeps_contract.2 fun d hd => ?_
  obtain ⟨w, hw, -, horderly⟩ := hd.since
  exact emit_dirtyTold hh _ hd.listening hw horderly (fun _ heq => by cases heq) rfl

theorem undo_dirtyTold : Keeps (dirtyTelling σ id v) h undo :=
  keeps_contract.2 fun d hd => by
    simp only [undo, look_bind]
    by_cases hbarred : d.model.undoBarred = true
    · simp only [hbarred, if_true]
      exact hd.unheard (.still rfl rfl rfl rfl) rfl
    simp only [hbarred, Bool.false_eq_true, if_false]
    cases hpop : d.model.popUndo? with
    | none => exact hd
    | some popped =>
      obtain ⟨entry, m⟩ := popped
      obtain ⟨rest, -, rfl⟩ := Model.popUndo?_some hpop
      obtain ⟨w, hw, -, horderly⟩ := hd.since
      obtain ⟨e, u, hrun, hmodel, hu, -, htrail, horderly⟩ :=
        emit_marks hh .aboutToChange (d := { d with model := { d.model with undoStack := rest } }) hd.listening hw
          horderly fun _ heq => by cases heq
      simp only [setModel, change_bind]
      rw [bind_run hrun]
      simp only [look_bind, change_bind]
      have hlistening : 0 < Desk.listening { e with model := (e.model.restore entry).2 } id := by
        rw [Desk.listening]
        simp only [Model.restore, hmodel]
        exact hd.listening
      refine Within.bind_at (DirtyTold.path id v) (R := fun d e => d.DirtyTold id v → e.DirtyTold id v)
        (d := d) ?_
        (fun _ => Within.pure (DirtyTold.path id v) _) hd
      refine fun _ => emit_dirtyTold hh _ hlistening hu horderly (fun _ heq => by cases heq) ?_
      rw [htrail]
      simp [Trail.step, Model.restore]

/-- What a mutation does at last. -/
theorem put_dirtyTold (a : α) (document : Document) :
    Keeps (dirtyTelling σ id v) h (look (·.model.dirty) >>= fun wasDirty =>
    change (fun d => { d.enter (.mutated true) with model := d.model.putDocument document }) >>= fun _ =>
      if !wasDirty then emit (.dirtyChanged true) >>= fun _ => pure (.ok a)
      else pure (.ok a : Except ModelError α)) :=
  keeps_contract.2 fun d hd => by
    simp only [look_bind, change_bind]
    obtain ⟨w, hw, htold, horderly⟩ := hd.since
    have hput : Deed.toldDirty id (w ++ [.mutated true]) = Deed.toldDirty id w :=
      Deed.toldDirty_unheard (by simp [Deed.unheard])
    cases hdirty : d.model.dirty with
    | true =>
      simp only [Bool.not_true, Bool.false_eq_true, if_false, pure_run]
      refine hd.unheard ⟨⟨_, d.toList_enter _, by simp [Deed.unheard]⟩, rfl, .inl ⟨rfl, rfl⟩⟩ hdirty.symm
    | false =>
      simp only [Bool.not_false, if_true]
      refine Within.bind_at (DirtyTold.path id v) (R := fun d e => d.DirtyTold id v → e.DirtyTold id v)
        (d := d) (fun _ => ?_)
        (fun _ => Within.pure (DirtyTold.path id v) _) hd
      refine emit_dirtyTold hh _ hd.listening (w := w ++ [.mutated true]) (by simp [hw]) ?_
        (fun dirty heq => ?_) rfl
      · exact horderly.snoc (.of_unheard rfl)
      · cases heq
        exact hput.trans (htold.symm.trans hdirty)

theorem mutate_dirtyTold (s : Share) {f : Document → Act σ (α × Document)}
    (hf : ∀ document, Keeps (dirtyTelling σ id v) h (f document)) :
    Keeps (dirtyTelling σ id v) h (mutate s f) := fun d =>
  mutate_keeps_put (fun document m htake hd => by
      refine hd.unheard (Desk.InHand.take htake).unheard ?_
      obtain ⟨-, -, -, rfl⟩ := Model.takeDocument_ok htake
      rfl)
    (fun d hd => hd.unheard (.enter d rfl) rfl) (fun a document => put_dirtyTold hh a document) hf

theorem openBracket_dirtyTold (s : Share) : Keeps (dirtyTelling σ id v) h (openBracket s) := by
  intro d
  cases hopen : d.model.openBracket s with
  | error e =>
    rw [KeepsFrom, openBracket_refused hopen]
    exact (dirtyTelling σ id v).refl d
  | ok m =>
    refine Desk.Contract.at_after (fun hd => hd.unheard (Desk.UntoldStep.openBracket hopen).unheard ?_)
      (openBracket_after (emit_other_dirtyTold hh (fun _ => rfl) fun _ => rfl) hopen)
    obtain ⟨-, -, rfl⟩ := Model.openBracket_ok hopen
    rfl

/-- The document is announced right after the call that closes the bracket: this is not an undo. -/
theorem closeBracket_dirtyTold (s : Share) : Keeps (dirtyTelling σ id v) h (closeBracket s) :=
  keeps_contract.2 fun d hd => by
    cases hclose : d.model.closeBracket s with
    | error n =>
      rw [closeBracket_refused hclose]
      exact hd.unheard (.still rfl rfl rfl rfl) rfl
    | ok m =>
      have hdirty : m.dirty = d.model.dirty := by
        obtain ⟨-, n, -, rfl⟩ := Model.closeBracket_ok hclose
        rfl
      have hcalled : (d.accepted s .changed m).DirtyTold id v :=
        hd.unheard (Desk.UntoldStep.closeBracket hclose).unheard hdirty
      simp only [closeBracket, look_bind, hclose, accept_bind]
      by_cases hlast : m.changing = 0
      · simp only [hlast, if_true]
        obtain ⟨w, hw, htold, horderly⟩ := hd.since
        refine emit_dirtyTold hh _ hcalled.listening (w := w ++ [.call s.id .changed]) (by simp [hw])
          (horderly.snoc (.of_unheard rfl)) (fun _ heq => by cases heq) ?_
        rw [Desk.model_accepted, hdirty, htold, Deed.flag_unheard (by simp [Deed.unheard]), Deed.trail_append]
        simp [Deed.toldDirty, Deed.undone, Event.mark, Trail.step]
      · simp only [hlast, if_false, pure_run]
        exact hcalled

theorem OffDocumentOp.dirtyTold {a : Act σ α} (ha : OffDocumentOp a) : Keeps (dirtyTelling σ id v) h a := by
  have htend {d e : Desk σ} (h : Desk.OffDocument d e) (hdirty : e.model.dirty = d.model.dirty) :
      (dirtyTelling σ id v).ended d e := fun hd => hd.unheard h.unheard hdirty
  cases ha with
  | look f => exact .look f
  | interrupt message => exact .interrupt message
  | halt => exact .halt
  | own f => exact .change fun d => htend (.client _) rfl
  | scopeShare s => exact scopeShare_keeps s
  | setAvailable available => exact fun d => htend (.available available) rfl
  | setRecordable recordable => exact .change fun d => htend (.recordable recordable) rfl
  | save => exact save_dirtyTold hh
  | resourceDeleted => exact emit_other_dirtyTold hh (fun _ => rfl) fun _ => rfl
  | resourceMoved target =>
    exact (Keeps.look _).bind fun source => (Keeps.change fun d => htend (.moved target) rfl).bind fun _ =>
      emit_other_dirtyTold hh (fun _ => rfl) fun _ => rfl
  | subscribe s listener =>
    intro d
    unfold KeepsFrom
    cases hsubscribe : d.model.subscribe s listener with
    | error e =>
      rw [subscribe_refused hsubscribe]
      exact (dirtyTelling σ id v).refl d
    | ok subscribed =>
      rw [subscribe_run hsubscribe]
      refine htend (.subscribe hsubscribe) ?_
      obtain ⟨-, hm⟩ := Model.subscribe_ok hsubscribe
      rw [Desk.model_accepted, hm]
      rfl

theorem NoUnsubscribe.dirtyTold {a : Act σ α} (ha : NoUnsubscribe a) : Keeps (dirtyTelling σ id v) h a :=
  ha.visiting (fun _ _ hvisit => (Desk.Motion.visit hvisit).dirtyTold) (fun _ _ hrecorded => hrecorded.dirtyTold)
    (fun ha => ha.dirtyTold hh) (undo_dirtyTold hh) (rebuild_dirtyTold hh)
    (openBracket_dirtyTold hh) (closeBracket_dirtyTold hh)

theorem dirtyTelling_trusts (n : Nat) : Trusts n NoUnsubscribe (dirtyTelling σ id v) h :=
  .visiting (fun _ _ hvisit => (Desk.Motion.visit hvisit).dirtyTold) (fun _ _ hrecorded => hrecorded.dirtyTold)
    (fun ha => ha.dirtyTold hh) (fun s _ hf => mutate_dirtyTold hh s hf) fun c =>
      edit_moves (fun _ _ hmotion => hmotion.dirtyTold) (openBracket_dirtyTold hh) (closeBracket_dirtyTold hh) c

end Act

/-- **What listeners hear of a dirty model.** Callers may edit, undo, save, rebuild, move and delete, in any order,
nested, failing, interrupted or cut off, while the clients that are told of events stand by. Take a listener that is
there from the start, when the model is clean, and keeps a flag, set by what it hears (`Deed.flag`). Wherever the run
ends, the model is dirty exactly when the flag is up or an undo was made since the listeners last heard that the model
is clean. And an event says that the model became dirty or clean only if it was not so, for all that this tells. -/
theorem Host.Bystander.dirty_announced {h : Host σ} (hh : h.Bystander) {n : Nat} {a : Act σ α}
    (ha : Act.Caller n Act.NoUnsubscribe a) {id : ListenerId} {d e : Desk σ} (hlistening : 0 < d.listening id)
    (hclean : d.model.dirty = false) (hrun : (a h d).2 = e) :
    ∃ w, e.history.toList = d.history.toList ++ w ∧
      e.model.dirty = (Deed.flag id w || Deed.undone w) ∧
      ∀ u v dirty, w = u ++ .emitted (.dirtyChanged dirty) :: v → (Deed.flag id u || Deed.undone u) = !dirty := by
  have hd : d.DirtyTold id d.history.toList := ⟨hlistening, [], by simp, hclean, .nil _⟩
  have he := Act.keeps_contract.1 (ha.keeps (Act.dirtyTelling_trusts hh n)) d hd
  rw [hrun] at he
  obtain ⟨w, hw, htold, horderly⟩ := he.since
  exact ⟨w, hw, htold, fun u v dirty heq => horderly u _ v heq dirty rfl⟩

/-- An undo of an edit that was not saved, a save, and one more edit: at the end the flag is right. -/
theorem Host.Bystander.dirty_announced_saved :
    let append (text : String) (s : Scope) : Act Unit (Except ModelError Unit) :=
      Act.mutateIn s fun document => pure ((), document ++ text)
    let a : Act Unit Unit := do
      let _ ← Act.undoableEdit 0 (some "one") (append "1")
      let _ ← Act.undo
      Act.save
      let _ ← Act.edit 0 (append "2")
      Act.resourceMoved "f"
    let d : Desk Unit :=
      { model := { document := some "d", subscriptions := [⟨0, .client 0⟩] }, coordinators := [{}], client := () }
    (Host.silent : Host Unit).Bystander ∧ Act.Caller 1 Act.NoUnsubscribe a ∧ 0 < d.listening 0 ∧
    d.model.dirty = false ∧
      ∃ w, (a .silent d).2.history.toList = d.history.toList ++ w ∧
        (a .silent d).2.model.dirty = (Deed.flag 0 w || Deed.undone w) ∧ Deed.undone w = false ∧
        (a .silent d).2.model.dirty = true := by
  intro append a d
  have hh : (Host.silent : Host Unit).Bystander := .silent
  have happend (text : String) (s : Scope) : Act.Caller 1 Act.NoUnsubscribe (append text s) :=
    .bind (.op (.offDocument (.scopeShare s))) fun share => .mutate share fun _ => .pure _
  have ha : Act.Caller 1 Act.NoUnsubscribe a :=
    .bind (.undoable _ (by decide) (happend "1" _)) fun _ => .bind (.op .undo) fun _ =>
      .bind (.op (.offDocument .save)) fun _ => .bind (.edit (by decide) (happend "2" _)) fun _ =>
        .op (.offDocument (.resourceMoved "f"))
  have hlistens : 0 < d.listening 0 := by decide
  obtain ⟨w, hw, hdirty, -⟩ := hh.dirty_announced ha hlistens rfl rfl
  have hundone : Deed.undone (a .silent d).2.history.toList = false := by decide +kernel
  rw [hw] at hundone
  exact ⟨hh, ha, hlistens, rfl, w, hw, hdirty, hundone, by decide +kernel⟩

/-- An undo of an edit that was saved: the model is dirty, and the listener has heard of nothing but the save. -/
theorem Host.undo_unannounced :
    let append (text : String) (s : Scope) : Act Unit (Except ModelError Unit) :=
      Act.mutateIn s fun document => pure ((), document ++ text)
    let a : Act Unit Unit := do
      let _ ← Act.undoableEdit 0 (some "one") (append "1")
      Act.save
      let _ ← Act.undo
    let d : Desk Unit :=
      { model := { document := some "d", subscriptions := [⟨0, .client 0⟩] }, coordinators := [{}], client := () }
    let e := (a .silent d).2
    Act.Caller 1 Act.NoUnsubscribe a ∧ 0 < d.listening 0 ∧ d.model.dirty = false ∧ e.model.dirty = true ∧
      e.hears 0 = [.aboutToChange, .dirtyChanged true, .changed (some "d1"), .dirtyChanged false,
        .aboutToChange, .changed (some "d")] ∧
      Deed.flag 0 e.history.toList = false := by
  intro append a d e
  have happend (text : String) (s : Scope) : Act.Caller 1 Act.NoUnsubscribe (append text s) :=
    .bind (.op (.offDocument (.scopeShare s))) fun share => .mutate share fun _ => .pure _
  have ha : Act.Caller 1 Act.NoUnsubscribe a :=
    .bind (.undoable _ (by decide) (happend "1" _)) fun _ => .bind (.op (.offDocument .save)) fun _ =>
      .bind (.op .undo) fun _ => .pure _
  exact ⟨ha, by decide, rfl, by decide +kernel, by decide +kernel, by decide +kernel⟩

end FormDesk

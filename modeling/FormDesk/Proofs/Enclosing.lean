/-
Edits under contracts. A contract that is not kept step by step, such as
one about what comes in pairs, is kept by an edit when it is kept around its
session: from before the share is taken to after it is given back. What it
takes for that is said of desks alone (`Enclosing`): what the ways into a
session and out of it do, with runs that keep the contract in between. The
contract has nothing to say inside the session; there another relation holds
to the desk from before it.

When a bracket opens and a client that hears of it interrupts, the session
does not open (`emit_threw`).

In the same way a contract is kept by an undoable edit when it is kept around
its recording (`Spanning`).
-/
import FormDesk.Proofs.Announcement
import FormDesk.Proofs.Caller

namespace FormDesk

variable {σ ε α : Type}

/-- Unless the outermost session is left, no session was open or one is left that is nested. -/
theorem Sessions.leave_inner {s x : Sessions} {exit : Leaving} (hleave : s.leave = (exit, x))
    (hexit : ∀ share, exit ≠ .outermost share) :
    (s = .idle ∧ x = .idle) ∨ ∃ inner share, s = .active (inner + 1) share ∧ x = .active inner share := by
  match s with
  | .idle => exact .inl ⟨rfl, (congrArg Prod.snd hleave).symm⟩
  | .active 0 share => exact absurd (congrArg Prod.fst hleave).symm (hexit share)
  | .active (inner + 1) share => exact .inr ⟨inner, share, rfl, (congrArg Prod.snd hleave).symm⟩

namespace Desk

/-- The desk when the share `s` has been taken for a session of a coordinator. -/
def starting (d : Desk σ) (c : CoordinatorId) (s : Share) (m : Model) : Desk σ :=
  (d.accepted s (.acquire .edit) m).enter (.starting c s.id)

/-- The desk when the mutation starts to run of a session that has opened around the share `s`. -/
def opening (d : Desk σ) (c : CoordinatorId) (s : Share) : Desk σ :=
  ((d.withSession c (.opened s)).enter (.opened c s.id)).enter (.runs c)

/-- The desk when the mutation starts to run of a session inside `inner + 1` open ones. -/
def nesting (d : Desk σ) (c : CoordinatorId) (inner : Nat) (s : Share) : Desk σ :=
  ((d.enter (.entered c (inner + 2))).withSession c (.active (min (inner + 1) (maxDepth - 1)) s)).enter (.runs c)

/-- The desk when the mutation of a session has ended and its coordinator's sessions are in another state. -/
def leaving (d : Desk σ) (c : CoordinatorId) (x : Sessions) : Desk σ :=
  ((d.enter (.ran c)).enter (.left c)).withSession c x

/-- The desk when the edit of an undoable edit starts to run. -/
def editing (d : Desk σ) (c : CoordinatorId) : Desk σ := (d.withUndoDepth c (· + 1)).enter (.edits c)

/-- The desk when the edit of an undoable edit has ended. -/
def edited (d : Desk σ) (c : CoordinatorId) : Desk σ := (d.enter (.edited c)).withUndoDepth c (· - 1)

section

variable (d : Desk σ) (c : CoordinatorId)

theorem toList_opening (s : Share) :
    (d.opening c s).history.toList = d.history.toList ++ [.opened c s.id, .runs c] := by
  simp [opening, withSession, withCoordinator, enter]

theorem toList_nesting (inner : Nat) (s : Share) :
    (d.nesting c inner s).history.toList = d.history.toList ++ [.entered c (inner + 2), .runs c] := by
  simp [nesting, withSession, withCoordinator, enter]

theorem toList_leaving (x : Sessions) :
    (d.leaving c x).history.toList = d.history.toList ++ [.ran c, .left c] := by
  simp [leaving, withSession, withCoordinator, enter]

theorem toList_editing : (d.editing c).history.toList = d.history.toList ++ [.edits c] := d.toList_enter _

theorem toList_edited : (d.edited c).history.toList = d.history.toList ++ [.edited c] := d.toList_enter _

end

end Desk

namespace Act

open Desk (Contract)

variable {K : Contract σ} {h : Host σ}

/-! ## Events of brackets -/

/-- What follows when a bracket opens is its announcement at most. -/
theorem openBracket_after (hemit : Keeps K h (emit .aboutToChange)) {d : Desk σ} {s : Share} {m : Model}
    (hopen : d.model.openBracket s = .ok m) :
    KeepsFrom K h (openBracket s) (d.accepted s .aboutToChange m) d := by
  unfold KeepsFrom
  simp only [openBracket, look_bind, hopen, accept_bind]
  by_cases hfirst : m.changing = 1
  · simp only [hfirst, if_true]
    exact (hemit _).bind fun _ => .pure _
  · simp only [hfirst, if_false]
    exact K.refl _

/-- What follows when a bracket closes is its announcement at most. -/
theorem closeBracket_after (hemit : ∀ e, KeepsFrom K h (emit (.changed e.model.document)) e e) {d : Desk σ}
    {s : Share} {m : Model} (hclose : d.model.closeBracket s = .ok m) :
    KeepsFrom K h (closeBracket s) (d.accepted s .changed m) d := by
  unfold KeepsFrom
  simp only [closeBracket, look_bind, hclose, accept_bind]
  by_cases hlast : m.changing = 0
  · simp only [hlast, if_true]
    exact hemit (d.accepted s .changed m)
  · simp only [hlast, if_false]
    exact K.refl _

section

variable (hK : K.Free) (hc : ∀ c, Keeps K h fun _ => h.answer c)

include hK hc

theorem call_threw {c : Callback} {d e : Desk σ} {message : String}
    (hrun : call c h d = (.interrupted message, e)) : ∃ f, K.ended d f ∧ e = f.enter (.threw c) := by
  have hanswered := (hc c).after (hK.clientStep _ _ (.told (d := d) c))
  unfold KeepsFrom at hanswered
  unfold call at hrun
  rcases hans : h.answer c (d.enter (.told c d.model.document)) with ⟨outcome, f⟩
  simp only [hans] at hanswered hrun
  cases outcome with
  | returned _ => cases hrun
  | interrupted _ =>
    cases hrun
    exact ⟨f, hanswered, rfl⟩
  | fatal => cases hrun

theorem deliver_threw {l : Listener} {d e : Desk σ} {message : String}
    (hrun : deliver .aboutToChange l h d = (.interrupted message, e)) :
    ∃ f c held, K.ended d f ∧ Deed.breaks (.threw c) = true ∧ e = { f.enter (.threw c) with held } := by
  cases l with
  | client id =>
    obtain ⟨f, hf, rfl⟩ := call_threw hK hc hrun
    exact ⟨f, _, f.held, hf, rfl, rfl⟩
  | relay o =>
    simp only [deliver, notifyPresent, look_bind] at hrun
    by_cases hhere : d.present o = true
    · simp only [hhere, if_true, hold, change_bind] at hrun
      cases o with
      | tabs id => simp [ensure, notify, unhold] at hrun
      | view id =>
        rcases hcall : call (.view id .aboutToChange) h { d with held := Observer.ref (.view id) :: d.held } with
          ⟨outcome, g⟩
        cases outcome <;> simp only [ensure, notify, unhold, hcall, change_run] at hrun
        case returned | fatal => cases hrun
        case interrupted =>
          obtain ⟨f, hf, rfl⟩ := call_threw hK hc hcall
          cases hrun
          exact ⟨f, _, _, K.trans (hK.modelStep _ _ (.held _)) hf, rfl, rfl⟩
    · simp only [hhere] at hrun
      cases hrun

/-- Where the announcement of a bracket is interrupted, a client that was told of it interrupted. -/
theorem emit_threw {d e : Desk σ} {message : String}
    (hrun : emit .aboutToChange h d = (.interrupted message, e)) :
    ∃ f c held, K.ended d f ∧ Deed.breaks (.threw c) = true ∧ e = { f.enter (.threw c) with held } := by
  have htold : ∀ (subscriptions : List Subscription) {d : Desk σ},
      each subscriptions (fun s => deliver .aboutToChange s.listener) h d = (.interrupted message, e) →
      ∃ f c held, K.ended d f ∧ Deed.breaks (.threw c) = true ∧ e = { f.enter (.threw c) with held } := by
    intro subscriptions
    induction subscriptions with
    | nil => exact fun hrun => by cases hrun
    | cons s rest ih =>
      intro d hrun
      have hfirst := Keeps.deliver hK hc .aboutToChange s.listener d
      unfold KeepsFrom at hfirst
      rcases bind_cases (h := h) (deliver .aboutToChange s.listener)
        (fun _ => each rest fun s => deliver .aboutToChange s.listener) d with
        ⟨_, d₁, he, hb⟩ | ⟨_, d₁, he, hb⟩ | ⟨d₁, he, hb⟩
      all_goals
        rw [each, hb] at hrun
        rw [he] at hfirst
      · obtain ⟨f, c, held, hf, hbreaks, rfl⟩ := ih hrun
        exact ⟨f, c, held, K.trans hfirst hf, hbreaks, rfl⟩
      · cases hrun
        exact deliver_threw hK hc he
      · cases hrun
  obtain ⟨f, c, held, hf, hbreaks, rfl⟩ := htold d.model.subscriptions (d := d.enter (.emitted .aboutToChange)) hrun
  exact ⟨f, c, held, K.trans (hK.modelStep _ _ (.emitted .aboutToChange nofun)) hf, hbreaks, rfl⟩

theorem openBracket_threw {d e : Desk σ} {s : Share} {m : Model} {message : String}
    (hopen : d.model.openBracket s = .ok m) (hrun : openBracket s h d = (.interrupted message, e)) :
    ∃ f c held, K.ended (d.accepted s .aboutToChange m) f ∧ Deed.breaks (.threw c) = true ∧
      e = { f.enter (.threw c) with held } := by
  simp only [openBracket, look_bind, hopen, accept_bind] at hrun
  by_cases hfirst : m.changing = 1
  · simp only [hfirst, if_true] at hrun
    rcases bind_cases (h := h) (emit .aboutToChange)
      (fun _ => (pure (.ok ()) : Act σ (Except ModelError Unit)))
      (d.accepted s .aboutToChange m) with ⟨_, _, -, hb⟩ | ⟨_, _, he, hb⟩ | ⟨_, -, hb⟩
    all_goals
      rw [hb] at hrun
      cases hrun
    exact emit_threw hK hc he
  · simp only [hfirst, if_false] at hrun
    cases hrun

end

/-! ## Around a share -/

/-- What is done with a share keeps a contract that is kept around taking the share and giving it back. -/
theorem withShare_around {access : Access}
    (hcut : ∀ {d s m e}, d.model.acquire access = .ok (s, m) → K.cut (d.accepted s (.acquire access) m) e →
      K.cut d e)
    (hback : ∀ {d s m e}, d.model.acquire access = .ok (s, m) → K.ended (d.accepted s (.acquire access) m) e →
      K.ended d (release s h e).2)
    {f : Share → Act σ α} (hf : ∀ s, Keeps K h (f s)) : Keeps K h (withShare access f) := by
  intro d
  cases hacquire : d.model.acquire access with
  | error e =>
    rw [KeepsFrom, withShare, bind_run (acquire_refused hacquire)]
    exact K.refl d
  | ok taken =>
    obtain ⟨s, m⟩ := taken
    rw [KeepsFrom, withShare, bind_run (acquire_run hacquire)]
    refine KeepsFrom.bind ((hf s).ensure_from (fun e => hcut hacquire) fun e hended => ?_) fun _ => .pure _
    rw [KeepsFrom, release_returned s e]
    exact hback hacquire hended

/-! ## Into a session and out of it -/

/-- What a contract asks of sessions of the coordinator `c`. `In d e` is to hold when a session has been
entered between the desks `d` and `e` and its mutation is running. -/
structure Enclosing (K : Contract σ) (h : Host σ) (c : CoordinatorId) (In : Desk σ → Desk σ → Prop) : Prop where
  /-- The bracket cannot be opened; the share goes back. -/
  refused : ∀ {d s m e}, (d.coordinator c).session = .idle → d.model.acquire .edit = .ok (s, m) →
    (d.starting c s m).model.openBracket s = .error e → K.ended d (release s h (d.starting c s m)).2
  /-- The run is cut off while the bracket is announced. -/
  opening : ∀ {d s m m' f}, (d.coordinator c).session = .idle → d.model.acquire .edit = .ok (s, m) →
    (d.starting c s m).model.openBracket s = .ok m' →
    K.cut ((d.starting c s m).accepted s .aboutToChange m') f → K.cut d f
  /-- The announcement of the bracket is interrupted; the share goes back. -/
  broken : ∀ {d s m m' f callback held}, (d.coordinator c).session = .idle →
    d.model.acquire .edit = .ok (s, m) → (d.starting c s m).model.openBracket s = .ok m' →
    K.ended ((d.starting c s m).accepted s .aboutToChange m') f → Deed.breaks (.threw callback) = true →
    K.ended d (release s h { f.enter (.threw callback) with held }).2
  opened : ∀ {d s m m' f}, (d.coordinator c).session = .idle → d.model.acquire .edit = .ok (s, m) →
    (d.starting c s m).model.openBracket s = .ok m' →
    K.ended ((d.starting c s m).accepted s .aboutToChange m') f →
    In d (f.opening c s)
  nested : ∀ {d inner s}, (d.coordinator c).session = .active inner s → In d (d.nesting c inner s)
  /-- The run is cut off in the session. -/
  inside : ∀ {d e f}, In d e → K.cut e f → K.cut d f
  /-- The session is left and those around it stay open, or none was open. -/
  left : ∀ {d e f exit x}, In d e → K.ended e f → (f.coordinator c).session.leave = (exit, x) →
    (∀ s, exit ≠ .outermost s) → K.ended d (f.leaving c x)
  /-- The run is cut off while the closing of the bracket is announced. -/
  closing : ∀ {d e f s m g}, In d e → K.ended e f → (f.coordinator c).session = .active 0 s →
    (f.leaving c .idle).model.closeBracket s = .ok m → K.cut ((f.leaving c .idle).accepted s .changed m) g →
    K.cut d g
  closed : ∀ {d e f s m g}, In d e → K.ended e f → (f.coordinator c).session = .active 0 s →
    (f.leaving c .idle).model.closeBracket s = .ok m → K.ended ((f.leaving c .idle).accepted s .changed m) g →
    K.ended d (release s h g).2
  /-- There is no bracket to close. -/
  unclosed : ∀ {d e f s n}, In d e → K.ended e f → (f.coordinator c).session = .active 0 s →
    (f.leaving c .idle).model.closeBracket s = .error n →
    K.ended d (release s h { f.leaving c .idle with client := h.note n f.client }).2

section

variable {c : CoordinatorId} {In : Desk σ → Desk σ → Prop} (hx : Enclosing K h c In) (hK : K.Free)
  (hc : ∀ c, Keeps K h fun _ => h.answer c)

include hx hK hc

/-- What the opening of a session comes to, once its mutation starts to run. -/
theorem Enclosing.opens (d : Desk σ) :
    match openSession c h d with
    | (.returned (.ok _), e) => In d (e.enter (.runs c))
    | (.returned (.error _), e) | (.interrupted _, e) => K.ended d e
    | (.fatal, e) => K.cut d e := by
  have hemit : Keeps K h (emit .aboutToChange) := fun d => .emit hK hc nofun (K.refl d)
  cases hs : (d.coordinator c).session with
  | active inner s =>
    rw [openSession_nested hs]
    exact hx.nested hs
  | idle =>
    rw [openSession_idle hs]
    cases hacquire : d.model.acquire .edit with
    | error e =>
      rw [startSession, bind_run (acquire_refused hacquire)]
      exact K.refl d
    | ok taken =>
      obtain ⟨s, m⟩ := taken
      have hstart : startSession c h d = startWith c s h (d.starting c s m) := bind_run (acquire_run hacquire)
      rw [hstart]
      -- The share goes back unless the bracket opens and everyone is told of it.
      cases hopen : (d.starting c s m).model.openBracket s with
      | error e =>
        have hrun : startWith c s h (d.starting c s m) =
            (.returned (.error (.modelUnavailable e)), (release s h (d.starting c s m)).2) :=
          (bind_run (onInterrupt_run (openBracket_refused hopen))).trans (bind_run (release_returned s _))
        rw [hrun]
        exact hx.refused hs hacquire hopen
      | ok m' =>
        have hafter := openBracket_after hemit hopen
        unfold KeepsFrom at hafter
        rcases hbracket : openBracket s h (d.starting c s m) with ⟨outcome, f⟩
        rw [hbracket] at hafter
        cases outcome with
        | returned answer =>
          obtain rfl := openBracket_answer hopen hbracket
          have hrun : startWith c s h (d.starting c s m) =
              (.returned (.ok ()), (f.withSession c (.opened s)).enter (.opened c s.id)) :=
            bind_run (onInterrupt_run hbracket)
          rw [hrun]
          exact hx.opened hs hacquire hopen hafter
        | interrupted message =>
          have hrun : startWith c s h (d.starting c s m) = (.interrupted message, (release s h f).2) :=
            bind_interrupted (onInterrupt_interrupted hbracket (release_returned s f))
          rw [hrun]
          obtain ⟨g, callback, held, hg, hbreaks, rfl⟩ := openBracket_threw hK hc hopen hbracket
          exact hx.broken hs hacquire hopen hg hbreaks
        | fatal =>
          have hrun : startWith c s h (d.starting c s m) = (.fatal, f) := by
            simp only [startWith, bind, onInterrupt, hbracket]
          rw [hrun]
          exact hx.opening hs hacquire hopen hafter

/-- What the leaving of a session comes to, once its mutation has ended. -/
theorem Enclosing.leaves {d e f : Desk σ} (hin : In d e) (hran : K.ended e f) :
    KeepsFrom K h (leaveSession c) d (f.enter (.ran c)) := by
  have hemit (e : Desk σ) : KeepsFrom K h (emit (.changed e.model.document)) e e :=
    .emit hK hc (fun _ heq => (Event.changed.inj heq).symm) (K.refl e)
  unfold KeepsFrom
  cases hs : (f.coordinator c).session with
  | idle =>
    rw [leaveSession_idle (d := f.enter (.ran c)) hs]
    exact hx.left hin hran (by rw [hs]; rfl) (by simp)
  | active inner s =>
    cases inner with
    | succ inner =>
      rw [leaveSession_nested (d := f.enter (.ran c)) hs]
      exact hx.left hin hran (by rw [hs]; rfl) (by simp)
    | zero =>
      have hleave : leaveSession c h (f.enter (.ran c)) = ensure (closeBracket s) (release s) h (f.leaving c .idle) :=
        leaveSession_outermost hs
      rw [hleave]
      cases hclose : (f.leaving c .idle).model.closeBracket s with
      | error n =>
        rw [ensure_ended (closeBracket_refused hclose) (by simp) (release_returned s _)]
        exact hx.unclosed hin hran hs hclose
      | ok m =>
        have hafter := closeBracket_after hemit hclose
        unfold KeepsFrom at hafter
        rcases hbracket : closeBracket s h (f.leaving c .idle) with ⟨outcome, g⟩
        rw [hbracket] at hafter
        cases outcome with
        | returned | interrupted =>
          rw [ensure_ended hbracket (by simp) (release_returned s g)]
          exact hx.closed hin hran hs hclose hafter
        | fatal =>
          have hrun : ensure (closeBracket s) (release s) h (f.leaving c .idle) = (.fatal, g) := by
            simp only [ensure, hbracket]
          rw [hrun]
          exact hx.closing hin hran hs hclose hafter

/-- **An edit keeps a contract** that is kept around its session. -/
theorem Enclosing.edit_keeps {mutation : Scope → Act σ (Except ε α)} (hm : Keeps K h (mutation ⟨c⟩)) :
    Keeps K h (edit c mutation) := by
  intro d
  have hopening := hx.opens hK hc d
  unfold KeepsFrom edit
  rcases bind_cases (h := h) (openSession c) _ d with ⟨entered, e, hopen, hb⟩ | ⟨_, e, hopen, hb⟩ | ⟨e, hopen, hb⟩
  all_goals
    rw [hopen] at hopening
    rw [hb]
  · cases entered with
    | error reason =>
      exact K.trans hopening (hK.clientStep _ _ (.client _))
    | ok _ =>
      have hleaves (f : Desk σ) (hran : K.ended (e.enter (.runs c)) f) :
          KeepsFrom K h (did (.ran c) >>= fun _ => leaveSession c) d f := hx.leaves hK hc hopening hran
      have hrun : KeepsFrom K h (ensure (between (.runs c) (.ran c) (mutation ⟨c⟩)) (leaveSession c)) d e := by
        rw [KeepsFrom, ensure_between]
        exact hm.ensure_from (fun f => hx.inside hopening) hleaves
      refine hrun.bind fun ended => ?_
      cases ended <;> exact .pure _
  · exact hopening
  · exact hopening

end

/-! ## Around a recording -/

/-- What a contract asks of undoable edits of the coordinator `c`. `In d e` is to hold when an undoable edit has
started to record between the desks `d` and `e` and its edit is running. -/
structure Spanning (K : Contract σ) (h : Host σ) (c : CoordinatorId) (label : Option String)
    (In : Desk σ → Desk σ → Prop) : Prop where
  /-- The recording does not start. -/
  skipped : ∀ {d e reason}, (d.coordinator c).undoDepth = 0 →
    startRecording c label h d = (.returned (.error reason), e) → K.ended d e
  started : ∀ {d e}, (d.coordinator c).undoDepth = 0 → startRecording c label h d = (.returned (.ok ()), e) →
    In d ((e.enter (.began c label d.model.document d.model.recording.isSome)).editing c)
  /-- The run is cut off in the recording. -/
  inside : ∀ {d e f}, In d e → K.cut e f → K.cut d f
  finished : ∀ {d e f}, In d e → K.ended e f → K.ended d (finishRecording c h (f.edited c)).2
  /-- An undoable edit inside another one. -/
  joined : ∀ {d f}, 0 < (d.coordinator c).undoDepth → K.ended (d.withUndoDepth c (· + 1)) f →
    K.ended d (f.withUndoDepth c (· - 1))
  joining : ∀ {d f}, 0 < (d.coordinator c).undoDepth → K.cut (d.withUndoDepth c (· + 1)) f → K.cut d f

/-- **An undoable edit keeps a contract** that is kept around its recording, when the edit in it does. -/
theorem Spanning.undoableEdit_keeps {c : CoordinatorId} {label : Option String} {In : Desk σ → Desk σ → Prop}
    (hx : Spanning K h c label In) (hK : K.Free) {mutation : Scope → Act σ (Except ε α)}
    (hedit : Keeps K h (edit c mutation)) : Keeps K h (undoableEdit c label mutation) := by
  intro d
  unfold KeepsFrom
  by_cases hdeep : (d.coordinator c).undoDepth > 0
  · simp only [undoableEdit, look_bind, hdeep, if_true, changeUndoDepth, change_bind]
    exact hedit.ensure_from (fun f => hx.joining hdeep) fun f => hx.joined hdeep
  have hnone : (d.coordinator c).undoDepth = 0 := Nat.eq_zero_of_not_pos hdeep
  have hskipped {reason e} (hstart : startRecording c label h d = (.returned (.error reason), e)) :
      K.At (undoableEdit c label mutation h d).1 d (undoableEdit c label mutation h d).2 := by
    simp only [undoableEdit, look_bind, hdeep, if_false, bind_run hstart, note_bind]
    exact K.trans (hx.skipped hnone hstart) (hK.clientStep _ _ (.client _))
  rcases startRecording_ends (h := h) c label d with
    ⟨e, -, hstart⟩ | ⟨s, m, -, ⟨e, -, hstart⟩ | ⟨m', -, hstart⟩⟩
  · exact hskipped hstart
  · exact hskipped hstart
  · simp only [undoableEdit, look_bind, hdeep, if_false, bind_run hstart, did_bind, changeUndoDepth, change_bind]
    have hin := hx.started hnone hstart
    rw [ensure_between]
    refine hedit.ensure_from (fun f => hx.inside hin) fun f hran => ?_
    have hfinished := hx.finished hin hran
    change K.At (finishRecording c h (f.edited c)).1 d (finishRecording c h (f.edited c)).2
    rcases finishRecording_ends (h := h) c (f.edited c) with
      ⟨e, -, hfinish⟩ | ⟨s, m, -, ⟨n, -, hfinish⟩ | ⟨m', -, hfinish⟩⟩
    all_goals
      rw [hfinish] at hfinished ⊢
      exact hfinished

end Act

end FormDesk

/-
Nested sessions are transparent. An edit that is run while a session of its
coordinator is open only counts: it may as well run its mutation on the spot.
The same holds of an undoable edit inside a session of an undoable edit.

`Inlines` relates a program to one with edits inlined so, some of them or all
of them. Under hosts whose clients are related in the same way
(`Host.Inlines`) the two programs end alike, and neither the model nor a client
can tell them apart (`Host.Inlines.transparent`). What may not be looked at is
how deep sessions and undoable edits are.
-/
import FormDesk.Proofs.Blind

namespace FormDesk

variable {σ ε α β : Type}

/-- A session of the coordinator is open: one of its mutations is running. -/
def Desk.InSession (id : CoordinatorId) (d : Desk σ) : Prop := (d.coordinator id).session.isActive = true

/-- A session of the coordinator is open, and so is an undoable edit. -/
def Desk.InUndoable (id : CoordinatorId) (d : Desk σ) : Prop := d.InSession id ∧ 0 < (d.coordinator id).undoDepth

instance (id : CoordinatorId) (d : Desk σ) : Decidable (d.InSession id) :=
  inferInstanceAs (Decidable (_ = true))

instance (id : CoordinatorId) (d : Desk σ) : Decidable (d.InUndoable id) :=
  inferInstanceAs (Decidable (_ ∧ _))

namespace Act

open Desk (Beside Grows Shallow)

/-! ## Programs with edits inlined -/

/-- Passes on what a mutation ended with. -/
def applied : Except ε α → Act σ (Except ε (Edited α))
  | .error e => return .error e
  | .ok value => return .ok (.applied value)

/-- Runs a mutation without a session of its own. -/
def onSpot (id : CoordinatorId) (mutation : Scope → Act σ (Except ε α)) : Act σ (Except ε (Edited α)) :=
  mutation ⟨id⟩ >>= applied

/-- `b` does what `a` does, or what `a'` does where `p` holds of the desk. -/
def Trades (p : Desk σ → Prop) (a a' b : Act σ α) : Prop := ∀ h d, b h d = a h d ∨ p d ∧ b h d = a' h d

/-- The second program is the first one with edits inlined that are run inside of others. -/
inductive Inlines (n : Nat) : {α : Type} → Act σ α → Act σ α → Prop
  | blind {α : Type} {a : Act σ α} : Blind a → Inlines n a a
  | bind {α β : Type} {x x' : Act σ α} {f f' : α → Act σ β} :
      Inlines n x x' → (∀ a, Inlines n (f a) (f' a)) → Inlines n (x >>= f) (x' >>= f')
  | ensure {α : Type} {act act' : Act σ α} {last last' : Act σ Unit} :
      Inlines n act act' → Inlines n last last' → Inlines n (ensure act last) (ensure act' last')
  | onInterrupt {α : Type} {act act' : Act σ α} {last last' : Act σ Unit} :
      Inlines n act act' → Inlines n last last' → Inlines n (onInterrupt act last) (onInterrupt act' last')
  | attempt {α : Type} {act act' : Act σ α} : Inlines n act act' → Inlines n (attempt act) (attempt act')
  | edit {ε α : Type} {id : CoordinatorId} {m m' : Scope → Act σ (Except ε α)} {b : Act σ (Except ε (Edited α))} :
      id < n → Inlines n (m ⟨id⟩) (m' ⟨id⟩) →
      Trades (Desk.InSession id) (edit id m') (onSpot id m') b → Inlines n (edit id m) b
  | undoable {ε α : Type} {id : CoordinatorId} {label : Option String} {m m' : Scope → Act σ (Except ε α)}
      {b : Act σ (Except ε (Edited α))} :
      id < n → Inlines n (m ⟨id⟩) (m' ⟨id⟩) →
      Trades (Desk.InUndoable id) (undoableEdit id label m') (onSpot id m') b →
      Inlines n (undoableEdit id label m) b

/-- Does what `a'` does wherever `p` holds of the desk, and what `a` does elsewhere. -/
def swapWhere (p : Desk σ → Prop) [DecidablePred p] (a a' : Act σ α) : Act σ α := do
  if ← look fun d => decide (p d) then a' else a

theorem swapWhere_trades (p : Desk σ → Prop) [DecidablePred p] (a a' : Act σ α) : Trades p a a' (swapWhere p a a') := by
  intro h d
  by_cases hp : p d
  · exact .inr ⟨hp, by simp only [swapWhere, look_bind, hp, decide_true, if_true]⟩
  · exact .inl (by simp only [swapWhere, look_bind, hp, decide_false, Bool.false_eq_true, if_false])

/-- An edit that runs its mutation on the spot wherever a session of its coordinator is open. -/
def editOnce (id : CoordinatorId) (mutation : Scope → Act σ (Except ε α)) : Act σ (Except ε (Edited α)) :=
  swapWhere (Desk.InSession id) (edit id mutation) (onSpot id mutation)

/-- An undoable edit that runs its mutation on the spot wherever it is inside another one. -/
def undoableOnce (id : CoordinatorId) (label : Option String) (mutation : Scope → Act σ (Except ε α)) :
    Act σ (Except ε (Edited α)) :=
  swapWhere (Desk.InUndoable id) (undoableEdit id label mutation) (onSpot id mutation)

namespace Inlines

variable {n : Nat} {id : CoordinatorId} {m m' : Scope → Act σ (Except ε α)}

theorem editOnce (hid : id < n) (hm : Inlines n (m ⟨id⟩) (m' ⟨id⟩)) :
    Inlines n (Act.edit id m) (Act.editOnce id m') := .edit hid hm (swapWhere_trades _ _ _)

theorem undoableOnce (hid : id < n) (label : Option String) (hm : Inlines n (m ⟨id⟩) (m' ⟨id⟩)) :
    Inlines n (undoableEdit id label m) (Act.undoableOnce id label m') := .undoable hid hm (swapWhere_trades _ _ _)

/-- Edits may be inlined in a mutation that has the document in hand. -/
theorem mutateIn (s : Scope) {f f' : Document → Act σ (α × Document)}
    (hf : ∀ document, Inlines n (f document) (f' document)) : Inlines n (Act.mutateIn s f) (Act.mutateIn s f') := by
  refine .bind (.blind (.scopeShare s)) fun share => .bind (.blind (.look _ fun _ => rfl)) fun model => ?_
  cases model.takeDocument share with
  | error e => exact .blind (.pure _)
  | ok taken =>
    obtain ⟨document, model'⟩ := taken
    refine .bind (.blind (.accept ..)) fun _ => .bind (.onInterrupt (hf document) (.blind (.did rfl))) fun ended => ?_
    refine .blind (.bind (.look _ fun _ => rfl) fun wasDirty => .bind (.change (.put _)) fun _ => ?_)
    cases wasDirty with
    | true => exact .pure _
    | false => exact .bind (.emit _) fun _ => .pure _

end Inlines

/-! ## Two runs of an edit -/

/-- Two programs go together under two hosts, whatever the depths are; the first one is at least as deep. -/
def Goes (n : Nat) (h k : Host σ) (a b : Act σ α) : Prop :=
  ∀ l l', Levels.Below l' l → Pairs h k (Beside n l l') (Beside n l l') a b

section

variable {n : Nat} {h k : Host σ}

theorem Goes.grows {a b : Act σ α} (hab : Goes n h k a b) : Within Grows h a :=
  (hab _ (fun _ => (.idle, 0)) fun _ => Nat.le_refl _).grows

/-- What is done in the session before it is open: a share is taken and a bracket opened with it. -/
def opening (id : CoordinatorId) : Act σ (Except SessionError Share) := do
  match ← acquire .edit with
  | .error e => return .error (.modelUnavailable e)
  | .ok share =>
    did (.starting id share.id)
    match ← onInterrupt (openBracket share) (release share) with
    | .error e =>
      release share
      return .error (.modelUnavailable e)
    | .ok () => return .ok share

/-- The mutation of a session that is open, and the end of the session. -/
def inSession (id : CoordinatorId) (mutation : Scope → Act σ (Except ε α)) : Act σ (Except ε (Edited α)) :=
  ensure (between (.runs id) (.ran id) (mutation ⟨id⟩)) (leaveSession id) >>= applied

/-- What is done once it is known whether the session can be opened. -/
def opened (id : CoordinatorId) (mutation : Scope → Act σ (Except ε α)) :
    Except SessionError Share → Act σ (Except ε (Edited α))
  | .error e => do
    note (.editAborted e)
    return .ok (.skipped e)
  | .ok share => do
    setSession id (.opened share)
    did (.opened id share.id)
    inSession id mutation

theorem Blind.opening (id : CoordinatorId) : Blind (opening id : Act σ (Except SessionError Share)) := by
  refine .bind (.acquire .edit) fun taken => ?_
  cases taken with
  | error e => exact .pure _
  | ok share =>
    refine .bind (.did rfl) fun _ => .bind (.onInterrupt (.openBracket share) (.release share)) fun answer => ?_
    cases answer with
    | error e => exact .bind (.release share) fun _ => .pure _
    | ok _ => exact .pure _

/-- An edit at an idle coordinator opens a session around its mutation. -/
theorem edit_idle {id : CoordinatorId} {mutation : Scope → Act σ (Except ε α)} {d : Desk σ}
    (hs : (d.coordinator id).session = .idle) :
    edit id mutation h d = (opening id >>= opened id mutation) h d := by
  unfold edit
  rw [bind_congr_left _ (openSession_idle hs)]
  unfold startSession opening
  simp only [bind_assoc]
  refine congrFun (congrFun (congrArg (acquire .edit >>= ·) (funext fun taken => ?_)) h) d
  cases taken with
  | error e => simp only [pure_bind, opened]
  | ok share =>
    simp only [startWith, bind_assoc]
    refine congrArg (did (.starting id share.id) >>= ·) (funext fun _ =>
      congrArg (onInterrupt (openBracket share) (release share) >>= ·) (funext fun answer => ?_))
    cases answer with
    | error e => simp only [bind_assoc, pure_bind, opened]
    | ok _ =>
      simp only [bind_assoc, pure_bind, opened]
      rfl

theorem edit_nested {id : CoordinatorId} {mutation : Scope → Act σ (Except ε α)} {d : Desk σ} {inner : Nat} {s : Share}
    (hs : (d.coordinator id).session = .active inner s) :
    edit id mutation h d = inSession id mutation h
      ((d.enter (.entered id (inner + 2))).withSession id (.active (min (inner + 1) (maxDepth - 1)) s)) :=
  bind_run (openSession_nested hs)

/-- One more undoable edit is counted while `a` runs; then `last` is done. -/
def counted (id : CoordinatorId) (a : Act σ α) (last : Act σ Unit) : Act σ α := do
  changeUndoDepth id (· + 1)
  ensure a do
    changeUndoDepth id (· - 1)
    last

/-- What an undoable edit does that records. -/
def recorded (id : CoordinatorId) (label : Option String) (mutation : Scope → Act σ (Except ε α)) :
    Act σ (Except ε (Edited α)) := do
  let before ← look (·.model)
  match ← startRecording id label with
  | .error source =>
    let reason := SessionError.recordingStart (← look fun d => (d.coordinator id).tag) (label.getD "") source
    note (.recordingNotStarted reason)
    return .ok (.skipped reason)
  | .ok () =>
    did (.began id label before.document before.recording.isSome)
    counted id (between (.edits id) (.edited id) (edit id mutation)) (finishRecording id)

theorem undoableEdit_joined {id : CoordinatorId} {label : Option String} {mutation : Scope → Act σ (Except ε α)}
    {d : Desk σ} (hd : 0 < (d.coordinator id).undoDepth) :
    undoableEdit id label mutation h d = counted id (edit id mutation) (pure ()) h d := by
  simp only [undoableEdit, look_bind, gt_iff_lt, hd, if_true]
  rfl

theorem undoableEdit_recorded {id : CoordinatorId} {label : Option String} {mutation : Scope → Act σ (Except ε α)}
    {d : Desk σ} (hd : (d.coordinator id).undoDepth = 0) :
    undoableEdit id label mutation h d = recorded id label mutation h d := by
  simp only [undoableEdit, look_bind, gt_iff_lt, hd, Nat.lt_irrefl, if_false]
  rfl

theorem ensure_pure (act : Act σ α) : ensure act (pure ()) = act := by
  funext h d
  unfold ensure
  rcases act h d with ⟨outcome, e⟩
  cases outcome <;> rfl

section

variable {l l' m m' : Levels} {a b : Act σ α} {x first last : Deed}

/-- An entry about what runs in sessions, made on both desks. -/
theorem did_beside (hx : x.counts = true) : Pairs h k (Beside n l l') (Beside n l l') (did x) (did x) :=
  ⟨fun d => d.grows_enter x, fun hR _ =>
    have hboth := (hR.counting hx).symm.counting hx
    ⟨rfl, hboth.symm.veil, fun _ => hboth.symm⟩⟩

/-- An entry about what runs in sessions, made on the first desk only. -/
theorem did_onSpot (hx : x.counts = true) : Pairs h k (Beside n l l') (Beside n l l') (did x) (pure ()) :=
  ⟨fun d => d.grows_enter x, fun hR _ => ⟨rfl, (hR.counting hx).veil, fun _ => hR.counting hx⟩⟩

theorem Pairs.between (hab : Pairs h k (Beside n l l') (Beside n m m') a b) (hfirst : first.counts = true)
    (hlast : last.counts = true) :
    Pairs h k (Beside n l l') (Beside n m m') (Act.between first last a) (Act.between first last b) := by
  have hgrows : Within Grows h (Act.between first last a) :=
    .between Grows.path hab.grows (fun d => d.grows_enter _) fun d => d.grows_enter _
  exact (hab.ensure (did_beside hlast)).before hgrows fun {d e} hR _ =>
    ⟨_, _, rfl, rfl, d.grows_enter _, ((hR.counting hfirst).symm.counting hfirst).symm⟩

theorem Pairs.between_onSpot (hab : Pairs h k (Beside n l l') (Beside n m m') a b) (hfirst : first.counts = true)
    (hlast : last.counts = true) : Pairs h k (Beside n l l') (Beside n m m') (Act.between first last a) b := by
  have hgrows : Within Grows h (Act.between first last a) :=
    .between Grows.path hab.grows (fun d => d.grows_enter _) fun d => d.grows_enter _
  have hbody := hab.ensure (did_onSpot hlast)
  rw [ensure_pure] at hbody
  exact hbody.before hgrows fun {d e} hR _ => ⟨_, e, rfl, rfl, d.grows_enter _, hR.counting hfirst⟩

end

/-- In a shallow run the count of sessions does not stop growing. -/
theorem Shallow.entered {d e : Desk σ} {id : CoordinatorId} {depth : Nat} {s : Sessions} (hshallow : Shallow d e)
    (hgrows : Grows ((d.enter (.entered id depth)).withSession id s) e) : depth ≤ maxDepth := by
  obtain ⟨⟨w, hw, hdeeds⟩, -⟩ := hshallow.split (d.grows_enter _) hgrows
  rw [Desk.toList_enter] at hw
  obtain rfl := List.append_cancel_left hw
  exact hdeeds id depth (List.mem_singleton_self _)

section

variable (hnote : k.note = h.note) (hcalls : ∀ c, Goes n h k (fun _ => h.answer c) fun _ => k.answer c)
  {id : CoordinatorId} (hid : id < n) {l l' : Levels} (hbelow : Levels.Below l' l) {inner inner' : Nat} {s : Share}

include hnote hcalls hbelow in
theorem Blind.paired {a : Act σ α} (ha : Blind a) : Pairs h k (Beside n l l') (Beside n l l') a a :=
  ha.pairs hnote fun c => hcalls c l l' hbelow

include hnote hcalls hbelow in
theorem applied_pairs (r : Except ε α) : Pairs h k (Beside n l l') (Beside n l l') (applied r) (applied r) := by
  refine Blind.paired hnote hcalls hbelow ?_
  cases r <;> exact .pure _

include hcalls

theorem deliver_grows (event : Event) (listener : Listener) : Within Grows h (deliver event listener) :=
  deliver_within_steps Grows.path (fun _ _ => Desk.Step.grows) (fun d _ => Grows.path.refl d)
    (fun c => (hcalls c).grows) event listener

theorem leaveSession_grows (id : CoordinatorId) : Within Grows h (leaveSession id) :=
  keeps_contract.1 (leaveSession_moves (K := Grows.path.contract) (fun _ _ hm => hm.passage.step.grows)
    (fun s => closeBracket_keeps (fun _ _ hpass => hpass.step.grows)
      (fun event listener => keeps_contract.2 (deliver_grows hcalls event listener)) s) id)

theorem edit_grows (id : CoordinatorId) {mutation : Scope → Act σ (Except ε α)}
    (hm : Within Grows h (mutation ⟨id⟩)) : Within Grows h (edit id mutation) :=
  edit_within Grows.path (fun _ _ => Desk.Step.grows) (deliver_grows hcalls) id hm

theorem undoableEdit_grows (id : CoordinatorId) (label : Option String) {mutation : Scope → Act σ (Except ε α)}
    (hm : Within Grows h (mutation ⟨id⟩)) : Within Grows h (undoableEdit id label mutation) :=
  undoableEdit_within Grows.path (fun _ _ => Desk.Step.grows) (deliver_grows hcalls) (fun _ _ => Desk.Recorded.grows)
    id label hm

include hid

/-! ### Leaving a session -/

/-- Leaving a nested session only counts. -/
theorem leave_onSpot (hl : (l id).1 = .active inner s) :
    Pairs h k (Beside n (l.session id (.active (inner + 1) s)) l') (Beside n l l') (leaveSession id) (pure ()) := by
  refine (Pairs.pure ()).before (leaveSession_grows hcalls id) fun {d e} hR _ => ?_
  have hs := (hR.at id).trans (Levels.session_self _)
  have hleft := (hR.counting (x := .left id) rfl).nested hid (Levels.session_self _) inner
  rw [Levels.session_back hl] at hleft
  exact ⟨_, _, leaveSession_nested hs, rfl, d.grows_enter _, hleft⟩

theorem leave_nested (hl : (l id).1 = .active inner s) (hl' : (l' id).1 = .active inner' s) :
    Pairs h k (Beside n (l.session id (.active (inner + 1) s)) (l'.session id (.active (inner' + 1) s)))
      (Beside n l l') (leaveSession id) (leaveSession id) := by
  refine (Pairs.pure ()).before (leaveSession_grows hcalls id) fun {d e} hR _ => ?_
  have hs := (hR.at id).trans (Levels.session_self _)
  have hs' := (hR.symm.at id).trans (Levels.session_self _)
  have hleft := (hR.counting (x := .left id) rfl).nested hid (Levels.session_self _) inner
  have hleft' := (hleft.symm.counting (x := .left id) rfl).nested hid (Levels.session_self _) inner'
  rw [Levels.session_back hl, Levels.session_back hl'] at hleft'
  exact ⟨_, _, leaveSession_nested hs, leaveSession_nested hs', d.grows_enter _, hleft'.symm⟩

include hnote hbelow

/-- Leaving the outermost session closes the bracket and gives the share back. -/
theorem leave_outermost (hl : (l id).1 = .idle) (hl' : (l' id).1 = .idle) :
    Pairs h k (Beside n (l.session id (.opened s)) (l'.session id (.opened s))) (Beside n l l') (leaveSession id)
      (leaveSession id) := by
  have hclose : Blind (ensure (closeBracket s) (release s) : Act σ Unit) := .ensure (.closeBracket s) (.release s)
  refine (hclose.paired hnote hcalls hbelow).before (leaveSession_grows hcalls id) fun {d e} hR _ => ?_
  have hs := (hR.at id).trans (Levels.session_self _)
  have hs' := (hR.symm.at id).trans (Levels.session_self _)
  have hleft := ((hR.counting (x := .left id) rfl).symm.counting (x := .left id) rfl).symm.session hid .idle
  rw [Levels.session_back hl, Levels.session_back hl'] at hleft
  exact ⟨_, _, leaveSession_outermost hs, leaveSession_outermost hs', d.grows_enter _, hleft⟩

/-! ### Edits -/

section

variable {m m' : Scope → Act σ (Except ε α)} (hm : Goes n h k (m ⟨id⟩) (m' ⟨id⟩))

include hm

/-- A nested edit beside its mutation alone. -/
theorem edit_onSpot (hl : (l id).1 = .active inner s) :
    Pairs h k (Beside n l l') (Beside n l l') (edit id m) (onSpot id m') := by
  have hdepth : (l id).1.depth ≤ (Sessions.active (inner + 1) s).depth := by
    rw [hl]
    exact Nat.le_succ _
  -- the first run is one session deeper while the mutation runs, the second one stays at its level
  have hbody : Pairs h k (Beside n (l.session id (.active (inner + 1) s)) l') (Beside n l l') (inSession id m)
      (onSpot id m') := by
    rw [onSpot, ← ensure_pure (m' ⟨id⟩)]
    exact (((hm _ _ (hbelow.deeper hdepth)).between_onSpot rfl rfl).ensure (leave_onSpot hcalls hid hl)).bind
      (applied_pairs hnote hcalls hbelow)
  refine hbody.before (edit_grows hcalls id hm.grows) fun {d e} hR hshallow => ?_
  have hs := (hR.at id).trans hl
  rw [edit_nested hs] at hshallow
  have hdeep := Shallow.entered hshallow (hbody.grows _)
  have hmin : min (inner + 1) (maxDepth - 1) = inner + 1 := by omega
  refine ⟨_, e, edit_nested hs, rfl, d.grows_enter _, ?_⟩
  rw [hmin]
  exact (hR.counting rfl).nested hid hl (inner + 1)

/-- Two nested edits. -/
theorem edit_beside (hl : (l id).1 = .active inner s) (hl' : (l' id).1 = .active inner' s) :
    Pairs h k (Beside n l l') (Beside n l l') (edit id m) (edit id m') := by
  have hinner : inner' ≤ inner := by
    have hdepth := hbelow id
    rw [hl, hl'] at hdepth
    exact Nat.le_of_succ_le_succ hdepth
  have hdepth : (Sessions.active (inner' + 1) s).depth ≤ (Sessions.active (inner + 1) s).depth :=
    Nat.add_le_add_right hinner 2
  have hbody : Pairs h k (Beside n (l.session id (.active (inner + 1) s)) (l'.session id (.active (inner' + 1) s)))
      (Beside n l l') (inSession id m) (inSession id m') :=
    (((hm _ _ (hbelow.session hdepth)).between rfl rfl).ensure (leave_nested hcalls hid hl hl')).bind
      (applied_pairs hnote hcalls hbelow)
  refine hbody.before (edit_grows hcalls id hm.grows) fun {d e} hR hshallow => ?_
  have hs := (hR.at id).trans hl
  have hs' := (hR.symm.at id).trans hl'
  rw [edit_nested hs] at hshallow
  have hdeep := Shallow.entered hshallow (hbody.grows _)
  have hmin : min (inner + 1) (maxDepth - 1) = inner + 1 := by omega
  have hmin' : min (inner' + 1) (maxDepth - 1) = inner' + 1 := by omega
  refine ⟨_, _, edit_nested hs, edit_nested hs', d.grows_enter _, ?_⟩
  rw [hmin, hmin']
  exact (((hR.counting rfl).nested hid hl (inner + 1)).symm.counting rfl).nested hid hl' (inner' + 1) |>.symm

/-- Two outermost edits. -/
theorem edit_outermost (hl : (l id).1 = .idle) (hl' : (l' id).1 = .idle) :
    Pairs h k (Beside n l l') (Beside n l l') (edit id m) (edit id m') := by
  -- what stands in the way of a session shows, so it stands in the way of both
  have hopened (r : Except SessionError Share) :
      Pairs h k (Beside n l l') (Beside n l l') (opened id m r) (opened id m' r) := by
    cases r with
    | error e =>
      have hskip : Blind (opened id m (.error e)) := .bind (.note _) fun _ => .pure _
      exact hskip.paired hnote hcalls hbelow
    | ok share =>
      have hbody : Pairs h k (Beside n (l.session id (.opened share)) (l'.session id (.opened share)))
          (Beside n l l') (inSession id m) (inSession id m') :=
        (((hm _ _ (hbelow.session (Nat.le_refl _))).between rfl rfl).ensure
          (leave_outermost hnote hcalls hid hbelow hl hl')).bind (applied_pairs hnote hcalls hbelow)
      have hgrows : Within Grows h (opened id m (.ok share)) :=
        .bind Grows.path (fun d => Grows.path.refl d) fun _ =>
          .bind Grows.path (fun d => d.grows_enter _) fun _ => hbody.grows
      exact hbody.before hgrows fun {d e} hR _ =>
        ⟨_, _, rfl, rfl, d.grows_enter _, (hR.session hid (.opened share)).step (.enter rfl)⟩
  refine ((Blind.opening id).paired hnote hcalls hbelow |>.bind hopened).before (edit_grows hcalls id hm.grows)
    fun {d e} hR _ => ?_
  exact ⟨d, e, edit_idle ((hR.at id).trans hl), edit_idle ((hR.symm.at id).trans hl'), Grows.path.refl d, hR⟩

omit hbelow in
/-- An edit goes with what is done in its place. -/
theorem Goes.edit {b : Act σ (Except ε (Edited α))}
    (hb : Trades (Desk.InSession id) (edit id m') (onSpot id m') b) : Goes n h k (edit id m) b := by
  intro l l' hbelow
  refine ⟨edit_grows hcalls id hm.grows, fun {d e} hR hshallow => ?_⟩
  cases hl : (l id).1 with
  | idle =>
    have hl' := (hR.idle_iff id).2 hl
    rcases hb k e with heq | ⟨hin, -⟩
    · rw [heq]
      exact (edit_outermost hnote hcalls hid hbelow hm hl hl').run hR hshallow
    · rw [Desk.InSession, hR.symm.at id, hl'] at hin
      cases hin
  | active inner s =>
    obtain ⟨inner', hl'⟩ := hR.active hl
    rcases hb k e with heq | ⟨-, heq⟩
    · rw [heq]
      exact (edit_beside hnote hcalls hid hbelow hm hl hl').run hR hshallow
    · rw [heq]
      exact (edit_onSpot hnote hcalls hid hbelow hm hl).run hR hshallow

end

/-! ### Undoable edits -/

/-- One more undoable edit is counted on both desks. -/
theorem counted_beside {a a' : Act σ α} {last : Act σ Unit} (ha : Goes n h k a a') (hlast : Blind last)
    (hopen : min (l' id).2 1 = min (l id).2 1) :
    Pairs h k (Beside n l l') (Beside n l l') (counted id a last) (counted id a' last) := by
  have hup : min ((l' id).2 + 1) 1 = min ((l id).2 + 1) 1 := by omega
  have hlast' := hlast.paired hnote hcalls hbelow
  have hdown : Pairs h k (Beside n (l.undoDepth id ((l id).2 + 1)) (l'.undoDepth id ((l' id).2 + 1)))
      (Beside n l l') (changeUndoDepth id (· - 1) >>= fun _ => last)
      (changeUndoDepth id (· - 1) >>= fun _ => last) := by
    refine hlast'.before (.bind Grows.path (fun d => Grows.path.refl d) fun _ => hlast'.grows) fun {d e} hR _ => ?_
    have hback := hR.undoDepth hid (f := (· - 1)) (by simpa [Levels.undoDepth_self] using hopen)
    simp only [Levels.undoDepth_self, Nat.add_sub_cancel] at hback
    rw [Levels.undoDepth_back rfl, Levels.undoDepth_back rfl] at hback
    exact ⟨_, _, rfl, rfl, Grows.path.refl d, hback⟩
  have hbody := (ha _ _ (hbelow.undoDepth ((l' id).2 + 1) ((l id).2 + 1))).ensure hdown
  exact hbody.before (.bind Grows.path (fun d => Grows.path.refl d) fun _ => hbody.grows) fun {d e} hR _ =>
    ⟨_, _, rfl, rfl, Grows.path.refl d, hR.undoDepth hid (f := (· + 1)) hup⟩

/-- An undoable edit that joins another one beside its mutation alone. -/
theorem counted_onSpot {m m' : Scope → Act σ (Except ε α)} (hm : Goes n h k (m ⟨id⟩) (m' ⟨id⟩))
    (hl : (l id).1 = .active inner s) (hopen : 0 < (l id).2) :
    Pairs h k (Beside n l l') (Beside n l l') (counted id (edit id m) (pure ())) (onSpot id m') := by
  have hdown : Pairs h k (Beside n (l.undoDepth id ((l id).2 + 1)) l') (Beside n l l')
      (changeUndoDepth id (· - 1) >>= fun _ => pure ()) (pure ()) := by
    refine (Pairs.pure ()).before (fun d => Grows.path.refl d) fun {d e} hR _ => ?_
    have hback := hR.joined hid (f := (· - 1)) (by simp [Levels.undoDepth_self]) (by simpa [Levels.undoDepth_self])
    simp only [Levels.undoDepth_self, Nat.add_sub_cancel] at hback
    rw [Levels.undoDepth_back rfl] at hback
    exact ⟨_, _, rfl, rfl, Grows.path.refl d, hback⟩
  have hsession := (Levels.session_undoDepth ((l id).2 + 1)).trans hl
  have hbody := (edit_onSpot hnote hcalls hid (hbelow.joined ((l id).2 + 1)) hm hsession).ensure hdown
  rw [ensure_pure] at hbody
  exact hbody.before (.bind Grows.path (fun d => Grows.path.refl d) fun _ => hbody.grows) fun {d e} hR _ =>
    ⟨_, _, rfl, rfl, Grows.path.refl d, hR.joined hid (f := (· + 1)) hopen (Nat.succ_pos _)⟩

/-- Two undoable edits that record. -/
theorem recorded_beside {m m' : Scope → Act σ (Except ε α)} (hedit : Goes n h k (edit id m) (edit id m'))
    (label : Option String) (hopen : min (l' id).2 1 = min (l id).2 1) :
    Pairs h k (Beside n l l') (Beside n l l') (recorded id label m) (recorded id label m') := by
  have hbefore : Blind (look (·.model) : Act σ Model) := .look _ fun _ => rfl
  refine (hbefore.paired hnote hcalls hbelow).bind fun before => ?_
  refine ((Blind.startRecording id label).paired hnote hcalls hbelow).bind fun started => ?_
  cases started with
  | error source =>
    have htag : Blind (look fun d => (d.coordinator id).tag : Act σ String) := .look _ fun d => by
      rw [Desk.coordinator_veil]
      rfl
    exact (Blind.bind htag fun _ => .bind (.note _) fun _ => .pure _).paired hnote hcalls hbelow
  | ok _ =>
    have hentered {x : Deed} (hx : x.counts = false) : Goes n h k (did x) (did x) := fun _ _ hbelow =>
      (Blind.did hx).paired hnote hcalls hbelow
    have hran : Goes n h k (between (.edits id) (.edited id) (edit id m))
        (between (.edits id) (.edited id) (edit id m')) := fun l l' hbelow =>
      (hentered rfl l l' hbelow).bind fun _ => (hedit l l' hbelow).ensure (hentered rfl l l' hbelow)
    have hbegan : Blind (did (.began id label before.document before.recording.isSome) : Act σ Unit) := .did rfl
    exact (hbegan.paired hnote hcalls hbelow).bind fun _ =>
      counted_beside hnote hcalls hid hbelow hran (.finishRecording id) hopen

omit hbelow in
/-- An undoable edit goes with what is done in its place. -/
theorem Goes.undoable {m m' : Scope → Act σ (Except ε α)} (hm : Goes n h k (m ⟨id⟩) (m' ⟨id⟩)) {label : Option String}
    {b : Act σ (Except ε (Edited α))} (hb : Trades (Desk.InUndoable id) (undoableEdit id label m') (onSpot id m') b) :
    Goes n h k (undoableEdit id label m) b := by
  intro l l' hbelow
  refine ⟨undoableEdit_grows hcalls id label hm.grows, fun {d e} hR hshallow => ?_⟩
  have hedit : Goes n h k (Act.edit id m) (Act.edit id m') := Goes.edit hnote hcalls hid hm fun _ _ => .inl rfl
  have hundoing := hR.undoing id
  -- an undoable edit is open in both runs or in neither, so both join one or both record
  by_cases hopen : 0 < (l id).2
  · have hd : 0 < (d.coordinator id).undoDepth := by rwa [hR.undoDepth_at]
    have he : 0 < (e.coordinator id).undoDepth := by
      rw [hR.symm.undoDepth_at]
      omega
    rw [undoableEdit_joined hd] at hshallow ⊢
    rcases hb k e with heq | ⟨⟨hin, -⟩, heq⟩
    · rw [heq, undoableEdit_joined he]
      exact (counted_beside hnote hcalls hid hbelow hedit (.pure ()) hundoing).run hR hshallow
    · rw [Desk.InSession, hR.symm.at id] at hin
      cases hl : (l id).1 with
      | idle =>
        rw [(hR.idle_iff id).2 hl] at hin
        cases hin
      | active inner s =>
        rw [heq]
        exact (counted_onSpot hnote hcalls hid hbelow hm hl hopen).run hR hshallow
  · have hd : (d.coordinator id).undoDepth = 0 := by
      rw [hR.undoDepth_at]
      omega
    have he : (e.coordinator id).undoDepth = 0 := by
      rw [hR.symm.undoDepth_at]
      omega
    rw [undoableEdit_recorded hd] at hshallow ⊢
    rcases hb k e with heq | ⟨⟨-, hrunning⟩, -⟩
    · rw [heq, undoableEdit_recorded he]
      exact (recorded_beside hnote hcalls hid hbelow hedit label hundoing).run hR hshallow
    · omega

end

/-! ## Whole programs -/

/-- A program goes with the one that it becomes when edits are inlined. -/
theorem Inlines.goes (hnote : k.note = h.note) (hcalls : ∀ c, Goes n h k (fun _ => h.answer c) fun _ => k.answer c)
    {a b : Act σ α} (hab : Inlines n a b) : Goes n h k a b := by
  -- levels are arbitrary in the induction: a mutation goes on at others than its edit
  induction hab with
  | blind ha => exact fun _ _ hbelow => ha.paired hnote hcalls hbelow
  | bind _ _ hx hf => exact fun l l' hbelow => (hx l l' hbelow).bind fun a => hf a l l' hbelow
  | ensure _ _ hact hlast => exact fun l l' hbelow => (hact l l' hbelow).ensure (hlast l l' hbelow)
  | onInterrupt _ _ hact hlast => exact fun l l' hbelow => (hact l l' hbelow).onInterrupt (hlast l l' hbelow)
  | attempt _ hact => exact fun l l' hbelow => (hact l l' hbelow).attempt
  | edit hid _ hb hm => exact .edit hnote hcalls hid hm hb
  | undoable hid _ hb hm => exact .undoable hnote hcalls hid hm hb

end

end Act

/-- Hosts whose clients, when they are called, run programs the second of which are the first ones with edits
inlined. What they do depends on the desk only as far as it shows. -/
inductive Host.Inlines (n : Nat) : Host σ → Host σ → Prop
  | silent {h k : Host σ} : k.note = h.note → (∀ c d, h.answer c d = (.returned (), d)) →
      (∀ c d, k.answer c d = (.returned (), d)) → Inlines n h k
  | react {h k : Host σ} (inner inner' : Callback → Desk σ → Host σ)
      (reaction reaction' : Callback → Desk σ → Act σ Unit) :
      k.note = h.note → (∀ c d, Inlines n (inner c d) (inner' c d)) →
      (∀ c d, Act.Inlines n (reaction c d) (reaction' c d)) →
      (∀ c d, h.answer c d = reaction c d.veil (inner c d.veil) d) →
      (∀ c d, k.answer c d = reaction' c d.veil (inner' c d.veil) d) → Inlines n h k

namespace Host.Inlines

variable {n : Nat} {h k : Host σ}

theorem note (hh : Host.Inlines n h k) : k.note = h.note := by
  cases hh with
  | silent hnote => exact hnote
  | react _ _ _ _ hnote => exact hnote

/-- The answers of two such hosts go together. -/
theorem answers (hh : Host.Inlines n h k) (c : Callback) :
    Act.Goes n h k (fun _ => h.answer c) fun _ => k.answer c := by
  induction hh generalizing c with
  | @silent h k _ hh hk =>
    refine fun l l' _ => ⟨fun d => ?_, fun {d e} hR _ => ?_⟩
    · rw [hh]
      exact Desk.Grows.path.refl d
    · rw [hh, hk]
      exact ⟨rfl, hR.veil, fun _ => hR⟩
  | @react h k inner inner' reaction reaction' hnote hinner hreaction hh hk ih =>
    have hgoes (v : Desk σ) := (hreaction c v).goes (hinner c v).note (ih c v)
    refine fun l l' hbelow => ⟨fun d => ?_, fun {d e} hR hshallow => ?_⟩
    · rw [hh]
      exact (hgoes d.veil).grows d
    · rw [hh] at hshallow ⊢
      rw [hk, hR.veil]
      exact (hgoes d.veil l l' hbelow).run hR hshallow

/-- Clients that answer every call with one program. -/
theorem answering {a b : Act σ Unit} (hab : Act.Inlines n a b) : Host.Inlines n (.answering a) (.answering b) :=
  .react (fun _ _ => .silent) (fun _ _ => .silent) (fun _ _ => a) (fun _ _ => b) rfl
    (fun _ _ => .silent rfl (fun _ _ => rfl) fun _ _ => rfl) (fun _ _ => hab) (fun _ _ => rfl) fun _ _ => rfl

end Host.Inlines

namespace Desk

/-- What clients were told, in order, each time with the document that the model held then. -/
def heard (d : Desk σ) : List (Callback × Option Document) :=
  d.history.toList.filterMap fun
    | .told c document => some (c, document)
    | _ => none

/-- What clients were told shows. -/
theorem heard_veil (d : Desk σ) : d.veil.heard = d.heard := by
  simp only [heard, veil, List.filterMap_filter]
  refine congrArg (fun f => d.history.toList.filterMap f) (funext fun x => ?_)
  cases x <;> rfl

end Desk

/-- **Nested sessions are transparent.** In the second run, edits are inlined that would be nested in a session
of their coordinator, some or all of them, in the program and in what clients do. Then the two runs end alike
and leave the same model, and clients have been called with the same events in the same order; and unless the
run was cut off, sessions are as deep after the one as after the other. The count of sessions stops growing at
the largest 64-bit number; the first run does not get there. -/
theorem Host.Inlines.transparent {n : Nat} {h k : Host σ} (hh : Host.Inlines n h k) {a b : Act σ α}
    (hab : Act.Inlines n a b) {d : Desk σ} (hn : n ≤ d.coordinators.length) (hshallow : d.Shallow (a h d).2) :
    (b k d).1 = (a h d).1 ∧ (b k d).2.model = (a h d).2.model ∧ (b k d).2.heard = (a h d).2.heard ∧
      (b k d).2.veil = (a h d).2.veil ∧ ((a h d).1 ≠ .fatal → (b k d).2.levels = (a h d).2.levels) := by
  have hsame : d.Beside n d.levels d.levels d := ⟨hn, rfl, rfl, rfl⟩
  obtain ⟨houtcome, hveil, hkept⟩ :=
    (hab.goes hh.note hh.answers _ _ fun _ => Nat.le_refl _).run hsame hshallow
  refine ⟨houtcome, congrArg (·.model) hveil, ?_, hveil, fun hfatal => ?_⟩
  · rw [← Desk.heard_veil, hveil, Desk.heard_veil]
  · rw [(hkept hfatal).left, (hkept hfatal).right]

/-- An undoable edit, in the mutation of which the document is saved and a session and another undoable edit are
nested; the innermost mutation makes the model unavailable. A listener edits whenever it hears of an event: in a
session of its own when a change is about to begin, in the open one when the document is saved, and in vain when the
change is done. -/
theorem Host.Inlines.transparent_joined :
    let write (text : String) (s : Scope) : Act Unit (Except ModelError Unit) :=
      Act.mutateIn s fun document => pure ((), document ++ text)
    let close (s : Scope) : Act Unit (Except ModelError Unit) := do
      Act.setAvailable false
      write "x" s
    let h : Host Unit := .answering do let _ ← Act.edit 0 (write "!")
    let k : Host Unit := .answering do let _ ← Act.editOnce 0 (write "!")
    let a : Act Unit (Except ModelError (Edited (Edited (Edited Unit)))) :=
      Act.undoableEdit 0 (some "outer") fun _ => do
        Act.save
        Act.edit 0 fun _ => Act.undoableEdit 0 (some "inner") close
    let b : Act Unit (Except ModelError (Edited (Edited (Edited Unit)))) :=
      Act.undoableOnce 0 (some "outer") fun _ => do
        Act.save
        Act.editOnce 0 fun _ => Act.undoableOnce 0 (some "inner") close
    let d : Desk Unit :=
      { model := { document := some "", subscriptions := [⟨0, .client 0⟩] }, coordinators := [{}], client := () }
    Host.Inlines 1 h k ∧ Act.Inlines 1 a b ∧ 1 ≤ d.coordinators.length ∧ d.Shallow (a h d).2 ∧
      (b k d).1 = (a h d).1 ∧ (b k d).2.model = (a h d).2.model ∧ (b k d).2.heard = (a h d).2.heard ∧
      (b k d).2.veil = (a h d).2.veil ∧ (b k d).2.levels = (a h d).2.levels ∧
      (a h d).1.map Except.toOption = .returned (some (.applied (.applied (.applied ())))) ∧
      (a h d).2.model.document = some "!!x" ∧
      (a h d).2.history.toList.filter Deed.counts =
        [.runs 0, .ran 0, .left 0, .runs 0, .entered 0 2, .runs 0, .ran 0, .left 0, .entered 0 2, .runs 0,
          .entered 0 3, .runs 0, .ran 0, .left 0, .ran 0, .left 0, .ran 0, .left 0] ∧
      (b k d).2.history.toList.filter Deed.counts = [.runs 0, .ran 0, .left 0, .runs 0, .ran 0, .left 0] := by
  intro write close h k a b d
  have hwrite (text : String) (s : Scope) : Act.Inlines 1 (write text s) (write text s) :=
    .mutateIn s fun _ => .blind (.pure _)
  have hh : Host.Inlines 1 h k :=
    .answering (.bind (.editOnce (by decide) (hwrite "!" _)) fun _ => .blind (.pure _))
  have hop {a : Act Unit Unit} (ha : Act.Public a) : Act.Inlines 1 a a := .blind (ha.blind fun _ _ _ => rfl)
  have hclose : Act.Inlines 1 (close ⟨0⟩) (close ⟨0⟩) :=
    .bind (hop (.offBooks (.setAvailable false))) fun _ => hwrite "x" _
  have hab : Act.Inlines 1 a b :=
    .undoableOnce (by decide) _ <| .bind (hop (.offBooks .save)) fun _ =>
      .editOnce (by decide) <| .undoableOnce (by decide) _ hclose
  have hentered : (a h d).2.history.toList.filter Deed.counts =
      [.runs 0, .ran 0, .left 0, .runs 0, .entered 0 2, .runs 0, .ran 0, .left 0, .entered 0 2, .runs 0,
        .entered 0 3, .runs 0, .ran 0, .left 0, .ran 0, .left 0, .ran 0, .left 0] := by decide +kernel
  have hshallow : d.Shallow (a h d).2 := by
    refine ⟨(a h d).2.history.toList, (List.nil_append _).symm, fun id depth hmem => ?_⟩
    have hcounted := hentered ▸ List.mem_filter.2 ⟨hmem, rfl⟩
    have hdepth : depth = 2 ∨ depth = 3 := by
      simp only [List.mem_cons, Deed.entered.injEq, reduceCtorEq, false_or, or_false, List.not_mem_nil] at hcounted
      omega
    have hmax : 3 ≤ maxDepth := by decide
    omega
  have hanswer : (a h d).1.map Except.toOption = .returned (some (.applied (.applied (.applied ())))) := by
    decide +kernel
  have hended : (a h d).1 ≠ .fatal := fun hfatal => by
    rw [hfatal] at hanswer
    cases hanswer
  obtain ⟨houtcome, hmodel, hheard, hveil, hlevels⟩ := hh.transparent hab (d := d) (Nat.le_refl 1) hshallow
  exact ⟨hh, hab, Nat.le_refl 1, hshallow, houtcome, hmodel, hheard, hveil, hlevels hended, hanswer,
    by decide +kernel, hentered, by decide +kernel⟩

end FormDesk

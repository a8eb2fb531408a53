/-
The steps of a desk. `Step` lists what editing can do to a desk at a time,
clients apart: each call that the model accepts, each event that goes out, each
entry of the history. A bracket and its announcement are one step, since
nothing comes between them.

Editing keeps a contract that allows every step, when the clients keep it
(`edit_keeps`), and with the steps of recordings so does undoable editing
(`undoableEdit_keeps`). A relation that contains every step, and that the
clients stay within, is one that editing stays within (`edit_within`,
`undoableEdit_within`).
-/
import FormDesk.Proofs.Contract

namespace FormDesk

variable {σ ε α : Type}

namespace Desk

/-- The desk after an event has gone out, if it has. -/
def announced (d : Desk σ) (outermost : Bool) (event : Event) : Desk σ :=
  if outermost then d.enter (.emitted event) else d

@[simp] theorem toList_enter (d : Desk σ) (e : Deed) :
    (d.enter e).history.toList = d.history.toList ++ [e] := by simp [enter]

@[simp] theorem toList_accepted (d : Desk σ) (s : Share) (c : Call) (m : Model) :
    (d.accepted s c m).history.toList = d.history.toList ++ [.call s.id c] := by simp [accepted, enter]

@[simp] theorem toList_announced (d : Desk σ) (b : Bool) (event : Event) :
    (d.announced b event).history.toList = d.history.toList ++ if b then [.emitted event] else [] := by
  cases b <;> simp [announced]

@[simp] theorem model_enter (d : Desk σ) (e : Deed) : (d.enter e).model = d.model := rfl

@[simp] theorem model_accepted (d : Desk σ) (s : Share) (c : Call) (m : Model) :
    (d.accepted s c m).model = m := rfl

@[simp] theorem model_announced (d : Desk σ) (b : Bool) (event : Event) :
    (d.announced b event).model = d.model := by cases b <;> rfl

/-- One step of editing. -/
inductive Step : Desk σ → Desk σ → Prop
  | acquire {d access s m} : d.model.acquire access = .ok (s, m) →
      Step d (d.accepted s (.acquire access) m)
  | release {d s access m} : d.model.release? s = some (access, m) →
      Step d (d.accepted s (.release access) m)
  | openBracket {d s m} : d.model.openBracket s = .ok m →
      Step d ((d.accepted s .aboutToChange m).announced (m.changing == 1) .aboutToChange)
  | closeBracket {d s m} : d.model.closeBracket s = .ok m →
      Step d ((d.accepted s .changed m).announced (m.changing == 0) (.changed m.document))
  | takeDocument {d s document m} : d.model.takeDocument s = .ok (document, m) →
      Step d (d.accepted s .mutate m)
  | putDocument {d} (document : Document) :
      Step d { d.enter (.mutated true) with model := d.model.putDocument document }
  | lost {d} : Step d (d.enter (.mutated false))
  | dirtied {d} : Step d (d.enter (.emitted (.dirtyChanged true)))
  | told {d} (c : Callback) : Step d (d.enter (.told c d.model.document))
  | threw {d} (c : Callback) : Step d (d.enter (.threw c))
  | client {d} (s : σ) : Step d { d with client := s }
  | starting {d} (id : CoordinatorId) (share : Nat) : Step d (d.enter (.starting id share))
  | entered {d} (id : CoordinatorId) (depth : Nat) : Step d (d.enter (.entered id depth))
  | left {d} (id : CoordinatorId) : Step d (d.enter (.left id))
  | runs {d} (id : CoordinatorId) : Step d (d.enter (.runs id))
  | ran {d} (id : CoordinatorId) : Step d (d.enter (.ran id))
  | session {d} (id : CoordinatorId) (s : Sessions) : Step d (d.withSession id s)
  | opened {d} (id : CoordinatorId) (share : Nat) : Step d (d.enter (.opened id share))

/-- The steps among these that take a share and give it back. -/
inductive Visit : Desk σ → Desk σ → Prop
  | acquire {d access s m} : d.model.acquire access = .ok (s, m) →
      Visit d (d.accepted s (.acquire access) m)
  | release {d s access m} : d.model.release? s = some (access, m) →
      Visit d (d.accepted s (.release access) m)
  | client {d} (s : σ) : Visit d { d with client := s }

theorem Visit.step {d e : Desk σ} (h : Visit d e) : Step d e := by
  cases h with
  | acquire h => exact .acquire h
  | release h => exact .release h
  | client s => exact .client s

/-- The steps among these that open and close sessions, brackets apart. -/
inductive Motion : Desk σ → Desk σ → Prop
  | visit {d e} : Visit d e → Motion d e
  | starting {d} (id : CoordinatorId) (share : Nat) : Motion d (d.enter (.starting id share))
  | entered {d} (id : CoordinatorId) (depth : Nat) : Motion d (d.enter (.entered id depth))
  | left {d} (id : CoordinatorId) : Motion d (d.enter (.left id))
  | runs {d} (id : CoordinatorId) : Motion d (d.enter (.runs id))
  | ran {d} (id : CoordinatorId) : Motion d (d.enter (.ran id))
  | session {d} (id : CoordinatorId) (s : Sessions) : Motion d (d.withSession id s)
  | opened {d} (id : CoordinatorId) (share : Nat) : Motion d (d.enter (.opened id share))

/-- The steps among these that open and close sessions, their announcements included. -/
inductive Passage : Desk σ → Desk σ → Prop
  | visit {d e} : Visit d e → Passage d e
  | openBracket {d s m} : d.model.openBracket s = .ok m →
      Passage d ((d.accepted s .aboutToChange m).announced (m.changing == 1) .aboutToChange)
  | closeBracket {d s m} : d.model.closeBracket s = .ok m →
      Passage d ((d.accepted s .changed m).announced (m.changing == 0) (.changed m.document))
  | starting {d} (id : CoordinatorId) (share : Nat) : Passage d (d.enter (.starting id share))
  | entered {d} (id : CoordinatorId) (depth : Nat) : Passage d (d.enter (.entered id depth))
  | left {d} (id : CoordinatorId) : Passage d (d.enter (.left id))
  | runs {d} (id : CoordinatorId) : Passage d (d.enter (.runs id))
  | ran {d} (id : CoordinatorId) : Passage d (d.enter (.ran id))
  | session {d} (id : CoordinatorId) (s : Sessions) : Passage d (d.withSession id s)
  | opened {d} (id : CoordinatorId) (share : Nat) : Passage d (d.enter (.opened id share))

theorem Motion.passage {d e : Desk σ} (h : Motion d e) : Passage d e := by
  cases h with
  | visit h => exact .visit h
  | starting id share => exact .starting id share
  | entered id depth => exact .entered id depth
  | left id => exact .left id
  | runs id => exact .runs id
  | ran id => exact .ran id
  | session id s => exact .session id s
  | opened id share => exact .opened id share

theorem Passage.step {d e : Desk σ} (h : Passage d e) : Step d e := by
  cases h with
  | visit h => exact h.step
  | openBracket h => exact .openBracket h
  | closeBracket h => exact .closeBracket h
  | starting id share => exact .starting id share
  | entered id depth => exact .entered id depth
  | left id => exact .left id
  | runs id => exact .runs id
  | ran id => exact .ran id
  | session id s => exact .session id s
  | opened id share => exact .opened id share

/-- One step of recording. -/
inductive Recorded : Desk σ → Desk σ → Prop
  | beginRecording {d s owner label m} : d.model.beginRecording s owner label = .ok m →
      Recorded d (d.accepted s (.beginRecording label) m)
  | endRecording {d s owner m} : d.model.endRecording s owner = .ok m →
      Recorded d (d.accepted s .endRecording m)
  | began {d} (id label document recording) : Recorded d (d.enter (.began id label document recording))
  | finished {d} (id available) : Recorded d (d.enter (.finished id available))
  | edits {d} (id : CoordinatorId) : Recorded d (d.enter (.edits id))
  | edited {d} (id : CoordinatorId) : Recorded d (d.enter (.edited id))
  | depth {d} (id : CoordinatorId) (f : Nat → Nat) : Recorded d (d.withUndoDepth id f)

end Desk

namespace Act

open Desk (Contract)

variable {K : Contract σ} {R : Desk σ → Desk σ → Prop} {h : Host σ}

/-! ## Telling clients -/

theorem call_keeps (htold : ∀ d c, K.ended d (d.enter (.told c d.model.document)))
    (hthrew : ∀ d c, K.ended d (d.enter (.threw c))) (hcut : ∀ d e c, K.cut d e → K.cut d (e.enter (.threw c)))
    (hc : ∀ c, Keeps K h fun _ => h.answer c) (c : Callback) : Keeps K h (call c) := by
  intro d
  have hanswered := (hc c).after (htold d c)
  unfold KeepsFrom call at *
  rcases hans : h.answer c (d.enter (.told c d.model.document)) with ⟨outcome, e⟩
  simp only [hans] at hanswered ⊢
  cases outcome with
  | returned _ => exact hanswered
  | interrupted _ => exact K.trans hanswered (hthrew _ c)
  | fatal => exact hcut _ _ c hanswered

theorem notify_keeps (hc : ∀ c, Keeps K h (call c)) (o : Observer) (event : Event) :
    Keeps K h (notify o event) := by
  cases o with
  | view id => exact hc _
  | tabs id =>
    cases event with
    | changed document => exact (Keeps.look _).bind fun _ => .each (fun _ => hc _) _
    | _ => exact .pure ()

/-- An event reaches a listener under a contract that is kept while an observer is held. -/
theorem deliver_holding_keeps (hc : ∀ c, Keeps K h (call c))
    (hhold : ∀ (o : Observer) event, Keeps K h (notify o event) →
      Keeps K h (do hold o.ref; ensure (notify o event) (unhold o.ref))) (event : Event) (l : Listener) :
    Keeps K h (deliver event l) := by
  cases l with
  | client id => exact hc _
  | relay o =>
    refine (Keeps.look _).bind fun here => ?_
    cases here with
    | false => exact .pure ()
    | true => exact hhold o event (notify_keeps hc o event)

theorem deliver_keeps (hc : ∀ c, Keeps K h (call c)) (hheld : ∀ d l, K.ended d { d with held := l })
    (event : Event) (l : Listener) : Keeps K h (deliver event l) :=
  deliver_holding_keeps hc (fun o _ hnotify => (Keeps.change fun d => hheld d (o.ref :: d.held)).bind fun _ =>
    hnotify.ensure (.change fun d => hheld d (d.held.erase o.ref))) event l

/-- An event whose emission is part of a step reaches its listeners under the contract. -/
theorem emit_keeps (hd : ∀ event l, Keeps K h (deliver event l)) {event : Event} {d e : Desk σ}
    (hs : K.ended d (e.enter (.emitted event))) : KeepsFrom K h (emit event) d e :=
  (Keeps.each (fun s : Subscription => hd event s.listener) _).after hs

/-! ## Shares and recordings -/

section

variable (hv : ∀ d e, Desk.Visit d e → K.ended d e)

include hv

theorem note_keeps (n : Notice) : Keeps K h (note n) := fun _ => hv _ _ (.client _)

theorem release_keeps (s : Share) : Keeps K h (release s) := by
  intro d
  unfold KeepsFrom
  cases heq : d.model.release? s with
  | none =>
    rw [release_refused heq]
    exact hv _ _ (.client _)
  | some taken =>
    rw [release_run heq]
    exact hv _ _ (.release heq)

theorem acquire_keeps (access : Access) : Keeps K h (acquire access) := by
  intro d
  unfold KeepsFrom
  cases heq : d.model.acquire access with
  | error e =>
    rw [acquire_refused heq]
    exact K.refl d
  | ok taken =>
    rw [acquire_run heq]
    exact hv _ _ (.acquire heq)

theorem withShare_keeps (access : Access) {f : Share → Act σ α} (hf : ∀ s, Keeps K h (f s)) :
    Keeps K h (withShare access f) := by
  refine (acquire_keeps hv access).bind fun taken => ?_
  cases taken with
  | error e => exact .pure _
  | ok share => exact ((hf share).ensure (release_keeps hv share)).bind fun _ => .pure _

end

theorem beginRecording_keeps (hr : ∀ d e, Desk.Recorded d e → K.ended d e) (s : Share) (owner : Owner)
    (label : Option String) : Keeps K h (beginRecording s owner label) := by
  intro d
  unfold KeepsFrom
  cases heq : d.model.beginRecording s owner label with
  | error e =>
    rw [beginRecording_refused heq]
    exact K.refl d
  | ok m =>
    rw [beginRecording_run heq]
    exact hr _ _ (.beginRecording heq)

theorem endRecording_keeps (hn : ∀ n, Keeps K h (note n)) (hr : ∀ d e, Desk.Recorded d e → K.ended d e)
    (s : Share) (owner : Owner) : Keeps K h (endRecording s owner) := by
  intro d
  unfold KeepsFrom
  cases heq : d.model.endRecording s owner with
  | error n =>
    rw [endRecording_refused heq]
    exact hn n d
  | ok m =>
    rw [endRecording_run heq]
    exact hr _ _ (.endRecording heq)

section

variable (hshare : ∀ {α : Type} {f : Share → Act σ α}, (∀ s, Keeps K h (f s)) → Keeps K h (withShare .edit f))
  (hn : ∀ n, Keeps K h (note n)) (hr : ∀ d e, Desk.Recorded d e → K.ended d e)

include hshare hr

theorem startRecording_keeps (id : CoordinatorId) (label : Option String) :
    Keeps K h (startRecording id label) := by
  refine (hshare fun share => beginRecording_keeps hr share _ label).bind fun started => ?_
  cases started <;> exact .pure _

include hn

theorem finishRecording_keeps (id : CoordinatorId) : Keeps K h (finishRecording id) := by
  refine (Keeps.look _).bind fun available => (Keeps.change fun d => hr _ _ (.finished id available)).bind fun _ => ?_
  refine (hshare fun share => endRecording_keeps hn hr share _).bind fun finished => ?_
  cases finished with
  | error e => exact hn _
  | ok _ => exact .pure _

/-- An undoable edit keeps a contract that edits and recordings keep. -/
theorem undoableEdit_keeps (id : CoordinatorId) (label : Option String)
    {mutation : Scope → Act σ (Except ε α)} (hedit : Keeps K h (edit id mutation)) :
    Keeps K h (undoableEdit id label mutation) := by
  have hdepth (f : Nat → Nat) : Keeps K h (changeUndoDepth id f) := fun d => hr _ _ (.depth id f)
  have hrun : Keeps K h (between (.edits id) (.edited id) (edit id mutation)) :=
    hedit.between (fun d => hr _ _ (.edits id)) fun d => hr _ _ (.edited id)
  refine (Keeps.look _).bind fun depth => ?_
  by_cases hdeep : depth > 0
  · simp only [hdeep, if_true]
    exact (hdepth _).bind fun _ => hedit.ensure (hdepth _)
  · simp only [hdeep, if_false]
    refine (Keeps.look _).bind fun before => (startRecording_keeps hshare hr id label).bind fun started => ?_
    cases started with
    | error source => exact (Keeps.look _).bind fun _ => (hn _).bind fun _ => .pure _
    | ok _ =>
      refine (Keeps.change fun d => hr _ _ (.began id label _ _)).bind fun _ => (hdepth _).bind fun _ => ?_
      exact hrun.ensure ((hdepth _).bind fun _ => finishRecording_keeps hshare hn hr id)

end

/-! ## Editing -/

/-- A mutation keeps a contract that allows to take the document in hand and to lose it, if `f` keeps it and so
does what is done at last: the document is put back, and the listeners are told if the model became dirty. -/
theorem mutate_keeps_put {s : Share} {d : Desk σ}
    (htake : ∀ document m, d.model.takeDocument s = .ok (document, m) → K.ended d (d.accepted s .mutate m))
    (hlost : ∀ d, K.ended d (d.enter (.mutated false)))
    (hput : ∀ (a : α) document, Keeps K h (look (·.model.dirty) >>= fun wasDirty =>
      change (fun d => { d.enter (.mutated true) with model := d.model.putDocument document }) >>= fun _ =>
        if !wasDirty then emit (.dirtyChanged true) >>= fun _ => pure (.ok a)
        else pure (.ok a : Except ModelError α)))
    {f : Document → Act σ (α × Document)} (hf : ∀ document, Keeps K h (f document)) :
    KeepsFrom K h (mutate s f) d d := by
  unfold KeepsFrom
  simp only [mutate, look_bind]
  cases heq : d.model.takeDocument s with
  | error e => exact K.refl d
  | ok taken =>
    obtain ⟨document, m⟩ := taken
    have hrun := (hf document).onInterrupt (Keeps.change hlost)
    exact (hrun.after (htake _ _ heq)).bind fun result => hput result.1 result.2

/-- A mutation that has the document in hand while `f` runs. -/
theorem mutate_keeps {s : Share} {d : Desk σ}
    (htake : ∀ document m, d.model.takeDocument s = .ok (document, m) → K.ended d (d.accepted s .mutate m))
    (hput : ∀ d document, K.ended d { d.enter (.mutated true) with model := d.model.putDocument document })
    (hlost : ∀ d, K.ended d (d.enter (.mutated false))) (hdirtied : Keeps K h (emit (.dirtyChanged true)))
    {f : Document → Act σ (α × Document)} (hf : ∀ document, Keeps K h (f document)) :
    KeepsFrom K h (mutate s f) d d := by
  refine mutate_keeps_put htake hlost (fun a document => (Keeps.look _).bind fun wasDirty =>
    (Keeps.change fun d => hput d document).bind fun _ => ?_) hf
  cases wasDirty with
  | true => exact .pure _
  | false => exact hdirtied.bind fun _ => .pure _

section

variable (hs : ∀ d e, Desk.Passage d e → K.ended d e) (hd : ∀ event l, Keeps K h (deliver event l))

include hs hd

theorem openBracket_keeps (s : Share) : Keeps K h (openBracket s) := by
  intro d
  unfold KeepsFrom
  simp only [openBracket, look_bind]
  cases heq : d.model.openBracket s with
  | error e => exact K.refl d
  | ok m =>
    have hstep := hs _ _ (.openBracket heq)
    simp only [accept_bind]
    by_cases hfirst : m.changing = 1
    · simp only [Desk.announced, hfirst, beq_self_eq_true, if_true] at hstep ⊢
      exact (emit_keeps hd hstep).bind fun _ => .pure _
    · simp only [Desk.announced, hfirst, beq_iff_eq, if_false, pure_run] at hstep ⊢
      exact hstep

theorem closeBracket_keeps (s : Share) : Keeps K h (closeBracket s) := by
  intro d
  unfold KeepsFrom
  simp only [closeBracket, look_bind]
  cases heq : d.model.closeBracket s with
  | error n => exact hs _ _ (.visit (.client _))
  | ok m =>
    have hstep := hs _ _ (.closeBracket heq)
    simp only [accept_bind]
    by_cases hlast : m.changing = 0
    · simp only [Desk.announced, hlast, beq_self_eq_true, if_true] at hstep ⊢
      exact emit_keeps hd hstep
    · simp only [Desk.announced, hlast, beq_iff_eq, if_false, pure_run] at hstep ⊢
      exact hstep

end

section

variable (hmove : ∀ d e, Desk.Motion d e → K.ended d e) (hopen : ∀ s, Keeps K h (openBracket s))
  (hclose : ∀ s, Keeps K h (closeBracket s))

include hmove

omit hclose in
include hopen in
theorem openSession_moves (id : CoordinatorId) : Keeps K h (openSession id) := by
  have hv : ∀ d e, Desk.Visit d e → K.ended d e := fun _ _ hvisit => hmove _ _ (.visit hvisit)
  refine (Keeps.look _).bind fun session => ?_
  cases session.nest? with
  | some deeper =>
    exact (Keeps.look _).bind fun outer => (Keeps.change fun d => hmove _ _ (.entered id _)).bind fun _ =>
      (Keeps.change fun d => hmove _ _ (.session id deeper)).bind fun _ => .pure _
  | none =>
    refine (acquire_keeps hv .edit).bind fun taken => ?_
    cases taken with
    | error e => exact .pure _
    | ok share =>
      refine (Keeps.change fun d => hmove _ _ (.starting id share.id)).bind fun _ => ?_
      refine ((hopen share).onInterrupt (release_keeps hv share)).bind fun opened => ?_
      cases opened with
      | error e => exact (release_keeps hv share).bind fun _ => .pure _
      | ok _ =>
        exact (Keeps.change fun d => hmove _ _ (.session id _)).bind fun _ =>
          (Keeps.change fun d => hmove _ _ (.opened id share.id)).bind fun _ => .pure _

omit hopen in
include hclose in
theorem leaveSession_moves (id : CoordinatorId) : Keeps K h (leaveSession id) := by
  refine (Keeps.change fun d => hmove _ _ (.left id)).bind fun _ => (Keeps.look _).bind fun session => ?_
  rcases session.leave with ⟨exit, after⟩
  refine (Keeps.change fun d => hmove _ _ (.session id after)).bind fun _ => ?_
  cases exit with
  | outermost share =>
    exact (hclose share).ensure (release_keeps (fun _ _ hvisit => hmove _ _ (.visit hvisit)) share)
  | nested depth => exact .pure ()
  | underflow => exact .pure ()

include hopen hclose in
/-- An edit keeps a contract that its brackets and the steps of sessions keep. -/
theorem edit_moves (id : CoordinatorId) {mutation : Scope → Act σ (Except ε α)}
    (hm : Keeps K h (mutation ⟨id⟩)) : Keeps K h (edit id mutation) := by
  refine (openSession_moves hmove hopen id).bind fun entered => ?_
  cases entered with
  | error e => exact (note_keeps (fun _ _ hvisit => hmove _ _ (.visit hvisit)) _).bind fun _ => .pure _
  | ok _ =>
    have hrun : Keeps K h (between (.runs id) (.ran id) (mutation ⟨id⟩)) :=
      hm.between (fun d => hmove _ _ (.runs id)) fun d => hmove _ _ (.ran id)
    refine (hrun.ensure (leaveSession_moves hmove hclose id)).bind fun ended => ?_
    cases ended <;> exact .pure _

end

section

variable (hs : ∀ d e, Desk.Passage d e → K.ended d e) (hd : ∀ event l, Keeps K h (deliver event l))

include hs hd

theorem openSession_keeps (id : CoordinatorId) : Keeps K h (openSession id) :=
  openSession_moves (fun _ _ hmove => hs _ _ hmove.passage) (openBracket_keeps hs hd) id

theorem edit_keeps (id : CoordinatorId) {mutation : Scope → Act σ (Except ε α)}
    (hm : Keeps K h (mutation ⟨id⟩)) : Keeps K h (edit id mutation) :=
  edit_moves (fun _ _ hmove => hs _ _ hmove.passage) (openBracket_keeps hs hd) (closeBracket_keeps hs hd) id hm

end

/-! ## Staying within a relation -/

theorem call_within (hR : Desk.Path R) (htold : ∀ d c, R d (d.enter (.told c d.model.document)))
    (hthrew : ∀ d c, R d (d.enter (.threw c))) (hc : ∀ c d, R d (h.answer c d).2) (c : Callback) :
    Within R h (call c) :=
  keeps_contract.1 (call_keeps (K := hR.contract) htold hthrew (fun _ _ c he => hR.trans he (hthrew _ c))
    (fun c => keeps_contract.2 (hc c)) c)

theorem notify_within (hR : Desk.Path R) (hc : ∀ c, Within R h (call c)) (o : Observer) (event : Event) :
    Within R h (notify o event) :=
  keeps_contract.1 (notify_keeps (K := hR.contract) (fun c => keeps_contract.2 (hc c)) o event)

/-- An event reaches a listener within a relation that is kept while an observer is held. -/
theorem deliver_holding_within (hR : Desk.Path R) (hc : ∀ c, Within R h (call c))
    (hhold : ∀ (o : Observer) event, Within R h (notify o event) →
      Within R h (do hold o.ref; ensure (notify o event) (unhold o.ref))) (event : Event) (l : Listener) :
    Within R h (deliver event l) :=
  keeps_contract.1 (deliver_holding_keeps (K := hR.contract) (fun c => keeps_contract.2 (hc c))
    (fun o event hnotify => keeps_contract.2 (hhold o event (keeps_contract.1 hnotify))) event l)

theorem deliver_within (hR : Desk.Path R) (hc : ∀ c, Within R h (call c))
    (hheld : ∀ d l, R d { d with held := l }) (event : Event) (l : Listener) :
    Within R h (deliver event l) :=
  keeps_contract.1 (deliver_keeps (K := hR.contract) (fun c => keeps_contract.2 (hc c)) hheld event l)

/-- An event whose emission is part of a step reaches its listeners within the relation. -/
theorem emit_within (hR : Desk.Path R) (hd : ∀ event l, Within R h (deliver event l)) {event : Event}
    {d e : Desk σ} (hs : R d (e.enter (.emitted event))) : R d (emit event h e).2 :=
  hR.trans hs (Within.each hR (fun s : Subscription => hd event s.listener) _ _)

section

variable (hR : Desk.Path R) (hv : ∀ d e, Desk.Visit d e → R d e) (hr : ∀ d e, Desk.Recorded d e → R d e)

include hR hv

theorem release_within (s : Share) : Within R h (release s) :=
  keeps_contract.1 (release_keeps (K := hR.contract) hv s)

include hr

theorem startRecording_within (id : CoordinatorId) (label : Option String) :
    Within R h (startRecording id label) :=
  keeps_contract.1 (startRecording_keeps (K := hR.contract) (fun hf => withShare_keeps hv .edit hf) hr id label)

theorem finishRecording_within (id : CoordinatorId) : Within R h (finishRecording id) :=
  keeps_contract.1 (finishRecording_keeps (K := hR.contract) (fun hf => withShare_keeps hv .edit hf)
    (note_keeps hv) hr id)

end

/-- A mutation that has the document in hand while `f` runs. -/
theorem mutate_within (hR : Desk.Path R) {s : Share} {d : Desk σ}
    (htake : ∀ document m, d.model.takeDocument s = .ok (document, m) → R d (d.accepted s .mutate m))
    (hput : ∀ d document, R d { d.enter (.mutated true) with model := d.model.putDocument document })
    (hlost : ∀ d, R d (d.enter (.mutated false))) (hdirtied : Within R h (emit (.dirtyChanged true)))
    {f : Document → Act σ (α × Document)} (hf : ∀ document, Within R h (f document)) :
    R d (mutate s f h d).2 := by
  have hrun := mutate_keeps (K := hR.contract) htake hput hlost (keeps_contract.2 hdirtied)
    fun document => keeps_contract.2 (hf document)
  rwa [KeepsFrom, Contract.at_contract] at hrun

section

variable (hR : Desk.Path R) (hs : ∀ d e, Desk.Step d e → R d e) (hd : ∀ event l, Within R h (deliver event l))

include hR hs hd

theorem openSession_within (id : CoordinatorId) : Within R h (openSession id) :=
  keeps_contract.1 (openSession_keeps (K := hR.contract) (fun _ _ hpass => hs _ _ hpass.step)
    (fun event l => keeps_contract.2 (hd event l)) id)

theorem edit_within (id : CoordinatorId) {mutation : Scope → Act σ (Except ε α)}
    (hm : Within R h (mutation ⟨id⟩)) : Within R h (edit id mutation) :=
  keeps_contract.1 (edit_keeps (K := hR.contract) (fun _ _ hpass => hs _ _ hpass.step)
    (fun event l => keeps_contract.2 (hd event l)) id (keeps_contract.2 hm))

theorem undoableEdit_within (hr : ∀ d e, Desk.Recorded d e → R d e) (id : CoordinatorId)
    (label : Option String) {mutation : Scope → Act σ (Except ε α)} (hm : Within R h (mutation ⟨id⟩)) :
    Within R h (undoableEdit id label mutation) := by
  have hv : ∀ d e, Desk.Visit d e → R d e := fun _ _ hvisit => hs _ _ hvisit.step
  exact keeps_contract.1 (undoableEdit_keeps (K := hR.contract) (fun hf => withShare_keeps hv .edit hf)
    (note_keeps hv) hr id label (keeps_contract.2 (edit_within hR hs hd id hm)))

end

end Act

end FormDesk

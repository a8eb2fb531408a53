/-
Callers: clients that use all of a model and its coordinators. They take and
give back shares, open and close brackets, take the document in hand with any
share, record, undo, subscribe, switch the model and rebuild it; they edit
through coordinators, have cleaning up of their own, catch interruptions, and
may cut their run off anywhere. `Caller n Op` is the class of actions that are
put together so from the operations `Op`, with the coordinators below `n`, and
`Callers n Op` is the class of hosts whose clients act so when they are called.

Which operations there are by hand differs from one statement to another;
`OffBooksOp` has those that concern neither shares nor brackets nor recordings.

A contract that the operations and the ways of putting actions together keep
(`Trusts`) is kept by all such actions, under all such hosts (`Callers.keeps`).
-/
import FormDesk.Proofs.Client
import FormDesk.Proofs.Transition

namespace FormDesk

variable {σ : Type}

/-! ## Steps -/

namespace Desk

/-- The steps of editing that come with calling clients. -/
inductive ClientStep : Desk σ → Desk σ → Prop
  | told {d} (c : Callback) : ClientStep d (d.enter (.told c d.model.document))
  | threw {d} (c : Callback) : ClientStep d (d.enter (.threw c))
  | client {d} (s : σ) : ClientStep d { d with client := s }

theorem ClientStep.step {d e : Desk σ} (h : ClientStep d e) : Step d e := by
  cases h with
  | told c => exact .told c
  | threw c => exact .threw c
  | client s => exact .client s

/-- The steps of editing that take the document in hand and end a mutation. -/
inductive InHand : Desk σ → Desk σ → Prop
  | take {d s document m} : d.model.takeDocument s = .ok (document, m) → InHand d (d.accepted s .mutate m)
  | put {d} (document : Document) :
      InHand d { d.enter (.mutated true) with model := d.model.putDocument document }
  | lose {d} : InHand d (d.enter (.mutated false))

theorem InHand.step {d e : Desk σ} (h : InHand d e) : Step d e := by
  cases h with
  | take h => exact .takeDocument h
  | put document => exact .putDocument document
  | lose => exact .lost

/-- One step of what else is done with a model. An event of a changed document carries the document that
there is; the other events are not bound to anything. -/
inductive ModelStep : Desk σ → Desk σ → Prop
  | held {d} (l : List Ref) : ModelStep d { d with held := l }
  | emitted {d} (event : Event) (h : ∀ document, event = .changed document → document = d.model.document) :
      ModelStep d (d.enter (.emitted event))
  | available {d} (available : Bool) : ModelStep d { d.enter (.availability available d.undoing) with
      model := { d.model with available } }
  | recordable {d} (recordable : Bool) : ModelStep d { d with model := { d.model with recordable } }
  | saved {d} : ModelStep d { d with model := { d.model with dirty := false } }
  | moved {d} (location : String) : ModelStep d { d with model := { d.model with location } }
  | rebuilt {d} (document : Document) : ModelStep d { d with model := d.model.rebuild document }
  | popped {d entry m} : d.model.popUndo? = some (entry, m) → ModelStep d { d with model := m }
  | subscribe {d s listener token m} : d.model.subscribe s listener = .ok (token, m) →
      ModelStep d (d.accepted s .subscribe m)
  | unsubscribe {d s token m} : d.model.unsubscribe s token = .ok (true, m) →
      ModelStep d (d.accepted s .unsubscribe m)

/-- The steps among these that change neither the document nor who is told of it and what, but for a listener
who joins; and a client's own state. -/
inductive OffDocument : Desk σ → Desk σ → Prop
  | client {d} (s : σ) : OffDocument d { d with client := s }
  | available {d} (available : Bool) : OffDocument d { d.enter (.availability available d.undoing) with
      model := { d.model with available } }
  | recordable {d} (recordable : Bool) : OffDocument d { d with model := { d.model with recordable } }
  | saved {d} : OffDocument d { d with model := { d.model with dirty := false } }
  | moved {d} (location : String) : OffDocument d { d with model := { d.model with location } }
  | subscribe {d s listener token m} : d.model.subscribe s listener = .ok (token, m) →
      OffDocument d (d.accepted s .subscribe m)

end Desk

/-- A deed that has to do neither with shares nor with sessions, brackets and recordings. -/
def Deed.offBooks : Deed → Bool
  | call _ .mutate | call _ .subscribe | call _ .unsubscribe => true
  | mutated _ | emitted _ | told .. | threw _ | availability .. => true
  | _ => false

namespace Desk

/-- What these steps come to: deeds off the books, and nothing else about coordinators, shares, brackets and
recordings. -/
structure OffBooks (d e : Desk σ) : Prop where
  deeds : ∃ w, e.history.toList = d.history.toList ++ w ∧ ∀ x ∈ w, x.offBooks = true
  coordinators : e.coordinators = d.coordinators
  live : e.model.live = d.model.live
  nextShare : e.model.nextShare = d.model.nextShare
  changing : e.model.changing = d.model.changing
  recording : e.model.recording = d.model.recording

section

variable {d e : Desk σ}

theorem OffBooks.still (hw : e.history = d.history) (hc : e.coordinators = d.coordinators)
    (hl : e.model.live = d.model.live) (hn : e.model.nextShare = d.model.nextShare)
    (hch : e.model.changing = d.model.changing) (hr : e.model.recording = d.model.recording) : OffBooks d e :=
  ⟨⟨[], by simp [hw], by simp⟩, hc, hl, hn, hch, hr⟩

theorem OffBooks.enter (d : Desk σ) {x : Deed} (hx : x.offBooks = true) : OffBooks d (d.enter x) :=
  ⟨⟨[x], d.toList_enter x, by simpa using hx⟩, rfl, rfl, rfl, rfl, rfl⟩

theorem ClientStep.offBooks (h : ClientStep d e) : OffBooks d e := by
  cases h with
  | told | threw => exact .enter d rfl
  | client s => exact .still rfl rfl rfl rfl rfl rfl

theorem InHand.offBooks (h : InHand d e) : OffBooks d e := by
  cases h with
  | take h =>
    obtain ⟨-, -, -, rfl⟩ := Model.takeDocument_ok h
    exact ⟨⟨_, d.toList_accepted .., by simp [Deed.offBooks]⟩, rfl, rfl, rfl, rfl, rfl⟩
  | put => exact ⟨⟨_, d.toList_enter _, by simp [Deed.offBooks]⟩, rfl, rfl, rfl, rfl, rfl⟩
  | lose => exact .enter d rfl

theorem ModelStep.offBooks (h : ModelStep d e) : OffBooks d e := by
  cases h with
  | emitted => exact .enter d rfl
  | available a => exact ⟨⟨_, d.toList_enter _, by simp [Deed.offBooks]⟩, rfl, rfl, rfl, rfl, rfl⟩
  | subscribe h =>
    obtain ⟨-, rfl⟩ := Model.subscribe_ok h
    exact ⟨⟨_, d.toList_accepted .., by simp [Deed.offBooks]⟩, rfl, rfl, rfl, rfl, rfl⟩
  | unsubscribe h =>
    obtain rfl := Model.unsubscribe_ok h
    exact ⟨⟨_, d.toList_accepted .., by simp [Deed.offBooks]⟩, rfl, rfl, rfl, rfl, rfl⟩
  | popped h =>
    obtain ⟨_, -, rfl⟩ := Model.popUndo?_some h
    exact .still rfl rfl rfl rfl rfl rfl
  | held | recordable | saved | moved | rebuilt => exact .still rfl rfl rfl rfl rfl rfl

end

/-- A contract that leaves clients a free hand with whatever concerns neither shares nor brackets nor
recordings, nor has the document in hand. -/
structure Contract.Free (K : Contract σ) : Prop where
  clientStep : ∀ d e, ClientStep d e → K.ended d e
  modelStep : ∀ d e, ModelStep d e → K.ended d e
  restored : ∀ {d e entry m}, d.model.popUndo? = some (entry, m) → K.ended d e →
    K.ended d { e with model := (e.model.restore entry).2 }
  threw : ∀ d e c, K.cut d e → K.cut d (e.enter (.threw c))

/-- So does a contract that allows whatever is off the books. -/
theorem OffBooks.free {K : Contract σ} (hK : ∀ {d e}, OffBooks d e → K.ended d e)
    (hcut : ∀ {d e f}, K.cut d e → OffBooks e f → K.cut d f) : K.Free where
  clientStep _ _ h := hK h.offBooks
  modelStep _ _ h := hK h.offBooks
  restored {_ e entry _} _ h :=
    K.trans h (hK (.still (e := { e with model := (e.model.restore entry).2 }) rfl rfl rfl rfl rfl rfl))
  threw _ e _ h := hcut h (.enter e rfl)

end Desk

namespace Act

open Desk (Contract)

/-! ## Operations -/

/-- The operations that concern neither shares nor brackets nor recordings. -/
inductive OffBooksOp : Actions σ
  | look {α} (f : Desk σ → α) : OffBooksOp (Act.look f)
  | interrupt {α} (message : String) : OffBooksOp (Act.interrupt message : Act σ α)
  | halt {α} : OffBooksOp (Act.halt : Act σ α)
  | own (f : σ → σ) : OffBooksOp (Act.change fun d => { d with client := f d.client })
  | scopeShare (s : Scope) : OffBooksOp (Act.scopeShare s)
  | setAvailable (available : Bool) : OffBooksOp (Act.setAvailable available)
  | setRecordable (recordable : Bool) : OffBooksOp (Act.setRecordable recordable)
  | undo : OffBooksOp Act.undo
  | save : OffBooksOp Act.save
  | resourceDeleted : OffBooksOp Act.resourceDeleted
  | resourceMoved (target : String) : OffBooksOp (Act.resourceMoved target)
  | rebuild (document : Document) : OffBooksOp (Act.rebuild document)
  | subscribe (s : Share) (listener : Listener) : OffBooksOp (Act.subscribe s listener)
  | unsubscribe (s : Share) (token : Token) : OffBooksOp (Act.unsubscribe s token)

/-- The operations among these that neither exchange the document nor send a listener away. -/
inductive OffDocumentOp : Actions σ
  | look {α} (f : Desk σ → α) : OffDocumentOp (Act.look f)
  | interrupt {α} (message : String) : OffDocumentOp (Act.interrupt message : Act σ α)
  | halt {α} : OffDocumentOp (Act.halt : Act σ α)
  | own (f : σ → σ) : OffDocumentOp (Act.change fun d => { d with client := f d.client })
  | scopeShare (s : Scope) : OffDocumentOp (Act.scopeShare s)
  | setAvailable (available : Bool) : OffDocumentOp (Act.setAvailable available)
  | setRecordable (recordable : Bool) : OffDocumentOp (Act.setRecordable recordable)
  | save : OffDocumentOp Act.save
  | resourceDeleted : OffDocumentOp Act.resourceDeleted
  | resourceMoved (target : String) : OffDocumentOp (Act.resourceMoved target)
  | subscribe (s : Share) (listener : Listener) : OffDocumentOp (Act.subscribe s listener)

theorem OffDocumentOp.offBooks {α : Type} {a : Act σ α} (ha : OffDocumentOp a) : OffBooksOp a := by
  cases ha with
  | look f => exact .look f
  | interrupt message => exact .interrupt message
  | halt => exact .halt
  | own f => exact .own f
  | scopeShare s => exact .scopeShare s
  | setAvailable available => exact .setAvailable available
  | setRecordable recordable => exact .setRecordable recordable
  | save => exact .save
  | resourceDeleted => exact .resourceDeleted
  | resourceMoved target => exact .resourceMoved target
  | subscribe s listener => exact .subscribe s listener

/-- What holds of these operations and of the three others holds of all that are off the books. -/
theorem OffBooksOp.elim {P : Actions σ} (hoffDocument : ∀ {α} {a : Act σ α}, OffDocumentOp a → P a)
    (hundo : P Act.undo)
    (hrebuild : ∀ document, P (Act.rebuild document)) (hunsubscribe : ∀ s token, P (Act.unsubscribe s token))
    {α : Type} {a : Act σ α} (ha : OffBooksOp a) : P a := by
  cases ha with
  | look f => exact hoffDocument (.look f)
  | interrupt message => exact hoffDocument (.interrupt message)
  | halt => exact hoffDocument .halt
  | own f => exact hoffDocument (.own f)
  | scopeShare s => exact hoffDocument (.scopeShare s)
  | setAvailable available => exact hoffDocument (.setAvailable available)
  | setRecordable recordable => exact hoffDocument (.setRecordable recordable)
  | undo => exact hundo
  | save => exact hoffDocument .save
  | resourceDeleted => exact hoffDocument .resourceDeleted
  | resourceMoved target => exact hoffDocument (.resourceMoved target)
  | rebuild document => exact hrebuild document
  | subscribe s listener => exact hoffDocument (.subscribe s listener)
  | unsubscribe s token => exact hunsubscribe s token

/-- Shares and brackets by hand. -/
inductive ShareOp : Actions σ
  | acquire (access : Access) : ShareOp (Act.acquire access)
  | release (s : Share) : ShareOp (Act.release s)
  | openBracket (s : Share) : ShareOp (Act.openBracket s)
  | closeBracket (s : Share) : ShareOp (Act.closeBracket s)

/-- Recordings by hand. -/
inductive RecordingOp : Actions σ
  | beginRecording (s : Share) (owner : Owner) (label : Option String) :
      RecordingOp (Act.beginRecording s owner label)
  | endRecording (s : Share) (owner : Owner) : RecordingOp (Act.endRecording s owner)

/-- All that is done with a model by hand. -/
inductive Public : Actions σ
  | offBooks {α} {a : Act σ α} : OffBooksOp a → Public a
  | shareOp {α} {a : Act σ α} : ShareOp a → Public a
  | recordingOp {α} {a : Act σ α} : RecordingOp a → Public a

/-- What is done with a model by hand but for recordings. -/
inductive NoRecordingOp : Actions σ
  | offBooks {α} {a : Act σ α} : OffBooksOp a → NoRecordingOp a
  | shareOp {α} {a : Act σ α} : ShareOp a → NoRecordingOp a

/-- What is done with a model by hand but for shares and brackets. -/
inductive NoShareOp : Actions σ
  | offBooks {α} {a : Act σ α} : OffBooksOp a → NoShareOp a
  | recordingOp {α} {a : Act σ α} : RecordingOp a → NoShareOp a

section

variable {K : Contract σ} {h : Host σ}

theorem scopeShare_keeps (s : Scope) : Keeps K h (scopeShare s) := by
  refine (Keeps.look _).bind fun session => ?_
  cases session.share? with
  | none => exact .interrupt _
  | some share => exact .pure share

theorem save_keeps (hstep : ∀ d : Desk σ, K.ended d { d with model := { d.model with dirty := false } })
    (hemit : Keeps K h (emit (.dirtyChanged false))) : Keeps K h save := by
  refine (Keeps.look _).bind fun wasDirty => (Keeps.change hstep).bind fun _ => ?_
  cases wasDirty with
  | true => exact hemit
  | false => exact .pure ()

theorem resourceMoved_keeps {target : String}
    (hstep : ∀ d : Desk σ, K.ended d { d with model := { d.model with location := target } })
    (hemit : ∀ source, Keeps K h (emit (.resourceMoved source target))) : Keeps K h (resourceMoved target) :=
  (Keeps.look _).bind fun source => (Keeps.change hstep).bind fun _ => hemit source

/-- Subscribing keeps a contract that allows this step. -/
theorem subscribe_keeps {s : Share} {listener : Listener}
    (hstep : ∀ d token m, d.model.subscribe s listener = .ok (token, m) → K.ended d (d.accepted s .subscribe m)) :
    Keeps K h (subscribe s listener) := by
  intro d
  cases heq : d.model.subscribe s listener with
  | error e =>
    rw [KeepsFrom, subscribe_refused heq]
    exact K.refl d
  | ok subscribed =>
    rw [KeepsFrom, subscribe_run heq]
    exact hstep d _ _ heq

/-- Operations off the document keep a contract that allows their steps and the events they send out. -/
theorem OffDocumentOp.keeps (htend : ∀ d e, Desk.OffDocument d e → K.ended d e)
    (hemit : ∀ event, event ≠ .aboutToChange → (∀ document, event ≠ .changed document) → event ≠ .rebuilt →
      Keeps K h (emit event)) {α : Type} {a : Act σ α} (ha : OffDocumentOp a) : Keeps K h a := by
  cases ha with
  | look f => exact .look f
  | interrupt message => exact .interrupt message
  | halt => exact .halt
  | own f => exact .change fun _ => htend _ _ (.client _)
  | scopeShare s => exact scopeShare_keeps s
  | setAvailable available => exact fun _ => htend _ _ (.available available)
  | setRecordable recordable => exact .change fun _ => htend _ _ (.recordable recordable)
  | save => exact save_keeps (fun _ => htend _ _ .saved) (hemit (.dirtyChanged false) nofun nofun nofun)
  | resourceDeleted => exact hemit .resourceDeleted nofun nofun nofun
  | resourceMoved target =>
    exact resourceMoved_keeps (fun _ => htend _ _ (.moved target)) fun source =>
      hemit (.resourceMoved source target) nofun nofun nofun
  | subscribe s listener => exact subscribe_keeps fun _ _ _ heq => htend _ _ (.subscribe heq)

/-- Sending a listener away keeps a contract that allows this step and notices. -/
theorem unsubscribe_keeps (hn : ∀ n, Keeps K h (note n)) {s : Share} {token : Token} {d : Desk σ}
    (hstep : ∀ m, d.model.unsubscribe s token = .ok (true, m) → K.ended d (d.accepted s .unsubscribe m)) :
    KeepsFrom K h (unsubscribe s token) d d := by
  unfold KeepsFrom
  simp only [unsubscribe, look_bind]
  cases heq : d.model.unsubscribe s token with
  | error n => exact hn n d
  | ok unsubscribed =>
    obtain ⟨removed, m⟩ := unsubscribed
    cases removed with
    | true => exact hstep m heq
    | false => exact K.refl d

/-- Rebuilding keeps a contract that allows this step and the events around it. -/
theorem rebuild_keeps {document : Document} (hemit : Keeps K h (emit .aboutToRebuild))
    (hstep : ∀ d, K.ended d { d with model := d.model.rebuild document }) (hrebuilt : Keeps K h (emit .rebuilt)) :
    Keeps K h (rebuild document) :=
  hemit.bind fun _ => (Keeps.change hstep).bind fun _ => hrebuilt

/-- An undo keeps a contract that allows its steps and its two events. It restores what it took off the stack, after
whatever was done meanwhile. -/
theorem undo_keeps_of (hn : ∀ n, Keeps K h (note n))
    (hpop : ∀ {d entry m}, d.model.popUndo? = some (entry, m) → K.ended d { d with model := m })
    (hrestore : ∀ {d e entry m}, d.model.popUndo? = some (entry, m) → K.ended d e →
      K.ended d { e with model := (e.model.restore entry).2 })
    (habout : Keeps K h (emit .aboutToChange))
    (hchanged : ∀ e, KeepsFrom K h (emit (.changed e.model.document)) e e) : Keeps K h undo := by
  intro d
  unfold KeepsFrom
  simp only [undo, look_bind]
  by_cases hbarred : d.model.undoBarred = true
  · simp only [hbarred, if_true]
    exact hn _ d
  simp only [hbarred, Bool.false_eq_true, if_false]
  cases hpopped : d.model.popUndo? with
  | none => exact K.refl d
  | some popped =>
    obtain ⟨entry, m⟩ := popped
    simp only [setModel, change_bind]
    have hfirst : KeepsFrom K h (emit .aboutToChange) d { d with model := m } := habout.after (hpop hpopped)
    unfold KeepsFrom at hfirst
    rcases bind_cases (h := h) (emit .aboutToChange) _ { d with model := m } with
      ⟨_, d₁, hrun, hb⟩ | ⟨_, d₁, hrun, hb⟩ | ⟨d₁, hrun, hb⟩
    all_goals
      rw [hrun] at hfirst
      rw [hb]
    · simp only [look_bind, change_bind]
      have hsecond := (hchanged { d₁ with model := (d₁.model.restore entry).2 }).bind
        fun _ => .pure (some (d₁.model.restore entry).1)
      exact Contract.at_after (hrestore hpopped hfirst) hsecond
    · exact hfirst
    · exact hfirst

variable (hK : K.Free) (hc : ∀ c, Keeps K h fun _ => h.answer c)

include hK hc

theorem Keeps.deliver (event : Event) (l : Listener) : Keeps K h (deliver event l) :=
  deliver_keeps (call_keeps (fun _ c => hK.clientStep _ _ (.told c)) (fun _ c => hK.clientStep _ _ (.threw c))
    hK.threw hc) (fun _ l => hK.modelStep _ _ (.held l)) event l

/-- An event that carries what it is to carry. -/
theorem KeepsFrom.emit {event : Event} {d e : Desk σ}
    (hevent : ∀ document, event = .changed document → document = e.model.document) (hd : K.ended d e) :
    KeepsFrom K h (emit event) d e :=
  emit_keeps (Keeps.deliver hK hc) (K.trans hd (hK.modelStep _ _ (.emitted event hevent)))

theorem Keeps.mutate (hinHand : ∀ d e, Desk.InHand d e → K.ended d e) {α : Type} (s : Share)
    {f : Document → Act σ (α × Document)} (hf : ∀ document, Keeps K h (f document)) :
    Keeps K h (mutate s f) := fun _ =>
  mutate_keeps (fun _ _ htake => hinHand _ _ (.take htake)) (fun _ document => hinHand _ _ (.put document))
    (fun _ => hinHand _ _ .lose) (fun d => .emit hK hc nofun (K.refl d)) hf

theorem undo_keeps : Keeps K h undo :=
  undo_keeps_of (fun _ _ => hK.clientStep _ _ (.client _)) (fun hpop => hK.modelStep _ _ (.popped hpop)) hK.restored
    (fun d => .emit hK hc nofun (K.refl d))
    fun d => .emit hK hc (fun _ heq => (Event.changed.inj heq).symm) (K.refl d)

theorem OffBooksOp.keeps {α : Type} {a : Act σ α} (ha : OffBooksOp a) : Keeps K h a := by
  have hemit (event : Event) (hevent : ∀ document, event ≠ .changed document) : Keeps K h (emit event) :=
    fun d => .emit hK hc (fun _ heq => absurd heq (hevent _)) (K.refl d)
  have htend : ∀ d e, Desk.OffDocument d e → K.ended d e := by
    intro d e hstep
    cases hstep with
    | client s => exact hK.clientStep _ _ (.client s)
    | available available => exact hK.modelStep _ _ (.available available)
    | recordable recordable => exact hK.modelStep _ _ (.recordable recordable)
    | saved => exact hK.modelStep _ _ .saved
    | moved location => exact hK.modelStep _ _ (.moved location)
    | subscribe heq => exact hK.modelStep _ _ (.subscribe heq)
  refine ha.elim (fun ha => ha.keeps htend fun event _ hevent _ => hemit event hevent) (undo_keeps hK hc)
    (fun document => ?_) fun s token _ => unsubscribe_keeps (fun _ _ => hK.clientStep _ _ (.client _)) fun _ heq =>
      hK.modelStep _ _ (.unsubscribe heq)
  exact rebuild_keeps (hemit .aboutToRebuild nofun) (fun _ => hK.modelStep _ _ (.rebuilt document))
    (hemit .rebuilt nofun)

end

/-! ## Callers -/

/-- The actions of callers. -/
inductive Caller (n : Nat) (Op : Actions σ) : {α : Type} → Act σ α → Prop
  | op {α} {a : Act σ α} : Op a → Caller n Op a
  | pure {α} (a : α) : Caller n Op (pure a : Act σ α)
  | bind {α β} {x : Act σ α} {f : α → Act σ β} :
      Caller n Op x → (∀ a, Caller n Op (f a)) → Caller n Op (x >>= f)
  | attempt {α} {x : Act σ α} : Caller n Op x → Caller n Op (attempt x)
  | ensure {α} {x : Act σ α} {last : Act σ Unit} :
      Caller n Op x → Caller n Op last → Caller n Op (ensure x last)
  | withShare {α} (access : Access) {f : Share → Act σ α} :
      (∀ s, Caller n Op (f s)) → Caller n Op (withShare access f)
  | mutate {α} (s : Share) {f : Document → Act σ (α × Document)} :
      (∀ document, Caller n Op (f document)) → Caller n Op (mutate s f)
  | edit {ε α id} {mutation : Scope → Act σ (Except ε α)} :
      id < n → Caller n Op (mutation ⟨id⟩) → Caller n Op (edit id mutation)
  | undoable {ε α id} (label : Option String) {mutation : Scope → Act σ (Except ε α)} :
      id < n → Caller n Op (mutation ⟨id⟩) → Caller n Op (undoableEdit id label mutation)

/-- What is put together from operations that are put together from others is put together from these. -/
theorem Caller.mono {n : Nat} {Op Op' : Actions σ} (hop : ∀ {α} {a : Act σ α}, Op a → Caller n Op' a) {α : Type}
    {a : Act σ α} (ha : Caller n Op a) : Caller n Op' a := by
  induction ha with
  | op ha => exact hop ha
  | pure a => exact .pure a
  | bind _ _ hx hf => exact .bind hx hf
  | attempt _ hx => exact .attempt hx
  | ensure _ _ hx hlast => exact .ensure hx hlast
  | withShare access _ hf => exact .withShare access hf
  | mutate s _ hf => exact .mutate s hf
  | edit hid _ hm => exact .edit hid hm
  | undoable label hid _ hm => exact .undoable label hid hm

/-- A mutation in the session of a scope. -/
theorem Caller.mutateIn {n : Nat} {Op : Actions σ} (hop : ∀ {α} {a : Act σ α}, OffBooksOp a → Op a) (s : Scope)
    {α : Type} {f : Document → Act σ (α × Document)} (hf : ∀ document, Caller n Op (f document)) :
    Caller n Op (mutateIn s f) :=
  .bind (.op (hop (.scopeShare s))) fun share => .mutate share hf

/-- Under `h` the contract leaves clients a free hand, and the operations and the ways of taking shares and
of editing keep it. -/
structure Trusts (n : Nat) (Op : Actions σ) (K : Contract σ) (h : Host σ) : Prop where
  op : ∀ {α} {a : Act σ α}, Op a → Keeps K h a
  mutate : ∀ {α} (s : Share) {f : Document → Act σ (α × Document)},
    (∀ document, Keeps K h (f document)) → Keeps K h (mutate s f)
  withShare : ∀ {α} (access : Access) {f : Share → Act σ α},
    (∀ s, Keeps K h (f s)) → Keeps K h (withShare access f)
  edit : ∀ {ε α id} {mutation : Scope → Act σ (Except ε α)},
    id < n → Keeps K h (mutation ⟨id⟩) → Keeps K h (edit id mutation)
  undoable : ∀ {ε α id} (label : Option String) {mutation : Scope → Act σ (Except ε α)},
    id < n → Keeps K h (mutation ⟨id⟩) → Keeps K h (undoableEdit id label mutation)

theorem Caller.keeps {n : Nat} {Op : Actions σ} {K : Contract σ} {h : Host σ} (ht : Trusts n Op K h)
    {α : Type} {a : Act σ α} (ha : Caller n Op a) : Keeps K h a := by
  induction ha with
  | op hop => exact ht.op hop
  | pure a => exact .pure a
  | bind _ _ hx hf => exact hx.bind hf
  | attempt _ hx => exact hx.attempt
  | ensure _ _ hx hlast => exact hx.ensure hlast
  | withShare access _ hf => exact ht.withShare access hf
  | mutate s _ hf => exact ht.mutate s hf
  | edit hid _ hm => exact ht.edit hid hm
  | undoable label hid _ hm => exact ht.undoable label hid hm

/-- Taking shares and undoable editing keep a contract that allows to take shares and to record, if editing keeps it;
what else is left to say is what is done by hand, and how the document is taken in hand. -/
theorem Trusts.visiting {K : Contract σ} {h : Host σ} {n : Nat} {Op : Actions σ}
    (hv : ∀ d e, Desk.Visit d e → K.ended d e) (hr : ∀ d e, Desk.Recorded d e → K.ended d e)
    (hop : ∀ {α} {a : Act σ α}, Op a → Keeps K h a)
    (hmutate : ∀ {α} (s : Share) {f : Document → Act σ (α × Document)},
      (∀ document, Keeps K h (f document)) → Keeps K h (Act.mutate s f))
    (hedit : ∀ {ε α} (id : CoordinatorId) {mutation : Scope → Act σ (Except ε α)},
      Keeps K h (mutation ⟨id⟩) → Keeps K h (Act.edit id mutation)) : Trusts n Op K h where
  op := hop
  mutate := hmutate
  withShare access _ hf := withShare_keeps hv access hf
  edit _ hm := hedit _ hm
  undoable label _ _ hm :=
    undoableEdit_keeps (fun hf => withShare_keeps hv .edit hf) (note_keeps hv) hr _ label (hedit _ hm)

/-- Editing keeps a contract that allows the steps of sessions and of recordings. -/
theorem Trusts.passing {K : Contract σ} {h : Host σ} {n : Nat} {Op : Actions σ} (hK : K.Free)
    (hs : ∀ d e, Desk.Passage d e → K.ended d e) (hr : ∀ d e, Desk.Recorded d e → K.ended d e)
    (hc : ∀ c, Keeps K h fun _ => h.answer c) (hop : ∀ {α} {a : Act σ α}, Op a → Keeps K h a)
    (hmutate : ∀ {α} (s : Share) {f : Document → Act σ (α × Document)},
      (∀ document, Keeps K h (f document)) → Keeps K h (Act.mutate s f)) : Trusts n Op K h :=
  .visiting (fun _ _ hvisit => hs _ _ (.visit hvisit)) hr hop hmutate fun id => edit_keeps hs (Keeps.deliver hK hc) id

section

variable {K : Contract σ} {h : Host σ} {α : Type} {a : Act σ α}

theorem RecordingOp.keeps (hn : ∀ n, Keeps K h (note n)) (hr : ∀ d e, Desk.Recorded d e → K.ended d e)
    (ha : RecordingOp a) : Keeps K h a := by
  cases ha with
  | beginRecording s owner label => exact beginRecording_keeps hr s owner label
  | endRecording s owner => exact endRecording_keeps hn hr s owner

variable (hK : K.Free) (hs : ∀ d e, Desk.Passage d e → K.ended d e) (hc : ∀ c, Keeps K h fun _ => h.answer c)

include hK hs hc

theorem ShareOp.keeps (ha : ShareOp a) : Keeps K h a := by
  have hd := Keeps.deliver hK hc
  have hv : ∀ d e, Desk.Visit d e → K.ended d e := fun _ _ hvisit => hs _ _ (.visit hvisit)
  cases ha with
  | acquire access => exact acquire_keeps hv access
  | release s => exact release_keeps hv s
  | openBracket s => exact openBracket_keeps hs hd s
  | closeBracket s => exact closeBracket_keeps hs hd s

/-- What is done by hand keeps a contract that allows the steps of sessions and of recordings. -/
theorem Public.keeps (hr : ∀ d e, Desk.Recorded d e → K.ended d e) (ha : Public a) : Keeps K h a := by
  cases ha with
  | offBooks ha => exact ha.keeps hK hc
  | shareOp ha => exact ha.keeps hK hs hc
  | recordingOp ha => exact ha.keeps (fun n => note_keeps (fun _ _ hvisit => hs _ _ (.visit hvisit)) n) hr

end

end Act

/-- The hosts whose clients, when they are called, do what callers do. -/
inductive Host.Callers (n : Nat) (Op : Act.Actions σ) : Host σ → Prop
  | silent {h : Host σ} : (∀ c d, h.answer c d = (.returned (), d)) → Callers n Op h
  | react {h : Host σ} (inner : Callback → Desk σ → Host σ) (reaction : Callback → Desk σ → Act σ Unit) :
      (∀ c d, Callers n Op (inner c d)) → (∀ c d, Act.Caller n Op (reaction c d)) →
      (∀ c d, h.answer c d = reaction c d (inner c d) d) → Callers n Op h

theorem Host.Callers.mono {n : Nat} {Op Op' : Act.Actions σ}
    (hop : ∀ {α} {a : Act σ α}, Op a → Act.Caller n Op' a) {h : Host σ} (hh : h.Callers n Op) : h.Callers n Op' := by
  induction hh with
  | silent hs => exact .silent hs
  | react inner reaction _ hre heq ih => exact .react inner reaction ih (fun c d => (hre c d).mono hop) heq

theorem Host.Callers.answering {n : Nat} {Op : Act.Actions σ} {a : Act σ Unit} (ha : Act.Caller n Op a) :
    (Host.answering a).Callers n Op :=
  .react (fun _ _ => .silent) (fun _ _ => a) (fun _ _ => .silent fun _ _ => rfl)
    (fun _ _ => ha) fun _ _ => rfl

theorem Host.Callers.interfering {n : Nat} {Op : Act.Actions σ} {a : Act σ Unit} (ha : Act.Caller n Op a) :
    (Host.interfering a).Callers n Op := by
  refine .react (fun _ _ => .silent) (fun c _ => a.onChange c) (fun _ _ => .silent fun _ _ => rfl)
    (fun c _ => ?_)
    fun _ _ => rfl
  unfold Act.onChange
  split
  · exact ha
  · exact .pure ()

/-- The clients that are called keep a contract, when under each host whose clients keep it the operations and
the ways of putting actions together do. -/
theorem Host.Callers.answers {n : Nat} {Op : Act.Actions σ} {K : Desk.Contract σ}
    (ht : ∀ h : Host σ, (∀ c, Act.Keeps K h fun _ => h.answer c) → Act.Trusts n Op K h) {h : Host σ}
    (hh : h.Callers n Op) : ∀ c, Act.Keeps K h fun _ => h.answer c := by
  induction hh with
  | silent hs =>
    intro c d
    simp only [Act.KeepsFrom, hs c d]
    exact K.refl d
  | react inner reaction _ hre heq ih =>
    intro c d
    simp only [Act.KeepsFrom, heq c d]
    exact (hre c d).keeps (ht (inner c d) (ih c d)) d

/-- **What callers do keeps a contract**, and so do the clients that are called meanwhile, when under each
host whose clients keep it the operations and the ways of putting actions together do. -/
theorem Host.Callers.keeps {n : Nat} {Op : Act.Actions σ} {K : Desk.Contract σ}
    (ht : ∀ h : Host σ, (∀ c, Act.Keeps K h fun _ => h.answer c) → Act.Trusts n Op K h) {h : Host σ}
    (hh : h.Callers n Op) {α : Type} {a : Act σ α} (ha : Act.Caller n Op a) : a.Keeps K h :=
  ha.keeps (ht h (hh.answers ht))

end FormDesk

/-
All that is done at a desk, with relays, pages and editors too: callers attach and
detach relays, make and open editors, show their pages, let them commit, drop
and dispose of them, and arrange whatever on the desk has to do neither with
the model nor with relays (`DeskOp`).

This is put together from a few operations (`DeskOp.deskParts`): to attach
and to detach a relay, to call a page, to write a notice, and to arrange. And a
contract that allows every step that tells nobody anything (`Desk.UntoldStep`) and
every emission as a whole is kept by all that is done with the model
(`Trusts.untoldSteps`). So what a contract asks of these operations is said of
emissions, of relays and of subscriptions that end.

Step by step, what is done at a desk comes to nothing but moves (`Desk.Move`): a
relation that goes with each of them goes with the run (`Host.Callers.moves`).
-/
import FormDesk.Editor
import FormDesk.Proofs.Enclosing

namespace FormDesk

variable {σ α : Type}

/-- The tabs of an editor, and its relay if it has one. -/
def Editor.post (e : Editor) : TabsId × Option RelayId := (e.tabs, e.relay)

namespace Desk

/-! ## Steps that tell nobody anything -/

/-- The steps of what is done with a model that tell nobody anything and send no listener away. -/
inductive UntoldStep : Desk σ → Desk σ → Prop
  | motion {d e} : Motion d e → UntoldStep d e
  | recorded {d e} : Recorded d e → UntoldStep d e
  | inHand {d e} : InHand d e → UntoldStep d e
  | offDocument {d e} : OffDocument d e → UntoldStep d e
  | openBracket {d s m} : d.model.openBracket s = .ok m → UntoldStep d (d.accepted s .aboutToChange m)
  | closeBracket {d s m} : d.model.closeBracket s = .ok m → UntoldStep d (d.accepted s .changed m)
  | popped {d entry m} : d.model.popUndo? = some (entry, m) → UntoldStep d { d with model := m }
  | restored {d} (entry : Segment) : UntoldStep d { d with model := (d.model.restore entry).2 }
  | rebuilt {d} (document : Document) : UntoldStep d { d with model := d.model.rebuild document }

theorem UntoldStep.client (d : Desk σ) (s : σ) : UntoldStep d { d with client := s } := .offDocument (.client s)

theorem UntoldStep.visit {d e : Desk σ} (h : Visit d e) : UntoldStep d e := .motion (.visit h)

/-- The steps among these that let no listener join and leave it to the model whether shares are handed out. -/
inductive UnjoinedStep : Desk σ → Desk σ → Prop
  | motion {d e} : Motion d e → UnjoinedStep d e
  | recorded {d e} : Recorded d e → UnjoinedStep d e
  | inHand {d e} : InHand d e → UnjoinedStep d e
  | openBracket {d s m} : d.model.openBracket s = .ok m → UnjoinedStep d (d.accepted s .aboutToChange m)
  | closeBracket {d s m} : d.model.closeBracket s = .ok m → UnjoinedStep d (d.accepted s .changed m)
  | popped {d entry m} : d.model.popUndo? = some (entry, m) → UnjoinedStep d { d with model := m }
  | restored {d} (entry : Segment) : UnjoinedStep d { d with model := (d.model.restore entry).2 }
  | rebuilt {d} (document : Document) : UnjoinedStep d { d with model := d.model.rebuild document }
  | recordable {d} (recordable : Bool) : UnjoinedStep d { d with model := { d.model with recordable } }
  | saved {d} : UnjoinedStep d { d with model := { d.model with dirty := false } }
  | moved {d} (location : String) : UnjoinedStep d { d with model := { d.model with location } }

theorem UnjoinedStep.visit {d e : Desk σ} (h : Visit d e) : UnjoinedStep d e := .motion (.visit h)

theorem UnjoinedStep.client (d : Desk σ) (s : σ) : UnjoinedStep d { d with client := s } := .visit (.client s)

theorem UnjoinedStep.untoldStep {d e : Desk σ} (h : UnjoinedStep d e) : UntoldStep d e := by
  cases h with
  | motion h => exact .motion h
  | recorded h => exact .recorded h
  | inHand h => exact .inHand h
  | openBracket h => exact .openBracket h
  | closeBracket h => exact .closeBracket h
  | popped h => exact .popped h
  | restored entry => exact .restored entry
  | rebuilt document => exact .rebuilt document
  | recordable recordable => exact .offDocument (.recordable recordable)
  | saved => exact .offDocument .saved
  | moved location => exact .offDocument (.moved location)

end Desk

/-- A deed that tells nobody anything, nor has to do with who is told. -/
def Deed.unheard : Deed → Bool
  | call _ .unsubscribe => false
  | emitted _ | told .. | threw _ | detaching .. => false
  | _ => true

namespace Desk

/-- Nobody was told anything, and nobody was sent away: a listener may have joined those that there are. -/
structure Unheard (d e : Desk σ) : Prop where
  deeds : ∃ w, e.history.toList = d.history.toList ++ w ∧ ∀ x ∈ w, x.unheard = true
  relays : e.relays = d.relays
  subscriptions : (e.model.subscriptions = d.model.subscriptions ∧ e.model.nextToken = d.model.nextToken) ∨
    ∃ listener, e.model.subscriptions = d.model.subscriptions ++ [⟨d.model.nextToken, listener⟩] ∧
      e.model.nextToken = d.model.nextToken + 1

section

variable {d e : Desk σ}

theorem Unheard.still (hw : e.history = d.history) (hr : e.relays = d.relays)
    (hs : e.model.subscriptions = d.model.subscriptions) (ht : e.model.nextToken = d.model.nextToken) :
    Unheard d e := ⟨⟨[], by simp [hw], by simp⟩, hr, .inl ⟨hs, ht⟩⟩

theorem Unheard.enter (d : Desk σ) {x : Deed} (hx : x.unheard = true) : Unheard d (d.enter x) :=
  ⟨⟨[x], d.toList_enter x, by simpa using hx⟩, rfl, .inl ⟨rfl, rfl⟩⟩

theorem Unheard.accepted (d : Desk σ) (s : Share) {c : Call} {m : Model} (hc : (Deed.call s.id c).unheard = true)
    (hs : m.subscriptions = d.model.subscriptions) (ht : m.nextToken = d.model.nextToken) :
    Unheard d (d.accepted s c m) :=
  ⟨⟨_, d.toList_accepted s c m, by simpa using hc⟩, rfl, .inl ⟨hs, ht⟩⟩

theorem Motion.unheard (h : Motion d e) : Unheard d e := by
  cases h with
  | visit h =>
    cases h with
    | acquire h =>
      obtain ⟨-, rfl, rfl⟩ := Model.acquire_ok h
      exact .accepted _ _ rfl rfl rfl
    | release h =>
      obtain ⟨-, rfl⟩ := Model.release?_some h
      exact .accepted _ _ rfl rfl rfl
    | client => exact .still rfl rfl rfl rfl
  | starting | entered | left | runs | ran | opened => exact .enter d rfl
  | session => exact .still rfl rfl rfl rfl

theorem Recorded.unheard (h : Recorded d e) : Unheard d e := by
  cases h with
  | beginRecording h =>
    obtain ⟨-, -, -, rfl⟩ := Model.beginRecording_ok h
    exact .accepted _ _ rfl rfl rfl
  | endRecording h =>
    obtain ⟨-, r, -, rfl⟩ := Model.endRecording_ok h
    unfold Model.recordingEnded
    split <;> exact .accepted _ _ rfl rfl rfl
  | began | finished | edits | edited => exact .enter d rfl
  | depth => exact .still rfl rfl rfl rfl

theorem InHand.unheard (h : InHand d e) : Unheard d e := by
  cases h with
  | take h =>
    obtain ⟨-, -, -, rfl⟩ := Model.takeDocument_ok h
    exact .accepted _ _ rfl rfl rfl
  | put => exact ⟨⟨_, d.toList_enter _, by simp [Deed.unheard]⟩, rfl, .inl ⟨rfl, rfl⟩⟩
  | lose => exact .enter d rfl

theorem OffDocument.unheard (h : OffDocument d e) : Unheard d e := by
  cases h with
  | client | recordable | saved | moved => exact .still rfl rfl rfl rfl
  | available => exact ⟨⟨_, d.toList_enter _, by simp [Deed.unheard]⟩, rfl, .inl ⟨rfl, rfl⟩⟩
  | @subscribe s listener token m h =>
    obtain ⟨-, rfl⟩ := Model.subscribe_ok h
    exact ⟨⟨_, d.toList_accepted .., by simp [Deed.unheard]⟩, rfl, .inr ⟨listener, rfl, rfl⟩⟩

theorem UntoldStep.unheard (h : UntoldStep d e) : Unheard d e := by
  cases h with
  | motion h => exact h.unheard
  | recorded h => exact h.unheard
  | inHand h => exact h.unheard
  | offDocument h => exact h.unheard
  | openBracket h =>
    obtain ⟨-, -, rfl⟩ := Model.openBracket_ok h
    exact .accepted _ _ rfl rfl rfl
  | closeBracket h =>
    obtain ⟨-, n, -, rfl⟩ := Model.closeBracket_ok h
    exact .accepted _ _ rfl rfl rfl
  | popped h =>
    obtain ⟨_, -, rfl⟩ := Model.popUndo?_some h
    exact .still rfl rfl rfl rfl
  | restored | rebuilt => exact .still rfl rfl rfl rfl

end

/-- Whatever has to do with the model, with relays and with what happened is as it was. -/
structure OffModel (d e : Desk σ) : Prop where
  model : e.model = d.model
  relays : e.relays = d.relays
  history : e.history = d.history

/-- And so are the tabs and the relay of each editor. -/
structure KeepsPosts (d e : Desk σ) : Prop extends OffModel d e where
  posts : e.editors.map Editor.post = d.editors.map Editor.post
  tabs : d.tabs.length ≤ e.tabs.length

/-- One step of what is done at a desk. -/
inductive Move : Desk σ → Desk σ → Prop
  | untoldStep {d e} : UntoldStep d e → Move d e
  | clientStep {d e} : ClientStep d e → Move d e
  | left {d s token m} : d.model.unsubscribe s token = .ok (true, m) → Move d (d.accepted s .unsubscribe m)
  | held {d} (l : List Ref) : Move d { d with held := l }
  | emitted {d} (event : Event) : Move d (d.enter (.emitted event))
  | unclaimed {d} (o : Observer) (token : Token) : Move d (d.enter (.unclaimed o token))
  | detaching {d} (id : RelayId) (token : Token) (available : Bool) :
      Move d (d.enter (.detaching id token available))
  | relays {d} (l : List Relay) : Move d { d with relays := l }
  | offModel {d e} : OffModel d e → Move d e

end Desk

namespace Act

open Desk (Contract OffModel KeepsPosts)

/-! ## What is done with a model -/

/-- All that is done with a model by hand but for sending listeners away. -/
inductive NoUnsubscribe : Actions σ
  | offDocument {β} {a : Act σ β} : OffDocumentOp a → NoUnsubscribe a
  | undo : NoUnsubscribe Act.undo
  | rebuild (document : Document) : NoUnsubscribe (Act.rebuild document)
  | recordingOp {β} {a : Act σ β} : RecordingOp a → NoUnsubscribe a
  | acquire (access : Access) : NoUnsubscribe (Act.acquire access)
  | release (s : Share) : NoUnsubscribe (Act.release s)
  | openBracket (s : Share) : NoUnsubscribe (Act.openBracket s)
  | closeBracket (s : Share) : NoUnsubscribe (Act.closeBracket s)

/-- What holds of these operations and of sending a listener away holds of all that is done by hand. -/
theorem Public.elim {P : Actions σ} (hnoUnsubscribe : ∀ {α} {a : Act σ α}, NoUnsubscribe a → P a)
    (hunsubscribe : ∀ s token, P (Act.unsubscribe s token)) {α : Type} {a : Act σ α} (ha : Public a) : P a := by
  cases ha with
  | offBooks ha =>
    exact ha.elim (fun ha => hnoUnsubscribe (.offDocument ha)) (hnoUnsubscribe .undo)
      (fun document => hnoUnsubscribe (.rebuild document))
      hunsubscribe
  | recordingOp ha => exact hnoUnsubscribe (.recordingOp ha)
  | shareOp ha =>
    cases ha with
    | acquire access => exact hnoUnsubscribe (.acquire access)
    | release s => exact hnoUnsubscribe (.release s)
    | openBracket s => exact hnoUnsubscribe (.openBracket s)
    | closeBracket s => exact hnoUnsubscribe (.closeBracket s)

section

variable {K : Contract σ} {h : Host σ} (hs : ∀ d e, Desk.UnjoinedStep d e → K.ended d e)
  (hemit : ∀ event, Keeps K h (emit event))

include hs hemit

theorem openBracket_untoldStep (s : Share) : Keeps K h (openBracket s) := by
  intro d
  cases hopen : d.model.openBracket s with
  | error e =>
    rw [KeepsFrom, openBracket_refused hopen]
    exact K.refl d
  | ok m => exact Contract.at_after (hs _ _ (.openBracket hopen)) (openBracket_after (hemit _) hopen)

theorem closeBracket_untoldStep (s : Share) : Keeps K h (closeBracket s) := by
  intro d
  cases hclose : d.model.closeBracket s with
  | error n =>
    rw [KeepsFrom, closeBracket_refused hclose]
    exact hs _ _ (.client d _)
  | ok m =>
    exact Contract.at_after (hs _ _ (.closeBracket hclose)) (closeBracket_after (fun e => hemit _ e) hclose)

theorem undo_untoldStep : Keeps K h undo :=
  undo_keeps_of (fun _ d => hs _ _ (.client d _)) (fun hpop => hs _ _ (.popped hpop))
    (fun _ hended => K.trans hended (hs _ _ (.restored _))) (hemit _) fun _ => hemit _ _

/-- Editing keeps a contract that allows such steps and every emission. -/
theorem Trusts.untoldSteps (n : Nat) {Op : Actions σ} (hop : ∀ {α} {a : Act σ α}, Op a → Keeps K h a) :
    Trusts n Op K h :=
  .visiting (fun _ _ hvisit => hs _ _ (.visit hvisit)) (fun _ _ hrecorded => hs _ _ (.recorded hrecorded)) hop
    (fun _ _ hf _ => mutate_keeps (fun _ _ htake => hs _ _ (.inHand (.take htake)))
      (fun _ document => hs _ _ (.inHand (.put document))) (fun _ => hs _ _ (.inHand .lose)) (hemit _) hf)
    fun id => edit_moves (fun _ _ hmove => hs _ _ (.motion hmove)) (openBracket_untoldStep hs hemit)
      (closeBracket_untoldStep hs hemit) id

end

/-- What is done by hand keeps a contract that allows to take shares and to record, if the rest of it does. -/
theorem NoUnsubscribe.visiting {K : Contract σ} {h : Host σ} (hv : ∀ d e, Desk.Visit d e → K.ended d e)
    (hr : ∀ d e, Desk.Recorded d e → K.ended d e) (hoffDocument : ∀ {β} {a : Act σ β}, OffDocumentOp a → Keeps K h a)
    (hundo : Keeps K h Act.undo) (hrebuild : ∀ document, Keeps K h (Act.rebuild document))
    (hopen : ∀ s, Keeps K h (Act.openBracket s)) (hclose : ∀ s, Keeps K h (Act.closeBracket s)) {a : Act σ α}
    (ha : NoUnsubscribe a) : Keeps K h a := by
  cases ha with
  | offDocument ha => exact hoffDocument ha
  | undo => exact hundo
  | rebuild document => exact hrebuild document
  | recordingOp ha => exact ha.keeps (note_keeps hv) hr
  | acquire access => exact acquire_keeps hv access
  | release s => exact release_keeps hv s
  | openBracket s => exact hopen s
  | closeBracket s => exact hclose s

section

variable {K : Contract σ} {h : Host σ} (hs : ∀ d e, Desk.UntoldStep d e → K.ended d e)
  (hemit : ∀ event, Keeps K h (emit event))

include hs hemit

/-- All that is done with a model by hand but for sending listeners away. -/
theorem NoUnsubscribe.untoldStep {a : Act σ α} (ha : NoUnsubscribe a) : Keeps K h a := by
  have hunjoined : ∀ d e : Desk σ, Desk.UnjoinedStep d e → K.ended d e := fun _ _ hunjoined =>
    hs _ _ hunjoined.untoldStep
  exact ha.visiting (fun _ _ hvisit => hs _ _ (.visit hvisit)) (fun _ _ hrecorded => hs _ _ (.recorded hrecorded))
    (fun ha => ha.keeps (fun _ _ htend => hs _ _ (.offDocument htend)) fun event _ _ _ => hemit event)
    (undo_untoldStep hunjoined hemit)
    (fun document => rebuild_keeps (hemit _) (fun _ => hs _ _ (.rebuilt document)) (hemit _))
    (openBracket_untoldStep hunjoined hemit) (closeBracket_untoldStep hunjoined hemit)

/-- All that is done with a model by hand. -/
theorem Public.untoldStep (hleave : ∀ d s token m, d.model.unsubscribe s token = .ok (true, m) →
    K.ended d (d.accepted s .unsubscribe m)) {a : Act σ α} (ha : Public a) : Keeps K h a := by
  have hn : ∀ n, Keeps K h (note n) := note_keeps fun _ _ hvisit => hs _ _ (.visit hvisit)
  exact ha.elim (fun ha => ha.untoldStep hs hemit) fun s token d => unsubscribe_keeps hn fun m => hleave d s token m

end

/-! ## What is done at a desk -/

/-- Operations by hand, together with relays, pages and editors. Whoever makes pages and the like may change
whatever has to do neither with the model nor with relays. -/
inductive DeskOp (Hand : Actions σ) : Actions σ
  | hand {β} {a : Act σ β} : Hand a → DeskOp Hand a
  | arrange {f : Desk σ → Desk σ} : (∀ d, OffModel d (f d)) → DeskOp Hand (Act.change f)
  | attach (o : Observer) : DeskOp Hand (Act.attach o)
  | detach (id : RelayId) : DeskOp Hand (Act.detach id)
  | letGo (r : Ref) : DeskOp Hand (Act.letGo r)
  | makeEditor (name : String) (project : Option String) (settings : Settings) (memory : MemoryId) :
      DeskOp Hand (Act.makeEditor name project settings memory)
  | openEditor (id : EditorId) (forms : List PageId) (text : PageId) : DeskOp Hand (Act.openEditor id forms text)
  | dropPages (id : EditorId) : DeskOp Hand (Act.dropPages id)
  | disposeEditor (id : EditorId) : DeskOp Hand (Act.disposeEditor id)
  | addForm (id : TabsId) (page : PageId) : DeskOp Hand (Act.addForm id page)
  | addText (id : TabsId) (title : String) (page : PageId) : DeskOp Hand (Act.addText id title page)
  | activate (id : TabsId) (index : Nat) : DeskOp Hand (Act.activate id index)
  | showIndex (id : EditorId) (index : Nat) : DeskOp Hand (Act.showIndex id index)
  | showPage (id : EditorId) (page : String) : DeskOp Hand (Act.showPage id page)
  | showInitial (id : EditorId) (page : Option String) : DeskOp Hand (Act.showInitial id page)
  | commitForms (id : EditorId) (onSave : Bool) : DeskOp Hand (Act.commitForms id onSave)
  | reveal (id : EditorId) (start stop : Nat) : DeskOp Hand (Act.reveal id start stop)

/-- A call that asks a page to do something, and does not tell it of the model. -/
inductive Asks : Callback → Prop
  | commit (page : PageId) (onSave : Bool) : Asks (.pageCommit page onSave)
  | reveal (page : PageId) (start stop : Nat) : Asks (.pageReveal page start stop)

/-- The operations that those at a desk are put together from. -/
inductive DeskPart (Hand : Actions σ) : Actions σ
  | hand {β} {a : Act σ β} : Hand a → DeskPart Hand a
  | look {β} (f : Desk σ → β) : DeskPart Hand (Act.look f)
  | note (n : Notice) : DeskPart Hand (Act.note n)
  | arrange {f : Desk σ → Desk σ} : (∀ d, OffModel d (f d)) → DeskPart Hand (Act.change f)
  | attach (o : Observer) : DeskPart Hand (Act.attach o)
  | detach (id : RelayId) : DeskPart Hand (Act.detach id)
  | ask {c : Callback} : Asks c → DeskPart Hand (Act.call c)

/-- The operations that showing pages and working with them is put together from: to look, to write a notice, to change
tabs so that they stay sound, to remember, and to ask a page to do something. -/
inductive PagePart : Actions σ
  | look {β} (f : Desk σ → β) : PagePart (Act.look f)
  | note (n : Notice) : PagePart (Act.note n)
  | update {β} (id : TabsId) {f : Tabs → Except PageError (β × Tabs)} :
      (∀ {t b t'}, f t = .ok (b, t') → t.Sound → t'.Sound) → PagePart (Act.updateTabs id f)
  | clear (id : TabsId) : PagePart (Act.clearTabs id)
  | remember (f : Desk σ → List TabMemory) : PagePart (Act.change fun d => { d with memories := f d })
  | ask {c : Callback} : Asks c → PagePart (Act.call c)

/-- The same operations, where what is remembered is the page that an editor shows. -/
inductive PageOp : Actions σ
  | look {β} (f : Desk σ → β) : PageOp (Act.look f)
  | note (n : Notice) : PageOp (Act.note n)
  | update {β} (id : TabsId) {f : Tabs → Except PageError (β × Tabs)} :
      (∀ {t b t'}, f t = .ok (b, t') → t.Sound → t'.Sound) → PageOp (Act.updateTabs id f)
  | clear (id : TabsId) : PageOp (Act.clearTabs id)
  | remember (id : EditorId) (index : Nat) : PageOp (Act.rememberPage id index)
  | ask {c : Callback} : Asks c → PageOp (Act.call c)

/-- The operations that all work with pages is put together from: to look, to write a notice, to arrange pages, and to
ask one to do something. -/
inductive ArrangeOp : Actions σ
  | look {β} (f : Desk σ → β) : ArrangeOp (Act.look f)
  | note (n : Notice) : ArrangeOp (Act.note n)
  | arrange {f : Desk σ → Desk σ} : (∀ d, KeepsPosts d (f d)) → ArrangeOp (Act.change f)
  | ask {c : Callback} : Asks c → ArrangeOp (Act.call c)

theorem ArrangeOp.deskParts {Hand : Actions σ} {a : Act σ α} (ha : ArrangeOp a) : DeskPart Hand a := by
  cases ha with
  | look f => exact .look f
  | note n => exact .note n
  | arrange hf => exact .arrange fun d => (hf d).toOffModel
  | ask hc => exact .ask hc

/-- What an editor shows is remembered by a change of memories and by notices. -/
theorem PagePart.rememberPage {n : Nat} (id : EditorId) (index : Nat) :
    Caller n PagePart (Act.rememberPage id index : Act σ Unit) := by
  refine .bind (.op (.look _)) fun e => ?_
  by_cases hskip : (e.creating || !e.settings.remembers) = true
  · simp only [hskip, if_true]
    exact .pure ()
  simp only [hskip]
  refine .bind (.op (.look _)) fun key => .bind (.op (.look _)) fun memory => ?_
  cases memory.store key (toString index) with
  | error cause => exact .op (.note _)
  | ok m => exact .op (.remember _)

theorem PageOp.pageParts {n : Nat} {a : Act σ α} (ha : PageOp a) : Caller n PagePart a := by
  cases ha with
  | look f => exact .op (.look f)
  | note n => exact .op (.note n)
  | update id hf => exact .op (.update id hf)
  | clear id => exact .op (.clear id)
  | remember id index => exact PagePart.rememberPage id index
  | ask hc => exact .op (.ask hc)

namespace PageOp

variable {n : Nat}

theorem caller_look (f : Desk σ → α) : Caller n PageOp (Act.look f) := .op (.look f)

theorem caller_note (notice : Notice) : Caller n PageOp (Act.note notice : Act σ Unit) := .op (.note notice)

/-! ### Pages -/

theorem addTab (id : TabsId) (tab : Tab) : Caller n PageOp (Act.updateTabs id (·.add tab) : Act σ _) :=
  .op (.update id fun hadd ht => ht.add hadd)

theorem addForm (id : TabsId) (page : PageId) : Caller n PageOp (Act.addForm id page : Act σ _) :=
  .bind (caller_look _) fun _ => addTab id _

theorem addText (id : TabsId) (title : String) (page : PageId) :
    Caller n PageOp (Act.addText id title page : Act σ _) := addTab id _

theorem activate (id : TabsId) (index : Nat) : Caller n PageOp (Act.activate id index : Act σ _) := by
  refine .op (.update id fun {t _ t'} hshown _ => ?_)
  cases hactivate : t.activate index with
  | error e =>
    rw [hactivate] at hshown
    cases hshown
  | ok shown =>
    rw [hactivate] at hshown
    cases hshown
    exact .activate hactivate

theorem addForms (id : TabsId) : ∀ forms : List PageId, Caller n PageOp (Act.addForms id forms : Act σ _)
  | [] => .pure _
  | page :: rest => by
    refine .bind (addForm id page) fun added => ?_
    cases added with
    | error e => exact .pure _
    | ok _ => exact addForms id rest

theorem showIndex (id : EditorId) (index : Nat) : Caller n PageOp (Act.showIndex id index : Act σ _) := by
  refine .bind (caller_look _) fun tabs => .bind (activate tabs index) fun shown => ?_
  cases shown with
  | error e => exact .pure _
  | ok _ => exact .bind (.op (.remember id index)) fun _ => .pure _

theorem showPage (id : EditorId) (page : String) : Caller n PageOp (Act.showPage id page : Act σ _) := by
  refine .bind (caller_look _) fun tabs => ?_
  cases tabs.indexOf page with
  | error e => exact .pure _
  | ok index =>
    refine .bind (showIndex id index) fun shown => ?_
    cases shown <;> exact .pure _

theorem showInitial (id : EditorId) (page : Option String) :
    Caller n PageOp (Act.showInitial id page : Act σ Unit) := by
  refine .bind (caller_look _) fun choice => ?_
  cases choice with
  | none => exact .pure ()
  | some choice =>
    have hshow : Caller n PageOp (Act.showChoice id choice : Act σ _) := by
      unfold Act.showChoice
      cases numeral? choice with
      | some index => exact showIndex id index
      | none => exact .bind (showPage id choice) fun _ => .pure _
    refine .bind hshow fun shown => ?_
    cases shown with
    | ok _ => exact .pure ()
    | error cause =>
      exact .bind (caller_note _) fun _ => .bind (caller_look _) fun tabs =>
        .bind (activate tabs 0) fun _ => .pure ()

theorem commitEach (onSave : Bool) :
    ∀ pages : List PageId, Caller n PageOp (Act.commitEach onSave pages : Act σ Nat)
  | [] => .pure _
  | page :: rest => by
    refine .bind (caller_look _) fun dirty => ?_
    cases dirty with
    | false => exact commitEach onSave rest
    | true => exact .bind (.op (.ask (.commit page onSave))) fun _ => .bind (commitEach onSave rest) fun _ => .pure _

theorem commitForms (id : EditorId) (onSave : Bool) : Caller n PageOp (Act.commitForms id onSave : Act σ Nat) :=
  .bind (caller_look _) fun _ => commitEach onSave _

theorem reveal (id : EditorId) (start stop : Nat) : Caller n PageOp (Act.reveal id start stop : Act σ Bool) := by
  refine .bind (showPage id _) fun shown => ?_
  cases shown with
  | error e => exact .pure _
  | ok index =>
    refine .bind (caller_look _) fun tabs => ?_
    cases tabs.entries[index]? with
    | none => exact .pure _
    | some tab => exact .bind (.op (.ask (.reveal tab.page start stop))) fun _ => .pure _

theorem addPages (id : EditorId) (forms : List PageId) (text : PageId) :
    Caller n PageOp (Act.addPages id forms text : Act σ _) := by
  refine .bind (caller_look _) fun e => .bind (addForms e.tabs forms) fun added => ?_
  cases added with
  | error cause => exact .pure _
  | ok _ =>
    refine .bind (addText e.tabs e.settings.textTitle text) fun added => ?_
    cases added with
    | error cause => exact .pure _
    | ok _ => exact activate e.tabs 0

theorem dropPages (id : EditorId) : Caller n PageOp (Act.dropPages id : Act σ Unit) :=
  .bind (caller_look _) fun tabs => .op (.clear tabs)

/-- Opening is put together from that, from noting whether pages are being created, and from following the model. -/
theorem openEditor {Op : Actions σ} (hpageOp : ∀ {α} {a : Act σ α}, PageOp a → Caller n Op a) {id : EditorId}
    (hcreating : ∀ creating, Caller n Op (Act.setCreating id creating)) (hfollow : Caller n Op (Act.followModel id))
    (forms : List PageId) (text : PageId) : Caller n Op (Act.openEditor id forms text) := by
  have hinstall : Caller n Op (Act.installPages id forms text) := by
    refine .bind ((addPages id forms text).mono hpageOp) fun added => ?_
    cases added with
    | error cause => exact .bind (hpageOp (.look _)) fun tabs => .bind (hpageOp (.clear tabs)) fun _ => .pure _
    | ok _ => exact .bind hfollow fun _ => .pure _
  refine .bind (hpageOp (.look _)) fun opened => ?_
  cases opened with
  | true => exact .pure _
  | false =>
    refine .bind (hcreating true) fun _ => .bind (.ensure hinstall (hcreating false)) fun installed => ?_
    cases installed with
    | error cause => exact .pure _
    | ok _ => exact .bind ((showInitial id none).mono hpageOp) fun _ => .pure _

end PageOp

namespace ArrangeOp

variable {n : Nat}

theorem caller_look (f : Desk σ → α) : Caller n ArrangeOp (Act.look f) := .op (.look f)

theorem caller_arrange {f : Desk σ → Desk σ} (hf : ∀ d, KeepsPosts d (f d)) : Caller n ArrangeOp (Act.change f) :=
  .op (.arrange hf)

theorem changeTabs (id : TabsId) (t : Tabs) : Caller n ArrangeOp (Act.change fun d : Desk σ => d.withTabs id t) :=
  caller_arrange fun _ => ⟨⟨rfl, rfl, rfl⟩, rfl, Nat.le_of_eq List.length_set.symm⟩

/-- Showing pages and working with them is work with pages. -/
theorem of_pageParts {a : Act σ α} (ha : PagePart a) : Caller n ArrangeOp a := by
  cases ha with
  | look f => exact caller_look f
  | note notice => exact .op (.note notice)
  | @update _ id f _ =>
    refine .bind (caller_look _) fun tabs => ?_
    cases f tabs with
    | error e => exact .pure _
    | ok changed => exact .bind (changeTabs id _) fun _ => .pure _
  | clear id => exact changeTabs id {}
  | remember f => exact caller_arrange fun _ => ⟨⟨rfl, rfl, rfl⟩, rfl, Nat.le_refl _⟩
  | ask hc => exact .op (.ask hc)

theorem of_pageOp {a : Act σ α} (ha : PageOp a) : Caller n ArrangeOp a := ha.pageParts.mono of_pageParts

/-! ### Editors -/

theorem setCreating (id : EditorId) (creating : Bool) :
    Caller n ArrangeOp (Act.setCreating id creating : Act σ Unit) := by
  refine caller_arrange fun d => ⟨⟨rfl, rfl, rfl⟩, List.ext_getElem? fun i => ?_, Nat.le_refl _⟩
  simp only [Desk.withEditor, List.getElem?_map, List.getElem?_modify]
  split <;> cases d.editors[i]? <;> rfl

theorem unhold (r : Ref) : Caller n ArrangeOp (Act.unhold r : Act σ Unit) :=
  caller_arrange fun _ => ⟨⟨rfl, rfl, rfl⟩, rfl, Nat.le_refl _⟩

section

variable {Op : Actions σ} (harrange : ∀ {α} {a : Act σ α}, ArrangeOp a → Op a)

include harrange

/-- Opening is put together from the work with pages and from following the model. -/
theorem openEditor {id : EditorId} (hfollow : Caller n Op (Act.followModel id)) (forms : List PageId)
    (text : PageId) : Caller n Op (Act.openEditor id forms text) := by
  have hpage {β : Type} {a : Act σ β} (ha : Caller n ArrangeOp a) : Caller n Op a :=
    ha.mono fun ha => .op (harrange ha)
  exact PageOp.openEditor (fun ha => hpage (of_pageOp ha)) (fun creating => hpage (setCreating id creating))
    hfollow forms text

/-- Giving up a use of something is put together from that, and from disposing of editors. -/
theorem letGo (hdispose : ∀ id, Caller n Op (Act.disposeEditor id)) (r : Ref) : Caller n Op (Act.letGo r) := by
  have hpage {β : Type} {a : Act σ β} (ha : Caller n ArrangeOp a) : Caller n Op a :=
    ha.mono fun ha => .op (harrange ha)
  refine .bind (hpage (unhold r)) fun _ => ?_
  cases r with
  | editor id =>
    refine .bind (hpage (caller_look _)) fun held => ?_
    cases held with
    | true => exact .pure ()
    | false => exact .bind (hpage (caller_look _)) fun tabs => .bind (hpage (unhold _)) fun _ => hdispose id
  | view | tabs => exact .pure ()

end

end ArrangeOp

namespace DeskPart

variable {n : Nat} {Hand : Actions σ}

theorem disposeEditor (id : EditorId) : Caller n (DeskPart Hand) (Act.disposeEditor id) := by
  refine .bind (.op (.look _)) fun relay => ?_
  cases relay with
  | none => exact .pure ()
  | some relay => exact .bind (.op (.arrange fun _ => ⟨rfl, rfl, rfl⟩)) fun _ => .op (.detach relay)

theorem followModel (id : EditorId) : Caller n (DeskPart Hand) (Act.followModel id) := by
  refine .bind (.op (.look _)) fun e => .bind (.op (.attach _)) fun attached => ?_
  cases attached with
  | error cause => exact .op (.note _)
  | ok relay =>
    refine .bind (.op (.look _)) fun earlier => .bind (.op (.arrange fun _ => ⟨rfl, rfl, rfl⟩)) fun _ => ?_
    cases earlier with
    | none => exact .pure ()
    | some r => exact .op (.detach r)

end DeskPart

/-- All that is done at a desk is put together from these operations. -/
theorem DeskOp.deskParts {n : Nat} {Hand : Actions σ} {a : Act σ α} (ha : DeskOp Hand a) :
    Caller n (DeskPart Hand) a := by
  have hpageOp {β : Type} {b : Act σ β} (hb : Caller n PageOp b) : Caller n (DeskPart Hand) b :=
    (hb.mono ArrangeOp.of_pageOp).mono fun hb => .op hb.deskParts
  cases ha with
  | hand ha => exact .op (.hand ha)
  | arrange hf => exact .op (.arrange hf)
  | attach o => exact .op (.attach o)
  | detach id => exact .op (.detach id)
  | letGo r => exact ArrangeOp.letGo ArrangeOp.deskParts DeskPart.disposeEditor r
  | makeEditor name project settings memory =>
    exact .bind (.op (.look _)) fun _ => .bind (.op (.arrange fun _ => ⟨rfl, rfl, rfl⟩)) fun _ => .pure _
  | openEditor id forms text => exact ArrangeOp.openEditor ArrangeOp.deskParts (DeskPart.followModel id) forms text
  | dropPages id => exact hpageOp (PageOp.dropPages id)
  | disposeEditor id => exact DeskPart.disposeEditor id
  | addForm id page => exact hpageOp (PageOp.addForm id page)
  | addText id title page => exact hpageOp (PageOp.addText id title page)
  | activate id index => exact hpageOp (PageOp.activate id index)
  | showIndex id index => exact hpageOp (PageOp.showIndex id index)
  | showPage id page => exact hpageOp (PageOp.showPage id page)
  | showInitial id page => exact hpageOp (PageOp.showInitial id page)
  | commitForms id onSave => exact hpageOp (PageOp.commitForms id onSave)
  | reveal id start stop => exact hpageOp (PageOp.reveal id start stop)

/-! ## Relays -/

section

variable {K : Contract σ} {h : Host σ} (hv : ∀ d e, Desk.Visit d e → K.ended d e)

include hv

/-- Attaching a relay keeps a contract that allows its steps, and that an observer is shown the document. -/
theorem attach_keeps {o : Observer} (hsubscribe : ∀ d s token m,
      d.model.subscribe s (.relay o) = .ok (token, m) → K.ended d (d.accepted s .subscribe m))
    (hunclaimed : ∀ d token, K.ended d (d.enter (.unclaimed o token)))
    (hrelays : ∀ d l, K.ended d { d with relays := l })
    (hshown : ∀ document, Keeps K h (notifyPresent o (.changed document))) : Keeps K h (attach o) := by
  have hwith (s : Share) : Keeps K h (subscribeWith o s) := by
    refine (subscribe_keeps fun d token m hm => hsubscribe d s token m hm).bind fun subscribed => ?_
    cases subscribed with
    | error e => exact .pure _
    | ok token =>
      exact (Keeps.look _).bind fun document => ((hshown document).onInterrupt
        (.change fun d => hunclaimed d token)).bind fun _ => .pure _
  have hobserver : Keeps K h (subscribeObserver o) := by
    refine (withShare_keeps hv .read hwith).bind fun subscribed => ?_
    cases subscribed <;> exact .pure _
  refine hobserver.bind fun subscribed => ?_
  cases subscribed with
  | error e => exact .pure _
  | ok token => exact (Keeps.look _).bind fun _ => (Keeps.change fun d => hrelays d _).bind fun _ => .pure _

/-- Detaching a relay keeps a contract that allows its steps. -/
theorem detach_keeps {id : RelayId}
    (hdetaching : ∀ d token available, K.ended d (d.enter (.detaching id token available)))
    (hrelays : ∀ d l, K.ended d { d with relays := l }) (hleft : ∀ d s token m,
      d.model.unsubscribe s token = .ok (true, m) → K.ended d (d.accepted s .unsubscribe m)) :
    Keeps K h (detach id) := by
  have hunsubscribe (s : Share) (token : Token) : Keeps K h (unsubscribe s token) := fun d =>
    unsubscribe_keeps (note_keeps hv) fun m => hleft d s token m
  refine (Keeps.look _).bind fun relay => ?_
  cases relay with
  | none => exact .pure ()
  | some token =>
    refine (Keeps.look _).bind fun available => (Keeps.change fun d => hdetaching d token _).bind fun _ =>
      (Keeps.change fun d => hrelays d _).bind fun _ =>
        (withShare_keeps hv .read fun s => hunsubscribe s token).bind fun removed => ?_
    match removed with
    | .ok true => exact .pure ()
    | .ok false => exact note_keeps hv _
    | .error e => exact note_keeps hv _

end

/-! ## Step by step -/

section

variable {R : Desk σ → Desk σ → Prop} {h : Host σ} (hR : Desk.Path R) (hmove : ∀ d e, Desk.Move d e → R d e)
  (hc : ∀ c, Within R h fun _ => h.answer c)

include hR hmove hc

theorem call_moves (c : Callback) : Within R h (call c) :=
  call_within hR (fun _ c => hmove _ _ (.clientStep (.told c))) (fun _ c => hmove _ _ (.clientStep (.threw c))) hc c

theorem deliver_moves (event : Event) (l : Listener) : Within R h (deliver event l) :=
  deliver_within hR (call_moves hR hmove hc) (fun _ l => hmove _ _ (.held l)) event l

theorem emit_moves (event : Event) : Keeps hR.contract h (emit event) :=
  keeps_contract.2 fun _ => emit_within hR (deliver_moves hR hmove hc) (hmove _ _ (.emitted event))

theorem Public.moves {a : Act σ α} (ha : Public a) : Keeps hR.contract h a :=
  ha.untoldStep (fun _ _ huntold => hmove _ _ (.untoldStep huntold)) (emit_moves hR hmove hc) fun _ _ _ _ hleft =>
    hmove _ _ (.left hleft)

theorem attach_moves (o : Observer) : Keeps hR.contract h (attach o) :=
  attach_keeps (fun _ _ hvisit => hmove _ _ (.untoldStep (.visit hvisit)))
    (fun _ _ _ _ hsubscribe => hmove _ _ (.untoldStep (.offDocument (.subscribe hsubscribe))))
    (fun _ token => hmove _ _ (.unclaimed o token)) (fun _ l => hmove _ _ (.relays l)) fun document =>
      keeps_contract.2 (deliver_moves hR hmove hc (.changed document) (.relay o))

omit hc in
theorem detach_moves (id : RelayId) : Keeps hR.contract h (detach id) :=
  detach_keeps (fun _ _ hvisit => hmove _ _ (.untoldStep (.visit hvisit)))
    (fun _ token available => hmove _ _ (.detaching id token available)) (fun _ l => hmove _ _ (.relays l))
    fun _ _ _ _ hleft => hmove _ _ (.left hleft)

/-- Each of these operations is put together from moves, if what is done by hand is. -/
theorem DeskPart.moves {Hand : Actions σ} (hhand : ∀ {β} {a : Act σ β}, Hand a → Keeps hR.contract h a)
    {a : Act σ α} (ha : DeskPart Hand a) : Keeps hR.contract h a := by
  cases ha with
  | hand ha => exact hhand ha
  | look f => exact .look f
  | note n => exact fun _ => hmove _ _ (.clientStep (.client _))
  | arrange hf => exact .change fun d => hmove _ _ (.offModel (hf d))
  | attach o => exact attach_moves hR hmove hc o
  | detach id => exact detach_moves hR hmove id
  | ask => exact keeps_contract.2 (call_moves hR hmove hc _)

end

end Act

/-- **A relation that goes with every move goes with whatever is done at a desk**, and with the clients'
answers, if what is done by hand goes with it under each host whose clients do. -/
theorem Host.Callers.moves {n : Nat} {Hand : Act.Actions σ} {R : Desk σ → Desk σ → Prop} (hR : Desk.Path R)
    (hmove : ∀ d e, Desk.Move d e → R d e)
    (hhand : ∀ h : Host σ, (∀ c, Act.Within R h fun _ => h.answer c) →
      ∀ {β} {a : Act σ β}, Hand a → Act.Keeps hR.contract h a) {h : Host σ} (hh : h.Callers n (Act.DeskOp Hand))
    {a : Act σ α} (ha : Act.Caller n (Act.DeskOp Hand) a) : a.Within R h := by
  refine Act.keeps_contract.1 ((hh.mono Act.DeskOp.deskParts).keeps (K := hR.contract) (fun k hk => ?_)
    (ha.mono Act.DeskOp.deskParts))
  have hwithin (c : Callback) := Act.keeps_contract.1 (hk c)
  exact .untoldSteps (fun _ _ hunjoined => hmove _ _ (.untoldStep hunjoined.untoldStep))
    (Act.emit_moves hR hmove hwithin) n
    fun hop => hop.moves hR hmove hwithin (hhand k hwithin)

end FormDesk

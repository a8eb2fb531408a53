/-
Replays as moves between standings. A desk on which only the console follows
the model is attended; its standing is what of it the steps of a replay depend
on and what they leave behind. `Leads s act a s'` says that from every attended
desk that stands at `s` the action returns `a` and ends at an attended desk
that stands at `s'`. Shares, brackets, sessions, recordings and undos lead on
in this way; there is one lemma for each.
-/
import FormDesk.Proofs.Step
import FormDesk.Proofs.Transition
import FormDesk.Script.Replay

namespace FormDesk

variable {α β ε : Type}

/-- The console after an event. -/
def Console.hear (c : Console) : Event → Console
  | .changed document => { c with displayed := c.displayed.push (document.getD "<no document>") }
  | _ => c

/-- Where a replay stands. -/
structure Standing where
  document : Option Document
  changing : Nat := 0
  nextShare : Nat
  live : List Share := []
  recording : Option Recording := none
  stack : List Segment := []
  tally : Tally
  session : Sessions := .idle
  undoDepth : Nat := 0
  console : Console

namespace Desk

variable {d : Desk Console}

/-- Where the replay on a desk stands. -/
def standing (d : Desk Console) : Standing where
  document := d.model.document
  changing := d.model.changing
  nextShare := d.model.nextShare
  live := d.model.live
  recording := d.model.recording
  stack := d.model.undoStack
  tally := d.model.tally
  session := (d.coordinator 0).session
  undoDepth := (d.coordinator 0).undoDepth
  console := d.client

/-- The console page alone follows the model, which serves everyone. -/
structure Attended (d : Desk Console) : Prop where
  available : d.model.available = true
  recordable : d.model.recordable = true
  subscriptions : d.model.subscriptions = [⟨1, .relay (.tabs 0)⟩]
  coordinators : 0 < d.coordinators.length
  pages : (d.tabsOf 0).pages = [0]
  present : d.present (.tabs 0) = true
  coordinator : (d.editor 0).coordinator = 0
  relay : (d.editor 0).relay = some 0
  token : (d.relay 0).subscription = some 1

/-- The desk is attended and stands at `s`. -/
structure At (d : Desk Console) (s : Standing) : Prop where
  attended : d.Attended
  standing : d.standing = s

theorem coordinator_withCoordinator (hd : d.Attended) (f : Coordinator → Coordinator) :
    (d.withCoordinator 0 f).coordinator 0 = f (d.coordinator 0) := by
  simp [coordinator, withCoordinator, hd.coordinators]

theorem Attended.accepted (hd : d.Attended) (s : Share) (c : Call) {m : Model}
    (havailable : m.available = d.model.available) (hrecordable : m.recordable = d.model.recordable)
    (hsubscriptions : m.subscriptions = d.model.subscriptions) : (d.accepted s c m).Attended :=
  { hd with
    available := havailable.trans hd.available
    recordable := hrecordable.trans hd.recordable
    subscriptions := hsubscriptions.trans hd.subscriptions }

theorem Attended.withCoordinator (hd : d.Attended) (f : Coordinator → Coordinator) :
    (d.withCoordinator 0 f).Attended :=
  { hd with coordinators := by simpa [Desk.withCoordinator] using hd.coordinators }

end Desk

namespace Act

open Desk (Attended)

/-- From every attended desk that stands at `s` the action returns `a` and ends where `s'` is reached. -/
def Leads (s : Standing) (act : Act Console α) (a : α) (s' : Standing) : Prop :=
  ∀ d, d.At s → ∃ d', act Console.host d = (.returned a, d') ∧ d'.At s'

variable {s s₁ s₂ : Standing}

theorem Leads.pure (a : α) : Leads s (pure a) a s := fun d hd => ⟨d, rfl, hd⟩

theorem Leads.bind {x : Act Console α} {f : α → Act Console β} {a : α} {b : β} (hx : Leads s x a s₁)
    (hf : Leads s₁ (f a) b s₂) : Leads s (x >>= f) b s₂ := by
  intro d hd
  obtain ⟨d₁, hrun, hd₁⟩ := hx d hd
  obtain ⟨d₂, hrun', hd₂⟩ := hf d₁ hd₁
  exact ⟨d₂, (bind_run hrun).trans hrun', hd₂⟩

theorem Leads.ensure {act : Act Console α} {last : Act Console Unit} {a : α} (ha : Leads s act a s₁)
    (hl : Leads s₁ last () s₂) : Leads s (ensure act last) a s₂ := by
  intro d hd
  obtain ⟨d₁, hrun, hd₁⟩ := ha d hd
  obtain ⟨d₂, hrun', hd₂⟩ := hl d₁ hd₁
  exact ⟨d₂, ensure_run hrun hrun', hd₂⟩

theorem Leads.onInterrupt {act : Act Console α} {last : Act Console Unit} {a : α} (ha : Leads s act a s₁) :
    Leads s (onInterrupt act last) a s₁ := by
  intro d hd
  obtain ⟨d₁, hrun, hd₁⟩ := ha d hd
  exact ⟨d₁, onInterrupt_run hrun, hd₁⟩

/-- Looking at what the standing tells. -/
theorem Leads.look {f : Desk Console → α} {g : α → Act Console β} {a : α} {b : β}
    (hf : ∀ d, d.Attended → d.standing = s → f d = a) (hg : Leads s (g a) b s₁) :
    Leads s (look f >>= g) b s₁ := by
  intro d hd
  rw [look_bind, hf d hd.attended hd.standing]
  exact hg d hd

/-- Looking at what makes no difference. -/
theorem Leads.look_any {f : Desk Console → α} {g : α → Act Console β} {b : β} (hg : ∀ a, Leads s (g a) b s₁) :
    Leads s (Act.look f >>= g) b s₁ := fun d hd => hg (f d) d hd

/-! ## Events -/

/-- The console hears of an event through its page. -/
theorem notifyPresent_heard {d : Desk Console} (hpresent : d.present (.tabs 0) = true)
    (hpages : (d.tabsOf 0).pages = [0]) (event : Event) :
    ∃ history, notifyPresent (.tabs 0) event Console.host d =
      (.returned (), { d with history, client := d.client.hear event }) := by
  have hnotify : ∃ history, notify (.tabs 0) event Console.host { d with held := .tabs 0 :: d.held } =
      (.returned (), { d with held := .tabs 0 :: d.held, history, client := d.client.hear event }) := by
    cases event with
    | changed document =>
      have hpages' : (({ d with held := .tabs 0 :: d.held } : Desk Console).tabsOf 0).pages = [0] := hpages
      simp only [notify, look_bind, hpages']
      exact ⟨_, rfl⟩
    | _ => exact ⟨_, rfl⟩
  obtain ⟨history, hnotify⟩ := hnotify
  refine ⟨history, ?_⟩
  have hunhold : unhold (.tabs 0) Console.host
      { d with held := .tabs 0 :: d.held, history, client := d.client.hear event } =
      (.returned (), { d with history, client := d.client.hear event }) := by
    simp [unhold]
  simp only [notifyPresent, look_bind, hpresent, if_true]
  exact ensure_run (d := { d with held := .tabs 0 :: d.held }) hnotify hunhold

theorem emit_leads (event : Event) : Leads s (emit event) () { s with console := s.console.hear event } := by
  rintro d ⟨hd, rfl⟩
  obtain ⟨history, hheard⟩ := notifyPresent_heard (d := d.enter (.emitted event)) hd.present hd.pages event
  refine ⟨{ d with history, client := d.client.hear event }, ?_, { hd with }, rfl⟩
  simp only [emit, did_bind, look_bind, Desk.model_enter, hd.subscriptions]
  exact bind_run hheard

/-! ## Shares -/

theorem acquire_leads (access : Access) : Leads s (acquire access) (.ok ⟨s.nextShare, access⟩)
    { s with
      nextShare := s.nextShare + 1
      live := ⟨s.nextShare, access⟩ :: s.live
      tally := s.tally.count (.acquire access) } := by
  rintro d ⟨hd, rfl⟩
  have hacquire : d.model.acquire access = .ok (⟨d.model.nextShare, access⟩,
      { d.model.enter (.acquire access) with
        nextShare := d.model.nextShare + 1
        live := ⟨d.model.nextShare, access⟩ :: d.model.live }) := by
    simp [Model.acquire, hd.available]
  exact ⟨_, acquire_run hacquire, hd.accepted _ _ rfl rfl rfl, rfl⟩

/-- The only share there is goes back. -/
theorem release_leads {share : Share} (hlive : s.live = [share]) : Leads s (release share) ()
    { s with live := [], tally := s.tally.count (.release share.access) } := by
  rintro d ⟨hd, rfl⟩
  have hrelease : d.model.release? share = some (share.access,
      { d.model.enter (.release share.access) with live := [] }) := by
    have hlive : d.model.live = [share] := hlive
    simp [Model.release?, Model.accessOf?, hlive]
  exact ⟨_, release_run hrelease, hd.accepted _ _ rfl rfl rfl, rfl⟩

/-- A share is taken for an action and given back after it. -/
theorem withShare_leads {access : Access} {f : Share → Act Console α} {a : α} (hlive : s.live = [])
    (hf : Leads { s with
        nextShare := s.nextShare + 1
        live := [⟨s.nextShare, access⟩]
        tally := s.tally.count (.acquire access) } (f ⟨s.nextShare, access⟩) a s₁)
    (hlive₁ : s₁.live = [⟨s.nextShare, access⟩]) :
    Leads s (withShare access f) (.ok a)
      { s₁ with live := [], tally := s₁.tally.count (.release access) } := by
  have hacquire := acquire_leads (s := s) access
  rw [hlive] at hacquire
  exact hacquire.bind ((hf.ensure (release_leads hlive₁)).bind (.pure _))

/-! ## Changes -/

section

variable {share : Share} (hlive : s.live = [share]) (hedit : share.access = .edit)

include hlive hedit

theorem accessOf_live {d : Desk Console} (hd : d.standing = s) : d.model.accessOf? share.id = some .edit := by
  have hlive : d.model.live = [share] := by rw [← hlive, ← hd]; rfl
  simp [Model.accessOf?, hlive, hedit]

theorem openBracket_leads (hdocument : s.document.isSome = true) (hchanging : s.changing = 0) :
    Leads s (openBracket share) (.ok ()) { s with changing := 1, tally := s.tally.count .aboutToChange } := by
  rintro d ⟨hd, rfl⟩
  have hopen : d.model.openBracket share = .ok { d.model.enter .aboutToChange with changing := 1 } := by
    have hdocument : d.model.document.isSome = true := hdocument
    have hchanging : d.model.changing = 0 := hchanging
    simp [Model.openBracket, Model.objection?_edit_none.2 (accessOf_live hlive hedit rfl),
      Option.isNone_eq_false_iff.2 hdocument, hchanging]
  obtain ⟨d', hemit, hd'⟩ := emit_leads .aboutToChange (d.accepted share .aboutToChange
    { d.model.enter .aboutToChange with changing := 1 }) ⟨hd.accepted _ _ rfl rfl rfl, rfl⟩
  refine ⟨d', ?_, hd'⟩
  simp only [openBracket, look_bind, hopen, accept_bind, if_true]
  exact bind_run hemit

theorem closeBracket_leads (hchanging : s.changing = 1) : Leads s (closeBracket share) ()
    { s with
      changing := 0
      tally := s.tally.count .changed
      console := s.console.hear (.changed s.document) } := by
  rintro d ⟨hd, rfl⟩
  have hclose : d.model.closeBracket share = .ok { d.model.enter .changed with changing := 0 } := by
    have hchanging : d.model.changing = 1 := hchanging
    rw [Model.closeBracket_of_live (accessOf_live hlive hedit rfl) (by rw [hchanging]; exact Nat.one_pos),
      hchanging]
  obtain ⟨d', hemit, hd'⟩ := emit_leads (.changed d.model.document) (d.accepted share .changed
    { d.model.enter .changed with changing := 0 }) ⟨hd.accepted _ _ rfl rfl rfl, rfl⟩
  refine ⟨d', ?_, hd'⟩
  simp only [closeBracket, look_bind, hclose, accept_bind, if_true]
  exact hemit

/-- A mutation that calls nobody itself. The desk becomes dirty, of which the console hears nothing. -/
theorem mutate_leads (hchanging : s.changing = 1) {document : Document}
    (hdocument : s.document = some document)
    (f : Document → Document) : Leads s (mutate share fun document => return ((), f document)) (.ok ())
    { s with document := some (f document), tally := s.tally.count .mutate } := by
  rintro d ⟨hd, rfl⟩
  have htake : d.model.takeDocument share =
      .ok (document, { d.model.enter .mutate with document := none }) := by
    have hdocument : d.model.document = some document := hdocument
    have hchanging : d.model.changing = 1 := hchanging
    simp [Model.takeDocument, Model.objection?_edit_none.2 (accessOf_live hlive hedit rfl), hdocument,
      hchanging]
  have hput : Desk.At { (d.accepted share .mutate { d.model.enter .mutate with document := none }).enter
      (.mutated true) with
      model := { d.model.enter .mutate with document := none }.putDocument (f document) }
      { d.standing with document := some (f document), tally := d.standing.tally.count .mutate } :=
    ⟨{ hd with }, rfl⟩
  have hdirtied (wasDirty : Bool) {s' : Standing} : Leads s' (do
      if !wasDirty then emit (.dirtyChanged true)
      return .ok () : Act Console (Except ModelError Unit)) (.ok ()) s' := by
    cases wasDirty with
    | true => exact .pure _
    | false => exact (emit_leads (.dirtyChanged true)).bind (.pure _)
  have hrun : onInterrupt (pure ((), f document)) (did (.mutated false)) Console.host
      (d.accepted share .mutate { d.model.enter .mutate with document := none }) =
      (.returned ((), f document), _) := onInterrupt_run rfl
  simp only [mutate, look_bind, htake, accept_bind, bind_run hrun, change_bind]
  exact hdirtied _ _ hput

end

/-! ## Sessions -/

theorem setSession_leads (x : Sessions) : Leads s (setSession 0 x) () { s with session := x } := by
  rintro d ⟨hd, rfl⟩
  refine ⟨d.withSession 0 x, rfl, hd.withCoordinator _, ?_⟩
  have hsame := Desk.coordinator_withCoordinator hd fun c => { c with session := x }
  simp only [Desk.standing, Desk.withSession, hsame]
  rfl

theorem changeUndoDepth_leads (f : Nat → Nat) :
    Leads s (changeUndoDepth 0 f) () { s with undoDepth := f s.undoDepth } := by
  rintro d ⟨hd, rfl⟩
  refine ⟨d.withUndoDepth 0 f, rfl, hd.withCoordinator _, ?_⟩
  have hsame := Desk.coordinator_withCoordinator hd fun c => { c with undoDepth := f c.undoDepth }
  simp only [Desk.standing, Desk.withUndoDepth, hsame]
  rfl

theorem did_leads (e : Deed) : Leads s (did e) () s := by
  rintro d ⟨hd, rfl⟩
  exact ⟨d.enter e, rfl, { hd with }, rfl⟩

theorem between_leads {first last : Deed} {act : Act Console α} {a : α} (ha : Leads s act a s₁) :
    Leads s (between first last act) a s₁ :=
  (did_leads first).bind (ha.ensure (did_leads last))

end Act

namespace Standing

/-- The share of a session that opens now. -/
def share (b : Standing) : Share := ⟨b.nextShare, .edit⟩

/-- So many sessions deep, in sessions the outermost of which opened at `b`. At depth 0 they are over: the
console has been shown the document. -/
def deep (b : Standing) : Nat → Standing
  | 0 => { b with
      changing := 0
      nextShare := b.nextShare + 1
      live := []
      session := .idle
      tally := (((b.tally.count (.acquire .edit)).count .aboutToChange).count .changed).count (.release .edit)
      console := b.console.hear (.changed b.document) }
  | k + 1 => { b with
      changing := 1
      nextShare := b.nextShare + 1
      live := [b.share]
      tally := (b.tally.count (.acquire .edit)).count .aboutToChange
      session := .active k b.share }

/-- The standing after a recording has begun. -/
def begun (s : Standing) (label : Option String) : Standing :=
  { s with
    nextShare := s.nextShare + 1
    live := []
    recording := some { entry := ⟨label, .coordinator 0, s.document⟩ }
    tally := ((s.tally.count (.acquire .edit)).count (.beginRecording label)).count (.release .edit) }

/-- The standing after the recording of a segment has ended. -/
def ended (s : Standing) (entry : Segment) : Standing :=
  { s with
    nextShare := s.nextShare + 1
    live := []
    recording := none
    stack := entry :: s.stack
    tally := ((s.tally.count (.acquire .edit)).count .endRecording).count (.release .edit) }

/-- No session is open. -/
structure Rest (b : Standing) : Prop where
  changing : b.changing = 0
  live : b.live = []
  session : b.session = .idle

end Standing

namespace Act

variable {s s₁ b : Standing}

theorem scopeShare_leads {k : Nat} {share : Share} (hsession : s.session = .active k share) :
    Leads s (scopeShare ⟨0⟩) share s := by
  have hshare (d : Desk Console) (hd : d.standing = s) : (d.coordinator 0).session = .active k share :=
    (congrArg (·.session) hd).trans hsession
  exact .look (fun d _ hd => hshare d hd) (.pure share)

/-- At rest the outermost session opens. -/
theorem openSession_rest_leads (hb : b.Rest) (hdocument : b.document.isSome = true) :
    Leads b (openSession 0) (.ok ()) (b.deep 1) := by
  have hacquire := acquire_leads (s := b) .edit
  rw [hb.live] at hacquire
  have hopen := openBracket_leads (s := { b with
      nextShare := b.nextShare + 1
      live := [b.share]
      tally := b.tally.count (.acquire .edit) }) rfl rfl hdocument hb.changing
  have hstart : Leads b (startSession 0) (.ok ()) (b.deep 1) :=
    hacquire.bind <| (did_leads _).bind (hopen.onInterrupt.bind ((setSession_leads _).bind ((did_leads _).bind (.pure _))))
  have hidle (d : Desk Console) (hd : d.standing = b) : (d.coordinator 0).session = .idle :=
    (congrArg (·.session) hd).trans hb.session
  exact .look (fun d _ hd => hidle d hd) hstart

/-- The session is nested in the open ones, which their count may no longer tell. -/
theorem openSession_leads (k : Nat) :
    Leads (b.deep (k + 1)) (openSession 0) (.ok ()) (b.deep (min (k + 1) (maxDepth - 1) + 1)) := by
  have hsession (d : Desk Console) (hd : d.standing = b.deep (k + 1)) :
      (d.coordinator 0).session = .active k b.share := congrArg (·.session) hd
  refine .look (fun d _ hd => hsession d hd) ?_
  exact .look (fun d _ hd => hsession d hd) ((did_leads _).bind ((setSession_leads _).bind (.pure _)))

theorem leaveSession_leads : ∀ k, Leads (b.deep k) (leaveSession 0) () (b.deep (k - 1))
  | 0 => (did_leads _).bind <| .look (a := .idle) (fun d _ hd => congrArg (·.session) hd)
      ((setSession_leads _).bind (.pure _))
  | 1 => by
    refine (did_leads _).bind <| .look (a := .active 0 b.share) (fun d _ hd => congrArg (·.session) hd)
      ((setSession_leads _).bind ?_)
    exact (closeBracket_leads rfl rfl rfl).ensure (release_leads rfl)
  | k + 2 => (did_leads _).bind <| .look (a := .active (k + 1) b.share)
      (fun d _ hd => congrArg (·.session) hd) ((setSession_leads _).bind (.pure _))

/-- An edit leaves one session less than its mutation leaves open. -/
theorem edit_leads {mutation : Scope → Act Console (Except ε α)} {r : Except ε α} {k : Nat}
    (hopen : Leads s (openSession 0) (.ok ()) s₁) (hm : Leads s₁ (mutation ⟨0⟩) r (b.deep k)) :
    Leads s (edit 0 mutation) (r.map .applied) (b.deep (k - 1)) := by
  refine hopen.bind (((between_leads hm).ensure (leaveSession_leads k)).bind ?_)
  cases r <;> exact .pure _

/-! ## Recordings -/

section

variable {share : Share} (hlive : s.live = [share]) (hedit : share.access = .edit)

include hlive hedit

theorem beginRecording_leads (owner : Owner) (label : Option String) (hdocument : s.document.isSome = true)
    (hrecording : s.recording = none) : Leads s (beginRecording share owner label) (.ok ())
      { s with
        recording := some { entry := ⟨label, owner, s.document⟩ }
        tally := s.tally.count (.beginRecording label) } := by
  rintro d ⟨hd, rfl⟩
  have hbegin : d.model.beginRecording share owner label = .ok { d.model.enter (.beginRecording label) with
      recording := some { entry := ⟨label, owner, d.model.document⟩ } } := by
    have hdocument : d.model.document.isSome = true := hdocument
    have hrecording : d.model.recording = none := hrecording
    simp [Model.beginRecording, Model.objection?_edit_none.2 (accessOf_live hlive hedit rfl), hd.recordable,
      Option.isNone_eq_false_iff.2 hdocument, hrecording]
  exact ⟨_, beginRecording_run hbegin, hd.accepted _ _ rfl rfl rfl, rfl⟩

/-- The end of the recording puts its segment on the stack. -/
theorem endRecording_leads (owner : Owner) {entry : Segment} (hrecording : s.recording = some { entry }) :
    Leads s (endRecording share owner) ()
      { s with
        recording := none
        stack := entry :: s.stack
        tally := s.tally.count .endRecording } := by
  rintro d ⟨hd, rfl⟩
  have hend := Model.endRecording_of_live owner (accessOf_live hlive hedit rfl) hrecording
  exact ⟨_, endRecording_run hend, hd.accepted _ _ rfl rfl rfl, rfl⟩

end

theorem startRecording_leads (label : Option String) (hlive : s.live = [])
    (hdocument : s.document.isSome = true)
    (hrecording : s.recording = none) : Leads s (startRecording 0 label) (.ok ()) (s.begun label) := by
  have hbegin := withShare_leads (f := fun share => beginRecording share (.coordinator 0) label) hlive
    (beginRecording_leads rfl rfl _ label hdocument hrecording) rfl
  exact hbegin.bind (.pure _)

theorem finishRecording_leads {entry : Segment} (hlive : s.live = [])
    (hrecording : s.recording = some { entry }) :
    Leads s (finishRecording 0) () (s.ended entry) := by
  have hend := withShare_leads (f := fun share => endRecording share (.coordinator 0)) hlive
    (endRecording_leads rfl rfl _ hrecording) rfl
  exact .look_any fun _ => (did_leads _).bind (hend.bind (.pure _))

/-- An undoable edit is an edit between the two ends of a recording. -/
theorem undoableEdit_leads {label : Option String} {mutation : Scope → Act Console (Except ε α)}
    {r : Except ε (Edited α)} {entry : Segment} (hdepth : s.undoDepth = 0) (hlive : s.live = [])
    (hdocument : s.document.isSome = true) (hrecording : s.recording = none)
    (hedit : Leads { s.begun label with undoDepth := 1 } (edit 0 mutation) r s₁) (hlive₁ : s₁.live = [])
    (hrecording₁ : s₁.recording = some { entry }) :
    Leads s (undoableEdit 0 label mutation) r ({ s₁ with undoDepth := s₁.undoDepth - 1 }.ended entry) := by
  have hzero (d : Desk Console) (hd : d.standing = s) : (d.coordinator 0).undoDepth = 0 :=
    (congrArg (·.undoDepth) hd).trans hdepth
  have hraise := changeUndoDepth_leads (s := s.begun label) (· + 1)
  have hone : (s.begun label).undoDepth + 1 = 1 := congrArg (· + 1) hdepth
  rw [hone] at hraise
  refine .look (fun d _ hd => hzero d hd) (.look_any fun m => ?_)
  refine (startRecording_leads label hlive hdocument hrecording).bind ((did_leads _).bind (hraise.bind ?_))
  exact (between_leads hedit).ensure ((changeUndoDepth_leads (· - 1)).bind (finishRecording_leads hlive₁ hrecording₁))

/-! ## Undo -/

theorem undo_nothing_leads (hchanging : s.changing = 0) (hrecording : s.recording = none)
    (hstack : s.stack = []) :
    Leads s undo none s := by
  rintro d ⟨hd, rfl⟩
  have hchanging : d.model.changing = 0 := hchanging
  have hrecording : d.model.recording = none := hrecording
  have hstack : d.model.undoStack = [] := hstack
  refine ⟨d, ?_, hd, rfl⟩
  simp [undo, Model.undoBarred, Model.popUndo?, hchanging, hrecording, hstack]

/-- The latest segment is taken back, and the console is shown the document from before it. -/
theorem undo_leads {entry : Segment} {rest : List Segment} (hchanging : s.changing = 0)
    (hrecording : s.recording = none) (hstack : s.stack = entry :: rest) :
    Leads s undo (some { entry with before := s.document })
      { s with
        document := entry.before
        stack := rest
        console := s.console.hear (.changed entry.before) } := by
  rintro d ⟨hd, rfl⟩
  have hbarred : d.model.undoBarred = false := by
    have hchanging : d.model.changing = 0 := hchanging
    have hrecording : d.model.recording = none := hrecording
    simp [Model.undoBarred, hchanging, hrecording]
  have hpop : d.model.popUndo? = some (entry, { d.model with undoStack := rest }) := by
    have hstack : d.model.undoStack = entry :: rest := hstack
    simp [Model.popUndo?, hstack]
  obtain ⟨d₁, hrun₁, hd₁⟩ := emit_leads .aboutToChange { d with model := { d.model with undoStack := rest } }
    ⟨{ hd with }, rfl⟩
  have hdocument : d₁.model.document = d.model.document := congrArg (·.document) hd₁.standing
  obtain ⟨d₂, hrun₂, hd₂⟩ :=
    emit_leads (.changed entry.before) { d₁ with model := (d₁.model.restore entry).2 }
    ⟨{ hd₁.attended with }, congrArg (fun s : Standing => { s with document := entry.before }) hd₁.standing⟩
  refine ⟨d₂, ?_, hd₂⟩
  simp only [undo, look_bind, hbarred, Bool.false_eq_true, if_false, hpop, setModel, change_bind]
  refine (bind_run hrun₁).trans ((bind_run hrun₂).trans ?_)
  simp only [pure_run, Model.restore, hdocument]
  rfl

end Act

end FormDesk

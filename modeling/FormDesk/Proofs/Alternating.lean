/-
Changes in turn. Listeners hear that the document is about to change, and then
that it has changed, of brackets and of undos alike. A bracket that opens while
another one is open is not announced, so brackets take turns whatever listeners
do. An undo is not counted among the open brackets while it announces itself:
a listener that is told of it then, and changes the document in answer, has its
own change announced in the middle of the undo, and the undo overwrites it
(`undo_overtaken`).

Where no client does so (`Host.LeavesUndo`), changes are announced in turn, and
what an undo answers is the document from when it was called
(`changes_alternate`). What such a client leaves alone is said by
`Desk.OffBrackets`; an undo rests on it from its first announcement to its second.
-/
import FormDesk.Proofs.Announcement
import FormDesk.Proofs.Caller
import FormDesk.Proofs.Calm

namespace FormDesk

variable {σ α : Type}

namespace Deed

/-- What a deed announces: that the document is about to change (`true`), or that it has changed. -/
def announcement? : Deed → Option Bool
  | emitted .aboutToChange => some true
  | emitted (.changed _) => some false
  | _ => none

/-- The deeds `w` announce changes in turn. Before them a change is under way if `b` says so, and after them
if `c` does. -/
inductive InTurn : Bool → List Deed → Bool → Prop
  | nil (b) : InTurn b [] b
  | about {w c} : InTurn true w c → InTurn false (emitted .aboutToChange :: w) c
  | changed {document w c} : InTurn false w c → InTurn true (emitted (.changed document) :: w) c
  | other {b e w c} : e.announcement? = none → InTurn b w c → InTurn b (e :: w) c

theorem InTurn.append {b c k : Bool} {w v : List Deed} (h : InTurn b w c) (h' : InTurn c v k) :
    InTurn b (w ++ v) k := by
  induction h with
  | nil => exact h'
  | about _ ih => exact .about (ih h')
  | changed _ ih => exact .changed (ih h')
  | other he _ ih => exact .other he (ih h')

theorem announcement?_of_not_ofBracket {e : Deed} (h : e.ofBracket = false) : e.announcement? = none := by
  unfold announcement?
  split
  · cases h
  · cases h
  · rfl

theorem InTurn.of_silent {w : List Deed} (h : ∀ x ∈ w, x.ofBracket = false) (b : Bool) : InTurn b w b := by
  induction w with
  | nil => exact .nil b
  | cons x w ih =>
    exact .other (announcement?_of_not_ofBracket (h x (by simp))) (ih fun y hy => h y (by simp [hy]))

/-- Brackets that are announced are announced in turn. -/
theorem Announced.inTurn {n m : Nat} {w : List Deed} (h : Announced n w m) :
    InTurn (decide (0 < n)) w (decide (0 < m)) := by
  induction h with
  | nil n => exact .nil _
  | first _ ih => exact .other rfl (.about ih)
  | inner _ ih => exact .other rfl (by simpa using ih)
  | last _ ih => exact .other rfl (.changed ih)
  | outer _ ih => exact .other rfl (by simpa using ih)
  | other he _ ih => exact .other (announcement?_of_not_ofBracket he) ih

end Deed

/-- Whether a client is told that the document is about to change. -/
def Callback.heralds : Callback → Bool
  | .listener _ .aboutToChange | .view _ .aboutToChange => true
  | _ => false

namespace Desk

/-- What was done between two desks announces changes in turn; one is under way while a bracket is open. -/
def Alternates (d e : Desk σ) : Prop :=
  ∃ w, e.history.toList = d.history.toList ++ w ∧
    Deed.InTurn (decide (0 < d.model.changing)) w (decide (0 < e.model.changing))

theorem Alternates.path : Path (Alternates (σ := σ)) where
  refl d := ⟨[], by simp, .nil _⟩
  trans := by
    rintro d e f ⟨w, hw, hturn⟩ ⟨v, hv, hturn'⟩
    exact ⟨w ++ v, by rw [hv, hw, List.append_assoc], hturn.append hturn'⟩

theorem Announces.alternates {d e : Desk σ} (h : Announces d e) : Alternates d e := by
  obtain ⟨w, hw, -, hannounced⟩ := h
  exact ⟨w, hw, hannounced.inTurn⟩

theorem Step.alternates {d e : Desk σ} (h : Step d e) : Calmly Alternates d e :=
  ⟨h.grows, fun _ => h.announces.alternates⟩

theorem Recorded.alternates {d e : Desk σ} (h : Recorded d e) : Calmly Alternates d e :=
  ⟨h.grows, fun _ => h.announces.alternates⟩

/-- One deed that announces nothing, and as many brackets as before. -/
theorem alternates_other {d e : Desk σ} {deed : Deed} (hw : e.history.toList = d.history.toList ++ [deed])
    (hm : e.model.changing = d.model.changing) (hn : deed.announcement? = none) : Calmly Alternates d e :=
  ⟨⟨[deed], hw.symm⟩, fun _ => ⟨[deed], hw, by rw [hm]; exact .other hn (.nil _)⟩⟩

/-- No deed, and as many brackets as before. -/
theorem alternates_still {d e : Desk σ} (hw : e.history = d.history) (hm : e.model.changing = d.model.changing) :
    Calmly Alternates d e :=
  ⟨⟨[], by rw [hw, List.append_nil]⟩, fun _ => ⟨[], by simp [hw], by rw [hm]; exact .nil _⟩⟩

theorem OffDocument.alternates {d e : Desk σ} (h : OffDocument d e) : Calmly Alternates d e := by
  cases h with
  | client | recordable | saved | moved => exact alternates_still rfl rfl
  | available => exact alternates_other (d.toList_enter _) rfl rfl
  | subscribe h =>
    obtain ⟨-, rfl⟩ := Model.subscribe_ok h
    exact alternates_other (d.toList_accepted ..) rfl rfl

/-! ## Leaving the document alone -/

/-- Nothing was done with brackets, and the document is the one that it was. -/
structure OffBrackets (d e : Desk σ) : Prop where
  deeds : ∃ w, e.history.toList = d.history.toList ++ w ∧ ∀ x ∈ w, x.ofBracket = false
  changing : e.model.changing = d.model.changing
  document : e.model.document = d.model.document

/-- Nothing is done with brackets while none is open. -/
def OffBracketsAtRest (d e : Desk σ) : Prop := d.model.changing = 0 → OffBrackets d e

theorem OffBrackets.of_same {d e : Desk σ} (hw : e.history = d.history) (hm : e.model = d.model) :
    OffBrackets d e :=
  ⟨⟨[], by simp [hw], by simp⟩, by rw [hm], by rw [hm]⟩

theorem OffBracketsAtRest.path : Path (OffBracketsAtRest (σ := σ)) where
  refl d := fun _ => .of_same rfl rfl
  trans := by
    intro d e f h h' hclosed
    obtain ⟨⟨w, hw, hsilent⟩, hchanging, hdocument⟩ := h hclosed
    obtain ⟨⟨v, hv, hsilent'⟩, hchanging', hdocument'⟩ := h' (hchanging.trans hclosed)
    refine ⟨⟨w ++ v, by rw [hv, hw, List.append_assoc], fun x hx => ?_⟩, hchanging'.trans hchanging,
      hdocument'.trans hdocument⟩
    exact (List.mem_append.1 hx).elim (hsilent x) (hsilent' x)

theorem OffBrackets.enter (d : Desk σ) {x : Deed} (hx : x.ofBracket = false) : OffBrackets d (d.enter x) :=
  ⟨⟨[x], d.toList_enter x, by simpa using hx⟩, rfl, rfl⟩

end Desk

namespace Act

open Desk (Alternates Calm Calmly Grows OffBrackets OffBracketsAtRest)

variable {h : Host σ}

/-- Those who are told that the document is about to change. -/
theorem deliver_heralding {R : Desk σ → Desk σ → Prop} (hR : Desk.Path R)
    (hheld : ∀ d l, R d { d with held := l }) (hc : ∀ c, c.heralds = true → Within R h (call c)) (l : Listener) :
    Within R h (deliver .aboutToChange l) := by
  have hnotify : ∀ o : Observer, Within R h (notify o .aboutToChange)
    | .view _ => hc _ rfl
    | .tabs _ => Within.pure hR ()
  cases l with
  | client id => exact hc _ rfl
  | relay o =>
    refine Within.bind hR (Within.look hR _) fun here => ?_
    cases here with
    | false => exact Within.pure hR ()
    | true =>
      exact Within.bind hR (fun d => hheld d (o.ref :: d.held)) fun _ =>
        Within.ensure hR (hnotify o) fun d => hheld d (d.held.erase o.ref)

/-- What an undo comes to in a calm run: it answers nothing and leaves all as it is but for a notice, or it
takes the latest segment and exchanges the document between two announcements. -/
theorem undo_parts (hg : ∀ c d, Grows d (h.answer c d).2) {d : Desk σ} (hcalm : Calm d (undo h d).2) :
    (∃ e, undo h d = (.returned none, e) ∧ e.history = d.history ∧ e.model = d.model) ∨
    ∃ entry rest d₁ e, d.model.changing = 0 ∧
      emit .aboutToChange h { d with model := { d.model with undoStack := rest } } = (.returned (), d₁) ∧
      emit (.changed entry.before) h { d₁ with model := (d₁.model.restore entry).2 } = (.returned (), e) ∧
      undo h d = (.returned (some (d₁.model.restore entry).1), e) := by
  by_cases hbarred : d.model.undoBarred = true
  · have hrun : undo h d = (.returned none, { d with client := h.note .undoRefused d.client }) := by
      simp only [undo, look_bind, hbarred, if_true, note_bind, pure_run]
    exact .inl ⟨_, hrun, rfl, rfl⟩
  have hclosed : d.model.changing = 0 := by
    simp only [Model.undoBarred, Bool.or_eq_true, decide_eq_true_eq, not_or] at hbarred
    omega
  cases hpop : d.model.popUndo? with
  | none =>
    have hrun : undo h d = (.returned none, d) := by
      simp only [undo, look_bind, hbarred, hpop, pure_run, Bool.false_eq_true, if_false]
    exact .inl ⟨d, hrun, rfl, rfl⟩
  | some popped =>
    obtain ⟨entry, m⟩ := popped
    obtain ⟨rest, -, rfl⟩ := Model.popUndo?_some hpop
    have hfirst := emit_returns hg .aboutToChange
    have hsecond (event : Event) := emit_returns hg event
    simp only [undo, look_bind, hbarred, Bool.false_eq_true, if_false, hpop, setModel, change_bind] at hcalm ⊢
    obtain ⟨_, d₁, hemit, hrun, -, hcalm₁⟩ :=
      hfirst.peel (d := { d with model := { d.model with undoStack := rest } }) hcalm fun _ d₁ _ =>
        ((hsecond _).bind fun _ => Returns.pure _).grows { d₁ with model := (d₁.model.restore entry).2 }
    simp only [look_bind, change_bind] at hrun
    obtain ⟨_, e, hemit', hrun', -, -⟩ :=
      (hsecond (.changed entry.before)).peel (f := fun _ => pure (some (d₁.model.restore entry).1))
        (d := { d₁ with model := (d₁.model.restore entry).2 }) hcalm₁ fun _ d₂ _ => Grows.path.refl d₂
    exact .inr ⟨entry, rest, d₁, e, hclosed, hemit, hemit', hrun.trans hrun'⟩

/-- While no client that is told of it changes the document, the announcement that it is about to change is the
only one. -/
theorem emit_offBrackets (hoff : ∀ c, c.heralds = true → Within OffBracketsAtRest h fun _ => h.answer c)
    {d : Desk σ} (hclosed : d.model.changing = 0) :
    OffBrackets (d.enter (.emitted .aboutToChange)) (emit .aboutToChange h d).2 := by
  have hR := OffBracketsAtRest.path (σ := σ)
  have hcall : ∀ c, c.heralds = true → Within OffBracketsAtRest h (call c) := by
    intro c hc d
    have hanswered : OffBracketsAtRest d (h.answer c (d.enter (.told c d.model.document))).2 :=
      hR.trans (fun _ => .enter d rfl) (hoff c hc _)
    unfold call
    rcases hans : h.answer c (d.enter (.told c d.model.document)) with ⟨outcome, e⟩
    rw [hans] at hanswered
    cases outcome with
    | returned _ => exact hanswered
    | interrupted _ | fatal => exact hR.trans hanswered fun _ => .enter e rfl
  exact Within.each hR (fun s : Subscription =>
    deliver_heralding hR (fun _ _ _ => .of_same rfl rfl) hcall s.listener) _ _ hclosed

section

variable (hc : ∀ c, Within (Calmly Alternates) h fun _ => h.answer c)

include hc

theorem deliver_alternates (event : Event) (l : Listener) : Within (Calmly Alternates) h (deliver event l) :=
  deliver_within_steps (Calmly.path Alternates.path) (fun _ _ => Desk.Step.alternates)
    (fun _ _ => Desk.alternates_still rfl rfl) hc event l

/-- An event that goes out while a change is under way or not, and what the listeners do. -/
theorem emit_alternates (event : Event) (d : Desk σ) :
    Calmly Alternates (d.enter (.emitted event)) (emit event h d).2 :=
  Within.each (Calmly.path Alternates.path) (fun s : Subscription => deliver_alternates hc event s.listener) _ _

theorem emit_other_alternates {event : Event} (habout : event ≠ .aboutToChange)
    (hchanged : ∀ document, event ≠ .changed document) : Within (Calmly Alternates) h (emit event) := by
  have hnone : (Deed.emitted event).announcement? = none := by
    cases event with
    | aboutToChange => exact absurd rfl habout
    | changed document => exact absurd rfl (hchanged document)
    | _ => rfl
  exact fun d => (Calmly.path Alternates.path).trans (Desk.alternates_other (d.toList_enter _) rfl hnone)
    (emit_alternates hc event d)

variable (hoff : ∀ c, c.heralds = true → Within OffBracketsAtRest h fun _ => h.answer c)

include hoff

/-- What a calm undo that answers a segment comes to. -/
theorem undo_exchanges {d e : Desk σ} {entry : Segment} (hrun : undo h d = (.returned (some entry), e))
    (hcalm : Calm d e) : d.model.changing = 0 ∧ entry.before = d.model.document ∧
      ∃ w document v, e.history.toList =
          d.history.toList ++ .emitted .aboutToChange :: w ++ .emitted (.changed document) :: v ∧
        (∀ x ∈ w, x.ofBracket = false) ∧ Deed.InTurn false v (decide (0 < e.model.changing)) := by
  obtain ⟨_, hnone, -, -⟩ | ⟨taken, rest, d₁, e', hclosed, hfirst, hsecond, hrun'⟩ :=
    undo_parts (fun c d => (hc c d).1) (by rw [hrun]; exact hcalm : Calm d (undo h d).2)
  · rw [hrun] at hnone
    cases hnone
  rw [hrun] at hrun'
  cases hrun'
  obtain ⟨⟨w, hw, hsilent⟩, hchanging, hdocument⟩ :=
    emit_offBrackets hoff (d := { d with model := { d.model with undoStack := rest } }) hclosed
  have hturn := emit_alternates hc (.changed taken.before) { d₁ with model := (d₁.model.restore taken).2 }
  rw [hfirst] at hw hchanging hdocument
  rw [hsecond] at hturn
  have hgrows : Grows d { d₁ with model := (d₁.model.restore taken).2 } :=
    ⟨.emitted .aboutToChange :: w, by rw [hw, Desk.toList_enter]; simp⟩
  have hentered := hgrows.trans (Desk.grows_enter _ (.emitted (.changed taken.before)))
  obtain ⟨v, hv, hturn⟩ := hturn.2 (hcalm.split hentered hturn.1).2
  refine ⟨hclosed, hdocument, w, taken.before, v, ?_, hsilent, ?_⟩
  · rw [hv, Desk.toList_enter]
    simp only
    rw [hw, Desk.toList_enter]
    simp
  · have hrest : (d₁.model.restore taken).2.changing = 0 := hchanging.trans hclosed
    rwa [Desk.model_enter, hrest] at hturn

theorem undo_alternates : Within (Calmly Alternates) h undo := by
  have hg : ∀ c d, Grows d (h.answer c d).2 := fun c d => (hc c d).1
  refine fun d => ⟨(undo_returns hg).grows d, fun hcalm => ?_⟩
  obtain ⟨e, hrun, hw, hm⟩ | ⟨taken, rest, d₁, e, -, -, -, hrun⟩ := undo_parts hg hcalm
  · rw [hrun] at hcalm ⊢
    exact (Desk.alternates_still hw (by rw [hm])).2 hcalm
  · rw [hrun] at hcalm ⊢
    obtain ⟨hclosed, -, w, document, v, hw, hsilent, hturn⟩ := undo_exchanges hc hoff hrun hcalm
    refine ⟨.emitted .aboutToChange :: w ++ .emitted (.changed document) :: v, by rw [hw]; simp, ?_⟩
    rw [hclosed]
    exact .about ((Deed.InTurn.of_silent hsilent true).append (.changed hturn))

/-- What is done by hand announces changes in turn. -/
theorem Public.alternates {a : Act σ α} (ha : Public a) : Within (Calmly Alternates) h a := by
  have hR := Calmly.path (Alternates.path (σ := σ))
  have hs : ∀ d e : Desk σ, Desk.Passage d e → Calmly Alternates d e := fun _ _ hpass => hpass.step.alternates
  have hv : ∀ d e : Desk σ, Desk.Visit d e → Calmly Alternates d e := fun _ _ hvisit => hvisit.step.alternates
  have hr : ∀ d e : Desk σ, Desk.Recorded d e → Calmly Alternates d e := fun _ _ => Desk.Recorded.alternates
  have hd : ∀ event l, Keeps hR.contract h (deliver event l) := fun event l =>
    keeps_contract.2 (deliver_alternates hc event l)
  have hemit {event : Event} (habout : event ≠ .aboutToChange)
      (hchanged : ∀ document, event ≠ .changed document) : Keeps hR.contract h (emit event) :=
    keeps_contract.2 (emit_other_alternates hc habout hchanged)
  suffices Keeps hR.contract h a from keeps_contract.1 this
  cases ha with
  | recordingOp ha => exact ha.keeps (fun _ => note_keeps hv _) hr
  | shareOp ha =>
    cases ha with
    | acquire access => exact acquire_keeps hv access
    | release s => exact release_keeps hv s
    | openBracket s => exact openBracket_keeps hs hd s
    | closeBracket s => exact closeBracket_keeps hs hd s
  | offBooks ha =>
    refine ha.elim (fun ha => ha.keeps (fun _ _ hstep => hstep.alternates)
        fun _ habout hchanged _ => hemit habout hchanged)
      (keeps_contract.2 (undo_alternates hc hoff)) (fun document => ?_)
      fun s token d => unsubscribe_keeps (note_keeps hv) fun m heq => ?_
    · exact rebuild_keeps (hemit nofun nofun) (fun _ => Desk.alternates_still rfl rfl) (hemit nofun nofun)
    · obtain rfl := Model.unsubscribe_ok heq
      exact Desk.alternates_other (d.toList_accepted ..) rfl rfl

/-- So do the ways of editing. -/
theorem Trusts.alternating (n : Nat) :
    Trusts n Public (Calmly.path (Alternates.path (σ := σ))).contract h := by
  have hR := Calmly.path (Alternates.path (σ := σ))
  have hs : ∀ d e : Desk σ, Desk.Passage d e → Calmly Alternates d e := fun _ _ hpass => hpass.step.alternates
  have hd : ∀ event l, Keeps hR.contract h (deliver event l) := fun event l =>
    keeps_contract.2 (deliver_alternates hc event l)
  refine .visiting (fun _ _ hvisit => hvisit.step.alternates) (fun _ _ => Desk.Recorded.alternates)
    (fun ha => keeps_contract.2 (ha.alternates hc hoff)) (fun s _ hf d => ?_) fun id => edit_keeps hs hd id
  exact mutate_keeps (fun _ _ htake => (Desk.Step.takeDocument htake).alternates)
    (fun _ _ => (Desk.Step.putDocument _).alternates) (fun _ => Desk.Step.lost.alternates)
    (keeps_contract.2 (emit_other_alternates hc nofun nofun)) hf

end

end Act

/-- The hosts whose clients do what callers do, but change nothing when they are told, while no bracket is
open, that the document is about to change: it is an undo that tells them then. -/
inductive Host.LeavesUndo (n : Nat) : Host σ → Prop
  | silent {h : Host σ} : (∀ c d, h.answer c d = (.returned (), d)) → LeavesUndo n h
  | react {h : Host σ} (inner : Callback → Desk σ → Host σ) (reaction : Callback → Desk σ → Act σ Unit) :
      (∀ c d, LeavesUndo n (inner c d)) → (∀ c d, Act.Caller n Act.Public (reaction c d)) →
      (∀ c d, h.answer c d = reaction c d (inner c d) d) →
      (∀ (c : Callback) (d : Desk σ), c.heralds = true → d.model.changing = 0 → d.OffBrackets (h.answer c d).2) →
      LeavesUndo n h

namespace Host.LeavesUndo

variable {n : Nat} {h : Host σ}

/-- Listeners that only answer changed documents. -/
theorem interfering {a : Act σ Unit} (ha : Act.Caller n Act.Public a) : (Host.interfering a).LeavesUndo n := by
  refine .react (fun _ _ => .silent) (fun c _ => a.onChange c) (fun _ _ => .silent fun _ _ => rfl) (fun c _ => ?_)
    (fun _ _ => rfl) fun c d hc _ => ?_
  · unfold Act.onChange
    split
    · exact ha
    · exact .pure ()
  · simp only [Host.interfering, Act.onChange]
    split
    · cases hc
    · exact .of_same rfl rfl

theorem offBrackets (hh : h.LeavesUndo n) (c : Callback) (hc : c.heralds = true) :
    Act.Within Desk.OffBracketsAtRest h fun _ => h.answer c := by
  intro d hclosed
  cases hh with
  | silent hs =>
    simp only [hs c d]
    exact .of_same rfl rfl
  | react _ _ _ _ _ hoff => exact hoff c d hc hclosed

theorem answers (hh : h.LeavesUndo n) :
    ∀ c, Act.Within (Desk.Calmly Desk.Alternates) h fun _ => h.answer c := by
  induction hh with
  | silent hs =>
    intro c d
    simp only [hs c d]
    exact (Desk.Calmly.path Desk.Alternates.path).refl d
  | react inner reaction hinner hre heq _ ih =>
    intro c d
    simp only [heq c d]
    have htrusts := Act.Trusts.alternating (ih c d) (hinner c d).offBrackets n
    exact Act.keeps_contract.1 ((hre c d).keeps htrusts) d

/-- **Changes are announced in turn.** Let callers do what they will with the model and with its coordinators,
and let the clients that are called do the same, except that they change nothing when an undo tells them that
the document is about to change. Unless a client interrupts, the announcements that a change begins and that it
is over alternate, whoever makes it. And an undo that answers a segment makes both of its own with nothing done
to brackets between them, and answers the document that there was when it was called. -/
theorem changes_alternate (hh : h.LeavesUndo n) {a : Act σ α} (ha : Act.Caller n Act.Public a) (d : Desk σ) :
    (∃ w, (a h d).2.history.toList = d.history.toList ++ w ∧
      ((∀ c, .threw c ∉ w) →
        Deed.InTurn (decide (0 < d.model.changing)) w (decide (0 < (a h d).2.model.changing)))) ∧
    ∀ (e : Desk σ) (entry : Segment), (Act.undo h e).1 = .returned (some entry) → e.Calm (Act.undo h e).2 →
      entry.before = e.model.document ∧
      ∃ w document v, (Act.undo h e).2.history.toList =
          e.history.toList ++ .emitted .aboutToChange :: w ++ .emitted (.changed document) :: v ∧
        ∀ x ∈ w, x.ofBracket = false := by
  have htrusts := Act.Trusts.alternating hh.answers hh.offBrackets n
  obtain ⟨⟨w, hw⟩, hturn⟩ := Act.keeps_contract.1 (ha.keeps htrusts) d
  refine ⟨⟨w, hw.symm, fun hcalm => ?_⟩, fun e entry hentry hcalm => ?_⟩
  · obtain ⟨v, hv, hturn⟩ := hturn ⟨w, hw.symm, hcalm⟩
    obtain rfl : v = w := List.append_cancel_left (hv.symm.trans hw.symm)
    exact hturn
  · have hrun : Act.undo h e = (.returned (some entry), (Act.undo h e).2) := Prod.ext hentry rfl
    obtain ⟨-, hbefore, w, document, v, hf, hsilent, -⟩ := Act.undo_exchanges hh.answers hh.offBrackets hrun hcalm
    exact ⟨hbefore, w, document, v, hf, hsilent⟩

/-- A listener that undoes once more when it hears of a changed document: both undos announce themselves, one
after the other. -/
theorem changes_alternate_undoing :
    let append (text : String) (s : Scope) : Act Unit (Except ModelError Unit) :=
      Act.mutateIn s fun document => pure ((), document ++ text)
    let h : Host Unit := .interfering do let _ ← Act.undo
    let edits : Act Unit Unit := do
      let _ ← Act.undoableEdit 0 (some "one") (append "1")
      let _ ← Act.undoableEdit 0 (some "two") (append "2")
    let d : Desk Unit :=
      { model := { document := some "d", subscriptions := [⟨0, .client 0⟩] }, coordinators := [{}], client := () }
    let e := (edits h d).2
    let entry : Segment := ⟨some "two", .coordinator 0, some "d12"⟩
    h.LeavesUndo 1 ∧ Act.Caller 1 Act.Public (edits >>= fun _ => Act.undo) ∧
      Deed.InTurn false ((edits >>= fun _ => Act.undo) h d).2.history.toList false ∧
      (Act.undo h e).1 = .returned (some entry) ∧ e.Calm (Act.undo h e).2 ∧
      entry.before = e.model.document ∧
      ∃ w document v, (Act.undo h e).2.history.toList =
          e.history.toList ++ .emitted .aboutToChange :: w ++ .emitted (.changed document) :: v ∧
        ∀ x ∈ w, x.ofBracket = false := by
  intro append h edits d e entry
  have hoffBooks {α : Type} {a : Act Unit α} (ha : Act.OffBooksOp a) : Act.Caller 1 Act.Public a :=
    .op (.offBooks ha)
  have happend (text : String) (s : Scope) : Act.Caller 1 Act.Public (append text s) :=
    .mutateIn (fun ha => .offBooks ha) s fun _ => .pure _
  have hh : h.LeavesUndo 1 := .interfering (.bind (hoffBooks .undo) fun _ => .pure _)
  have hedits : Act.Caller 1 Act.Public edits :=
    .bind (.undoable _ (by decide) (happend "1" _)) fun _ =>
      .bind (.undoable _ (by decide) (happend "2" _)) fun _ => .pure _
  have ha : Act.Caller 1 Act.Public (edits >>= fun _ => Act.undo) := .bind hedits fun _ => hoffBooks .undo
  have hsame : ((edits >>= fun _ => Act.undo) h d).2.history.toList = (Act.undo h e).2.history.toList := by
    decide +kernel
  have hgrown : (Act.undo h e).2.history.toList =
      e.history.toList ++ (Act.undo h e).2.history.toList.drop e.history.toList.length := by decide +kernel
  have hnone : ∀ c, .threw c ∉ (Act.undo h e).2.history.toList := Deed.not_threw (by decide +kernel)
  have hcalm' : e.Calm (Act.undo h e).2 := ⟨_, hgrown, fun c hc => hnone c (List.mem_of_mem_drop hc)⟩
  have hentry : (Act.undo h e).1 = .returned (some entry) := by decide +kernel
  obtain ⟨⟨w, hw, hturn⟩, hundo⟩ := hh.changes_alternate ha d
  obtain rfl : ((edits >>= fun _ => Act.undo) h d).2.history.toList = w := hw
  refine ⟨hh, ha, ?_, hentry, hcalm', hundo e entry hentry hcalm'⟩
  have hclosed : decide (0 < ((edits >>= fun _ => Act.undo) h d).2.model.changing) = false := by decide +kernel
  have hturn := hturn fun c => by
    rw [hsame]
    exact hnone c
  rw [hclosed] at hturn
  exact hturn

end Host.LeavesUndo

/-- A listener that undoes once more when it is told that the document is about to change by an undo: four
announcements do not alternate, the first undo answers a document that was not there when it was called, and it
overwrites what the second one restored. -/
theorem Host.undo_overtaken :
    let append (text : String) (s : Scope) : Act Unit (Except ModelError Unit) :=
      Act.mutateIn s fun document => pure ((), document ++ text)
    let h : Host Unit := .answering do let _ ← Act.undo
    let edits : Act Unit Unit := do
      let _ ← Act.undoableEdit 0 (some "one") (append "1")
      let _ ← Act.undoableEdit 0 (some "two") (append "2")
    let d : Desk Unit :=
      { model := { document := some "d", subscriptions := [⟨0, .client 0⟩] }, coordinators := [{}], client := () }
    let e := (edits .silent d).2
    let f := (Act.undo h e).2
    h.Callers 1 Act.Public ∧ e.model.document = some "d12" ∧ e.model.changing = 0 ∧
      (Act.undo h e).1 = .returned (some ⟨some "two", .coordinator 0, some "d"⟩) ∧
      f.model.document = some "d1" ∧
      f.history.toList = e.history.toList ++ [.emitted .aboutToChange,
        .told (.listener 0 .aboutToChange) (some "d12"),
        .emitted .aboutToChange, .told (.listener 0 .aboutToChange) (some "d12"),
        .emitted (.changed (some "d")), .told (.listener 0 (.changed (some "d"))) (some "d"),
        .emitted (.changed (some "d1")), .told (.listener 0 (.changed (some "d1"))) (some "d1")] := by
  intro append h edits d e f
  exact ⟨.answering (.bind (.op (.offBooks .undo)) fun _ => .pure _), by decide +kernel, by decide +kernel,
    by decide +kernel, by decide +kernel, by decide +kernel⟩

end FormDesk

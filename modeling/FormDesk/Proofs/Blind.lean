/-
Two runs side by side. `Pairs` says that two actions, run under two hosts on
desks that are related, end alike and leave desks that look the same under the
veil and are related again. It has a rule for each way of putting actions
together.

An action that does not look under the veil, and is not itself about depths,
goes with itself and leaves the depths of both desks alone (`Blind.pairs`). All
that is done with a model by hand is so, but for a look under the veil
(`Public.blind`).
-/
import FormDesk.Proofs.Caller
import FormDesk.Proofs.Following
import FormDesk.Proofs.Veil

namespace FormDesk

variable {σ α β : Type}

/-- How an action ends when what is done after it ends so too. -/
def Outcome.after : Outcome α → Outcome Unit → Outcome α
  | returned a, returned _ => returned a
  | returned _, interrupted message => interrupted message
  | interrupted message, returned _ => interrupted message
  | interrupted _, interrupted _ => fatal
  | fatal, _ => fatal
  | _, fatal => fatal

theorem Outcome.after_fatal (o : Outcome α) : o.after .fatal = .fatal := by
  cases o <;> rfl

namespace Act

open Desk (Grows Shallow Beside)

theorem ensure_after {h : Host σ} {act : Act σ α} {last : Act σ Unit} {d d₁ : Desk σ} {outcome : Outcome α}
    (hact : act h d = (outcome, d₁)) (hended : outcome ≠ .fatal) :
    ensure act last h d = (outcome.after (last h d₁).1, (last h d₁).2) := by
  rcases hlast : last h d₁ with ⟨ended, d₂⟩
  cases outcome with
  | fatal => exact absurd rfl hended
  | returned | interrupted => cases ended <;> simp only [ensure, hact, hlast, Outcome.after]

theorem onInterrupt_after {h : Host σ} {act : Act σ α} {last : Act σ Unit} {d d₁ : Desk σ} {message : String}
    (hact : act h d = (.interrupted message, d₁)) :
    onInterrupt act last h d = ((Outcome.interrupted message).after (last h d₁).1, (last h d₁).2) := by
  rcases hlast : last h d₁ with ⟨ended, d₂⟩
  cases ended <;> simp only [onInterrupt, hact, hlast, Outcome.after]

/-! ## Pairs of actions -/

/-- Two runs end alike, and what they leave looks the same; `S` relates it, unless that is the end of all. -/
structure Alike (S : Desk σ → Desk σ → Prop) (r r' : Outcome α × Desk σ) : Prop where
  outcome : r'.1 = r.1
  veil : r'.2.veil = r.2.veil
  kept : r.1 ≠ .fatal → S r.2 r'.2

theorem Alike.after {S : Desk σ → Desk σ → Prop} {r r' : Outcome Unit × Desk σ} (h : Alike S r r') (o : Outcome α) :
    Alike S (o.after r.1, r.2) (o.after r'.1, r'.2) where
  outcome := congrArg o.after h.outcome
  veil := h.veil
  kept hended := h.kept fun hfatal => hended (by rw [hfatal, o.after_fatal])

/-- The runs of two actions are alike, the one under `h` and the other under `k`, on desks that `R` relates;
`S` relates what they leave. -/
structure Pairs (h k : Host σ) (R S : Desk σ → Desk σ → Prop) (a b : Act σ α) : Prop where
  grows : Within Grows h a
  run : ∀ {d e}, R d e → Shallow d (a h d).2 → Alike S (a h d) (b k e)

section

variable {h k : Host σ} {R S T : Desk σ → Desk σ → Prop}

/-- An answer alone, on desks at any levels. -/
theorem Pairs.pure {n : Nat} {l l' : Levels} (a : α) :
    Pairs h k (Beside n l l') (Beside n l l') (pure a : Act σ α) (pure a) :=
  ⟨fun d => Grows.path.refl d, fun hR _ => ⟨rfl, hR.veil, fun _ => hR⟩⟩

/-- What two actions come to that go on as others do, from desks that are related anew. -/
theorem Pairs.before {a b a₁ b₁ : Act σ α} (hp : Pairs h k S T a₁ b₁) (hgrows : Within Grows h a)
    (hstart : ∀ {d e}, R d e → Shallow d (a h d).2 →
      ∃ d₁ e₁, a h d = a₁ h d₁ ∧ b k e = b₁ k e₁ ∧ Grows d d₁ ∧ S d₁ e₁) : Pairs h k R T a b where
  grows := hgrows
  run hR hshallow := by
    obtain ⟨d₁, e₁, ha, hb, hstarted, hS⟩ := hstart hR hshallow
    rw [ha] at hshallow ⊢
    rw [hb]
    exact hp.run hS (hshallow.split hstarted (hp.grows d₁)).2

theorem Pairs.bind {x x' : Act σ α} {f f' : α → Act σ β} (hx : Pairs h k R S x x')
    (hf : ∀ a, Pairs h k S S (f a) (f' a)) : Pairs h k R S (x >>= f) (x' >>= f') where
  grows := Within.bind Grows.path hx.grows fun a => (hf a).grows
  run {d e} hR hshallow := by
    have hgrows := hx.grows d
    have halike := hx.run (d := d) (e := e) hR
    rcases bind_cases (h := h) x f d with ⟨a, d₁, hrun, hb⟩ | ⟨message, d₁, hrun, hb⟩ | ⟨d₁, hrun, hb⟩
    all_goals
      rw [hrun] at hgrows halike
      rw [hb] at hshallow ⊢
    · obtain ⟨hfirst, hrest⟩ := hshallow.split hgrows ((hf a).grows d₁)
      obtain ⟨houtcome, -, hS⟩ := halike hfirst
      rw [bind_run (Prod.ext houtcome rfl : x' k e = (.returned a, (x' k e).2))]
      exact (hf a).run (hS (by simp)) hrest
    · obtain ⟨houtcome, hveil, hS⟩ := halike hshallow
      rw [bind_interrupted (Prod.ext houtcome rfl : x' k e = (.interrupted message, (x' k e).2))]
      exact ⟨rfl, hveil, fun _ => hS (by simp)⟩
    · obtain ⟨houtcome, hveil, -⟩ := halike hshallow
      rw [bind_fatal (Prod.ext houtcome rfl : x' k e = (.fatal, (x' k e).2))]
      exact ⟨rfl, hveil, fun hfatal => absurd rfl hfatal⟩

/-- Cleaning up is done from the desks that the actions leave. -/
theorem Pairs.ensure {act act' : Act σ α} {last last' : Act σ Unit} (ha : Pairs h k R S act act')
    (hl : Pairs h k S T last last') : Pairs h k R T (ensure act last) (ensure act' last') where
  grows := Within.ensure Grows.path ha.grows hl.grows
  run {d e} hR hshallow := by
    have hgrows := ha.grows d
    have halike := ha.run (d := d) (e := e) hR
    rcases hact : act h d with ⟨outcome, d₁⟩
    rcases hact' : act' k e with ⟨outcome', e₁⟩
    rw [hact] at hgrows halike
    rw [hact'] at halike
    by_cases hfatal : outcome = .fatal
    · subst hfatal
      simp only [Act.ensure, hact] at hshallow ⊢
      obtain ⟨houtcome, hveil, -⟩ := halike hshallow
      obtain rfl : outcome' = .fatal := houtcome
      simp only [hact']
      exact ⟨rfl, hveil, fun hended => absurd rfl hended⟩
    · rw [ensure_after hact hfatal] at hshallow ⊢
      obtain ⟨hfirst, hrest⟩ := hshallow.split hgrows (hl.grows d₁)
      obtain ⟨houtcome, -, hS⟩ := halike hfirst
      obtain rfl : outcome' = outcome := houtcome
      rw [ensure_after hact' hfatal]
      exact (hl.run (hS hfatal) hrest).after outcome'

/-- The end of an interrupted action is done from the desks that it leaves. -/
theorem Pairs.onInterrupt {act act' : Act σ α} {last last' : Act σ Unit} (ha : Pairs h k R S act act')
    (hl : Pairs h k S S last last') : Pairs h k R S (onInterrupt act last) (onInterrupt act' last') where
  grows := Within.onInterrupt Grows.path ha.grows hl.grows
  run {d e} hR hshallow := by
    have hgrows := ha.grows d
    have halike := ha.run (d := d) (e := e) hR
    rcases hact : act h d with ⟨outcome, d₁⟩
    rcases hact' : act' k e with ⟨outcome', e₁⟩
    rw [hact] at hgrows halike
    rw [hact'] at halike
    cases outcome with
    | returned | fatal =>
      simp only [Act.onInterrupt, hact] at hshallow ⊢
      obtain ⟨houtcome, hveil, hS⟩ := halike hshallow
      cases houtcome
      simp only [hact']
      exact ⟨rfl, hveil, hS⟩
    | interrupted message =>
      rw [onInterrupt_after hact] at hshallow ⊢
      obtain ⟨hfirst, hrest⟩ := hshallow.split hgrows (hl.grows d₁)
      obtain ⟨houtcome, -, hS⟩ := halike hfirst
      obtain rfl : outcome' = .interrupted message := houtcome
      rw [onInterrupt_after hact']
      exact (hl.run (hS (by simp)) hrest).after _

theorem Pairs.attempt {act act' : Act σ α} (ha : Pairs h k R S act act') :
    Pairs h k R S (attempt act) (attempt act') where
  grows := Within.attempt ha.grows
  run {d e} hR hshallow := by
    have halike := ha.run (d := d) (e := e) hR
    rcases hact : act h d with ⟨outcome, d₁⟩
    rcases hact' : act' k e with ⟨outcome', e₁⟩
    rw [hact, hact'] at halike
    have hdesk : (Act.attempt act h d).2 = d₁ := by cases outcome <;> simp only [Act.attempt, hact]
    rw [hdesk] at hshallow
    obtain ⟨houtcome, hveil, hS⟩ := halike hshallow
    obtain rfl : outcome' = outcome := houtcome
    cases outcome' <;> simp only [Act.attempt, hact, hact']
    case fatal => exact ⟨rfl, hveil, fun hnot => absurd rfl hnot⟩
    all_goals exact ⟨rfl, hveil, fun _ => hS (by simp)⟩

end

/-! ## Blind actions -/

/-- The actions that look only at what shows and leave the depths of coordinators alone, while the clients that
they call may do otherwise. -/
inductive Blind : Actions σ
  | pure {α : Type} (a : α) : Blind (pure a : Act σ α)
  | look {α : Type} (f : Desk σ → α) : (∀ d, f d.veil = f d) → Blind (Act.look f)
  | change {f : Desk σ → Desk σ} : Desk.BlindStep f → Blind (Act.change f)
  | interrupt {α : Type} (message : String) : Blind (Act.interrupt message : Act σ α)
  | halt {α : Type} : Blind (Act.halt : Act σ α)
  | note (n : Notice) : Blind (Act.note n)
  | call (c : Callback) : Blind (Act.call c)
  | bind {α β : Type} {x : Act σ α} {f : α → Act σ β} : Blind x → (∀ a, Blind (f a)) → Blind (x >>= f)
  | ensure {α : Type} {act : Act σ α} {last : Act σ Unit} : Blind act → Blind last → Blind (ensure act last)
  | onInterrupt {α : Type} {act : Act σ α} {last : Act σ Unit} : Blind act → Blind last → Blind (onInterrupt act last)
  | attempt {α : Type} {act : Act σ α} : Blind act → Blind (attempt act)

section

variable {h k : Host σ} {n : Nat} {l l' : Levels}

/-- The calls of clients go in pairs when their answers do. -/
theorem Pairs.call (hcalls : ∀ c, Pairs h k (Beside n l l') (Beside n l l') (fun _ => h.answer c) fun _ => k.answer c)
    (c : Callback) : Pairs h k (Beside n l l') (Beside n l l') (call c) (call c) where
  grows := call_within Grows.path (fun d _ => d.grows_enter _) (fun d _ => d.grows_enter _)
    (fun c => (hcalls c).grows) c
  run {d e} hR hshallow := by
    have hmodel : e.model = d.model := congrArg (·.model) hR.veil
    have hgrows := (hcalls c).grows (d.enter (.told c d.model.document))
    have halike := (hcalls c).run (hR.step (.enter (x := .told c d.model.document) rfl))
    unfold Act.call at hshallow ⊢
    rw [hmodel]
    rcases hh : h.answer c (d.enter (.told c d.model.document)) with ⟨outcome, d₁⟩
    rcases hk : k.answer c (e.enter (.told c d.model.document)) with ⟨outcome', e₁⟩
    simp only [hh, hk] at hgrows halike hshallow ⊢
    have htold : Shallow d d₁ := by
      cases outcome with
      | returned => exact hshallow
      | interrupted | fatal => exact (hshallow.split ((d.grows_enter _).trans hgrows) (d₁.grows_enter _)).1
    obtain ⟨houtcome, hveil, hS⟩ := halike (htold.split (d.grows_enter _) hgrows).2
    have hthrew : (e₁.enter (.threw c)).veil = (d₁.enter (.threw c)).veil := by
      rw [Desk.veil_enter _ rfl, Desk.veil_enter _ rfl]
      exact congrArg (·.enter (.threw c)) hveil
    obtain rfl : outcome' = outcome := houtcome
    cases outcome' with
    | returned => exact ⟨rfl, hveil, hS⟩
    | interrupted => exact ⟨rfl, hthrew, fun _ => (hS (by simp)).step (.enter rfl)⟩
    | fatal => exact ⟨rfl, hthrew, fun hnot => absurd rfl hnot⟩

/-- A blind action goes with itself, whatever the depths of coordinators are. -/
theorem Blind.pairs (hnote : k.note = h.note)
    (hcalls : ∀ c, Pairs h k (Beside n l l') (Beside n l l') (fun _ => h.answer c) fun _ => k.answer c)
    {a : Act σ α} (ha : Blind a) : Pairs h k (Beside n l l') (Beside n l l') a a := by
  induction ha with
  | pure a => exact .pure a
  | look f hf =>
    refine ⟨fun d => Grows.path.refl d, fun {d e} hR _ => ⟨?_, hR.veil, fun _ => hR⟩⟩
    rw [look_run, look_run, ← hf e, hR.veil, hf d]
  | change hf => exact ⟨hf.grows, fun hR _ => ⟨rfl, (hR.step hf).veil, fun _ => hR.step hf⟩⟩
  | interrupt message => exact ⟨fun d => Grows.path.refl d, fun hR _ => ⟨rfl, hR.veil, fun _ => hR⟩⟩
  | halt => exact ⟨fun d => Grows.path.refl d, fun hR _ => ⟨rfl, hR.veil, fun hnot => absurd rfl hnot⟩⟩
  | note m =>
    refine ⟨fun d => Grows.path.refl d, fun {d e} hR _ => ?_⟩
    have hstep := hR.step (f := fun x => { x with client := h.note m d.client })
      (.of_same (fun _ => rfl) (fun _ => rfl) fun _ => rfl)
    have hclient : e.client = d.client := congrArg (·.client) hR.veil
    rw [note_run, note_run, hnote, hclient]
    exact ⟨rfl, hstep.veil, fun _ => hstep⟩
  | call c => exact .call hcalls c
  | bind _ _ hx hf => exact hx.bind hf
  | ensure _ _ hact hlast => exact hact.ensure hlast
  | onInterrupt _ _ hact hlast => exact hact.onInterrupt hlast
  | attempt _ hact => exact hact.attempt

end

/-! ## What is blind -/

namespace Blind

theorem did {x : Deed} (hx : x.counts = false) : Blind (did x : Act σ Unit) := .change (.enter hx)

theorem accept (s : Share) (c : Call) (m : Model) : Blind (accept s c m : Act σ Unit) := .change (.accepted s c m)

/-- A change of the desk that has to do neither with coordinators nor with what happened. -/
theorem same {f : Desk σ → Desk σ} (hveil : ∀ d, (f d).veil = f d.veil)
    (hc : ∀ d, (f d).coordinators = d.coordinators) (hw : ∀ d, (f d).history = d.history) :
    Blind (Act.change f) := .change (.of_same hveil hc hw)

theorem setModel (m : Model) : Blind (setModel m : Act σ Unit) :=
  .same (fun _ => rfl) (fun _ => rfl) fun _ => rfl

theorem each {f : α → Act σ Unit} (hf : ∀ x, Blind (f x)) : ∀ xs, Blind (each xs f)
  | [] => .pure ()
  | x :: xs => .bind (hf x) fun _ => each hf xs

theorem notify (o : Observer) (event : Event) : Blind (notify o event : Act σ Unit) := by
  unfold Act.notify
  split
  · exact .call _
  · exact .bind (.look _ fun _ => rfl) fun pages => .each (fun _ => .call _) pages
  · exact .pure ()

theorem notifyPresent (o : Observer) (event : Event) : Blind (notifyPresent o event : Act σ Unit) := by
  refine .bind (.look _ fun _ => rfl) fun present => ?_
  cases present with
  | true =>
    refine .bind (.same (fun _ => rfl) (fun _ => rfl) fun _ => rfl) fun _ => .ensure (.notify o event) ?_
    exact .same (fun _ => rfl) (fun _ => rfl) fun _ => rfl
  | false => exact .pure ()

theorem emit (event : Event) : Blind (emit event : Act σ Unit) := by
  refine .bind (.did rfl) fun _ => .bind (.look _ fun _ => rfl) fun subscriptions => .each (fun s => ?_) subscriptions
  unfold deliver
  split
  · exact .call _
  · exact .notifyPresent _ event

theorem acquire (access : Access) : Blind (acquire access : Act σ (Except ModelError Share)) := by
  refine .bind (.look _ fun _ => rfl) fun m => ?_
  cases m.acquire access with
  | error e => exact .pure _
  | ok taken => exact .bind (.accept _ _ _) fun _ => .pure _

theorem release (s : Share) : Blind (release s : Act σ Unit) := by
  refine .bind (.look _ fun _ => rfl) fun m => ?_
  cases m.release? s with
  | none => exact .note _
  | some given => exact .accept _ _ _

theorem withShare (access : Access) {f : Share → Act σ α} (hf : ∀ s, Blind (f s)) :
    Blind (withShare access f) := by
  refine .bind (.acquire access) fun taken => ?_
  cases taken with
  | error e => exact .pure _
  | ok s => exact .bind (.ensure (hf s) (.release s)) fun _ => .pure _

theorem openBracket (s : Share) : Blind (openBracket s : Act σ (Except ModelError Unit)) := by
  refine .bind (.look _ fun _ => rfl) fun m => ?_
  cases m.openBracket s with
  | error e => exact .pure _
  | ok m' =>
    refine .bind (.accept _ _ _) fun _ => ?_
    dsimp only
    split
    · exact .bind (.emit _) fun _ => .pure _
    · exact .pure _

theorem closeBracket (s : Share) : Blind (closeBracket s : Act σ Unit) := by
  refine .bind (.look _ fun _ => rfl) fun m => ?_
  cases m.closeBracket s with
  | error n => exact .note n
  | ok m' =>
    refine .bind (.accept _ _ _) fun _ => ?_
    split
    · exact .emit _
    · exact .pure ()

theorem beginRecording (s : Share) (owner : Owner) (label : Option String) :
    Blind (beginRecording s owner label : Act σ (Except ModelError Unit)) := by
  refine .bind (.look _ fun _ => rfl) fun m => ?_
  cases m.beginRecording s owner label with
  | error e => exact .pure _
  | ok m' => exact .bind (.accept _ _ _) fun _ => .pure _

theorem endRecording (s : Share) (owner : Owner) : Blind (endRecording s owner : Act σ Unit) := by
  refine .bind (.look _ fun _ => rfl) fun m => ?_
  cases m.endRecording s owner with
  | error n => exact .note n
  | ok m' => exact .accept _ _ _

theorem startRecording (id : CoordinatorId) (label : Option String) :
    Blind (startRecording id label : Act σ (Except ModelError Unit)) := by
  refine .bind (.withShare .edit fun s => .beginRecording s _ label) fun started => ?_
  cases started <;> exact .pure _

theorem finishRecording (id : CoordinatorId) : Blind (finishRecording id : Act σ Unit) := by
  refine .bind (.look _ fun _ => rfl) fun available => .bind (.did rfl) fun _ =>
    .bind (.withShare .edit fun s => .endRecording s _) fun ended => ?_
  cases ended with
  | error e => exact .note _
  | ok _ => exact .pure ()

theorem undo : Blind (undo : Act σ (Option Segment)) := by
  refine .bind (.look _ fun _ => rfl) fun m => ?_
  split
  · exact .bind (.note _) fun _ => .pure _
  · cases m.popUndo? with
    | none => exact .pure _
    | some popped =>
      refine .bind (.setModel _) fun _ => .bind (.emit _) fun _ => .bind (.look _ fun _ => rfl) fun m' => ?_
      exact .bind (.setModel _) fun _ => .bind (.emit _) fun _ => .pure _

theorem subscribe (s : Share) (listener : Listener) :
    Blind (subscribe s listener : Act σ (Except ModelError Token)) := by
  refine .bind (.look _ fun _ => rfl) fun m => ?_
  cases m.subscribe s listener with
  | error e => exact .pure _
  | ok subscribed => exact .bind (.accept _ _ _) fun _ => .pure _

theorem unsubscribe (s : Share) (token : Token) : Blind (unsubscribe s token : Act σ Bool) := by
  refine .bind (.look _ fun _ => rfl) fun m => ?_
  cases m.unsubscribe s token with
  | error n => exact .bind (.note n) fun _ => .pure _
  | ok unsubscribed =>
    obtain ⟨removed, m'⟩ := unsubscribed
    cases removed with
    | true => exact .bind (.accept _ _ _) fun _ => .pure _
    | false => exact .pure _

/-- The session is under the veil, but its share is not. -/
theorem scopeShare (s : Scope) : Blind (scopeShare s : Act σ Share) := by
  have hshare : Act.scopeShare s = (Act.look (fun d : Desk σ => (d.coordinator s.coordinator).session.share?) >>=
      fun share => share.elim (Act.interrupt "edit scope outlived its session") Pure.pure) := by
    funext h d
    simp only [Act.scopeShare, look_bind]
    cases (d.coordinator s.coordinator).session.share? <;> rfl
  rw [hshare]
  refine .bind (.look _ fun d => ?_) fun share => ?_
  · rw [Desk.coordinator_veil, Coordinator.veil, Sessions.share?_veil]
  · cases share with
    | some share => exact .pure share
    | none => exact .interrupt _

theorem setAvailable (available : Bool) : Blind (setAvailable available : Act σ Unit) :=
  .bind (.look _ Desk.undoing_veil) fun _ => .bind (.did rfl) fun _ =>
    .same (fun _ => rfl) (fun _ => rfl) fun _ => rfl

theorem save : Blind (save : Act σ Unit) := by
  refine .bind (.look _ fun _ => rfl) fun wasDirty =>
    .bind (.same (fun _ => rfl) (fun _ => rfl) fun _ => rfl) fun _ => ?_
  cases wasDirty with
  | true => exact .emit _
  | false => exact .pure ()

end Blind

/-- What is done with a model by hand is blind, unless it looks under the veil. -/
theorem Public.blind {a : Act σ α} (ha : Public a) (hlook : ∀ f : Desk σ → α, a = look f → ∀ d, f d.veil = f d) :
    Blind a := by
  cases ha with
  | offBooks ha =>
    cases ha with
    | look f => exact .look f (hlook f rfl)
    | interrupt message => exact .interrupt message
    | halt => exact .halt
    | own f => exact .same (fun _ => rfl) (fun _ => rfl) fun _ => rfl
    | scopeShare s => exact .scopeShare s
    | setAvailable available => exact .setAvailable available
    | setRecordable recordable => exact .same (fun _ => rfl) (fun _ => rfl) fun _ => rfl
    | undo => exact .undo
    | save => exact .save
    | resourceDeleted => exact .emit _
    | resourceMoved target =>
      exact .bind (.look _ fun _ => rfl) fun _ =>
        .bind (.same (fun _ => rfl) (fun _ => rfl) fun _ => rfl) fun _ => .emit _
    | rebuild document =>
      exact .bind (.emit _) fun _ => .bind (.same (fun _ => rfl) (fun _ => rfl) fun _ => rfl) fun _ => .emit _
    | subscribe s listener => exact .subscribe s listener
    | unsubscribe s token => exact .unsubscribe s token
  | shareOp ha =>
    cases ha with
    | acquire access => exact .acquire access
    | release s => exact .release s
    | openBracket s => exact .openBracket s
    | closeBracket s => exact .closeBracket s
  | recordingOp ha =>
    cases ha with
    | beginRecording s owner label => exact .beginRecording s owner label
    | endRecording s owner => exact .endRecording s owner

end Act

end FormDesk

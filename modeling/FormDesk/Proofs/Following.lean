/-
Pages that follow the model. When a page was shown a document last, the model
may have held another one: listeners that were told before it may have edited.
But since then the document has not changed, unless a bracket is open: the page
has kept up (`Desk.KeptUp`). Nothing that clients do, undoing included, leaves
a page behind that follows the model (`Clients.viewing`).

A change reaches the pages when its bracket closes. So this rests on the
balance of brackets, and thereby on the depth of sessions.
-/
import FormDesk.Proofs.Balance

namespace FormDesk

variable {σ ε α : Type}

/-- The document that a deed shows to a page, and the one that the model holds then. -/
def Deed.showing? (p : PageId) : Deed → Option (Option Document × Option Document)
  | told (.pageChanged q shown) document => if q = p then some (shown, document) else none
  | _ => none

theorem Deed.showing?_told {p : PageId} {c : Callback} {document : Option Document}
    {r : Option Document × Option Document} (h : showing? p (.told c document) = some r) :
    r.2 = document := by
  unfold showing? at h
  split at h
  · next heq =>
    cases heq
    split at h
    · cases h
      rfl
    · cases h
  · cases h

namespace Desk

/-- The document that a page was shown last, and the one that the model held then. -/
def shown? (d : Desk σ) (p : PageId) : Option (Option Document × Option Document) :=
  (d.history.toList.filterMap (Deed.showing? p)).getLast?

/-- A page has kept up: when it was shown a document last, the model held the one that it holds now, unless a
bracket is open. -/
def KeptUp (d : Desk σ) (p : PageId) : Prop :=
  d.model.changing = 0 → ∃ shown, d.shown? p = some (shown, d.model.document)

/-- A page is one of a set of tabs that is in use and hears of changes. -/
structure FollowsIn (d : Desk σ) (t : TabsId) (p : PageId) : Prop where
  present : d.present (.tabs t) = true
  subscribed : ∃ s ∈ d.model.subscriptions, s.listener = .relay (.tabs t)
  page : p ∈ (d.tabsOf t).pages

/-- A page follows the model. -/
def Follows (d : Desk σ) (p : PageId) : Prop := ∃ t, d.FollowsIn t p

/-- No session is entered between two desks where the count of sessions stops growing. -/
def Shallow (d e : Desk σ) : Prop := ∃ w, e.history.toList = d.history.toList ++ w ∧ Deed.Shallow w

theorem Shallow.split {d e f : Desk σ} (h : Shallow d f) (h₁ : Grows d e) (h₂ : Grows e f) :
    Shallow d e ∧ Shallow e f := by
  obtain ⟨w, hw, hshallow⟩ := h
  obtain ⟨u, hu⟩ := h₁
  obtain ⟨v, hv⟩ := h₂
  obtain rfl : u ++ v = w := by
    rw [← hv, ← hu, List.append_assoc] at hw
    exact List.append_cancel_left hw
  exact ⟨⟨u, hu.symm, hshallow.of_subset (List.subset_append_left u v)⟩,
    ⟨v, hv.symm, hshallow.of_subset (List.subset_append_right u v)⟩⟩

/-! ## What a page was shown -/

theorem shown?_of_showing {d e : Desk σ} {deed : Deed} {p : PageId} {r : Option Document × Option Document}
    (hw : e.history.toList = d.history.toList ++ [deed]) (hr : deed.showing? p = some r) :
    e.shown? p = some r := by
  simp [shown?, hw, hr]

theorem shown?_of_other {d e : Desk σ} {w : List Deed} {p : PageId}
    (hw : e.history.toList = d.history.toList ++ w) (hn : w.filterMap (Deed.showing? p) = []) :
    e.shown? p = d.shown? p := by
  rw [shown?, hw, List.filterMap_append, hn, List.append_nil, shown?]

/-! ## Who hears of the model -/

theorem FollowsIn.held_more {d : Desk σ} {t : TabsId} {p : PageId} (h : d.FollowsIn t p) (r : Ref) :
    FollowsIn { d with held := r :: d.held } t p := by
  refine ⟨?_, h.subscribed, h.page⟩
  have hpresent := h.present
  simp only [Desk.present, List.contains_cons, Bool.or_eq_true] at hpresent ⊢
  exact .inr hpresent

/-- Those who hear of the model, and how they do, are as they were. -/
structure SameAudience (d e : Desk σ) : Prop where
  subscriptions : e.model.subscriptions = d.model.subscriptions
  tabs : e.tabs = d.tabs
  held : e.held = d.held
  relays : e.relays = d.relays
  editors : e.editors = d.editors

theorem SameAudience.path : Path (SameAudience (σ := σ)) where
  refl _ := ⟨rfl, rfl, rfl, rfl, rfl⟩
  trans h h' := ⟨h'.subscriptions.trans h.subscriptions, h'.tabs.trans h.tabs, h'.held.trans h.held,
    h'.relays.trans h.relays, h'.editors.trans h.editors⟩

theorem SameAudience.followsIn {d e : Desk σ} (h : SameAudience d e) {t : TabsId} {p : PageId}
    (hf : d.FollowsIn t p) :
    e.FollowsIn t p where
  present := by
    rw [Desk.present, h.held]
    exact hf.present
  subscribed := by
    rw [h.subscriptions]
    exact hf.subscribed
  page := by
    rw [tabsOf, h.tabs]
    exact hf.page

theorem SameAudience.follows {d e : Desk σ} (h : SameAudience d e) {p : PageId} : d.Follows p → e.Follows p
  | ⟨t, hf⟩ => ⟨t, h.followsIn hf⟩

theorem SameAudience.held_again {d e : Desk σ} {r : Ref} (h : SameAudience { d with held := r :: d.held } e) :
    SameAudience d { e with held := e.held.erase r } :=
  ⟨h.subscriptions, h.tabs, by simp [h.held], h.relays, h.editors⟩

theorem Step.sameAudience {d e : Desk σ} (h : Step d e) : SameAudience d e := by
  cases h with
  | acquire h =>
    obtain ⟨-, rfl, rfl⟩ := Model.acquire_ok h
    exact ⟨rfl, rfl, rfl, rfl, rfl⟩
  | release h =>
    obtain ⟨-, rfl⟩ := Model.release?_some h
    exact ⟨rfl, rfl, rfl, rfl, rfl⟩
  | openBracket h =>
    obtain ⟨-, -, rfl⟩ := Model.openBracket_ok h
    cases hn : d.model.changing <;> exact ⟨rfl, rfl, rfl, rfl, rfl⟩
  | closeBracket h =>
    obtain ⟨-, n, -, rfl⟩ := Model.closeBracket_ok h
    cases n <;> exact ⟨rfl, rfl, rfl, rfl, rfl⟩
  | takeDocument h =>
    obtain ⟨-, -, -, rfl⟩ := Model.takeDocument_ok h
    exact ⟨rfl, rfl, rfl, rfl, rfl⟩
  | putDocument | lost | dirtied | told | threw | client | starting | entered | left | runs | ran | session | opened =>
    exact ⟨rfl, rfl, rfl, rfl, rfl⟩

theorem Recorded.sameAudience {d e : Desk σ} (h : Recorded d e) : SameAudience d e := by
  cases h with
  | beginRecording h =>
    obtain ⟨-, -, -, rfl⟩ := Model.beginRecording_ok h
    exact ⟨rfl, rfl, rfl, rfl, rfl⟩
  | endRecording h =>
    obtain ⟨-, r, -, rfl⟩ := Model.endRecording_ok h
    unfold Model.recordingEnded
    split <;> exact ⟨rfl, rfl, rfl, rfl, rfl⟩
  | began | finished | edits | edited | depth => exact ⟨rfl, rfl, rfl, rfl, rfl⟩

/-! ## What a page does not see -/

/-- Nothing was done that has to do with what pages are shown. -/
structure SameViews (d e : Desk σ) : Prop where
  sameAudience : SameAudience d e
  document : e.model.document = d.model.document
  changing : e.model.changing = d.model.changing
  shown : ∀ p, e.shown? p = d.shown? p

theorem SameViews.path : Path (SameViews (σ := σ)) where
  refl d := ⟨SameAudience.path.refl d, rfl, rfl, fun _ => rfl⟩
  trans h h' := ⟨SameAudience.path.trans h.sameAudience h'.sameAudience, h'.document.trans h.document,
    h'.changing.trans h.changing, fun p => (h'.shown p).trans (h.shown p)⟩

theorem SameViews.keptUp {d e : Desk σ} (h : SameViews d e) {p : PageId} (hp : d.KeptUp p) : e.KeptUp p := by
  rw [KeptUp, h.changing, h.document, h.shown]
  exact hp

/-- A deed that shows nothing. -/
theorem SameViews.enter (d : Desk σ) {deed : Deed} (hn : ∀ p, deed.showing? p = none) :
    SameViews d (d.enter deed) :=
  ⟨⟨rfl, rfl, rfl, rfl, rfl⟩, rfl, rfl, fun p => shown?_of_other (d.toList_enter deed) (by simp [hn p])⟩

theorem Visit.sameViews {d e : Desk σ} (h : Visit d e) : SameViews d e := by
  refine ⟨h.step.sameAudience, ?_, ?_, fun p => ?_⟩
  all_goals
    cases h with
    | acquire h =>
      obtain ⟨-, rfl, rfl⟩ := Model.acquire_ok h
      first | rfl | exact shown?_of_other (toList_accepted ..) rfl
    | release h =>
      obtain ⟨-, rfl⟩ := Model.release?_some h
      first | rfl | exact shown?_of_other (toList_accepted ..) rfl
    | client s => rfl

theorem Recorded.sameViews {d e : Desk σ} (h : Recorded d e) : SameViews d e := by
  refine ⟨h.sameAudience, ?_, ?_, fun p => ?_⟩
  all_goals
    cases h with
    | beginRecording h =>
      obtain ⟨-, -, -, rfl⟩ := Model.beginRecording_ok h
      first | rfl | exact shown?_of_other (toList_accepted ..) rfl
    | endRecording h =>
      obtain ⟨-, r, -, rfl⟩ := Model.endRecording_ok h
      unfold Model.recordingEnded
      split <;> first | rfl | exact shown?_of_other (toList_accepted ..) rfl
    | began | finished | edits | edited => first | rfl | exact shown?_of_other (toList_enter ..) rfl
    | depth => rfl

/-! ## Keeping up -/

/-- Between two desks the books are balanced, and no page that follows the model falls behind. -/
structure Viewing (n : Nat) (d e : Desk σ) : Prop where
  grows : Grows d e
  balanced : Balanced n d e
  sameAudience : SameAudience d e
  keptUp : d.books.Sound n → Shallow d e → ∀ p, d.Follows p → d.KeptUp p → e.KeptUp p

theorem Balanced.sound {n : Nat} {d e : Desk σ} (h : Balanced n d e) (hd : d.books.Sound n) :
    e.books.Sound n := by
  obtain ⟨w, -, hw⟩ := h hd
  exact hw.sound

/-- Where the count of sessions does not stop growing, brackets are balanced. -/
theorem Balanced.changing {n : Nat} {d e : Desk σ} (h : Balanced n d e) (hd : d.books.Sound n)
    (hshallow : Shallow d e) : e.model.changing = d.model.changing := by
  obtain ⟨w, hw, hbalanced⟩ := h hd
  obtain ⟨v, hv, hshallow⟩ := hshallow
  obtain rfl : v = w := List.append_cancel_left (hv.symm.trans hw)
  have hsessions : e.books.sessions = d.books.sessions := by
    refine List.ext_getElem? fun c => ?_
    have hsame := (hbalanced.settled c).same hshallow
    have hlength : e.books.sessions.length = d.books.sessions.length := by
      rw [hbalanced.sound.size, hd.size]
    by_cases hc : c < d.books.sessions.length
    · simpa [Books.session, hc, hlength ▸ hc] using hsame
    · rw [List.getElem?_eq_none (Nat.le_of_not_lt hc), List.getElem?_eq_none (by omega)]
  have hchanging : e.model.changing + d.books.active = d.model.changing + e.books.active := hbalanced.changing
  have hactive : e.books.active = d.books.active := by rw [Books.active, hsessions, Books.active]
  omega

/-- While a bracket is open every page has kept up. -/
theorem Viewing.of_closed {n : Nat} {d e : Desk σ} (hg : Grows d e) (hb : Balanced n d e) (hf : SameAudience d e)
    (h : d.books.Sound n → Shallow d e → d.model.changing = 0 →
      ∀ p, d.Follows p → d.KeptUp p → e.KeptUp p) :
    Viewing n d e := by
  refine ⟨hg, hb, hf, fun hd hshallow p hfollows hp => ?_⟩
  by_cases hclosed : d.model.changing = 0
  · exact h hd hshallow hclosed p hfollows hp
  · intro hclosed'
    exact absurd ((hb.changing hd hshallow).symm.trans hclosed') hclosed

theorem Viewing.path (n : Nat) : Path (Viewing (σ := σ) n) where
  refl d := ⟨Grows.path.refl d, (Balanced.path n).refl d, SameAudience.path.refl d, fun _ _ _ _ hp => hp⟩
  trans h h' := by
    refine ⟨h.grows.trans h'.grows, (Balanced.path n).trans h.balanced h'.balanced,
      SameAudience.path.trans h.sameAudience h'.sameAudience, fun hd hshallow p hf hp => ?_⟩
    obtain ⟨h₁, h₂⟩ := hshallow.split h.grows h'.grows
    exact h'.keptUp (h.balanced.sound hd) h₂ p (h.sameAudience.follows hf) (h.keptUp hd h₁ p hf hp)

theorem Viewing.held_again {n : Nat} {d e : Desk σ} {r : Ref}
    (h : Viewing n { d with held := r :: d.held } e) :
    Viewing n d { e with held := e.held.erase r } where
  grows := h.grows
  balanced := h.balanced
  sameAudience := h.sameAudience.held_again
  keptUp hd hshallow p hf hp := by
    obtain ⟨t, hf⟩ := hf
    exact h.keptUp hd hshallow p ⟨t, hf.held_more r⟩ hp

/-- What is not seen leaves nobody behind. -/
theorem SameViews.viewing {n : Nat} {d e : Desk σ} (h : SameViews d e) (hb : Calmly (Balanced n) d e) :
    Calmly (Viewing n) d e :=
  ⟨hb.1, fun hcalm => ⟨hb.1, hb.2 hcalm, h.sameAudience, fun _ _ _ _ hp => h.keptUp hp⟩⟩

/-- An entry in the history that has to do with no share and shows nothing. -/
theorem viewing_enter {n : Nat} (d : Desk σ) {deed : Deed} (hmentions : ∀ i, deed.mentions i = false)
    (hshowing : ∀ p, deed.showing? p = none) : Calmly (Viewing n) d (d.enter deed) :=
  (SameViews.enter d hshowing).viewing (calmly_other (d.toList_enter _) rfl hmentions)

/-- Nobody falls behind, and a page that follows the model in the tabs `t` catches up. -/
def Sees (n : Nat) (t : TabsId) (p : PageId) (d e : Desk σ) : Prop :=
  Viewing n d e ∧ (d.books.Sound n → Shallow d e → d.FollowsIn t p → e.KeptUp p)

theorem Sees.before {n : Nat} {t : TabsId} {p : PageId} {d e f : Desk σ} (h : Viewing n d e)
    (h' : Sees n t p e f) :
    Sees n t p d f := by
  refine ⟨(Viewing.path n).trans h h'.1, fun hd hshallow hf => ?_⟩
  exact h'.2 (h.balanced.sound hd) (hshallow.split h.grows h'.1.grows).2 (h.sameAudience.followsIn hf)

theorem Sees.after {n : Nat} {t : TabsId} {p : PageId} {d e f : Desk σ} (h : Sees n t p d e)
    (h' : Viewing n e f) :
    Sees n t p d f := by
  refine ⟨(Viewing.path n).trans h.1 h', fun hd hshallow hf => ?_⟩
  obtain ⟨h₁, h₂⟩ := hshallow.split h.1.grows h'.grows
  exact h'.keptUp (h.1.balanced.sound hd) h₂ p ⟨t, h.1.sameAudience.followsIn hf⟩ (h.2 hd h₁ hf)

theorem Sees.held_again {n : Nat} {t : TabsId} {p : PageId} {d e : Desk σ} {r : Ref}
    (h : Sees n t p { d with held := r :: d.held } e) : Sees n t p d { e with held := e.held.erase r } :=
  ⟨h.1.held_again, fun hd hshallow hf => h.2 hd hshallow (hf.held_more r)⟩

theorem Viewing.sees {n : Nat} {t : TabsId} {p : PageId} {d e : Desk σ} (h : Viewing n d e)
    (hn : ¬ d.FollowsIn t p) : Sees n t p d e := ⟨h, fun _ _ hf => absurd hf hn⟩

end Desk

namespace Act

open Desk (Calmly Balanced Calm Grows SameAudience SameViews Viewing Sees Shallow)

variable {n : Nat} {h : Host σ}

theorem viewing_of_sameViews {a : Act σ α} (hb : Within (Calmly (Balanced n)) h a) (hu : Within SameViews h a) :
    Within (Calmly (Viewing n)) h a := fun d => (hu d).viewing (hb d)

/-! ## Who hears of the model stays -/

section

variable (hc : ∀ c d, Calmly SameAudience d (h.answer c d).2)

include hc

theorem deliver_sameAudience (event : Event) (l : Listener) : Within (Calmly SameAudience) h (deliver event l) := by
  have hR := Calmly.path (σ := σ) SameAudience.path
  have hg := fun c d => (hc c d).1
  have hcall := call_within hR (fun d c => ⟨d.grows_enter _, fun _ => (Desk.Step.told c).sameAudience⟩)
    (fun d c => ⟨d.grows_enter _, fun _ => (Desk.Step.threw c).sameAudience⟩) hc
  exact deliver_holding_within hR hcall (fun o event hnotify =>
    holding_calmly (notify_returns hg o event).noFatal hnotify fun _ _ => SameAudience.held_again) event l

end

/-! ## Events -/

section

theorem told_viewing (d : Desk σ) (c : Callback) :
    Calmly (Viewing n) d (d.enter (.told c d.model.document)) := by
  have hb : Calmly (Balanced n) d (d.enter (.told c d.model.document)) :=
    Desk.calmly_other (d.toList_enter _) rfl fun _ => rfl
  refine ⟨hb.1, fun hcalm => ⟨hb.1, hb.2 hcalm, (Desk.Step.told c).sameAudience, fun _ _ p _ hp hclosed => ?_⟩⟩
  cases hshown : Deed.showing? p (.told c d.model.document) with
  | none =>
    rw [Desk.shown?_of_other (d.toList_enter _) (by simp [hshown])]
    exact hp hclosed
  | some r =>
    have hr := Deed.showing?_told hshown
    rw [Desk.shown?_of_showing (d.toList_enter _) hshown]
    exact ⟨r.1, congrArg some (Prod.ext rfl hr)⟩

variable (hc : ∀ c d, Calmly (Viewing n) d (h.answer c d).2)

include hc

theorem call_viewing (c : Callback) : Within (Calmly (Viewing n)) h (call c) := by
  refine call_within (Calmly.path (Viewing.path n)) told_viewing (fun d c => ?_) hc c
  exact Desk.viewing_enter d (fun _ => rfl) fun _ => rfl

theorem deliver_viewing (event : Event) (l : Listener) : Within (Calmly (Viewing n)) h (deliver event l) := by
  have hg := fun c d => (hc c d).1
  refine deliver_holding_within (Calmly.path (Viewing.path n)) (call_viewing hc)
    (fun o event hnotify => ?_) event l
  exact holding_calmly (notify_returns hg o event).noFatal hnotify fun _ _ => Viewing.held_again

theorem emit_viewing (event : Event) : Within (Calmly (Viewing n)) h (emit event) := fun d =>
  emit_within (Calmly.path (Viewing.path n)) (deliver_viewing hc) <|
    Desk.viewing_enter d (fun _ => rfl) fun _ => rfl

/-- A page that is shown a document has kept up, whatever it does then. -/
theorem call_sees (t : TabsId) (p : PageId) (document : Option Document) :
    Within (Calmly (Sees n t p)) h (call (.pageChanged p document)) := by
  have hg := fun c d => (hc c d).1
  intro d
  refine ⟨(call_viewing hc _ d).1, fun hcalm => ?_⟩
  have hrun := (call_viewing hc _ d).2 hcalm
  have hdesk := call_desk hg hcalm
  refine ⟨hrun, fun hd hshallow hf => ?_⟩
  rw [hdesk] at hcalm hshallow ⊢
  have htold := d.grows_enter (.told (.pageChanged p document) d.model.document)
  have hanswer := hc (.pageChanged p document) (d.enter (.told (.pageChanged p document) d.model.document))
  refine (hanswer.2 (hcalm.split htold hanswer.1).2).keptUp hd
    (hshallow.split htold hanswer.1).2 p ?_ fun _ => ?_
  · exact ⟨t, (Desk.Step.told (.pageChanged p document)).sameAudience.followsIn hf⟩
  · exact ⟨document, Desk.shown?_of_showing (d.toList_enter _) (by simp [Deed.showing?])⟩

theorem notify_sees (t : TabsId) (p : PageId) (document : Option Document) :
    Within (Calmly (Sees n t p)) h (notify (.tabs t) (.changed document)) := by
  have hR := Viewing.path (σ := σ) n
  have hg := fun c d => (hc c d).1
  intro d
  by_cases hp : p ∈ (d.tabsOf t).pages
  · exact each_calmly (S := Sees n t p) (f := fun page => call (.pageChanged page document)) hR
      Sees.before Sees.after
      (fun _ => call_returns hg _) (fun _ => call_viewing hc _) (call_sees hc t p document) hp d
  · have hrun := notify_within (Calmly.path hR) (call_viewing hc) (.tabs t) (.changed document) d
    exact ⟨hrun.1, fun hcalm => (hrun.2 hcalm).sees fun hf => hp hf.page⟩

theorem notifyPresent_sees (t : TabsId) (p : PageId) (document : Option Document) :
    Within (Calmly (Sees n t p)) h (notifyPresent (.tabs t) (.changed document)) := by
  have hg := fun c d => (hc c d).1
  intro d
  cases hpresent : d.present (.tabs t) with
  | true =>
    have hrun : notifyPresent (.tabs t) (.changed document) h d =
        (do
          hold (Observer.tabs t).ref
          ensure (notify (.tabs t) (.changed document)) (unhold (Observer.tabs t).ref) :
          Act σ Unit) h d := by
      simp [notifyPresent, hpresent]
    rw [hrun]
    exact holding_calmly (notify_returns hg _ _).noFatal (notify_sees hc t p document)
      (fun _ _ => Sees.held_again) d
  | false =>
    have hrun := deliver_viewing hc (.changed document) (.relay (.tabs t)) d
    refine ⟨hrun.1, fun hcalm => (hrun.2 hcalm).sees fun hf => ?_⟩
    rw [hf.present] at hpresent
    cases hpresent

/-- A page that follows the model has kept up when a change has been announced: no listener that is told before
can keep the announcement from it, and whatever is done after it is shown a document does not leave it behind. -/
theorem emit_sees (t : TabsId) (p : PageId) (document : Option Document) :
    Within (Calmly (Sees n t p)) h (emit (.changed document)) := by
  have hR := Viewing.path (σ := σ) n
  have hg := fun c d => (hc c d).1
  intro d
  by_cases hf : d.FollowsIn t p
  · obtain ⟨s, hs, hlistener⟩ := hf.subscribed
    have hrest := each_calmly (S := Sees n t p) hR Sees.before Sees.after
      (fun s => deliver_returns hg (.changed document) s.listener)
      (fun s => deliver_viewing hc (.changed document) s.listener)
      (hlistener ▸ notifyPresent_sees hc t p document) hs
      (d.enter (.emitted (.changed document)))
    have hfirst : Calmly (Viewing n) d (d.enter (.emitted (.changed document))) :=
      Desk.viewing_enter d (fun _ => rfl) fun _ => rfl
    exact hfirst.comp Sees.before hrest
  · have hrun := emit_viewing hc (.changed document) d
    exact ⟨hrun.1, fun hcalm => (hrun.2 hcalm).sees hf⟩

/-! ## Sessions -/

omit hc in
/-- Where no bracket is open nothing is mutated. -/
theorem mutateIn_closed (s : Scope) (f : Document → Act σ (α × Document)) {d : Desk σ}
    (hclosed : d.model.changing = 0) : (mutateIn s f h d).2 = d := by
  cases hs : (d.coordinator s.coordinator).session with
  | idle =>
    obtain ⟨message, hrun⟩ := scopeShare_idle (h := h) hs
    rw [mutateIn, bind_interrupted hrun]
  | active inner share =>
    rw [mutateIn, bind_run (scopeShare_run hs)]
    simp only [mutate, look_bind]
    cases heq : d.model.takeDocument share with
    | error e => rfl
    | ok taken =>
      obtain ⟨-, hopen, -⟩ := Model.takeDocument_ok heq
      exact absurd hclosed (Nat.ne_of_gt hopen)

omit hc in
theorem startWith_refused {c : CoordinatorId} {s : Share} {d d' : Desk σ} {e : SessionError}
    (hrun : startWith c s h d = (.returned (.error e), d')) : SameViews d d' := by
  obtain ⟨e, hopen⟩ := startWith_error hrun
  have hback : Within SameViews h (release s) :=
    release_within SameViews.path (fun _ _ hvisit => hvisit.sameViews) s
  rw [startWith, bind_run (onInterrupt_run (openBracket_refused hopen))] at hrun
  have hafter := Within.bind_at SameViews.path (hback d) fun _ =>
    Within.pure SameViews.path (Except.error (SessionError.modelUnavailable e) : Except SessionError Unit)
  exact Eq.subst (motive := SameViews d) (congrArg Prod.snd hrun) hafter

omit hc in
/-- A session that cannot be opened is not seen. -/
theorem openSession_refused {c : CoordinatorId} {d d' : Desk σ} {e : SessionError}
    (hidle : (d.coordinator c).session = .idle) (hrun : openSession c h d = (.returned (.error e), d')) :
    SameViews d d' := by
  rw [openSession_idle hidle, startSession] at hrun
  cases hacquire : d.model.acquire .edit with
  | error e =>
    rw [bind_run (acquire_refused hacquire)] at hrun
    cases hrun
    exact SameViews.path.refl d
  | ok taken =>
    rw [bind_run (acquire_run hacquire)] at hrun
    have hstarting : SameViews _ ((d.accepted taken.1 (.acquire .edit) taken.2).enter (.starting c taken.1.id)) :=
      SameViews.enter _ fun _ => rfl
    exact SameViews.path.trans (SameViews.path.trans (Desk.Visit.acquire hacquire).sameViews hstarting)
      (startWith_refused hrun)

theorem closeBracket_keptUp {c : CoordinatorId} {d : Desk σ} {s : Share} (hd : d.books.Sound n)
    (hsession : d.books.session c = .active 0 s) (hcalm : Calm d (closeBracket s h (d.withSession c .idle)).2)
    (hshallow : Shallow d (closeBracket s h (d.withSession c .idle)).2) {p : PageId} (hf : d.Follows p)
    (hp : d.KeptUp p) : (closeBracket s h (d.withSession c .idle)).2.KeptUp p := by
  cases hclose : (d.withSession c .idle).model.closeBracket s with
  | error n =>
    rw [closeBracket_refused hclose]
    exact hp
  | ok m =>
    have hsound : ((d.withSession c .idle).accepted s .changed m).books.Sound n :=
      Desk.books_closed hclose ▸ hd.unbracket hsession
    have hgrows := (d.withSession c .idle).grows_accepted s .changed m
    have haudience : SameAudience d ((d.withSession c .idle).accepted s .changed m) := by
      obtain ⟨-, k, -, rfl⟩ := Model.closeBracket_ok hclose
      exact ⟨rfl, rfl, rfl, rfl, rfl⟩
    simp only [closeBracket, look_bind, hclose, accept_bind] at hcalm hshallow ⊢
    by_cases hlast : m.changing = 0
    · simp only [hlast, if_true] at hcalm hshallow ⊢
      obtain ⟨t, hf⟩ := haudience.follows hf
      have hran := emit_sees hc t p m.document ((d.withSession c .idle).accepted s .changed m)
      exact (hran.2 (hcalm.split hgrows hran.1).2).2 hsound (hshallow.split hgrows hran.1).2 hf
    · simp only [hlast, if_false, pure_run]
      exact fun hclosed => absurd hclosed hlast

theorem leaveSession_keptUp {c : CoordinatorId} {d : Desk σ} (hd : d.books.Sound n)
    (hcalm : Calm d (leaveSession c h d).2) (hshallow : Shallow d (leaveSession c h d).2) {p : PageId}
    (hf : d.Follows p) (hp : d.KeptUp p) : (leaveSession c h d).2.KeptUp p := by
  have hsession := d.session_books c
  have hleft : SameViews d (d.enter (.left c)) := SameViews.enter d fun _ => rfl
  have hviews (s : Sessions) : SameViews d ((d.enter (.left c)).withSession c s) :=
    SameViews.path.trans hleft ⟨(Desk.Step.session c s).sameAudience, rfl, rfl, fun _ => rfl⟩
  cases hs : (d.coordinator c).session with
  | idle =>
    rw [leaveSession_idle hs]
    exact (hviews .idle).keptUp hp
  | active inner s =>
    rw [hs] at hsession
    cases inner with
    | succ inner =>
      rw [leaveSession_nested hs]
      exact (hviews (.active inner s)).keptUp hp
    | zero =>
      have hclosed := (closeBracket_returns (fun c d => (hc c d).1) s).noFatal
      have hback : Within SameViews h (release s) :=
        release_within SameViews.path (fun _ _ hvisit => hvisit.sameViews) s
      rw [leaveSession_outermost hs] at hcalm hshallow ⊢
      have hgrows := d.grows_enter (.left c)
      have hensured := Within.ensure Grows.path hclosed.grows (release_returns s).grows
        ((d.enter (.left c)).withSession c .idle)
      obtain ⟨hdesk, hcalm₁, -⟩ :=
        hclosed.ensure_desk (release_returns s).grows (hcalm.split hgrows hensured).2
      have hshallow := (hshallow.split hgrows hensured).2
      rw [hdesk] at hshallow ⊢
      have hshallow₁ := (hshallow.split (hclosed.grows ((d.enter (.left c)).withSession c .idle))
        ((release_returns s).grows _)).1
      exact (hback _).keptUp (closeBracket_keptUp (d := d.enter (.left c)) hc hd hsession hcalm₁ hshallow₁
        (hleft.sameAudience.follows hf) (hleft.keptUp hp))

theorem balanced_of_viewing (c : Callback) (d : Desk σ) : Calmly (Balanced n) d (h.answer c d).2 :=
  (hc c d).imp fun _ => Viewing.balanced

theorem sameAudience_of_viewing (c : Callback) (d : Desk σ) : Calmly SameAudience d (h.answer c d).2 :=
  (hc c d).imp fun _ => Viewing.sameAudience

theorem edit_keptUp {c : CoordinatorId} (hcn : c < n) {mutation : Scope → Act σ (Except ε α)}
    (hnoFatal : NoFatal h (mutation ⟨c⟩)) (hm : Within (Calmly (Viewing n)) h (mutation ⟨c⟩)) {d : Desk σ}
    (hd : d.books.Sound n) (hclosed : d.model.changing = 0) (hcalm : Calm d (edit c mutation h d).2)
    (hshallow : Shallow d (edit c mutation h d).2) {p : PageId} (hf : d.Follows p) (hp : d.KeptUp p) :
    (edit c mutation h d).2.KeptUp p := by
  have hg := fun c d => (hc c d).1
  have hidle : (d.coordinator c).session = .idle := by
    cases hs : (d.coordinator c).session with
    | idle => rfl
    | active inner s =>
      have hopen := hd.changing_pos ((d.session_books c).trans hs)
      exact absurd hclosed (Nat.ne_of_gt hopen)
  obtain ⟨e, d₁, hopen, hcalm₁, hrun⟩ | ⟨d₁, hopen, hcalm₁, hcalm₂, hcalm₃, hrun⟩ := edit_parts hg hnoFatal hcalm
  · rw [hrun]
    exact (openSession_refused hidle hopen).keptUp hp
  obtain ⟨w, hnear, hentered⟩ :=
    openSession_near (balanced_of_viewing hc) hcn hd (by rw [hopen]; exact hcalm₁)
  have haudience := (openSession_within (Calmly.path SameAudience.path)
    (fun _ _ hstep => ⟨hstep.grows, fun _ => hstep.sameAudience⟩)
    (deliver_sameAudience (sameAudience_of_viewing hc)) c d).2
  rw [hopen] at hnear hentered haudience
  obtain ⟨_, he, -⟩ | ⟨-, hin⟩ := hentered
  · cases he
  -- The session has a bracket now, so every page has kept up until the session closes it.
  have hopen₁ : 0 < d₁.model.changing := by
    generalize d.books.session c = s at hin
    generalize hs₁ : d₁.books.session c = s₁ at hin
    cases hin with
    | outermost | nested => exact hnear.kept.sound.changing_pos hs₁
  have hran : Within (Calmly (Viewing n)) h (between (.runs c) (.ran c) (mutation ⟨c⟩)) :=
    .between (Calmly.path (Viewing.path n)) hm (fun d => Desk.viewing_enter d (fun _ => rfl) fun _ => rfl)
      fun d => Desk.viewing_enter d (fun _ => rfl) fun _ => rfl
  have hmutated := (hran d₁).2 hcalm₂
  have hleft := (leaveSession_returns hg c).grows (between (.runs c) (.ran c) (mutation ⟨c⟩) h d₁).2
  rw [hrun] at hshallow ⊢
  obtain ⟨hshallow₁, hshallow₃⟩ :=
    hshallow.split (Grows.path.trans ⟨w, hnear.deeds.symm⟩ hmutated.grows) hleft
  have hshallow₂ := (hshallow₁.split ⟨w, hnear.deeds.symm⟩ hmutated.grows).2
  have hfollows := (haudience hcalm₁).follows hf
  exact leaveSession_keptUp hc (hmutated.balanced.sound hnear.kept.sound) hcalm₃ hshallow₃
    (hmutated.sameAudience.follows hfollows)
    (hmutated.keptUp hnear.kept.sound hshallow₂ p hfollows fun hclosed₁ =>
      absurd hclosed₁ (Nat.ne_of_gt hopen₁))

theorem edit_viewing {c : CoordinatorId} (hcn : c < n) {mutation : Scope → Act σ (Except ε α)}
    (hnoFatal : NoFatal h (mutation ⟨c⟩)) (hm : Within (Calmly (Viewing n)) h (mutation ⟨c⟩)) :
    Within (Calmly (Viewing n)) h (edit c mutation) := by
  have hb := edit_balanced (balanced_of_viewing hc) hcn hnoFatal fun d => (hm d).imp fun _ => Viewing.balanced
  have hf := edit_within (Calmly.path SameAudience.path)
    (fun _ _ hstep => ⟨hstep.grows, fun _ => hstep.sameAudience⟩)
    (deliver_sameAudience (sameAudience_of_viewing hc)) c fun d => (hm d).imp fun _ => Viewing.sameAudience
  refine fun d => ⟨(hb d).1, fun hcalm => .of_closed (hb d).1 ((hb d).2 hcalm) ((hf d).2 hcalm) ?_⟩
  exact fun hd hshallow hclosed p hfollows hp =>
    edit_keptUp hc hcn hnoFatal hm hd hclosed hcalm hshallow hfollows hp

theorem mutateIn_viewing (s : Scope) {f : Document → Act σ (α × Document)}
    (hm : ∀ document, Within (Calmly (Viewing n)) h (f document)) :
    Within (Calmly (Viewing n)) h (mutateIn s f) := by
  have hb := mutateIn_balanced (balanced_of_viewing hc) s fun document d =>
    (hm document d).imp fun _ => Viewing.balanced
  have hf := mutateIn_within (Calmly.path SameAudience.path)
    (fun _ _ hstep => ⟨hstep.grows, fun _ => hstep.sameAudience⟩)
    (deliver_sameAudience (sameAudience_of_viewing hc)) s
    fun document d => (hm document d).imp fun _ => Viewing.sameAudience
  refine fun d => ⟨(hb d).1, fun hcalm => .of_closed (hb d).1 ((hb d).2 hcalm) ((hf d).2 hcalm) ?_⟩
  intro _ _ hclosed p _ hp
  rwa [mutateIn_closed s f hclosed]

theorem undoableEdit_viewing {c : CoordinatorId} (hcn : c < n) (label : Option String)
    {mutation : Scope → Act σ (Except ε α)} (hnoFatal : NoFatal h (mutation ⟨c⟩))
    (hm : Within (Calmly (Viewing n)) h (mutation ⟨c⟩)) :
    Within (Calmly (Viewing n)) h (undoableEdit c label mutation) := by
  have hR := Calmly.path (Viewing.path (σ := σ) n)
  have hv : ∀ d e : Desk σ, Desk.Visit d e → SameViews d e := fun _ _ => Desk.Visit.sameViews
  have hr : ∀ d e : Desk σ, Desk.Recorded d e → SameViews d e := fun _ _ => Desk.Recorded.sameViews
  have hedit := edit_viewing hc hcn hnoFatal hm
  have hrun : Within (Calmly (Viewing n)) h (between (.edits c) (.edited c) (edit c mutation)) :=
    .between hR hedit (fun d => Desk.viewing_enter d (fun _ => rfl) fun _ => rfl)
      fun d => Desk.viewing_enter d (fun _ => rfl) fun _ => rfl
  have hdepth (f : Nat → Nat) : Within (Calmly (Viewing n)) h (changeUndoDepth c f) := fun d =>
    (Desk.Recorded.depth c f).sameViews.viewing (Desk.calmly_still rfl (d.books_undoDepth c f))
  refine Within.bind hR (Within.look hR _) fun depth => ?_
  by_cases hdeep : depth > 0
  · simp only [hdeep, if_true]
    exact Within.bind hR (hdepth _) fun _ => Within.ensure hR hedit (hdepth _)
  · simp only [hdeep, if_false]
    refine Within.bind hR (Within.look hR _) fun before => Within.bind hR
      (viewing_of_sameViews (startRecording_balanced label) (startRecording_within SameViews.path hv hr c label))
      fun started => ?_
    cases started with
    | error source =>
      refine Within.bind hR (Within.look hR _) fun tag =>
        Within.bind hR (fun d => ?_) fun _ => Within.pure hR _
      exact (Desk.Visit.client _).sameViews.viewing (Desk.calmly_still rfl rfl)
    | ok _ =>
      refine Within.bind hR (fun d => ?_) fun _ => Within.bind hR (hdepth _) fun _ =>
        Within.ensure hR hrun (Within.bind hR (hdepth _) fun _ =>
          viewing_of_sameViews finishRecording_balanced (finishRecording_within SameViews.path hv hr c))
      exact Desk.viewing_enter d (fun _ => rfl) fun _ => rfl

/-! ## Undoing -/

/-- An undo exchanges the document and announces it, so every page has kept up in the end. -/
theorem undo_viewing : Within (Calmly (Viewing n)) h undo := by
  have hR := Calmly.path (Viewing.path (σ := σ) n)
  intro d
  simp only [undo, look_bind]
  by_cases hbarred : d.model.undoBarred = true
  · simp only [hbarred, if_true]
    exact (Desk.Visit.client _).sameViews.viewing (Desk.calmly_still rfl rfl)
  simp only [hbarred, Bool.false_eq_true, if_false]
  cases hpop : d.model.popUndo? with
  | none => exact hR.refl d
  | some popped =>
    obtain ⟨entry, m⟩ := popped
    obtain ⟨rest, -, rfl⟩ := Model.popUndo?_some hpop
    have hpopped : Calmly (Viewing n) d { d with model := { d.model with undoStack := rest } } :=
      SameViews.viewing ⟨⟨rfl, rfl, rfl, rfl, rfl⟩, rfl, rfl, fun _ => rfl⟩ (Desk.calmly_still rfl rfl)
    simp only [setModel, change_bind]
    refine Within.bind_at hR (hR.trans hpopped (emit_viewing hc _ _)) fun _ d => ?_
    simp only [look_bind, change_bind]
    rw [bind_desk fun _ _ => rfl]
    -- Whatever the document was, from here on everybody is told of the one that was restored.
    have hran (t : TabsId) (p : PageId) := emit_sees hc t p (d.model.restore entry).2.document
      { d with model := (d.model.restore entry).2 }
    have haudience : SameAudience d { d with model := (d.model.restore entry).2 } := ⟨rfl, rfl, rfl, rfl, rfl⟩
    have hstill : Calmly (Balanced n) d { d with model := (d.model.restore entry).2 } :=
      Desk.calmly_still rfl rfl
    refine ⟨(hran 0 0).1, fun hcalm => ?_⟩
    have hrun := ((hran 0 0).2 hcalm).1
    exact ⟨(hran 0 0).1, (Balanced.path n).trans (hstill.2 (.refl d)) hrun.balanced,
      SameAudience.path.trans haudience hrun.sameAudience, fun hd hshallow p ⟨t, hf⟩ _ =>
        ((hran t p).2 hcalm).2 hd hshallow (haudience.followsIn hf)⟩

/-! ## What is passed on -/

/-- Editing passes on that a calm run leaves nobody behind and is not fatal. -/
theorem Passed.viewing : Passed n (fun a => NoFatal h a ∧ Within (Calmly (Viewing n)) h a) := by
  have hR := Calmly.path (Viewing.path (σ := σ) n)
  have hnoFatal := Passed.noFatal (fun c d => (hc c d).1) n
  exact {
    pure := fun a => ⟨hnoFatal.pure a, Within.pure hR a⟩
    bind := fun hx hf => ⟨hnoFatal.bind hx.1 fun a => (hf a).1, Within.bind hR hx.2 fun a => (hf a).2⟩
    attempt := fun hx => ⟨hnoFatal.attempt hx.1, Within.attempt hx.2⟩
    mutate := fun s _ hf =>
      ⟨hnoFatal.mutate s fun document => (hf document).1, mutateIn_viewing hc s fun document => (hf document).2⟩
    edit := fun hid hm => ⟨hnoFatal.edit hid hm.1, edit_viewing hc hid hm.1 hm.2⟩
    undoable := fun label _ hid hm =>
      ⟨hnoFatal.undoable label hid hm.1, undoableEdit_viewing hc hid label hm.1 hm.2⟩ }

end

theorem SwitchOp.viewing {a : Act σ α} (ha : SwitchOp a) : Within (Calmly (Viewing n)) h a := by
  refine viewing_of_sameViews ha.balanced.2 ?_
  cases ha with
  | look f => exact Within.look SameViews.path f
  | interrupt message => exact Within.interrupt SameViews.path message
  | own f => exact fun d => (Desk.Visit.client _).sameViews
  | setAvailable available =>
    exact fun d => SameViews.path.trans (SameViews.enter d fun _ => rfl)
      ⟨⟨rfl, rfl, rfl, rfl, rfl⟩, rfl, rfl, fun _ => rfl⟩
  | setRecordable recordable => exact fun d => ⟨⟨rfl, rfl, rfl, rfl, rfl⟩, rfl, rfl, fun _ => rfl⟩

/-- The same operations, and undoing. -/
inductive SwitchOrUndo : Actions σ
  | switch {α : Type} {a : Act σ α} : SwitchOp a → SwitchOrUndo a
  | undo : SwitchOrUndo Act.undo

end Act

/-- **Pages keep up.** Whatever clients do, undoing included, leaves no page behind that follows the model,
unless a client interrupts. -/
theorem Host.Clients.viewing {n : Nat} {h : Host σ} (hh : h.Clients n Act.SwitchOrUndo) :
    (∀ c d, Desk.Calmly (Desk.Viewing n) d (h.answer c d).2) ∧
    ∀ {α : Type} {a : Act σ α}, Act.Client n Act.SwitchOrUndo a →
      a.NoFatal h ∧ a.Within (Desk.Calmly (Desk.Viewing n)) h :=
  hh.passed (P := fun h _ a => a.NoFatal h ∧ a.Within (Desk.Calmly (Desk.Viewing n)) h)
    (Desk.Calmly.path (Desk.Viewing.path n))
    (fun h hc => ⟨.viewing hc, fun ha => by
      cases ha with
      | switch ha => exact ⟨(ha.balanced (n := n)).1, ha.viewing⟩
      | undo => exact ⟨(Act.undo_returns fun c d => (hc c d).1).noFatal, Act.undo_viewing hc⟩⟩)
    fun _ _ _ => And.right

end FormDesk

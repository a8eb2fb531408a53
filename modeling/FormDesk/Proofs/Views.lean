/-
Views of an editor. An editor that is opened follows the model, and its pages
keep up from then on (`openEditor_opened`). So what its pages were shown
last is the document there is, but for those whose last showing was overtaken:
another listener, told of the change before them, had changed the document in
the meantime, and the document that they were shown then was already out of
date (`views_follow`).
-/
import FormDesk.Editor
import FormDesk.Proofs.Following

namespace FormDesk

variable {σ α β : Type}

namespace Desk

/-- What a page was shown last was out of date then: the model held another document. -/
def Overtaken (d : Desk σ) (p : PageId) : Prop :=
  ∃ shown document, d.shown? p = some (shown, document) ∧ shown ≠ document

/-- The document that a page was shown last. -/
def view? (d : Desk σ) (p : PageId) : Option (Option Document) := (d.shown? p).map (·.1)

/-- All pages of an editor follow the model and have kept up, if it follows. -/
def Opened (d : Desk σ) (id : EditorId) : Prop :=
  d.isFollowing id = true → ∀ p ∈ (d.editorTabs id).pages, d.FollowsIn (d.editor id).tabs p ∧ d.KeptUp p

theorem not_following {d : Desk σ} {id : EditorId} (h : (d.editor id).relay = none) :
    d.isFollowing id = false := by
  simp [isFollowing, h]

theorem Opened.of_not_following {d : Desk σ} {id : EditorId} (h : (d.editor id).relay = none) :
    d.Opened id := by
  intro hf
  rw [not_following h] at hf
  cases hf

/-- Desks on which the same pages are told of the model in the same way, whatever page is active. -/
structure Arranged (d e : Desk σ) : Prop where
  model : e.model = d.model
  coordinators : e.coordinators = d.coordinators
  held : e.held = d.held
  relays : e.relays = d.relays
  history : e.history = d.history
  pages : ∀ t, (e.tabsOf t).pages = (d.tabsOf t).pages
  relay : ∀ id, (e.editor id).relay = (d.editor id).relay
  tabs : ∀ id, (e.editor id).tabs = (d.editor id).tabs

theorem Arranged.path : Path (Arranged (σ := σ)) where
  refl _ := ⟨rfl, rfl, rfl, rfl, rfl, fun _ => rfl, fun _ => rfl, fun _ => rfl⟩
  trans h h' := ⟨h'.model.trans h.model, h'.coordinators.trans h.coordinators, h'.held.trans h.held,
    h'.relays.trans h.relays, h'.history.trans h.history, fun t => (h'.pages t).trans (h.pages t),
    fun id => (h'.relay id).trans (h.relay id), fun id => (h'.tabs id).trans (h.tabs id)⟩

theorem Arranged.grows {d e : Desk σ} (h : Arranged d e) : Grows d e := ⟨[], by simp [h.history]⟩

theorem Arranged.opened {d e : Desk σ} (h : Arranged d e) {id : EditorId} (ho : d.Opened id) :
    e.Opened id := by
  intro hf p hp
  have hf' : d.isFollowing id = true := by
    rw [← hf]
    simp only [isFollowing, h.relay, Desk.relay, h.relays]
  have hp' : p ∈ (d.editorTabs id).pages := by
    rw [editorTabs, h.pages, h.tabs] at hp
    exact hp
  obtain ⟨hfollows, hkeptUp⟩ := ho hf' p hp'
  rw [h.tabs]
  refine ⟨⟨?_, ?_, ?_⟩, ?_⟩
  · rw [present, h.held]
    exact hfollows.present
  · rw [h.model]
    exact hfollows.subscribed
  · rw [h.pages]
    exact hfollows.page
  · rw [KeptUp, h.model, shown?, h.history]
    exact hkeptUp

theorem Arranged.atRest {n : Nat} {d e : Desk σ} (h : Arranged d e) (hd : d.AtRest n) : e.AtRest n := by
  refine ⟨?_, fun c => ?_, ?_, ?_⟩
  · rw [h.coordinators]
    exact hd.size
  · rw [coordinator, h.coordinators]
    exact hd.idle c
  · rw [h.model]
    exact hd.closed
  · rw [h.model]
    exact hd.numbered

/-- One step of showing a page: a page of tabs becomes the active one, it is remembered, or a notice is written. -/
inductive Turn : Desk σ → Desk σ → Prop
  | activate {d} (t : TabsId) {index : Nat} {y : Tabs} :
      (d.tabsOf t).activate index = .ok y → Turn d (d.withTabs t y)
  | remember {d} {m : MemoryId} {key value : String} {kept : TabMemory} :
      (d.memory m).store key value = .ok kept → Turn d { d with memories := d.memories.set m kept }
  | client {d} (s : σ) : Turn d { d with client := s }

/-- Tabs that hold the same pages in other tabs' place. -/
theorem entries_withTabs {d : Desk σ} {t : TabsId} {y : Tabs} (hy : y.entries = (d.tabsOf t).entries) (t' : TabsId) :
    ((d.withTabs t y).tabsOf t').entries = (d.tabsOf t').entries := by
  simp only [withTabs, tabsOf, List.getElem?_set] at hy ⊢
  by_cases ht : t = t'
  · subst ht
    by_cases hlt : t < d.tabs.length
    · simpa [hlt] using hy
    · simp [hlt]
  · simp [ht]

/-- Apart from active pages, memories and the clients' own state, the desk is as it was. -/
structure Turned (d e : Desk σ) : Prop where
  model : e.model = d.model
  coordinators : e.coordinators = d.coordinators
  held : e.held = d.held
  relays : e.relays = d.relays
  history : e.history = d.history
  editors : e.editors = d.editors
  entries : ∀ t, (e.tabsOf t).entries = (d.tabsOf t).entries

theorem Turned.path : Path (Turned (σ := σ)) where
  refl _ := ⟨rfl, rfl, rfl, rfl, rfl, rfl, fun _ => rfl⟩
  trans h h' := ⟨h'.model.trans h.model, h'.coordinators.trans h.coordinators, h'.held.trans h.held,
    h'.relays.trans h.relays, h'.history.trans h.history, h'.editors.trans h.editors,
    fun t => (h'.entries t).trans (h.entries t)⟩

theorem Turned.arranged {d e : Desk σ} (h : Turned d e) : Arranged d e := by
  have heditor (id : EditorId) : e.editor id = d.editor id := by simp only [editor, h.editors]
  exact ⟨h.model, h.coordinators, h.held, h.relays, h.history, fun t => congrArg (List.map Tab.page) (h.entries t),
    fun id => by rw [heditor], fun id => by rw [heditor]⟩

theorem Turn.turned {d e : Desk σ} (h : Turn d e) : Turned d e := by
  cases h with
  | activate t hactivate =>
    refine ⟨rfl, rfl, rfl, rfl, rfl, rfl, entries_withTabs ?_⟩
    rw [(Tabs.activate_ok hactivate).2]
  | remember | client => exact ⟨rfl, rfl, rfl, rfl, rfl, rfl, fun _ => rfl⟩

/-- The desk after a live share has subscribed a relay to an observer. -/
def subscribed (d : Desk σ) (s : Share) (o : Observer) : Desk σ :=
  d.accepted s .subscribe { d.model.enter .subscribe with
    nextToken := d.model.nextToken + 1
    subscriptions := d.model.subscriptions ++ [⟨d.model.nextToken, .relay o⟩] }

/-- Changing one editor changes no other, and no editor that is not there. -/
theorem editor_withEditor {d : Desk σ} {id : EditorId} (hid : id < d.editors.length) (f : Editor → Editor)
    (i : EditorId) : (d.withEditor id f).editor i = if id = i then f (d.editor i) else d.editor i := by
  simp only [editor, withEditor, List.getElem?_modify]
  by_cases hi : id = i
  · subst hi
    simp [hid]
  · cases d.editors[i]? <;> simp [hi]

end Desk

namespace Act

open Desk (Arranged Grows Calm Calmly Shallow AtRest Opened)

variable {h : Host σ} {R : Desk σ → Desk σ → Prop}

/-! ## Actions that call nobody -/

/-- The action returns, and moves every desk within `R`. -/
def Settles (R : Desk σ → Desk σ → Prop) (h : Host σ) (a : Act σ α) : Prop :=
  ∀ d, ∃ x d', a h d = (.returned x, d') ∧ R d d'

theorem Settles.pure (hR : Desk.Path R) (a : α) : Settles R h (pure a : Act σ α) :=
  fun d => ⟨a, d, rfl, hR.refl d⟩

theorem Settles.look (hR : Desk.Path R) (f : Desk σ → α) : Settles R h (look f) :=
  fun d => ⟨f d, d, rfl, hR.refl d⟩

theorem Settles.change {f : Desk σ → Desk σ} (hf : ∀ d, R d (f d)) : Settles R h (change f) :=
  fun d => ⟨(), f d, rfl, hf d⟩

theorem Settles.bind (hR : Desk.Path R) {x : Act σ α} {f : α → Act σ β} (hx : Settles R h x)
    (hf : ∀ a, Settles R h (f a)) : Settles R h (x >>= f) := by
  intro d
  obtain ⟨a, d₁, hrun, h₁⟩ := hx d
  obtain ⟨b, d₂, hrun', h₂⟩ := hf a d₁
  exact ⟨b, d₂, (bind_run hrun).trans hrun', hR.trans h₁ h₂⟩

theorem Settles.within {a : Act σ α} (ha : Settles R h a) : Within R h a := by
  intro d
  obtain ⟨x, d', hrun, hR⟩ := ha d
  rw [hrun]
  exact hR

theorem Settles.returns (hR : ∀ d e, R d e → Grows d e) {a : Act σ α} (ha : Settles R h a) : Returns h a := by
  refine ⟨fun d => hR _ _ (ha.within d), fun d _ => ?_⟩
  obtain ⟨x, d', hrun, -⟩ := ha d
  exact ⟨x, by rw [hrun]⟩

theorem updateTabs_settles (hR : Desk.Path R) (t : TabsId) {f : Tabs → Except PageError (α × Tabs)}
    (hf : ∀ d a y, f (d.tabsOf t) = .ok (a, y) → R d (d.withTabs t y)) : Settles R h (updateTabs t f) := by
  intro d
  simp only [updateTabs, look_bind]
  cases heq : f (d.tabsOf t) with
  | error e => exact ⟨_, d, rfl, hR.refl d⟩
  | ok changed => exact ⟨_, _, rfl, hf d changed.1 changed.2 heq⟩

/-! ## Showing a page -/

section

variable (hR : Desk.Path R) (hturn : ∀ d e : Desk σ, Desk.Turn d e → R d e)

include hR hturn

theorem activate_settles (t : TabsId) (index : Nat) : Settles R h (activate t index) := by
  refine updateTabs_settles hR t fun d a y heq => ?_
  cases hactivate : (d.tabsOf t).activate index with
  | error e =>
    rw [hactivate] at heq
    cases heq
  | ok shown =>
    rw [hactivate] at heq
    cases heq
    exact hturn _ _ (.activate t hactivate)

theorem rememberPage_settles (id : EditorId) (index : Nat) : Settles R h (rememberPage id index) := by
  intro d
  simp only [rememberPage, look_bind]
  by_cases hskip : ((d.editor id).creating || !(d.editor id).settings.remembers) = true
  · simp only [hskip, if_true]
    exact ⟨(), d, rfl, hR.refl d⟩
  · simp only [hskip, Bool.false_eq_true, if_false, look_bind]
    cases hstore : (d.memory (d.editor id).memory).store (d.memoryKey id) (toString index) with
    | error cause => exact ⟨(), _, rfl, hturn _ _ (.client _)⟩
    | ok kept => exact ⟨(), _, rfl, hturn _ _ (.remember hstore)⟩

theorem showIndex_settles (id : EditorId) (index : Nat) : Settles R h (showIndex id index) := by
  refine .bind hR (.look hR _) fun t => .bind hR (activate_settles hR hturn t index) fun r => ?_
  cases r with
  | error e => exact .pure hR _
  | ok _ => exact .bind hR (rememberPage_settles hR hturn id index) fun _ => .pure hR _

theorem showPage_settles (id : EditorId) (page : String) : Settles R h (showPage id page) := by
  refine .bind hR (.look hR _) fun t => ?_
  cases t.indexOf page with
  | error e => exact .pure hR _
  | ok index =>
    refine .bind hR (showIndex_settles hR hturn id index) fun r => ?_
    cases r <;> exact .pure hR _

theorem showInitial_settles (id : EditorId) (page : Option String) : Settles R h (showInitial id page) := by
  refine .bind hR (.look hR _) fun choice => ?_
  cases choice with
  | none => exact .pure hR ()
  | some choice =>
    have hshow : Settles R h (showChoice id choice) := by
      unfold showChoice
      cases numeral? choice with
      | some index => exact showIndex_settles hR hturn id index
      | none => exact .bind hR (showPage_settles hR hturn id choice) fun _ => .pure hR _
    refine .bind hR hshow fun r => ?_
    cases r with
    | ok _ => exact .pure hR ()
    | error cause =>
      have hnote : Settles R h (note (.defaultPageFailed cause)) := fun _ => ⟨(), _, rfl, hturn _ _ (.client _)⟩
      exact .bind hR hnote fun _ => .bind hR (.look hR _) fun t =>
        .bind hR (activate_settles hR hturn t 0) fun _ => .pure hR ()

theorem showOpened_settles (id : EditorId) (r : Except PageError Unit) : Settles R h (showOpened id r) := by
  cases r with
  | error cause => exact .pure hR _
  | ok _ => exact .bind hR (showInitial_settles hR hturn id none) fun _ => .pure hR _

end

theorem showOpened_arranged (id : EditorId) (r : Except PageError Unit) : Settles Arranged h (showOpened id r) :=
  showOpened_settles Arranged.path (fun _ _ hturn => hturn.turned.arranged) id r

/-! ## Adding pages -/

/-- Nothing but tabs differs. -/
def OnlyTabs (d e : Desk σ) : Prop := ∃ ts, e = { d with tabs := ts }

theorem OnlyTabs.path : Desk.Path (OnlyTabs (σ := σ)) where
  refl d := ⟨d.tabs, rfl⟩
  trans := by
    rintro _ _ _ ⟨_, rfl⟩ ⟨ts, rfl⟩
    exact ⟨ts, rfl⟩

theorem addForms_settles (t : TabsId) : ∀ forms : List PageId, Settles OnlyTabs h (addForms t forms)
  | [] => .pure OnlyTabs.path _
  | page :: rest => by
    have hadd : Settles OnlyTabs h (addForm t page) :=
      .bind OnlyTabs.path (.look OnlyTabs.path _) fun p =>
        updateTabs_settles OnlyTabs.path t fun d _ y _ => ⟨d.tabs.set t y, rfl⟩
    refine .bind OnlyTabs.path hadd fun r => ?_
    cases r with
    | error e => exact .pure OnlyTabs.path _
    | ok _ => exact addForms_settles t rest

theorem addPages_settles (id : EditorId) (forms : List PageId) (text : PageId) :
    Settles OnlyTabs h (addPages id forms text) := by
  have hR := OnlyTabs.path (σ := σ)
  have hupdate {α : Type} (t : TabsId) (f : Tabs → Except PageError (α × Tabs)) :
      Settles OnlyTabs h (updateTabs t f) :=
    updateTabs_settles hR t fun d _ y _ => ⟨d.tabs.set t y, rfl⟩
  refine .bind hR (.look hR _) fun e => .bind hR (addForms_settles e.tabs forms) fun r => ?_
  cases r with
  | error cause => exact .pure hR _
  | ok _ =>
    refine .bind hR (hupdate e.tabs _) fun r => ?_
    cases r with
    | error cause => exact .pure hR _
    | ok _ => exact hupdate e.tabs _

/-! ## Following the model -/

/-- The desk on which an observer is shown the document when it is attached. -/
theorem subscribed_atRest {n : Nat} {d : Desk σ} {s : Share} {m : Model} (hd : d.AtRest n)
    (hacquire : d.model.acquire .read = .ok (s, m)) (o : Observer) :
    ((d.accepted s (.acquire .read) m).subscribed s o).AtRest n := by
  have hnumbered := hd.numbered.acquire hacquire
  obtain ⟨-, -, rfl⟩ := Model.acquire_ok hacquire
  exact ⟨hd.size, hd.idle, hd.closed, hnumbered.of_eq rfl rfl⟩

theorem subscribed_follows {d : Desk σ} {s : Share} {m : Model} {t : TabsId} {p : PageId}
    (hacquire : d.model.acquire .read = .ok (s, m)) (hpresent : d.present (.tabs t) = true)
    (hp : p ∈ (d.tabsOf t).pages) :
    ((d.accepted s (.acquire .read) m).subscribed s (.tabs t)).FollowsIn t p := by
  obtain ⟨-, -, rfl⟩ := Model.acquire_ok hacquire
  exact ⟨hpresent, ⟨_, List.mem_append_right _ List.mem_cons_self, rfl⟩, hp⟩

theorem release_atRest {n : Nat} {d : Desk σ} (hd : d.AtRest n) (s : Share) : (release s h d).2.AtRest n := by
  cases hr : d.model.release? s with
  | none =>
    rw [release_refused hr]
    exact ⟨hd.size, hd.idle, hd.closed, hd.numbered⟩
  | some taken =>
    have hnumbered := hd.numbered.release hr
    obtain ⟨-, hm⟩ := Model.release?_some hr
    rw [release_run hr]
    refine ⟨hd.size, hd.idle, ?_, hnumbered⟩
    rw [Desk.model_accepted, hm]
    exact hd.closed

theorem subscribeWith_run {o : Observer} {s : Share} {access : Access} {d : Desk σ}
    (hs : d.model.accessOf? s.id = some access) :
    subscribeWith o s h d = (onInterrupt (notifyPresent o (.changed ((d.subscribed s o).model.documentFor s)))
      (did (.unclaimed o d.model.nextToken)) >>= fun _ =>
        (return .ok d.model.nextToken : Act σ (Except ModelError Token))) h (d.subscribed s o) :=
  bind_run (subscribe_run (Model.subscribe_of_live hs (.relay o)))

/-- No relay is made when no share can be had. -/
theorem attach_refused {o : Observer} {d : Desk σ} {e : ModelError} (hacquire : d.model.acquire .read = .error e) :
    attach o h d = (.returned (.error (.modelUnavailable e)), d) := by
  have hshare : withShare .read (subscribeWith o) h d = (.returned (.error e), d) := withShare_refused hacquire
  have hobserver : subscribeObserver o h d = (.returned (.error e), d) := bind_run hshare
  exact bind_run hobserver

/-- Attaching subscribes the observer with a share, shows it the document and gives the share back. -/
theorem attach_run {o : Observer} {d d₁ d₂ : Desk σ} {s : Share} {m : Model}
    (hacquire : d.model.acquire .read = .ok (s, m))
    (hd₁ : (d.accepted s (.acquire .read) m).subscribed s o = d₁)
    (hnotify : notifyPresent o (.changed (d₁.model.documentFor s)) h d₁ = (.returned (), d₂)) :
    attach o h d = (.returned (.ok (release s h d₂).2.relays.length),
      { (release s h d₂).2 with relays := (release s h d₂).2.relays ++ [⟨some m.nextToken⟩] }) := by
  subst hd₁
  have hsubscribe : subscribeWith o s h (d.accepted s (.acquire .read) m) =
      (.returned (.ok m.nextToken), d₂) :=
    (subscribeWith_run (Model.accessOf?_acquire hacquire)).trans (bind_run (onInterrupt_run hnotify))
  have hshare : withShare .read (subscribeWith o) h d =
      (.returned (.ok (.ok m.nextToken)), (release s h d₂).2) :=
    (bind_run (acquire_run hacquire)).trans (bind_run (ensure_run hsubscribe (release_returned s d₂)))
  have hobserver : subscribeObserver o h d = (.returned (.ok m.nextToken), (release s h d₂).2) :=
    bind_run hshare
  exact bind_run hobserver

section

variable {o : Observer} {d d₁ d₂ : Desk σ} {s : Share} {m : Model}
  (hacquire : d.model.acquire .read = .ok (s, m)) (hd₁ : (d.accepted s (.acquire .read) m).subscribed s o = d₁)

include hacquire hd₁

/-- When the observer interrupts as it is shown the document, no relay is made, and nobody has the token. -/
theorem attach_interrupted {message : String}
    (hnotify : notifyPresent o (.changed (d₁.model.documentFor s)) h d₁ = (.interrupted message, d₂)) :
    attach o h d = (.interrupted message, (release s h (d₂.enter (.unclaimed o m.nextToken))).2) := by
  subst hd₁
  have hsubscribe := (subscribeWith_run (h := h) (o := o) (d := d.accepted s (.acquire .read) m)
    (Model.accessOf?_acquire hacquire)).trans (bind_interrupted (onInterrupt_interrupted hnotify rfl))
  have hshare : withShare .read (subscribeWith o) h d = _ := (bind_run (acquire_run hacquire)).trans
    (bind_interrupted (ensure_ended hsubscribe nofun (release_returned s _)))
  exact bind_interrupted (bind_interrupted hshare)

theorem attach_fatal (hnotify : notifyPresent o (.changed (d₁.model.documentFor s)) h d₁ = (.fatal, d₂)) :
    attach o h d = (.fatal, d₂) := by
  subst hd₁
  have hsubscribe := (subscribeWith_run (h := h) (o := o) (d := d.accepted s (.acquire .read) m)
    (Model.accessOf?_acquire hacquire)).trans (bind_fatal (onInterrupt_fatal hnotify))
  have hensured : ensure (subscribeWith o s) (release s) h (d.accepted s (.acquire .read) m) = (.fatal, d₂) := by
    simp only [ensure, hsubscribe]
  have hshare : withShare .read (subscribeWith o) h d = _ :=
    (bind_run (acquire_run hacquire)).trans (bind_fatal hensured)
  exact bind_fatal (bind_fatal hshare)

end

/-- What is done while the observer is shown the document is done when it is attached. -/
theorem attach_grows {o : Observer} {d d₁ : Desk σ} {s : Share} {m : Model}
    (hacquire : d.model.acquire .read = .ok (s, m))
    (hd₁ : (d.accepted s (.acquire .read) m).subscribed s o = d₁) :
    Grows (notifyPresent o (.changed (d₁.model.documentFor s)) h d₁).2 (attach o h d).2 := by
  subst hd₁
  generalize hshown : notifyPresent o _ h _ = shown
  have hR := Grows.path (σ := σ)
  have hwith : Grows shown.2 (subscribeWith o s h (d.accepted s (.acquire .read) m)).2 := by
    rw [subscribeWith_run (Model.accessOf?_acquire hacquire)]
    exact Within.bind_at hR (Within.onInterrupt_at hR (hshown ▸ hR.refl _) fun d => d.grows_enter _) fun _ =>
      Within.pure hR _
  have hshare : Grows shown.2 (withShare .read (subscribeWith o) h d).2 := by
    rw [withShare, bind_run (acquire_run hacquire)]
    exact Within.bind_at hR (Within.ensure_at hR hwith (release_returns s).grows) fun _ => Within.pure hR _
  have hobserver : Grows shown.2 (subscribeObserver o h d).2 :=
    Within.bind_at hR hshare fun r => by cases r <;> exact Within.pure hR _
  refine Within.bind_at hR hobserver fun r => ?_
  cases r with
  | error e => exact Within.pure hR _
  | ok token => exact fun d => hR.refl d

/-- What an attachment comes to in a calm run: no share can be had, or the observer is subscribed with one and
shown the document. -/
theorem attach_parts (hg : ∀ c d, Grows d (h.answer c d).2) {o : Observer} {d : Desk σ}
    (hcalm : Calm d (attach o h d).2) :
    (d.model.available = false ∧ ∃ e, attach o h d = (.returned (.error (.modelUnavailable e)), d)) ∨
    ∃ s m d₁ d₂, d.model.acquire .read = .ok (s, m) ∧ (d.accepted s (.acquire .read) m).subscribed s o = d₁ ∧
      notifyPresent o (.changed (d₁.model.documentFor s)) h d₁ = (.returned (), d₂) ∧ Calm d₁ d₂ ∧
      Grows d₂ (attach o h d).2 ∧
      attach o h d = (.returned (.ok (release s h d₂).2.relays.length),
        { (release s h d₂).2 with relays := (release s h d₂).2.relays ++ [⟨some m.nextToken⟩] }) := by
  cases hacquire : d.model.acquire .read with
  | error e => exact .inl ⟨Model.acquire_error hacquire, e, attach_refused hacquire⟩
  | ok taken =>
    obtain ⟨s, m⟩ := taken
    have hfirst : Grows d ((d.accepted s (.acquire .read) m).subscribed s o) :=
      (d.grows_accepted ..).trans (Desk.grows_accepted ..)
    generalize hd₁ : (d.accepted s (.acquire .read) m).subscribed s o = d₁ at hfirst
    have hlast := attach_grows (h := h) hacquire hd₁
    have hshown := deliver_returns hg (.changed (d₁.model.documentFor s)) (.relay o)
    obtain ⟨hcalm₁, -⟩ := hcalm.split (hfirst.trans (hshown.grows d₁)) hlast
    have hcalm₂ := (hcalm₁.split hfirst (hshown.grows d₁)).2
    obtain ⟨u, hu⟩ := hshown.returned d₁ hcalm₂
    exact .inr ⟨s, m, d₁, _, rfl, hd₁, Prod.ext hu rfl, hcalm₂, hlast, attach_run hacquire hd₁ (Prod.ext hu rfl)⟩

section

variable {n : Nat} (hc : ∀ c d, Calmly (Desk.Viewing n) d (h.answer c d).2)

include hc

/-- Tabs that are attached follow the model with all their pages, and these have kept up. -/
theorem attach_keptUp {t : TabsId} {d : Desk σ} (hd : d.AtRest n) (hpresent : d.present (.tabs t) = true)
    (hcalm : Calm d (attach (.tabs t) h d).2) (hshallow : Shallow d (attach (.tabs t) h d).2) :
    (∃ e, attach (.tabs t) h d = (.returned (.error e), d)) ∨
    (∃ r d', attach (.tabs t) h d = (.returned (.ok r), d') ∧ d'.AtRest n ∧ d'.editors = d.editors ∧
      d'.tabs = d.tabs ∧ ∀ p ∈ (d.tabsOf t).pages, d'.FollowsIn t p ∧ d'.KeptUp p) := by
  obtain ⟨-, e, hrun⟩ | ⟨s, m, d₁, d₂, hacquire, hd₁, hnotify, hcalm₂, hlast, hattach⟩ :=
    attach_parts (fun c d => (hc c d).1) hcalm
  · exact .inl ⟨_, hrun⟩
  · have hrest₁ := subscribed_atRest hd hacquire (.tabs t)
    have hfollows₁ : ∀ p ∈ (d.tabsOf t).pages, _ := fun p hp => subscribed_follows hacquire hpresent hp
    have hfirst : Grows d ((d.accepted s (.acquire .read) m).subscribed s (.tabs t)) :=
      (d.grows_accepted ..).trans (Desk.grows_accepted ..)
    have htabs₁ : ((d.accepted s (.acquire .read) m).subscribed s (.tabs t)).tabs = d.tabs := rfl
    have heditors₁ : ((d.accepted s (.acquire .read) m).subscribed s (.tabs t)).editors = d.editors := rfl
    rw [hd₁] at hrest₁ hfollows₁ hfirst htabs₁ heditors₁
    have hsees (p : PageId) := notifyPresent_sees hc t p (d₁.model.documentFor s) d₁
    rw [hnotify] at hsees
    have hshallow₂ := ((hshallow.split (hfirst.trans hcalm₂.grows) hlast).1.split hfirst hcalm₂.grows).2
    have hviewing := ((hsees 0).2 hcalm₂).1
    obtain ⟨_, -, hbalanced⟩ := hviewing.balanced hrest₁.sound
    have hrest₃ := release_atRest (h := h) (hrest₁.again hbalanced) s
    have hback := release_within (h := h) Desk.SameViews.path (fun _ _ hvisit => Desk.Visit.sameViews hvisit) s d₂
    refine .inr ⟨_, _, hattach, ⟨hrest₃.size, hrest₃.idle, hrest₃.closed, hrest₃.numbered⟩, ?_, ?_,
      fun p hp => ?_⟩
    · exact hback.sameAudience.editors.trans (hviewing.sameAudience.editors.trans heditors₁)
    · exact hback.sameAudience.tabs.trans (hviewing.sameAudience.tabs.trans htabs₁)
    · have hkeptUp := ((hsees p).2 hcalm₂).2 hrest₁.sound hshallow₂ (hfollows₁ p hp)
      have hfollows := hback.sameAudience.followsIn (hviewing.sameAudience.followsIn (hfollows₁ p hp))
      exact ⟨⟨hfollows.present, hfollows.subscribed, hfollows.page⟩, hback.keptUp hkeptUp⟩

omit hc in
theorem detach_returns (r : RelayId) : Returns h (detach r) := by
  have hunsubscribe (token : Token) (share : Share) : Returns h (unsubscribe share token) := by
    refine (Returns.look _).bind fun m => ?_
    cases m.unsubscribe share token with
    | error n => exact (Returns.note n).bind fun _ => Returns.pure _
    | ok removed =>
      obtain ⟨removed, m⟩ := removed
      cases removed with
      | true => exact (Returns.accept ..).bind fun _ => Returns.pure _
      | false => exact Returns.pure _
  refine (Returns.look _).bind fun subscription => ?_
  cases subscription with
  | none => exact Returns.pure ()
  | some token =>
    have hforget : Returns h (change (·.withSubscription r none)) := Returns.change fun _ => rfl
    refine (Returns.look _).bind fun _ => (Returns.did _).bind fun _ => hforget.bind fun _ =>
      (withShare_returns .read (hunsubscribe token)).bind fun removed => ?_
    cases removed with
    | error e => exact Returns.note _
    | ok removed => cases removed <;> first | exact Returns.pure () | exact Returns.note _

omit hc in
theorem attach_returns (hg : ∀ c d, Grows d (h.answer c d).2) (o : Observer) : Returns h (attach o) := by
  have hsubscribe (share : Share) : Returns h (subscribe share (.relay o)) := by
    refine (Returns.look _).bind fun m => ?_
    cases m.subscribe share (.relay o) with
    | error e => exact Returns.pure _
    | ok taken => exact (Returns.accept ..).bind fun _ => Returns.pure _
  have hwith (share : Share) : Returns h (subscribeWith o share) := by
    refine (hsubscribe share).bind fun token => ?_
    cases token with
    | error e => exact Returns.pure _
    | ok token =>
      exact (Returns.look _).bind fun document =>
        ((deliver_returns hg (.changed document) (.relay o)).onInterrupt (Returns.did _)).bind fun _ =>
          Returns.pure _
  have hobserver : Returns h (subscribeObserver o) :=
    (withShare_returns .read hwith).bind fun r => by cases r <;> exact Returns.pure _
  refine hobserver.bind fun token => ?_
  cases token with
  | error e => exact Returns.pure _
  | ok token =>
    have hadd : Returns h (change fun d : Desk σ => { d with relays := d.relays ++ [⟨some token⟩] }) :=
      Returns.change fun _ => rfl
    exact (Returns.look _).bind fun _ => hadd.bind fun _ => Returns.pure _

omit hc in
theorem replaceRelay_returns (id : EditorId) (relay : RelayId) : Returns h (replaceRelay id relay) := by
  have hset : Returns h (change (·.withEditor id fun e => { e with relay := some relay })) :=
    Returns.change fun _ => rfl
  refine (Returns.look _).bind fun earlier => hset.bind fun _ => ?_
  cases earlier with
  | none => exact Returns.pure ()
  | some r => exact detach_returns r

theorem followModel_returns (id : EditorId) : Returns h (followModel id) := by
  refine (Returns.look _).bind fun e => (attach_returns (fun c d => (hc c d).1) _).bind fun r => ?_
  cases r with
  | error cause => exact Returns.note _
  | ok relay => exact replaceRelay_returns id relay

theorem followModel_opened {id : EditorId} {d : Desk σ} (hd : d.AtRest n) (hid : id < d.editors.length)
    (hrelay : (d.editor id).relay = none) (hpresent : d.present (.tabs (d.editor id).tabs) = true)
    (hcalm : Calm d (followModel id h d).2) (hshallow : Shallow d (followModel id h d).2) :
    (followModel id h d).2.AtRest n ∧ (followModel id h d).2.Opened id := by
  obtain ⟨r, d₁, hattach, hrun, hcalm₁, hcalm₂⟩ :=
    (attach_returns (fun c d => (hc c d).1) (.tabs (d.editor id).tabs)).peel hcalm fun r d' _ => by
      cases r with
      | error cause => exact (Returns.note _).grows d'
      | ok relay => exact (replaceRelay_returns id relay).grows d'
  have hsame : followModel id h d = _ := hrun
  rw [hsame] at hshallow ⊢
  have hshallow₁ := (hshallow.split hcalm₁.grows hcalm₂.grows).1
  have hcases := attach_keptUp hc hd hpresent (by rw [hattach]; exact hcalm₁)
    (by rw [hattach]; exact hshallow₁)
  rw [hattach] at hcases
  obtain ⟨e, he⟩ | ⟨r', _, hr, hrest₁, heditors, htabs, hall⟩ := hcases
  · cases he
    exact ⟨⟨hd.size, hd.idle, hd.closed, hd.numbered⟩, .of_not_following hrelay⟩
  · cases hr
    have heditor : d₁.editor id = d.editor id := by simp only [Desk.editor, heditors]
    have hreplace : replaceRelay id r' h d₁ =
        (.returned (), d₁.withEditor id fun e => { e with relay := some r' }) := by
      simp [replaceRelay, heditor, hrelay]
    have htabs' : ((d₁.withEditor id fun e => { e with relay := some r' }).editor id).tabs =
        (d.editor id).tabs := by
      rw [Desk.editor_withEditor (heditors ▸ hid), if_pos rfl, heditor]
    change (replaceRelay id r' h d₁).2.AtRest n ∧ (replaceRelay id r' h d₁).2.Opened id
    rw [hreplace]
    refine ⟨⟨hrest₁.size, hrest₁.idle, hrest₁.closed, hrest₁.numbered⟩, fun _ p hp => ?_⟩
    have hp' : p ∈ (d.tabsOf (d.editor id).tabs).pages := by
      rw [Desk.editorTabs, htabs', Desk.tabsOf] at hp
      rw [Desk.tabsOf, ← htabs]
      exact hp
    obtain ⟨hfollows, hkeptUp⟩ := hall p hp'
    rw [htabs']
    exact ⟨⟨hfollows.present, hfollows.subscribed, hfollows.page⟩, hkeptUp⟩

theorem installPages_returns (id : EditorId) (forms : List PageId) (text : PageId) :
    Returns h (installPages id forms text) := by
  have hadd : Returns h (addPages id forms text) :=
    (addPages_settles id forms text).returns fun d e ⟨ts, he⟩ => by
    rw [he]
    exact Grows.path.refl d
  refine hadd.bind fun r => ?_
  cases r with
  | error cause =>
    have hclear (t : TabsId) : Returns h (clearTabs t) := Returns.change fun _ => rfl
    exact (Returns.look _).bind fun t => (hclear t).bind fun _ => Returns.pure _
  | ok _ => exact (followModel_returns hc id).bind fun _ => Returns.pure _

theorem installPages_opened {id : EditorId} {forms : List PageId} {text : PageId} {d : Desk σ}
    (hd : d.AtRest n)
    (hid : id < d.editors.length) (hrelay : (d.editor id).relay = none)
    (hpresent : d.present (.tabs (d.editor id).tabs) = true)
    (hcalm : Calm d (installPages id forms text h d).2)
    (hshallow : Shallow d (installPages id forms text h d).2) :
    (installPages id forms text h d).2.AtRest n ∧ (installPages id forms text h d).2.Opened id := by
  obtain ⟨r, _, hadd, ts, rfl⟩ := addPages_settles (h := h) id forms text d
  rw [installPages, bind_run hadd] at hcalm hshallow ⊢
  cases r with
  | error cause => exact ⟨⟨hd.size, hd.idle, hd.closed, hd.numbered⟩, .of_not_following hrelay⟩
  | ok _ =>
    have hdesk :
        ((do followModel id; return .ok () : Act σ (Except PageError Unit)) h { d with tabs := ts }).2 =
        (followModel id h { d with tabs := ts }).2 := bind_desk (fun _ _ => rfl) _
    simp only at hcalm hshallow ⊢
    rw [hdesk] at hcalm hshallow ⊢
    exact followModel_opened hc ⟨hd.size, hd.idle, hd.closed, hd.numbered⟩ hid hrelay hpresent hcalm hshallow

omit hc in
theorem creating_arranged (d : Desk σ) (id : EditorId) (creating : Bool) :
    Arranged d (d.withEditor id fun e => { e with creating := creating }) := by
  have hsame (i : EditorId) :
      ((d.withEditor id fun e => { e with creating := creating }).editor i).relay = (d.editor i).relay ∧
      ((d.withEditor id fun e => { e with creating := creating }).editor i).tabs = (d.editor i).tabs := by
    simp only [Desk.editor, Desk.withEditor, List.getElem?_modify]
    cases d.editors[i]? with
    | none => exact ⟨rfl, rfl⟩
    | some e => by_cases hi : id = i <;> simp [hi]
  exact ⟨rfl, rfl, rfl, rfl, rfl, fun _ => rfl, fun i => (hsame i).1, fun i => (hsame i).2⟩

/-- **An editor that is opened keeps up.** When it follows the model after it has been opened, all of its
pages do, and they have kept up. -/
theorem openEditor_opened {id : EditorId} {forms : List PageId} {text : PageId} {d : Desk σ} (hd : d.AtRest n)
    (hid : id < d.editors.length) (hrelay : (d.editor id).relay = none)
    (hpresent : d.present (.tabs (d.editor id).tabs) = true) (hcalm : Calm d (openEditor id forms text h d).2)
    (hshallow : Shallow d (openEditor id forms text h d).2) :
    (openEditor id forms text h d).2.AtRest n ∧ (openEditor id forms text h d).2.Opened id := by
  have hR := Arranged.path (σ := σ)
  simp only [openEditor, look_bind] at hcalm hshallow ⊢
  by_cases hopen : (d.editorTabs id).count > 0 || (d.editor id).relay.isSome
  · simp only [hopen, if_true, pure_run]
    exact ⟨hd, .of_not_following hrelay⟩
  simp only [hopen, Bool.false_eq_true, if_false] at hcalm hshallow ⊢
  have hset : setCreating id true h d =
      (.returned (), d.withEditor id fun e => { e with creating := true }) := rfl
  rw [bind_run hset] at hcalm hshallow ⊢
  have hcreating := creating_arranged d id true
  have hrest (r : Except PageError Unit) : Within Arranged h (showOpened id r) :=
    (showOpened_arranged id r).within
  have hinstall := installPages_returns hc id forms text
  have hlast : Within Arranged h (setCreating id false) := fun d => creating_arranged d id false
  have hid₁ : id < (d.withEditor id fun e => { e with creating := true }).editors.length := by
    rw [Desk.withEditor, List.length_modify]
    exact hid
  generalize (d.withEditor id fun e => { e with creating := true }) = d₁ at hcalm hshallow hcreating hid₁ ⊢
  have hcleaned : Within Grows h (setCreating id false) := fun d => (hlast d).grows
  have hfirst := hcreating.grows
  -- What follows the installation only arranges the pages.
  have hshown :=
    Within.bind_at hR (hR.refl (ensure (installPages id forms text) (setCreating id false) h d₁).2) hrest
  have hensured := Within.ensure Grows.path hinstall.grows hcleaned d₁
  have hcalm₁ := (hcalm.split (hfirst.trans hensured) hshown.grows).1
  have hshallow₁ := (hshallow.split (hfirst.trans hensured) hshown.grows).1
  obtain ⟨hdesk, hcalm₂, -⟩ := hinstall.noFatal.ensure_desk hcleaned (hcalm₁.split hfirst hensured).2
  have hinstalled := hinstall.grows d₁
  have hshallow₂ := (hshallow₁.split hfirst hensured).2
  rw [hdesk] at hshallow₂ hshown
  have hopened := installPages_opened hc (hcreating.atRest hd) hid₁ ((hcreating.relay id).trans hrelay)
    (by rw [Desk.present, hcreating.held, hcreating.tabs]; exact hpresent) hcalm₂
    (hshallow₂.split hinstalled (hcleaned _)).1
  have harranged := hR.trans (hlast (installPages id forms text h d₁).2) hshown
  exact ⟨harranged.atRest hopened.1, harranged.opened hopened.2⟩

theorem openEditor_returns (id : EditorId) (forms : List PageId) (text : PageId) :
    Returns h (openEditor id forms text) := by
  have hset (creating : Bool) : Returns h (setCreating id creating) := Returns.change fun _ => rfl
  refine (Returns.look _).bind fun opened => ?_
  cases opened with
  | true => exact Returns.pure _
  | false =>
    exact (hset true).bind fun _ =>
      ((installPages_returns hc id forms text).ensure (hset false)).bind fun r =>
      (showOpened_arranged id r).returns fun _ _ => Arranged.grows

end

/-- An editor of its own on the desk: it has no relay yet, and its tabs are in use. -/
theorem makeEditor_run (name : String) (project : Option String) (settings : Settings) (memory : MemoryId)
    (d : Desk σ) : ∃ d', makeEditor name project settings memory h d = (.returned d.editors.length, d') ∧
      d'.history = d.history ∧ d'.model = d.model ∧ d.editors.length < d'.editors.length ∧
      (∃ c, d'.coordinators = d.coordinators ++ [c] ∧ c.session = .idle) ∧
      (d'.editor d.editors.length).relay = none ∧
      d'.present (.tabs (d'.editor d.editors.length).tabs) = true := by
  refine ⟨_, rfl, rfl, rfl, by simp, ⟨_, rfl, rfl⟩, by simp [Desk.editor],
    by simp [Desk.editor, Desk.present, Observer.ref]⟩

end Act

/-- A coordinator who is hired idle finds the desk at rest. -/
theorem Desk.AtRest.hired {n : Nat} {d e : Desk σ} {c : Coordinator} (hn : d.coordinators.length + 1 = n)
    (hidle : ∀ c, (d.coordinator c).session = .idle) (hchanging : d.model.changing = 0)
    (hnumbered : d.model.Numbered) (hcoordinators : e.coordinators = d.coordinators ++ [c])
    (hcidle : c.session = .idle) (hmodel : e.model = d.model) : e.AtRest n := by
  refine ⟨by rw [hcoordinators, ← hn]; exact List.length_append, fun c' => ?_, ?_, ?_⟩
  · rw [Desk.coordinator, hcoordinators, List.getElem?_append]
    split
    · exact hidle c'
    · cases hi : c' - d.coordinators.length <;> simp [hcidle]
  · rw [hmodel]
    exact hchanging
  · rw [hmodel]
    exact hnumbered

/-- A page that has kept up shows the document there is, unless it was overtaken. -/
theorem Desk.view?_eq_iff_not_overtaken {d : Desk σ} {p : PageId} {shown : Option Document}
    (hshown : d.shown? p = some (shown, d.model.document)) :
    d.view? p = some d.model.document ↔ ¬ d.Overtaken p := by
  rw [Desk.view?, hshown, Option.map_some, Option.some_inj]
  constructor
  · rintro heq ⟨shown', document, hshown', hne⟩
    rw [hshown] at hshown'
    cases hshown'
    exact hne heq
  · intro hnot
    exact Decidable.byContradiction fun hne => hnot ⟨shown, _, hshown, hne⟩

/-- **Views of an editor.** Let an editor be opened on a desk at rest, and let clients do what they will with
sessions, undoable edits and undos then. Unless one of those that are called interrupts, every page of an editor
that follows the model has kept up in the end: when it was shown a document last, the model held the one that it
holds now. So the page shows the document there is, exactly when that last showing was not overtaken. -/
theorem Host.Clients.views_follow {n : Nat} {h : Host σ} (hh : h.Clients n Act.SwitchOrUndo) {a : Act σ α}
    (ha : Act.Client n Act.SwitchOrUndo a) {d : Desk σ} (hn : d.coordinators.length + 1 = n)
    (hidle : ∀ c, (d.coordinator c).session = .idle) (hchanging : d.model.changing = 0)
    (hnumbered : d.model.Numbered) (name : String) (project : Option String) (settings : Settings)
    (memory : MemoryId) (forms : List PageId) (text : PageId) {e : Desk σ}
    (he : e = ((do
      let id ← Act.makeEditor name project settings memory
      let _ ← Act.openEditor id forms text
      a) h d).2) :
    ∃ w, e.history.toList = d.history.toList ++ w ∧
      ((∀ c, .threw c ∉ w) → Deed.Shallow w → e.isFollowing d.editors.length = true →
        ∀ p ∈ (e.editorTabs d.editors.length).pages,
          (∃ shown, e.shown? p = some (shown, e.model.document)) ∧
          (e.view? p = some e.model.document ↔ ¬ e.Overtaken p)) := by
  obtain ⟨hc, hclients⟩ := hh.viewing
  obtain ⟨hnoFatal, hviewing⟩ := hclients ha
  obtain ⟨d₁, hmake, hhistory, hmodel, hid, ⟨c, hcoordinators, hcidle⟩, hrelay, hpresent⟩ :=
    Act.makeEditor_run (h := h) name project settings memory d
  have hreturns := Act.openEditor_returns hc d.editors.length forms text
  replace he : e = ((Act.openEditor d.editors.length forms text >>= fun _ => a) h d₁).2 :=
    he.trans (congrArg Prod.snd (Act.bind_run hmake))
  obtain ⟨w, hw⟩ : Desk.Grows d₁ e :=
    he ▸ Act.Within.bind Desk.Grows.path hreturns.grows (fun _ => hnoFatal.grows) d₁
  refine ⟨w, by rw [← hw, hhistory], fun hcalm hshallow hfollowing p hp => ?_⟩
  have hrest₁ := Desk.AtRest.hired hn hidle hchanging hnumbered hcoordinators hcidle hmodel
  have hshallow₁ : d₁.Shallow e := ⟨w, hw.symm, hshallow⟩
  obtain ⟨r, d₂, hopen, hrun, hcalm₁, hcalm₂⟩ :=
    hreturns.peel (he ▸ ⟨w, hw.symm, hcalm⟩ : d₁.Calm _) fun _ d₂ _ => hnoFatal.grows d₂
  rw [hrun] at he
  have hgrows₁ := hreturns.grows d₁
  rw [hopen] at hgrows₁
  have hgrows₂ : Desk.Grows d₂ e := he ▸ hnoFatal.grows d₂
  obtain ⟨hrest₂, hopened⟩ :=
    Act.openEditor_opened hc hrest₁ hid hrelay hpresent (by rw [hopen]; exact hcalm₁)
    (by rw [hopen]; exact (hshallow₁.split hgrows₁ hgrows₂).1)
  rw [hopen] at hrest₂ hopened
  have hshallow₂ := (hshallow₁.split hgrows₁ hgrows₂).2
  have hview : Desk.Viewing n d₂ e := he ▸ (hviewing d₂).2 hcalm₂
  -- The run changes nothing about who follows the model.
  have heditor : e.editor d.editors.length = d₂.editor d.editors.length := by
    simp only [Desk.editor, hview.sameAudience.editors]
  have hfollowing₂ : d₂.isFollowing d.editors.length = true := by
    rw [← hfollowing]
    simp only [Desk.isFollowing, heditor, Desk.relay, hview.sameAudience.relays]
  have hp₂ : p ∈ (d₂.editorTabs d.editors.length).pages := by
    rw [Desk.editorTabs, heditor, Desk.tabsOf, hview.sameAudience.tabs] at hp
    exact hp
  obtain ⟨hfollows, hkeptUp⟩ := hopened hfollowing₂ p hp₂
  obtain ⟨_, -, hbalanced⟩ := hview.balanced hrest₂.sound
  obtain ⟨shown, hshown⟩ :=
    hview.keptUp hrest₂.sound hshallow₂ p ⟨_, hfollows⟩ hkeptUp (hrest₂.again hbalanced).closed
  exact ⟨⟨shown, hshown⟩, Desk.view?_eq_iff_not_overtaken hshown⟩

/-- Two pages are left with a document that is out of date: a listener hears of the change before they do,
and changes the document itself. -/
theorem Host.views_overtaken :
    let append (text : String) (s : Scope) : Act Unit (Except ModelError Unit) :=
      Act.mutateIn s fun document => pure ((), document ++ text)
    let h : Host Unit := .interfering do let _ ← Act.edit 0 (append "2")
    let d : Desk Unit :=
      { model := { document := some "d", nextToken := 2, subscriptions := [⟨1, .client 0⟩] }
        pages := [⟨"p1", "p1", false⟩, ⟨"p2", "p2", false⟩]
        memories := [{}]
        client := () }
    let e := ((do
      let id ← Act.makeEditor "ed" none {} 0
      let _ ← Act.openEditor id [0] 1
      let _ ← Act.edit 0 (append "1")) h d).2
    (∀ c, .threw c ∉ e.history.toList) ∧ (e.coordinator 0).session = .idle ∧ e.model.changing = 0 ∧
      e.isFollowing 0 = true ∧ (e.editorTabs 0).pages = [0, 1] ∧ e.model.document = some "d12" ∧
      e.view? 0 = some (some "d1") ∧ e.view? 1 = some (some "d1") := by
  intro append h d e
  have hcalm : ∀ deed ∈ e.history.toList, (match deed with | .threw _ => false | _ => true) = true := by
    rw [← List.all_eq_true]
    decide +kernel
  have hnone : ∀ c, .threw c ∉ e.history.toList := fun c hc => absurd (hcalm (.threw c) hc) Bool.false_ne_true
  constructor
  · exact hnone
  · decide +kernel

/-- An undoable edit and its undo, both answered by a listener with an edit of its own: the pages of the editor
have kept up all the same. -/
theorem Host.Clients.views_follow_overtaken :
    let append (text : String) (s : Scope) : Act Unit (Except ModelError Unit) :=
      Act.mutateIn s fun document => pure ((), document ++ text)
    let h : Host Unit := .interfering do let _ ← Act.edit 0 (append "2")
    let a : Act Unit Unit := do
      let _ ← Act.undoableEdit 0 (some "type") (append "1")
      let _ ← Act.undo
    let d : Desk Unit :=
      { model := { document := some "d", nextToken := 2, subscriptions := [⟨1, .client 0⟩] }
        pages := [⟨"p1", "p1", false⟩, ⟨"p2", "p2", false⟩]
        memories := [{}]
        client := () }
    let e := ((do
      let id ← Act.makeEditor "ed" none {} 0
      let _ ← Act.openEditor id [0] 1
      a) h d).2
    d.coordinators.length + 1 = 1 ∧ d.model.changing = 0 ∧ d.model.available = true ∧
      e.isFollowing d.editors.length = true ∧ (e.editorTabs d.editors.length).pages = [0, 1] ∧
      ∀ p ∈ (e.editorTabs d.editors.length).pages, (∃ shown, e.shown? p = some (shown, e.model.document)) ∧
        (e.view? p = some e.model.document ↔ ¬ e.Overtaken p) := by
  intro append h a d e
  have happend (text : String) (s : Scope) : Act.Client 1 Act.SwitchOrUndo (append text s) :=
    .mutate s fun _ => .pure _
  have hh : h.Clients 1 Act.SwitchOrUndo :=
    .interfering (.bind (.edit (by decide) (happend "2" _)) fun _ => .pure _)
  have ha : Act.Client 1 Act.SwitchOrUndo a :=
    .bind (.undoable _ (by decide) (happend "1" _)) fun _ => .bind (.op .undo) fun _ => .pure _
  have hoffBooks : ∀ deed ∈ e.history.toList,
      (match deed with | .threw _ | .entered _ _ => false | _ => true) = true := by
    rw [← List.all_eq_true]
    decide +kernel
  have hfollowing : e.isFollowing d.editors.length = true := by decide +kernel
  have hnumbered : d.model.Numbered := ⟨by simp [d], by simp [d]⟩
  obtain ⟨w, hw, hrest⟩ :=
    hh.views_follow ha (d := d) rfl (fun _ => rfl) rfl hnumbered "ed" none {} 0 [0] 1 (e := e) rfl
  have hmem {deed : Deed} (hdeed : deed ∈ w) : deed ∈ e.history.toList := hw ▸ List.mem_append_right _ hdeed
  have hviews := hrest (fun c hc => absurd (hoffBooks (.threw c) (hmem hc)) Bool.false_ne_true)
    (fun id depth hentered =>
      absurd (hoffBooks (.entered id depth) (hmem hentered)) Bool.false_ne_true) hfollowing
  exact ⟨rfl, rfl, rfl, hfollowing, by decide +kernel, hviews⟩

end FormDesk

/-
Editors that are opened, disposed of and opened again, whatever their pages do
meanwhile. Each operation keeps what serves tabs covered
(`Act.EditorOpBelow.keeps`): to follow the model is to attach a relay and to give it
to the editor, which lets go of the relay that it had; to dispose of an editor is
to let go of its relay. Nobody is called between the attachment of a relay and
the moment its editor has it, and only there does a subscription serve tabs
that is neither an editor's nor unclaimed nor pending.
-/
import FormDesk.Proofs.Serving

namespace FormDesk

variable {σ α : Type}

namespace Desk

/-- The contract that subscriptions go on being covered, and relays linked. A run that is cut off leaves the
subscription that it was attaching. -/
def keeping (σ : Type) (k : Nat) : Contract σ where
  ended := Keeping k
  cut := Links
  refl := Keeping.path.refl
  trans := Keeping.path.trans
  halt := Links.path.refl
  stop h := Links.path.trans h.links

end Desk

namespace Act

open Desk (keeping Keeping Links OffServing UnjoinedStep KeepsPosts Covered SameTabs)

/-- All that is done with a model by hand, except that it goes on handing out shares and that relays are left alone. -/
inductive StaysAvailable : Actions σ
  | look {β} (f : Desk σ → β) : StaysAvailable (Act.look f)
  | interrupt {β} (message : String) : StaysAvailable (Act.interrupt message : Act σ β)
  | halt {β} : StaysAvailable (Act.halt : Act σ β)
  | own (f : σ → σ) : StaysAvailable (Act.change fun d => { d with client := f d.client })
  | scopeShare (s : Scope) : StaysAvailable (Act.scopeShare s)
  | setRecordable (recordable : Bool) : StaysAvailable (Act.setRecordable recordable)
  | undo : StaysAvailable Act.undo
  | save : StaysAvailable Act.save
  | resourceDeleted : StaysAvailable Act.resourceDeleted
  | resourceMoved (target : String) : StaysAvailable (Act.resourceMoved target)
  | rebuild (document : Document) : StaysAvailable (Act.rebuild document)
  | subscribe (s : Share) (id : ListenerId) : StaysAvailable (Act.subscribe s (.client id))
  | unsubscribe (s : Share) (token : Token) : StaysAvailable (unsubscribeClient s token)
  | shareOp {β} {a : Act σ β} : ShareOp a → StaysAvailable a
  | recordingOp {β} {a : Act σ β} : RecordingOp a → StaysAvailable a

/-- What is done with the editors below `k`, with their pages and with relays of views, and by hand. Whoever makes
pages and the like may change whatever has to do neither with the model nor with relays. -/
inductive EditorOpBelow (k : Nat) : Actions σ
  | hand {β} {a : Act σ β} : StaysAvailable a → EditorOpBelow k a
  | arrange {f : Desk σ → Desk σ} : (∀ d, KeepsPosts d (f d)) → EditorOpBelow k (Act.change f)
  | attach (view : Nat) : EditorOpBelow k (Act.attach (.view view))
  | detach (id : RelayId) : EditorOpBelow k (Act.detach id)
  | letGo (r : Ref) : EditorOpBelow k (Act.letGo r)
  | makeEditor (name : String) (project : Option String) (settings : Settings) (memory : MemoryId) :
      EditorOpBelow k (Act.makeEditor name project settings memory)
  | openEditor {id : EditorId} (hid : id < k) (forms : List PageId) (text : PageId) :
      EditorOpBelow k (Act.openEditor id forms text)
  | dropPages (id : EditorId) : EditorOpBelow k (Act.dropPages id)
  | disposeEditor (id : EditorId) : EditorOpBelow k (Act.disposeEditor id)
  | addForm (id : TabsId) (page : PageId) : EditorOpBelow k (Act.addForm id page)
  | addText (id : TabsId) (title : String) (page : PageId) : EditorOpBelow k (Act.addText id title page)
  | activate (id : TabsId) (index : Nat) : EditorOpBelow k (Act.activate id index)
  | showIndex (id : EditorId) (index : Nat) : EditorOpBelow k (Act.showIndex id index)
  | showPage (id : EditorId) (page : String) : EditorOpBelow k (Act.showPage id page)
  | showInitial (id : EditorId) (page : Option String) : EditorOpBelow k (Act.showInitial id page)
  | commitForms (id : EditorId) (onSave : Bool) : EditorOpBelow k (Act.commitForms id onSave)
  | reveal (id : EditorId) (start stop : Nat) : EditorOpBelow k (Act.reveal id start stop)

variable {k n : Nat} {h : Host σ}

theorem Keeps.links {a : Act σ α} (ha : Keeps (keeping σ k) h a) : Within Links h a :=
  fun d => (ha d).elim (·.links) id

/-! ## Relays that are detached -/

theorem detach_sameTabs (id : RelayId) : Keeps SameTabs.path.contract h (detach id) := by
  have hv : ∀ d e : Desk σ, Desk.Visit d e → SameTabs d e := by
    intro d e hvisit
    cases hvisit with
    | acquire hacquire =>
      obtain ⟨-, rfl, rfl⟩ := Model.acquire_ok hacquire
      exact ⟨rfl, rfl, rfl⟩
    | release hrelease =>
      obtain ⟨-, rfl⟩ := Model.release?_some hrelease
      exact ⟨rfl, rfl, rfl⟩
    | client => exact ⟨rfl, rfl, rfl⟩
  refine detach_keeps hv (fun _ _ _ => ⟨rfl, rfl, rfl⟩) (fun _ _ => ⟨rfl, rfl, rfl⟩) fun _ _ _ m hm => ?_
  obtain rfl := Model.unsubscribe_ok hm
  exact ⟨rfl, rfl, rfl⟩

/-- Detaching a relay returns, and the relay serves nobody any more. -/
theorem detach_covers (id : RelayId) (d : Desk σ) :
    ∃ e, detach id h d = (.returned (), e) ∧ Links d e ∧ SameTabs d e ∧ e.unclaimed = d.unclaimed ∧
      ∀ extra pending, d.Covered k extra pending → (∀ x ∈ extra, (d.relay id).subscription = some x.2) →
        e.Covered k [] pending := by
  have hlinks := detach_links (h := h) id d
  have halong := keeps_contract.1 (detach_sameTabs (h := h) id) d
  cases hrelay : (d.relay id).subscription with
  | none =>
    refine ⟨d, detach_detached hrelay, Links.path.refl d, SameTabs.path.refl d, rfl,
      fun extra pending hd hextra => ?_⟩
    obtain rfl : extra = [] := List.eq_nil_iff_forall_not_mem.2 fun x hx => by simpa using hextra x hx
    exact hd
  | some token =>
    obtain ⟨e, hrun, hdetached⟩ := detach_attached (h := h) hrelay
    rw [hrun] at hlinks halong
    refine ⟨e, hrun, hlinks, halong, hdetached.unclaimed_eq, fun extra pending hd hextra => ?_⟩
    have hnone : extra.filter (·.2 != token) = [] := List.filter_eq_nil_iff.2 fun x hx => by
      simpa using (Option.some.inj (hextra x hx)).symm
    exact hnone ▸ hd.detached (hd.available ▸ hdetached) halong

theorem detach_keeping (id : RelayId) : Keeps (keeping σ k) h (detach id) := by
  intro d
  obtain ⟨e, hrun, hlinks, halong, -, hcovered⟩ := detach_covers (k := k) (h := h) id d
  rw [KeepsFrom, hrun]
  exact ⟨hlinks, Desk.rows_of_posts halong.posts ▸ List.prefix_refl _,
    fun pending hd => hcovered [] pending hd (List.forall_mem_nil _)⟩

/-- An editor that has a relay is one that is there. -/
theorem editor_of_relay {id : EditorId} {r : RelayId} {d : Desk σ} (hr : (d.editor id).relay = some r) :
    id < d.editors.length := by
  refine Nat.lt_of_not_le fun hle => ?_
  rw [Desk.editor, List.getElem?_eq_none hle] at hr
  cases hr

/-- An editor that is given another relay, or none, lets go of the one that it had. -/
theorem repost_covers {id : EditorId} (relay : Option RelayId) {r : RelayId} {d : Desk σ}
    (hold : (d.editor id).relay = some r) :
    ∃ e, detach r h (d.withEditor id fun e => { e with relay }) = (.returned (), e) ∧ Links d e ∧
      (e.rows = d.rows ∧ (e.editor id).relay = relay ∧ e.unclaimed = d.unclaimed) ∧
      ∀ pending, (∀ r, relay = some r → r < d.relays.length) →
        d.Covered k (d.follows? ((d.editor id).tabs, relay)).toList pending → e.Covered k [] pending := by
  have hid := editor_of_relay hold
  have hsteady : Desk.Steady d (d.withEditor id fun e => { e with relay }) := .of_same rfl rfl rfl
  obtain ⟨e, hrun, hlinks, halong, hunclaimed, hcovered⟩ :=
    detach_covers (k := k) (h := h) r (d.withEditor id fun e => { e with relay })
  have hrelay : (e.editor id).relay = relay := by
    rw [Desk.editor, halong.editors]
    exact congrArg Editor.relay ((Desk.editor_withEditor hid _ id).trans (if_pos rfl))
  refine ⟨e, hrun, Links.path.trans hsteady.links hlinks,
    ⟨(Desk.rows_of_posts halong.posts).trans (d.rows_withEditor id fun _ => rfl), hrelay, hunclaimed⟩,
    fun pending hlt hd => ?_⟩
  refine hcovered _ pending (hd.repost hid hlt List.perm_append_comm) fun x hx => ?_
  change (d.relay r).subscription = some x.2
  obtain ⟨token, htoken, rfl⟩ := Option.map_eq_some_iff.1 (Option.mem_toList.1 hx)
  simpa [Editor.post, hold] using htoken

/-- Disposing of an editor returns. The editor does not follow the model any more, and its relay serves nobody. -/
theorem disposeEditor_covers (id : EditorId) (d : Desk σ) :
    ∃ e, disposeEditor id h d = (.returned (), e) ∧ Keeping k d e ∧ e.isFollowing id = false ∧
      e.unclaimed = d.unclaimed := by
  cases hold : (d.editor id).relay with
  | none =>
    refine ⟨d, ?_, Keeping.path.refl d, Desk.not_following hold, rfl⟩
    simp only [disposeEditor, look_bind, hold, pure_run]
  | some r =>
    obtain ⟨e, hrun, hlinks, ⟨hrows, hrelay, hunclaimed⟩, hcovered⟩ :=
      repost_covers (k := k) (h := h) none hold
    refine ⟨e, ?_, ⟨hlinks, hrows ▸ List.prefix_refl _, fun pending hd => hcovered pending (by simp) hd⟩,
      Desk.not_following hrelay, hunclaimed⟩
    simp only [disposeEditor, look_bind, hold, change_bind, hrun]

theorem disposeEditor_keeping (id : EditorId) : Keeps (keeping σ k) h (disposeEditor id) := by
  intro d
  obtain ⟨e, hrun, hkeeping, -⟩ := disposeEditor_covers (k := k) (h := h) id d
  rw [KeepsFrom, hrun]
  exact hkeeping

/-- An editor gets a relay that was attached for its tabs. -/
theorem replaceRelay_covers (id : EditorId) (relay : RelayId) (d : Desk σ) :
    ∃ e, replaceRelay id relay h d = (.returned (), e) ∧ Links d e ∧ e.rows = d.rows ∧
      ∀ pending, id < d.editors.length → relay < d.relays.length →
        d.Covered k (d.follows? ((d.editor id).tabs, some relay)).toList pending → e.Covered k [] pending := by
  cases hold : (d.editor id).relay with
  | none =>
    have hsteady : Desk.Steady d (d.withEditor id fun e => { e with relay := some relay }) := .of_same rfl rfl rfl
    refine ⟨_, ?_, hsteady.links, d.rows_withEditor id fun _ => rfl, fun pending hid hrelay hd => ?_⟩
    · simp only [replaceRelay, look_bind, hold, change_bind, pure_run]
    · refine hd.repost hid (fun r hr => Option.some.inj hr ▸ hrelay) ?_
      have hnone : d.follows? (d.editor id).post = none := by simp [Desk.follows?, Editor.post, hold]
      rw [hnone]
      exact List.perm_append_comm
  | some r =>
    obtain ⟨e, hrun, hlinks, ⟨hrows, -⟩, hcovered⟩ := repost_covers (k := k) (h := h) (some relay) hold
    refine ⟨e, ?_, hlinks, hrows, fun pending _ hrelay hd =>
      hcovered pending (fun r hr => Option.some.inj hr ▸ hrelay) hd⟩
    simp only [replaceRelay, look_bind, hold, change_bind, hrun]

/-! ## Relays that are attached -/

section

variable (hc : ∀ c, Keeps (keeping σ k) h fun _ => h.answer c)

include hc

theorem call_keeping (c : Callback) : Keeps (keeping σ k) h (call c) :=
  call_keeps (fun d _ => (OffServing.enter d rfl rfl).keeping) (fun d _ => (OffServing.enter d rfl rfl).keeping)
    (fun _ e _ hcut => Links.path.trans hcut (Desk.Steady.enter e rfl).links) hc c

theorem deliver_keeping (event : Event) (l : Listener) : Keeps (keeping σ k) h (deliver event l) :=
  deliver_keeps (call_keeping hc)
    (fun d l => (OffServing.of_same (d := d) (e := { d with held := l }) rfl rfl rfl rfl (Nat.le_refl _)).keeping)
      event l

theorem emit_keeping (event : Event) : Keeps (keeping σ k) h (emit event) :=
  fun d => emit_keeps (deliver_keeping hc) (OffServing.enter d rfl rfl).keeping

/-- An attachment leaves a relay that serves its observer, if it answers one; what it leaves otherwise is covered. -/
theorem attach_covers (o : Observer) (d : Desk σ) :
    match attach o h d with
    | (.returned (.ok r), e) => Links d e ∧ d.rows <+: e.rows ∧ r < e.relays.length ∧ ∃ token,
        (e.relay r).subscription = some token ∧
        ∀ pending, d.Covered k [] pending → e.Covered k ([(o, token)].filter (·.1.isTabs)) pending
    | (.returned (.error _), e) | (.interrupted _, e) => Keeping k d e
    | (.fatal, e) => Links d e := by
  have hlinks := attach_links (fun c => (hc c).links) o d
  cases hacquire : d.model.acquire .read with
  | error e =>
    rw [attach_refused hacquire]
    exact Keeping.path.refl d
  | ok taken =>
    obtain ⟨s, m⟩ := taken
    have hsubscribe := Model.subscribe_of_live (Model.accessOf?_acquire hacquire) (.relay o)
    have hfirst : OffServing d (d.accepted s (.acquire .read) m) := (Desk.Visit.acquire hacquire).offServing
    have hjoined (pending) (hd : d.Covered k [] pending) :
        ((d.accepted s (.acquire .read) m).subscribed s o).Covered k [] ((o, m.nextToken) :: pending) :=
      (hfirst.covered hd).subscribed hsubscribe
    have hrows : ((d.accepted s (.acquire .read) m).subscribed s o).rows = d.rows := rfl
    generalize hd₁ : (d.accepted s (.acquire .read) m).subscribed s o = d₁ at hjoined hrows
    have hshown := deliver_keeping hc (.changed (d₁.model.documentFor s)) (.relay o) d₁
    have hback (e : Desk σ) : Keeping k e (release s h e).2 :=
      release_within Keeping.path (fun _ _ hvisit => (Desk.Visit.offServing hvisit).keeping) s e
    -- The token is pending until a relay has it, and unclaimed if the observer interrupts.
    unfold KeepsFrom at hshown
    rcases hnotify : notifyPresent o (.changed (d₁.model.documentFor s)) h d₁ with ⟨outcome, d₂⟩
    change (keeping σ k).At (notifyPresent o (.changed (d₁.model.documentFor s)) h d₁).1 d₁
      (notifyPresent o (.changed (d₁.model.documentFor s)) h d₁).2 at hshown
    rw [hnotify] at hshown
    cases outcome with
    | returned _ =>
      have hattach := attach_run hacquire hd₁ hnotify
      rw [hattach] at hlinks ⊢
      have hthrough : Keeping k d₁ (release s h d₂).2 := Keeping.path.trans hshown (hback d₂)
      refine ⟨hlinks, hrows ▸ hthrough.rows, by simp, m.nextToken, ?_, fun pending hd => ?_⟩
      · rw [Desk.relay_added, if_pos rfl]
      · exact (hthrough.covered _ (hjoined pending hd)).added
    | interrupted message =>
      rw [attach_interrupted hacquire hd₁ hnotify] at hlinks ⊢
      have hthrough : Keeping k d₁ d₂ := hshown
      have hlast := hback (d₂.enter (.unclaimed o m.nextToken))
      exact ⟨hlinks, (hrows ▸ hthrough.rows).trans hlast.rows, fun pending hd =>
        hlast.covered _ (hthrough.covered _ (hjoined pending hd)).unclaim⟩
    | fatal =>
      rw [attach_fatal hacquire hd₁ hnotify] at hlinks ⊢
      exact hlinks

/-- A relay of a view serves no tabs. -/
theorem attach_keeping (view : Nat) : Keeps (keeping σ k) h (attach (.view view)) := by
  intro d
  have hattach := attach_covers hc (.view view) d
  rw [KeepsFrom]
  rcases hrun : attach (.view view) h d with ⟨_ | _ | _, e⟩ <;> rw [hrun] at hattach
  case returned answer =>
    cases answer with
    | error cause => exact hattach
    | ok r =>
      obtain ⟨hlinks, hrows, -, _, -, hcovered⟩ := hattach
      exact ⟨hlinks, hrows, hcovered⟩
  all_goals exact hattach

/-- An editor that follows the model has the relay that was attached for its tabs. -/
theorem followModel_keeping {id : EditorId} (hid : id < k) : Keeps (keeping σ k) h (followModel id) := by
  intro d
  have hattach := attach_covers hc (.tabs (d.editor id).tabs) d
  rw [KeepsFrom]
  simp only [followModel, look_bind]
  rcases hrun : attach (.tabs (d.editor id).tabs) h d with ⟨_ | _ | _, e⟩ <;> rw [hrun] at hattach
  case interrupted =>
    rw [bind_interrupted hrun]
    exact hattach
  case fatal =>
    rw [bind_fatal hrun]
    exact hattach
  case returned answer =>
    rw [bind_run hrun]
    cases answer with
    | error cause => exact Keeping.path.trans hattach (UnjoinedStep.client e _).offServing.keeping
    | ok r =>
      obtain ⟨hlinks, hrows, hr, token, htoken, hcovered⟩ := hattach
      obtain ⟨f, hreplace, hlinks', hrows', hcovered'⟩ := replaceRelay_covers (k := k) (h := h) id r e
      simp only [hreplace]
      refine ⟨Links.path.trans hlinks hlinks', hrows' ▸ hrows, fun pending hd => ?_⟩
      obtain ⟨hid', htabs⟩ := Desk.editor_of_rows hrows (Nat.lt_of_lt_of_le hid hd.posted.size)
      have hfollows : e.follows? ((e.editor id).tabs, some r) = some (.tabs (d.editor id).tabs, token) := by
        simp [Desk.follows?, htoken, htabs]
      refine hcovered' pending hid' hr ?_
      rw [hfollows]
      exact hcovered pending hd

end

/-! ## Editors that are made -/

theorem makeEditor_keeping (name : String) (project : Option String) (settings : Settings) (memory : MemoryId) :
    Keeps (keeping σ k) h (makeEditor name project settings memory) := by
  refine (Keeps.look _).bind fun id => Keeps.bind (.change fun d => ?_) fun _ => .pure id
  exact Desk.made_keeping rfl rfl rfl (by simp [Desk.posts, Editor.post]) (by simp)

/-! ## All that is done with editors -/

section

variable (hc : ∀ c, Keeps (keeping σ k) h fun _ => h.answer c)

include hc

theorem StaysAvailable.keeps {a : Act σ α} (ha : StaysAvailable a) : Keeps (keeping σ k) h a := by
  have hunjoined : ∀ d e : Desk σ, UnjoinedStep d e → Keeping k d e := fun _ _ hstep => hstep.offServing.keeping
  have hv : ∀ d e : Desk σ, Desk.Visit d e → Keeping k d e := fun _ _ hvisit => hvisit.offServing.keeping
  have hemit := emit_keeping hc
  cases ha with
  | look f => exact .look f
  | interrupt message => exact .interrupt message
  | halt => exact .halt
  | own f => exact .change fun d => hunjoined _ _ (.client d _)
  | scopeShare s => exact scopeShare_keeps s
  | setRecordable recordable => exact .change fun _ => hunjoined _ _ (.recordable recordable)
  | undo => exact undo_untoldStep hunjoined hemit
  | save => exact save_keeps (fun _ => hunjoined _ _ .saved) (hemit _)
  | resourceDeleted => exact hemit .resourceDeleted
  | resourceMoved target => exact resourceMoved_keeps (fun _ => hunjoined _ _ (.moved target)) fun _ => hemit _
  | rebuild document => exact rebuild_keeps (hemit _) (fun _ => hunjoined _ _ (.rebuilt document)) (hemit _)
  | subscribe s id => exact subscribe_keeps fun _ _ _ hs => (Desk.subscribed_offServing hs).keeping
  | unsubscribe s token =>
    intro d
    unfold KeepsFrom
    simp only [unsubscribeClient, look_bind]
    cases hrelayed : d.model.subscriptions.any fun s => s.token == token && s.relayed with
    | true => exact Keeping.path.refl d
    | false =>
      refine unsubscribe_keeps (note_keeps hv) fun m hm =>
        (Desk.unsubscribed_offServing (fun s hs htoken => ?_) hm).keeping
      simpa [htoken] using List.any_eq_false.1 hrelayed s hs
  | shareOp ha =>
    cases ha with
    | acquire access => exact acquire_keeps hv access
    | release s => exact release_keeps hv s
    | openBracket s => exact openBracket_untoldStep hunjoined hemit s
    | closeBracket s => exact closeBracket_untoldStep hunjoined hemit s
  | recordingOp ha => exact ha.keeps (note_keeps hv) fun _ _ hrecorded => hunjoined _ _ (.recorded hrecorded)

theorem ArrangeOp.keeps {a : Act σ α} (ha : ArrangeOp a) : Keeps (keeping σ k) h a := by
  cases ha with
  | look f => exact .look f
  | note n => exact fun d => (UnjoinedStep.client d _).offServing.keeping
  | arrange hf => exact .change fun d => (hf d).offServing.keeping
  | ask => exact call_keeping hc _

theorem EditorOpBelow.keeps {a : Act σ α} (ha : EditorOpBelow k a) : Keeps (keeping σ k) h a := by
  have hunjoined : ∀ d e : Desk σ, UnjoinedStep d e → Keeping k d e := fun _ _ hstep => hstep.offServing.keeping
  have htrusts : Trusts 0 (fun a => Keeps (keeping σ k) h a) (keeping σ k) h :=
    .untoldSteps hunjoined (emit_keeping hc) 0 fun hop => hop
  have hpage {β : Type} {b : Act σ β} (hb : Caller 0 ArrangeOp b) : Keeps (keeping σ k) h b :=
    (hb.mono fun hb => .op (hb.keeps hc)).keeps htrusts
  have hpageOp {β : Type} {b : Act σ β} (hb : Caller 0 PageOp b) : Keeps (keeping σ k) h b :=
    hpage (hb.mono ArrangeOp.of_pageOp)
  cases ha with
  | hand ha => exact ha.keeps hc
  | arrange hf => exact hpage (ArrangeOp.caller_arrange hf)
  | attach view => exact attach_keeping hc view
  | detach id => exact detach_keeping id
  | letGo r =>
    exact (ArrangeOp.letGo (fun hb => hb.keeps hc) (fun id => .op (disposeEditor_keeping id)) r).keeps htrusts
  | makeEditor name project settings memory => exact makeEditor_keeping name project settings memory
  | openEditor hid forms text =>
    exact (ArrangeOp.openEditor (fun hb => hb.keeps hc) (.op (followModel_keeping hc hid)) forms text).keeps htrusts
  | dropPages id => exact hpageOp (PageOp.dropPages id)
  | disposeEditor id => exact disposeEditor_keeping id
  | addForm id page => exact hpageOp (PageOp.addForm id page)
  | addText id title page => exact hpageOp (PageOp.addText id title page)
  | activate id index => exact hpageOp (PageOp.activate id index)
  | showIndex id index => exact hpageOp (PageOp.showIndex id index)
  | showPage id page => exact hpageOp (PageOp.showPage id page)
  | showInitial id page => exact hpageOp (PageOp.showInitial id page)
  | commitForms id onSave => exact hpageOp (PageOp.commitForms id onSave)
  | reveal id start stop => exact hpageOp (PageOp.reveal id start stop)

end

end Act

/-! ## What serves an editor, and what its pages are shown -/

/-- A page is shown a document because it changed, or because its tabs were attached. -/
def Deed.shows (page : PageId) : Deed → Bool
  | told (.pageChanged p _) _ => p == page
  | _ => false

namespace Desk

/-- How many subscriptions serve the tabs. -/
def feeds (d : Desk σ) (t : TabsId) : Nat := d.model.subscriptions.countP (·.listener == .relay (.tabs t))

/-- How many subscriptions of the tabs went unclaimed. -/
def strays (d : Desk σ) (t : TabsId) : Nat := d.unclaimed.countP (·.1 == .tabs t)

/-- How often the page was shown a document. -/
def shown (d : Desk σ) (page : PageId) : Nat := d.history.toList.countP (Deed.shows page)

variable {d : Desk σ} {k : Nat} {t : TabsId} {page : PageId}

theorem serving_feeds (d : Desk σ) (t : TabsId) : d.serving.countP (·.1 == .tabs t) = d.feeds t := by
  rw [serving, List.countP_filterMap, feeds]
  refine List.countP_congr fun s _ => ?_
  obtain ⟨token, listener⟩ := s
  cases listener with
  | client _ => simp [Subscription.serves?]
  | relay o => cases o <;> simp [Subscription.serves?]

/-- Whether an editor with this post serves the tabs. -/
def attends (d : Desk σ) (t : TabsId) (p : TabsId × Option RelayId) : Bool :=
  ((d.follows? p).map (·.1 == .tabs t)).getD false

theorem attends_post (d : Desk σ) (id : EditorId) :
    d.attends (d.editor id).tabs (d.editor id).post = d.isFollowing id := by
  unfold attends isFollowing
  cases hr : (d.editor id).relay with
  | none => simp [follows?, Editor.post, hr]
  | some r => cases hrelay : (d.relay r).subscription <;> simp [follows?, Editor.post, hr, hrelay]

theorem attends_other {p : TabsId × Option RelayId} (hne : p.1 ≠ t) : d.attends t p = false := by
  unfold attends
  cases hfollows : d.follows? p with
  | none => rfl
  | some x =>
    obtain ⟨token, -, rfl⟩ := Option.map_eq_some_iff.1 hfollows
    simpa using hne

/-- Tabs are served by the editor alone whose tabs they are. -/
theorem Posted.followed (hd : d.Posted k) {id : EditorId} (hid : id < d.editors.length) :
    d.followed.countP (·.1 == .tabs (d.editor id).tabs) = (d.isFollowing id).toNat := by
  obtain ⟨before, after, hposts, -⟩ := posts_withEditor hid
  have hmem : (d.editor id).post ∈ d.posts := by simp [hposts]
  have hcount := Model.countP_apart Prod.fst (List.pairwise_map.1 hd.apart) hmem (d.attends (d.editor id).tabs)
  have hothers : (d.posts.filter (·.1 != (d.editor id).tabs)).countP (d.attends (d.editor id).tabs) = 0 := by
    refine List.countP_eq_zero.2 fun p hp => ?_
    rw [attends_other (bne_iff_ne.1 (List.mem_filter.1 hp).2)]
    exact Bool.false_ne_true
  rw [Desk.followed, List.countP_filterMap]
  refine hcount.trans ?_
  rw [attends_post]
  change List.countP _ (d.posts.filter (·.1 != (d.editor id).tabs)) + _ = _
  rw [hothers]
  cases d.isFollowing id <;> rfl

/-- The subscriptions that serve an editor's tabs are its own, while it follows the model, and those that went
unclaimed. -/
theorem Covered.feeds (hd : d.Covered k [] []) {id : EditorId} (hid : id < d.editors.length) :
    d.feeds (d.editor id).tabs = (d.isFollowing id).toNat + d.strays (d.editor id).tabs := by
  have hcount := hd.serving.countP_eq (·.1 == .tabs (d.editor id).tabs)
  rw [serving_feeds, List.countP_append, hd.posted.followed hid, List.nil_append, List.append_nil,
    List.countP_filter] at hcount
  rw [hcount, strays]
  congr 1
  refine List.countP_congr fun x _ => ?_
  cases hx : x.1 <;> simp [Observer.isTabs]

/-- Where no tabs interrupted as they were attached, no subscription of theirs is unclaimed. -/
theorem strays_of_claimed (h : ∀ token, .unclaimed (.tabs t) token ∉ d.history.toList) : d.strays t = 0 := by
  refine List.countP_eq_zero.2 fun x hx => ?_
  obtain ⟨deed, hdeed, hx⟩ := List.mem_filterMap.1 hx
  cases deed with
  | unclaimed o token =>
    cases hx
    intro hobserver
    obtain rfl : o = .tabs t := beq_iff_eq.1 hobserver
    exact h token hdeed
  | _ => cases hx

section

variable (document : Option Document) (honly : ∀ other, other ≠ t → page ∉ (d.tabsOf other).pages)

include honly

theorem told_shown (l : Listener) : (d.told (.changed document) l).countP (Deed.shows page) =
    if l = .relay (.tabs t) ∧ d.present (.tabs t) = true then (d.tabsOf t).pages.count page else 0 := by
  have hpages (other : TabsId) : (d.observed (.changed document) (.tabs other)).countP (Deed.shows page) =
      (d.tabsOf other).pages.count page := by
    rw [observed, List.countP_map]
    rfl
  cases l with
  | client _ => rfl
  | relay o =>
    simp only [told]
    cases o with
    | view id => cases d.present (.view id) <;> rfl
    | tabs other =>
      by_cases hother : other = t
      · subst hother
        cases d.present (.tabs other) <;> simp [hpages]
      · have hnone := List.count_eq_zero.2 (honly other hother)
        cases d.present (.tabs other) <;> simp [hother, hpages, hnone]

/-- What a page is shown when the document changed, if it belongs to no other tabs. -/
theorem tellings_shown : (d.tellings (.changed document)).countP (Deed.shows page) =
    if d.present (.tabs t) then d.feeds t * (d.tabsOf t).pages.count page else 0 := by
  unfold tellings feeds
  induction d.model.subscriptions with
  | nil => simp
  | cons s rest ih =>
    rw [List.flatMap_cons, List.countP_append, ih, told_shown document honly, List.countP_cons]
    cases d.present (.tabs t) with
    | false => simp
    | true => by_cases hs : s.listener = .relay (.tabs t) <;> simp [hs, Nat.add_mul, Nat.add_comm]

end

end Desk

/-- With bystanders, a page is shown a changed document once for each subscription that serves its tabs. -/
theorem Act.emit_shows {b : Host σ} (hb : b.Bystander) {d : Desk σ} {t : TabsId} {page : PageId}
    (honly : ∀ other, other ≠ t → page ∉ (d.tabsOf other).pages) (document : Option Document) :
    ∃ e, emit (.changed document) b d = (.returned (), e) ∧ e.shown page =
      d.shown page + if d.present (.tabs t) then d.feeds t * (d.tabsOf t).pages.count page else 0 := by
  obtain ⟨s, hs⟩ := emit_run hb (.changed document) d
  refine ⟨_, hs, ?_⟩
  rw [Desk.shown, Desk.toList_later, List.countP_append, List.countP_cons_of_neg (by simp [Deed.shows]),
    Desk.tellings_shown document honly]
  rfl

namespace Host.Callers

variable {k n : Nat} {h : Host σ}

/-- Whatever is done with editors keeps the subscriptions that serve tabs covered. -/
theorem keeping (hh : h.Callers n (Act.EditorOpBelow k)) {a : Act σ α} (ha : Act.Caller n (Act.EditorOpBelow k) a) :
    Act.Keeps (Desk.keeping σ k) h a :=
  hh.keeps (fun _ hc => .untoldSteps (fun _ _ hunjoined => hunjoined.offServing.keeping) (Act.emit_keeping hc) n
    fun hop => hop.keeps hc) ha

/-- **An editor is served by one subscription while it follows the model, and by none otherwise**, but for those
that went unclaimed. Pages may interrupt whenever they are told something, and open, dispose of and drop editors
from within. Wherever a run ends that was not cut off, and as long as no page interrupted while the tabs were
being attached, a page that is there once is shown a document that changed once at most, and never again after
the editor was disposed of. -/
theorem editors_served (hh : h.Callers n (Act.EditorOpBelow k)) {a : Act σ α}
    (ha : Act.Caller n (Act.EditorOpBelow k) a) {d e : Desk σ} (hd : d.Covered k [] []) (hrun : (a h d).2 = e)
    (hended : (a h d).1 ≠ .fatal) :
    e.Covered e.editors.length [] [] ∧ ∀ id < e.editors.length, ∀ t, (e.editor id).tabs = t →
      e.feeds t = (e.isFollowing id).toNat + e.strays t ∧
      ((∀ token, .unclaimed (.tabs t) token ∉ e.history.toList) →
        e.feeds t ≤ 1 ∧ (e.feeds t = 1 ↔ e.isFollowing id = true) ∧
        (∀ page, (e.tabsOf t).pages.count page ≤ 1 → (∀ other, other ≠ t → page ∉ (e.tabsOf other).pages) →
          ∀ b : Host σ, b.Bystander → ∀ document, ∃ f, Act.emit (.changed document) b e = (.returned (), f) ∧
            f.shown page ≤ e.shown page + 1) ∧
        ∃ f, Act.disposeEditor id h e = (.returned (), f) ∧ f.isFollowing id = false ∧ f.feeds t = 0 ∧
          ∀ page, (∀ other, other ≠ t → page ∉ (f.tabsOf other).pages) → ∀ b : Host σ, b.Bystander →
            ∀ document, ∃ g, Act.emit (.changed document) b f = (.returned (), g) ∧ g.shown page = f.shown page) := by
  have hkept : Desk.Keeping k d e := hrun ▸ (hh.keeping ha d).ended hended
  have he := hkept.covered [] hd
  refine ⟨{ he with posted := { he.posted with size := Nat.le_refl _ } }, fun id hid t ht => ?_⟩
  subst ht
  have hfeeds := he.feeds hid
  refine ⟨hfeeds, fun hclaimed => ?_⟩
  have hstrays : e.strays (e.editor id).tabs = 0 := Desk.strays_of_claimed hclaimed
  have hserved : e.feeds (e.editor id).tabs = (e.isFollowing id).toNat := by rw [hfeeds, hstrays, Nat.add_zero]
  have hone : e.feeds (e.editor id).tabs ≤ 1 := hserved ▸ Bool.toNat_le _
  refine ⟨hone, ?_, fun page hcount honly b hb document => ?_, ?_⟩
  · rw [hserved, Bool.toNat_eq_one]
  · obtain ⟨f, hrun, hshown⟩ := Act.emit_shows hb honly document
    refine ⟨f, hrun, hshown ▸ Nat.add_le_add_left ?_ _⟩
    split
    · exact Nat.mul_le_mul hone hcount
    · exact Nat.zero_le 1
  · obtain ⟨f, hrun, hkeeping, hnot, hunclaimed⟩ := Act.disposeEditor_covers (k := k) (h := h) id e
    obtain ⟨hid', htabs⟩ := Desk.editor_of_rows hkeeping.rows hid
    have hnone : f.feeds (e.editor id).tabs = 0 := by
      rw [← htabs, (hkeeping.covered [] he).feeds hid', hnot, htabs, Desk.strays, hunclaimed]
      exact (Nat.zero_add _).trans hstrays
    refine ⟨f, hrun, hnot, hnone, fun page honly b hb document => ?_⟩
    obtain ⟨g, hemit, hshown⟩ := Act.emit_shows hb honly document
    exact ⟨g, hemit, by rw [hshown, hnone, Nat.zero_mul, ite_self, Nat.add_zero]⟩

/-- A page that, when it is shown the document for the first time, drops all pages and opens the editor again. The
editor that is being opened then gives up the relay that it got from within. After an edit it is served by one
subscription, and when it was disposed of by none. -/
theorem editors_served_reopening :
    let append (text : String) (s : Scope) : Act Bool (Except ModelError Unit) :=
      Act.mutateIn s fun document => pure ((), document ++ text)
    let h : Host Bool := .answering do
      if ← Act.look (·.client) then
        Act.change fun d => { d with client := false }
        Act.dropPages 0
        let _ ← Act.openEditor 0 [0] 1
    let a : Act Bool Unit := do
      let _ ← Act.openEditor 0 [0] 1
      let _ ← Act.edit 0 (append "1")
    let d : Desk Bool :=
      { model := { document := some "d" }
        coordinators := [{}]
        tabs := [{}]
        pages := [⟨"a", "A", false⟩, ⟨"b", "B", false⟩]
        memories := [{}]
        editors := [{ name := "e", coordinator := 0, tabs := 0, memory := 0 }]
        held := [.editor 0, .tabs 0]
        client := true }
    h.Callers 1 (Act.EditorOpBelow 1) ∧ Act.Caller 1 (Act.EditorOpBelow 1) a ∧ d.Covered 1 [] [] ∧
    (a h d).1 ≠ .fatal ∧
      (a h d).2.isFollowing 0 = true ∧ (a h d).2.feeds 0 = 1 ∧ (a h d).2.model.tally.unsubscribed = 1 ∧
      ∃ f, Act.disposeEditor 0 h (a h d).2 = (.returned (), f) ∧ f.isFollowing 0 = false ∧ f.feeds 0 = 0 := by
  intro append h a d
  have happend (text : String) (s : Scope) : Act.Caller 1 (Act.EditorOpBelow 1) (append text s) :=
    .bind (.op (.hand (.scopeShare s))) fun share => .mutate share fun _ => .pure _
  have hopen : Act.Caller 1 (Act.EditorOpBelow 1) (Act.openEditor 0 [0] 1 : Act Bool _) :=
    .op (.openEditor (by decide) _ _)
  have hh : h.Callers 1 (Act.EditorOpBelow 1) := .answering <| .bind (.op (.hand (.look _))) fun again => by
    cases again with
    | false => exact .pure ()
    | true =>
      exact .bind (.op (.hand (.own fun _ => false))) fun _ => .bind (.op (.dropPages 0)) fun _ =>
        .bind hopen fun _ => .pure ()
  have ha : Act.Caller 1 (Act.EditorOpBelow 1) a := .bind hopen fun _ =>
    .bind (.edit (by decide) (happend "1" _)) fun _ =>
    .pure ()
  have hd : d.Covered 1 [] [] := .new rfl (by decide) rfl rfl ⟨by decide, by decide, by decide, by decide⟩
  have hended : (a h d).1 ≠ .fatal := by decide +kernel
  have hfollowing : (a h d).2.isFollowing 0 = true := by decide +kernel
  have hnone : (a h d).2.unclaimed = [] := by decide +kernel
  have hclaimed (token : Token) : .unclaimed (.tabs 0) token ∉ (a h d).2.history.toList := fun hmem =>
    Option.some_ne_none _ (List.filterMap_eq_nil_iff.1 hnone _ hmem)
  have hid : 0 < (a h d).2.editors.length := by decide +kernel
  have htabs : ((a h d).2.editor 0).tabs = 0 := by decide +kernel
  obtain ⟨-, hserved⟩ := hh.editors_served ha hd rfl hended
  obtain ⟨-, ⟨-, hone⟩, -, f, hrun, hnot, hfeeds, -⟩ := (hserved 0 hid 0 htabs).2 hclaimed
  exact ⟨hh, ha, hd, hended, hfollowing, hone hfollowing, by decide +kernel, f, hrun, hnot, hfeeds⟩

end Host.Callers

/-- A page that interrupts as the editor is opened, and an editor that is opened again without pages: from then on
two subscriptions serve it, its pages are shown each change twice, and disposing of it leaves one. -/
theorem Host.page_served_twice :
    let append (text : String) (s : Scope) : Act Bool (Except ModelError Unit) :=
      Act.mutateIn s fun document => pure ((), document ++ text)
    let h : Host Bool := .answering do
      if ← Act.look (·.client) then
        Act.change fun d => { d with client := false }
        Act.interrupt "page"
    let interrupted : Act Bool Unit := do
      let _ ← Act.attempt (Act.openEditor 0 [0] 1)
    let reopened : Act Bool Unit := do
      interrupted
      Act.dropPages 0
      let _ ← Act.openEditor 0 [0] 1
    let d : Desk Bool :=
      { model := { document := some "d" }
        coordinators := [{}]
        tabs := [{}]
        pages := [⟨"a", "A", false⟩, ⟨"b", "B", false⟩]
        memories := [{}]
        editors := [{ name := "e", coordinator := 0, tabs := 0, memory := 0 }]
        held := [.editor 0, .tabs 0]
        client := true }
    let e := (reopened h d).2
    Act.Caller 1 (Act.EditorOpBelow 1) reopened ∧ d.Covered 1 [] [] ∧
      (interrupted h d).2.isFollowing 0 = false ∧ (interrupted h d).2.feeds 0 = 1 ∧
      e.isFollowing 0 = true ∧ e.feeds 0 = 2 ∧
      (Act.edit 0 (append "1") h e).2.shown 0 = e.shown 0 + 2 ∧
      (Act.disposeEditor 0 h e).2.isFollowing 0 = false ∧ (Act.disposeEditor 0 h e).2.feeds 0 = 1 := by
  intro append h interrupted reopened d e
  have hopen : Act.Caller 1 (Act.EditorOpBelow 1) (Act.openEditor 0 [0] 1 : Act Bool _) :=
    .op (.openEditor (by decide) _ _)
  have hreopened : Act.Caller 1 (Act.EditorOpBelow 1) reopened :=
    .bind (.bind (.attempt hopen) fun _ => .pure _) fun _ => .bind (.op (.dropPages 0)) fun _ =>
      .bind hopen fun _ => .pure _
  exact ⟨hreopened, .new rfl (by decide) rfl rfl ⟨by decide, by decide, by decide, by decide⟩, by decide +kernel,
    by decide +kernel, by decide +kernel, by decide +kernel, by decide +kernel, by decide +kernel, by decide +kernel⟩

end FormDesk

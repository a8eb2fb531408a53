/-
The page that is remembered. An editor that is to remember its page stores the
index of each page that it shows, as a numeral, under a key that names the kind of
editor and the resource (`Shown.remembers`). When an editor of the same kind is
opened for the same resource, the numeral is read back, and stands before the
settings: the page is shown if there are enough pages, and the first one otherwise;
then nothing is stored (`remembered_again`).

Pages that are told something may do what they like meanwhile, as long as they leave
the editor as it is (`Host.LeavesEditor`) and what is remembered of it (`Host.LeavesMemory`).
While pages are being created nothing is stored.
-/
import FormDesk.Proofs.Installing
import FormDesk.Proofs.Refusal

namespace FormDesk

variable {σ α β : Type}

namespace Desk

/-! ## What is left alone -/

/-- What a memory holds under a key is as it was, and so is whether the memory can be written. -/
def Recalls (m : MemoryId) (key : String) (d e : Desk σ) : Prop :=
  m < d.memories.length → m < e.memories.length ∧ (e.memory m).readOnly = (d.memory m).readOnly ∧
    (e.memory m).load key = (d.memory m).load key

/-- An editor is what it was, but for its relay, and has the same pages and the same one of them active. -/
def Undisturbed (id : EditorId) (d e : Desk σ) : Prop :=
  id < d.editors.length → id < e.editors.length ∧ (∃ relay, e.editor id = { d.editor id with relay }) ∧
    e.editorTabs id = d.editorTabs id

section

variable {d e : Desk σ} {id : EditorId} {m : MemoryId} {key : String}

theorem Recalls.path : Path (Recalls (σ := σ) m key) where
  refl _ hm := ⟨hm, rfl, rfl⟩
  trans h h' hm := by
    obtain ⟨hm₁, hreadOnly, hload⟩ := h hm
    obtain ⟨hm₂, hreadOnly', hload'⟩ := h' hm₁
    exact ⟨hm₂, hreadOnly'.trans hreadOnly, hload'.trans hload⟩

theorem Undisturbed.path : Path (Undisturbed (σ := σ) id) where
  refl _ hid := ⟨hid, ⟨_, rfl⟩, rfl⟩
  trans h h' hid := by
    obtain ⟨hid₁, ⟨relay, heditor⟩, htabs⟩ := h hid
    obtain ⟨hid₂, ⟨relay', heditor'⟩, htabs'⟩ := h' hid₁
    exact ⟨hid₂, ⟨relay', by rw [heditor', heditor]⟩, htabs'.trans htabs⟩

theorem Recalls.of_memories (h : e.memories = d.memories) : Recalls m key d e := by
  intro hm
  have hsame : e.memory m = d.memory m := by rw [memory, h, memory]
  exact ⟨by rwa [h], by rw [hsame], by rw [hsame]⟩

theorem Undisturbed.of_same (heditors : e.editors = d.editors) (htabs : e.tabs = d.tabs) : Undisturbed id d e := by
  intro hid
  have heditor : e.editor id = d.editor id := by rw [editor, heditors, editor]
  exact ⟨by rwa [heditors], ⟨_, heditor⟩, by rw [editorTabs, heditor, tabsOf, htabs]; rfl⟩

theorem Undisturbed.withRelay (relay : Option RelayId) :
    Undisturbed id d (d.withEditor id fun e => { e with relay }) := by
  intro hid
  have heditor := editor_withEditor hid (fun e => { e with relay }) id
  rw [if_pos rfl] at heditor
  refine ⟨by simpa [withEditor] using hid, ⟨relay, heditor⟩, ?_⟩
  rw [editorTabs, heditor]
  rfl

/-- Where pages are, there are tabs. -/
theorem lt_of_count (h : 0 < (d.editorTabs id).count) : (d.editor id).tabs < d.tabs.length := by
  by_contra hnone
  simp [editorTabs, tabsOf, List.getElem?_eq_none (Nat.le_of_not_lt hnone), Tabs.count] at h

/-! ## Editors that remember -/

/-- An editor that remembers under a key of a memory which page it shows. -/
structure RemembersUnder (d : Desk σ) (id : EditorId) (m : MemoryId) (key : String) : Prop where
  present : id < d.editors.length
  memory : (d.editor id).memory = m
  key : d.memoryKey id = key
  remembers : (d.editor id).settings.remembers = true
  created : (d.editor id).creating = false
  kept : m < d.memories.length
  writable : (d.memory m).readOnly = false

theorem RemembersUnder.undisturbed (h : d.RemembersUnder id m key) (hd : Undisturbed id d e)
    (hm : Recalls m key d e) : e.RemembersUnder id m key := by
  obtain ⟨hid, ⟨relay, heditor⟩, -⟩ := hd h.present
  obtain ⟨hkept, hreadOnly, -⟩ := hm h.kept
  constructor
  · exact hid
  · rw [heditor]
    exact h.memory
  · rw [memoryKey, heditor]
    exact h.key
  · rw [heditor]
    exact h.remembers
  · rw [heditor]
    exact h.created
  · exact hkept
  · rw [hreadOnly]
    exact h.writable

/-- Whichever page is shown, the editor goes on remembering. -/
theorem RemembersUnder.turn (h : d.RemembersUnder id m key) (hturn : Turn d e) : e.RemembersUnder id m key := by
  cases hturn with
  | activate => exact ⟨h.present, h.memory, h.key, h.remembers, h.created, h.kept, h.writable⟩
  | client => exact ⟨h.present, h.memory, h.key, h.remembers, h.created, h.kept, h.writable⟩
  | @remember m' _ _ kept hstore =>
    refine ⟨h.present, h.memory, h.key, h.remembers, h.created, by simpa using h.kept, ?_⟩
    have hreadOnly := (TabMemory.load_store hstore).2
    have hwritable := h.writable
    simp only [Desk.memory, List.getElem?_set] at hreadOnly hwritable ⊢
    by_cases hsame : m' = m
    · subst hsame
      simpa [h.kept] using hreadOnly.trans hwritable
    · simpa [hsame] using hwritable

/-- The page at an index is shown, and it is remembered. -/
structure Remembers (d : Desk σ) (id : EditorId) (m : MemoryId) (key : String) (index : Nat) : Prop where
  active : (d.editorTabs id).active = some index
  load : (d.memory m).load key = some (toString index)

theorem Remembers.undisturbed {index : Nat} (h : d.Remembers id m key index) (hd : d.RemembersUnder id m key)
    (hundisturbed : Undisturbed id d e) (hm : Recalls m key d e) : e.Remembers id m key index :=
  ⟨(hundisturbed hd.present).2.2 ▸ h.active, (hm hd.kept).2.2.trans h.load⟩

end

end Desk

/-- The clients leave an editor as it is. -/
def Host.LeavesEditor (h : Host σ) (id : EditorId) : Prop := ∀ c d, Desk.Undisturbed id d (h.answer c d).2

/-- The clients leave alone what a memory holds under a key. -/
def Host.LeavesMemory (h : Host σ) (m : MemoryId) (key : String) : Prop :=
  ∀ c d, Desk.Recalls m key d (h.answer c d).2

namespace Act

variable {h : Host σ} {d e : Desk σ} {id : EditorId} {m : MemoryId} {key : String} {index : Nat}

theorem activate_run {t : TabsId} (hindex : index < (d.tabsOf t).count) : activate t index h d =
    (.returned (.ok ()), d.withTabs t { d.tabsOf t with active := some index }) := by
  simp only [activate, updateTabs, look_bind, Tabs.activate, if_pos hindex, Except.map, change_bind, pure_run]

theorem activate_beyond {t : TabsId} (hindex : ¬index < (d.tabsOf t).count) :
    activate t index h d = (.returned (.error (.outOfRange index (d.tabsOf t).count)), d) := by
  simp only [activate, updateTabs, look_bind, Tabs.activate, if_neg hindex, Except.map, pure_run]

/-! ## What activations store -/

/-- An editor that remembers stores the index of the page that it shows. -/
theorem rememberPage_run (hd : d.RemembersUnder id m key) (index : Nat) : ∃ kept, rememberPage id index h d =
    (.returned (), { d with memories := d.memories.set m kept }) ∧ kept.load key = some (toString index) ∧
      kept.readOnly = false := by
  have hskip : ((d.editor id).creating || !(d.editor id).settings.remembers) = false := by
    rw [hd.created, hd.remembers]
    rfl
  obtain ⟨kept, hstore⟩ : ∃ kept, (d.memory m).store key (toString index) = .ok kept := by
    simp [TabMemory.store, hd.writable]
  obtain ⟨hload, hreadOnly⟩ := TabMemory.load_store hstore
  refine ⟨kept, ?_, hload, hreadOnly.trans hd.writable⟩
  simp only [rememberPage, look_bind, hskip, Bool.false_eq_true, if_false, hd.memory, hd.key, hstore]
  rfl

/-- An index beyond the pages is refused. -/
theorem showIndex_refused (hindex : ¬index < (d.editorTabs id).count) :
    showIndex id index h d = (.returned (.error (.outOfRange index (d.editorTabs id).count)), d) := by
  simp only [showIndex, look_bind]
  exact bind_run (activate_beyond hindex)

/-- An editor that remembers shows the page at an index, and remembers it. -/
theorem showIndex_remembers (hd : d.RemembersUnder id m key) (hindex : index < (d.editorTabs id).count) :
    ∃ e, showIndex id index h d = (.returned (.ok ()), e) ∧ e.RemembersUnder id m key ∧
      e.Remembers id m key index := by
  have ht := Desk.lt_of_count (Nat.zero_lt_of_lt hindex)
  have hactivate := activate_run (h := h) (t := (d.editor id).tabs) hindex
  have hactive := Desk.tabsOf_withTabs ht { d.tabsOf (d.editor id).tabs with active := some index }
  obtain ⟨d₁, hd₁⟩ : ∃ d₁, d.withTabs (d.editor id).tabs { d.tabsOf (d.editor id).tabs with active := some index } = d₁ :=
    ⟨_, rfl⟩
  rw [hd₁] at hactivate hactive
  have hunder : d₁.RemembersUnder id m key := by
    rw [← hd₁]
    exact ⟨hd.present, hd.memory, hd.key, hd.remembers, hd.created, hd.kept, hd.writable⟩
  obtain ⟨kept, hstore, hload, hreadOnly⟩ := rememberPage_run (h := h) hunder index
  have hkept : ({ d₁ with memories := d₁.memories.set m kept } : Desk σ).memory m = kept := by
    simp [Desk.memory, hunder.kept]
  have hsame : d₁.editor id = d.editor id := by
    rw [← hd₁]
    rfl
  refine ⟨{ d₁ with memories := d₁.memories.set m kept }, ?_, ?_, ?_, ?_⟩
  · simp only [showIndex, look_bind]
    exact (bind_run hactivate).trans (bind_run hstore)
  · exact ⟨hunder.present, hunder.memory, hunder.key, hunder.remembers, hunder.created,
      by simpa using hunder.kept, by rw [hkept]; exact hreadOnly⟩
  · rw [← hsame] at hactive
    exact congrArg Tabs.active hactive
  · rw [hkept]
    exact hload

/-- A page of an editor is shown, in one of the ways there are. -/
inductive Shown (h : Host σ) (id : EditorId) (d e : Desk σ) : Prop
  | index (index : Nat) : showIndex id index h d = (.returned (.ok ()), e) → Shown h id d e
  | page (page : String) {index : Nat} : showPage id page h d = (.returned (.ok index), e) → Shown h id d e
  | text (start stop : Nat) : reveal id start stop h d = (.returned true, e) → Shown h id d e
  | initial (page : Option String) {choice : String} : initialChoice id page h d = (.returned (some choice), d) →
      (showChoice id choice h d).1 = .returned (.ok ()) → showInitial id page h d = (.returned (), e) → Shown h id d e

/-- What is shown by its id is shown by its index. -/
theorem showPage_ok {page : String} (hrun : showPage id page h d = (.returned (.ok index), e)) :
    showIndex id index h d = (.returned (.ok ()), e) := by
  simp only [showPage, look_bind] at hrun
  cases hfound : (d.editorTabs id).indexOf page with
  | error r =>
    rw [hfound] at hrun
    cases hrun
  | ok found =>
    simp only [hfound] at hrun
    obtain ⟨shown, d₁, hshow, hrest⟩ := bind_returned hrun
    cases shown with
    | error r => cases hrest
    | ok _ =>
      cases hrest
      exact hshow

theorem showChoice_ok {choice : String} (hrun : showChoice id choice h d = (.returned (.ok ()), e)) :
    ∃ index, showIndex id index h d = (.returned (.ok ()), e) := by
  unfold showChoice at hrun
  cases hnumeral : numeral? choice with
  | some index =>
    rw [hnumeral] at hrun
    exact ⟨index, hrun⟩
  | none =>
    simp only [hnumeral] at hrun
    obtain ⟨shown, d₁, hshow, hrest⟩ := bind_returned hrun
    cases shown with
    | error r => cases hrest
    | ok index =>
      cases hrest
      exact ⟨index, showPage_ok hshow⟩

theorem showIndex_ok (hd : d.RemembersUnder id m key) (hrun : showIndex id index h d = (.returned (.ok ()), e)) :
    e.RemembersUnder id m key ∧ e.Remembers id m key index := by
  have hindex : index < (d.editorTabs id).count := by
    by_contra hbeyond
    rw [showIndex_refused hbeyond] at hrun
    cases hrun
  obtain ⟨e', hrun', hunder, hremembers⟩ := showIndex_remembers (h := h) hd hindex
  rw [hrun'] at hrun
  cases hrun
  exact ⟨hunder, hremembers⟩

section

variable (hleaves : h.LeavesEditor id) (hmemory : h.LeavesMemory m key)

include hleaves in
theorem call_leaves (c : Callback) : Within (Desk.Undisturbed id) h (call c) :=
  call_within Desk.Undisturbed.path (fun _ _ => .of_same rfl rfl) (fun _ _ => .of_same rfl rfl) hleaves c

include hmemory in
theorem call_leavesMemory (c : Callback) : Within (Desk.Recalls m key) h (call c) :=
  call_within Desk.Recalls.path (fun _ _ => .of_memories rfl) (fun _ _ => .of_memories rfl) hmemory c

include hleaves hmemory

/-- **A page that is shown is remembered**, in whichever way it is shown. -/
theorem Shown.remembers (hshown : Shown h id d e) (hd : d.RemembersUnder id m key) :
    e.RemembersUnder id m key ∧ ∃ index, e.Remembers id m key index := by
  cases hshown with
  | index index hrun => exact (showIndex_ok hd hrun).imp_right fun hremembers => ⟨_, hremembers⟩
  | page page hrun => exact (showIndex_ok hd (showPage_ok hrun)).imp_right fun hremembers => ⟨_, hremembers⟩
  | text start stop hrun =>
    obtain ⟨shown, d₁, hshow, hrest⟩ := bind_returned hrun
    cases shown with
    | error r => cases hrest
    | ok index =>
      obtain ⟨hunder, hremembers⟩ := showIndex_ok hd (showPage_ok hshow)
      simp only [look_bind] at hrest
      cases htab : (d₁.editorTabs id).entries[index]? with
      | none =>
        rw [htab] at hrest
        cases hrest
      | some tab =>
        simp only [htab] at hrest
        obtain ⟨_, d₂, hcall, hlast⟩ := bind_returned hrest
        cases hlast
        have hundisturbed := call_leaves hleaves (.pageReveal tab.page start stop) d₁
        have hrecalls := call_leavesMemory hmemory (.pageReveal tab.page start stop) d₁
        rw [hcall] at hundisturbed hrecalls
        exact ⟨hunder.undisturbed hundisturbed hrecalls, index,
          hremembers.undisturbed hunder hundisturbed hrecalls⟩
  | initial page hchoice hshow hrun =>
    rename_i choice
    rcases hshown : showChoice id choice h d with ⟨outcome, d₁⟩
    rw [hshown] at hshow
    cases hshow
    have hsame : showInitial id page h d = (.returned (), d₁) := (bind_run hchoice).trans (bind_run hshown)
    rw [hsame] at hrun
    cases hrun
    obtain ⟨index, hindex⟩ := showChoice_ok hshown
    exact (showIndex_ok hd hindex).imp_right fun hremembers => ⟨_, hremembers⟩

end

/-- Pages of an editor are shown one after another, at least one; whatever else goes on leaves the editor as it is, and
what is remembered of it. -/
inductive Showings (h : Host σ) (id : EditorId) (m : MemoryId) (key : String) : Desk σ → Desk σ → Prop
  | first {d e f} : Desk.Undisturbed id d e → Desk.Recalls m key d e → Shown h id e f → Showings h id m key d f
  | next {d e f} : Showings h id m key d e → Shown h id e f → Showings h id m key d f
  | rest {d e f} : Showings h id m key d e → Desk.Undisturbed id e f → Desk.Recalls m key e f →
      Showings h id m key d f

/-- After pages were shown, the one that is active is remembered. -/
theorem Showings.remembers (hleaves : h.LeavesEditor id) (hmemory : h.LeavesMemory m key)
    (hshowings : Showings h id m key d e)
    (hd : d.RemembersUnder id m key) : e.RemembersUnder id m key ∧ ∃ index, e.Remembers id m key index := by
  induction hshowings with
  | first hundisturbed hrecalls hshown =>
    exact hshown.remembers hleaves hmemory (hd.undisturbed hundisturbed hrecalls)
  | next _ hshown ih => exact hshown.remembers hleaves hmemory ih.1
  | rest _ hundisturbed hrecalls ih =>
    obtain ⟨hunder, index, hremembers⟩ := ih
    exact ⟨hunder.undisturbed hundisturbed hrecalls, index, hremembers.undisturbed hunder hundisturbed hrecalls⟩

/-! ## Opening -/

section

variable (id) {R : Desk σ → Desk σ → Prop} (hR : Desk.Path R) (hsame : ∀ d e : Desk σ, e.editors = d.editors →
  e.tabs = d.tabs → e.memories = d.memories → R d e)

include hR hsame

theorem detach_aside (r : RelayId) : Within R h (detach r) :=
  keeps_contract.1 (detach_keeps (K := hR.contract) (fun _ _ hvisit => by cases hvisit <;> exact hsame _ _ rfl rfl rfl)
    (fun _ _ _ => hsame _ _ rfl rfl rfl) (fun _ _ => hsame _ _ rfl rfl rfl) fun _ _ _ _ _ => hsame _ _ rfl rfl rfl)

section

variable (hrelay : ∀ d relay, R d (d.withEditor id fun e => { e with relay }))

include hrelay

theorem disposeEditor_aside : Within R h (disposeEditor id) := by
  refine .bind hR (.look hR _) fun relay => ?_
  cases relay with
  | none => exact .pure hR ()
  | some r =>
    have hclear : Within R h (change (·.withEditor id fun e => { e with relay := none })) := fun d => hrelay d none
    exact .bind hR hclear fun _ => detach_aside hR hsame r

end

/-- Something that is no longer in use is given up, and an editor is then disposed of. -/
theorem letGo_aside (hrelay : ∀ id d relay, R d (d.withEditor id fun e => { e with relay })) (r : Ref) :
    Within R h (letGo r) := by
  have hunhold (r : Ref) : Within R h (unhold r) := fun _ => hsame _ _ rfl rfl rfl
  refine .bind hR (hunhold _) fun _ => ?_
  cases r with
  | view | tabs => exact .pure hR ()
  | editor id =>
    refine .bind hR (.look hR _) fun held => ?_
    cases held with
    | true => exact .pure hR ()
    | false =>
      exact .bind hR (.look hR _) fun tabs => .bind hR (hunhold _) fun _ => disposeEditor_aside id hR hsame (hrelay id)

variable (hc : ∀ c, Within R h (call c))

include hc

theorem attach_aside (o : Observer) : Within R h (attach o) :=
  keeps_contract.1 (attach_keeps (K := hR.contract)
    (fun _ _ hvisit => by cases hvisit <;> exact hsame _ _ rfl rfl rfl) (fun _ _ _ _ _ => hsame _ _ rfl rfl rfl)
    (fun _ _ => hsame _ _ rfl rfl rfl) (fun _ _ => hsame _ _ rfl rfl rfl) fun document =>
      keeps_contract.2 (deliver_within hR hc (fun _ _ => hsame _ _ rfl rfl rfl) (.changed document) (.relay o)))

/-- Letting an editor follow the model changes its relay, and otherwise nothing but what clients do. -/
theorem followModel_aside (hrelay : ∀ d relay, R d (d.withEditor id fun e => { e with relay })) :
    Within R h (followModel id) := by
  have hnote (n : Notice) : Within R h (note n) := fun _ => hsame _ _ rfl rfl rfl
  refine .bind hR (.look hR _) fun e => .bind hR (attach_aside hR hsame hc _) fun attached => ?_
  cases attached with
  | error cause => exact hnote _
  | ok relay =>
    have hset : Within R h (change (·.withEditor id fun e => { e with relay := some relay })) := fun d => hrelay d _
    refine .bind hR (.look hR _) fun earlier => .bind hR hset fun _ => ?_
    cases earlier with
    | none => exact .pure hR ()
    | some r => exact detach_aside hR hsame r

end

/-- An editor that was opened got its pages, was let follow the model, and showed its first page. -/
theorem openEditor_ok {forms : List PageId} {text : PageId} (ht : (d.editor id).tabs < d.tabs.length)
    (hempty : d.editorTabs id = {}) (hcreating : (d.editor id).creating = false)
    (hrun : openEditor id forms text h d = (.returned (.ok ()), e)) :
    ∃ f, followModel id h ((d.withTabs (d.editor id).tabs (d.openedTabs id forms text)).withEditor id
        fun e => { e with creating := true }) = (.returned (), f) ∧
      showInitial id none h (f.withEditor id fun e => { e with creating := false }) = (.returned (), e) := by
  have hfree (r : PageError) (hr : d.Refuses id forms r) : False := by
    rw [(openEditor_error_iff ht (fun _ => hempty) hcreating).2 ⟨hr, rfl⟩] at hrun
    cases hrun
  obtain ⟨hclosed, hnodup, htext⟩ := Desk.not_refuses_iff.1 hfree
  rw [openEditor_closed hclosed] at hrun
  obtain ⟨installed, d₁, hensured, hshown⟩ := bind_returned hrun
  cases installed with
  | error cause => cases hshown
  | ok _ =>
    obtain ⟨_, e', hshow, hlast⟩ := bind_returned hshown
    cases hlast
    obtain ⟨f, hinstall, rfl⟩ := ensure_returned hensured
    rw [installPages, bind_run (addPages_creating text ht hempty hnodup htext)] at hinstall
    obtain ⟨_, _, hfollow, hlast⟩ := bind_returned hinstall
    cases hlast
    exact ⟨f, hfollow, hshow⟩

/-- What an editor that is opened comes to before its first page is shown: it has its pages, and what is remembered is as
it was. -/
theorem openEditor_leaves {forms : List PageId} {text : PageId} (hid : id < d.editors.length)
    (ht : (d.editor id).tabs < d.tabs.length) (hempty : d.editorTabs id = {}) (hcreating : (d.editor id).creating = false)
    (hleaves : h.LeavesEditor id) (hrun : openEditor id forms text h d = (.returned (.ok ()), e)) :
    ∃ f relay, showInitial id none h f = (.returned (), e) ∧ id < f.editors.length ∧
      f.editor id = { d.editor id with relay, creating := false } ∧ f.editorTabs id = d.openedTabs id forms text ∧
      ∀ m key, h.LeavesMemory m key → d.Recalls m key f := by
  obtain ⟨f, hfollow, hshow⟩ := openEditor_ok ht hempty hcreating hrun
  generalize hd₁ : (d.withTabs (d.editor id).tabs (d.openedTabs id forms text)).withEditor id
    (fun e => { e with creating := true }) = d₁ at hfollow
  have hid₁ : id < d₁.editors.length := by simpa [← hd₁, Desk.withEditor, Desk.withTabs] using hid
  have heditor₁ : d₁.editor id = { d.editor id with creating := true } := by
    rw [← hd₁]
    exact (Desk.editor_withEditor (d := d.withTabs _ _) hid _ id).trans (if_pos rfl)
  have htabs₁ : d₁.editorTabs id = d.openedTabs id forms text := by
    rw [Desk.editorTabs, heditor₁, ← hd₁]
    exact Desk.tabsOf_withTabs ht _
  have hleft := followModel_aside id Desk.Undisturbed.path (fun _ _ heditors htabs _ => .of_same heditors htabs)
    (call_leaves hleaves) (fun _ relay => .withRelay relay) d₁
  rw [hfollow] at hleft
  obtain ⟨hid₂, ⟨relay, heditor₂⟩, htabs₂⟩ := hleft hid₁
  have heditor := Desk.editor_withEditor hid₂ (fun e => { e with creating := false }) id
  rw [if_pos rfl, heditor₂, heditor₁] at heditor
  refine ⟨_, relay, hshow, by simpa [Desk.withEditor] using hid₂, heditor, ?_, fun m key hmemory => ?_⟩
  · rw [Desk.editorTabs, heditor, ← htabs₁, ← htabs₂, Desk.editorTabs, heditor₂, heditor₁]
    rfl
  · have hspared := followModel_aside id Desk.Recalls.path (fun _ _ _ _ hmemories => .of_memories hmemories)
      (call_leavesMemory hmemory) (fun _ _ => .of_memories rfl) d₁
    rw [hfollow] at hspared
    have hfirst : d.Recalls m key d₁ := .of_memories (by rw [← hd₁]; rfl)
    exact Desk.Recalls.path.trans hfirst (Desk.Recalls.path.trans hspared (.of_memories rfl))

/-- The numeral that is remembered stands before the settings. -/
theorem initialChoice_remembered (hd : d.RemembersUnder id m key) {text : String}
    (hload : (d.memory m).load key = some text) : initialChoice id none h d = (.returned (some text), d) := by
  simp [initialChoice, hd.remembers, hd.memory, hd.key, hload]

theorem showChoice_numeral (hindex : index < sizeLimit) :
    showChoice id (toString index) = (showIndex id index : Act σ _) := by
  simp only [showChoice, numeral?_toString hindex]

/-- The page whose index is remembered is shown at first, if there is one. -/
theorem showInitial_restores (hd : d.RemembersUnder id m key)
    (hload : (d.memory m).load key = some (toString index))
    (hlimit : index < sizeLimit) (hindex : index < (d.editorTabs id).count) :
    ∃ e, showInitial id none h d = (.returned (), e) ∧ e.Remembers id m key index := by
  obtain ⟨e, hshow, -, hremembers⟩ := showIndex_remembers (h := h) hd hindex
  rw [← showChoice_numeral hlimit] at hshow
  exact ⟨e, (bind_run (initialChoice_remembered hd hload)).trans (bind_run hshow), hremembers⟩

theorem showFirst_run (cause : PageError) (hsome : 0 < (d.editorTabs id).count) : showFirst id (.error cause) h d =
    (.returned (), (d.noted h (.defaultPageFailed cause)).withTabs (d.editor id).tabs
      { d.tabsOf (d.editor id).tabs with active := some 0 }) := by
  have hactivate := activate_run (h := h) (d := d.noted h (.defaultPageFailed cause)) (t := (d.editor id).tabs) hsome
  simp only [showFirst, note_bind, look_bind]
  exact bind_run hactivate

/-- Where there are too few pages, the first one is shown, and nothing is stored. -/
theorem showInitial_beyond (hd : d.RemembersUnder id m key) (hload : (d.memory m).load key = some (toString index))
    (hlimit : index < sizeLimit) (hindex : ¬index < (d.editorTabs id).count) (hsome : 0 < (d.editorTabs id).count) :
    ∃ e, showInitial id none h d = (.returned (), e) ∧ (e.editorTabs id).active = some 0 ∧
      e.memories = d.memories := by
  have hshow : showIndex id index h d = _ := showIndex_refused hindex
  rw [← showChoice_numeral hlimit] at hshow
  have hfirst := showFirst_run (h := h) (.outOfRange index (d.editorTabs id).count) hsome
  refine ⟨_, (bind_run (initialChoice_remembered hd hload)).trans ((bind_run hshow).trans hfirst), ?_, rfl⟩
  exact congrArg Tabs.active (Desk.tabsOf_withTabs (d := d.noted h _) (Desk.lt_of_count hsome) _)

/-! ## Editors from the beginning -/

/-- An editor that is made is without pages, and will remember. -/
theorem makeEditor_remembersUnder {name : String} {project : Option String} {settings : Settings}
    (hremembers : settings.remembers = true) (hm : m < d.memories.length) (hwritable : (d.memory m).readOnly = false)
    (hrun : makeEditor name project settings m h d = (.returned id, e)) :
    e.RemembersUnder id m (settings.memoryKey name) ∧ (e.editor id).tabs < e.tabs.length ∧ e.editorTabs id = {} ∧
      e.memories = d.memories := by
  have hid : d.editors.length = id := Outcome.returned.inj (congrArg Prod.fst hrun)
  have he := congrArg Prod.snd hrun
  subst hid he
  have heditors : (makeEditor name project settings m h d).2.editors = d.editors ++
      [{ name, project, settings, memory := m, coordinator := d.coordinators.length, tabs := d.tabs.length }] := rfl
  have htabs : (makeEditor name project settings m h d).2.tabs = d.tabs ++ [({} : Tabs)] := rfl
  have heditor : (makeEditor name project settings m h d).2.editor d.editors.length =
      { name, project, settings, memory := m, coordinator := d.coordinators.length, tabs := d.tabs.length } := by
    simp [Desk.editor, heditors]
  refine ⟨⟨?_, ?_, ?_, ?_, ?_, hm, hwritable⟩, ?_, ?_, rfl⟩
  · simp [heditors]
  · rw [heditor]
  · rw [Desk.memoryKey, heditor]
  · rw [heditor]
    exact hremembers
  · rw [heditor]
  · rw [heditor, htabs]
    simp
  · rw [Desk.editorTabs, heditor, Desk.tabsOf, htabs]
    simp

/-- An editor that was opened goes on remembering. -/
theorem openEditor_remembersUnder {forms : List PageId} {text : PageId} (hd : d.RemembersUnder id m key)
    (ht : (d.editor id).tabs < d.tabs.length) (hempty : d.editorTabs id = {}) (hleaves : h.LeavesEditor id)
    (hmemory : h.LeavesMemory m key) (hrun : openEditor id forms text h d = (.returned (.ok ()), e)) :
    ∃ f, showInitial id none h f = (.returned (), e) ∧ f.RemembersUnder id m key ∧
      (f.editorTabs id).count = forms.length + 1 ∧ ∀ key, h.LeavesMemory m key → d.Recalls m key f := by
  obtain ⟨f, relay, hshow, hid, heditor, htabs, hrecalls⟩ :=
    openEditor_leaves hd.present ht hempty hd.created hleaves hrun
  obtain ⟨hkept, hreadOnly, -⟩ := hrecalls m key hmemory hd.kept
  refine ⟨f, hshow, ⟨hid, ?_, ?_, ?_, ?_, hkept, hreadOnly.trans hd.writable⟩, ?_, hrecalls m⟩
  · rw [heditor]
    exact hd.memory
  · rw [Desk.memoryKey, heditor]
    exact hd.key
  · rw [heditor]
    exact hd.remembers
  · rw [heditor]
  · rw [htabs]
    simp [Desk.openedTabs, Tabs.count]

theorem showInitial_remembersUnder {page : Option String} (hd : d.RemembersUnder id m key)
    (hrun : showInitial id page h d = (.returned (), e)) : e.RemembersUnder id m key := by
  have hR : Desk.Path fun d e : Desk σ => d.RemembersUnder id m key → e.RemembersUnder id m key :=
    ⟨fun _ hd => hd, fun h h' hd => h' (h hd)⟩
  obtain ⟨_, _, hsettled, hunder⟩ := showInitial_settles (h := h) hR (fun _ _ hturn hd => hd.turn hturn) id page d
  rw [hrun] at hsettled
  cases hsettled
  exact hunder hd

/-! ## Closing -/

/-- An editor is closed: its pages are removed, it is disposed of and given up, in whichever order. -/
inductive Closing (id : EditorId) : Act σ Unit → Prop
  | dropPages : Closing id (dropPages id)
  | dispose : Closing id (disposeEditor id)
  | giveUp : Closing id (letGo (.editor id))
  | andThen {a b : Act σ Unit} : Closing id a → Closing id b → Closing id (a >>= fun _ => b)

/-- An editor that is closed leaves alone what is remembered. -/
theorem Closing.leavesMemory {a : Act σ Unit} (ha : Closing id a) : Within (Desk.Recalls m key) h a := by
  have hR : Desk.Path (Desk.Recalls (σ := σ) m key) := Desk.Recalls.path
  induction ha with
  | dropPages => exact .bind hR (.look hR _) fun tabs _ => .of_memories rfl
  | dispose =>
    exact disposeEditor_aside id hR (fun _ _ _ _ hmemories => .of_memories hmemories) fun _ _ => .of_memories rfl
  | giveUp => exact letGo_aside hR (fun _ _ _ _ hmemories => .of_memories hmemories) (fun _ _ _ => .of_memories rfl) _
  | andThen _ _ ha hb => exact .bind hR ha fun _ => hb

end Act

/-- **The page of an editor is remembered.** An editor that is to remember is opened, pages of it are shown in
whichever way, and it is closed. When another editor of the same kind is then opened for the same resource with
the same memory, the page that was active last is active again if there are enough pages; otherwise the first
page is, and opening has stored nothing. The memory can be written, and nothing else changes what it holds under
the key. -/
theorem Host.LeavesEditor.remembered_again {h : Host σ} {d d₁ d₂ d₃ d₄ d₅ d₆ d₇ : Desk σ} {m : MemoryId}
    {name key : String}
    {settings settings' : Settings} {project project' : Option String} {forms forms' : List PageId}
    {text text' : PageId} {first second : EditorId} {index : Nat} {close : Act σ Unit}
    (hkey : settings.memoryKey name = key) (hkind : settings'.kind = settings.kind)
    (hremembers : settings.remembers = true) (hremembers' : settings'.remembers = true)
    (hm : m < d.memories.length) (hwritable : (d.memory m).readOnly = false) (hmemory : h.LeavesMemory m key)
    (hfirst : h.LeavesEditor first) (hsecond : h.LeavesEditor second)
    (hmake : Act.makeEditor name project settings m h d = (.returned first, d₁))
    (hopen : Act.openEditor first forms text h d₁ = (.returned (.ok ()), d₂))
    (hshowings : Act.Showings h first m key d₂ d₃) (hactive : (d₃.editorTabs first).active = some index)
    (hlimit : index < sizeLimit) (hclosing : Act.Closing first close) (hclose : close h d₃ = (.returned (), d₄))
    (hmeanwhile : d₄.Recalls m key d₅)
    (hmake' : Act.makeEditor name project' settings' m h d₅ = (.returned second, d₆))
    (hopen' : Act.openEditor second forms' text' h d₆ = (.returned (.ok ()), d₇)) :
    (index < forms'.length + 1 →
      (d₇.editorTabs second).active = some index ∧ (d₇.memory m).load key = some (toString index)) ∧
    (forms'.length + 1 ≤ index → (d₇.editorTabs second).active = some 0 ∧
      ∀ key, h.LeavesMemory m key → (d₇.memory m).load key = (d₆.memory m).load key) := by
  subst hkey
  -- The first editor remembers the page that was active last.
  obtain ⟨hmade, ht, hempty, -⟩ := Act.makeEditor_remembersUnder hremembers hm hwritable hmake
  obtain ⟨f, hshow, hunder, -, -⟩ := Act.openEditor_remembersUnder hmade ht hempty hfirst hmemory hopen
  obtain ⟨htoured, last, hlast, hload⟩ :=
    hshowings.remembers hfirst hmemory (Act.showInitial_remembersUnder hunder hshow)
  obtain rfl : index = last := Option.some.inj (hactive.symm.trans hlast)
  -- Nothing changes that until the second editor is made.
  have hclosed : d₃.Recalls m (settings.memoryKey name) (close h d₃).2 := hclosing.leavesMemory d₃
  rw [hclose] at hclosed
  obtain ⟨hm₅, hreadOnly₅, hload₅⟩ := Desk.Recalls.path.trans hclosed hmeanwhile htoured.kept
  have hkey : settings'.memoryKey name = settings.memoryKey name := by simp only [Settings.memoryKey, hkind]
  obtain ⟨hmade', ht', hempty', hmemories⟩ :=
    Act.makeEditor_remembersUnder hremembers' hm₅ (hreadOnly₅.trans htoured.writable) hmake'
  rw [hkey] at hmade'
  obtain ⟨g, hshow', hunder', hcount, hrecalls⟩ :=
    Act.openEditor_remembersUnder hmade' ht' hempty' hsecond hmemory hopen'
  have hload' : (g.memory m).load (settings.memoryKey name) = some (toString index) := by
    obtain ⟨-, -, hsame⟩ := hrecalls _ hmemory hmade'.kept
    rw [hsame, Desk.memory, hmemories]
    exact hload₅.trans hload
  refine ⟨fun hindex => ?_, fun hindex => ?_⟩
  · obtain ⟨e, hrun, hremembered⟩ :=
      Act.showInitial_restores (h := h) hunder' hload' hlimit (Nat.lt_of_lt_of_eq hindex hcount.symm)
    rw [hshow'] at hrun
    cases hrun
    exact ⟨hremembered.active, hremembered.load⟩
  · obtain ⟨e, hrun, hzero, hkept⟩ := Act.showInitial_beyond (h := h) hunder' hload' hlimit
      (Nat.not_lt_of_le (hcount ▸ hindex)) (hcount ▸ Nat.succ_pos _)
    rw [hshow'] at hrun
    cases hrun
    refine ⟨hzero, fun key hspared => ?_⟩
    obtain ⟨-, -, hsame⟩ := hrecalls key hspared hmade'.kept
    rw [Desk.memory, hkept]
    exact hsame

/-- The pages of an editor are shown by an id, as the text page and by a numeral. The page that was shown last is shown
again by the next editor, whatever its settings say; and one with the text page only shows that. -/
theorem Host.LeavesEditor.remembered_again_kept :
    let h : Host Nat := .answering (Act.change fun d => { d with client := d.client + 1 })
    let d : Desk Nat :=
      { model := { document := some "d", location := "l" }
        pages := [⟨"a", "A", false⟩, ⟨"b", "B", false⟩, ⟨"t", "T", false⟩]
        memories := [{}]
        client := 0 }
    let a (forms : List PageId) : Act Nat (Except PageError Unit) := do
      let first ← Act.makeEditor "f" none {} 0
      let _ ← Act.openEditor first [0, 1] 2
      let _ ← Act.showPage first "b"
      let _ ← Act.reveal first 0 1
      Act.showInitial first (some "1")
      Act.letGo (.editor first)
      let second ← Act.makeEditor "f" none { defaultPage := some textTabId } 0
      Act.openEditor second forms 2
    (∃ e, a [1, 0] h d = (.returned (.ok ()), e) ∧ (e.editorTabs 1).active = some 1 ∧
      (e.memory 0).load "FormEditor_current_page@f" = some "1") ∧
    ∃ e, a [] h d = (.returned (.ok ()), e) ∧ (e.editorTabs 1).active = some 0 ∧
      (e.memory 0).load "FormEditor_current_page@f" = some "1" := by
  intro h d a
  have hleaves (id : EditorId) : h.LeavesEditor id := fun _ _ => .of_same rfl rfl
  have hmemory : h.LeavesMemory 0 "FormEditor_current_page@f" := fun _ _ => .of_memories rfl
  have hstep {β : Type} (x : Act Nat β) (f : Desk Nat) {b : β} (hx : (x h f).1 = .returned b) :
      ∃ e, x h f = (.returned b, e) ∧ (x h f).2 = e := ⟨_, Prod.ext hx rfl, rfl⟩
  obtain ⟨d₁, hmake, hd₁⟩ := hstep (Act.makeEditor "f" none {} 0) d (b := 0) (by decide +kernel)
  obtain ⟨d₂, hopen, hd₂⟩ := hstep (Act.openEditor 0 [0, 1] 2) d₁ (b := .ok ()) (by rw [← hd₁]; decide +kernel)
  rw [← hd₁] at hd₂
  obtain ⟨d₃, hpage, hd₃⟩ := hstep (Act.showPage 0 "b") d₂ (b := .ok 1) (by rw [← hd₂]; decide +kernel)
  rw [← hd₂] at hd₃
  obtain ⟨d₄, htext, hd₄⟩ := hstep (Act.reveal 0 0 1) d₃ (b := true) (by rw [← hd₃]; decide +kernel)
  rw [← hd₃] at hd₄
  obtain ⟨d₅, hinitial, hd₅⟩ := hstep (Act.showInitial 0 (some "1")) d₄ (b := ()) (by rw [← hd₄]; decide +kernel)
  rw [← hd₄] at hd₅
  obtain ⟨d₆, hclose, hd₆⟩ := hstep (Act.letGo (.editor 0)) d₅ (b := ()) (by rw [← hd₅]; decide +kernel)
  rw [← hd₅] at hd₆
  obtain ⟨d₇, hmake', hd₇⟩ := hstep (Act.makeEditor "f" none { defaultPage := some textTabId } 0) d₆ (b := 1)
    (by rw [← hd₆]; decide +kernel)
  rw [← hd₆] at hd₇
  have hshowings : Act.Showings h 0 0 "FormEditor_current_page@f" d₂ d₅ := .next
    (.next (.first (Desk.Undisturbed.path.refl _) (Desk.Recalls.path.refl _) (.page "b" hpage)) (.text 0 1 htext))
    (.initial (some "1") rfl (by rw [← hd₄]; decide +kernel) hinitial)
  have hactive : (d₅.editorTabs 0).active = some 1 := by rw [← hd₅]; decide +kernel
  have hkey : ({} : Settings).memoryKey "f" = "FormEditor_current_page@f" := rfl
  have hkind : ({ defaultPage := some textTabId } : Settings).kind = ({} : Settings).kind := rfl
  have hsaved : (d₇.memory 0).load "FormEditor_current_page@f" = some "1" := by rw [← hd₇]; decide +kernel
  have hagain (forms : List PageId) {e : Desk Nat} (hopen' : Act.openEditor 1 forms 2 h d₇ = (.returned (.ok ()), e)) :=
    Host.LeavesEditor.remembered_again hkey hkind rfl rfl (by decide) rfl hmemory (hleaves 0) (hleaves 1)
      hmake hopen
      hshowings hactive (by decide) .giveUp hclose (Desk.Recalls.path.refl _) hmake' hopen'
  have hrun (forms : List PageId) {e : Desk Nat} (hopen' : Act.openEditor 1 forms 2 h d₇ = (.returned (.ok ()), e)) :
      a forms h d = (.returned (.ok ()), e) :=
    (Act.bind_run hmake).trans <| (Act.bind_run hopen).trans <| (Act.bind_run hpage).trans <|
      (Act.bind_run htext).trans <| (Act.bind_run hinitial).trans <| (Act.bind_run hclose).trans <|
        (Act.bind_run hmake').trans hopen'
  refine ⟨?_, ?_⟩
  · obtain ⟨e, hopen', -⟩ := hstep (Act.openEditor 1 [1, 0] 2) d₇ (b := .ok ()) (by rw [← hd₇]; decide +kernel)
    exact ⟨e, hrun [1, 0] hopen', (hagain [1, 0] hopen').1 (by decide)⟩
  · obtain ⟨e, hopen', -⟩ := hstep (Act.openEditor 1 [] 2) d₇ (b := .ok ()) (by rw [← hd₇]; decide +kernel)
    obtain ⟨hzero, hsame⟩ := (hagain [] hopen').2 (by decide)
    exact ⟨e, hrun [] hopen', hzero, (hsame _ hmemory).trans hsaved⟩

end FormDesk

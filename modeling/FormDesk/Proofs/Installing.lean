/-
Opening an editor. An editor opens all of its pages or none. It is refused when it
is open already, or when two of its pages would have one id (`Desk.Refuses`), and
then everything is as it was: pages that were added by then are taken out again.
Otherwise, if pages that are shown the document return and keep to themselves
(`Host.PagesReturn`), it has all its pages, follows the model if it could be read, and
has shown the document to each page once (`Desk.Installed`).
-/
import FormDesk.Proofs.Bystander
import FormDesk.Proofs.Owning
import Mathlib.Data.List.Induction

namespace FormDesk

variable {σ α : Type}

/-! ## Pages that are added -/

namespace Tabs

/-- The ids of the pages, in order. -/
def ids (t : Tabs) : List String := t.entries.map (·.id)

/-- The tabs with more pages. -/
def append (t : Tabs) (l : List Tab) : Tabs := { t with entries := t.entries ++ l }

theorem append_append (t : Tabs) (l l' : List Tab) : (t.append l).append l' = t.append (l ++ l') := by simp [append]

theorem ids_append (t : Tabs) (l : List Tab) : (t.append l).ids = t.ids ++ l.map (·.id) := by simp [ids, append]

theorem any_id {t : Tabs} {id : String} : t.entries.any (·.id == id) = true ↔ id ∈ t.ids := by simp [ids]

theorem add_fresh {t : Tabs} (tab : Tab) (h : tab.id ∉ t.ids) : t.add tab = .ok (t.count, t.append [tab]) := by
  rw [add, if_neg (mt any_id.1 h)]
  rfl

theorem add_taken {t : Tabs} (tab : Tab) (h : tab.id ∈ t.ids) : t.add tab = .error (.duplicatePage tab.id) := by
  rw [add, if_pos (any_id.2 h)]

/-- The first place of a tab that is the last one, and the first of its kind. -/
theorem findIdx?_last {p : Tab → Bool} {l : List Tab} (tab : Tab) (hl : ∀ x ∈ l, p x = false) (htab : p tab = true) :
    (l ++ [tab]).findIdx? p = some l.length := by
  simp [List.findIdx?_append, List.findIdx?_eq_none_iff.2 hl, htab]

end Tabs

/-- In a list of pages two of which have one id, there is a first one whose id an earlier one has. -/
theorem exists_first_repeat {β : Type} (f : β → String) {l : List β} (h : ¬(l.map f).Nodup) :
    ∃ before x after, l = before ++ x :: after ∧ (before.map f).Nodup ∧ f x ∈ before.map f := by
  -- From the end: if the pages before the last one repeat an id, the first repeat is among them.
  induction l using List.reverseRecOn with
  | nil => exact absurd List.nodup_nil h
  | append_singleton l x ih =>
    by_cases hl : (l.map f).Nodup
    · refine ⟨l, x, [], rfl, hl, ?_⟩
      by_contra hx
      refine h ?_
      rw [List.map_append, List.map_singleton]
      exact List.nodup_append.2 ⟨hl, by simp, fun y hy z hz hyz => hx (List.mem_singleton.1 hz ▸ hyz ▸ hy)⟩
    · obtain ⟨before, y, after, rfl, hbefore, hy⟩ := ih hl
      exact ⟨before, y, after ++ [x], by simp, hbefore, hy⟩

namespace Desk

/-- The tab of a form page. -/
def formTab (d : Desk σ) (page : PageId) : Tab := ⟨(d.page page).id, (d.page page).title, .form, page⟩

/-- The tab of the text page of an editor. -/
def textTab (d : Desk σ) (id : EditorId) (page : PageId) : Tab :=
  ⟨textTabId, (d.editor id).settings.textTitle, .text, page⟩

/-- The tabs of an editor that was opened. -/
def openedTabs (d : Desk σ) (id : EditorId) (forms : List PageId) (text : PageId) : Tabs where
  entries := forms.map d.formTab ++ [d.textTab id text]
  active := some 0

theorem pages_openedTabs (d : Desk σ) (id : EditorId) (forms : List PageId) (text : PageId) :
    (d.openedTabs id forms text).pages = forms ++ [text] := by
  simp [Tabs.pages, openedTabs, formTab, textTab, Function.comp_def]

/-- The ids of pages. -/
def pageIds (d : Desk σ) (pages : List PageId) : List String := pages.map fun page => (d.page page).id

/-- The text page is the last one in the tabs of an editor that was opened, and no page before it has its id. -/
theorem textTab_last {d : Desk σ} {t : Tabs} {id : EditorId} {forms : List PageId} {text : PageId}
    (ht : t.entries = (d.openedTabs id forms text).entries) (htext : textTabId ∉ d.pageIds forms) :
    t.indexOf textTabId = .ok forms.length ∧ t.textIndex? = some forms.length := by
  have hid : ∀ x ∈ forms.map d.formTab, (x.id == textTabId) = false := by
    simp only [List.mem_map, beq_eq_false_iff_ne]
    rintro _ ⟨page, hpage, rfl⟩ heq
    exact htext (List.mem_map.2 ⟨page, hpage, heq⟩)
  have hkind : ∀ x ∈ forms.map d.formTab, (x.kind == .text) = false := by
    simp only [List.mem_map]
    rintro _ ⟨page, -, rfl⟩
    rfl
  have hindex := Tabs.findIdx?_last (d.textTab id text) hid (beq_self_eq_true _)
  have htextIndex := Tabs.findIdx?_last (d.textTab id text) hkind rfl
  rw [List.length_map] at hindex htextIndex
  rw [Tabs.indexOf, Tabs.textIndex?, ht]
  exact ⟨by simp only [openedTabs, hindex], htextIndex⟩

/-- Why pages cannot be those of an editor: the first one whose id an earlier one has, or else one with the id of the
text page. -/
inductive Repeats (d : Desk σ) (forms : List PageId) : PageError → Prop
  | form {before after : List PageId} {page : PageId} : forms = before ++ page :: after → (d.pageIds before).Nodup →
      (d.page page).id ∈ d.pageIds before → Repeats d forms (.duplicatePage (d.page page).id)
  | text : (d.pageIds forms).Nodup → textTabId ∈ d.pageIds forms → Repeats d forms (.duplicatePage textTabId)

/-- An editor that has neither pages nor a relay. -/
def Closed (d : Desk σ) (id : EditorId) : Prop := (d.editorTabs id).count = 0 ∧ (d.editor id).relay = none

/-- Why an editor is not opened. -/
inductive Refuses (d : Desk σ) (id : EditorId) (forms : List PageId) : PageError → Prop
  | opened : ¬d.Closed id → Refuses d id forms .alreadyOpen
  | repeats {r : PageError} : d.Closed id → d.Repeats forms r → Refuses d id forms r

section

variable {d : Desk σ} {t : TabsId} {id : EditorId} {forms : List PageId}

theorem closed_iff : ((d.editorTabs id).count > 0 || (d.editor id).relay.isSome) = false ↔ d.Closed id := by
  simp [Closed]

/-- Pages can be those of an editor when their ids differ, from each other and from that of the text page. -/
theorem not_repeats_iff : (∀ r, ¬d.Repeats forms r) ↔ (d.pageIds forms).Nodup ∧ textTabId ∉ d.pageIds forms := by
  constructor
  · intro hfree
    have hnodup : (d.pageIds forms).Nodup := by
      by_contra hrepeat
      obtain ⟨before, page, after, hforms, hbefore, hpage⟩ := exists_first_repeat _ hrepeat
      exact hfree _ (.form hforms hbefore hpage)
    exact ⟨hnodup, fun htext => hfree _ (.text hnodup htext)⟩
  · rintro ⟨hnodup, htext⟩ r hr
    cases hr with
    | form hforms _ hpage =>
      rw [hforms, pageIds, List.map_append, List.nodup_append] at hnodup
      exact hnodup.2.2 _ hpage _ List.mem_cons_self rfl
    | text _ hmem => exact htext hmem

theorem not_refuses_iff : (∀ r, ¬d.Refuses id forms r) ↔
    d.Closed id ∧ (d.pageIds forms).Nodup ∧ textTabId ∉ d.pageIds forms := by
  rw [← not_repeats_iff]
  constructor
  · intro hfree
    have hclosed : d.Closed id := by
      by_contra hopen
      exact hfree _ (.opened hopen)
    exact ⟨hclosed, fun r hr => hfree r (.repeats hclosed hr)⟩
  · rintro ⟨hclosed, hfree⟩ r hr
    cases hr with
    | opened hopen => exact hopen hclosed
    | repeats _ hr => exact hfree r hr

theorem tabsOf_withTabs (ht : t < d.tabs.length) (y : Tabs) : (d.withTabs t y).tabsOf t = y := by
  simp [withTabs, tabsOf, ht]

/-- The ids in tabs that have form pages only. -/
theorem ids_formTabs (d : Desk σ) (forms : List PageId) :
    ({ entries := forms.map d.formTab } : Tabs).ids = d.pageIds forms := by
  rw [Tabs.ids, List.map_map]
  rfl

theorem withTabs_withTabs (x y : Tabs) : (d.withTabs t x).withTabs t y = d.withTabs t y := by
  simp [withTabs, List.set_set]

theorem withTabs_tabsOf (d : Desk σ) (t : TabsId) : d.withTabs t (d.tabsOf t) = d := by
  have hset : d.tabs.set t (d.tabsOf t) = d.tabs := by
    by_cases ht : t < d.tabs.length
    · simp [tabsOf, List.getElem?_eq_getElem ht]
    · exact List.set_eq_of_length_le (Nat.le_of_not_lt ht)
  simp only [withTabs, hset]

theorem withTabs_empty (hempty : d.editorTabs id = {}) : d.withTabs (d.editor id).tabs {} = d := by
  rw [← hempty]
  exact withTabs_tabsOf d _

/-- What was noted of an editor that is not being created is taken back. -/
theorem withEditor_created (h : (d.editor id).creating = false) :
    ((d.withEditor id fun e => { e with creating := true }).withEditor id fun e => { e with creating := false }) = d := by
  have hset : (d.editors.modify id fun e => { e with creating := true }).modify id
      (fun e => { e with creating := false }) = d.editors := by
    refine List.ext_getElem? fun i => ?_
    rw [List.modify_modify_eq, List.getElem?_modify]
    by_cases hi : id = i
    · subst hi
      cases he : d.editors[id]? with
      | none => rfl
      | some e =>
        have hcreating : e.creating = false := by simpa [editor, he] using h
        simp only [if_true, Option.map_eq_map, Option.map_some, Function.comp_apply, ← hcreating]
    · cases d.editors[i]? <;> simp [hi]
  simp only [withEditor, hset]

end

end Desk

namespace Act

variable {h : Host σ} {d : Desk σ} {t : TabsId} {id : EditorId} {forms : List PageId} {text : PageId}

theorem updateTabs_run {f : Tabs → Except PageError (α × Tabs)} {a : α} {x y : Tabs} (ht : t < d.tabs.length)
    (hf : f x = .ok (a, y)) : updateTabs t f h (d.withTabs t x) = (.returned (.ok a), d.withTabs t y) := by
  simp only [updateTabs, look_bind, Desk.tabsOf_withTabs ht, hf, change_bind, pure_run, Desk.withTabs_withTabs]

theorem updateTabs_refused {f : Tabs → Except PageError (α × Tabs)} {x : Tabs} {r : PageError}
    (ht : t < d.tabs.length) (hf : f x = .error r) :
    updateTabs t f h (d.withTabs t x) = (.returned (.error r), d.withTabs t x) := by
  simp only [updateTabs, look_bind, Desk.tabsOf_withTabs ht, hf, pure_run]

theorem addForm_run {page : PageId} {x : Tabs} (ht : t < d.tabs.length) (hfresh : (d.page page).id ∉ x.ids) :
    addForm t page h (d.withTabs t x) = (.returned (.ok x.count), d.withTabs t (x.append [d.formTab page])) :=
  updateTabs_run (f := (·.addForm (d.page page).id (d.page page).title page)) ht
    (Tabs.add_fresh (d.formTab page) hfresh)

theorem addForm_refused {page : PageId} {x : Tabs} (ht : t < d.tabs.length) (htaken : (d.page page).id ∈ x.ids) :
    addForm t page h (d.withTabs t x) = (.returned (.error (.duplicatePage (d.page page).id)), d.withTabs t x) :=
  updateTabs_refused (f := (·.addForm (d.page page).id (d.page page).title page)) ht
    (Tabs.add_taken (d.formTab page) htaken)

/-- Form pages with ids of their own are added, and then the rest. -/
theorem addForms_append (ht : t < d.tabs.length) (rest : List PageId) {x : Tabs}
    (hids : (x.ids ++ d.pageIds forms).Nodup) : addForms t (forms ++ rest) h (d.withTabs t x) =
      addForms t rest h (d.withTabs t (x.append (forms.map d.formTab))) := by
  induction forms generalizing x with
  | nil => simp [Tabs.append]
  | cons page forms ih =>
    obtain ⟨-, -, hapart⟩ := List.nodup_append.1 hids
    have hfresh : (d.page page).id ∉ x.ids := fun hmem => hapart _ hmem _ List.mem_cons_self rfl
    have hrest : ((x.append [d.formTab page]).ids ++ d.pageIds forms).Nodup := by
      rw [Tabs.ids_append, List.append_assoc]
      exact hids
    refine (bind_run (addForm_run ht hfresh)).trans ((ih hrest).trans ?_)
    rw [Tabs.append_append]
    rfl

theorem openEditor_closed (hclosed : d.Closed id) : openEditor id forms text h d =
    (ensure (installPages id forms text) (setCreating id false) >>= showOpened id) h
      (d.withEditor id fun e => { e with creating := true }) := by
  simp only [openEditor, look_bind, Desk.closed_iff.2 hclosed]
  rfl

theorem openEditor_again (hopen : ¬d.Closed id) :
    openEditor id forms text h d = (.returned (.error .alreadyOpen), d) := by
  have hcond := Bool.of_not_eq_false (mt Desk.closed_iff.1 hopen)
  simp only [openEditor, look_bind, hcond, if_true, pure_run]

section

variable (ht : (d.editor id).tabs < d.tabs.length)

include ht

theorem addForms_empty (rest : List PageId) (hids : (d.pageIds forms).Nodup) :
    addForms (d.editor id).tabs (forms ++ rest) h (d.withTabs (d.editor id).tabs {}) =
      addForms (d.editor id).tabs rest h (d.withTabs (d.editor id).tabs { entries := forms.map d.formTab }) :=
  addForms_append ht rest hids

/-! ## Pages that are refused -/

/-- Pages two of which would have one id are not added, or not all of them. -/
theorem addPages_refused (text : PageId) {r : PageError} (hr : d.Repeats forms r) :
    ∃ y, addPages id forms text h (d.withTabs (d.editor id).tabs {}) =
      (.returned (.error r), d.withTabs (d.editor id).tabs y) := by
  cases hr with
  | @form before after page hforms hbefore hpage =>
    subst hforms
    rw [← Desk.ids_formTabs] at hpage
    exact ⟨_, bind_run ((addForms_empty ht (page :: after) hbefore).trans (bind_run (addForm_refused ht hpage)))⟩
  | text hnodup htext =>
    rw [← Desk.ids_formTabs] at htext
    have hadded := addForms_empty (h := h) ht [] hnodup
    rw [List.append_nil] at hadded
    have hrefused : addText (d.editor id).tabs (d.editor id).settings.textTitle text h (d.withTabs _ _) = _ :=
      updateTabs_refused ht (Tabs.add_taken (d.textTab id text) htext)
    exact ⟨_, (bind_run hadded).trans (bind_run hrefused)⟩

/-- An editor whose pages are refused is as it was. -/
theorem installPages_refused (text : PageId) {r : PageError} (hr : d.Repeats forms r) :
    installPages id forms text h (d.withTabs (d.editor id).tabs {}) =
      (.returned (.error r), d.withTabs (d.editor id).tabs {}) := by
  obtain ⟨y, hadd⟩ := addPages_refused (h := h) ht text hr
  exact (bind_run hadd).trans (congrArg (Prod.mk _) (Desk.withTabs_withTabs y {}))

/-! ## Pages that are installed -/

/-- Pages with ids of their own are added, the text page last. -/
theorem addPages_run (text : PageId) (hnodup : (d.pageIds forms).Nodup) (htext : textTabId ∉ d.pageIds forms) :
    addPages id forms text h (d.withTabs (d.editor id).tabs {}) = 
      (.returned (.ok ()), d.withTabs (d.editor id).tabs (d.openedTabs id forms text)) := by
  rw [← Desk.ids_formTabs] at htext
  have hforms := addForms_empty (h := h) ht [] hnodup
  rw [List.append_nil] at hforms
  have hadded : addText (d.editor id).tabs (d.editor id).settings.textTitle text h (d.withTabs _ _) = _ :=
    updateTabs_run ht (Tabs.add_fresh (d.textTab id text) htext)
  refine (bind_run hforms).trans ((bind_run hadded).trans (updateTabs_run ht ?_))
  simp [Tabs.activate, Tabs.append, Tabs.count, Except.map, Desk.openedTabs]

end

end Act

/-! ## Pages that are shown the document -/

/-- Pages that are shown the document return, and keep to themselves. -/
def Host.PagesReturn (h : Host σ) : Prop := ∀ page document d, ∃ s ps,
  h.answer (.pageChanged page document) d = (.returned (), { d with client := s, pages := ps })

theorem Host.Bystander.pagesReturn {h : Host σ} (hh : h.Bystander) : h.PagesReturn := fun page document d =>
  (hh (.pageChanged page document) d).imp fun _ hs => ⟨d.pages, hs⟩

/-- The model after a share was taken, a listener was subscribed with it, and it was given back. -/
def Model.joined (m : Model) (l : Listener) : Model :=
  { ((m.enter (.acquire .read)).enter .subscribe).enter (.release .read) with
    nextShare := m.nextShare + 1
    nextToken := m.nextToken + 1
    subscriptions := m.subscriptions ++ [⟨m.nextToken, l⟩] }

namespace Desk

/-- What pages are told as they are shown the document. -/
def shownTo (d : Desk σ) (document : Option Document) (pages : List PageId) : List Deed :=
  pages.map fun page => .told (.pageChanged page document) d.model.document

/-- What happens as tabs with these pages are attached. -/
def introduction (d : Desk σ) (pages : List PageId) : List Deed :=
  .call d.model.nextShare (.acquire .read) :: .call d.model.nextShare .subscribe ::
    d.shownTo d.model.document pages ++ [.call d.model.nextShare (.release .read)]

/-- The desk after an editor was let follow the model, if that can be read: then each of its pages was shown the document
once, in order, and the share that this took was given back. -/
structure Followed (d : Desk σ) (id : EditorId) (e : Desk σ) : Prop where
  model : e.model = if d.model.available then d.model.joined (.relay (.tabs (d.editor id).tabs)) else d.model
  history : e.history.toList = d.history.toList ++
    if d.model.available then d.introduction (d.editorTabs id).pages else []
  entries : (e.editorTabs id).entries = (d.editorTabs id).entries
  size : e.editors.length = d.editors.length
  following : e.isFollowing id = d.model.available

section

variable {d e f : Desk σ} {id : EditorId}

theorem Followed.turned (h : d.Followed id e) (hturned : Turned e f) : d.Followed id f where
  model := hturned.model.trans h.model
  history := by rw [hturned.history, h.history]
  entries := by rw [editorTabs, hturned.entries, editor, hturned.editors, ← h.entries]; rfl
  size := by rw [hturned.editors, h.size]
  following := by
    rw [← h.following]
    simp only [isFollowing, editor, relay, hturned.editors, hturned.relays]

/-- Whether it is being created makes no difference to an editor otherwise. -/
theorem editor_creating (d : Desk σ) (id : EditorId) (creating : Bool) :
    ∃ c, (d.withEditor id fun e => { e with creating }).editor id = { d.editor id with creating := c } := by
  simp only [editor, withEditor, List.getElem?_modify_eq]
  cases d.editors[id]? with
  | none => exact ⟨_, rfl⟩
  | some e => exact ⟨creating, rfl⟩

/-- Whether an editor is being created has to do with neither its tabs nor which ones they are. -/
theorem tabs_creating (d : Desk σ) (id : EditorId) (creating : Bool) :
    ((d.withEditor id fun e => { e with creating }).editor id).tabs = (d.editor id).tabs := by
  obtain ⟨c, hsame⟩ := d.editor_creating id creating
  rw [hsame]

theorem editorTabs_creating (d : Desk σ) (id : EditorId) (creating : Bool) :
    (d.withEditor id fun e => { e with creating }).editorTabs id = d.editorTabs id := by
  rw [editorTabs, tabs_creating]
  rfl

theorem Followed.of_creating {creating : Bool} (h : (d.withEditor id fun e => { e with creating }).Followed id e) :
    d.Followed id e := by
  refine ⟨?_, ?_, ?_, ?_, h.following⟩
  · rw [h.model, tabs_creating]
    rfl
  · rw [h.history, editorTabs_creating]
    rfl
  · rw [h.entries, editorTabs_creating]
  · simpa [withEditor] using h.size

theorem Followed.creating (h : d.Followed id e) (creating : Bool) :
    d.Followed id (e.withEditor id fun e => { e with creating }) := by
  obtain ⟨c, hsame⟩ := e.editor_creating id creating
  refine ⟨h.model, h.history, ?_, by simpa [withEditor] using h.size, ?_⟩
  · rw [editorTabs_creating]
    exact h.entries
  · rw [isFollowing, hsame]
    exact h.following

end

end Desk

namespace Act

variable {h : Host σ} {d : Desk σ} {t : TabsId} {id : EditorId} {forms : List PageId} {text : PageId}

/-- The pages are added while it is noted that they are being created. -/
theorem addPages_creating (text : PageId) (ht : (d.editor id).tabs < d.tabs.length) (hempty : d.editorTabs id = {})
    (hnodup : (d.pageIds forms).Nodup) (htext : textTabId ∉ d.pageIds forms) :
    addPages id forms text h (d.withEditor id fun e => { e with creating := true }) = (.returned (.ok ()),
      (d.withTabs (d.editor id).tabs (d.openedTabs id forms text)).withEditor id
        fun e => { e with creating := true }) := by
  obtain ⟨c, hsame⟩ := d.editor_creating id true
  have htabs := d.tabs_creating id true
  have hempty₁ := (d.editorTabs_creating id true).trans hempty
  generalize hd₁ : (d.withEditor id fun e => { e with creating := true }) = d₁ at hsame htabs hempty₁
  have hopened : d₁.openedTabs id forms text = d.openedTabs id forms text := by
    rw [Desk.openedTabs, Desk.textTab, hsame, ← hd₁]
    rfl
  have hrun := addPages_run (h := h) (d := d₁) (by rw [htabs]; rwa [← hd₁]) text (by rwa [← hd₁])
    (by rwa [← hd₁])
  rw [Desk.withTabs_empty hempty₁, hopened, htabs] at hrun
  rw [hrun, ← hd₁]
  rfl

/-- An editor whose pages would repeat an id is as it was. -/
theorem openEditor_repeats {r : PageError} (ht : (d.editor id).tabs < d.tabs.length) (hclosed : d.Closed id)
    (hempty : d.editorTabs id = {}) (hcreating : (d.editor id).creating = false) (hr : d.Repeats forms r) :
    openEditor id forms text h d = (.returned (.error r), d) := by
  have htabs := d.tabs_creating id true
  have hempty₁ := (d.editorTabs_creating id true).trans hempty
  have hcreated := Desk.withEditor_created hcreating
  rw [openEditor_closed hclosed]
  generalize hd₁ : (d.withEditor id fun e => { e with creating := true }) = d₁ at htabs hempty₁ hcreated ⊢
  have hr₁ : d₁.Repeats forms r := by
    rw [← hd₁]
    cases hr with
    | form hforms hbefore hpage => exact .form hforms hbefore hpage
    | text hnodup htext => exact .text hnodup htext
  have hrefused := installPages_refused (h := h) (by rw [htabs]; rwa [← hd₁]) text hr₁
  rw [Desk.withTabs_empty hempty₁] at hrefused
  refine (bind_run (ensure_run hrefused (change_run _ _))).trans ?_
  exact congrArg (Prod.mk _) hcreated

/-- An editor whose pages do not repeat an id is not refused. -/
theorem openEditor_accepts (ht : (d.editor id).tabs < d.tabs.length) (hclosed : d.Closed id)
    (hempty : d.editorTabs id = {}) (hnodup : (d.pageIds forms).Nodup) (htext : textTabId ∉ d.pageIds forms)
    (r : PageError) : (openEditor id forms text h d).1 ≠ .returned (.error r) := by
  intro hrun
  rw [openEditor_closed hclosed] at hrun
  obtain ⟨installed, d₁, hinstalled, hshown⟩ := bind_answer hrun
  -- Once the pages are there, nothing that comes after is an error.
  cases installed with
  | error cause =>
    have hinstall := ensure_answer (congrArg Prod.fst hinstalled)
    rw [installPages, bind_run (addPages_creating text ht hempty hnodup htext)] at hinstall
    obtain ⟨_, _, -, hnot⟩ := bind_answer hinstall
    cases hnot
  | ok _ =>
    obtain ⟨_, _, -, hnot⟩ := bind_answer hshown
    cases hnot

/-- **An editor is refused for one of the reasons, and then is as it was.** -/
theorem openEditor_error_iff {r : PageError} {e : Desk σ} (ht : (d.editor id).tabs < d.tabs.length)
    (hempty : d.Closed id → d.editorTabs id = {}) (hcreating : (d.editor id).creating = false) :
    openEditor id forms text h d = (.returned (.error r), e) ↔ d.Refuses id forms r ∧ e = d := by
  constructor
  · intro hrun
    by_cases hclosed : d.Closed id
    · by_cases hrepeats : ∃ r, d.Repeats forms r
      · obtain ⟨r', hr⟩ := hrepeats
        rw [openEditor_repeats ht hclosed (hempty hclosed) hcreating hr] at hrun
        cases hrun
        exact ⟨.repeats hclosed hr, rfl⟩
      · obtain ⟨hnodup, htext⟩ := Desk.not_repeats_iff.1 (not_exists.1 hrepeats)
        exact absurd (congrArg Prod.fst hrun) (openEditor_accepts ht hclosed (hempty hclosed) hnodup htext r)
    · rw [openEditor_again hclosed] at hrun
      cases hrun
      exact ⟨.opened hclosed, rfl⟩
  · rintro ⟨hrefuses, rfl⟩
    cases hrefuses with
    | opened hopen => exact openEditor_again hopen
    | repeats hclosed hr => exact openEditor_repeats ht hclosed (hempty hclosed) hcreating hr

section

variable (hh : h.PagesReturn)

include hh

theorem each_pagesReturn (document : Option Document) (pages : List PageId) (d : Desk σ) :
    ∃ s ps, each pages (fun page => call (.pageChanged page document)) h d =
      (.returned (), { d.later (d.shownTo document pages) s with pages := ps }) := by
  induction pages generalizing d with
  | nil => exact ⟨d.client, d.pages, by simp [each, Desk.shownTo]⟩
  | cons page pages ih =>
    let told : Deed := .told (.pageChanged page document) d.model.document
    obtain ⟨s, ps, hanswer⟩ := hh page document (d.enter told)
    have hcall : call (.pageChanged page document) h d =
        (.returned (), { d.enter told with client := s, pages := ps }) := by
      simp only [call]
      rw [hanswer]
    obtain ⟨s', ps', hrest⟩ := ih { d.enter told with client := s, pages := ps }
    refine ⟨s', ps', (bind_run hcall).trans (hrest.trans (congrArg (Prod.mk _) ?_))⟩
    simp [Desk.later, Desk.enter, Desk.shownTo, told]

theorem notifyPresent_pagesReturn (document : Option Document) (hpresent : d.present (.tabs t) = true) :
    ∃ s ps, notifyPresent (.tabs t) (.changed document) h d =
      (.returned (), { d.later (d.shownTo document (d.tabsOf t).pages) s with pages := ps }) := by
  obtain ⟨s, ps, heach⟩ := each_pagesReturn hh document (d.tabsOf t).pages { d with held := .tabs t :: d.held }
  have hnotify : notify (.tabs t) (.changed document) h { d with held := .tabs t :: d.held } = _ := heach
  refine ⟨s, ps, ?_⟩
  simp only [notifyPresent, look_bind, hpresent, if_true, hold, change_bind]
  refine (ensure_run hnotify (change_run _ _)).trans ?_
  simp [Observer.ref, Desk.shownTo, Desk.later]

/-- Tabs that are attached have subscribed, and their pages were shown the document. -/
theorem attach_pagesReturn (hm : d.model.Numbered) (havailable : d.model.available = true)
    (hpresent : d.present (.tabs t) = true) :
    ∃ s ps, attach (.tabs t) h d = (.returned (.ok d.relays.length),
      { d.later (d.introduction (d.tabsOf t).pages) s with
        model := d.model.joined (.relay (.tabs t))
        pages := ps
        relays := d.relays ++ [⟨some d.model.nextToken⟩] }) := by
  obtain ⟨s, m, hacquire⟩ : ∃ s m, d.model.acquire .read = .ok (s, m) :=
    ⟨_, _, Model.acquire_of_available havailable .read⟩
  have htaken : m.accessOf? s.id = some .read := Model.accessOf?_acquire hacquire
  generalize hd₁ : (d.accepted s (.acquire .read) m).subscribed s (.tabs t) = d₁
  have hlive : d₁.model.accessOf? s.id = some .read := by
    rw [← hd₁]
    exact htaken
  obtain ⟨c, ps, hnotify⟩ :=
    notifyPresent_pagesReturn (d := d₁) hh (d₁.model.documentFor s) (t := t) (by rwa [← hd₁])
  generalize hd₂ : ({ d₁.later (d₁.shownTo (d₁.model.documentFor s) (d₁.tabsOf t).pages) c with pages := ps } : Desk σ) =
    d₂ at hnotify
  have hlive₂ : d₂.model.accessOf? s.id = some .read := by rwa [← hd₂]
  have hrelease := release_run (h := h) (d := d₂) (Model.release?_of_live (s := s) hlive₂)
  refine ⟨c, ps, (attach_run hacquire hd₁ hnotify).trans ?_⟩
  rw [hrelease, ← hd₂, Model.documentFor_of_live hlive, ← hd₁]
  have hothers : d.model.live.filter (·.id != d.model.nextShare) = d.model.live :=
    List.filter_eq_self.2 fun u hu => by simpa using Nat.ne_of_lt (hm.below u hu)
  obtain ⟨-, rfl, rfl⟩ := Model.acquire_ok hacquire
  simp [Desk.accepted, Desk.enter, Desk.later, Desk.subscribed, Desk.introduction, Desk.shownTo, Model.joined,
    Model.enter, hothers, Desk.tabsOf]

/-- An editor that has no relay, and whose tabs are in use, is let follow the model if that can be read. -/
theorem followModel_pagesReturn (id : EditorId) (hm : d.model.Numbered) (hid : id < d.editors.length)
    (hrelay : (d.editor id).relay = none)
    (hpresent : d.present (.tabs (d.editor id).tabs) = true) :
    ∃ e, followModel id h d = (.returned (), e) ∧ d.Followed id e := by
  simp only [followModel, look_bind]
  cases havailable : d.model.available with
  | false =>
    refine ⟨_, bind_run (attach_refused (Model.acquire_of_unavailable havailable .read)), ?_⟩
    exact {
      model := by simp [havailable]
      history := by simp [havailable]
      entries := rfl
      size := rfl
      following := (Desk.not_following hrelay).trans havailable.symm }
  | true =>
    obtain ⟨s, ps, hattach⟩ := attach_pagesReturn hh hm havailable hpresent
    generalize he : ({ d.later (d.introduction (d.tabsOf (d.editor id).tabs).pages) s with
      model := d.model.joined (.relay (.tabs (d.editor id).tabs))
      pages := ps
      relays := d.relays ++ [⟨some d.model.nextToken⟩] } : Desk σ) = e at hattach
    have hsame : e.editor id = d.editor id := by
      rw [← he]
      rfl
    have hreplace : replaceRelay id d.relays.length h e =
        (.returned (), e.withEditor id fun x => { x with relay := some d.relays.length }) := by
      simp [replaceRelay, hsame, hrelay]
    have hid' : id < e.editors.length := by rwa [← he]
    have heditor := Desk.editor_withEditor (d := e) hid'
      (fun x => { x with relay := some d.relays.length }) id
    rw [if_pos rfl, hsame] at heditor
    refine ⟨_, (bind_run hattach).trans hreplace, ?_⟩
    exact {
      model := by simp [havailable, ← he, Desk.withEditor]
      history := by simp [havailable, ← he, Desk.withEditor, Desk.editorTabs]
      entries := by
        rw [Desk.editorTabs, heditor, ← he]
        rfl
      size := by simp [← he, Desk.withEditor, Desk.later]
      following := by
        rw [Desk.isFollowing, heditor]
        simp [← he, Desk.withEditor, Desk.relay, havailable] }

/-- An editor that is not open, and whose pages do not repeat an id, is opened. -/
theorem openEditor_pagesReturn (text : PageId) (hm : d.model.Numbered) (hid : id < d.editors.length)
    (ht : (d.editor id).tabs < d.tabs.length) (hpresent : d.present (.tabs (d.editor id).tabs) = true)
    (hclosed : d.Closed id) (hempty : d.editorTabs id = {}) (hnodup : (d.pageIds forms).Nodup)
    (htext : textTabId ∉ d.pageIds forms) :
    ∃ e, openEditor id forms text h d = (.returned (.ok ()), e) ∧ (e.editor id).creating = false ∧
      (d.withTabs (d.editor id).tabs (d.openedTabs id forms text)).Followed id e := by
  have hadd := addPages_creating (h := h) text ht hempty hnodup htext
  obtain ⟨c, hsame⟩ := (d.withTabs (d.editor id).tabs (d.openedTabs id forms text)).editor_creating id true
  generalize hd₁ : (d.withTabs (d.editor id).tabs (d.openedTabs id forms text)).withEditor id
    (fun e => { e with creating := true }) = d₁ at hadd hsame
  obtain ⟨e₁, hfollow, he₁⟩ := followModel_pagesReturn (d := d₁) hh id (by rwa [← hd₁])
    (by simpa [← hd₁, Desk.withEditor, Desk.withTabs] using hid) (by rw [hsame]; exact hclosed.2)
    (by rw [hsame, ← hd₁]; exact hpresent)
  have hinstall : installPages id forms text h (d.withEditor id fun e => { e with creating := true }) =
      (.returned (.ok ()), e₁) := (bind_run hadd).trans (bind_run hfollow)
  obtain ⟨_, e, hshow, hturned⟩ := showInitial_settles (h := h) Desk.Turned.path (fun _ _ hturn => hturn.turned) id none
    (e₁.withEditor id fun x => { x with creating := false })
  rw [openEditor_closed hclosed]
  refine ⟨e, (bind_run (ensure_run hinstall (change_run _ _))).trans (bind_run hshow), ?_, ?_⟩
  · refine Bool.eq_false_iff.2 fun hcreating => ?_
    rw [Desk.editor, hturned.editors] at hcreating
    obtain ⟨-, hfalse⟩ | ⟨hne, -⟩ := creating_withEditor hcreating
    · cases hfalse
    · exact hne rfl
  · rw [← hd₁] at he₁
    exact (he₁.of_creating.creating false).turned hturned

end

end Act

namespace Host.Callers

variable {n : Nat} {h : Host σ}

/-- **An editor opens all of its pages or none.** In every state that editors come to while they are not being
opened, opening is refused exactly for the reasons in `Desk.Refuses`, and then everything is as it was.
Otherwise, if pages that are shown the document return and keep to themselves, the editor has the form pages in
order and the text page last, follows the model if that can be read, and has shown the document to each page
once, in order. -/
theorem opens_whole (hh : h.Callers n Act.EditorOp) {a : Act σ α} (ha : Act.Caller n Act.EditorOp a)
    {document : Option Document} {location : String} {d e : Desk σ} (hmodel : d.model = { document, location })
    (hhistory : d.history = #[]) (heditors : d.editors = []) (htabs : d.tabs = []) (hheld : d.held = [])
    (hrun : (a h d).2 = e) {id : EditorId} (hid : .editor id ∈ e.held)
    (hended : (a h d).1 ≠ .fatal ∨ (e.editor id).creating = false) (forms : List PageId) (text : PageId) (k : Host σ) :
    (∀ r f, Act.openEditor id forms text k e = (.returned (.error r), f) ↔ e.Refuses id forms r ∧ f = e) ∧
    ((∀ r, ¬e.Refuses id forms r) → k.PagesReturn → ∃ f, Act.openEditor id forms text k e = (.returned (.ok ()), f) ∧
      (f.editorTabs id).entries = forms.map e.formTab ++ [e.textTab id text] ∧
      (f.editorTabs id).indexOf textTabId = .ok forms.length ∧
      (f.editorTabs id).textIndex? = some forms.length ∧
      f.isFollowing id = e.model.available ∧
      f.model = (if e.model.available then e.model.joined (.relay (.tabs (e.editor id).tabs)) else e.model) ∧
      f.history.toList = e.history.toList ++ (if e.model.available then e.introduction (forms ++ [text]) else []) ∧
      (f.editor id).creating = false) := by
  subst hrun
  have howned := hh.owned ha (.new heditors htabs hheld : d.Owned _)
  have hm : (a h d).2.model.Numbered :=
    ((hh.mono Act.EditorOp.deskOp).audited (ha.mono Act.EditorOp.deskOp) d (.new hmodel hhistory)).numbering.live
  have hcreating : ((a h d).2.editor id).creating = false :=
    hended.elim (fun hended => hh.created ha hended (by simp [Desk.editor, heditors])) fun hcreating => hcreating
  generalize (a h d).2 = e at howned hm hcreating hid ⊢
  obtain ⟨hlt, ht, hpresent⟩ := howned.editor hid
  have hempty (hclosed : e.Closed id) : e.editorTabs id = {} := (howned.sound_tabsOf _).eq_empty hclosed.1
  refine ⟨fun r f => Act.openEditor_error_iff ht hempty hcreating, fun hfree hk => ?_⟩
  obtain ⟨hclosed, hnodup, htext⟩ := Desk.not_refuses_iff.1 hfree
  obtain ⟨f, hrun, hcreated, hf⟩ :=
    Act.openEditor_pagesReturn hk text hm hlt ht hpresent hclosed (hempty hclosed) hnodup htext
  have htabs : (e.withTabs (e.editor id).tabs (e.openedTabs id forms text)).editorTabs id =
    e.openedTabs id forms text := Desk.tabsOf_withTabs ht _
  have hentries := hf.entries
  have hhistory := hf.history
  rw [htabs] at hentries
  rw [htabs, Desk.pages_openedTabs] at hhistory
  obtain ⟨hindex, htextIndex⟩ := Desk.textTab_last hentries htext
  exact ⟨f, hrun, hentries, hindex, htextIndex, hf.following, hf.model, hhistory, hcreated⟩

/-- An editor that was opened, lost its pages and stopped following is not opened with a page twice, but with the page
once. -/
theorem opens_whole_again :
    let h : Host Unit := .silent
    let a : Act Unit Unit := do
      let id ← Act.makeEditor "e" none {} 0
      let _ ← Act.openEditor id [0] 1
      Act.dropPages id
      Act.disposeEditor id
    let d : Desk Unit :=
      { model := { document := some "d", location := "f" }
        pages := [⟨"a", "A", false⟩, ⟨"t", "T", false⟩]
        memories := [{}]
        client := () }
    let e := (a h d).2
    Act.openEditor 0 [0, 0] 1 h e = (.returned (.error (.duplicatePage "a")), e) ∧
      ∃ f, Act.openEditor 0 [0] 1 h e = (.returned (.ok ()), f) ∧
        (f.editorTabs 0).pages = [0, 1] ∧ f.isFollowing 0 = true ∧ f.model.live = [] ∧
        f.history.toList = e.history.toList ++ [.call 3 (.acquire .read), .call 3 .subscribe,
          .told (.pageChanged 0 (some "d")) (some "d"), .told (.pageChanged 1 (some "d")) (some "d"),
          .call 3 (.release .read)] := by
  intro h a d e
  have hh : h.Callers 0 Act.EditorOp := .silent fun _ _ => rfl
  have ha : Act.Caller 0 Act.EditorOp a := .bind (.op (.makeEditor ..)) fun id =>
    .bind (.op (.openEditor id [0] 1)) fun _ => .bind (.op (.dropPages id)) fun _ => .op (.disposeEditor id)
  have hid : .editor 0 ∈ e.held := by decide +kernel
  have hended : (a h d).1 ≠ .fatal ∨ (e.editor 0).creating = false := by decide +kernel
  have hclosed : e.Closed 0 := by constructor <;> decide +kernel
  have hpage : e.page 0 = ⟨"a", "A", false⟩ := by decide +kernel
  have havailable : e.model.available = true := by decide +kernel
  have hrepeats : e.Repeats [0, 0] (.duplicatePage "a") := by
    have htwice := Desk.Repeats.form (d := e) (show [0, 0] = [0] ++ 0 :: [] from rfl)
    simp only [Desk.pageIds, List.map_cons, List.map_nil, hpage] at htwice
    exact htwice (by decide) (by decide)
  have hfree (r : PageError) : ¬e.Refuses 0 [0] r := fun hr => by
    cases hr with
    | opened hopen => exact hopen hclosed
    | repeats _ hr =>
      refine Desk.not_repeats_iff.2 ?_ r hr
      simp only [Desk.pageIds, List.map_cons, List.map_nil, hpage]
      decide
  obtain ⟨hrefused, -⟩ := hh.opens_whole ha (d := d) (e := e) rfl rfl rfl rfl rfl rfl hid hended [0, 0] 1 h
  obtain ⟨-, hopened⟩ := hh.opens_whole ha (d := d) (e := e) rfl rfl rfl rfl rfl rfl hid hended [0] 1 h
  obtain ⟨f, hrun, hentries, -, -, hfollowing, hmodel, hhistory, -⟩ := hopened hfree Host.Bystander.silent.pagesReturn
  refine ⟨(hrefused _ _).2 ⟨.repeats hclosed hrepeats, rfl⟩, f, hrun, ?_, hfollowing.trans havailable, ?_, ?_⟩
  · simp [Tabs.pages, hentries, Desk.formTab, Desk.textTab]
  · rw [hmodel.trans (if_pos havailable)]
    decide +kernel
  · refine (hhistory.trans (congrArg _ (if_pos havailable))).trans (congrArg _ ?_)
    decide +kernel

end Host.Callers

end FormDesk

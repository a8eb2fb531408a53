/-
The multi-page form editor (`FormEditor`). It binds form pages and one text page to
the model: pages edit the model through the editor's coordinator and follow it
through a relay that is attached when the pages are created. The editor
remembers which page was active.

* `openEditor` is `open`, with `installPages` for the part of it in which pages are
  being created; `dropPages` is `remove_pages`, `disposeEditor` is `dispose`.
* `showIndex` and `showPage` are `set_active_page_index` and `set_active_page`;
  `rememberPage` is `page_changed`, `showInitial` is `select_default_page`.
* `commitForms` is `commit_pages`.
-/
import FormDesk.Relay
import FormDesk.Session.Undoable
import FormDesk.Text.Numeral

namespace FormDesk

namespace Desk

variable {σ : Type}

/-- The desk with one editor changed. -/
def withEditor (d : Desk σ) (id : EditorId) (f : Editor → Editor) : Desk σ :=
  { d with editors := d.editors.modify id f }

/-- The desk with one set of tabs changed. -/
def withTabs (d : Desk σ) (id : TabsId) (t : Tabs) : Desk σ :=
  { d with tabs := d.tabs.set id t }

/-- The tabs of an editor. -/
def editorTabs (d : Desk σ) (id : EditorId) : Tabs := d.tabsOf (d.editor id).tabs

/-- The key under which an editor's active page is remembered. -/
def memoryKey (d : Desk σ) (id : EditorId) : String :=
  (d.editor id).settings.memoryKey (d.editor id).name

/-- Whether an editor's pages follow the model. -/
def isFollowing (d : Desk σ) (id : EditorId) : Bool :=
  match (d.editor id).relay with
  | some relay => (d.relay relay).subscription.isSome
  | none => false

end Desk

namespace Act

variable {σ ε α : Type}

/-! ## Making and dropping editors -/

/-- Puts an editor on the desk, with a coordinator and tabs of its own. -/
def makeEditor (name : String) (project : Option String) (settings : Settings) (memory : MemoryId) :
    Act σ EditorId := do
  let id ← look (·.editors.length)
  change fun d =>
    { d with
      coordinators := d.coordinators ++ [{ project, fallbackTag := settings.fallbackTag }]
      tabs := d.tabs ++ [{}]
      editors := d.editors ++ [{
        name, project, settings, memory, coordinator := d.coordinators.length, tabs := d.tabs.length }]
      held := .editor id :: .tabs d.tabs.length :: d.held }
  return id

/-- Detaches and forgets an editor's relay, if it has one. -/
def disposeEditor (id : EditorId) : Act σ Unit := do
  match (← look fun d => (d.editor id).relay) with
  | none => pure ()
  | some relay =>
    change (·.withEditor id fun e => { e with relay := none })
    detach relay

/-- Gives up one use of a thing. An editor that is no longer in use lets go of its pages and then
of its relay. -/
def letGo (r : Ref) : Act σ Unit := do
  unhold r
  match r with
  | .editor id =>
    if !(← look (·.held.contains r)) then
      unhold (.tabs (← look fun d => (d.editor id).tabs))
      disposeEditor id
  | _ => pure ()

/-- Runs an action and keeps a thing in use meanwhile. -/
def holding (r : Ref) (act : Act σ α) : Act σ α := do
  hold r
  ensure act (letGo r)

/-! ## Pages -/

/-- Changes a set of tabs by an operation that may fail. -/
def updateTabs (id : TabsId) (f : Tabs → Except PageError (α × Tabs)) : Act σ (Except PageError α) := do
  match f (← look (·.tabsOf id)) with
  | .error e => return .error e
  | .ok (a, t) =>
    change (·.withTabs id t)
    return .ok a

/-- Appends a form page to tabs. -/
def addForm (id : TabsId) (page : PageId) : Act σ (Except PageError Nat) := do
  let p ← look (·.page page)
  updateTabs id (·.addForm p.id p.title page)

/-- Appends the text page to tabs. -/
def addText (id : TabsId) (title : String) (page : PageId) : Act σ (Except PageError Nat) :=
  updateTabs id (·.addText title page)

/-- Makes the page at an index of tabs the active one. -/
def activate (id : TabsId) (index : Nat) : Act σ (Except PageError Unit) :=
  updateTabs id fun t => (t.activate index).map ((), ·)

/-- Removes all pages of tabs. -/
def clearTabs (id : TabsId) : Act σ Unit := change (·.withTabs id {})

/-- Appends form pages one after another, as far as their ids are new. -/
def addForms (id : TabsId) : List PageId → Act σ (Except PageError Unit)
  | [] => return .ok ()
  | page :: rest => do
    match ← addForm id page with
    | .error e => return .error e
    | .ok _ => addForms id rest

/-! ## The active page -/

/-- Remembers an index as the active page of an editor, unless its pages are being created or it
does not remember. -/
def rememberPage (id : EditorId) (index : Nat) : Act σ Unit := do
  let e ← look (·.editor id)
  if e.creating || !e.settings.remembers then return
  let key ← look (·.memoryKey id)
  match (← look (·.memory e.memory)).store key (toString index) with
  | .error cause => note (.activePageNotRemembered cause)
  | .ok m => change fun d => { d with memories := d.memories.set e.memory m }

/-- Shows the page at an index. -/
def showIndex (id : EditorId) (index : Nat) : Act σ (Except PageError Unit) := do
  match ← activate (← look fun d => (d.editor id).tabs) index with
  | .error e => return .error e
  | .ok () =>
    rememberPage id index
    return .ok ()

/-- Shows the page with an id, and answers its index. -/
def showPage (id : EditorId) (page : String) : Act σ (Except PageError Nat) := do
  match (← look (·.editorTabs id)).indexOf page with
  | .error e => return .error e
  | .ok index =>
    match ← showIndex id index with
    | .error e => return .error e
    | .ok () => return .ok index

/-- The page to show at first: the given one, else the remembered one, else the one in the settings. -/
def initialChoice (id : EditorId) (page : Option String) : Act σ (Option String) :=
  look fun d =>
    let e := d.editor id
    let remembered :=
      if e.settings.remembers then (d.memory e.memory).load (d.memoryKey id) else none
    page <|> remembered <|> e.settings.defaultPage

/-- Shows the page that a choice names: a numeral is an index, any other text an id. -/
def showChoice (id : EditorId) (choice : String) : Act σ (Except PageError Unit) := do
  match numeral? choice with
  | some index => showIndex id index
  | none => return (← showPage id choice).map fun _ => ()

/-- Shows the first page in place of one that could not be shown. -/
def showFirst (id : EditorId) : Except PageError Unit → Act σ Unit
  | .ok () => pure ()
  | .error cause => do
    note (.defaultPageFailed cause)
    let _ ← activate (← look fun d => (d.editor id).tabs) 0

/-- Shows the page to show at first, or the first page when that one cannot be shown. -/
def showInitial (id : EditorId) (page : Option String) : Act σ Unit := do
  match ← initialChoice id page with
  | none => pure ()
  | some choice => showFirst id (← showChoice id choice)

/-! ## Opening -/

/-- Creates the pages of an editor: forms, then the text page; the first one becomes active. -/
def addPages (id : EditorId) (forms : List PageId) (text : PageId) : Act σ (Except PageError Unit) := do
  let e ← look (·.editor id)
  match ← addForms e.tabs forms with
  | .error cause => return .error cause
  | .ok () =>
    match ← addText e.tabs e.settings.textTitle text with
    | .error cause => return .error cause
    | .ok _ => activate e.tabs 0

/-- Gives an editor a relay in place of an earlier one, which is then detached. -/
def replaceRelay (id : EditorId) (relay : RelayId) : Act σ Unit := do
  let earlier ← look fun d => (d.editor id).relay
  change (·.withEditor id fun e => { e with relay := some relay })
  match earlier with
  | some r => detach r
  | none => pure ()

/-- Attaches a relay to the editor's pages. -/
def followModel (id : EditorId) : Act σ Unit := do
  let e ← look (·.editor id)
  match ← attach (.tabs e.tabs) with
  | .error cause => note (.pagesNotFollowing cause)
  | .ok relay => replaceRelay id relay

/-- Notes whether the pages of an editor are being created. -/
def setCreating (id : EditorId) (creating : Bool) : Act σ Unit :=
  change (·.withEditor id fun e => { e with creating := creating })

/-- Creates the pages and lets them follow the model; no page stays when one of them cannot be added. -/
def installPages (id : EditorId) (forms : List PageId) (text : PageId) : Act σ (Except PageError Unit) := do
  match ← addPages id forms text with
  | .error cause =>
    clearTabs (← look fun d => (d.editor id).tabs)
    return .error cause
  | .ok () =>
    followModel id
    return .ok ()

/-- Shows the default page of an editor whose pages could be created. -/
def showOpened (id : EditorId) : Except PageError Unit → Act σ (Except PageError Unit)
  | .error cause => return .error cause
  | .ok () => do
    showInitial id none
    return .ok ()

/-- Opens an editor: creates its pages, follows the model and shows the default page. An editor whose
model cannot be read has its pages all the same. -/
def openEditor (id : EditorId) (forms : List PageId) (text : PageId) : Act σ (Except PageError Unit) := do
  if (← look fun d => (d.editorTabs id).count > 0 || (d.editor id).relay.isSome) then
    return .error .alreadyOpen
  setCreating id true
  showOpened id (← ensure (installPages id forms text) (setCreating id false))

/-- Removes all pages of an editor; it goes on following the model. -/
def dropPages (id : EditorId) : Act σ Unit := do
  clearTabs (← look fun d => (d.editor id).tabs)

/-! ## Working with the pages -/

/-- Lets pages commit in turn, those that have changes when their turn comes; answers how many did. -/
def commitEach (onSave : Bool) : List PageId → Act σ Nat
  | [] => return 0
  | page :: rest => do
    if (← look fun d => (d.page page).dirty) then
      call (.pageCommit page onSave)
      return (← commitEach onSave rest) + 1
    else commitEach onSave rest

/-- Lets the form pages of an editor write their changes into the document. -/
def commitForms (id : EditorId) (onSave : Bool) : Act σ Nat := do
  commitEach onSave ((← look (·.editorTabs id)).ofKind .form)

/-- Shows the text page with a range of the text; answers whether there is a text page. -/
def reveal (id : EditorId) (start stop : Nat) : Act σ Bool := do
  match ← showPage id textTabId with
  | .error _ => return false
  | .ok index =>
    match (← look (·.editorTabs id)).entries[index]? with
    | none => return false
    | some tab =>
      call (.pageReveal tab.page start stop)
      return true

end Act

end FormDesk

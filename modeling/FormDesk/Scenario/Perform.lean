/-
Carrying out operations: each one looks up the names it is given, acts on the
desk and answers a result. An operation on a name that nothing is kept under
answers so and does nothing.

What an operation works on is in use while it runs, and is given up after it;
what it replaces is given up when the new thing is in place.
-/
import FormDesk.Editor
import FormDesk.Scenario.Stage
import FormDesk.Script.Basic

namespace FormDesk.Scenario

namespace Play

open Act

variable {β α : Type}

/-! ## Looking up -/

/-- What the stage looks like. -/
def look (f : Stage β → α) : Play β α := Act.look fun d => f d.client

/-- Goes on with what is kept under a name, if there is such a thing. -/
def withNamed (table : Stage β → Names α) (name : String) (f : α → Play β Result) : Play β Result := do
  match (← look table).find? name with
  | some a => f a
  | none => return .noSuch

/-- Goes on with an editor, which is in use meanwhile. -/
def withEditor (name : String) (f : EditorId → Play β Result) : Play β Result :=
  withNamed (·.editors) name fun id => holding (.editor id) (f id)

/-- Goes on with tabs, which are in use meanwhile. -/
def withTabs (name : String) (f : TabsId → Play β Result) : Play β Result :=
  withNamed (·.tabs) name fun id => holding (.tabs id) (f id)

/-- Acts with the chosen share. -/
def withChosen (scope : Option Scope) (choice : ShareChoice) (f : Share → Play β α) :
    Play β (Except Result α) := do
  match choice with
  | .madeUp share => return .ok (← f share)
  | .named name =>
    match (← look (·.shares)).find? name with
    | some share => return .ok (← f share)
    | none => return .error .noSuch
  | .ambient access =>
    match scope with
    | some scope => return .ok (← f (← scopeShare scope))
    | none =>
      match ← withShare access f with
      | .ok a => return .ok a
      | .error e => return .error (.modelError e)

/-- The share that an operation on shares is given. -/
def findShare? (choice : ShareChoice) : Play β (Option Share) := do
  match choice with
  | .madeUp share => return some share
  | .named name => return (← look (·.shares)).find? name
  | .ambient _ => return none

/-! ## Results -/

/-- The result of an action with a share that answers a result. -/
def sharedResult : Except Result Result → Result
  | .ok r => r
  | .error r => r

/-- The result of an operation of the model. -/
def modelResult (f : α → Result) : Except ModelError α → Result
  | .ok a => f a
  | .error e => .modelError e

/-- The result of an operation on pages. -/
def pageResult (f : α → Result) : Except PageError α → Result
  | .ok a => f a
  | .error e => .pageError e

/-- The name under which a coordinator is kept, the first one if there are several. -/
def coordinatorName? (names : Names CoordinatorId) (id : CoordinatorId) : Option String :=
  ((names.filter (·.2 == id)).map (·.1)).foldl (fun found name =>
    match found with
    | some first => some (if name < first then name else first)
    | none => some name) none

/-- The name of a segment's owner. -/
def ownerName (names : Names CoordinatorId) : Owner → OwnerName
  | .client n => .client n
  | .coordinator id =>
    match coordinatorName? names id with
    | some name => .coordinator name
    | none => .unknown

/-- The observable state. -/
def snapshot (d : Desk (Stage β)) : Snapshot where
  document := d.model.document
  dirty := d.model.dirty
  changing := d.model.changing > 0
  recording := d.model.recording.isSome
  shares := d.model.live.length
  listeners := d.model.subscriptions.length
  undoLabels := d.model.undoLabels
  location := d.model.location
  coordinators := d.client.coordinators.map fun (name, id) =>
    let c := d.coordinator id
    (name, c.session.depth, c.undoDepth > 0)

/-! ## Operations of the model -/

/-- Registers a listener of the scenario. -/
def subscribeListener (called : String) (reactions : List (Reaction β)) (share : Share) :
    Play β Result := do
  let id ← look (·.listenerPlayers.length)
  set (·.enlist .listener { name := called, reactions })
  match ← subscribe share (.client id) with
  | .error e => return .modelError e
  | .ok token =>
    set fun s => { s with tokens := s.tokens.put called token }
    return .token token

/-- Ends the chosen subscription. -/
def endSubscription (scope : Option Scope) (share : ShareChoice) (choice : TokenChoice) :
    Play β Result := do
  let token ← match choice with
    | .number n => pure (some n)
    | .named name => pure ((← look (·.tokens)).find? name)
  match token with
  | none => return .noSuch
  | some token =>
    return sharedResult (← withChosen scope share fun s => return .flag (← unsubscribe s token))

/-- Takes a share and keeps it. -/
def acquireNamed (access : Access) (called : String) : Play β Result := do
  match ← acquire access with
  | .error e => return .modelError e
  | .ok share =>
    set fun s => { s with shares := s.shares.put called share }
    return .acquired share

/-- Gives a share back. -/
def releaseChosen (choice : ShareChoice) : Play β Result := do
  match ← findShare? choice with
  | none => return .noSuch
  | some share =>
    release share
    return .ok

/-- Takes back the latest undo segment. -/
def undoResult : Play β Result := do
  match ← undo with
  | none => return .nothing
  | some entry =>
    return .undone entry.label (ownerName (← look (·.coordinators)) entry.owner) entry.before

/-! ## Relays -/

/-- Keeps an observer under a name, in place of an earlier one. -/
def putView (called : String) (plain : Bool) (reactions : List (Reaction β)) : Play β Unit := do
  let earlier := (← look (·.views)).find? called
  let id ← look (·.viewPlayers.length)
  set fun s => { s.enlist .view { name := called, plain, reactions } with views := s.views.put called id }
  hold (.view id)
  match earlier with
  | some old => letGo (.view old)
  | none => pure ()

/-- Attaches a relay to an observer and keeps it under a name, in place of an earlier one. -/
def attachNamed (called : String) (o : Observer) : Play β Result :=
  holding o.ref do
    match ← attach o with
    | .error e => return .sessionError e
    | .ok id =>
      let earlier := (← look (·.relays)).find? called
      set fun s => { s with relays := s.relays.put called id }
      match earlier with
      | some old => detach old
      | none => pure ()
      return .ok

/-! ## Tabs and pages -/

/-- The page that a description means, made if it is a new one. -/
def pageOf (p : PageSpec β) : Play β PageId := do
  match p.ref.bind (← look (·.pages)).find? with
  | some id => return id
  | none =>
    let id ← Act.look (·.pages.length)
    let name := p.called.getD p.id
    let page : Page := if p.plain then ⟨p.id, p.id, false⟩ else ⟨p.id, p.title.getD p.id, p.dirty⟩
    change fun d => { d with pages := d.pages ++ [page] }
    set fun s =>
      { s.enlist .page { name, plain := p.plain, reactions := p.reactions } with
        pages := s.pages.put name id }
    return id

/-- The pages that descriptions mean, in order. -/
def pagesOf : List (PageSpec β) → Play β (List PageId)
  | [] => return []
  | p :: rest => do return (← pageOf p) :: (← pagesOf rest)

/-- Keeps new tabs under a name, in place of earlier ones. -/
def putTabs (called : String) : Play β Unit := do
  let earlier := (← look (·.tabs)).find? called
  let id ← Act.look (·.tabs.length)
  change fun d => { d with tabs := d.tabs ++ [{}] }
  set fun s => { s with tabs := s.tabs.put called id }
  hold (.tabs id)
  match earlier with
  | some old => letGo (.tabs old)
  | none => pure ()

/-- What is shown of the page at an index. -/
def tabResult (d : Desk (Stage β)) (id : TabsId) (index : Nat) : Result :=
  match (d.tabsOf id).entries[index]? with
  | none => .tab none none none none
  | some t => .tab (some t.id) (some t.title) (some t.kind) (some (d.page t.page).id)

/-- What is shown of the pages of a kind. -/
def pagesResult (d : Desk (Stage β)) (id : TabsId) (kind : TabKind) : Result :=
  .pages (((d.tabsOf id).ofKind kind).map fun page =>
    let p := d.page page
    (p.id, p.title, p.dirty))

/-- Marks a page of the scenario as changed or not; a plain page never counts as changed. -/
def setDirty (name : String) (dirty : Bool) : Play β Result :=
  withNamed (·.pages) name fun id => do
    let plain ← look fun s => (s.player .page id).plain
    change fun d => { d with pages := d.pages.modify id fun p => { p with dirty := dirty && !plain } }
    return .ok

/-- Keeps a new page memory under a name. -/
def putMemory (called : String) (entry : Option (String × String)) : Play β Unit := do
  let id ← Act.look (·.memories.length)
  change fun d => { d with memories := d.memories ++ [{ entries := entry.toList }] }
  set fun s => { s with memories := s.memories.put called id }

/-! ## Editors -/

/-- The memory kept under a name, or else a new one. -/
def memoryOf (name : String) : Play β MemoryId := do
  match (← look (·.memories)).find? name with
  | some id => return id
  | none =>
    let id ← Act.look (·.memories.length)
    change fun d => { d with memories := d.memories ++ [{}] }
    return id

/-- Keeps a new editor and its coordinator under a name, in place of an earlier editor. -/
def putEditor (called name : String) (project : Option String) (settings : Settings) (m : MemoryId) :
    Play β Unit := do
  let earlier := (← look (·.editors)).find? called
  let id ← makeEditor name project settings m
  let coordinator ← Act.look fun d => (d.editor id).coordinator
  set fun s =>
    { s with
      coordinators := s.coordinators.put called coordinator
      editors := s.editors.put called id }
  match earlier with
  | some old => letGo (.editor old)
  | none => pure ()

/-- What is shown of an editor. -/
def editorInfo (d : Desk (Stage β)) (id : EditorId) : EditorInfo :=
  let e := d.editor id
  let t := d.editorTabs id
  { creating := e.creating
    following := d.isFollowing id
    active := t.active
    text := t.textIndex?
    ids := t.entries.map (·.id)
    session := (d.coordinator e.coordinator).session.isActive
    name := e.name
    project := e.project
    key := d.memoryKey id
    document := d.model.document }

/-! ## All operations -/

/-- Carries out an operation that cannot fail itself. -/
def result (scope : Option Scope) : Operation β → Play β Result
  | .interrupt message => interrupt message
  | .fail _ => return .ok
  | .snapshot => Act.look fun d => .snapshot (snapshot d)
  | .unknown => return .badStep
  | .acquire access called => acquireNamed access called
  | .release share => releaseChosen share
  | .aboutToChange share => do
    return sharedResult (← withChosen scope share fun s =>
      return modelResult (fun _ => .ok) (← openBracket s))
  | .changed share => do
    return sharedResult (← withChosen scope share fun s => do
      closeBracket s
      return .ok)
  | .beginRecording share owner label => do
    return sharedResult (← withChosen scope share fun s =>
      return modelResult (fun _ => .ok) (← beginRecording s (.client owner) label))
  | .endRecording share owner => do
    return sharedResult (← withChosen scope share fun s => do
      endRecording s (.client owner)
      return .ok)
  | .subscribe share called reactions => do
    return sharedResult (← withChosen scope share (subscribeListener called reactions))
  | .unsubscribe share token => endSubscription scope share token
  | .document share => do
    return sharedResult (← withChosen scope share fun s =>
      Act.look fun d => .document (d.model.documentFor s))
  | .undo => undoResult
  | .save => do
    save
    return .ok
  | .deleteResource => do
    resourceDeleted
    return .ok
  | .moveResource target => do
    resourceMoved target
    return .ok
  | .rebuild document => do
    rebuild document
    return .ok
  | .setAvailable available => do
    Act.setAvailable available
    return .ok
  | .setRecordable recordable => do
    Act.setRecordable recordable
    return .ok
  | .journal => Act.look fun d => .journal d.model.journal.toList
  | .clearJournal => do
    clearJournal
    return .ok
  | .tally => Act.look fun d => .tally d.model.tally
  | .coordinator called project tag => do
    let id ← Act.look (·.coordinators.length)
    let fallbackTag := tag.getD standardTag
    change fun d => { d with coordinators := d.coordinators ++ [{ project, fallbackTag }] }
    set fun s => { s with coordinators := s.coordinators.put called id }
    return .ok
  | .depth =>
    match scope with
    | none => return .nothing
    | some s => Act.look fun d => .number (d.coordinator s.coordinator).session.depth
  | .scopeDocument =>
    match scope with
    | none => return .nothing
    | some _ => Act.look fun d => (d.model.document.map Result.text).getD .nothing
  | .query name =>
    withNamed (·.coordinators) name fun id => Act.look fun d =>
      let c := d.coordinator id
      .coordinator c.session.isActive c.session.depth (c.undoDepth > 0) c.tag
  | .view called plain reactions => do
    putView called plain reactions
    return .ok
  | .dropView name => do
    match (← look (·.views)).find? name with
    | none => return .flag false
    | some id =>
      set fun s => { s with views := s.views.drop name }
      letGo (.view id)
      return .flag true
  | .attach called (.view name) =>
    withNamed (·.views) name fun id => attachNamed called (.view id)
  | .attach called (.tabs name) =>
    withNamed (·.tabs) name fun id => attachNamed called (.tabs id)
  | .detach name =>
    withNamed (·.relays) name fun id => do
      detach id
      return .attached (← Act.look fun d => (d.relay id).subscription.isSome)
  | .isAttached name =>
    withNamed (·.relays) name fun id => Act.look fun d => .flag (d.relay id).subscription.isSome
  | .dropRelay name => do
    match (← look (·.relays)).find? name with
    | none => return .flag false
    | some id =>
      set fun s => { s with relays := s.relays.drop name }
      detach id
      return .flag true
  | .tabs called => do
    putTabs called
    return .ok
  | .addForm name page =>
    withTabs name fun id => do
      let page ← pageOf page
      return pageResult .index (← addForm id page)
  | .addText name page title =>
    withTabs name fun id => do
      let page ← pageOf page
      return pageResult .index (← addText id title page)
  | .indexOf name page =>
    withTabs name fun id => Act.look fun d => pageResult .index ((d.tabsOf id).indexOf page)
  | .activate name index =>
    withTabs name fun id => return pageResult (fun _ => .ok) (← activate id index)
  | .clear name =>
    withTabs name fun id => do
      clearTabs id
      return .ok
  | .tabAt name index => withTabs name fun id => Act.look fun d => tabResult d id index
  | .pagesOf name text =>
    withTabs name fun id => Act.look fun d => pagesResult d id (if text then .text else .form)
  | .tabsInfo name =>
    withTabs name fun id => Act.look fun d =>
      let t := d.tabsOf id
      .tabsInfo t.count t.active t.textIndex?
  | .notify name document =>
    withTabs name fun id => do
      notify (.tabs id) (.changed document)
      return .ok
  | .setDirty name dirty => setDirty name dirty
  | .memory called entry => do
    putMemory called entry
    return .ok
  | .load name key =>
    withNamed (·.memories) name fun id => Act.look fun d => .remembered ((d.memory id).load key)
  | .store name key value =>
    withNamed (·.memories) name fun id => do
      match (← Act.look (·.memory id)).store key value with
      | .error e => return .pageError e
      | .ok m =>
        change fun d => { d with memories := d.memories.set id m }
        return .ok
  | .setReadOnly name readOnly =>
    withNamed (·.memories) name fun id => do
      change fun d => { d with memories := d.memories.modify id fun m => { m with readOnly } }
      return .ok
  | .editor called name project settings memory => do
    let read : Option Settings := match settings with
      | none => some {}
      | some v => Settings.ofValue? .refused v
    match read with
    | none => return .badSettings
    | some settings =>
      putEditor called name project settings (← memoryOf memory)
      return .ok
  | .openEditor name forms text =>
    withEditor name fun id => do
      let forms ← pagesOf forms
      let text ← pageOf text
      return pageResult (fun _ => .ok) (← openEditor id forms text)
  | .select name page =>
    withEditor name fun id => do
      showInitial id page
      return .ok
  | .setPage name page =>
    withEditor name fun id => return pageResult .index (← showPage id page)
  | .setIndex name index =>
    withEditor name fun id => return pageResult (fun _ => .ok) (← showIndex id index)
  | .dropPages name =>
    withEditor name fun id => do
      dropPages id
      return .ok
  | .dispose name =>
    withEditor name fun id => do
      disposeEditor id
      return .ok
  | .commit name onSave =>
    withEditor name fun id => return .committed (← commitForms id onSave)
  | .reveal name start stop =>
    withEditor name fun id => return .flag (← reveal id start stop)
  | .dropEditor name => do
    match (← look (·.editors)).find? name with
    | none => return .flag false
    | some id =>
      set fun s => { s with editors := s.editors.drop name }
      letGo (.editor id)
      return .flag true
  | .editorInfo name => withEditor name fun id => Act.look fun d => .editorInfo (editorInfo d id)

/-- Carries out an operation. -/
def carryOut (scope : Option Scope) : Operation β → Play β (Except Failure Result)
  | .fail value => return .error (.value value)
  | operation => return .ok (← result scope operation)

end Play

end FormDesk.Scenario

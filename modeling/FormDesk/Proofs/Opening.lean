/-
The two ends of a replay. Whatever the script and the settings, opening the
editor leaves an attended desk, on which the console was shown the document
once (`openEditor_at`); what is noted meanwhile depends on the default page in
the settings alone (`Settings.openingNotices`). Disposing of the editor at the
end ends its subscription and changes nothing else that is reported
(`disposeEditor_at`).
-/
import FormDesk.Proofs.Standing

namespace FormDesk

/-- What is noted while the console is opened as the only page. -/
def Settings.openingNotices (settings : Settings) : List Notice :=
  match settings.defaultPage with
  | none => []
  | some choice =>
    match numeral? choice with
    | some 0 => []
    | some (index + 1) => [.defaultPageFailed (.outOfRange (index + 1) 1)]
    | none => if choice = textTabId then [] else [.defaultPageFailed (.unknownPage choice)]

namespace Script

/-- The editor of a script. -/
def editor (script : Script) (settings : Settings) : Editor where
  name := script.resource.getD "untitled.xml"
  project := script.project
  settings
  coordinator := 0
  tabs := 0
  memory := 0

/-- The desk of a script with its editor, which is not open yet. -/
def staffed (script : Script) (settings : Settings) : Desk Console :=
  { script.desk with
    coordinators := [{ project := script.project, fallbackTag := settings.fallbackTag }]
    tabs := [{}]
    editors := [script.editor settings]
    held := [.editor 0, .tabs 0] }

/-- The desk of a script once the console follows the model, before a page is chosen. -/
def opened (script : Script) (settings : Settings) (history : Array Deed) : Desk Console :=
  { script.staffed settings with
    model := {
      document := some script.document
      nextShare := 2
      nextToken := 2
      tally := { acquiredRead := 1, released := 1, subscribed := 1 }
      journal := #[.acquire .read, .subscribe, .release .read]
      subscriptions := [⟨1, .relay (.tabs 0)⟩] }
    relays := [⟨some 1⟩]
    tabs := [{ entries := [⟨textTabId, settings.textTitle, .text, 0⟩], active := some 0 }]
    editors := [{ script.editor settings with relay := some 0 }]
    history
    client := { displayed := #[script.document] } }

/-- Where a replay starts. -/
def start (script : Script) (notices : List Notice) : Standing where
  document := some script.document
  nextShare := 2
  tally := { acquiredRead := 1, released := 1, subscribed := 1 }
  console := { displayed := #[script.document], notices := notices.toArray }

variable (script : Script) (settings : Settings) (history : Array Deed)

theorem opened_attended : (script.opened settings history).Attended where
  available := rfl
  recordable := rfl
  subscriptions := rfl
  coordinators := Nat.one_pos
  pages := rfl
  present := rfl
  coordinator := rfl
  relay := rfl
  token := rfl

end Script

namespace Act

open Script (opened_attended)

variable (script : Script) (settings : Settings) (history : Array Deed)

theorem makeEditor_staffs :
    makeEditor (script.resource.getD "untitled.xml") script.project settings 0 Console.host script.desk =
      (.returned 0, script.staffed settings) := rfl

theorem installPages_run : ∃ history,
    installPages 0 [] 0 Console.host
      ((script.staffed settings).withEditor 0 fun e => { e with creating := true }) =
      (.returned (.ok ()),
        (script.opened settings history).withEditor 0 fun e => { e with creating := true }) :=
  ⟨_, rfl⟩

theorem openEditor_run : ∃ history, openEditor 0 [] 0 Console.host (script.staffed settings) =
    showOpened 0 (.ok ()) Console.host (script.opened settings history) := by
  obtain ⟨history, hinstall⟩ := installPages_run script settings
  have hcreated : setCreating 0 false Console.host
      ((script.opened settings history).withEditor 0 fun e => { e with creating := true }) =
      (.returned (), script.opened settings history) := rfl
  have hclosed : (decide (((script.staffed settings).editorTabs 0).count > 0) ||
      ((script.staffed settings).editor 0).relay.isSome) = false := rfl
  refine ⟨history, ?_⟩
  simp only [openEditor, look_bind, hclosed, Bool.false_eq_true, if_false, setCreating, change_bind]
  exact bind_run (ensure_run hinstall hcreated)

/-! ## The default page -/

/-- There is one page, which is shown. -/
theorem showIndex_at :
    ∃ d', showIndex 0 0 Console.host (script.opened settings history) = (.returned (.ok ()), d') ∧
      d'.At (script.start []) := by
  have hattended := opened_attended script settings history
  obtain ⟨kind, title, remembers, page, tag⟩ := settings
  cases remembers <;> exact ⟨_, rfl, { hattended with }, rfl⟩

theorem showIndex_beyond (index : Nat) :
    showIndex 0 (index + 1) Console.host (script.opened settings history) =
      (.returned (.error (.outOfRange (index + 1) 1)), script.opened settings history) := by
  have hbeyond : ((script.opened settings history).tabsOf 0).activate (index + 1) =
      .error (.outOfRange (index + 1) 1) := by
    simp [Tabs.activate, Tabs.count, Script.opened, Desk.tabsOf]
  have hactivate : activate 0 (index + 1) Console.host (script.opened settings history) =
      (.returned (.error (.outOfRange (index + 1) 1)), script.opened settings history) := by
    simp only [activate, updateTabs, look_bind, hbeyond]
    rfl
  have htabs : ((script.opened settings history).editor 0).tabs = 0 := rfl
  simp only [showIndex, look_bind, htabs]
  exact bind_run hactivate

theorem showPage_run (id : String) {d' : Desk Console}
    (hindex : showIndex 0 0 Console.host (script.opened settings history) = (.returned (.ok ()), d')) :
    showPage 0 id Console.host (script.opened settings history) =
      if id = textTabId then (.returned (.ok 0), d')
      else (.returned (.error (.unknownPage id)), script.opened settings history) := by
  have hpages : ((script.opened settings history).editorTabs 0).indexOf id =
      if id = textTabId then .ok 0 else .error (.unknownPage id) := by
    by_cases htext : textTabId = id
    · simp [Tabs.indexOf, Desk.editorTabs, Desk.tabsOf, Desk.editor, Script.opened, Script.editor, htext]
    · simp [Tabs.indexOf, Desk.editorTabs, Desk.tabsOf, Desk.editor, Script.opened, Script.editor, htext,
        Ne.symm htext]
  simp only [showPage, look_bind, hpages]
  by_cases htext : id = textTabId
  · simp only [if_pos htext]
    exact bind_run hindex
  · simp only [if_neg htext]
    rfl

/-- That a choice cannot be shown is noted; the page is shown all the same. -/
theorem showFirst_at (cause : PageError) :
    ∃ d', showFirst 0 (.error cause) Console.host (script.opened settings history) = (.returned (), d') ∧
      d'.At (script.start [.defaultPageFailed cause]) :=
  ⟨_, rfl, { opened_attended script settings history with }, rfl⟩

theorem showInitial_at :
    ∃ d', showInitial 0 none Console.host (script.opened settings history) = (.returned (), d') ∧
      d'.At (script.start settings.openingNotices) := by
  have hchoice : initialChoice 0 none Console.host (script.opened settings history) =
      (.returned settings.defaultPage, script.opened settings history) := by
    obtain ⟨kind, title, remembers, page, tag⟩ := settings
    cases remembers <;> rfl
  obtain ⟨d₁, hindex, hd₁⟩ := showIndex_at script settings history
  have hfailed := showFirst_at script settings history
  rw [showInitial, bind_run hchoice]
  unfold Settings.openingNotices
  cases settings.defaultPage with
  | none => exact ⟨_, rfl, opened_attended script settings history, rfl⟩
  | some choice =>
    simp only [showChoice]
    cases numeral? choice with
    | some index =>
      cases index with
      | zero => exact ⟨d₁, bind_run hindex, hd₁⟩
      | succ index =>
        obtain ⟨d', hrun, hd'⟩ := hfailed (.outOfRange (index + 1) 1)
        exact ⟨d', (bind_run (showIndex_beyond script settings history index)).trans hrun, hd'⟩
    | none =>
      have hpage := showPage_run script settings history choice hindex
      simp only [bind_assoc, pure_bind]
      by_cases htext : choice = textTabId
      · rw [if_pos htext] at hpage ⊢
        exact ⟨d₁, bind_run hpage, hd₁⟩
      · rw [if_neg htext] at hpage ⊢
        obtain ⟨d', hrun, hd'⟩ := hfailed (.unknownPage choice)
        exact ⟨d', (bind_run hpage).trans hrun, hd'⟩

/-- **The console is opened.** It was shown the document, and follows the model from then on. -/
theorem openEditor_at :
    ∃ d', openEditor 0 [] 0 Console.host (script.staffed settings) = (.returned (.ok ()), d') ∧
      d'.At (script.start settings.openingNotices) := by
  obtain ⟨history, hopen⟩ := openEditor_run script settings
  obtain ⟨d', hshow, hd'⟩ := showInitial_at script settings history
  exact ⟨d', hopen.trans (bind_run hshow), hd'⟩

/-! ## The end -/

/-- A share is taken to remove the console's subscription. -/
theorem unsubscribe_at {d : Desk Console} (havailable : d.model.available = true) (hlive : d.model.live = [])
    (hsubscription : d.model.subscriptions.any (·.token == 1) = true) :
    ∃ d', withShare .read (fun share => unsubscribe share 1) Console.host d = (.returned (.ok true), d') ∧
      d'.standing = { d.standing with
        nextShare := d.standing.nextShare + 1
        tally := ((d.standing.tally.count (.acquire .read)).count .unsubscribe).count (.release .read) } := by
  cases hacquire : d.model.acquire .read with
  | error e => simp [Model.acquire, havailable] at hacquire
  | ok taken =>
    obtain ⟨share, m₁⟩ := taken
    have hshare₁ := Model.accessOf?_acquire hacquire
    obtain ⟨-, rfl, hm₁⟩ := Model.acquire_ok hacquire
    have hunsubscribe : m₁.unsubscribe _ 1 = _ :=
      Model.unsubscribe_of_live hshare₁ (by rw [hm₁]; exact hsubscription)
    generalize hm₂ : { m₁.enter .unsubscribe with
      subscriptions := m₁.subscriptions.filter (·.token != 1) } = m₂ at hunsubscribe
    have hshare₂ : m₂.accessOf? d.model.nextShare = some .read := by
      rw [← hm₂]
      exact hshare₁
    have hrelease := Model.release?_of_live (s := ⟨d.model.nextShare, .read⟩) hshare₂
    refine ⟨_, (bind_run (acquire_run hacquire)).trans
      (bind_run (ensure_run (unsubscribe_run hunsubscribe) (release_run hrelease))), ?_⟩
    subst hm₂ hm₁
    have hnone : List.filter (·.id != d.model.nextShare) (⟨d.model.nextShare, .read⟩ :: d.model.live) =
        d.model.live := by simp [hlive]
    exact congrArg (fun live => ({ d.standing with
      nextShare := d.standing.nextShare + 1
      live
      tally := ((d.standing.tally.count (.acquire .read)).count .unsubscribe).count (.release .read)
      } : Standing)) hnone

/-- Disposing of the editor takes one more share and ends the subscription. -/
theorem disposeEditor_at {s : Standing} {d : Desk Console} (hd : d.At s) (hlive : s.live = []) :
    ∃ d', disposeEditor 0 Console.host d = (.returned (), d') ∧ d'.standing = { s with
      nextShare := s.nextShare + 1
      tally := ((s.tally.count (.acquire .read)).count .unsubscribe).count (.release .read) } := by
  obtain ⟨hd, rfl⟩ := hd
  have htoken : ((d.withEditor 0 fun e => { e with relay := none }).relay 0).subscription = some 1 := hd.token
  have hsubscription : d.model.subscriptions.any (·.token == 1) = true := by
    rw [hd.subscriptions]
    rfl
  obtain ⟨d', hrun, hd'⟩ := unsubscribe_at
    (d := ((d.withEditor 0 fun e => { e with relay := none }).enter
      (.detaching 0 1 d.model.available)).withSubscription 0 none)
    hd.available hlive hsubscription
  refine ⟨d', ?_, hd'⟩
  simp only [disposeEditor, look_bind, hd.relay, change_bind, detach, htoken, did_bind]
  exact bind_run hrun

end Act

end FormDesk

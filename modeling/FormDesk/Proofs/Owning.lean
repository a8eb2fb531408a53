/-
Editors that are in use. An editor has tabs of its own, which are in use as long as
it is, and the active page of tabs is always one of their pages (`Desk.Owned`).
That editors are being created does not outlast their opening.

Tabs are in use for a while longer when they are shown a document: the relay that
serves them holds them meanwhile. Such a use is a loan, and is not the editor's. So
what is carried along is that the editors' tabs are in use more often than they are
lent out, whatever is lent out.

Who may do what with editors is said by `Act.EditorOp`: whatever an editor offers,
and whatever has to do with neither editors nor the tabs that they have. What is
given up was in use (`Act.giveUp`), and an editor gives up its tabs itself.
-/
import FormDesk.Proofs.Ledger
import FormDesk.Proofs.Serving

namespace FormDesk

variable {σ α : Type}

namespace Desk

/-! ## Steps that have to do with neither editors nor tabs -/

/-- Editors, tabs and what is in use are as they were. -/
structure SameEditors (d e : Desk σ) : Prop where
  editors : e.editors = d.editors
  tabs : e.tabs = d.tabs
  held : e.held = d.held

section

variable {d e : Desk σ}

theorem SameEditors.rows (h : SameEditors d e) : e.rows = d.rows := by
  rw [Desk.rows, posts, h.editors, Desk.rows, posts]

theorem Visit.sameEditors (h : Visit d e) : SameEditors d e := by cases h <;> exact ⟨rfl, rfl, rfl⟩

theorem UnjoinedStep.sameEditors (h : UnjoinedStep d e) : SameEditors d e := by
  cases h with
  | motion h =>
    cases h with
    | visit h => exact h.sameEditors
    | _ => exact ⟨rfl, rfl, rfl⟩
  | recorded h => cases h <;> exact ⟨rfl, rfl, rfl⟩
  | inHand h => cases h <;> exact ⟨rfl, rfl, rfl⟩
  | _ => exact ⟨rfl, rfl, rfl⟩

theorem UntoldStep.sameEditors (h : UntoldStep d e) : SameEditors d e := by
  cases h with
  | motion h => exact (UnjoinedStep.motion h).sameEditors
  | recorded h => exact (UnjoinedStep.recorded h).sameEditors
  | inHand h => exact (UnjoinedStep.inHand h).sameEditors
  | offDocument h => cases h <;> exact ⟨rfl, rfl, rfl⟩
  | _ => exact ⟨rfl, rfl, rfl⟩

end

/-! ## Tabs that are owned -/

/-- Tabs are lent out once more. -/
def lend (loans : TabsId → Nat) (t : TabsId) : TabsId → Nat := fun i => if i = t then loans i + 1 else loans i

/-- Tabs are sound, editors have tabs of their own, and what is in use is there. The tabs of an editor in use are in
use more often than they are lent out. -/
structure Owned (loans : TabsId → Nat) (d : Desk σ) : Prop where
  sound : ∀ t ∈ d.tabs, t.Sound
  apart : d.rows.Nodup
  rows : ∀ t ∈ d.rows, t < d.tabs.length
  editors : ∀ id, .editor id ∈ d.held → id < d.rows.length
  tabs : ∀ t, .tabs t ∈ d.held → t < d.tabs.length
  lent : ∀ t, 0 < loans t → t < d.tabs.length
  used : ∀ id t, .editor id ∈ d.held → d.rows[id]? = some t → loans t < d.held.count (.tabs t)

section

variable {loans : TabsId → Nat} {d e : Desk σ} {id : EditorId} {t : TabsId}

/-- Tabs may be added, and more uses of tabs. -/
theorem Owned.offModel (hd : d.Owned loans) (hrows : e.rows = d.rows) {ts : List Tabs}
    (htabs : e.tabs = d.tabs ++ ts)
    (hsound : ∀ t ∈ ts, t.Sound) (heditors : ∀ id, .editor id ∈ e.held → .editor id ∈ d.held)
    (huses : ∀ t, .tabs t ∈ e.held → .tabs t ∈ d.held ∨ t < e.tabs.length)
    (hcount : ∀ t, d.held.count (.tabs t) ≤ e.held.count (.tabs t)) : e.Owned loans := by
  have hlength : d.tabs.length ≤ e.tabs.length := by simp [htabs]
  constructor
  case sound =>
    intro t ht
    rw [htabs] at ht
    exact (List.mem_append.1 ht).elim (hd.sound t) (hsound t)
  case apart => exact hrows ▸ hd.apart
  case rows => exact fun t ht => Nat.lt_of_lt_of_le (hd.rows t (hrows ▸ ht)) hlength
  case editors =>
    intro id hid
    rw [hrows]
    exact hd.editors id (heditors id hid)
  case tabs => exact fun t ht => (huses t ht).elim (fun ht => Nat.lt_of_lt_of_le (hd.tabs t ht) hlength) id
  case lent => exact fun t ht => Nat.lt_of_lt_of_le (hd.lent t ht) hlength
  case used =>
    exact fun id t hid hrow => Nat.lt_of_lt_of_le (hd.used id t (heditors id hid) (hrows ▸ hrow)) (hcount t)

/-- A view is held or let go. -/
theorem Owned.of_count (hd : d.Owned loans) (hrows : e.rows = d.rows) (htabs : e.tabs = d.tabs)
    (heditors : ∀ id, .editor id ∈ e.held → .editor id ∈ d.held)
    (hcount : ∀ t, e.held.count (.tabs t) = d.held.count (.tabs t)) : e.Owned loans :=
  hd.offModel hrows (htabs.trans (List.append_nil _).symm) (fun _ ht => absurd ht List.not_mem_nil) heditors
    (fun t ht => .inl (List.count_pos_iff.1 (hcount t ▸ List.count_pos_iff.2 ht)))
    fun t => Nat.le_of_eq (hcount t).symm

theorem Owned.of_eq (hd : d.Owned loans) (hrows : e.rows = d.rows) (htabs : e.tabs = d.tabs)
    (hheld : e.held = d.held) : e.Owned loans :=
  hd.of_count hrows htabs (fun _ hid => hheld ▸ hid) fun t => congrArg (List.count (.tabs t)) hheld

theorem Owned.sameEditors (hd : d.Owned loans) (h : SameEditors d e) : e.Owned loans :=
  hd.of_eq h.rows h.tabs h.held

/-- Without loans it holds as well. -/
theorem Owned.unlent (hd : d.Owned loans) : d.Owned fun _ => 0 :=
  ⟨hd.sound, hd.apart, hd.rows, hd.editors, hd.tabs, fun _ hlent => absurd hlent (Nat.lt_irrefl 0),
    fun id t hid ht => Nat.lt_of_le_of_lt (Nat.zero_le _) (hd.used id t hid ht)⟩

/-- The tabs of an editor. -/
theorem getElem?_rows_editor (hid : id < d.rows.length) : d.rows[id]? = some (d.editor id).tabs := by
  simp only [Desk.rows, posts, List.length_map] at hid
  simp [Desk.rows, posts, Editor.post, editor, List.getElem?_eq_getElem hid]

theorem Owned.sound_tabsOf (hd : d.Owned loans) (t : TabsId) : (d.tabsOf t).Sound := by
  unfold tabsOf
  cases ht : d.tabs[t]? with
  | none => exact .empty
  | some tabs => exact hd.sound tabs (List.mem_of_getElem? ht)

/-- An editor that is in use is there, and its tabs are in use. -/
theorem Owned.editor (hd : d.Owned loans) (hid : .editor id ∈ d.held) : id < d.editors.length ∧
    (d.editor id).tabs < d.tabs.length ∧ d.present (.tabs (d.editor id).tabs) = true := by
  have hlt := hd.editors id hid
  have hrow := getElem?_rows_editor hlt
  have hused := hd.used id _ hid hrow
  refine ⟨by simpa [Desk.rows, posts] using hlt, hd.rows _ (List.mem_of_getElem? hrow), ?_⟩
  rw [present, List.contains_iff_mem]
  exact List.count_pos_iff.1 (Nat.lt_of_le_of_lt (Nat.zero_le _) hused)

/-! ### Uses -/

theorem Owned.loan (hd : d.Owned loans) (ht : t < d.tabs.length) :
    Owned (lend loans t) { d with held := .tabs t :: d.held } where
  sound := hd.sound
  apart := hd.apart
  rows := hd.rows
  editors id hid := hd.editors id (by simpa using hid)
  tabs t' ht' := by
    rcases List.mem_cons.1 ht' with heq | ht'
    · cases heq
      exact ht
    · exact hd.tabs t' ht'
  lent t' hlent := by
    by_cases heq : t' = t
    · rw [heq]
      exact ht
    · exact hd.lent t' (by simpa [lend, heq] using hlent)
  used id t' hid hrow := by
    have hused := hd.used id t' (by simpa using hid) hrow
    by_cases heq : t' = t
    · subst heq
      simpa [lend] using hused
    · simpa [lend, heq, List.count_cons, Ne.symm heq] using hused

theorem Owned.repaid (he : e.Owned (lend loans t)) : Owned loans { e with held := e.held.erase (.tabs t) } where
  sound := he.sound
  apart := he.apart
  rows := he.rows
  editors id hid := he.editors id (List.mem_of_mem_erase hid)
  tabs t' ht' := he.tabs t' (List.mem_of_mem_erase ht')
  lent t' hlent := he.lent t' (by
    unfold lend
    split
    · exact Nat.succ_pos _
    · exact hlent)
  used id t' hid hrow := by
    have hused := he.used id t' (List.mem_of_mem_erase hid) hrow
    by_cases heq : t' = t
    · subst heq
      simp only [lend, if_true] at hused
      simp only [List.count_erase_self]
      omega
    · have hne : (Ref.tabs t' : Ref) ≠ .tabs t := fun h => heq (Ref.tabs.inj h)
      simpa [lend, heq, List.count_erase_of_ne hne] using hused

/-- A use is given up that is not the use of the tabs of an editor in use. -/
theorem Owned.unheld (hd : d.Owned loans) {r : Ref}
    (hr : ∀ id t, .editor id ∈ d.held.erase r → d.rows[id]? = some t → r ≠ .tabs t) :
    Owned loans { d with held := d.held.erase r } where
  sound := hd.sound
  apart := hd.apart
  rows := hd.rows
  editors id hid := hd.editors id (List.mem_of_mem_erase hid)
  tabs t ht := hd.tabs t (List.mem_of_mem_erase ht)
  lent := hd.lent
  used id t hid hrow := by
    have hused := hd.used id t (List.mem_of_mem_erase hid) hrow
    simpa [List.count_erase_of_ne (hr id t hid hrow).symm] using hused

/-- An editor that is no longer in use gives its tabs up. -/
theorem Owned.orphaned (hd : d.Owned loans) (hid : id < d.rows.length) (hgone : .editor id ∉ d.held) :
    Owned loans { d with held := d.held.erase (.tabs (d.editor id).tabs) } := by
  refine hd.unheld fun other t hother hrow htabs => hgone ?_
  have hrow' := getElem?_rows_editor hid
  rw [Ref.tabs.inj htabs] at hrow'
  have hsame : other = id := (List.getElem?_inj (by
    rw [List.getElem?_eq_some_iff] at hrow
    exact hrow.1) hd.apart).1 (hrow.trans hrow'.symm)
  exact hsame ▸ List.mem_of_mem_erase hother

/-! ### Tabs and editors -/

theorem Owned.withTabs (hd : d.Owned loans) {y : Tabs} (hy : y.Sound) : (d.withTabs t y).Owned loans where
  sound tabs htabs := by
    rcases List.mem_or_eq_of_mem_set htabs with htabs | rfl
    · exact hd.sound tabs htabs
    · exact hy
  apart := hd.apart
  rows t' ht' := Nat.lt_of_lt_of_eq (hd.rows t' ht') List.length_set.symm
  editors := hd.editors
  tabs t' ht' := Nat.lt_of_lt_of_eq (hd.tabs t' ht') List.length_set.symm
  lent t' ht' := Nat.lt_of_lt_of_eq (hd.lent t' ht') List.length_set.symm
  used := hd.used

/-- What a change to an editor leaves it: its tabs. -/
theorem Owned.withEditor (hd : d.Owned loans) {f : Editor → Editor} (hf : ∀ e, (f e).tabs = e.tabs) :
    (d.withEditor id f).Owned loans :=
  hd.of_eq (rows_withEditor d id hf) rfl rfl

/-- An editor may be added, and its use, with tabs that are in use and not those of another. -/
theorem Owned.staffed (hd : d.Owned loans) (hrows : e.rows = d.rows ++ [t]) (htabs : e.tabs = d.tabs)
    (hheld : e.held = .editor d.rows.length :: d.held) (hfresh : t ∉ d.rows) (ht : t < d.tabs.length)
    (hused : loans t < d.held.count (.tabs t)) : e.Owned loans := by
  have hcount (t : TabsId) : e.held.count (.tabs t) = d.held.count (.tabs t) := by
    rw [hheld]
    exact List.count_cons_of_ne Ref.noConfusion
  have hin (id : EditorId) (hid : .editor id ∈ e.held) : id = d.rows.length ∨ .editor id ∈ d.held := by
    rw [hheld] at hid
    exact (List.mem_cons.1 hid).imp_left Ref.editor.inj
  constructor
  case sound =>
    rw [htabs]
    exact hd.sound
  case apart =>
    rw [hrows]
    exact List.nodup_append.2 ⟨hd.apart, by simp, fun u hu v hv huv =>
      hfresh (List.mem_singleton.1 hv ▸ huv ▸ hu)⟩
  case rows =>
    intro u hu
    rw [hrows] at hu
    rw [htabs]
    rcases List.mem_append.1 hu with hu | hu
    · exact hd.rows u hu
    · exact List.mem_singleton.1 hu ▸ ht
  case editors =>
    intro id hid
    rw [hrows, List.length_append, List.length_singleton]
    rcases hin id hid with rfl | hid
    · exact Nat.lt_succ_self _
    · exact Nat.lt_succ_of_lt (hd.editors id hid)
  case tabs =>
    intro u hu
    rw [htabs]
    exact hd.tabs u (List.count_pos_iff.1 (hcount u ▸ List.count_pos_iff.2 hu))
  case lent =>
    rw [htabs]
    exact hd.lent
  case used =>
    intro id u hid hrow
    rw [hrows] at hrow
    rw [hcount]
    rcases hin id hid with rfl | hid
    · rw [List.getElem?_concat_length] at hrow
      exact Option.some.inj hrow ▸ hused
    · rw [List.getElem?_append_left (hd.editors id hid)] at hrow
      exact hd.used id u hid hrow

/-- An editor is made, with tabs of its own; both are in use. -/
theorem Owned.made (hd : d.Owned loans) {e : Editor} (htabs : e.tabs = d.tabs.length) (cs : List Coordinator) :
    Owned loans { d with
      coordinators := cs
      tabs := d.tabs ++ [{}]
      editors := d.editors ++ [e]
      held := .editor d.editors.length :: .tabs d.tabs.length :: d.held } := by
  let d₁ : Desk σ := { d with
    tabs := d.tabs ++ [{}]
    held := .tabs d.tabs.length :: d.held }
  have hlength : d.rows.length = d.editors.length := by simp [Desk.rows, posts]
  have hd₁ : d₁.Owned loans := by
    refine hd.offModel rfl rfl (fun t ht => List.mem_singleton.1 ht ▸ .empty) (fun id hid => by simpa [d₁] using hid)
      (fun t ht => ?_) fun t => List.count_le_count_cons
    rcases List.mem_cons.1 ht with ht | ht
    · exact .inr (by simp [d₁, Ref.tabs.inj ht])
    · exact .inl ht
  -- The tabs are new, so none of them is lent out.
  have hnone : loans d.tabs.length = 0 := Nat.eq_zero_of_not_pos fun hlent => Nat.lt_irrefl _ (hd.lent _ hlent)
  refine hd₁.staffed (t := d.tabs.length) ?_ rfl ?_ (fun hmem => Nat.lt_irrefl _ (hd.rows _ hmem)) (by simp [d₁]) ?_
  · simp [d₁, Desk.rows, posts, Editor.post, htabs]
  · exact congrArg (fun k => Ref.editor k :: d₁.held) hlength.symm
  · simp [d₁, hnone]

end

/-! ## Runs -/

/-- The editors that are being created in the end were so before. -/
def Created (d e : Desk σ) : Prop := ∀ id, (e.editor id).creating = true → (d.editor id).creating = true

/-- The contract that tabs go on being owned, whatever is lent out, and that no editor is left being created. -/
def owning (σ : Type) : Contract σ where
  ended d e := (∀ loans, d.Owned loans → e.Owned loans) ∧ Created d e
  cut d e := ∀ loans, d.Owned loans → e.Owned fun _ => 0
  refl _ := ⟨fun _ => id, fun _ => id⟩
  trans h h' := ⟨fun loans hd => h'.1 loans (h.1 loans hd), fun id he => h.2 id (h'.2 id he)⟩
  halt _ _ hd := hd.unlent
  stop h h' loans hd := h' loans (h.1 loans hd)

theorem SameEditors.owning {d e : Desk σ} (h : SameEditors d e) : (Desk.owning σ).ended d e :=
  ⟨fun _ hd => hd.sameEditors h, fun id he => by
    rw [editor, h.editors] at he
    exact he⟩

/-- Only editors tell whether they are being created. -/
theorem Created.of_editors {d e : Desk σ} (h : e.editors = d.editors) : Created d e := fun id he => by
  rw [editor, h] at he
  exact he

/-! ## What is done with editors -/

/-- Whatever has to do with neither editors nor the tabs that there are may change, and something may be held: what was
made, or is in use. -/
structure KeepsEditors (d e : Desk σ) : Prop extends OffModel d e where
  editors : e.editors = d.editors
  tabs : ∃ ts, e.tabs = d.tabs ++ ts ∧ ∀ t ∈ ts, t.Sound
  held : e.held = d.held ∨ ∃ r, e.held = r :: d.held ∧ match r with
    | .view _ => True
    | .tabs t => t < e.tabs.length
    | .editor id => .editor id ∈ d.held

theorem KeepsEditors.owning {d e : Desk σ} (h : KeepsEditors d e) : (Desk.owning σ).ended d e := by
  refine ⟨fun loans hd => ?_, .of_editors h.editors⟩
  obtain ⟨ts, htabs, hsound⟩ := h.tabs
  have hrows : e.rows = d.rows := by rw [Desk.rows, posts, h.editors, Desk.rows, posts]
  obtain hheld | ⟨r, hheld, hr⟩ := h.held
  · exact hd.offModel hrows htabs hsound (fun id hid => hheld ▸ hid) (fun t ht => .inl (hheld ▸ ht))
      fun t => Nat.le_of_eq (congrArg (List.count _) hheld.symm)
  · refine hd.offModel hrows htabs hsound (fun id hid => ?_) (fun t ht => ?_) fun t => ?_
    · rw [hheld] at hid
      rcases List.mem_cons.1 hid with rfl | hid
      · exact hr
      · exact hid
    · rw [hheld] at ht
      rcases List.mem_cons.1 ht with rfl | ht
      · exact .inr hr
      · exact .inl ht
    · rw [hheld]
      exact List.count_le_count_cons

end Desk

namespace Act

open Desk (KeepsEditors Owned owning)

/-- Gives up one use of a thing that is in use. The tabs of an editor are given up by the editor. -/
def giveUp (r : Ref) : Act σ Unit := do
  if ← look fun d => d.held.contains r && d.rows.all fun t => r != .tabs t then letGo r

/-- What is done with editors through what they offer, with relays and tabs, and by hand. -/
inductive EditorOp : Actions σ
  | hand {β} {a : Act σ β} : PublicOrClear a → EditorOp a
  | arrange {f : Desk σ → Desk σ} : (∀ d, KeepsEditors d (f d)) → EditorOp (Act.change f)
  | attach (o : Observer) : EditorOp (Act.attach o)
  | detach (id : RelayId) : EditorOp (Act.detach id)
  | giveUp (r : Ref) : EditorOp (Act.giveUp r)
  | makeEditor (name : String) (project : Option String) (settings : Settings) (memory : MemoryId) :
      EditorOp (Act.makeEditor name project settings memory)
  | openEditor (id : EditorId) (forms : List PageId) (text : PageId) : EditorOp (Act.openEditor id forms text)
  | dropPages (id : EditorId) : EditorOp (Act.dropPages id)
  | disposeEditor (id : EditorId) : EditorOp (Act.disposeEditor id)
  | addForm (id : TabsId) (page : PageId) : EditorOp (Act.addForm id page)
  | addText (id : TabsId) (title : String) (page : PageId) : EditorOp (Act.addText id title page)
  | activate (id : TabsId) (index : Nat) : EditorOp (Act.activate id index)
  | showIndex (id : EditorId) (index : Nat) : EditorOp (Act.showIndex id index)
  | showPage (id : EditorId) (page : String) : EditorOp (Act.showPage id page)
  | showInitial (id : EditorId) (page : Option String) : EditorOp (Act.showInitial id page)
  | commitForms (id : EditorId) (onSave : Bool) : EditorOp (Act.commitForms id onSave)
  | reveal (id : EditorId) (start stop : Nat) : EditorOp (Act.reveal id start stop)

/-- That is some of what is done at a desk. -/
theorem EditorOp.deskOp {n : Nat} {a : Act σ α} (ha : EditorOp a) : Caller n (DeskOp PublicOrClear) a := by
  cases ha with
  | hand ha => exact .op (.hand ha)
  | arrange hf => exact .op (.arrange fun d => (hf d).toOffModel)
  | attach o => exact .op (.attach o)
  | detach id => exact .op (.detach id)
  | giveUp r =>
    refine .bind (.op (.hand (.hand (.offBooks (.look _))))) fun allowed => ?_
    cases allowed with
    | true => exact .op (.letGo r)
    | false => exact .pure ()
  | makeEditor name project settings memory => exact .op (.makeEditor name project settings memory)
  | openEditor id forms text => exact .op (.openEditor id forms text)
  | dropPages id => exact .op (.dropPages id)
  | disposeEditor id => exact .op (.disposeEditor id)
  | addForm id page => exact .op (.addForm id page)
  | addText id title page => exact .op (.addText id title page)
  | activate id index => exact .op (.activate id index)
  | showIndex id index => exact .op (.showIndex id index)
  | showPage id page => exact .op (.showPage id page)
  | showInitial id page => exact .op (.showInitial id page)
  | commitForms id onSave => exact .op (.commitForms id onSave)
  | reveal id start stop => exact .op (.reveal id start stop)

variable {h : Host σ}

theorem withEditor_owning {id : EditorId} {f : Editor → Editor} (hf : ∀ e, (f e).tabs = e.tabs)
    (hcreating : ∀ e, (f e).creating = true → e.creating = true) (d : Desk σ) :
    (owning σ).ended d (d.withEditor id f) := by
  refine ⟨fun _ hd => hd.withEditor hf, fun i hi => ?_⟩
  simp only [Desk.editor, Desk.withEditor, List.getElem?_modify] at hi ⊢
  cases heditor : d.editors[i]? with
  | none => simp [heditor] at hi
  | some e =>
    by_cases hsame : id = i
    · simp only [heditor, hsame, if_true, Option.getD_some] at hi ⊢
      exact hcreating e hi
    · simpa [heditor, hsame] using hi

/-- Who is being created once it was noted of one editor whether it is. -/
theorem creating_withEditor {d : Desk σ} {id i : EditorId} {creating : Bool}
    (hi : ((d.withEditor id fun e => { e with creating := creating }).editor i).creating = true) :
    (id = i ∧ creating = true) ∨ (id ≠ i ∧ (d.editor i).creating = true) := by
  simp only [Desk.editor, Desk.withEditor, List.getElem?_modify] at hi ⊢
  by_cases hsame : id = i
  · cases heditor : d.editors[i]? <;> simp [heditor, hsame] at hi
    exact .inl ⟨hsame, hi⟩
  · exact .inr ⟨hsame, by simpa [hsame] using hi⟩

section

variable (hc : ∀ c, Keeps (owning σ) h fun _ => h.answer c)

include hc

theorem call_owning (c : Callback) : Keeps (owning σ) h (call c) :=
  call_keeps (fun _ _ => Desk.SameEditors.owning ⟨rfl, rfl, rfl⟩)
    (fun _ _ => Desk.SameEditors.owning ⟨rfl, rfl, rfl⟩)
    (fun _ _ _ hcut loans hd => (hcut loans hd).sameEditors ⟨rfl, rfl, rfl⟩) hc c

/-- Tabs are lent out while they are told of an event. -/
theorem notifyPresent_owning (o : Observer) (event : Event) : Keeps (owning σ) h (notifyPresent o event) := by
  have hnotify := notify_keeps (call_owning hc) o event
  intro d
  simp only [notifyPresent, KeepsFrom, look_bind]
  by_cases hhere : d.present o = true
  · simp only [hhere, if_true, hold, change_bind]
    cases o with
    | view v =>
      have hview (l : List Ref) (t : TabsId) : (Ref.view v :: l).count (.tabs t) = l.count (.tabs t) := by simp
      refine hnotify.ensure_from (d := d) (fun f hcut loans hd => hcut loans ?_) fun f hended => ?_
      · exact hd.of_count rfl rfl (fun id hid => by simpa [Observer.ref] using hid) fun t => hview _ t
      · refine ⟨fun loans hd => ?_, fun id hid => hended.2 id hid⟩
        have hf := hended.1 loans (hd.of_count rfl rfl (fun id hid => by simpa [Observer.ref] using hid) fun t =>
          hview _ t)
        exact hf.unheld fun _ _ _ _ => Ref.noConfusion
    | tabs t =>
      have hmem : .tabs t ∈ d.held := List.contains_iff_mem.1 hhere
      refine hnotify.ensure_from (d := d) (fun f hcut loans hd => ?_) fun f hended => ?_
      · exact hcut _ (hd.loan (hd.tabs t hmem))
      · exact ⟨fun loans hd => (hended.1 _ (hd.loan (hd.tabs t hmem))).repaid, fun id hid => hended.2 id hid⟩
  · simp only [hhere, Bool.false_eq_true, if_false]
    exact (owning σ).refl d

theorem emit_owning (event : Event) : Keeps (owning σ) h (emit event) := by
  refine fun d => emit_keeps (fun event l => ?_) (Desk.SameEditors.owning ⟨rfl, rfl, rfl⟩)
  cases l with
  | client id => exact call_owning hc _
  | relay o => exact notifyPresent_owning hc o event

theorem PublicOrClear.owning {a : Act σ α} (ha : PublicOrClear a) : Keeps (owning σ) h a := by
  cases ha with
  | hand ha =>
    exact ha.untoldStep (fun _ _ huntold => huntold.sameEditors.owning) (emit_owning hc) fun _ _ _ _ _ =>
      Desk.SameEditors.owning ⟨rfl, rfl, rfl⟩
  | clearJournal => exact fun _ => Desk.SameEditors.owning ⟨rfl, rfl, rfl⟩

omit hc in
theorem detach_owning (id : RelayId) : Keeps (owning σ) h (detach id) :=
  detach_keeps (fun _ _ hvisit => hvisit.sameEditors.owning) (fun _ _ _ => Desk.SameEditors.owning ⟨rfl, rfl, rfl⟩)
    (fun _ _ => Desk.SameEditors.owning ⟨rfl, rfl, rfl⟩) fun _ _ _ _ _ => Desk.SameEditors.owning ⟨rfl, rfl, rfl⟩

theorem attach_owning (o : Observer) : Keeps (owning σ) h (attach o) :=
  attach_keeps (fun _ _ hvisit => hvisit.sameEditors.owning)
    (fun _ _ _ _ _ => Desk.SameEditors.owning ⟨rfl, rfl, rfl⟩)
    (fun _ _ => Desk.SameEditors.owning ⟨rfl, rfl, rfl⟩) (fun _ _ => Desk.SameEditors.owning ⟨rfl, rfl, rfl⟩) fun _ =>
      notifyPresent_owning hc o _

omit hc in
theorem disposeEditor_owning (id : EditorId) : Keeps (owning σ) h (disposeEditor id) := by
  refine (Keeps.look _).bind fun relay => ?_
  cases relay with
  | none => exact .pure ()
  | some r =>
    exact (Keeps.change fun d => withEditor_owning (f := fun e => { e with relay := none }) (fun _ => rfl)
      (fun _ he => he) d).bind fun _ => detach_owning r

theorem followModel_owning (id : EditorId) : Keeps (owning σ) h (followModel id) := by
  refine (Keeps.look _).bind fun e => (attach_owning hc _).bind fun attached => ?_
  cases attached with
  | error cause => exact fun _ => Desk.SameEditors.owning ⟨rfl, rfl, rfl⟩
  | ok relay =>
    refine (Keeps.look _).bind fun earlier =>
      (Keeps.change fun d => withEditor_owning (f := fun e => { e with relay := some relay }) (fun _ => rfl)
        (fun _ he => he) d).bind fun _ => ?_
    cases earlier with
    | none => exact .pure ()
    | some r => exact detach_owning r

theorem PagePart.owning {a : Act σ α} (ha : PagePart a) : Keeps (owning σ) h a := by
  cases ha with
  | look f => exact .look f
  | note n => exact fun _ => Desk.SameEditors.owning ⟨rfl, rfl, rfl⟩
  | @update _ id f hf =>
    intro d
    simp only [KeepsFrom, updateTabs, look_bind]
    cases hchanged : f (d.tabsOf id) with
    | error e => exact (Desk.owning σ).refl d
    | ok changed =>
      exact ⟨fun _ hd => hd.withTabs (hf hchanged (hd.sound_tabsOf id)), fun _ he => he⟩
  | clear id => exact fun _ => ⟨fun _ hd => hd.withTabs .empty, fun _ he => he⟩
  | remember f => exact fun _ => Desk.SameEditors.owning ⟨rfl, rfl, rfl⟩
  | ask => exact call_owning hc _

theorem owning_trusts (n : Nat) {Op : Actions σ} (hop : ∀ {β} {b : Act σ β}, Op b → Keeps (Desk.owning σ) h b) :
    Trusts n Op (Desk.owning σ) h :=
  .untoldSteps (fun _ _ hunjoined => hunjoined.sameEditors.owning) (emit_owning hc) n hop

theorem pageOp_owning {a : Act σ α} (ha : Caller 0 PageOp a) : Keeps (Desk.owning σ) h a :=
  (ha.mono PageOp.pageParts).keeps (owning_trusts hc 0 fun hb => hb.owning hc)

/-- That an editor is being created ends with its opening, however that ends. -/
theorem openEditor_owning (id : EditorId) (forms : List PageId) (text : PageId) :
    Keeps (owning σ) h (openEditor id forms text) := by
  have hinstall : Keeps (owning σ) h (installPages id forms text) := by
    refine (pageOp_owning hc (PageOp.addPages id forms text)).bind fun added => ?_
    cases added with
    | error cause =>
      exact (Keeps.look _).bind fun tabs => (pageOp_owning hc (.op (.clear tabs))).bind fun _ => .pure _
    | ok _ => exact (followModel_owning hc id).bind fun _ => .pure _
  have hopened (r : Except PageError Unit) : Keeps (owning σ) h (showOpened id r) := by
    cases r with
    | error cause => exact .pure _
    | ok _ => exact (pageOp_owning hc (PageOp.showInitial id none)).bind fun _ => .pure _
  intro d
  simp only [KeepsFrom, openEditor, look_bind]
  by_cases hopen : (d.editorTabs id).count > 0 || (d.editor id).relay.isSome
  · simp only [hopen, if_true]
    exact (owning σ).refl d
  simp only [hopen, Bool.false_eq_true, if_false, setCreating, change_bind]
  have howned (loans : TabsId → Nat) (hd : d.Owned loans) :
      (d.withEditor id fun e => { e with creating := true }).Owned loans := hd.withEditor fun _ => rfl
  -- The flag is cleared on the way out, so what was set on the way in does not count.
  refine KeepsFrom.bind (hinstall.ensure_from (fun f hcut loans hd => hcut loans (howned loans hd))
    fun f hended => ⟨fun loans hd => ?_, fun i hi => ?_⟩) hopened
  · exact (hended.1 loans (howned loans hd)).withEditor fun _ => rfl
  · obtain ⟨-, hfalse⟩ | ⟨hother, hi⟩ := creating_withEditor hi
    · cases hfalse
    · obtain ⟨hsame, -⟩ | ⟨-, hi⟩ := creating_withEditor (hended.2 i hi)
      · exact absurd hsame hother
      · exact hi

omit hc in
/-- What is given up is not what an editor in use is to have. -/
theorem giveUp_owning (r : Ref) : Keeps (owning σ) h (giveUp r) := by
  intro d
  simp only [KeepsFrom, giveUp, look_bind]
  by_cases hallowed : (d.held.contains r && d.rows.all fun t => r != .tabs t) = true
  · obtain ⟨hheld, hrows⟩ := Bool.and_eq_true_iff.1 hallowed
    have hfree (t : TabsId) (ht : t ∈ d.rows) : r ≠ .tabs t := by simpa using List.all_eq_true.1 hrows t ht
    have hunheld (loans : TabsId → Nat) (hd : d.Owned loans) : Owned loans { d with held := d.held.erase r } :=
      hd.unheld fun _ t _ hrow => hfree t (List.mem_of_getElem? hrow)
    simp only [hallowed, if_true, letGo, unhold, change_bind]
    cases r with
    | view v => exact ⟨hunheld, fun _ he => he⟩
    | tabs t => exact ⟨hunheld, fun _ he => he⟩
    | editor id =>
      simp only [look_bind]
      by_cases hstill : (d.held.erase (.editor id)).contains (.editor id) = true
      · simp only [hstill, Bool.not_true, Bool.false_eq_true, if_false]
        exact ⟨hunheld, fun _ he => he⟩
      · simp only [hstill, Bool.not_false, if_true]
        -- The editor was in use for the last time, so its tabs have no owner any more.
        refine (disposeEditor_owning id).after ⟨fun loans hd => ?_, fun _ he => he⟩
        have hid : id < d.rows.length := hd.editors id (List.contains_iff_mem.1 hheld)
        exact (hunheld loans hd).orphaned hid (by simpa using hstill)
  · simp only [hallowed, Bool.false_eq_true, if_false]
    exact (owning σ).refl d

omit hc in
theorem makeEditor_owning (name : String) (project : Option String) (settings : Settings) (memory : MemoryId) :
    Keeps (owning σ) h (makeEditor name project settings memory) := by
  refine fun d => ⟨fun loans hd => hd.made rfl _, fun id hid => ?_⟩
  change ((d.editors ++ [_])[id]?.getD _).creating = true at hid
  by_cases hlt : id < d.editors.length
  · rw [List.getElem?_append_left hlt] at hid
    exact hid
  · rw [List.getElem?_append_right (Nat.le_of_not_lt hlt)] at hid
    cases hnew : id - d.editors.length <;> simp [hnew] at hid

theorem EditorOp.keeps {a : Act σ α} (ha : EditorOp a) : Keeps (owning σ) h a := by
  cases ha with
  | hand ha => exact ha.owning hc
  | arrange hf => exact .change fun d => (hf d).owning
  | attach o => exact attach_owning hc o
  | detach id => exact detach_owning id
  | giveUp r => exact giveUp_owning r
  | makeEditor name project settings memory => exact makeEditor_owning name project settings memory
  | openEditor id forms text => exact openEditor_owning hc id forms text
  | dropPages id => exact pageOp_owning hc (PageOp.dropPages id)
  | disposeEditor id => exact disposeEditor_owning id
  | addForm id page => exact pageOp_owning hc (PageOp.addForm id page)
  | addText id title page => exact pageOp_owning hc (PageOp.addText id title page)
  | activate id index => exact pageOp_owning hc (PageOp.activate id index)
  | showIndex id index => exact pageOp_owning hc (PageOp.showIndex id index)
  | showPage id page => exact pageOp_owning hc (PageOp.showPage id page)
  | showInitial id page => exact pageOp_owning hc (PageOp.showInitial id page)
  | commitForms id onSave => exact pageOp_owning hc (PageOp.commitForms id onSave)
  | reveal id start stop => exact pageOp_owning hc (PageOp.reveal id start stop)

end

end Act

/-- Nothing is owned where there are neither editors nor tabs, and nothing of that kind is in use. -/
theorem Desk.Owned.new {d : Desk σ} (hh : d.editors = []) (ht : d.tabs = []) (hu : d.held = []) :
    d.Owned fun _ => 0 := by
  constructor <;> simp [Desk.rows, posts, hh, ht, hu]

namespace Host.Callers

variable {n : Nat} {h : Host σ} {a : Act σ α} {d : Desk σ}

theorem owning (hh : h.Callers n Act.EditorOp) (ha : Act.Caller n Act.EditorOp a) : Act.Keeps (Desk.owning σ) h a :=
  hh.keeps (fun _ hc => Act.owning_trusts hc n fun hop => hop.keeps hc) ha

/-- **Whatever is done with editors keeps their tabs their own**, also where it is cut off: tabs are sound, and an editor
in use has tabs that are in use. -/
theorem owned (hh : h.Callers n Act.EditorOp) (ha : Act.Caller n Act.EditorOp a) (hd : d.Owned fun _ => 0) :
    (a h d).2.Owned fun _ => 0 :=
  (hh.owning ha d).elim (fun hended => hended.1 _ hd) fun hcut => hcut _ hd

/-- **No editor is left being created** by what is done with editors, unless it is cut off. -/
theorem created (hh : h.Callers n Act.EditorOp) (ha : Act.Caller n Act.EditorOp a) (hended : (a h d).1 ≠ .fatal)
    {id : EditorId} (hd : (d.editor id).creating = false) : ((a h d).2.editor id).creating = false :=
  Bool.eq_false_iff.2 fun hcreating => Bool.eq_false_iff.1 hd (((hh.owning ha d).ended hended).2 id hcreating)

end Host.Callers

end FormDesk

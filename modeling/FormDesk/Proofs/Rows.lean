/-
Rows of tabs, whatever is done with them. Pages are added to a row, one of them is
made the active one, and the row is cleared, in any order and also in vain; in
between anything may happen on the desk that leaves the row alone (`Tabs.Handled`).
What the queries of a row answer then fits together (`Tabs.Coherent`).

Three facts carry that: ids are distinct, a page that shows the text has the id of
the text page, and the active page is among the pages (`Tabs.Consistent`). One step
keeps them (`Handling.soundRow`), and so does a run (`Handled.soundRow`). A form
page may have the id of the text page; then there is no room for a text page.

The main theorem is `Tabs.Handled.rows_coherent`.
-/
import FormDesk.Proofs.Selecting

namespace FormDesk

variable {σ : Type}

namespace Tabs

/-! ## Rows that are consistent -/

/-- What every row of tabs keeps to. -/
structure Consistent (t : Tabs) : Prop where
  ids : t.ids.Nodup
  text : ∀ tab ∈ t.entries, tab.kind = .text → tab.id = textTabId
  active : t.Sound

theorem Consistent.empty : Consistent {} := ⟨List.nodup_nil, nofun, .empty⟩

theorem Consistent.append {t : Tabs} {tab : Tab} (ht : t.Consistent) (hnew : tab.id ∉ t.ids)
    (htext : tab.kind = .text → tab.id = textTabId) : (t.append [tab]).Consistent := by
  refine ⟨?_, fun other hother => ?_, ht.active.add (add_fresh tab hnew)⟩
  · rw [ids_append, List.map_singleton]
    refine List.nodup_append.2 ⟨ht.ids, List.pairwise_singleton .., fun id hid other hother => ?_⟩
    obtain rfl := List.mem_singleton.1 hother
    exact ne_of_mem_of_not_mem hid hnew
  · obtain hold | hnew := List.mem_append.1 hother
    · exact ht.text other hold
    · obtain rfl := List.mem_singleton.1 hnew
      exact htext

theorem Consistent.activate {t : Tabs} {index : Nat} (ht : t.Consistent) (hindex : index < t.count) :
    Consistent { t with active := some index } := by
  refine ⟨ht.ids, ht.text, fun i hi => ?_⟩
  obtain rfl := Option.some.inj hi
  exact hindex

theorem mem_ids_iff {t : Tabs} {id : String} : id ∈ t.ids ↔ ∃ i, t.idAt? i = some id := by
  simp only [ids, List.mem_iff_getElem?, List.getElem?_map, idAt?]

/-! ## What the queries answer -/

/-- The pages of a row are parted by their kinds: each one goes to the form pages or to the text pages, in order. -/
inductive Parted : List Tab → List PageId → List PageId → Prop
  | nil : Parted [] [] []
  | form {tab tabs forms texts} : tab.kind = .form → Parted tabs forms texts →
      Parted (tab :: tabs) (tab.page :: forms) texts
  | text {tab tabs forms texts} : tab.kind = .text → Parted tabs forms texts →
      Parted (tab :: tabs) forms (tab.page :: texts)

/-- The queries of a row fit together. -/
structure Coherent (t : Tabs) : Prop where
  /-- No two pages have one id, -/
  distinct : ∀ {i j : Nat} {id : String}, t.idAt? i = some id → t.idAt? j = some id → i = j
  /-- so that the page with an id is found at its index, and nowhere else. -/
  found : ∀ (id : String) (i : Nat), t.indexOf id = .ok i ↔ t.idAt? i = some id
  /-- At most one page shows the text, -/
  single : ∀ {i j : Nat} {tab tab' : Tab}, t.entries[i]? = some tab → t.entries[j]? = some tab' →
    tab.kind = .text → tab'.kind = .text → i = j
  /-- and if one does, it is found by the id of the text page. -/
  text : ∀ {i : Nat} {tab : Tab}, t.entries[i]? = some tab → tab.kind = .text →
    t.textIndex? = some i ∧ t.textIndex? = (t.indexOf textTabId).toOption
  textless : (∀ tab ∈ t.entries, tab.kind ≠ .text) → t.textIndex? = none
  active : t.active = none ∨ ∃ i, t.active = some i ∧ i < t.count
  parted : Parted t.entries (t.ofKind .form) (t.ofKind .text)

theorem parted_ofKind (t : Tabs) : Parted t.entries (t.ofKind .form) (t.ofKind .text) := by
  obtain ⟨entries, active⟩ := t
  induction entries with
  | nil => exact .nil
  | cons tab entries ih =>
    cases hkind : tab.kind with
    | form => simpa [ofKind, hkind] using Parted.form hkind ih
    | text => simpa [ofKind, hkind] using Parted.text hkind ih

namespace Consistent

variable {t : Tabs} (ht : t.Consistent)

include ht

theorem idAt?_inj {i j : Nat} {id : String} (hi : t.idAt? i = some id) (hj : t.idAt? j = some id) : i = j := by
  have hids (k : Nat) : t.ids[k]? = t.idAt? k := List.getElem?_map
  have hlt : i < t.ids.length := (List.getElem?_eq_some_iff.1 ((hids i).trans hi)).1
  exact (List.getElem?_inj hlt ht.ids).1 (by rw [hids, hids, hi, hj])

theorem indexOf_iff (id : String) (i : Nat) : t.indexOf id = .ok i ↔ t.idAt? i = some id := by
  rw [indexOf_eq_ok]
  exact ⟨And.left, fun hi => ⟨hi, fun j hj hsame => absurd (ht.idAt?_inj hsame hi) (Nat.ne_of_lt hj)⟩⟩

/-- A page that shows the text has the id of the text page. -/
theorem idAt?_text {i : Nat} {tab : Tab} (htab : t.entries[i]? = some tab) (hkind : tab.kind = .text) :
    t.idAt? i = some textTabId := by
  rw [idAt?, htab, Option.map_some, ht.text tab (List.mem_of_getElem? htab) hkind]

theorem textIndex?_eq {i : Nat} {tab : Tab} (htab : t.entries[i]? = some tab) (hkind : tab.kind = .text) :
    t.textIndex? = some i := by
  obtain ⟨hlt, rfl⟩ := List.getElem?_eq_some_iff.1 htab
  refine List.findIdx?_eq_some_iff_getElem.2 ⟨hlt, by simpa using hkind, fun j hj hother => ?_⟩
  have hother : t.entries[j].kind = .text := by simpa using hother
  have hfirst := ht.idAt?_text (List.getElem?_eq_getElem (Nat.lt_trans hj hlt)) hother
  exact Nat.ne_of_lt hj (ht.idAt?_inj hfirst (ht.idAt?_text htab hkind))

theorem coherent : t.Coherent where
  distinct := ht.idAt?_inj
  found := ht.indexOf_iff
  single htab htab' hkind hkind' := ht.idAt?_inj (ht.idAt?_text htab hkind) (ht.idAt?_text htab' hkind')
  text htab hkind := by
    have hindex := (ht.indexOf_iff _ _).2 (ht.idAt?_text htab hkind)
    rw [hindex]
    exact ⟨ht.textIndex?_eq htab hkind, ht.textIndex?_eq htab hkind⟩
  textless hnone := List.findIdx?_eq_none_iff.2 fun tab htab => by simpa using hnone tab htab
  active := by
    cases hactive : t.active with
    | none => exact .inl rfl
    | some i => exact .inr ⟨i, rfl, ht.active i hactive⟩
  parted := t.parted_ofKind

end Consistent

/-! ## What is done with a row -/

/-- One thing that is done with a row of tabs. -/
inductive Handling where
  | addForm (page : PageId)
  | addText (title : String) (page : PageId)
  | activate (index : Nat)
  | clear
  deriving DecidableEq

/-- The desk after it was done with row `t`. -/
def Handling.after (h : Host σ) (t : TabsId) (d : Desk σ) : Handling → Desk σ
  | .addForm page => (Act.addForm t page h d).2
  | .addText title page => (Act.addText t title page h d).2
  | .activate index => (Act.activate t index h d).2
  | .clear => (Act.clearTabs t h d).2

/-- Between the two desks this was done with row `t`, in order, and what else was done left the row alone. -/
inductive Handled (h : Host σ) (t : TabsId) : List Handling → Desk σ → Desk σ → Prop
  | start {d} : Handled h t [] d d
  | handled {done d e} (next : Handling) : Handled h t done d e → Handled h t (done ++ [next]) d (next.after h t e)
  | meanwhile {done d e f} : Handled h t done d e → t < f.tabs.length → f.tabsOf t = e.tabsOf t →
      Handled h t done d f

/-- What comes of adding a page to row `t`: it is refused when its id is taken, and the desk is as it was;
otherwise the page is the last one. -/
inductive Adds (t : TabsId) (d : Desk σ) (tab : Tab) : Outcome (Except PageError Nat) × Desk σ → Prop
  | taken {i} : (d.tabsOf t).idAt? i = some tab.id → Adds t d tab (.returned (.error (.duplicatePage tab.id)), d)
  | added : (∀ i, (d.tabsOf t).idAt? i ≠ some tab.id) →
      Adds t d tab (.returned (.ok (d.tabsOf t).count), d.withTabs t ((d.tabsOf t).append [tab]))

/-- What comes of making a page of row `t` the active one: it is refused when there are not so many pages, and
the desk is as it was. -/
inductive Activates (t : TabsId) (d : Desk σ) (index : Nat) : Outcome (Except PageError Unit) × Desk σ → Prop
  | beyond : (d.tabsOf t).count ≤ index →
      Activates t d index (.returned (.error (.outOfRange index (d.tabsOf t).count)), d)
  | activated : index < (d.tabsOf t).count →
      Activates t d index (.returned (.ok ()), d.withTabs t { d.tabsOf t with active := some index })

section

variable {h : Host σ} {t : TabsId} {d e f : Desk σ} {done more : List Handling}

theorem updateTabs_adds (ht : t < d.tabs.length) (tab : Tab) :
    Adds t d tab (Act.updateTabs t (·.add tab) h d) := by
  by_cases htaken : tab.id ∈ (d.tabsOf t).ids
  · have hrun := Act.updateTabs_refused (h := h) (f := (·.add tab)) ht (add_taken tab htaken)
    rw [Desk.withTabs_tabsOf] at hrun
    rw [hrun]
    obtain ⟨i, hi⟩ := mem_ids_iff.1 htaken
    exact .taken hi
  · have hrun := Act.updateTabs_run (h := h) (f := (·.add tab)) ht (add_fresh tab htaken)
    rw [Desk.withTabs_tabsOf] at hrun
    rw [hrun]
    exact .added fun i hi => htaken (mem_ids_iff.2 ⟨i, hi⟩)

theorem addForm_adds (ht : t < d.tabs.length) (page : PageId) :
    Adds t d (d.formTab page) (Act.addForm t page h d) := updateTabs_adds ht _

theorem addText_adds (ht : t < d.tabs.length) (title : String) (page : PageId) :
    Adds t d ⟨textTabId, title, .text, page⟩ (Act.addText t title page h d) := updateTabs_adds ht _

theorem activate_activates (h : Host σ) (t : TabsId) (d : Desk σ) (index : Nat) :
    Activates t d index (Act.activate t index h d) := by
  by_cases hindex : index < (d.tabsOf t).count
  · rw [Act.activate_run hindex]
    exact .activated hindex
  · rw [Act.activate_beyond hindex]
    exact .beyond (Nat.le_of_not_lt hindex)

/-! ## Steps -/

/-- The row is there, and consistent. -/
structure SoundRow (t : TabsId) (d : Desk σ) : Prop where
  present : t < d.tabs.length
  consistent : (d.tabsOf t).Consistent

theorem SoundRow.withTabs (hd : SoundRow t d) {row : Tabs} (hrow : row.Consistent) :
    SoundRow t (d.withTabs t row) where
  present := Nat.lt_of_lt_of_eq hd.present List.length_set.symm
  consistent := by rwa [Desk.tabsOf_withTabs hd.present]

theorem Adds.soundRow {tab : Tab} {result : Outcome (Except PageError Nat) × Desk σ} (hadds : Adds t d tab result)
    (hd : SoundRow t d) (htext : tab.kind = .text → tab.id = textTabId) :
    SoundRow t result.2 ∧ (d.tabsOf t).entries <+: (result.2.tabsOf t).entries := by
  cases hadds with
  | taken => exact ⟨hd, List.prefix_rfl⟩
  | added hnew =>
    have hnew : tab.id ∉ (d.tabsOf t).ids := fun hmem => (mem_ids_iff.1 hmem).elim hnew
    exact ⟨hd.withTabs (hd.consistent.append hnew htext), by simp [Desk.tabsOf_withTabs hd.present, append]⟩

theorem Activates.soundRow {index : Nat} {result : Outcome (Except PageError Unit) × Desk σ}
    (hactivates : Activates t d index result) (hd : SoundRow t d) :
    SoundRow t result.2 ∧ (d.tabsOf t).entries <+: (result.2.tabsOf t).entries := by
  cases hactivates with
  | beyond => exact ⟨hd, List.prefix_rfl⟩
  | activated hindex =>
    exact ⟨hd.withTabs (hd.consistent.activate hindex), by simp [Desk.tabsOf_withTabs hd.present]⟩

/-- Whatever is done with a row, it stays consistent, and unless it is cleared its pages stay where they are. -/
theorem Handling.soundRow (next : Handling) (hd : SoundRow t d) : SoundRow t (next.after h t d) ∧
    (next ≠ .clear → (d.tabsOf t).entries <+: ((next.after h t d).tabsOf t).entries) := by
  cases next with
  | addForm page => exact ((addForm_adds hd.present page).soundRow hd nofun).imp_right fun hkept _ => hkept
  | addText title page =>
    exact ((addText_adds hd.present title page).soundRow hd fun _ => rfl).imp_right fun hkept _ => hkept
  | activate index => exact ((activate_activates h t d index).soundRow hd).imp_right fun hkept _ => hkept
  | clear => exact ⟨hd.withTabs .empty, fun hne => absurd rfl hne⟩

/-! ## Runs -/

theorem Handled.soundRow (hrun : Handled h t done d e) (hd : SoundRow t d) : SoundRow t e := by
  induction hrun with
  | start => exact hd
  | handled next _ ih => exact (next.soundRow (ih hd)).1
  | meanwhile _ ht hsame ih => exact ⟨ht, hsame ▸ (ih hd).consistent⟩

/-- Pages stay where they are until the row is cleared. -/
theorem Handled.entries_prefix (hrun : Handled h t done d e) (hd : SoundRow t d) (hclear : .clear ∉ done) :
    (d.tabsOf t).entries <+: (e.tabsOf t).entries := by
  induction hrun with
  | start => exact List.prefix_rfl
  | handled next hdone ih =>
    rw [List.mem_append, List.mem_singleton, not_or] at hclear
    exact (ih hd hclear.1).trans ((next.soundRow (hdone.soundRow hd)).2 (Ne.symm hclear.2))
  | meanwhile _ _ hsame ih => exact hsame ▸ ih hd hclear

theorem Handled.foldl (hrun : Handled h t done d e) (more : List Handling) :
    Handled h t (done ++ more) d (more.foldl (Handling.after h t) e) := by
  induction more generalizing done e with
  | nil => simpa using hrun
  | cons next more ih =>
    have hnext := ih (hrun.handled next)
    rwa [List.append_assoc, List.singleton_append] at hnext

/-- **A row of tabs is coherent**, whatever was done with it since it was empty. Adding a page to it fails just
when its id is taken, and making a page the active one just when there are not so many; then nothing has changed.
Clearing it leaves nothing, and unless it is cleared its pages stay where they are from then on. -/
theorem Handled.rows_coherent (ht : t < d.tabs.length) (hempty : d.tabsOf t = {}) (hrun : Handled h t done d e) :
    (e.tabsOf t).Coherent ∧
    (∀ page, Adds t e (e.formTab page) (Act.addForm t page h e)) ∧
    (∀ title page, Adds t e ⟨textTabId, title, .text, page⟩ (Act.addText t title page h e)) ∧
    (∀ index, Activates t e index (Act.activate t index h e)) ∧
    (Handling.clear.after h t e).tabsOf t = {} ∧
    ∀ {more : List Handling} {f : Desk σ}, Handled h t more e f → .clear ∉ more →
      ∀ (i : Nat) (tab : Tab), (e.tabsOf t).entries[i]? = some tab → (f.tabsOf t).entries[i]? = some tab := by
  have he : SoundRow t e := hrun.soundRow ⟨ht, hempty ▸ .empty⟩
  refine ⟨he.consistent.coherent, addForm_adds he.present, addText_adds he.present, activate_activates h t e,
    Desk.tabsOf_withTabs he.present {}, ?_⟩
  intro more f hmore hclear i tab htab
  obtain ⟨rest, hrest⟩ := hmore.entries_prefix he hclear
  rw [← hrest, List.getElem?_append_left (List.getElem?_eq_some_iff.1 htab).1, htab]

/-- A form page takes the id of the text page; the text page has no room then, until the row is cleared. Now it is
the form page that is refused. -/
theorem Handled.rows_coherent_reserved :
    let d : Desk Unit :=
      { model := { document := some "d", location := "l" }
        tabs := [{}]
        pages := [{ id := "a", title := "A" }, { id := textTabId, title := "B" }, { id := "t", title := "T" }]
        client := () }
    let done : List Handling :=
      [.addForm 1, .addText "Source" 2, .activate 0, .clear, .addForm 0, .addText "Source" 2, .addForm 1, .activate 1,
        .activate 2]
    let e := done.foldl (Handling.after .silent 0) d
    0 < d.tabs.length ∧ d.tabsOf 0 = {} ∧ Handled .silent 0 done d e ∧ (e.tabsOf 0).Coherent ∧
      e.tabsOf 0 = { entries := [⟨"a", "A", .form, 0⟩, ⟨textTabId, "Source", .text, 2⟩], active := some 1 } ∧
      Adds 0 e (e.formTab 1) (Act.addForm 0 1 .silent e) ∧ (e.tabsOf 0).idAt? 1 = some (e.formTab 1).id := by
  intro d done e
  have ht : 0 < d.tabs.length := by decide
  have hempty : d.tabsOf 0 = {} := by decide
  have hrun : Handled .silent 0 done d e := Handled.start.foldl done
  have hentries : e.tabsOf 0 =
      { entries := [⟨"a", "A", .form, 0⟩, ⟨textTabId, "Source", .text, 2⟩], active := some 1 } := by decide +kernel
  obtain ⟨hcoherent, hforms, -⟩ := hrun.rows_coherent ht hempty
  exact ⟨ht, hempty, hrun, hcoherent, hentries, hforms 1, by rw [hentries]; decide +kernel⟩

end

end Tabs

end FormDesk

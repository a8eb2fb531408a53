/-
The page that is shown at first, for every text that may be asked for. What is
asked for comes from three sources, in an order (`Desk.Chosen`). A numeral denotes
the page at its index, even where a page has this text as its id; every other text
denotes the page with this very id (`Tabs.Denotes`). A page that is denoted is shown,
and its index is stored where it is to be (`Desk.Shows`); where none is denoted the
first page is shown and nothing is stored (`Desk.FallsBack`).

The main theorem is `Act.showInitial_selects`. No client is called meanwhile, so it
holds with every host.
-/
import FormDesk.Proofs.Remembering

namespace FormDesk

variable {σ : Type}

/-! ## Pages that are denoted -/

namespace Tabs

/-- What page a text denotes among others. -/
inductive Denotes (t : Tabs) (text : String) : Nat → Prop
  /-- A numeral denotes the page at its index, if there are so many. -/
  | index {n} : IsNumeral text n → n < t.count → t.Denotes text n
  /-- Any other text, just as it is, denotes the first page that has it as its id. -/
  | id {n} : (∀ m, ¬IsNumeral text m) → t.idAt? n = some text → (∀ m < n, t.idAt? m ≠ some text) →
    t.Denotes text n

/-- Why a text denotes no page. -/
inductive Misses (t : Tabs) (text : String) : PageError → Prop
  | beyond {n} : IsNumeral text n → t.count ≤ n → t.Misses text (.outOfRange n t.count)
  | unknown : (∀ m, ¬IsNumeral text m) → (∀ n, t.idAt? n ≠ some text) → t.Misses text (.unknownPage text)

variable {t : Tabs} {text : String} {n : Nat}

theorem Denotes.lt_count (h : t.Denotes text n) : n < t.count := by
  cases h with
  | index _ hlt => exact hlt
  | id _ hid _ =>
    obtain ⟨tab, htab, -⟩ := Option.map_eq_some_iff.mp hid
    exact (List.getElem?_eq_some_iff.mp htab).1

/-- The page with an id is the first one that has it. -/
theorem indexOf_eq_ok : t.indexOf text = .ok n ↔ t.idAt? n = some text ∧ ∀ m < n, t.idAt? m ≠ some text := by
  have hfound : t.indexOf text = .ok n ↔ t.entries.findIdx? (·.id == text) = some n := by
    unfold indexOf
    cases t.entries.findIdx? (·.id == text) <;> simp
  rw [hfound, List.findIdx?_eq_some_iff_getElem]
  constructor
  · rintro ⟨hlt, hhere, hfirst⟩
    have hid : t.entries[n].id = text := by simpa using hhere
    refine ⟨by rw [idAt?, List.getElem?_eq_getElem hlt, Option.map_some, hid], fun m hm hother => ?_⟩
    rw [idAt?, List.getElem?_eq_getElem (Nat.lt_trans hm hlt), Option.map_some] at hother
    exact hfirst m hm (by simpa using hother)
  · rintro ⟨hhere, hfirst⟩
    obtain ⟨tab, htab, rfl⟩ := Option.map_eq_some_iff.mp hhere
    obtain ⟨hlt, rfl⟩ := List.getElem?_eq_some_iff.mp htab
    refine ⟨hlt, by simp, fun m hm hother => hfirst m hm ?_⟩
    rw [idAt?, List.getElem?_eq_getElem (Nat.lt_trans hm hlt), Option.map_some]
    simpa using hother

theorem indexOf_eq_error {cause : PageError} (h : t.indexOf text = .error cause) :
    cause = .unknownPage text ∧ ∀ n, t.idAt? n ≠ some text := by
  unfold indexOf at h
  split at h
  · cases h
  · rename_i hnone
    refine ⟨(Except.error.inj h).symm, fun n hid => ?_⟩
    obtain ⟨tab, htab, rfl⟩ := Option.map_eq_some_iff.mp hid
    have := List.findIdx?_eq_none_iff.mp hnone tab (List.mem_of_getElem? htab)
    simp at this

end Tabs

namespace Desk

variable {d e : Desk σ} {id : EditorId}

/-! ## What is asked for -/

/-- What an editor is asked to show at first, when it may have been given a page: that one, else the one that
is remembered, if the editor remembers, else the one in its settings. -/
inductive Chosen (d : Desk σ) (id : EditorId) : Option String → Option String → Prop
  | given (text : String) : d.Chosen id (some text) (some text)
  | remembered {text : String} : (d.editor id).settings.remembers = true →
    (d.memory (d.editor id).memory).load (d.memoryKey id) = some text → d.Chosen id none (some text)
  | configured : ((d.editor id).settings.remembers = true →
    (d.memory (d.editor id).memory).load (d.memoryKey id) = none) → d.Chosen id none (d.editor id).settings.defaultPage

/-! ## What comes of it -/

/-- The desk when the page at an index of an editor is active. -/
def turned (d : Desk σ) (id : EditorId) (index : Nat) : Desk σ :=
  d.withTabs (d.editor id).tabs { d.editorTabs id with active := some index }

/-- An editor is to store the pages that it shows: it remembers them, and they are not just being created. -/
def Stores (d : Desk σ) (id : EditorId) : Prop :=
  (d.editor id).settings.remembers = true ∧ (d.editor id).creating = false

/-- What is stored when the page at an index of an editor is shown. -/
inductive Stored (h : Host σ) (d : Desk σ) (id : EditorId) (index : Nat) (e : Desk σ) : Prop
  | skipped : ¬d.Stores id → e.memories = d.memories → e.client = d.client → d.Stored h id index e
  /-- A memory that cannot be written is left alone, and that is noted. -/
  | refused : d.Stores id → (d.memory (d.editor id).memory).readOnly = true → e.memories = d.memories →
    e.client = h.note (.activePageNotRemembered (.readOnlyMemory (d.memoryKey id))) d.client →
    d.Stored h id index e
  /-- Otherwise the index is stored, and nothing else changes in any memory. -/
  | stored : d.Stores id → (d.memory (d.editor id).memory).readOnly = false →
    (e.memory (d.editor id).memory).load (d.memoryKey id) = some (toString index) →
    (∀ m key, m ≠ (d.editor id).memory ∨ key ≠ d.memoryKey id → (e.memory m).load key = (d.memory m).load key) →
    e.client = d.client → d.Stored h id index e

/-- The page at an index of an editor is active, and stored if it is to be. -/
structure Shows (h : Host σ) (d : Desk σ) (id : EditorId) (index : Nat) (e : Desk σ) : Prop where
  active : e.editorTabs id = { d.editorTabs id with active := some index }
  stored : d.Stored h id index e
  /-- The pages of other editors are as they were, and so is the rest of the desk. -/
  aside : ∀ t, t ≠ (d.editor id).tabs → e.tabsOf t = d.tabsOf t
  rest : e = { d with tabs := e.tabs, memories := e.memories, client := e.client }

/-- The first page is active, if there are pages, and nothing is stored; why the page that was asked for could
not be shown is noted. -/
structure FallsBack (h : Host σ) (d : Desk σ) (id : EditorId) (cause : PageError) (e : Desk σ) : Prop where
  active : e.editorTabs id =
    if 0 < (d.editorTabs id).count then { d.editorTabs id with active := some 0 } else d.editorTabs id
  noted : e.client = h.note (.defaultPageFailed cause) d.client
  aside : ∀ t, t ≠ (d.editor id).tabs → e.tabsOf t = d.tabsOf t
  rest : e = { d with tabs := e.tabs, client := e.client }

/-- What comes of a page that is asked for, if one is. -/
inductive Selects (h : Host σ) (d : Desk σ) (id : EditorId) : Option String → Desk σ → Prop
  | nothing : d.Selects h id none d
  /-- The page that is denoted is shown; by its id, no other than when it is shown by it. -/
  | shows {text index e} : (d.editorTabs id).Denotes text index → d.Shows h id index e →
    ((∀ n, ¬IsNumeral text n) → Act.showPage id text h d = (.returned (.ok index), e)) → d.Selects h id (some text) e
  /-- Where none is denoted, the first page has to do. -/
  | fallsBack {text cause e} : (∀ index, ¬(d.editorTabs id).Denotes text index) →
    (d.editorTabs id).Misses text cause → d.FallsBack h id cause e → d.Selects h id (some text) e

end Desk

namespace Act

variable {h : Host σ} {d e : Desk σ} {id : EditorId} {text : String} {index : Nat}

theorem initialChoice_chosen (h : Host σ) (d : Desk σ) (id : EditorId) (page : Option String) :
    ∃ choice, d.Chosen id page choice ∧ initialChoice id page h d = (.returned choice, d) := by
  cases page with
  | some text => exact ⟨some text, .given text, rfl⟩
  | none =>
    cases hremembers : (d.editor id).settings.remembers with
    | false =>
      refine ⟨_, .configured (by simp [hremembers]), ?_⟩
      simp [initialChoice, hremembers]
    | true =>
      cases hload : (d.memory (d.editor id).memory).load (d.memoryKey id) with
      | none =>
        refine ⟨_, .configured fun _ => hload, ?_⟩
        simp [initialChoice, hremembers, hload]
      | some text =>
        refine ⟨_, .remembered hremembers hload, ?_⟩
        simp [initialChoice, hremembers, hload]

/-! ## Storing -/

theorem rememberPage_skips (hstores : ¬d.Stores id) (index : Nat) :
    rememberPage id index h d = (.returned (), d) := by
  have hskip : ((d.editor id).creating || !(d.editor id).settings.remembers) = true := by
    by_contra hgoes
    simp only [Bool.not_eq_true, Bool.or_eq_false_iff, Bool.not_eq_false'] at hgoes
    exact hstores ⟨hgoes.2, hgoes.1⟩
  simp only [rememberPage, look_bind, hskip, if_true, pure_run]

theorem rememberPage_of_stores (hstores : d.Stores id) (index : Nat) : rememberPage id index h d =
    match (d.memory (d.editor id).memory).store (d.memoryKey id) (toString index) with
    | .error cause => (.returned (), d.noted h (.activePageNotRemembered cause))
    | .ok kept => (.returned (), { d with memories := d.memories.set (d.editor id).memory kept }) := by
  have hgoes : ((d.editor id).creating || !(d.editor id).settings.remembers) = false := by
    rw [hstores.1, hstores.2]
    rfl
  simp only [rememberPage, look_bind, hgoes, Bool.false_eq_true, if_false]
  cases (d.memory (d.editor id).memory).store (d.memoryKey id) (toString index) <;> rfl

/-! ## Showing -/

theorem activate_turns (hindex : index < (d.editorTabs id).count) :
    activate (d.editor id).tabs index h d = (.returned (.ok ()), d.turned id index) := activate_run hindex

/-- Where the tabs are those of the desk with its page turned, that page is active, and other tabs are as they were. -/
theorem turned_tabs {e : Desk σ} (hindex : index < (d.editorTabs id).count) (htabs : e.tabs = (d.turned id index).tabs)
    (heditors : e.editors = d.editors) : e.editorTabs id = { d.editorTabs id with active := some index } ∧
      ∀ t, t ≠ (d.editor id).tabs → e.tabsOf t = d.tabsOf t := by
  have heditor : e.editor id = d.editor id := by rw [Desk.editor, heditors, Desk.editor]
  have ht := Desk.lt_of_count (Nat.zero_lt_of_lt hindex)
  have hset : e.tabs = d.tabs.set (d.editor id).tabs { d.editorTabs id with active := some index } := htabs
  constructor
  · rw [Desk.editorTabs, heditor, Desk.tabsOf, hset, List.getElem?_set_self ht, Option.getD_some]
  · intro t hother
    rw [Desk.tabsOf, hset, List.getElem?_set_ne hother.symm, Desk.tabsOf]

/-- What remembering a page stores. The page has been turned before, which no memory knows of. -/
theorem rememberPage_stored (h : Host σ) (hm : (d.editor id).memory < d.memories.length) (index : Nat) :
    ∃ e, rememberPage id index h (d.turned id index) = (.returned (), e) ∧ d.Stored h id index e ∧
      e = { d.turned id index with memories := e.memories, client := e.client } := by
  have hremember (hstores : d.Stores id) {stored : Except PageError TabMemory}
      (hstore : (d.memory (d.editor id).memory).store (d.memoryKey id) (toString index) = stored) :=
    hstore ▸ rememberPage_of_stores (h := h) (d := d.turned id index) hstores index
  by_cases hstores : d.Stores id
  · cases hreadOnly : (d.memory (d.editor id).memory).readOnly with
    | true =>
      have hstore : (d.memory (d.editor id).memory).store (d.memoryKey id) (toString index) =
          .error (.readOnlyMemory (d.memoryKey id)) := if_pos hreadOnly
      exact ⟨_, hremember hstores hstore, .refused hstores hreadOnly rfl rfl, rfl⟩
    | false =>
      obtain ⟨kept, hstore⟩ : ∃ kept,
          (d.memory (d.editor id).memory).store (d.memoryKey id) (toString index) = .ok kept := by
        simp [TabMemory.store, hreadOnly]
      have hsame : (d.memories.set (d.editor id).memory kept)[(d.editor id).memory]?.getD {} = kept := by
        simp [hm]
      refine ⟨_, hremember hstores hstore, .stored hstores hreadOnly ?_ (fun m key hother => ?_) rfl, rfl⟩
      · exact (congrArg (TabMemory.load · _) hsame).trans (TabMemory.load_store hstore).1
      · by_cases hmemory : m = (d.editor id).memory
        · subst hmemory
          have hkey := hother.resolve_left (absurd rfl)
          exact (congrArg (TabMemory.load · _) hsame).trans (TabMemory.load_store_other hstore hkey)
        · have hset : (d.memories.set (d.editor id).memory kept)[m]? = d.memories[m]? :=
            List.getElem?_set_ne (Ne.symm hmemory)
          exact congrArg (fun kept : Option TabMemory => (kept.getD {}).load key) hset
  · exact ⟨_, rememberPage_skips (d := d.turned id index) hstores index, .skipped hstores rfl rfl, rfl⟩

/-- The page at an index is shown. -/
theorem showIndex_shows (h : Host σ) (hm : (d.editor id).memory < d.memories.length)
    (hindex : index < (d.editorTabs id).count) :
    ∃ e, showIndex id index h d = (.returned (.ok ()), e) ∧ d.Shows h id index e := by
  obtain ⟨e, hremember, hstored, hrest⟩ := rememberPage_stored h hm index
  have htabs : e.tabs = (d.turned id index).tabs := by rw [hrest]
  have heditors : e.editors = d.editors := by rw [hrest]; rfl
  obtain ⟨hactive, haside⟩ := turned_tabs hindex htabs heditors
  refine ⟨e, ?_, hactive, hstored, haside, by rw [hrest]; rfl⟩
  simp only [showIndex, look_bind]
  exact (bind_run (activate_turns hindex)).trans (bind_run hremember)

/-- The first page is shown in place of one that could not be shown, if there is a page. -/
theorem showFirst_fallsBack (h : Host σ) (d : Desk σ) (id : EditorId) (cause : PageError) :
    ∃ e, showFirst id (.error cause) h d = (.returned (), e) ∧ d.FallsBack h id cause e := by
  by_cases hsome : 0 < (d.editorTabs id).count
  · obtain ⟨hactive, haside⟩ :=
      turned_tabs (e := (d.turned id 0).noted h (.defaultPageFailed cause)) hsome rfl rfl
    exact ⟨_, showFirst_run cause hsome, by rw [if_pos hsome]; exact hactive, rfl, haside, rfl⟩
  · have hnone : activate (d.editor id).tabs 0 h (d.noted h (.defaultPageFailed cause)) = _ :=
      activate_beyond (d := d.noted h (.defaultPageFailed cause)) hsome
    have hrun : showFirst id (.error cause) h d = (.returned (), d.noted h (.defaultPageFailed cause)) := by
      simp only [showFirst, note_bind, look_bind]
      exact bind_run hnone
    exact ⟨_, hrun, by rw [if_neg hsome]; rfl, rfl, fun _ _ => rfl, rfl⟩

/-! ## What is asked for is shown -/

theorem showPage_found (hfound : (d.editorTabs id).indexOf text = .ok index)
    (hshow : showIndex id index h d = (.returned (.ok ()), e)) :
    showPage id text h d = (.returned (.ok index), e) := by
  simp only [showPage, look_bind, hfound]
  exact bind_run hshow

theorem showPage_unknown {cause : PageError} (hunknown : (d.editorTabs id).indexOf text = .error cause) :
    showPage id text h d = (.returned (.error cause), d) := by
  simp only [showPage, look_bind, hunknown, pure_run]

theorem showChoice_selects (h : Host σ) (hm : (d.editor id).memory < d.memories.length) (text : String) :
    ∃ shown e f, showChoice id text h d = (.returned shown, e) ∧ showFirst id shown h e = (.returned (), f) ∧
      d.Selects h id (some text) f := by
  cases hnumeral : numeral? text with
  | some n =>
    have hdenotes := numeral?_eq_some.mp hnumeral
    have hrun : showChoice id text h d = showIndex id n h d := by simp only [showChoice, hnumeral]
    by_cases hn : n < (d.editorTabs id).count
    · obtain ⟨e, hshow, hshows⟩ := showIndex_shows h hm hn
      exact ⟨_, e, e, hrun.trans hshow, rfl, .shows (.index hdenotes hn) hshows fun hnot => absurd hdenotes (hnot n)⟩
    · obtain ⟨f, hfirst, hfalls⟩ := showFirst_fallsBack h d id (.outOfRange n (d.editorTabs id).count)
      refine ⟨_, d, f, hrun.trans (showIndex_refused hn), hfirst,
        .fallsBack ?_ (.beyond hdenotes (Nat.le_of_not_lt hn)) hfalls⟩
      rintro index (⟨hother, hlt⟩ | ⟨hnot, -, -⟩)
      · rw [numeral?_eq_some.mpr hother] at hnumeral
        cases hnumeral
        exact hn hlt
      · exact hnot n hdenotes
  | none =>
    have hnot (n : Nat) : ¬IsNumeral text n := by
      intro hn
      rw [numeral?_eq_some.mpr hn] at hnumeral
      cases hnumeral
    have hrun : showChoice id text h d = (showPage id text >>= fun shown => pure (shown.map fun _ => ())) h d := by
      simp only [showChoice, hnumeral]
    cases hfound : (d.editorTabs id).indexOf text with
    | ok n =>
      obtain ⟨hid, hfirst⟩ := Tabs.indexOf_eq_ok.mp hfound
      have hdenotes : (d.editorTabs id).Denotes text n := .id hnot hid hfirst
      obtain ⟨e, hshow, hshows⟩ := showIndex_shows h hm hdenotes.lt_count
      have hpage := showPage_found hfound hshow
      exact ⟨_, e, e, hrun.trans (bind_run hpage), rfl, .shows hdenotes hshows fun _ => hpage⟩
    | error cause =>
      obtain ⟨rfl, hnone⟩ := Tabs.indexOf_eq_error hfound
      obtain ⟨f, hfirst, hfalls⟩ := showFirst_fallsBack h d id (.unknownPage text)
      refine ⟨_, d, f, hrun.trans (bind_run (showPage_unknown hfound)), hfirst,
        .fallsBack ?_ (.unknown hnot hnone) hfalls⟩
      rintro index (⟨hn, -⟩ | ⟨-, hid, -⟩)
      · exact hnot index hn
      · exact hnone index hid

/-- Where there are pages, one is active once a page was asked for. -/
theorem selects_active (hselects : d.Selects h id (some text) e) (hsome : 0 < (d.editorTabs id).count) :
    ∃ index, (e.editorTabs id).active = some index ∧ index < (e.editorTabs id).count := by
  cases hselects with
  | @shows _ index _ hdenotes hshows _ =>
    exact ⟨index, by rw [hshows.active], by rw [hshows.active]; exact hdenotes.lt_count⟩
  | fallsBack _ _ hfalls =>
    have hactive := hfalls.active
    rw [if_pos hsome] at hactive
    exact ⟨0, by rw [hactive], by rw [hactive]; exact hsome⟩

/-- **The page that is shown at first is the one that is asked for**, whatever text does so, and the first one where
the text denotes none; only a page that was asked for is stored. -/
theorem showInitial_selects (h : Host σ) (d : Desk σ) (id : EditorId) (page : Option String)
    (hm : (d.editor id).memory < d.memories.length) :
    ∃ choice e, d.Chosen id page choice ∧ showInitial id page h d = (.returned (), e) ∧ d.Selects h id choice e ∧
      (choice ≠ none → 0 < (d.editorTabs id).count →
        ∃ index, (e.editorTabs id).active = some index ∧ index < (e.editorTabs id).count) := by
  obtain ⟨choice, hchosen, hchoice⟩ := initialChoice_chosen h d id page
  cases choice with
  | none => exact ⟨none, d, hchosen, bind_run hchoice, .nothing, fun hnone => absurd rfl hnone⟩
  | some text =>
    obtain ⟨shown, e, f, hshow, hfirst, hselects⟩ := showChoice_selects h hm text
    exact ⟨some text, f, hchosen, (bind_run hchoice).trans ((bind_run hshow).trans hfirst), hselects,
      fun _ => selects_active hselects⟩

/-- A numeral denotes the page at its index, though the first page has it as its id; the index is stored. -/
theorem showInitial_selects_index :
    let d : Desk Unit :=
      { model := { document := some "d", location := "l" }
        tabs := [{ entries := [⟨"1", "A", .form, 0⟩, ⟨textTabId, "Source", .text, 1⟩], active := some 0 }]
        memories := [{}]
        editors := [{ name := "f", coordinator := 0, tabs := 0, memory := 0 }]
        client := () }
    (d.editor 0).memory < d.memories.length ∧ ∃ e, showInitial 0 (some "1") .silent d = (.returned (), e) ∧
      (e.editorTabs 0).active = some 1 ∧ (e.memory 0).load (d.memoryKey 0) = some "1" := by
  intro d
  have hm : (d.editor 0).memory < d.memories.length := by decide
  obtain ⟨choice, e, hchosen, hrun, hselects, -⟩ := showInitial_selects .silent d 0 (some "1") hm
  have hone : IsNumeral "1" 1 := numeral?_eq_some.mp (numeral?_toString (n := 1) (by decide))
  refine ⟨hm, e, hrun, ?_⟩
  cases hchosen
  cases hselects with
  | fallsBack hnot _ _ => exact absurd (.index hone (by decide)) (hnot 1)
  | shows hdenotes hshows _ =>
    obtain ⟨hn, -⟩ | ⟨hnot, -, -⟩ := hdenotes
    · obtain rfl := Option.some.inj ((numeral?_eq_some.mpr hn).symm.trans (numeral?_eq_some.mpr hone))
      refine ⟨by rw [hshows.active], ?_⟩
      cases hshows.stored with
      | skipped hskip _ _ => exact absurd ⟨rfl, rfl⟩ hskip
      | refused _ hreadOnly _ _ => cases hreadOnly
      | stored _ _ hload _ _ => exact hload
    · exact absurd hone (hnot 1)

end Act

end FormDesk

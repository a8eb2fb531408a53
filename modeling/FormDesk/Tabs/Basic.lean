/-
Tabs (`PageSet`): the pages of a multi-page editor in order, with the one that is
shown. Every page is known by an id of its own; at most one page shows the raw
text, always under the id `editor_part` (`TEXT_PAGE_ID`).
-/
import FormDesk.Tabs.Error

namespace FormDesk

/-- The number of a page. -/
abbrev PageId := Nat

/-- The id of the page that shows the raw text. -/
def textTabId : String := "editor_part"

/-- What a page shows. -/
inductive TabKind where
  | form
  | text
  deriving DecidableEq, Repr, Inhabited

/-- A page in the row of tabs. -/
structure Tab where
  id : String
  title : String
  kind : TabKind
  page : PageId
  deriving DecidableEq, Repr, Inhabited

/-- Pages in order, and the index of the active one. -/
structure Tabs where
  entries : List Tab := []
  active : Option Nat := none
  deriving DecidableEq, Repr, Inhabited

namespace Tabs

/-- The number of pages. -/
def count (t : Tabs) : Nat := t.entries.length

/-- Appends a page, unless its id is taken; answers its index. -/
def add (t : Tabs) (tab : Tab) : Except PageError (Nat × Tabs) :=
  if t.entries.any (·.id == tab.id) then .error (.duplicatePage tab.id)
  else .ok (t.count, { t with entries := t.entries ++ [tab] })

/-- Appends a form page. -/
def addForm (t : Tabs) (id title : String) (page : PageId) : Except PageError (Nat × Tabs) :=
  t.add ⟨id, title, .form, page⟩

/-- Appends the text page. -/
def addText (t : Tabs) (title : String) (page : PageId) : Except PageError (Nat × Tabs) :=
  t.add ⟨textTabId, title, .text, page⟩

/-- The index of the page with an id. -/
def indexOf (t : Tabs) (id : String) : Except PageError Nat :=
  match t.entries.findIdx? (·.id == id) with
  | some index => .ok index
  | none => .error (.unknownPage id)

/-- The index of the text page. -/
def textIndex? (t : Tabs) : Option Nat := t.entries.findIdx? (·.kind == .text)

/-- The id of the page at an index. -/
def idAt? (t : Tabs) (index : Nat) : Option String := t.entries[index]?.map (·.id)

/-- Makes the page at an index the active one. -/
def activate (t : Tabs) (index : Nat) : Except PageError Tabs :=
  if index < t.count then .ok { t with active := some index }
  else .error (.outOfRange index t.count)

/-- The pages of a kind, in order. -/
def ofKind (t : Tabs) (kind : TabKind) : List PageId :=
  (t.entries.filter (·.kind == kind)).map (·.page)

/-- All pages, in order. -/
def pages (t : Tabs) : List PageId := t.entries.map (·.page)

/-! ## Sound tabs -/

/-- The active page, if there is one, is among the pages. -/
def Sound (t : Tabs) : Prop := ∀ index, t.active = some index → index < t.count

theorem Sound.empty : Sound {} := nofun

/-- Without pages, there is no active one. -/
theorem Sound.eq_empty {t : Tabs} (ht : t.Sound) (hcount : t.count = 0) : t = {} := by
  obtain ⟨entries, active⟩ := t
  obtain rfl : entries = [] := List.length_eq_zero_iff.1 hcount
  cases active with
  | none => rfl
  | some index => exact absurd (ht index rfl) (Nat.not_lt_zero index)

theorem add_ok {t t' : Tabs} {tab : Tab} {index : Nat} (h : t.add tab = .ok (index, t')) :
    (∀ other ∈ t.entries, other.id ≠ tab.id) ∧ index = t.count ∧ t' = { t with entries := t.entries ++ [tab] } := by
  unfold add at h
  split at h
  · cases h
  · next hnew =>
    cases h
    exact ⟨by simpa using hnew, rfl, rfl⟩

theorem activate_ok {t t' : Tabs} {index : Nat} (h : t.activate index = .ok t') :
    index < t.count ∧ t' = { t with active := some index } := by
  unfold activate at h
  split at h
  · next hlt =>
    cases h
    exact ⟨hlt, rfl⟩
  · cases h

theorem Sound.add {t t' : Tabs} {tab : Tab} {index : Nat} (ht : t.Sound) (h : t.add tab = .ok (index, t')) :
    t'.Sound := by
  obtain ⟨-, -, rfl⟩ := add_ok h
  intro i hi
  have hlt := ht i hi
  simp only [count, List.length_append] at hlt ⊢
  omega

theorem Sound.activate {t t' : Tabs} {index : Nat} (h : t.activate index = .ok t') : t'.Sound := by
  obtain ⟨hlt, rfl⟩ := activate_ok h
  intro i hi
  cases hi
  exact hlt

end Tabs

end FormDesk

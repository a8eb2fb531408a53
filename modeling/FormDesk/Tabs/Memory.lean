/-
The memory of active pages (`PageMemory`, kept as in `InMemoryPageMemory`): which
page was last shown, by a key that names the kind of editor and the resource.
-/
import FormDesk.Tabs.Error

namespace FormDesk

/-- Remembered texts by key. -/
structure TabMemory where
  entries : List (String × String) := []
  readOnly : Bool := false
  deriving DecidableEq, Repr, Inhabited

namespace TabMemory

/-- What is remembered under a key. -/
def load (m : TabMemory) (key : String) : Option String :=
  m.entries.lookup key

/-- Remembers a text under a key, in place of what was there. -/
def store (m : TabMemory) (key value : String) : Except PageError TabMemory :=
  if m.readOnly then .error (.readOnlyMemory key)
  else .ok { m with entries := (key, value) :: m.entries.filter (·.1 != key) }

/-- What was stored is loaded. -/
theorem load_store {m m' : TabMemory} {key value : String} (h : m.store key value = .ok m') :
    m'.load key = some value ∧ m'.readOnly = m.readOnly := by
  unfold store at h
  split at h
  · cases h
  · cases h
    exact ⟨by simp [load], rfl⟩

/-- What is stored leaves the rest as it was. -/
theorem load_store_other {m m' : TabMemory} {key other value : String} (h : m.store key value = .ok m')
    (hother : other ≠ key) : m'.load other = m.load other := by
  unfold store at h
  split at h
  · cases h
  · cases h
    have hne : (other == key) = false := beq_false_of_ne hother
    simp only [load, List.lookup_cons, hne]
    induction m.entries with
    | nil => rfl
    | cons entry entries ih =>
      obtain ⟨name, text⟩ := entry
      by_cases hname : name = key
      · subst hname
        simpa [List.lookup_cons, hne] using ih
      · rw [List.filter_cons_of_pos (by simpa using hname), List.lookup_cons, List.lookup_cons, ih]

end TabMemory

end FormDesk

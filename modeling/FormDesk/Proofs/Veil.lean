/-
The veil. How deep sessions and undoable edits of a coordinator are is put
under a veil (`Desk.veil`): what shows is whether a session is open and with
what share, and whether an undoable edit is. Two desks that look the same under
the veil may differ in these depths (`Desk.levels`), and in the deeds that tell
of them.

`Beside` relates two such desks and says at which levels they are. A change of
what shows keeps them so, made on both (`BlindStep`). A session that is open
may go to another depth on one of them only, and so may an undoable edit.
-/
import FormDesk.Proofs.Calm

namespace FormDesk

variable {σ α β : Type}

/-! ## The veil -/

/-- How many sessions are nested in the outermost one does not show. -/
def Sessions.veil : Sessions → Sessions
  | idle => idle
  | active _ share => active 0 share

theorem Sessions.share?_veil (s : Sessions) : s.veil.share? = s.share? := by
  cases s <;> rfl

/-- How deep a coordinator is in sessions and in undoable edits does not show. -/
def Coordinator.veil (c : Coordinator) : Coordinator :=
  { c with session := c.session.veil, undoDepth := min c.undoDepth 1 }

/-- Whether a deed is about sessions that are entered and left, or about what is run in them. -/
def Deed.counts : Deed → Bool
  | entered .. | left _ | runs _ | ran _ => true
  | _ => false

namespace Desk

/-- What shows of a desk. -/
def veil (d : Desk σ) : Desk σ :=
  { d with
    coordinators := d.coordinators.map Coordinator.veil
    history := (d.history.toList.filter fun x => !x.counts).toArray }

section

variable (d : Desk σ)

theorem coordinator_veil (id : CoordinatorId) : d.veil.coordinator id = (d.coordinator id).veil := by
  simp only [coordinator, veil, List.getElem?_map]
  cases d.coordinators[id]? <;> rfl

/-- Whether an undoable edit is running shows. -/
theorem undoing_veil : d.veil.undoing = d.undoing := by
  simp only [undoing, veil, List.any_map]
  refine congrArg d.coordinators.any (funext fun c => ?_)
  change decide (min c.undoDepth 1 > 0) = decide (c.undoDepth > 0)
  rw [decide_eq_decide]
  omega

theorem veil_enter {x : Deed} (hx : x.counts = false) : (d.enter x).veil = d.veil.enter x := by
  simp [veil, enter, hx]

theorem veil_enter_counting {x : Deed} (hx : x.counts = true) : (d.enter x).veil = d.veil := by
  simp [veil, enter, hx]

theorem veil_withCoordinator (id : CoordinatorId) {f g : Coordinator → Coordinator}
    (hfg : (f (d.coordinator id)).veil = g (d.coordinator id).veil) :
    (d.withCoordinator id f).veil = d.veil.withCoordinator id g := by
  have hmap : (d.coordinators.modify id f).map Coordinator.veil =
      (d.coordinators.map Coordinator.veil).modify id g := by
    refine List.ext_getElem? fun i => ?_
    simp only [List.getElem?_map, List.getElem?_modify]
    by_cases hi : id = i
    · subst hi
      unfold coordinator at hfg
      cases hget : d.coordinators[id]? with
      | none => rfl
      | some c =>
        rw [hget] at hfg
        simpa using hfg
    · simp [hi]
  simp only [veil, withCoordinator, hmap]

theorem veil_withSession (id : CoordinatorId) (s : Sessions) :
    (d.withSession id s).veil = d.veil.withSession id s.veil := d.veil_withCoordinator id rfl

theorem veil_withUndoDepth (id : CoordinatorId) (f : Nat → Nat) :
    (d.withUndoDepth id f).veil = d.veil.withUndoDepth id fun _ => min (f (d.coordinator id).undoDepth) 1 :=
  d.veil_withCoordinator id rfl

end

/-- A change that a coordinator does not notice. -/
theorem withCoordinator_same {d : Desk σ} {id : CoordinatorId} {f : Coordinator → Coordinator}
    (h : f (d.coordinator id) = d.coordinator id) : d.withCoordinator id f = d := by
  have hmodify : d.coordinators.modify id f = d.coordinators := by
    refine List.ext_getElem? fun i => ?_
    rw [List.getElem?_modify]
    by_cases hi : id = i
    · subst hi
      unfold coordinator at h
      cases hget : d.coordinators[id]? with
      | none => rfl
      | some c =>
        rw [hget] at h
        simpa using h
    · simp [hi]
  simp only [withCoordinator, hmodify]

/-- A session that is open goes on being open at another depth. -/
theorem veil_nested {d : Desk σ} {id : CoordinatorId} {inner : Nat} {s : Share}
    (h : (d.coordinator id).session = .active inner s) (inner' : Nat) :
    (d.withSession id (.active inner' s)).veil = d.veil := by
  rw [veil_withSession]
  refine withCoordinator_same ?_
  rw [coordinator_veil, Coordinator.veil, h]
  rfl

/-- An undoable edit that is running goes on running among more of them, or fewer. -/
theorem veil_joined {d : Desk σ} {id : CoordinatorId} {f : Nat → Nat} (h : 0 < (d.coordinator id).undoDepth)
    (hf : 0 < f (d.coordinator id).undoDepth) : (d.withUndoDepth id f).veil = d.veil := by
  rw [veil_withUndoDepth]
  refine withCoordinator_same ?_
  simp only [coordinator_veil, Coordinator.veil, Nat.min_eq_right hf, Nat.min_eq_right h]

end Desk

/-! ## Levels -/

/-- How deep each coordinator is in sessions and in undoable edits. -/
def Levels : Type := CoordinatorId → Sessions × Nat

namespace Levels

/-- One coordinator at another level. -/
def set (l : Levels) (id : CoordinatorId) (x : Sessions × Nat) : Levels := fun c => if id = c then x else l c

/-- One coordinator in another state of its session. -/
def session (l : Levels) (id : CoordinatorId) (s : Sessions) : Levels := l.set id (s, (l id).2)

/-- One coordinator at another depth of undoable edits. -/
def undoDepth (l : Levels) (id : CoordinatorId) (n : Nat) : Levels := l.set id ((l id).1, n)

/-- Nowhere deeper in sessions. -/
def Below (l' l : Levels) : Prop := ∀ c, (l' c).1.depth ≤ (l c).1.depth

variable {l l' : Levels} {id : CoordinatorId}

@[simp] theorem set_self (x : Sessions × Nat) : l.set id x id = x := by simp [set]

/-- One coordinator going to another level and back. -/
theorem set_back (l : Levels) (id : CoordinatorId) (x : Sessions × Nat) : (l.set id x).set id (l id) = l := by
  funext c
  unfold set
  split
  · next hc => rw [hc]
  · rfl

theorem session_self (s : Sessions) : (l.session id s id).1 = s := by simp [session]

theorem undoDepth_self (n : Nat) : (l.undoDepth id n id).2 = n := by simp [undoDepth]

theorem session_undoDepth (n : Nat) : (l.undoDepth id n id).1 = (l id).1 := by simp [undoDepth]

theorem session_back {s' : Sessions} (h : (l id).1 = s') (s : Sessions) : (l.session id s).session id s' = l := by
  subst h
  simpa [session] using set_back l id (s, (l id).2)

theorem undoDepth_back {n' : Nat} (h : (l id).2 = n') (n : Nat) : (l.undoDepth id n).undoDepth id n' = l := by
  subst h
  simpa [undoDepth] using set_back l id ((l id).1, n)

theorem Below.set (h : Below l' l) {x' x : Sessions × Nat} (hx : x'.1.depth ≤ x.1.depth) :
    Below (l'.set id x') (l.set id x) := by
  intro c
  unfold Levels.set
  split
  · exact hx
  · exact h c

theorem Below.set_right (h : Below l' l) {x : Sessions × Nat} (hx : (l id).1.depth ≤ x.1.depth) :
    Below l' (l.set id x) := by
  intro c
  unfold Levels.set
  split
  · next hc =>
    subst hc
    exact Nat.le_trans (h id) hx
  · exact h c

theorem Below.session (h : Below l' l) {s' s : Sessions} (hs : s'.depth ≤ s.depth) :
    Below (l'.session id s') (l.session id s) := h.set hs

theorem Below.deeper (h : Below l' l) {s : Sessions} (hs : (l id).1.depth ≤ s.depth) :
    Below l' (l.session id s) := h.set_right hs

theorem Below.undoDepth (h : Below l' l) (n' n : Nat) : Below (l'.undoDepth id n') (l.undoDepth id n) :=
  h.set (h id)

theorem Below.joined (h : Below l' l) (n : Nat) : Below l' (l.undoDepth id n) :=
  h.set_right (Nat.le_refl _)

end Levels

namespace Desk

/-- How deep each coordinator is. -/
def levels (d : Desk σ) : Levels := fun c => ((d.coordinator c).session, (d.coordinator c).undoDepth)

section

variable {d : Desk σ} {id : CoordinatorId} (hid : id < d.coordinators.length)

include hid

theorem levels_withCoordinator (f : Coordinator → Coordinator) :
    (d.withCoordinator id f).levels =
      d.levels.set id ((f (d.coordinator id)).session, (f (d.coordinator id)).undoDepth) := by
  funext c
  simp only [levels, coordinator, withCoordinator, Levels.set, List.getElem?_modify]
  by_cases hc : id = c
  · subst hc
    simp [hid]
  · simp [hc]

theorem levels_withSession (s : Sessions) : (d.withSession id s).levels = d.levels.session id s :=
  levels_withCoordinator hid _

theorem levels_withUndoDepth (f : Nat → Nat) :
    (d.withUndoDepth id f).levels = d.levels.undoDepth id (f (d.levels id).2) :=
  levels_withCoordinator hid _

end

/-- Two desks with `n` coordinators or more look the same under the veil, and are at these levels. -/
structure Beside (n : Nat) (l l' : Levels) (d e : Desk σ) : Prop where
  size : n ≤ d.coordinators.length
  veil : e.veil = d.veil
  left : d.levels = l
  right : e.levels = l'

section

variable {n : Nat} {l l' : Levels} {d e : Desk σ} (h : Beside n l l' d e)

include h

theorem Beside.symm : Beside n l' l e d where
  size := by
    have hlength := congrArg (·.coordinators.length) h.veil
    simp only [Desk.veil, List.length_map] at hlength
    rw [hlength]
    exact h.size
  veil := h.veil.symm
  left := h.right
  right := h.left

theorem Beside.at (id : CoordinatorId) : (d.coordinator id).session = (l id).1 := by
  rw [← h.left]
  rfl

theorem Beside.undoDepth_at (id : CoordinatorId) : (d.coordinator id).undoDepth = (l id).2 := by
  rw [← h.left]
  rfl

theorem Beside.coordinator (id : CoordinatorId) : (e.coordinator id).veil = (d.coordinator id).veil := by
  rw [← coordinator_veil, ← coordinator_veil, h.veil]

theorem Beside.idle_iff (id : CoordinatorId) : (l' id).1 = .idle ↔ (l id).1 = .idle := by
  have hsession := congrArg (·.session) (h.coordinator id)
  rw [← h.left, ← h.right]
  unfold levels
  simp only [Coordinator.veil] at hsession ⊢
  cases hd : (d.coordinator id).session <;> cases he : (e.coordinator id).session
  all_goals simp_all [Sessions.veil]

/-- An open session is open on both desks, with the same share. -/
theorem Beside.active {id : CoordinatorId} {inner : Nat} {s : Share} (hs : (l id).1 = .active inner s) :
    ∃ inner', (l' id).1 = .active inner' s := by
  have hsession := congrArg (·.session) (h.coordinator id)
  rw [← h.left] at hs
  rw [← h.right]
  unfold levels at hs ⊢
  simp only [Coordinator.veil] at hsession hs ⊢
  rw [hs] at hsession
  cases he : (e.coordinator id).session with
  | idle =>
    rw [he] at hsession
    cases hsession
  | active inner' s' =>
    rw [he] at hsession
    cases hsession
    exact ⟨inner', rfl⟩

/-- An undoable edit is open on both desks, or on neither. -/
theorem Beside.undoing (id : CoordinatorId) : min (l' id).2 1 = min (l id).2 1 := by
  rw [← h.left, ← h.right]
  exact congrArg (·.undoDepth) (h.coordinator id)

/-- A deed about what runs in sessions may be entered on one desk only. -/
theorem Beside.counting {x : Deed} (hx : x.counts = true) : Beside n l l' (d.enter x) e :=
  ⟨h.size, h.veil.trans (d.veil_enter_counting hx).symm, h.left, h.right⟩

variable {id : CoordinatorId} (hid : id < n)

include hid

/-- An open session may go to another depth on one desk only. -/
theorem Beside.nested {inner : Nat} {s : Share} (hs : (l id).1 = .active inner s) (inner' : Nat) :
    Beside n (l.session id (.active inner' s)) l' (d.withSession id (.active inner' s)) e where
  size := by simpa [withSession, withCoordinator] using h.size
  veil := by
    rw [← h.left] at hs
    rw [veil_nested hs, h.veil]
  left := by rw [levels_withSession (Nat.lt_of_lt_of_le hid h.size), h.left]
  right := h.right

/-- A session may open and close on both desks. -/
theorem Beside.session (s : Sessions) :
    Beside n (l.session id s) (l'.session id s) (d.withSession id s) (e.withSession id s) where
  size := by simpa [withSession, withCoordinator] using h.size
  veil := by rw [veil_withSession, veil_withSession, h.veil]
  left := by rw [levels_withSession (Nat.lt_of_lt_of_le hid h.size), h.left]
  right := by rw [levels_withSession (Nat.lt_of_lt_of_le hid h.symm.size), h.right]

/-- An undoable edit may be joined and left again on one desk only. -/
theorem Beside.joined {f : Nat → Nat} (hopen : 0 < (l id).2) (hf : 0 < f (l id).2) :
    Beside n (l.undoDepth id (f (l id).2)) l' (d.withUndoDepth id f) e where
  size := by simpa [withUndoDepth, withCoordinator] using h.size
  veil := by
    rw [← h.left] at hopen hf
    rw [veil_joined hopen hf, h.veil]
  left := by rw [levels_withUndoDepth (Nat.lt_of_lt_of_le hid h.size), h.left]
  right := h.right

/-- Undoable edits may begin and end on both desks. -/
theorem Beside.undoDepth {f : Nat → Nat} (hf : min (f (l' id).2) 1 = min (f (l id).2) 1) :
    Beside n (l.undoDepth id (f (l id).2)) (l'.undoDepth id (f (l' id).2)) (d.withUndoDepth id f)
      (e.withUndoDepth id f) where
  size := by simpa [withUndoDepth, withCoordinator] using h.size
  veil := by
    rw [← h.left, ← h.right] at hf
    rw [veil_withUndoDepth, veil_withUndoDepth, h.veil]
    exact congrArg (fun x => d.veil.withUndoDepth id fun _ => x) hf
  left := by rw [levels_withUndoDepth (Nat.lt_of_lt_of_le hid h.size), h.left]
  right := by rw [levels_withUndoDepth (Nat.lt_of_lt_of_le hid h.symm.size), h.right]

end

end Desk

namespace Desk

/-- A change of what shows, which leaves the depths of coordinators alone. -/
structure BlindStep (f : Desk σ → Desk σ) : Prop where
  veil : ∀ d, (f d).veil = f d.veil
  levels : ∀ d, (f d).levels = d.levels
  size : ∀ d, d.coordinators.length ≤ (f d).coordinators.length
  grows : ∀ d, Grows d (f d)

/-- Coordinators and what happened stay as they are. -/
theorem BlindStep.of_same {f : Desk σ → Desk σ} (hveil : ∀ d, (f d).veil = f d.veil)
    (hc : ∀ d, (f d).coordinators = d.coordinators) (hw : ∀ d, (f d).history = d.history) : BlindStep f where
  veil := hveil
  levels d := by
    funext c
    simp only [Desk.levels, Desk.coordinator, hc]
  size d := Nat.le_of_eq (by rw [hc])
  grows d := by simp [Grows, hw d]

theorem BlindStep.enter {x : Deed} (hx : x.counts = false) : BlindStep fun d : Desk σ => d.enter x where
  veil d := d.veil_enter hx
  levels _ := rfl
  size _ := Nat.le_refl _
  grows d := d.grows_enter x

theorem BlindStep.comp {f g : Desk σ → Desk σ} (hf : BlindStep f) (hg : BlindStep g) :
    BlindStep fun d => g (f d) where
  veil d := by rw [hg.veil, hf.veil]
  levels d := by rw [hg.levels, hf.levels]
  size d := Nat.le_trans (hf.size d) (hg.size _)
  grows d := (hf.grows d).trans (hg.grows _)

theorem BlindStep.accepted (s : Share) (c : Call) (m : Model) : BlindStep fun d : Desk σ => d.accepted s c m :=
  .comp (g := fun d => { d with model := m }) (.enter rfl) (.of_same (fun _ => rfl) (fun _ => rfl) fun _ => rfl)

theorem BlindStep.put (document : Document) :
    BlindStep fun d : Desk σ => { d.enter (.mutated true) with model := d.model.putDocument document } :=
  .comp (g := fun d => { d with model := d.model.putDocument document }) (.enter rfl)
    (.of_same (fun _ => rfl) (fun _ => rfl) fun _ => rfl)

theorem Beside.step {f : Desk σ → Desk σ} (hf : BlindStep f) {n : Nat} {l l' : Levels} {d e : Desk σ}
    (h : Beside n l l' d e) : Beside n l l' (f d) (f e) where
  size := Nat.le_trans h.size (hf.size d)
  veil := by rw [hf.veil, hf.veil, h.veil]
  left := (hf.levels d).trans h.left
  right := (hf.levels e).trans h.right

end Desk

end FormDesk

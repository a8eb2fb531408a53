/-
The course of a share. A share of an edit session is taken for editing, opens
a bracket, serves the session's mutations, closes the bracket and is given
back; a share of a recording is only taken and given back, and so is one that
cannot open a bracket. `Course i q w q'` says that the deeds `w` lead the share
numbered `i` from the stage `q` to `q'` in this way.

A share that is spent has no deeds left. So deeds that lead a spent share
anywhere do not mention it, and leave it at whatever stage it is
(`Course.untouched`).
-/
import FormDesk.Desk.Basic

namespace FormDesk

/-- How far a share has come. -/
inductive Stage where
  | unused
  | taken
  | recording
  | bracketed
  | running
  | closing
  | spent
  deriving DecidableEq, Repr

/-- Whether a deed is done with the share numbered `i`. -/
def Deed.mentions (i : Nat) : Deed → Bool
  | call j _ | opened _ j => j == i
  | _ => false

@[simp] theorem Deed.mentions_call (i j : Nat) (c : Call) : (Deed.call j c).mentions i = (j == i) := rfl

@[simp] theorem Deed.mentions_opened (i j : Nat) (id : CoordinatorId) :
    (Deed.opened id j).mentions i = (j == i) := rfl

/-- What is done with the share numbered `i` in a session of a coordinator: it is taken, opens the
bracket, serves `k` mutations, closes the bracket and goes back. -/
def Deed.session (id : CoordinatorId) (i k : Nat) : List Deed :=
  [call i (.acquire .edit), call i .aboutToChange, opened id i] ++
    (List.replicate k (call i .mutate) ++ [call i .changed, call i (.release .edit)])

/-- The deeds lead the share numbered `i` from one stage to another. -/
inductive Course (i : Nat) : Stage → List Deed → Stage → Prop
  | nil (q) : Course i q [] q
  | other {e q w q'} : e.mentions i = false → Course i q w q' → Course i q (e :: w) q'
  | acquire {w q} : Course i .taken w q → Course i .unused (.call i (.acquire .edit) :: w) q
  | beginRecording {label w q} : Course i .recording w q →
      Course i .taken (.call i (.beginRecording label) :: w) q
  | endRecording {w q} : Course i .recording w q → Course i .taken (.call i .endRecording :: w) q
  | recorded {w q} : Course i .spent w q → Course i .recording (.call i (.release .edit) :: w) q
  | giveUp {w q} : Course i .spent w q → Course i .taken (.call i (.release .edit) :: w) q
  | aboutToChange {w q} : Course i .bracketed w q → Course i .taken (.call i .aboutToChange :: w) q
  | opened {id w q} : Course i .running w q → Course i .bracketed (.opened id i :: w) q
  | mutate {w q} : Course i .running w q → Course i .running (.call i .mutate :: w) q
  | changed {w q} : Course i .closing w q → Course i .running (.call i .changed :: w) q
  | release {w q} : Course i .spent w q → Course i .closing (.call i (.release .edit) :: w) q

namespace Course

variable {i : Nat} {q q' q'' : Stage} {w v : List Deed}

theorem append (h : Course i q w q') (h' : Course i q' v q'') : Course i q (w ++ v) q'' := by
  induction h with
  | nil => exact h'
  | other he _ ih => exact .other he (ih h')
  | acquire _ ih => exact .acquire (ih h')
  | beginRecording _ ih => exact .beginRecording (ih h')
  | endRecording _ ih => exact .endRecording (ih h')
  | recorded _ ih => exact .recorded (ih h')
  | giveUp _ ih => exact .giveUp (ih h')
  | aboutToChange _ ih => exact .aboutToChange (ih h')
  | opened _ ih => exact .opened (ih h')
  | mutate _ ih => exact .mutate (ih h')
  | changed _ ih => exact .changed (ih h')
  | release _ ih => exact .release (ih h')

/-- Deeds that do not mention a share leave it at its stage. -/
theorem of_unmentioned (h : ∀ e ∈ w, e.mentions i = false) (q : Stage) : Course i q w q := by
  induction w with
  | nil => exact .nil q
  | cons e w ih => exact .other (h e (by simp)) (ih fun e he => h e (by simp [he]))

/-- A spent share is not mentioned again. -/
theorem unmentioned (h : Course i .spent w q) : ∀ e ∈ w, e.mentions i = false := by
  induction w with
  | nil => simp
  | cons e w ih =>
    cases h with
    | other he h =>
      intro e' he'
      rcases List.mem_cons.1 he' with rfl | he'
      · exact he
      · exact ih h e' he'

/-- Deeds that start with the share spent leave it wherever it is. -/
theorem untouched (h : Course i .spent w q) (q : Stage) : Course i q w q :=
  of_unmentioned h.unmentioned q

/-- A share that is unused in the end has not been mentioned. -/
theorem unmentioned_of_unused (h : Course i q w .unused) : q = .unused ∧ ∀ e ∈ w, e.mentions i = false := by
  induction w generalizing q with
  | nil =>
    cases h
    exact ⟨rfl, by simp⟩
  | cons e w ih =>
    cases h with
    | other he h =>
      obtain ⟨hunused, hrest⟩ := ih h
      refine ⟨hunused, fun e' he' => ?_⟩
      rcases List.mem_cons.1 he' with rfl | he'
      · exact he
      · exact hrest e' he'
    | acquire h | beginRecording h | endRecording h | recorded h | giveUp h | aboutToChange h | opened h
    | mutate h | changed h | release h => cases (ih h).1

/-! ## What a finished session has done -/

theorem filter_of_spent (h : Course i .spent w q) : w.filter (·.mentions i) = [] := by
  rw [List.filter_eq_nil_iff]
  intro e he
  simp [h.unmentioned e he]

theorem filter_of_closing (h : Course i .closing w .spent) :
    w.filter (·.mentions i) = [.call i (.release .edit)] := by
  induction w with
  | nil => cases h
  | cons e w ih =>
    cases h with
    | other he h => simpa [he] using ih h
    | release h => simp [h.filter_of_spent]

theorem filter_of_running (h : Course i .running w .spent) :
    ∃ k, w.filter (·.mentions i) =
      List.replicate k (.call i .mutate) ++ [.call i .changed, .call i (.release .edit)] := by
  induction w with
  | nil => cases h
  | cons e w ih =>
    cases h with
    | other he h => simpa [he] using ih h
    | mutate h =>
      obtain ⟨k, hk⟩ := ih h
      exact ⟨k + 1, by simp [hk, List.replicate_succ]⟩
    | changed h => exact ⟨0, by simp [h.filter_of_closing]⟩

theorem filter_of_bracketed (h : Course i .bracketed w .spent) :
    ∃ id k, w.filter (·.mentions i) = .opened id i ::
      (List.replicate k (.call i .mutate) ++ [.call i .changed, .call i (.release .edit)]) := by
  induction w with
  | nil => cases h
  | cons e w ih =>
    cases h with
    | other he h => simpa [he] using ih h
    | @opened id _ _ h =>
      obtain ⟨k, hk⟩ := h.filter_of_running
      exact ⟨id, k, by simp [hk]⟩

theorem not_opened_of_recording (h : Course i .recording w .spent) (id : CoordinatorId) :
    .opened id i ∉ w := by
  induction w with
  | nil => cases h
  | cons e w ih =>
    intro ho
    cases h with
    | other he h =>
      rcases List.mem_cons.1 ho with rfl | ho
      · simp at he
      · exact ih h ho
    | recorded h =>
      rcases List.mem_cons.1 ho with ho | ho
      · cases ho
      · simpa using h.unmentioned _ ho

theorem filter_of_taken {id : CoordinatorId} (h : Course i .taken w .spent) (ho : .opened id i ∈ w) :
    ∃ id k, w.filter (·.mentions i) = .call i .aboutToChange :: .opened id i ::
      (List.replicate k (.call i .mutate) ++ [.call i .changed, .call i (.release .edit)]) := by
  induction w with
  | nil => cases h
  | cons e w ih =>
    cases h with
    | other he h =>
      rcases List.mem_cons.1 ho with rfl | ho
      · simp at he
      · simpa [he] using ih h ho
    | beginRecording h | endRecording h => exact absurd (by simpa using ho) (h.not_opened_of_recording id)
    | giveUp h => simpa using h.unmentioned (.opened id i) (by simpa using ho)
    | aboutToChange h =>
      obtain ⟨id, k, hk⟩ := h.filter_of_bracketed
      exact ⟨id, k, by simp [hk]⟩

/-- **What a session has done.** A share that serves a session and comes to be spent does what is due in
a session of that coordinator, in this order, and nothing else. -/
theorem filter_of_opened {id : CoordinatorId} (h : Course i .unused w .spent) (ho : .opened id i ∈ w) :
    ∃ k, w.filter (·.mentions i) = Deed.session id i k := by
  have hany : ∃ id k, w.filter (·.mentions i) = Deed.session id i k := by
    induction w with
    | nil => cases h
    | cons e w ih =>
      cases h with
      | other he h =>
        rcases List.mem_cons.1 ho with rfl | ho
        · simp at he
        · simpa [he] using ih h ho
      | acquire h =>
        obtain ⟨id, k, hk⟩ := h.filter_of_taken (by simpa using ho)
        exact ⟨id, k, by simp [hk, Deed.session]⟩
  obtain ⟨id', k, hk⟩ := hany
  have hmem : .opened id i ∈ w.filter (·.mentions i) := List.mem_filter.2 ⟨ho, by simp⟩
  rw [hk] at hmem
  obtain rfl : id = id' := by simpa [Deed.session] using hmem
  exact ⟨k, hk⟩

end Course

end FormDesk

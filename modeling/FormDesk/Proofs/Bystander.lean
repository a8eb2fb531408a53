/-
Bystanders: clients that return when they are told something, and keep a state
of their own and nothing else. With them an event comes to what is told
(`emit_run`): one telling for each listener that was put up by a client, one for
each view and one for each page behind a relay whose observer is still there,
in the order of the subscriptions. Everything else on the desk is as it was.

So each event that goes out is heard once by a client's listener for each of its
subscriptions (`emit_hears`).
-/
import FormDesk.Proofs.Client

namespace FormDesk

variable {σ : Type}

/-- The clients return, and change nothing but their own state. -/
def Host.Bystander (h : Host σ) : Prop := ∀ c d, ∃ s, h.answer c d = (.returned (), { d with client := s })

theorem Host.Bystander.silent : (Host.silent : Host σ).Bystander := fun _ d => ⟨d.client, rfl⟩

namespace Desk

/-- The desk after some more deeds, with the clients in another state. -/
def later (d : Desk σ) (w : List Deed) (s : σ) : Desk σ :=
  { d with history := d.history ++ w.toArray, client := s }

variable {d : Desk σ} {w v : List Deed} {s t : σ}

@[simp] theorem later_nil : d.later [] d.client = d := by simp [later]

@[simp] theorem later_later : (d.later w s).later v t = d.later (w ++ v) t := by simp [later]

@[simp] theorem toList_later : (d.later w s).history.toList = d.history.toList ++ w := by simp [later]

@[simp] theorem model_later : (d.later w s).model = d.model := rfl

theorem enter_eq_later (d : Desk σ) (x : Deed) : d.enter x = d.later [x] d.client := by simp [later, enter]

/-- What an observer that is still there is told of an event. -/
def observed (d : Desk σ) (event : Event) : Observer → List Deed
  | .view id => [.told (.view id event) d.model.document]
  | .tabs id =>
    match event with
    | .changed document => (d.tabsOf id).pages.map fun page => .told (.pageChanged page document) d.model.document
    | _ => []

/-- What a listener is told of an event. -/
def told (d : Desk σ) (event : Event) : Listener → List Deed
  | .client id => [.told (.listener id event) d.model.document]
  | .relay o => if d.present o then d.observed event o else []

/-- What the listeners are told of an event, one after another. -/
def tellings (d : Desk σ) (event : Event) : List Deed :=
  d.model.subscriptions.flatMap fun s => d.told event s.listener

end Desk

namespace Act

variable {h : Host σ} (hh : h.Bystander)

/-- What is told to each of a list, one after another, as it would be told at first. -/
theorem each_tells {β : Type} {f : β → Act σ Unit} (tells : β → List Deed) {d : Desk σ}
    (hf : ∀ x w s, ∃ t, f x h (d.later w s) = (.returned (), d.later (w ++ tells x) t)) :
    ∀ (xs : List β) (w : List Deed) (s : σ),
      ∃ t, each xs f h (d.later w s) = (.returned (), d.later (w ++ xs.flatMap tells) t)
  | [], w, s => ⟨s, by simp [each]⟩
  | x :: xs, w, s => by
    obtain ⟨t, ht⟩ := hf x w s
    obtain ⟨u, hu⟩ := each_tells tells hf xs (w ++ tells x) t
    exact ⟨u, (bind_run ht).trans (by rw [hu, List.flatMap_cons, List.append_assoc])⟩

include hh

theorem call_tells (c : Callback) (d : Desk σ) :
    ∃ s, call c h d = (.returned (), d.later [.told c d.model.document] s) := by
  obtain ⟨s, hs⟩ := hh c (d.enter (.told c d.model.document))
  refine ⟨s, ?_⟩
  simp only [call, hs]
  simp [Desk.later, Desk.enter]

theorem notify_tells (o : Observer) (event : Event) (d : Desk σ) :
    ∃ s, notify o event h d = (.returned (), d.later (d.observed event o) s) := by
  cases o with
  | view id => exact call_tells hh _ d
  | tabs id =>
    cases event with
    | changed document =>
      obtain ⟨s, hs⟩ := each_tells (f := fun page => call (.pageChanged page document))
        (fun page => [.told (.pageChanged page document) d.model.document]) (d := d)
        (fun page w s => by
          obtain ⟨t, ht⟩ := call_tells hh (.pageChanged page document) (d.later w s)
          exact ⟨t, by simpa using ht⟩) (d.tabsOf id).pages [] d.client
      refine ⟨s, ?_⟩
      simpa only [notify, look_bind, Desk.observed, List.map_eq_flatMap, Desk.later_nil, List.nil_append] using hs
    | _ => exact ⟨d.client, by simp [notify, Desk.observed]⟩

theorem deliver_tells (event : Event) (l : Listener) (d : Desk σ) :
    ∃ s, deliver event l h d = (.returned (), d.later (d.told event l) s) := by
  cases l with
  | client id => exact call_tells hh _ d
  | relay o =>
    by_cases hhere : d.present o = true
    · obtain ⟨s, hs⟩ := notify_tells hh o event { d with held := o.ref :: d.held }
      refine ⟨s, ?_⟩
      have hrun : ensure (notify o event) (unhold o.ref) h { d with held := o.ref :: d.held } =
          (.returned (), d.later (d.observed event o) s) := by
        refine (ensure_run hs (change_run _ _)).trans ?_
        simp only [Desk.later, List.erase_cons_head]
        cases o <;> rfl
      simp only [deliver, notifyPresent, look_bind, hhere, if_true, Desk.told]
      exact hrun
    · exact ⟨d.client, by simp [deliver, notifyPresent, Desk.told, hhere]⟩

/-- **An event comes to what is told.** -/
theorem emit_run (event : Event) (d : Desk σ) :
    ∃ s, emit event h d = (.returned (), d.later (.emitted event :: d.tellings event) s) := by
  obtain ⟨s, hs⟩ := each_tells (f := fun s : Subscription => deliver event s.listener)
    (fun s => d.told event s.listener) (d := d)
    (fun x w s => by
      obtain ⟨t, ht⟩ := deliver_tells hh event x.listener (d.later w s)
      have htold : (d.later w s).told event x.listener = d.told event x.listener := by
        cases x.listener with
        | client id => rfl
        | relay o => cases o <;> cases event <;> rfl
      exact ⟨t, by simpa [htold] using ht⟩) d.model.subscriptions [.emitted event] d.client
  refine ⟨s, ?_⟩
  simp only [emit, did_bind, look_bind, Desk.enter_eq_later]
  exact hs

end Act

/-! ## What is heard -/

/-- An event that goes out. -/
def Deed.emitted? : Deed → Option Event
  | emitted event => some event
  | _ => none

/-- An event that a client's listener is told of. -/
def Deed.hears? (id : ListenerId) : Deed → Option Event
  | told (.listener i event) _ => if i = id then some event else none
  | _ => none

namespace Desk

/-- The events that went out, one after another. -/
def emitted (d : Desk σ) : List Event := d.history.toList.filterMap Deed.emitted?

/-- The events that a client's listener was told of, one after another. -/
def hears (d : Desk σ) (id : ListenerId) : List Event := d.history.toList.filterMap (Deed.hears? id)

/-- How many subscriptions a client's listener has. -/
def listening (d : Desk σ) (id : ListenerId) : Nat := d.model.subscriptions.countP (·.listener == .client id)

variable {d : Desk σ} {event : Event} {id : ListenerId}

theorem observed_unheard (o : Observer) : (d.observed event o).filterMap (Deed.hears? id) = [] := by
  rw [List.filterMap_eq_nil_iff]
  intro x hx
  cases o with
  | view i =>
    rw [List.mem_singleton.1 hx]
    rfl
  | tabs i =>
    cases event with
    | changed document =>
      obtain ⟨page, -, rfl⟩ := List.mem_map.1 hx
      rfl
    | _ => cases hx

theorem told_heard (l : Listener) :
    (d.told event l).filterMap (Deed.hears? id) = if l = .client id then [event] else [] := by
  cases l with
  | client i => by_cases hi : i = id <;> simp [told, Deed.hears?, hi]
  | relay o =>
    simp only [told, reduceCtorEq, if_false]
    split
    · exact observed_unheard o
    · rfl

theorem tellings_heard :
    (d.tellings event).filterMap (Deed.hears? id) = List.replicate (d.listening id) event := by
  unfold tellings listening
  generalize d.model.subscriptions = subscriptions
  induction subscriptions with
  | nil => rfl
  | cons s rest ih =>
    rw [List.flatMap_cons, List.filterMap_append, ih, told_heard, List.countP_cons]
    by_cases hs : s.listener = .client id <;> simp [hs, List.replicate_succ]

theorem tellings_told {x : Deed} (hx : x ∈ d.tellings event) : ∃ c, x = .told c d.model.document := by
  obtain ⟨s, -, hx⟩ := List.mem_flatMap.1 hx
  unfold told at hx
  split at hx
  · exact ⟨_, List.mem_singleton.1 hx⟩
  · split at hx
    · unfold observed at hx
      split at hx
      · exact ⟨_, List.mem_singleton.1 hx⟩
      · split at hx
        · obtain ⟨page, -, rfl⟩ := List.mem_map.1 hx
          exact ⟨_, rfl⟩
        · cases hx
    · cases hx

theorem tellings_unemitted : (d.tellings event).filterMap Deed.emitted? = [] := by
  rw [List.filterMap_eq_nil_iff]
  intro x hx
  obtain ⟨c, rfl⟩ := tellings_told hx
  rfl

end Desk

/-- An event goes out once, and a client's listener hears it as often as it has subscribed. -/
theorem Act.emit_hears {h : Host σ} (hh : h.Bystander) (event : Event) (d : Desk σ) :
    ∃ e, emit event h d = (.returned (), e) ∧ e.model = d.model ∧ e.emitted = d.emitted ++ [event] ∧
      ∀ id, e.hears id = d.hears id ++ List.replicate (d.listening id) event := by
  obtain ⟨s, hs⟩ := emit_run hh event d
  refine ⟨_, hs, rfl, ?_, fun id => ?_⟩
  · simp [Desk.emitted, Deed.emitted?, Desk.tellings_unemitted]
  · rw [Desk.hears, Desk.toList_later, List.filterMap_append, List.filterMap_cons_none rfl, Desk.tellings_heard]
    rfl

end FormDesk
